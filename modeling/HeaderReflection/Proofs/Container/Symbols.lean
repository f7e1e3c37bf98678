import HeaderReflection.Container.Basic
import HeaderReflection.Proofs.Declaration.TypeNames

/-!
# Symbols of containers

A container's symbol has an underscore for each scope mark of its qualified name. Names without
colons are joined by underscores in it, so it spells the words that stand between the underscores of
these names, and tells no more about the container than these words.

* `symbol_eq_intercalate`: the symbol of a container whose names have no colon.
* `symbol_eq_iff`: two such containers share their symbol just if their names spell the same words.
* `isIdentifier_symbol`: identifiers make up a symbol that is one.
* `underscore_append_inj`: what stands behind the last underscore of a text is read back.
-/

namespace HeaderReflection

/-! ## Scope marks -/

/-- An underscore for the first scope mark behind a text without colons. -/
theorem flattenScopes_append {cs : List Char} (h : ':' ∉ cs) (rest : List Char) :
    flattenScopes (cs ++ ':' :: ':' :: rest) = cs ++ '_' :: flattenScopes rest := by
  induction cs with
  | nil => rfl
  | cons c cs ih =>
    obtain ⟨hc, hcs⟩ := not_or.1 (mt List.mem_cons.2 h)
    rw [List.cons_append, flattenScopes, ih hcs, List.cons_append]
    rintro _ rfl
    exact (hc rfl).elim

theorem flattenScopes_eq_self {cs : List Char} (h : ':' ∉ cs) : flattenScopes cs = cs := by
  induction cs with
  | nil => rfl
  | cons c cs ih =>
    obtain ⟨hc, hcs⟩ := not_or.1 (mt List.mem_cons.2 h)
    rw [flattenScopes, ih hcs]
    rintro _ rfl
    exact (hc rfl).elim

/-- Names without colons are joined by underscores instead of scope marks. -/
theorem flattenScopes_intercalate {names : List String} (h : ∀ n ∈ names, ':' ∉ n.toList) :
    flattenScopes ("::".intercalate names).toList = ("_".intercalate names).toList := by
  induction names with
  | nil => rfl
  | cons n names ih =>
    have hn := h n List.mem_cons_self
    cases names with
    | nil =>
      rw [String.intercalate_singleton, String.intercalate_singleton, flattenScopes_eq_self hn]
    | cons next names =>
      have hrest := ih fun m hm => h m (List.mem_cons_of_mem _ hm)
      have hmarks : ("::".intercalate (n :: next :: names)).toList =
          n.toList ++ ':' :: ':' :: ("::".intercalate (next :: names)).toList := by
        simp [String.intercalate_cons_cons]
      rw [hmarks, flattenScopes_append hn, hrest]
      simp [String.intercalate_cons_cons]

namespace Container

/-- The names that a container is called by from global scope, outermost first. -/
def names (c : Container) : List String :=
  c.scope ++ [c.name]

theorem names_ne_nil (c : Container) : c.names ≠ [] := by
  simp [names]

theorem symbol_eq_intercalate {c : Container} (h : ∀ n ∈ c.names, ':' ∉ n.toList) :
    c.symbol = "_".intercalate c.names := by
  rw [symbol, show c.qualifiedName = "::".intercalate c.names from rfl,
    flattenScopes_intercalate h, String.ofList_toList]

end Container

/-! ## Words between underscores -/

/-- The words between the underscores of names. -/
def wordsOf (names : List String) : List (List Char) :=
  names.flatMap fun n => n.toList.splitOn '_'

theorem splitOn_append_underscore (xs ys : List Char) :
    (xs ++ '_' :: ys).splitOn '_' = xs.splitOn '_' ++ ys.splitOn '_' :=
  List.splitOnP_append_cons xs ys (beq_self_eq_true '_')

/-- Names that are joined by underscores fall into their words. -/
theorem splitOn_intercalate_underscore {names : List String} (hne : names ≠ []) :
    ("_".intercalate names).toList.splitOn '_' = wordsOf names := by
  induction names with
  | nil => exact absurd rfl hne
  | cons n names ih =>
    cases names with
    | nil => simp [wordsOf]
    | cons next names =>
      have hrest := ih (by simp)
      have hcut : ("_".intercalate (n :: next :: names)).toList =
          n.toList ++ '_' :: ("_".intercalate (next :: names)).toList := by
        simp [String.intercalate_cons_cons]
      rw [hcut, splitOn_append_underscore]
      exact congrArg (n.toList.splitOn '_' ++ ·) hrest

/-- Names that are joined by underscores are told apart by their words alone. -/
theorem intercalate_underscore_eq_iff {names names' : List String} (hne : names ≠ [])
    (hne' : names' ≠ []) :
    "_".intercalate names = "_".intercalate names' ↔ wordsOf names = wordsOf names' := by
  rw [← splitOn_intercalate_underscore hne, ← splitOn_intercalate_underscore hne']
  refine ⟨fun h => by rw [h], fun h => ?_⟩
  have hjoin := congrArg (List.intercalate ['_']) h
  rw [List.intercalate_splitOn, List.intercalate_splitOn] at hjoin
  exact String.toList_injective hjoin

/-- Two containers whose names have no colon share their symbol just if their names spell the same
words between underscores. -/
theorem Container.symbol_eq_iff {c d : Container} (hc : ∀ n ∈ c.names, ':' ∉ n.toList)
    (hd : ∀ n ∈ d.names, ':' ∉ n.toList) :
    c.symbol = d.symbol ↔ wordsOf c.names = wordsOf d.names := by
  rw [symbol_eq_intercalate hc, symbol_eq_intercalate hd]
  exact intercalate_underscore_eq_iff c.names_ne_nil d.names_ne_nil

/-- Names without underscores are the words that they spell. -/
theorem wordsOf_eq_map {names : List String} (h : ∀ n ∈ names, '_' ∉ n.toList) :
    wordsOf names = names.map String.toList := by
  rw [List.map_eq_flatMap]
  exact List.flatMap_congr fun n hn => List.splitOn_eq_singleton (h n hn)

/-- What stands behind the last underscore of a text is read back. -/
theorem underscore_append_inj {s s' t t' : String} (ht : '_' ∉ t.toList) (ht' : '_' ∉ t'.toList)
    (h : s ++ "_" ++ t = s' ++ "_" ++ t') : s = s' ∧ t = t' := by
  have hcut : ∀ x y : String, '_' ∉ y.toList →
      (x ++ "_" ++ y).toList.splitOn '_' = x.toList.splitOn '_' ++ [y.toList] := by
    intro x y hy
    rw [← List.splitOn_eq_singleton hy, ← splitOn_append_underscore]
    simp [String.append_assoc]
  have hlists := congrArg (fun x => x.toList.splitOn '_') h
  simp only [hcut _ _ ht, hcut _ _ ht'] at hlists
  obtain ⟨-, ht⟩ := List.append_inj' hlists rfl
  obtain rfl := String.toList_injective (List.singleton_injective ht)
  have hcut := congrArg String.toList h
  simp only [String.toList_append] at hcut
  exact ⟨String.toList_injective (List.append_cancel_right (List.append_cancel_right hcut)), rfl⟩

/-! ## Identifiers -/

/-- An identifier has no character but those of words. -/
theorem isWordChar_of_isIdentifier {s : String} (h : IsIdentifier s) :
    ∀ c ∈ s.toList, Text.isWordChar c = true :=
  fun _ hc => Token.isWordChar_of_mem h hc

theorem colon_notMem_of_isIdentifier {s : String} (h : IsIdentifier s) : ':' ∉ s.toList :=
  fun hc => absurd (isWordChar_of_isIdentifier h ':' hc) (by decide)

theorem isIdentifier_append {s t : String} (hs : IsIdentifier s)
    (ht : ∀ c ∈ t.toList, Text.isWordChar c = true) : IsIdentifier (s ++ t) := by
  unfold IsIdentifier at hs ⊢
  rw [String.toList_append]
  cases hl : s.toList with
  | nil =>
    rw [hl] at hs
    exact hs.elim
  | cons c cs =>
    rw [hl] at hs
    refine ⟨hs.1, fun d hd => ?_⟩
    rcases List.mem_append.1 hd with hd | hd
    · exact hs.2 d hd
    · exact ht d hd

/-- Identifiers that are joined by underscores make up an identifier. -/
theorem isIdentifier_intercalate {names : List String} (hne : names ≠ [])
    (h : ∀ n ∈ names, IsIdentifier n) : IsIdentifier ("_".intercalate names) := by
  induction names with
  | nil => exact absurd rfl hne
  | cons n names ih =>
    have hn := h n List.mem_cons_self
    cases names with
    | nil => rwa [String.intercalate_singleton]
    | cons next names =>
      have hrest := ih (by simp) fun m hm => h m (List.mem_cons_of_mem _ hm)
      rw [String.intercalate_cons_cons, String.append_assoc]
      refine isIdentifier_append hn fun c hc => ?_
      rw [String.toList_append] at hc
      rcases List.mem_append.1 hc with hc | hc
      · rw [List.mem_singleton.1 hc]
        decide
      · exact isWordChar_of_isIdentifier hrest c hc

/-- A container that is called by identifiers has a symbol that is one. -/
theorem Container.isIdentifier_symbol {c : Container} (h : ∀ n ∈ c.names, IsIdentifier n) :
    IsIdentifier c.symbol := by
  rw [symbol_eq_intercalate fun n hn => colon_notMem_of_isIdentifier (h n hn)]
  exact isIdentifier_intercalate c.names_ne_nil h

/-- A qualified name that is made up of identifiers is read as these, with scope marks between
them. -/
theorem Container.tokens_qualifiedName {c : Container} (h : ∀ n ∈ c.names, IsIdentifier n) :
    Declaration.tokens c.qualifiedName = c.names.intersperse "::" :=
  tokens_of_spells (TypeName.spells_path c.names_ne_nil h)

end HeaderReflection
