import HeaderReflection.Proofs.Declaration.Members

/-!
# Types and variables read back

A type is read back off its text if and only if no reserved word stands in its names: such a word is
passed over, so that the name that is read is too short. A variable of such a type is read off its
text, whatever its initializer is.

* `TypeRef.Worded.canonical_of_ofTokens`: a type that is read back is canonical.
* `Variable.Canonical.parse_append`: the initializer of a variable does not matter.
* `TypeRef.read_back_iff`: both ways together.
-/

namespace HeaderReflection

open Declaration

/-! ## Reserved words in names -/

section Reserved

variable {ty : TypeRef} {afterScope : Bool}

/-- The room for the space before a word. -/
def room (name : String) (afterScope : Bool) : Nat :=
  if name ≠ "" && !afterScope then 1 else 0

theorem length_extendName (name : String) (afterScope : Bool) (t : String) :
    (extendName name afterScope t).length = name.length + room name afterScope + t.length := by
  unfold extendName room
  split <;> simp [String.length_append, show " ".length = 1 from rfl]

theorem room_true (name : String) : room name true = 0 := by
  simp [room]

/-- Tokens are read into a name of at most the given length, or a shorter one if a word among them
is reserved. -/
def ReadsWithin (ty : TypeRef) (afterScope : Bool) (ts : List String) (length : Nat) : Prop :=
  ∃ name isConst,
    (∀ rest, collectType ty afterScope (ts ++ rest) =
      collectType { ty with name, isConst } false rest) ∧
    name.length ≤ length ∧ ((∃ s ∈ ts, s ∈ reservedWords) → name.length < length)

theorem ReadsWithin.append {ts us : List String} {m n : Nat} (h : ReadsWithin ty afterScope ts m)
    (h' : ∀ name isConst, name.length ≤ m →
      ReadsWithin { ty with name, isConst } false us (name.length + n)) :
    ReadsWithin ty afterScope (ts ++ us) (m + n) := by
  obtain ⟨name, isConst, hts, hle, hlt⟩ := h
  obtain ⟨name', isConst', hus, hle', hlt'⟩ := h' name isConst hle
  refine ⟨name', isConst', fun rest => by rw [List.append_assoc, hts, hus], by omega, ?_⟩
  rintro ⟨s, hs, hreserved⟩
  rcases List.mem_append.1 hs with hs | hs
  · have := hlt ⟨s, hs, hreserved⟩
    omega
  · have := hlt' ⟨s, hs, hreserved⟩
    omega

theorem ReadsWithin.mono {ts : List String} {m n : Nat} (h : ReadsWithin ty afterScope ts m)
    (hmn : m ≤ n) : ReadsWithin ty afterScope ts n := by
  obtain ⟨name, isConst, hread, hle, hlt⟩ := h
  exact ⟨name, isConst, hread, by omega, fun hs => Nat.lt_of_lt_of_le (hlt hs) hmn⟩

variable (ty afterScope)

/-- A reserved word adds nothing to a name. -/
theorem collectType_reserved {s : String} (h : s ∈ reservedWords) :
    ∃ isConst, ∀ rest, collectType ty afterScope (s :: rest) =
      collectType { ty with isConst } false rest := by
  have hmark : ∀ s ∈ reservedWords, s ≠ "::" ∧ s ≠ "[" ∧ s ≠ "<" ∧ s ≠ "*" ∧ s ≠ "&" := by decide
  obtain ⟨hscope, hopen, hangle, hpointer, hreference⟩ := hmark s h
  have hstep : ∀ rest, collectType ty afterScope (s :: rest) =
      collectType (extendType ty afterScope s) false rest := by
    intro rest
    rw [collectType]
    simp only [if_neg hscope, if_neg hopen, if_neg hangle]
  rcases List.mem_cons.1 h with rfl | hqualifier
  · exact ⟨_, hstep⟩
  · have hconst : s ≠ "const" := by
      rintro rfl
      exact absurd hqualifier (by decide)
    refine ⟨ty.isConst, fun rest => ?_⟩
    rw [hstep, extendType, if_neg hconst, if_neg hpointer, if_neg hreference,
      if_pos (by simpa using hqualifier)]
    cases ty
    rfl

theorem readsWithin_identifier {s : String} (h : IsIdentifier s) :
    ReadsWithin ty afterScope [s] (ty.name.length + room ty.name afterScope + s.length) := by
  have hpos : 0 < s.length := by
    rw [← String.length_toList]
    exact List.length_pos_iff.2 (toList_ne_nil (ne_empty_of_isIdentifier h))
  by_cases hreserved : s ∈ reservedWords
  · obtain ⟨isConst, hread⟩ := collectType_reserved ty afterScope hreserved
    exact ⟨ty.name, isConst, hread, by omega, fun _ => by omega⟩
  · have hplain : IsPlainWord [] s := ⟨h, hreserved, by simp⟩
    refine ⟨extendName ty.name afterScope s, ty.isConst, collectType_word hplain, ?_, ?_⟩
    · rw [length_extendName]
    · rintro ⟨t, ht, hmem⟩
      rw [List.mem_singleton.1 ht] at hmem
      exact absurd hmem hreserved

theorem readsWithin_path {path : List String} (hne : path ≠ [])
    (h : ∀ s ∈ path, IsIdentifier s) : ReadsWithin ty afterScope (path.intersperse "::")
      (ty.name.length + room ty.name afterScope + ("::".intercalate path).length) := by
  induction path generalizing ty afterScope with
  | nil => exact absurd rfl hne
  | cons s path ih =>
    have hs := readsWithin_identifier ty afterScope (h s List.mem_cons_self)
    cases path with
    | nil => simpa using hs
    | cons next path =>
      have hlength : ("::".intercalate (s :: next :: path)).length =
          s.length + (2 + ("::".intercalate (next :: path)).length) := by
        rw [String.intercalate_cons_cons, String.length_append, String.length_append,
          show "::".length = 2 from rfl]
        omega
      rw [hlength, ← Nat.add_assoc]
      refine hs.append fun name isConst _ => ?_
      -- The scope mark is always read, and no space stands behind it.
      obtain ⟨name', isConst', hread, hle, hlt⟩ :=
        ih { ty with name := name ++ "::", isConst } true (by simp)
          fun t ht => h t (List.mem_cons_of_mem _ ht)
      simp only [room_true, String.length_append, show "::".length = 2 from rfl] at hle hlt
      refine ⟨name', isConst', fun rest => ?_, by omega, ?_⟩
      · rw [List.cons_append, collectType_scope, hread]
      · rintro ⟨t, ht, hreserved⟩
        have hmem : t ∈ (next :: path).intersperse "::" := by
          rcases List.mem_cons.1 ht with rfl | ht
          · exact absurd hreserved (by decide)
          · exact ht
        have := hlt ⟨t, hmem, hreserved⟩
        omega

theorem readsWithin_words {words : List (List String)} (hne : words ≠ [])
    (h : ∀ w ∈ words, w ≠ [] ∧ ∀ s ∈ w, IsIdentifier s) :
    ReadsWithin ty afterScope (words.flatMap (·.intersperse "::"))
      (ty.name.length + room ty.name afterScope +
        (" ".intercalate (words.map ("::".intercalate ·))).length) := by
  induction words generalizing ty afterScope with
  | nil => exact absurd rfl hne
  | cons w words ih =>
    obtain ⟨hw, hpath⟩ := h w List.mem_cons_self
    have hfirst := readsWithin_path ty afterScope hw hpath
    cases words with
    | nil => simpa using hfirst
    | cons next words =>
      have hlength : (" ".intercalate ((w :: next :: words).map ("::".intercalate ·))).length =
          ("::".intercalate w).length +
            (1 + (" ".intercalate ((next :: words).map ("::".intercalate ·))).length) := by
        rw [List.map_cons, List.map_cons, String.intercalate_cons_cons, String.length_append,
          String.length_append, show " ".length = 1 from rfl]
        omega
      rw [hlength, ← Nat.add_assoc, List.flatMap_cons]
      refine hfirst.append fun name isConst _ => ?_
      refine (ih _ false (by simp) fun v hv => h v (List.mem_cons_of_mem _ hv)).mono ?_
      have hroom : room name false ≤ 1 := by
        unfold room
        split <;> omega
      dsimp only
      omega

/-- A name is read within its length. -/
theorem IsWordedName.readsWithin {isArgument : Bool} {name : String}
    (h : IsWordedName isArgument name) (hty : ty.name = "") :
    ReadsWithin ty false (tokens name) name.length := by
  rcases h with ⟨n, hn, rfl⟩ | ⟨-, hdigits⟩
  · rw [hn.tokens_text]
    unfold TypeName.tokens TypeName.text
    split
    · have hscope : ReadsWithin { ty with name := "::" } true
          (n.words.flatMap (·.intersperse "::")) _ :=
        readsWithin_words _ _ hn.ne_nil hn.isIdentifier
      obtain ⟨name, isConst, hread, hle, hlt⟩ := hscope
      simp only [room_true] at hle hlt
      refine ⟨name, isConst, fun rest => ?_, ?_, ?_⟩
      · rw [List.append_assoc, List.singleton_append, collectType_scope, hty]
        exact hread rest
      · simpa [String.length_append] using hle
      · rintro ⟨s, hs, hreserved⟩
        rcases List.mem_append.1 hs with hs | hs
        · rw [List.mem_singleton.1 hs] at hreserved
          exact absurd hreserved (by decide)
        · simpa [String.length_append] using hlt ⟨s, hs, hreserved⟩
    · have hwords := readsWithin_words ty false hn.ne_nil hn.isIdentifier
      simpa [room, hty] using hwords
  · have hnone : ∀ s ∈ reservedWords, ¬IsDigits s := by decide
    rw [tokens_of_isDigits hdigits]
    refine ⟨name, ty.isConst, IsTypeName.collectType_digits hdigits hty, Nat.le_refl _, ?_⟩
    rintro ⟨s, hs, hreserved⟩
    rw [List.mem_singleton.1 hs] at hreserved
    exact absurd hdigits (hnone name hreserved)

/-- A name without reserved words is canonical. -/
theorem IsWordedName.isTypeName {isArgument : Bool} {name : String}
    (h : IsWordedName isArgument name) (hplain : ∀ s ∈ tokens name, s ∉ reservedWords) :
    IsTypeName [] isArgument name := by
  refine h.imp_left fun ⟨n, hn, htext⟩ => ⟨n, ⟨hn.ne_nil, fun w hw => ?_⟩, htext⟩
  rw [← htext, hn.tokens_text] at hplain
  obtain ⟨hne, hid⟩ := hn.isIdentifier w hw
  exact ⟨hne, fun s hs => ⟨hid s hs, hplain s (TypeName.mem_tokens_of_mem hw hs), by simp⟩⟩

/-- A type that its own tokens spell is canonical. -/
theorem TypeRef.Worded.canonical_of_ofTokens {t : TypeRef} {isArgument : Bool}
    (h : t.Worded isArgument) (hread : TypeRef.ofTokens t.tokens = t) :
    t.Canonical [] isArgument := by
  induction h with
  | @intro t isArgument name harguments ih =>
    obtain ⟨readName, readConst, hname, -, hlt⟩ :=
      name.readsWithin { isConst := t.isConst } rfl
    have hall : TypeRef.ofTokens t.tokens =
        { name := readName, isConst := readConst, isPointer := t.isPointer
          isReference := t.isReference, isArray := t.isArray
          arguments := t.arguments.map fun a => TypeRef.ofTokens a.tokens } := by
      rw [TypeRef.ofTokens, tokens_eq, collectType_const, hname,
        collectType_argumentTokens rfl harguments,
        ← List.append_nil (suffixTokens t.isPointer t.isReference t.isArray),
        collectType_suffixTokens rfl rfl rfl, collectType]
    rw [hall] at hread
    have hsame : readName = t.name := congrArg TypeRef.name hread
    have harguments' : t.arguments.map (fun a => TypeRef.ofTokens a.tokens) = t.arguments :=
      congrArg TypeRef.arguments hread
    refine .intro (name.isTypeName fun s hs hreserved => ?_) fun a ha => ih a ha ?_
    · have := hlt ⟨s, hs, hreserved⟩
      rw [hsame] at this
      omega
    · exact List.map_inj_left.1 (harguments'.trans (List.map_id _).symm) a ha

end Reserved

/-! ## Initializers -/

/-- The marks that end the declaration of a variable. -/
def initializerMarks : List String :=
  ["=", "\x7b", ":"]

/-- The variable that a last token and the reversed tokens before it declare. -/
def declared (last : String) (before : List String) (array : Bool) : Variable :=
  let named := endsInName (last :: before)
  let type := TypeRef.ofTokens (if named then before.reverse else (last :: before).reverse)
  ⟨{ type with isArray := type.isArray || array }, if named then last else ""⟩

theorem variableOf_eq {ts before : List String} {last : String} {array : Bool}
    (h : stripBounds false (breakTop initializerMarks 0 ts).1.reverse =
      some (last :: before, array)) :
    variableOf ts =
      if (declared last before array).type.name = "" then .error (.untyped ts)
      else .ok (declared last before array) := by
  unfold variableOf
  rw [← initializerMarks, h]
  rfl

/-- Only the tokens before an initializer declare a variable. -/
theorem variableOf_congr {ts us : List String}
    (h : (breakTop initializerMarks 0 ts).1 = (breakTop initializerMarks 0 us).1) {v : Variable}
    (hv : variableOf ts = .ok v) : variableOf us = .ok v := by
  rcases hstrip : stripBounds false (breakTop initializerMarks 0 ts).1.reverse with
    _ | ⟨_ | ⟨last, before⟩, array⟩
  · unfold variableOf at hv
    rw [← initializerMarks, hstrip] at hv
    cases hv
  · unfold variableOf at hv
    rw [← initializerMarks, hstrip] at hv
    cases hv
  · rw [variableOf_eq hstrip] at hv
    rw [variableOf_eq (h ▸ hstrip)]
    split at hv
    · cases hv
    · rename_i hname
      rwa [if_neg hname]

theorem Spells.initializerMark {mark : String} (h : mark ∈ initializerMarks) :
    Spells mark.toList [mark] isBreak := by
  have hcases : mark = "=" ∨ mark = "\x7b" ∨ mark = ":" := by
    simpa [initializerMarks] using h
  rcases hcases with rfl | rfl | rfl
  · exact .mark (c := '=') rfl isBreak
  · exact .mark (c := '\x7b') rfl isBreak
  · exact .colon

/-- What initializes a canonical variable does not matter. -/
theorem Variable.Canonical.parse_append {v : Variable} (h : v.Canonical) {mark : String}
    (hmark : mark ∈ initializerMarks) (e : String) :
    Variable.parse (v.text ++ " " ++ mark ++ " " ++ e) = .ok v := by
  have hne : mark ≠ "" := by
    rintro rfl
    exact absurd hmark (by decide)
  have hspells : Spells (v.text ++ " " ++ mark).toList (v.tokens ++ [mark]) isBreak := by
    have hspaced := h.spells_text.1.spaced (.initializerMark hmark)
      (toList_ne_nil h.spells_text.2) (toList_ne_nil hne) rfl
    simpa using hspaced
  have htokens := tokens_append_of_spells hspells (append_ne_empty_right hne _)
    (" " ++ e) (by simp [isBreak])
  have hleads : Leads bracketDepth (· ∈ initializerMarks) 0 v.tokens 0 :=
    h.leads_tokens (.declaration (by decide))
  have htext : v.text ++ " " ++ mark ++ " " ++ e = v.text ++ " " ++ mark ++ (" " ++ e) := by
    simp only [String.append_assoc]
  rw [htext, Variable.parse, htokens, List.append_assoc, List.singleton_append]
  refine variableOf_congr ?_ h.variableOf_tokens
  rw [breakTop_of_leads hleads, breakTop_mark hleads hmark]

/-! ## Both ways -/

/-- A type that is spelled by identifiers is read back, and so are its variables whatever their
initializers are, if and only if no reserved word is among the identifiers. -/
theorem TypeRef.read_back_iff {t : TypeRef} (h : t.Worded false) :
    (TypeRef.ofTokens (Declaration.tokens t.render) = t ∧
      ∀ n, IsPlainWord [] n →
        Variable.parse (t.render ++ " " ++ n) = .ok ⟨t, n⟩ ∧
        ∀ mark ∈ initializerMarks, ∀ e,
          Variable.parse (t.render ++ " " ++ n ++ " " ++ mark ++ " " ++ e) = .ok ⟨t, n⟩) ↔
      t.Canonical [] false := by
  have htokens : Declaration.tokens t.render = t.tokens := tokens_of_spells h.spells_render.1
  constructor
  · rintro ⟨hread, -⟩
    rw [htokens] at hread
    exact h.canonical_of_ofTokens hread
  · intro hcanonical
    refine ⟨?_, fun n hn => ?_⟩
    · rw [htokens]
      exact hcanonical.ofTokens_tokens
    · have hv : Variable.Canonical ⟨t, n⟩ := ⟨hcanonical, hn⟩
      exact ⟨hv.parse_text, fun mark hmark e => hv.parse_append hmark e⟩

/-- A constant pointer type with nested arguments. -/
def inventoryType : TypeRef :=
  { name := "std::map", isConst := true, isPointer := true
    arguments :=
      [.named "std::string",
        { name := "std::array", isReference := true
          arguments := [{ name := "Item", isPointer := true }, .named "4"] }] }

theorem TypeRef.canonical_inventoryType : inventoryType.Canonical [] false := by
  have hpath : ∀ path : List String, path ≠ [] → (∀ s ∈ path, IsPlainWord [] s) →
      ∀ isArgument, IsTypeName [] isArgument ("::".intercalate path) := by
    intro path hne h isArgument
    simpa using IsTypeName.of_words [path] (by simp) (by simpa using ⟨hne, h⟩)
  refine .intro (hpath ["std", "map"] (by simp) (by decide) _) ?_
  refine List.forall_mem_cons.2
    ⟨.intro (hpath ["std", "string"] (by simp) (by decide) _) (by simp [named]),
      List.forall_mem_cons.2 ⟨?_, by simp⟩⟩
  refine .intro (hpath ["std", "array"] (by simp) (by decide) _) ?_
  simp only [List.forall_mem_cons]
  exact ⟨.intro (hpath ["Item"] (by simp) (by decide) _) (by simp),
    .intro (.inr ⟨rfl, by decide⟩) (by simp [named]), by simp⟩

theorem TypeRef.parse_inventory :
    inventoryType.Worded false ∧
      inventoryType.render = "const std::map<std::string, std::array<Item*, 4>&>*" ∧
      TypeRef.ofTokens (Declaration.tokens inventoryType.render) = inventoryType ∧
      Variable.parse (inventoryType.render ++ " " ++ "Inventory" ++ " " ++ "=" ++ " " ++ "1 << (") =
        .ok ⟨inventoryType, "Inventory"⟩ := by
  have hworded := canonical_inventoryType.worded
  obtain ⟨htype, hvariable⟩ := (read_back_iff hworded).2 canonical_inventoryType
  exact ⟨hworded, rfl, htype, (hvariable "Inventory" (by decide)).2 "=" (by decide) "1 << ("⟩

/-- A reserved word behind a scope mark is passed over, though the word of the name as a whole is
not reserved. -/
theorem TypeRef.scoped_const_lost :
    (TypeRef.named "a::const").Worded false ∧ "a::const" ∉ reservedWords ∧
      TypeRef.ofTokens (Declaration.tokens (TypeRef.named "a::const").render) ≠
        .named "a::const" := by
  refine ⟨.intro (.inl ⟨⟨false, [["a", "const"]]⟩, ⟨by simp, by decide⟩, by decide⟩)
    (by simp [named]), by decide, fun hread => ?_⟩
  have hname : (TypeRef.ofTokens (Declaration.tokens "a::const")).name = "a::" := by
    decide +kernel
  have hrender : (TypeRef.named "a::const").render = "a::const" := rfl
  rw [hrender] at hread
  rw [hread] at hname
  exact absurd hname (by decide)

end HeaderReflection
