import Mathlib.Data.List.DropRight
import HeaderReflection.Proofs.Declaration.Members
import HeaderReflection.Proofs.Declaration.ReadBack

/-!
# Members that cannot be assigned to

A member cannot be assigned to if it is constant, a reference or an array. The type reader keeps no
more of a declaration than whether it has met the marks of these, and of a pointer: it passes over
what stands in angle brackets, takes a square bracket for an array wherever it stands, and forgets a
`const` behind a pointer mark and every `constexpr`.

* `hears_collectType`: the decorations of a type, from the tokens that the reader hears.
* `Declaration.looksFixed_iff`: when a variable looks as if it could not be assigned to.
* `DataMember.IsPlain.looksFixed_iff`: what is heard of a member without groups but argument lists.
* `DataMember.IsPlain.fixed_iff_looksFixed`: the members whose constancy is overlooked.
-/

namespace HeaderReflection

namespace Declaration

/-! ## What the type reader hears -/

/-- The tokens that the decorations of a type are read off: those outside square and angle brackets,
with an opening square bracket for all that it holds. Behind an angle bracket that is never closed
nothing is heard. -/
def heard : List String → List String
  | [] => []
  | t :: rest =>
    if t = "[" then "[" :: heard (skipGroup rest)
    else if t = "<" then
      match _h : closeGroup 1 rest with
      | none => []
      | some (_, after) => heard after
    else t :: heard rest
termination_by ts => ts.length
decreasing_by
  · exact Nat.lt_succ_of_le (length_skipGroup_le rest)
  · have := length_closeGroup _h
    simp only [List.length_cons]
    omega
  · simp

theorem heard_cons {t : String} (hsquare : t ≠ "[") (hangle : t ≠ "<") (rest : List String) :
    heard (t :: rest) = t :: heard rest := by
  rw [heard, if_neg hsquare, if_neg hangle]

theorem heard_angle {rest group after : List String} (h : closeGroup 1 rest = some (group, after)) :
    heard ("<" :: rest) = heard after := by
  rw [heard, if_neg (by decide), if_pos rfl]
  split
  · rename_i hnone
    rw [h] at hnone
    cases hnone
  · rename_i hsome
    rw [h] at hsome
    cases hsome
    rfl

/-- An angle bracket that is never closed ends the type. -/
theorem collectType_open {ty : TypeRef} {afterScope : Bool} {rest : List String}
    (h : closeGroup 1 rest = none) : collectType ty afterScope ("<" :: rest) = ty := by
  rw [collectType, if_neg (by decide), if_neg (by decide), if_pos rfl]
  split
  · rfl
  · rename_i hsome
    rw [h] at hsome
    cases hsome

end Declaration

open Declaration

theorem mem_takeWhile_append {α : Type} (p : α → Bool) (x : α) (xs ys : List α) :
    x ∈ (xs ++ ys).takeWhile p ↔
      x ∈ xs.takeWhile p ∨ (∀ y ∈ xs, p y = true) ∧ x ∈ ys.takeWhile p := by
  induction xs with
  | nil => simp
  | cons y xs ih =>
    by_cases hy : p y = true <;> simp [hy, ih, or_assoc]

/-- A type with the decorations that some tokens add to it. A `const` counts up to the first mark of
a pointer. -/
structure TypeRef.Hears (ty : TypeRef) (hs : List String) (u : TypeRef) : Prop where
  array : u.isArray = true ↔ ty.isArray = true ∨ "[" ∈ hs
  reference : u.isReference = true ↔ ty.isReference = true ∨ "&" ∈ hs
  pointer : u.isPointer = true ↔ ty.isPointer = true ∨ "*" ∈ hs
  const : u.isConst = true ↔
    ty.isConst = true ∨ ty.isPointer = false ∧ "const" ∈ hs.takeWhile (· ≠ "*")

namespace TypeRef.Hears

variable {ty u w : TypeRef} {hs ks : List String} {t : String} {afterScope : Bool}

theorem of_eq (harray : u.isArray = ty.isArray) (hreference : u.isReference = ty.isReference)
    (hpointer : u.isPointer = ty.isPointer) (hconst : u.isConst = ty.isConst) :
    Hears ty [] u := by
  constructor <;> simp [*]

/-- What is heard of two stretches of tokens, one behind the other. -/
theorem trans (h : Hears ty hs u) (h' : Hears u ks w) : Hears ty (hs ++ ks) w where
  array := by rw [h'.array, h.array, List.mem_append, or_assoc]
  reference := by rw [h'.reference, h.reference, List.mem_append, or_assoc]
  pointer := by rw [h'.pointer, h.pointer, List.mem_append, or_assoc]
  const := by
    have hpointer : u.isPointer = false ↔
        ty.isPointer = false ∧ ∀ t ∈ hs, decide (t ≠ "*") = true := by
      have := h.pointer
      rw [← Bool.not_eq_true, this, not_or, Bool.not_eq_true]
      refine and_congr_right fun _ => ?_
      constructor
      · rintro hnot t ht
        simpa using ne_of_mem_of_not_mem ht hnot
      · intro hall hmem
        simpa using hall _ hmem
    rw [h'.const, h.const, hpointer, mem_takeWhile_append]
    grind

/-- A token that is no mark adds no decoration. -/
theorem other (ht : t ∉ ["[", "&", "*", "const"]) (harray : u.isArray = ty.isArray)
    (hreference : u.isReference = ty.isReference) (hpointer : u.isPointer = ty.isPointer)
    (hconst : u.isConst = ty.isConst) : Hears ty [t] u := by
  simp only [List.mem_cons, List.not_mem_nil, or_false, not_or] at ht
  obtain ⟨hsquare, hamp, hstar, hword⟩ := ht
  constructor
  · simp [harray, Ne.symm hsquare]
  · simp [hreference, Ne.symm hamp]
  · simp [hpointer, Ne.symm hstar]
  · simp [hconst, hstar, Ne.symm hword]

/-- What a single token adds to a type. -/
theorem extendType (hsquare : t ≠ "[") : Hears ty [t] (extendType ty afterScope t) := by
  unfold Declaration.extendType
  by_cases hconst : t = "const"
  · subst hconst
    rw [if_pos rfl]
    constructor <;> simp
  by_cases hstar : t = "*"
  · subst hstar
    rw [if_neg hconst, if_pos rfl]
    constructor <;> simp
  by_cases hamp : t = "&"
  · subst hamp
    rw [if_neg hconst, if_neg hstar, if_pos rfl]
    constructor <;> simp
  have hother : t ∉ ["[", "&", "*", "const"] := by
    simp [hsquare, hamp, hstar, hconst]
  rw [if_neg hconst, if_neg hstar, if_neg hamp]
  split
  · exact .other hother rfl rfl rfl rfl
  · split <;> exact .other hother rfl rfl rfl rfl

end TypeRef.Hears

/-- The decorations of a type are read off the tokens that are heard. -/
theorem hears_collectType (ty : TypeRef) (afterScope : Bool) (ts : List String) :
    TypeRef.Hears ty (heard ts) (collectType ty afterScope ts) := by
  fun_induction heard ts generalizing ty afterScope with
  | case1 =>
    rw [collectType]
    exact .of_eq rfl rfl rfl rfl
  | case2 rest ih =>
    rw [collectType, if_neg (by decide), if_pos rfl]
    have hone : TypeRef.Hears ty ["["] { ty with isArray := true } := by constructor <;> simp
    exact hone.trans (ih _ _)
  | case3 rest hopen _ =>
    rw [collectType_open hopen]
    exact .of_eq rfl rfl rfl rfl
  | case4 rest group after hclose _ ih =>
    rw [collectType_angle hclose]
    have hone : TypeRef.Hears ty []
        { ty with arguments := (argumentParts group.dropLast).map (collectType {} false) } :=
      .of_eq rfl rfl rfl rfl
    exact hone.trans (ih _ _)
  | case5 t rest hsquare hangle ih =>
    by_cases hscope : t = "::"
    · subst hscope
      rw [collectType, if_pos rfl]
      have hone : TypeRef.Hears ty ["::"] { ty with name := ty.name ++ "::" } :=
        .other (by decide) rfl rfl rfl rfl
      exact hone.trans (ih _ _)
    · rw [collectType, if_neg hscope, if_neg hsquare, if_neg hangle]
      exact (TypeRef.Hears.extendType hsquare).trans (ih _ _)

/-! ## Variables that look fixed -/

/-- The type is one that cannot be assigned to, as far as its decorations tell. -/
def TypeRef.IsFixed (t : TypeRef) : Prop :=
  t.isArray = true ∨ t.isReference = true ∨ t.isConst = true ∧ t.isPointer = false

namespace Declaration

/-- Tokens before the name of a variable tell that it cannot be assigned to: they hold the mark of
an array or of a reference, or a `const` but no mark of a pointer. -/
def TellFixed (hs : List String) : Prop :=
  "[" ∈ hs ∨ "&" ∈ hs ∨ "const" ∈ hs ∧ "*" ∉ hs

instance (hs : List String) : Decidable (TellFixed hs) :=
  inferInstanceAs (Decidable (_ ∨ _ ∨ _ ∧ _))

theorem isFixed_ofTokens_iff (ts : List String) :
    (TypeRef.ofTokens ts).IsFixed ↔ TellFixed (heard ts) := by
  have h : TypeRef.Hears {} (heard ts) (TypeRef.ofTokens ts) := hears_collectType {} false ts
  have hpointer : (TypeRef.ofTokens ts).isPointer = false ↔ "*" ∉ heard ts := by
    rw [← Bool.not_eq_true, h.pointer]
    simp
  have hconst : "*" ∉ heard ts → ((heard ts).takeWhile (· ≠ "*")) = heard ts := by
    intro hstar
    refine List.takeWhile_eq_self_iff.2 fun t ht => ?_
    exact decide_eq_true (ne_of_mem_of_not_mem ht hstar)
  rw [TypeRef.IsFixed, h.array, h.reference, h.const, hpointer, TellFixed]
  constructor
  · rintro (harray | hreference | ⟨hword, hstar⟩)
    · exact .inl (harray.resolve_left (by simp))
    · exact .inr (.inl (hreference.resolve_left (by simp)))
    · refine .inr (.inr ⟨?_, hstar⟩)
      rw [hconst hstar] at hword
      exact (hword.resolve_left (by simp)).2
  · rintro (harray | hreference | ⟨hword, hstar⟩)
    · exact .inl (.inr harray)
    · exact .inr (.inl (.inr hreference))
    · refine .inr (.inr ⟨.inr ⟨rfl, ?_⟩, hstar⟩)
      rwa [hconst hstar]

/-- What stands before the name of a variable, and whether array bounds stand behind it. -/
def beforeName? (ts : List String) : Option (List String × Bool) :=
  match stripBounds false (breakTop initializerMarks 0 ts).1.reverse with
  | some (_ :: before, array) => some (before.reverse, array)
  | _ => none

/-- Once bounds are met, the variable is an array. -/
theorem eq_true_of_stripBounds {ts us : List String} {array : Bool}
    (h : stripBounds true ts = some (us, array)) : array = true := by
  generalize htrue : true = found at h
  fun_induction stripBounds found ts with
  | case1 => exact (Prod.mk.inj (Option.some.inj h)).2.symm
  | case2 => cases h
  | case3 _ _ _ _ _ ih => exact (ih rfl h).trans htrue
  | case4 => exact (Prod.mk.inj (Option.some.inj h)).2.symm

/-- A square bracket at the end of a declaration makes it one of an array. -/
theorem eq_true_of_stripBounds_bracket {found array : Bool} {ts us : List String}
    (h : stripBounds found ("]" :: ts) = some (us, array)) : array = true := by
  rw [stripBounds, if_pos rfl] at h
  split at h
  · cases h
  · exact eq_true_of_stripBounds h

/-- A declaration tells that its variable cannot be assigned to, in the tokens before the name or by
array bounds. -/
def LooksFixed (ts : List String) : Prop :=
  ∃ found ∈ beforeName? ts, found.2 = true ∨ TellFixed (heard found.1)

instance (ts : List String) : Decidable (LooksFixed ts) :=
  inferInstanceAs (Decidable (∃ found ∈ beforeName? ts, _))

/-- The type of a variable with a name cannot be assigned to just if its declaration tells so. -/
theorem looksFixed_iff {ts : List String} {v : Variable} (h : variableOf ts = .ok v)
    (hname : v.name ≠ "") :
    (∃ before array, beforeName? ts = some (before, array)) ∧
      (v.type.IsFixed ↔ LooksFixed ts) := by
  rcases hstrip : stripBounds false (breakTop initializerMarks 0 ts).1.reverse with
    _ | ⟨_ | ⟨last, before⟩, array⟩
  · unfold variableOf at h
    rw [← initializerMarks, hstrip] at h
    cases h
  · unfold variableOf at h
    rw [← initializerMarks, hstrip] at h
    cases h
  · have hbefore : beforeName? ts = some (before.reverse, array) := by
      rw [beforeName?, hstrip]
    rw [variableOf_eq hstrip] at h
    split at h
    · cases h
    · obtain rfl := Except.ok.inj h
      have hnamed : endsInName (last :: before) = true := by
        by_contra hnot
        exact hname (by simp [declared, hnot])
      refine ⟨⟨_, _, hbefore⟩, ?_⟩
      have hlooks : LooksFixed ts ↔ array = true ∨ TellFixed (heard before.reverse) := by
        simp [LooksFixed, hbefore]
      rw [hlooks, ← isFixed_ofTokens_iff]
      simp only [declared, hnamed, if_true, TypeRef.IsFixed, Bool.or_eq_true]
      grind

end Declaration

/-! ## Members as they are written -/

/-- A part of what stands before the name of a member: a word or a mark, or a group in brackets,
which is an argument list, an attribute, or what an operator is applied to. -/
inductive MemberPart where
  | token (text : String)
  | group (opening : String) (inside : List String) (closing : String)

namespace MemberPart

/-- The tokens of a part. -/
def tokens : MemberPart → List String
  | token text => [text]
  | group opening inside closing => opening :: (inside ++ [closing])

/-- The part as a word or a mark outside brackets. -/
def text? : MemberPart → Option String
  | token text => some text
  | group .. => none

/-- The part is a word or a mark that opens and closes nothing, or an argument list in which
brackets are closed. -/
def IsPlain : MemberPart → Prop
  | token text => bracketDepth text = 0 ∧ text ∉ initializerMarks
  | group opening inside closing => opening = "<" ∧ closing = ">" ∧
      Leads bracketDepth (fun _ => False) 0 inside 0

instance : DecidablePred IsPlain
  | token _ => inferInstanceAs (Decidable (_ ∧ _))
  | group _ _ _ => inferInstanceAs (Decidable (_ ∧ _ ∧ _))

end MemberPart

/-- A data member as it is written. Its bounds are the tokens between square brackets behind its
name, and its initializer starts with the mark of one, or with that of a bit width. -/
structure DataMember where
  parts : List MemberPart
  name : String
  bounds : List (List String) := []
  initializer : List String := []

namespace DataMember

/-- The tokens before the name. -/
def leading (m : DataMember) : List String :=
  m.parts.flatMap MemberPart.tokens

/-- The tokens of the bounds, with their brackets. -/
def boundTokens (m : DataMember) : List String :=
  m.bounds.flatMap fun b => "[" :: (b ++ ["]"])

/-- The tokens of a member. -/
def tokens (m : DataMember) : List String :=
  m.leading ++ m.name :: (m.boundTokens ++ m.initializer)

/-- The words and marks before the name, outside brackets. -/
def specifiers (m : DataMember) : List String :=
  m.parts.filterMap MemberPart.text?

/-- The member is constant: it is `constexpr`, or `const` stands behind its last mark of a pointer,
or anywhere if it has none. -/
def IsConstant (m : DataMember) : Prop :=
  "constexpr" ∈ m.specifiers ∨ "const" ∈ m.specifiers.rtakeWhile (· ≠ "*")

/-- The member is a reference. -/
def IsReference (m : DataMember) : Prop :=
  "&" ∈ m.specifiers

/-- The member is an array. -/
def IsArray (m : DataMember) : Prop :=
  m.bounds ≠ []

/-- The member cannot be assigned to. -/
def IsFixed (m : DataMember) : Prop :=
  m.IsConstant ∨ m.IsReference ∨ m.IsArray

/-- The member is constant, and nothing else tells that it cannot be assigned to than a `const`
behind a mark of a pointer, or `constexpr`. -/
def IsOverlooked (m : DataMember) : Prop :=
  m.IsConstant ∧ ¬m.IsReference ∧ ¬m.IsArray ∧ ("*" ∈ m.specifiers ∨ "const" ∉ m.specifiers)

instance : DecidablePred IsConstant :=
  fun _ => inferInstanceAs (Decidable (_ ∨ _))

instance : DecidablePred IsReference :=
  fun _ => inferInstanceAs (Decidable (_ ∈ _))

instance : DecidablePred IsArray :=
  fun _ => inferInstanceAs (Decidable (_ ≠ _))

instance : DecidablePred IsFixed :=
  fun _ => inferInstanceAs (Decidable (_ ∨ _ ∨ _))

instance : DecidablePred IsOverlooked :=
  fun _ => inferInstanceAs (Decidable (_ ∧ _ ∧ _ ∧ (_ ∨ _)))

/-- The member has no groups before its name but argument lists, and brackets are closed in these
and in its bounds. -/
structure IsPlain (m : DataMember) : Prop where
  parts : ∀ q ∈ m.parts, q.IsPlain
  name : IsIdentifier m.name
  bounds : ∀ b ∈ m.bounds, Leads bracketDepth (fun _ => False) 0 b 0
  initializer : ∀ t ∈ m.initializer.head?, t ∈ initializerMarks

variable {m : DataMember}

theorem leads_parts {ps : List MemberPart} (h : ∀ q ∈ ps, q.IsPlain) :
    Leads bracketDepth (· ∈ initializerMarks) 0 (ps.flatMap MemberPart.tokens) 0 := by
  induction ps with
  | nil => rfl
  | cons q ps ih =>
    have hq := h q List.mem_cons_self
    rw [List.flatMap_cons]
    refine .append ?_ (ih fun r hr => h r (List.mem_cons_of_mem _ hr))
    cases q with
    | token text =>
      exact .plain (Int.le_refl 0) (by simpa [MemberPart.tokens, MemberPart.IsPlain] using hq)
    | group opening inside closing =>
      obtain ⟨rfl, rfl, hinside⟩ := hq
      exact .group (by decide) (by decide) (by decide) hinside

theorem leads_bounds {bs : List (List String)}
    (h : ∀ b ∈ bs, Leads bracketDepth (fun _ => False) 0 b 0) :
    Leads bracketDepth (· ∈ initializerMarks) 0 (bs.flatMap fun b => "[" :: (b ++ ["]"])) 0 := by
  induction bs with
  | nil => rfl
  | cons b bs ih =>
    rw [List.flatMap_cons]
    exact .append (.group (by decide) (by decide) (by decide) (h b List.mem_cons_self))
      (ih fun c hc => h c (List.mem_cons_of_mem _ hc))

/-- The tokens before the initializer declare the member. -/
theorem IsPlain.breakTop_tokens (h : m.IsPlain) :
    (breakTop initializerMarks 0 m.tokens).1 = m.leading ++ m.name :: m.boundTokens := by
  have hname : Leads bracketDepth (· ∈ initializerMarks) 0 [m.name] 0 :=
    leads_word (.declaration (by decide)) h.name
  have hleads := ((leads_parts h.parts).append hname).append (leads_bounds h.bounds)
  have hsplit : m.tokens = m.leading ++ [m.name] ++ m.boundTokens ++ m.initializer := by
    simp [tokens]
  have hfront : m.leading ++ m.name :: m.boundTokens = m.leading ++ [m.name] ++ m.boundTokens := by
    simp
  rw [hsplit, hfront]
  cases hinit : m.initializer with
  | nil => rw [List.append_nil]; exact congrArg Prod.fst (breakTop_of_leads hleads)
  | cons mark rest =>
    exact congrArg Prod.fst (breakTop_mark hleads (h.initializer mark (by simp [hinit])) rest)

/-- What is heard of plain parts are the words and marks outside brackets. -/
theorem heard_parts {ps : List MemberPart} (h : ∀ q ∈ ps, q.IsPlain) :
    heard (ps.flatMap MemberPart.tokens) = ps.filterMap MemberPart.text? := by
  induction ps with
  | nil => rw [List.flatMap_nil, heard]; rfl
  | cons q ps ih =>
    have hq := h q List.mem_cons_self
    have hrest := ih fun r hr => h r (List.mem_cons_of_mem _ hr)
    rw [List.flatMap_cons]
    cases q with
    | token text =>
      have hbracket : ∀ b ∈ ["[", "<"], text ≠ b := by
        rintro b hb rfl
        have hdepth : bracketDepth text = 1 := by
          simp only [List.mem_cons, List.not_mem_nil, or_false] at hb
          rcases hb with rfl | rfl <;> rfl
        rw [hq.1] at hdepth
        cases hdepth
      rw [MemberPart.tokens, List.singleton_append,
        heard_cons (hbracket "[" (by decide)) (hbracket "<" (by decide)), hrest]
      rfl
    | group opening inside closing =>
      obtain ⟨rfl, rfl, hinside⟩ := hq
      have hclose := closeGroup_group hinside ">" (by decide) (ps.flatMap MemberPart.tokens)
      rw [MemberPart.tokens, List.cons_append, List.append_assoc, List.singleton_append,
        heard_angle hclose, hrest]
      rfl

theorem IsPlain.beforeName_of_bounds (h : m.IsPlain) (hbounds : m.bounds ≠ []) :
    ∀ found ∈ beforeName? m.tokens, found.2 = true := by
  obtain ⟨front, b, hb⟩ := List.eq_nil_or_concat m.bounds |>.resolve_left hbounds
  have hreverse : ∃ ts, (breakTop initializerMarks 0 m.tokens).1.reverse = "]" :: ts := by
    rw [h.breakTop_tokens, boundTokens, hb]
    exact ⟨_, by simp [List.flatMap_append]; rfl⟩
  obtain ⟨ts, hts⟩ := hreverse
  rintro ⟨before, array⟩ hfound
  rw [beforeName?, hts] at hfound
  rcases hstrip : stripBounds false ("]" :: ts) with _ | ⟨_ | ⟨last, before⟩, found⟩
  · rw [hstrip] at hfound
    cases hfound
  · rw [hstrip] at hfound
    cases hfound
  · rw [hstrip] at hfound
    cases hfound
    exact eq_true_of_stripBounds_bracket hstrip

theorem IsPlain.beforeName_of_no_bounds (h : m.IsPlain) (hbounds : m.bounds = []) :
    beforeName? m.tokens = some (m.leading, false) := by
  have hbracket : m.name ≠ "]" := by
    intro hname
    exact not_isIdentifier_of_mark (by decide) (hname ▸ h.name)
  have hreverse : (breakTop initializerMarks 0 m.tokens).1.reverse =
      m.name :: m.leading.reverse := by
    rw [h.breakTop_tokens, boundTokens, hbounds]
    simp
  rw [beforeName?, hreverse, stripBounds, if_neg hbracket]
  simp

/-- What is heard of a plain member: its bounds, a mark of a reference, or a `const` but no mark of
a pointer. -/
theorem IsPlain.looksFixed_iff (h : m.IsPlain)
    (hsome : ∃ found, beforeName? m.tokens = some found) :
    LooksFixed m.tokens ↔
      m.IsArray ∨ m.IsReference ∨ "const" ∈ m.specifiers ∧ "*" ∉ m.specifiers := by
  by_cases hbounds : m.bounds = []
  · have hsquare : "[" ∉ m.specifiers := by
      intro hmem
      obtain ⟨q, hq, htext⟩ := List.mem_filterMap.1 hmem
      cases q with
      | token text =>
        obtain rfl := Option.some.inj htext
        exact absurd (h.parts _ hq).1 (by decide)
      | group _ _ _ => cases htext
    have hheard : heard m.leading = m.specifiers := heard_parts h.parts
    simp [LooksFixed, h.beforeName_of_no_bounds hbounds, TellFixed, hheard, hsquare, IsArray,
      hbounds, IsReference]
  · obtain ⟨found, hfound⟩ := hsome
    refine iff_of_true ⟨found, hfound, .inl ?_⟩ (.inl hbounds)
    exact h.beforeName_of_bounds hbounds found hfound

/-- A plain member that cannot be assigned to looks so, and the other way round, unless it is
overlooked. -/
theorem IsPlain.fixed_iff_looksFixed (h : m.IsPlain)
    (hsome : ∃ found, beforeName? m.tokens = some found) :
    (m.IsFixed ↔ LooksFixed m.tokens) ↔ ¬m.IsOverlooked := by
  have hconstant : "const" ∈ m.specifiers → "*" ∉ m.specifiers → m.IsConstant := by
    intro hconst hstar
    refine .inr ?_
    rwa [List.rtakeWhile_eq_self_iff.2 fun t ht =>
      decide_eq_true (ne_of_mem_of_not_mem ht hstar)]
  rw [h.looksFixed_iff hsome, IsFixed, IsOverlooked]
  grind

end DataMember

end HeaderReflection
