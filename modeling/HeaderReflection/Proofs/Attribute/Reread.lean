import HeaderReflection.Attribute.Basic

/-!
# What attributes are reread as

The text of a list of the one key `true` or `false`, standing bare, is the text of a flag. So what
the text of attributes is read as has such lists replaced by flags.

* `Attributes.reread_eq_self_iff`: nothing changes if and only if no nested list is a lone flag
  word.
-/

namespace HeaderReflection

/-! ## What a text is read as -/

/-- The flag that a list spells: its one key is a flag's word and stands bare. -/
def Attributes.loneFlag? : Attributes → Option Bool
  | [(key, .flag true)] =>
    if key = "true" then some true else if key = "false" then some false else none
  | _ => none

mutual

/-- The value that the text of a value is read as. -/
def AttributeValue.reread : AttributeValue → AttributeValue
  | .nested m =>
    match Attributes.loneFlag? m with
    | some b => .flag b
    | none => .nested (AttributeValue.rereadList m)
  | value => value

/-- The attributes that the text of attributes is read as. -/
def AttributeValue.rereadList : List (String × AttributeValue) → List (String × AttributeValue)
  | [] => []
  | (key, value) :: rest => (key, value.reread) :: AttributeValue.rereadList rest

end

namespace Attributes

/-- The attributes that the text of attributes is read as. -/
def reread (m : Attributes) : Attributes :=
  AttributeValue.rereadList m

/-- A list is nested in another, at any depth. -/
inductive NestedIn (n : Attributes) : Attributes → Prop
  | here {m : Attributes} {key : String} : (key, .nested n) ∈ m → NestedIn n m
  | deeper {m inner : Attributes} {key : String} : (key, .nested inner) ∈ m →
      NestedIn n inner → NestedIn n m

theorem loneFlag?_eq_none_iff {m : Attributes} :
    m.loneFlag? = none ↔ m ≠ [("true", .flag true)] ∧ m ≠ [("false", .flag true)] := by
  unfold loneFlag?
  split
  · rename_i key
    by_cases ht : key = "true"
    · simp [ht]
    · by_cases hf : key = "false" <;> simp [ht, hf]
  · rename_i h
    simp only [true_iff]
    exact ⟨h "true", h "false"⟩

theorem nestedIn_cons_iff {n rest : Attributes} {key : String} {value : AttributeValue} :
    NestedIn n ((key, value) :: rest) ↔
      (∃ inner, value = .nested inner ∧ (n = inner ∨ NestedIn n inner)) ∨ NestedIn n rest := by
  constructor
  · rintro (h | ⟨h, hn⟩)
    · rcases List.mem_cons.1 h with h | h
      · exact .inl ⟨n, (Prod.mk.inj h).2.symm, .inl rfl⟩
      · exact .inr (.here h)
    · rcases List.mem_cons.1 h with h | h
      · exact .inl ⟨_, (Prod.mk.inj h).2.symm, .inr hn⟩
      · exact .inr (.deeper h hn)
  · rintro (⟨inner, rfl, rfl | hn⟩ | h | ⟨h, hn⟩)
    · exact .here List.mem_cons_self
    · exact .deeper List.mem_cons_self hn
    · exact .here (List.mem_cons_of_mem _ h)
    · exact .deeper (List.mem_cons_of_mem _ h) hn

theorem not_nestedIn_nil {n : Attributes} : ¬NestedIn n [] := by
  rintro (h | ⟨h, -⟩) <;> cases h

end Attributes

mutual

/-- A value is read as itself if and only if it is no lone flag word and has none in it. -/
theorem AttributeValue.reread_eq_self_iff : ∀ value : AttributeValue, value.reread = value ↔
    ∀ inner, value = .nested inner →
      Attributes.loneFlag? inner = none ∧
        ∀ n, Attributes.NestedIn n inner → Attributes.loneFlag? n = none
  | .nested m => by
    have ih := AttributeValue.rereadList_eq_self_iff m
    rw [AttributeValue.reread]
    cases hm : Attributes.loneFlag? m with
    | some b =>
      simp only [reduceCtorEq, false_iff]
      intro h
      have hnone := (h m rfl).1
      rw [hm] at hnone
      cases hnone
    | none =>
      simp only [AttributeValue.nested.injEq, ih]
      exact ⟨fun h inner hi => hi ▸ ⟨hm, h⟩, fun h => (h m rfl).2⟩
  | .text _ => by simp [AttributeValue.reread]
  | .number _ => by simp [AttributeValue.reread]
  | .flag _ => by simp [AttributeValue.reread]

theorem AttributeValue.rereadList_eq_self_iff : ∀ m : List (String × AttributeValue),
    AttributeValue.rereadList m = m ↔ ∀ n, Attributes.NestedIn n m → Attributes.loneFlag? n = none
  | [] => by simp [AttributeValue.rereadList, Attributes.not_nestedIn_nil]
  | (key, value) :: rest => by
    have ihv := AttributeValue.reread_eq_self_iff value
    have ihr := AttributeValue.rereadList_eq_self_iff rest
    simp only [AttributeValue.rereadList, List.cons.injEq, Prod.mk.injEq, true_and, ihv, ihr,
      Attributes.nestedIn_cons_iff]
    constructor
    · rintro ⟨hv, hr⟩ n (⟨inner, rfl, rfl | hn⟩ | hn)
      · exact (hv _ rfl).1
      · exact (hv _ rfl).2 n hn
      · exact hr n hn
    · intro h
      exact ⟨fun inner hi => ⟨h inner (.inl ⟨inner, hi, .inl rfl⟩),
        fun n hn => h n (.inl ⟨inner, hi, .inr hn⟩)⟩, fun n hn => h n (.inr hn)⟩

end

/-- Attributes are read as themselves if and only if no list in them is a lone flag word. -/
theorem Attributes.reread_eq_self_iff (m : Attributes) :
    m.reread = m ↔ ∀ n, NestedIn n m → n.loneFlag? = none :=
  AttributeValue.rereadList_eq_self_iff m

end HeaderReflection
