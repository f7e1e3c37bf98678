import HeaderReflection.Proofs.Attribute.RoundTrip

/-!
# Attributes that are read back

Attributes can be put together from any keys and values. Their text is read as equal attributes in
the same order just if each key is one that can be read, each number is finite, and no list in them
starts like a number or is a flag's word alone.

* `Inserted.nodup_keys`: what is put together by insertions has each key once, in all its lists.
* `Readable.of_sameInOrder`: what equals readable attributes in the same order is readable.
* `parse_render_self_iff`: the attributes whose text is read as themselves.
-/

namespace HeaderReflection

/-! ## Attributes that are put together -/

/-- Attributes that are put together by insertions, as are the lists nested in them. -/
inductive Attributes.Inserted : Attributes → Prop
  | empty : Inserted []
  | insert {m : Attributes} {value : AttributeValue} (rest : Inserted m) (key : String)
      (nested : ∀ n, value = .nested n → Inserted n) : Inserted (m.insert key value)

namespace Attributes

theorem nodup_keys_insert {m : Attributes} (h : m.keys.Nodup) (key : String)
    (value : AttributeValue) : (m.insert key value).keys.Nodup := by
  cases hc : m.contains key with
  | true => rwa [insert_of_contains hc]
  | false =>
    rw [keys_insert hc]
    exact h.append (List.nodup_singleton key)
      (List.disjoint_singleton.2 (contains_eq_false_iff.1 hc))

theorem mem_of_mem_insert {m : Attributes} {key : String} {value : AttributeValue}
    {e : String × AttributeValue} (h : e ∈ m.insert key value) : e ∈ m ∨ e = (key, value) := by
  unfold insert at h
  split at h
  · exact .inl h
  · simpa using h

namespace Inserted

theorem of_mem {m n : Attributes} (h : m.Inserted) {key : String} (hn : (key, .nested n) ∈ m) :
    n.Inserted := by
  induction h with
  | empty => cases hn
  | insert rest k nested ih =>
    rcases mem_of_mem_insert hn with hn | hn
    · exact ih hn
    · exact nested n (Prod.mk.inj hn).2.symm

theorem of_nestedIn {m n : Attributes} (h : m.Inserted) (hn : NestedIn n m) : n.Inserted := by
  induction hn with
  | here hmem => exact h.of_mem hmem
  | deeper hmem _ ih => exact ih (h.of_mem hmem)

theorem nodup_keys {m : Attributes} (h : m.Inserted) : m.keys.Nodup := by
  induction h with
  | empty => exact List.nodup_nil
  | insert _ key _ ih => exact nodup_keys_insert ih key _

end Inserted

/-! ## What is readable -/

/-- All keys can be read, each stands once in its list, and all numbers are finite. -/
structure Plain (m : Attributes) : Prop where
  isKey : ∀ e ∈ m, IsKey e.1
  nodup : m.keys.Nodup
  finite : ∀ key x, (key, .number x) ∈ m → x.isFinite = true

theorem Readable.plain {m : Attributes} (h : m.Readable) : m.Plain := by
  refine ⟨h.isKey, h.nodup, fun key x hx => ?_⟩
  have hread := h.values _ hx
  cases hread with
  | number finite => exact finite

/-- A list in readable attributes is readable behind a parenthesis. -/
theorem Readable.nestedIn {m n : Attributes} (h : m.Readable) (hn : NestedIn n m) :
    (AttributeValue.nested n).Readable := by
  induction hn with
  | here hmem => exact h.values _ hmem
  | deeper hmem _ ih => exact ih (readable_of_nested (h.values _ hmem))

end Attributes

open Attributes (NestedIn)

mutual

/-- A value is readable if its number is finite and its lists are plain and start with no digit. -/
theorem AttributeValue.readable_of_plain : ∀ value : AttributeValue,
    (∀ x, value = .number x → x.isFinite = true) →
    (∀ m n : Attributes, value = .nested m → n = m ∨ NestedIn n m → n.Plain ∧ n.NoLeadingDigit) →
    value.Readable
  | .text s, _, _ => .text s
  | .number x, hx, _ => .number (hx x rfl)
  | .flag b, _, _ => .flag b
  | .nested m, _, hm => by
    obtain ⟨hplain, hstart⟩ := hm m m rfl (.inl rfl)
    have hvalues := AttributeValue.forall_readable_of_plain m hplain.finite
      fun n hn => hm m n rfl (.inr hn)
    exact .nested hplain.isKey hplain.nodup hvalues hstart

theorem AttributeValue.forall_readable_of_plain : ∀ m : List (String × AttributeValue),
    (∀ key x, (key, AttributeValue.number x) ∈ m → x.isFinite = true) →
    (∀ n : Attributes, NestedIn n m → n.Plain ∧ n.NoLeadingDigit) → ∀ e ∈ m, e.2.Readable
  | [], _, _ => by simp
  | (key, value) :: rest, hx, hn => by
    have hvalue := AttributeValue.readable_of_plain value
      (fun x hv => hx key x (by rw [hv]; exact List.mem_cons_self))
      fun m n hm hin => hn n (Attributes.nestedIn_cons_iff.2 (.inl ⟨m, hm, hin⟩))
    have hrest := AttributeValue.forall_readable_of_plain rest
      (fun k x hmem => hx k x (List.mem_cons_of_mem _ hmem))
      fun n hin => hn n (Attributes.nestedIn_cons_iff.2 (.inr hin))
    rw [List.forall_mem_cons]
    exact ⟨hvalue, hrest⟩

end

/-- Attributes are readable just if they and the lists in them are plain, and none of these lists
starts with a digit. -/
theorem Attributes.readable_iff {m : Attributes} :
    m.Readable ↔ m.Plain ∧ ∀ n, NestedIn n m → n.Plain ∧ n.NoLeadingDigit := by
  constructor
  · intro h
    refine ⟨h.plain, fun n hn => ?_⟩
    have hread := h.nestedIn hn
    exact ⟨(readable_of_nested hread).plain, noLeadingDigit_of_nested hread⟩
  · rintro ⟨h, hn⟩
    exact ⟨h.isKey, h.nodup, AttributeValue.forall_readable_of_plain m h.finite hn⟩

/-! ## Equal attributes in the same order -/

mutual

/-- Two values are equal: numbers by their values, and attributes in their order. -/
def AttributeValue.sameInOrder : AttributeValue → AttributeValue → Bool
  | .text a, .text b => a == b
  | .number a, .number b => a.same b
  | .flag a, .flag b => a == b
  | .nested a, .nested b => AttributeValue.listSameInOrder a b
  | _, _ => false

/-- Two lists have the same keys in the same order, with equal values. -/
def AttributeValue.listSameInOrder :
    List (String × AttributeValue) → List (String × AttributeValue) → Bool
  | [], [] => true
  | (key, value) :: rest, (key', value') :: rest' =>
    key == key' && value.sameInOrder value' && AttributeValue.listSameInOrder rest rest'
  | _, _ => false

end

/-- Attributes are equal, and their keys stand in the same order in all their lists. -/
def Attributes.sameInOrder (m m' : Attributes) : Bool :=
  AttributeValue.listSameInOrder m m'

theorem Attributes.keys_eq_of_sameInOrder {m m' : Attributes} (h : m.sameInOrder m' = true) :
    m.keys = m'.keys := by
  induction m generalizing m' with
  | nil =>
    cases m' with
    | nil => rfl
    | cons e m' => cases h
  | cons e m ih =>
    cases m' with
    | nil => cases h
    | cons e' m' =>
      simp only [sameInOrder, AttributeValue.listSameInOrder, Bool.and_eq_true, beq_iff_eq] at h
      obtain ⟨⟨hkey, -⟩, hrest⟩ := h
      simp only [keys, List.map_cons] at ih ⊢
      rw [hkey, ih hrest]

theorem Attributes.forall_isKey_iff {m : Attributes} :
    (∀ e ∈ m, IsKey e.1) ↔ ∀ k ∈ m.keys, IsKey k := by
  simp [keys]

theorem Attributes.noLeadingDigit_iff {m : Attributes} : m.NoLeadingDigit ↔
    ∀ k ∈ m.keys.head?, ∀ c ∈ k.toList.head?, Text.isAsciiDigit c = false := by
  cases m <;> simp [NoLeadingDigit, keys]

theorem Number.isFinite_of_same {x y : Number} (h : x.same y = true) (hx : x.isFinite = true) :
    y.isFinite = true := by
  simp only [same, Bool.and_eq_true, beq_iff_eq] at h
  have hkey := h.2
  simp only [isFinite, decide_eq_true_eq] at hx ⊢
  unfold key at hkey
  split at hkey <;> split at hkey <;> omega

theorem Number.same_self {x : Number} (hx : x.isFinite = true) : x.same x = true := by
  simp only [isFinite, decide_eq_true_eq] at hx
  simp [same, isNaN, Nat.le_of_lt hx]

mutual

/-- What equals a readable value, with all keys in the same order, is readable. -/
theorem AttributeValue.readable_of_sameInOrder : ∀ value value' : AttributeValue,
    value.sameInOrder value' = true → value.Readable → value'.Readable
  | .nested m, .nested m', h, hread => by
    have hkeys := Attributes.keys_eq_of_sameInOrder h
    cases hread with
    | nested isKey nodup values start =>
      refine .nested ?_ (hkeys ▸ nodup)
        (AttributeValue.forall_readable_of_sameInOrder m m' h values) ?_
      · rw [Attributes.forall_isKey_iff, ← hkeys, ← Attributes.forall_isKey_iff]
        exact isKey
      · rw [Attributes.noLeadingDigit_iff, ← hkeys, ← Attributes.noLeadingDigit_iff]
        exact start
  | .number x, .number y, h, hread => by
    cases hread with
    | number finite => exact .number (Number.isFinite_of_same h finite)
  | .text _, .text s, _, _ => .text s
  | .flag _, .flag b, _, _ => .flag b

theorem AttributeValue.forall_readable_of_sameInOrder :
    ∀ m m' : List (String × AttributeValue), AttributeValue.listSameInOrder m m' = true →
      (∀ e ∈ m, e.2.Readable) → ∀ e ∈ m', e.2.Readable
  | [], [], _, _ => by simp
  | (key, value) :: rest, (key', value') :: rest', h, hread => by
    simp only [AttributeValue.listSameInOrder, Bool.and_eq_true] at h
    rw [List.forall_mem_cons] at hread ⊢
    exact ⟨AttributeValue.readable_of_sameInOrder value value' h.1.2 hread.1,
      AttributeValue.forall_readable_of_sameInOrder rest rest' h.2 hread.2⟩

end

theorem Attributes.Readable.of_sameInOrder {m m' : Attributes} (hm : m.Readable)
    (h : m.sameInOrder m' = true) : m'.Readable := by
  have hkeys := keys_eq_of_sameInOrder h
  refine ⟨?_, hkeys ▸ hm.nodup,
    AttributeValue.forall_readable_of_sameInOrder m m' h hm.values⟩
  rw [forall_isKey_iff, ← hkeys, ← forall_isKey_iff]
  exact hm.isKey

mutual

theorem AttributeValue.sameInOrder_self : ∀ value : AttributeValue, value.Readable →
    value.sameInOrder value = true
  | .text _, _ => beq_self_eq_true _
  | .flag _, _ => beq_self_eq_true _
  | .number x, h => by
    cases h with
    | number finite => exact Number.same_self finite
  | .nested m, h => by
    cases h with
    | nested _ _ values _ => exact AttributeValue.listSameInOrder_self m values

theorem AttributeValue.listSameInOrder_self : ∀ m : List (String × AttributeValue),
    (∀ e ∈ m, e.2.Readable) → AttributeValue.listSameInOrder m m = true
  | [], _ => rfl
  | (key, value) :: rest, h => by
    rw [List.forall_mem_cons] at h
    simp [AttributeValue.listSameInOrder, AttributeValue.sameInOrder_self value h.1,
      AttributeValue.listSameInOrder_self rest h.2]

end

mutual

/-- A value that is read as an equal one is read as itself: a flag is no list. -/
theorem AttributeValue.reread_eq_of_sameInOrder : ∀ value : AttributeValue,
    value.reread.sameInOrder value = true → value.reread = value
  | .text _, _ => rfl
  | .number _, _ => rfl
  | .flag _, _ => rfl
  | .nested m, h => by
    rw [AttributeValue.reread] at h ⊢
    cases hm : Attributes.loneFlag? m with
    | some b =>
      rw [hm] at h
      cases h
    | none =>
      rw [hm] at h
      exact congrArg AttributeValue.nested (AttributeValue.rereadList_eq_of_sameInOrder m h)

theorem AttributeValue.rereadList_eq_of_sameInOrder : ∀ m : List (String × AttributeValue),
    AttributeValue.listSameInOrder (AttributeValue.rereadList m) m = true →
      AttributeValue.rereadList m = m
  | [], _ => rfl
  | (key, value) :: rest, h => by
    simp only [AttributeValue.rereadList, AttributeValue.listSameInOrder, Bool.and_eq_true] at h
    rw [AttributeValue.rereadList, AttributeValue.reread_eq_of_sameInOrder value h.1.2,
      AttributeValue.rereadList_eq_of_sameInOrder rest h.2]

end

/-! ## What is read back -/

namespace Attributes

/-- Attributes whose text tells what they are, in all their lists: the keys can be read, the
numbers are finite, and no nested list starts like a number or is the word of a flag alone. -/
structure Telling (m : Attributes) : Prop where
  isKey : ∀ n, n = m ∨ NestedIn n m → ∀ e ∈ n, IsKey e.1
  finite : ∀ n, n = m ∨ NestedIn n m → ∀ key x, (key, .number x) ∈ n → x.isFinite = true
  start : ∀ n, NestedIn n m → n.NoLeadingDigit
  word : ∀ n, NestedIn n m → n ≠ [("true", .flag true)] ∧ n ≠ [("false", .flag true)]

/-- What is put together by insertions tells what it is just if it is readable and is read as
itself. -/
theorem Inserted.telling_iff {m : Attributes} (h : m.Inserted) :
    m.Telling ↔ m.Readable ∧ m.reread = m := by
  rw [readable_iff, reread_eq_self_iff]
  simp only [loneFlag?_eq_none_iff]
  constructor
  · intro ht
    refine ⟨⟨⟨ht.isKey m (.inl rfl), h.nodup_keys, ht.finite m (.inl rfl)⟩, fun n hn => ?_⟩,
      ht.word⟩
    exact ⟨⟨ht.isKey n (.inr hn), (h.of_nestedIn hn).nodup_keys, ht.finite n (.inr hn)⟩,
      ht.start n hn⟩
  · rintro ⟨⟨hplain, hlists⟩, hword⟩
    have hall : ∀ n, n = m ∨ NestedIn n m → n.Plain := by
      rintro n (rfl | hn)
      · exact hplain
      · exact (hlists n hn).1
    exact ⟨fun n hn => (hall n hn).isKey, fun n hn => (hall n hn).finite,
      fun n hn => (hlists n hn).2, hword⟩

/-- **Attributes that are put together by insertions are read from their text as equal attributes
in the same order if and only if they tell what they are.** They are then read as the very same
attributes, bit by bit. -/
theorem parse_render_self_iff {m : Attributes} (h : m.Inserted) (origin : Text.Position) :
    ((∃ m', parse m.render origin = .ok m' ∧ m'.sameInOrder m = true) ↔ m.Telling) ∧
      (m.Telling → parse m.render origin = .ok m) := by
  rw [h.telling_iff]
  have hback : m.Readable ∧ m.reread = m → parse m.render origin = .ok m := by
    rintro ⟨hread, hsame⟩
    rw [parse_render hread, hsame]
  refine ⟨⟨?_, fun ht => ⟨m, hback ht, AttributeValue.listSameInOrder_self m ht.1.values⟩⟩, hback⟩
  rintro ⟨m', hparse, hsame⟩
  have hread := (parse_readable hparse).of_sameInOrder hsame
  rw [parse_render hread] at hparse
  obtain rfl := Except.ok.inj hparse
  exact ⟨hread, AttributeValue.rereadList_eq_of_sameInOrder m hsame⟩

/-- A quoted text, and a list with a flag's word in front of a key that is a digit. -/
theorem parse_render_self_quoted :
    Inserted [("A:b", .text "a\"\\"), ("B", .nested [("true", .flag true), ("1", .number .one)])] ∧
      parse (render [("A:b", .text "a\"\\"),
          ("B", .nested [("true", .flag true), ("1", .number .one)])]) .start =
        .ok [("A:b", .text "a\"\\"),
          ("B", .nested [("true", .flag true), ("1", .number .one)])] := by
  have hlist : Inserted [("true", .flag true), ("1", .number .one)] :=
    .insert (.insert .empty "true" (by simp)) "1" (by simp)
  have hall : Inserted
      [("A:b", .text "a\"\\"), ("B", .nested [("true", .flag true), ("1", .number .one)])] :=
    .insert (.insert .empty "A:b" (by simp)) "B" (by rintro n ⟨⟩; exact hlist)
  have hkeys : IsKey "A:b" ∧ IsKey "B" ∧ IsKey "true" ∧ IsKey "1" := by
    unfold IsKey
    decide
  refine ⟨hall, (parse_render_self_iff hall .start).2 ⟨?_, ?_, ?_, ?_⟩⟩
  · simp [nestedIn_cons_iff, not_nestedIn_nil, or_imp, forall_and, hkeys]
  · simp [nestedIn_cons_iff, not_nestedIn_nil, or_imp, forall_and]
    decide
  · simp [nestedIn_cons_iff, not_nestedIn_nil, NoLeadingDigit]
    decide
  · simp [nestedIn_cons_iff, not_nestedIn_nil]

end Attributes

end HeaderReflection
