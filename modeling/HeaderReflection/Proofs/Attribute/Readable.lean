import Mathlib.Data.List.DropRight
import HeaderReflection.Attribute.Parse
import HeaderReflection.Proofs.Outcome

/-!
# Readable attributes

What reading can give: keys of key characters, each once in its list, finite numbers, and nested
lists that do not start like a number.

* `ofDecimal?_isFinite`: a literal denotes finite numbers only.
* `readList_readable`: whatever is read is readable.
* `parse_readable`: the attributes of a text are readable.
-/

namespace HeaderReflection

open Text (isBlank isAsciiDigit)
open Attribute

/-! ## What is readable -/

/-- The characters of a key, of which there is one at least. -/
def IsKey (key : String) : Prop :=
  key.toList ≠ [] ∧ ∀ c ∈ key.toList, isKeyChar c = true

/-- The first key starts with no digit, so the list does not look like a number. -/
def Attributes.NoLeadingDigit (m : Attributes) : Prop :=
  ∀ e ∈ m.head?, ∀ c ∈ e.1.toList.head?, isAsciiDigit c = false

/-- A value that can be read. -/
inductive AttributeValue.Readable : AttributeValue → Prop
  | text (s : String) : Readable (.text s)
  | number {x : Number} (finite : x.isFinite = true) : Readable (.number x)
  | flag (b : Bool) : Readable (.flag b)
  | nested {m : Attributes} (isKey : ∀ e ∈ m, IsKey e.1) (nodup : m.keys.Nodup)
      (values : ∀ e ∈ m, Readable e.2) (start : m.NoLeadingDigit) : Readable (.nested m)

/-- Attributes that can be read. -/
structure Attributes.Readable (m : Attributes) : Prop where
  isKey : ∀ e ∈ m, IsKey e.1
  nodup : m.keys.Nodup
  values : ∀ e ∈ m, e.2.Readable

namespace Attributes

theorem Readable.nil : Readable [] :=
  ⟨by simp, by simp [keys], by simp⟩

theorem Readable.tail {e : String × AttributeValue} {m : List (String × AttributeValue)}
    (h : Readable (e :: m)) : Readable m :=
  ⟨fun e he => h.isKey e (List.mem_cons_of_mem _ he), (List.nodup_cons.1 h.nodup).2,
    fun e he => h.values e (List.mem_cons_of_mem _ he)⟩

theorem Readable.nested {m : Attributes} (h : m.Readable) (start : m.NoLeadingDigit) :
    (AttributeValue.nested m).Readable :=
  .nested h.isKey h.nodup h.values start

theorem readable_of_nested {m : Attributes} (h : (AttributeValue.nested m).Readable) :
    m.Readable := by
  cases h with
  | nested isKey nodup values _ => exact ⟨isKey, nodup, values⟩

theorem noLeadingDigit_of_nested {m : Attributes} (h : (AttributeValue.nested m).Readable) :
    m.NoLeadingDigit := by
  cases h with
  | nested _ _ _ start => exact start

theorem contains_eq_false_iff {m : Attributes} {key : String} :
    m.contains key = false ↔ key ∉ m.keys := by
  rw [← contains_eq_true_iff, Bool.not_eq_true]

theorem insert_of_not_contains {m : Attributes} {key : String} (h : m.contains key = false)
    (value : AttributeValue) : m.insert key value = m ++ [(key, value)] := by
  simp [insert, h]

theorem Readable.insert {m : Attributes} {key : String} {value : AttributeValue}
    (h : m.Readable) (hk : IsKey key) (hv : value.Readable) (hnew : m.contains key = false) :
    (m.insert key value).Readable where
  isKey := by
    rw [insert_of_not_contains hnew]
    simp only [List.mem_append, List.mem_singleton]
    rintro e (he | rfl)
    · exact h.isKey e he
    · exact hk
  nodup := by
    rw [keys_insert hnew]
    exact List.nodup_append.2 ⟨h.nodup, by simp, fun a ha b hb hab => by
      rw [List.mem_singleton.1 hb] at hab
      exact contains_eq_false_iff.1 hnew (hab ▸ ha)⟩
  values := by
    rw [insert_of_not_contains hnew]
    simp only [List.mem_append, List.mem_singleton]
    rintro e (he | rfl)
    · exact h.values e he
    · exact hv

end Attributes

/-! ## Finite numbers -/

namespace Number

theorem isFinite_ofMagnitude {negative : Bool} {m : Nat} (h : m < infiniteMagnitude) :
    (ofMagnitude negative m).isFinite = true := by
  unfold isFinite ofMagnitude magnitude infiniteMagnitude at *
  simp only [Nat.pow_eq, UInt64.toNat_ofNat', decide_eq_true_eq] at *
  split <;> omega

/-- A decimal denotes finite numbers only. -/
theorem ofDecimal?_isFinite {negative : Bool} {d : Decimal} {x : Number}
    (h : ofDecimal? negative d = some x) : x.isFinite = true := by
  unfold ofDecimal? at h
  split at h
  · cases Option.some.inj h
    exact isFinite_ofMagnitude (by decide)
  · split at h
    · cases h
    · dsimp only at h
      split at h
      · rename_i hm
        cases Option.some.inj h
        exact isFinite_ofMagnitude hm
      · cases h

theorem read?_isFinite {cs : List Char} {x : Number} (h : read? cs = some x) :
    x.isFinite = true := by
  unfold read? at h
  obtain ⟨d, -, hd⟩ := Option.bind_eq_some_iff.1 h
  exact ofDecimal?_isFinite hd

end Number

namespace Attribute

/-! ## Reading numbers -/

theorem readNumber_isFinite {r r' : Reader} {x : Number} (h : readNumber r = .ok (x, r')) :
    x.isFinite = true := by
  unfold readNumber at h
  dsimp only at h
  split at h
  · rename_i hx
    cases Except.ok.inj h
    exact Number.read?_isFinite hx
  · cases h

theorem readBounds_isFinite {fuel : Nat} {r r' : Reader} {xs : List Number}
    (h : readBounds fuel r = .ok (xs, r')) : ∀ x ∈ xs, x.isFinite = true := by
  induction fuel generalizing r xs r' with
  | zero =>
    cases Except.ok.inj h
    simp
  | succ fuel ih =>
    rw [readBounds] at h
    split at h
    · obtain ⟨⟨x, r₁⟩, hx, h⟩ := bind_eq_ok_iff.1 h
      obtain ⟨⟨ys, r₂⟩, hys, h⟩ := bind_eq_ok_iff.1 h
      cases Except.ok.inj h
      simp only [List.mem_cons]
      rintro y (rfl | hy)
      · exact readNumber_isFinite hx
      · exact ih hys y hy
    · cases Except.ok.inj h
      simp

theorem range_readable {low high step : Number} (hlow : low.isFinite = true)
    (hhigh : high.isFinite = true) (hstep : step.isFinite = true) :
    (range low high step).Readable := by
  refine .nested ?_ (show ["min", "max", "step"].Nodup by decide) ?_ ?_
  · simp only [List.mem_cons, List.not_mem_nil, or_false]
    rintro e (rfl | rfl | rfl)
    · exact show IsKey "min" by unfold IsKey; decide
    · exact show IsKey "max" by unfold IsKey; decide
    · exact show IsKey "step" by unfold IsKey; decide
  · simp only [List.mem_cons, List.not_mem_nil, or_false]
    rintro e (rfl | rfl | rfl)
    · exact .number hlow
    · exact .number hhigh
    · exact .number hstep
  · intro e he c hc
    cases Option.some.inj he
    have hm : "min".toList.head? = some 'm' := by decide
    cases Option.some.inj (hm.symm.trans hc)
    decide

theorem numericValue_readable {x : Number} {xs : List Number} {value : AttributeValue}
    (hx : x.isFinite = true) (hxs : ∀ y ∈ xs, y.isFinite = true)
    (h : numericValue x xs = .ok value) : value.Readable := by
  unfold numericValue at h
  split at h
  · cases Except.ok.inj h
    exact .number hx
  · split at h
    · cases h
    · cases Except.ok.inj h
      exact range_readable hx (hxs _ (by simp)) (by decide)
  · split at h
    · cases h
    · cases Except.ok.inj h
      exact range_readable hx (hxs _ (by simp)) (hxs _ (by simp))
  · cases h

theorem readNumeric_readable {r r' : Reader} {value : AttributeValue}
    (h : readNumeric r = .ok (value, r')) : value.Readable := by
  unfold readNumeric at h
  obtain ⟨⟨x, r₁⟩, hx, h⟩ := bind_eq_ok_iff.1 h
  obtain ⟨⟨xs, r₂⟩, hxs, h⟩ := bind_eq_ok_iff.1 h
  dsimp only at h
  split at h
  · rename_i hv
    cases Except.ok.inj h
    exact numericValue_readable (readNumber_isFinite hx) (readBounds_isFinite hxs) hv
  · cases h

/-! ## Reading keys and values -/

theorem skipBlanks_skipBlanks (r : Reader) : r.skipBlanks.skipBlanks = r.skipBlanks := by
  have hrest : (r.rest.dropWhile isBlank).takeWhile isBlank = [] :=
    List.takeWhile_eq_nil_iff.2 (List.dropWhile_get_zero_not _ _)
  unfold Reader.skipBlanks Reader.dropWhile
  dsimp only
  rw [hrest, List.dropWhile_idempotent, Text.Position.past_nil]

/-- A key takes up the characters of its class that come next. -/
theorem readKey_eq_ok {r r' : Reader} {key : String} (h : readKey r = .ok (key, r')) :
    IsKey key ∧ key.toList.head? = r.head? := by
  unfold readKey at h
  split at h
  · cases h
  · rename_i cs hne
    cases Except.ok.inj h
    have hmem : ∀ c ∈ r.rest.takeWhile isKeyChar, isKeyChar c = true := fun c =>
      List.mem_takeWhile_imp
    refine ⟨⟨by simpa using hne, by simpa using hmem⟩, ?_⟩
    cases hr : r.rest with
    | nil => simp [Reader.head?, hr]
    | cons c cs =>
      rw [hr] at hne
      by_cases hc : isKeyChar c = true
      · simp [Reader.head?, hr, hc]
      · rw [List.takeWhile_cons_of_neg hc] at hne
        exact absurd rfl hne

/-- What is read with a reader of nested lists is readable if the nested lists are. -/
theorem readValue_readable {readNested : Reader → Except AttributeFault (Attributes × Reader)}
    (hnested : ∀ {s s' : Reader} {m : Attributes}, readNested s = .ok (m, s') →
      m.Readable ∧ ∀ e ∈ m.head?, e.1.toList.head? = s.skipBlanks.head?)
    {r r' : Reader} {value : AttributeValue}
    (h : readValue readNested r.skipBlanks = .ok (value, r')) : value.Readable := by
  unfold readValue at h
  split at h
  · obtain ⟨⟨cs, s⟩, -, hv⟩ := map_eq_ok_iff.1 h
    cases hv
    exact .text _
  · split at h
    · exact readNumeric_readable h
    · rename_i hopens
      split at h
      · cases Except.ok.inj h
        exact .flag _
      · obtain ⟨⟨m, s⟩, hm, hv⟩ := map_eq_ok_iff.1 h
        cases hv
        obtain ⟨hread, hhead⟩ := hnested hm
        refine hread.nested fun e he c hc => ?_
        rw [hhead e he, skipBlanks_skipBlanks] at hc
        rw [hc] at hopens
        simp only [Option.any_some, opensNumber, Bool.or_eq_true, not_or] at hopens
        simpa using hopens.1.1.1

theorem readArgument_readable {readNested : Reader → Except AttributeFault (Attributes × Reader)}
    (hnested : ∀ {s s' : Reader} {m : Attributes}, readNested s = .ok (m, s') →
      m.Readable ∧ ∀ e ∈ m.head?, e.1.toList.head? = s.skipBlanks.head?)
    {r r' : Reader} {value : AttributeValue}
    (h : readArgument readNested r = .ok (value, r')) : value.Readable := by
  unfold readArgument at h
  split at h
  · obtain ⟨⟨v, s⟩, hv, h⟩ := bind_eq_ok_iff.1 h
    dsimp only at h
    split at h
    · cases Except.ok.inj h
      exact readValue_readable hnested hv
    · cases h
  · cases Except.ok.inj h
    exact .flag _

/-! ## Reading lists -/

/-- The end of a list: of a nested one its parenthesis, of an outer one that of the text. -/
def EndsList (nested : Bool) (rest : List Char) : Prop :=
  if nested then rest.head? = some ')' else rest = []

theorem endsList_of_head? {nested : Bool} {r : Reader} (h : r.head? = some ')' ∨ r.head? = none)
    (hn : r.head? = some ')' ↔ nested = true) : EndsList nested r.rest := by
  unfold EndsList
  cases nested with
  | true => exact hn.2 rfl
  | false => exact List.head?_eq_none_iff.1 (h.resolve_left fun hc => absurd (hn.1 hc) (by decide))

/-- What reading a list does with one attribute: it ends, or adds an attribute and ends or goes
on. -/
theorem readList_step {fuel : Nat} {nested : Bool} {m m' : Attributes} {r r' : Reader}
    (h : readList (fuel + 1) nested m r = .ok (m', r')) :
    (m' = m ∧ r' = r.skipBlanks ∧ EndsList nested r'.rest) ∨
      ∃ key value r₁ r₂, readKey r.skipBlanks = .ok (key, r₁) ∧
        readArgument (readList fuel true []) r₁.skipBlanks = .ok (value, r₂) ∧
        m.contains key = false ∧
        ((m' = m.insert key value ∧ r' = r₂.skipBlanks ∧ EndsList nested r'.rest) ∨
          (r₂.skipBlanks.head? = some ',' ∧
            readList fuel nested (m.insert key value) r₂.skipBlanks.next = .ok (m', r'))) := by
  rw [readList] at h
  dsimp only at h
  split at h
  · rename_i hend
    split at h
    · cases h
    · rename_i hn
      cases Except.ok.inj h
      exact .inl ⟨rfl, rfl, endsList_of_head? (.inr hend) (by simp [hend, hn])⟩
  · rename_i hend
    split at h
    · rename_i hn
      cases Except.ok.inj h
      exact .inl ⟨rfl, rfl, endsList_of_head? (.inl hend) (by simp [hend, hn])⟩
    · cases h
  · obtain ⟨⟨key, r₁⟩, hkey, h⟩ := bind_eq_ok_iff.1 h
    obtain ⟨⟨value, r₂⟩, hvalue, h⟩ := bind_eq_ok_iff.1 h
    dsimp only at h
    split at h
    · cases h
    · rename_i hnew
      refine .inr ⟨key, value, r₁, r₂, hkey, hvalue, by simpa using hnew, ?_⟩
      split at h
      · rename_i hcomma
        exact .inr ⟨hcomma, h⟩
      · rename_i hend
        split at h
        · rename_i hn
          cases Except.ok.inj h
          exact .inl ⟨rfl, rfl, endsList_of_head? (.inl hend) (by simp [hend, hn])⟩
        · cases h
      · rename_i hend
        split at h
        · cases h
        · rename_i hn
          cases Except.ok.inj h
          exact .inl ⟨rfl, rfl, endsList_of_head? (.inr hend) (by simp [hend, hn])⟩
      · cases h

/-- Whatever is read behind readable attributes is readable, and a list's first key starts where
the list does. -/
theorem readList_readable {fuel : Nat} {nested : Bool} {m m' : Attributes} {r r' : Reader}
    (hm : m.Readable) (h : readList fuel nested m r = .ok (m', r')) :
    m'.Readable ∧ ∃ more, m' = m ++ more ∧
      ∀ e ∈ more.head?, e.1.toList.head? = r.skipBlanks.head? := by
  induction fuel generalizing nested m m' r r' with
  | zero =>
    rw [readList] at h
    cases h
  | succ fuel ih =>
    have hnested : ∀ {s s' : Reader} {n : Attributes}, readList fuel true [] s = .ok (n, s') →
        n.Readable ∧ ∀ e ∈ n.head?, e.1.toList.head? = s.skipBlanks.head? := fun hn => by
      obtain ⟨hread, more, rfl, hhead⟩ := ih .nil hn
      exact ⟨hread, hhead⟩
    rcases readList_step h with ⟨rfl, -, -⟩ | ⟨key, value, r₁, r₂, hkey, hvalue, hnew, hgo⟩
    · exact ⟨hm, [], by simp, by simp⟩
    · obtain ⟨hk, hhead⟩ := readKey_eq_ok hkey
      have hinsert := hm.insert hk (readArgument_readable hnested hvalue) hnew
      have hmore := Attributes.insert_of_not_contains hnew value
      rcases hgo with ⟨rfl, -, -⟩ | ⟨-, hgo⟩
      · exact ⟨hinsert, _, hmore, by simpa using hhead⟩
      · obtain ⟨hread, more, hm', -⟩ := ih hinsert hgo
        refine ⟨hread, (key, value) :: more, ?_, by simpa using hhead⟩
        rw [hm', hmore, List.append_assoc, List.singleton_append]

end Attribute

/-- The attributes of a text are readable. -/
theorem Attributes.parse_readable {text : String} {origin : Text.Position} {m : Attributes}
    (h : Attributes.parse text origin = .ok m) : m.Readable := by
  unfold Attributes.parse parseAt at h
  obtain ⟨⟨m', r⟩, hr, hm⟩ := map_eq_ok_iff.1 h
  cases hm
  exact (readList_readable .nil hr).1

end HeaderReflection
