import Mathlib.Algebra.Order.Field.Power
import Mathlib.Data.List.TakeWhile
import Mathlib.Data.Rat.Cast.Order
import Mathlib.Tactic.FieldSimp
import Mathlib.Tactic.Ring
import HeaderReflection.Number.Layout
import HeaderReflection.Number.Read

/-!
# Positional notation

The value of a decimal is `digits * 10 ^ exponent`, a rational number.

* `exists_readDecimal_positional`: positional notation reads back as a decimal of the same value.
* `isAsciiDigit_or_point_of_mem`: it is made of digits, points and the ending of whole numbers.
-/

namespace HeaderReflection

open Text (isAsciiDigit)

/-- The value of a decimal. -/
def Decimal.value (d : Decimal) : ℚ :=
  d.digits * (10 : ℚ) ^ d.exponent

/-! ## Digits -/

theorem digitsValue_eq (cs : List Char) : digitsValue cs = Nat.ofDigitChars 10 cs 0 := rfl

theorem digitsValue_digitChars (d : Decimal) : digitsValue d.digitChars = d.digits :=
  Nat.ofDigitChars_ten_toDigits

theorem isAsciiDigit_of_mem_digitChars {d : Decimal} {c : Char} (h : c ∈ d.digitChars) :
    isAsciiDigit c = true :=
  Nat.isDigit_of_mem_toDigits (by decide) (by decide) h

theorem isAsciiDigit_of_mem_replicate {n : Nat} {c : Char} (h : c ∈ List.replicate n '0') :
    isAsciiDigit c = true :=
  List.eq_of_mem_replicate h ▸ rfl

theorem digitsValue_zeros_append (n : Nat) (cs : List Char) :
    digitsValue (List.replicate n '0' ++ cs) = digitsValue cs := by
  rw [digitsValue_eq, Nat.ofDigitChars_append, Nat.ofDigitChars_replicate_zero, Nat.mul_zero]
  rfl

theorem digitsValue_append_zeros (n : Nat) (cs : List Char) :
    digitsValue (cs ++ List.replicate n '0') = digitsValue cs * 10 ^ n := by
  rw [digitsValue_eq, Nat.ofDigitChars_append, Nat.ofDigitChars_replicate_zero, Nat.mul_comm]
  rfl

/-! ## Reading a notation -/

theorem readDecimal?_whole {ds : List Char} (h : ∀ c ∈ ds, isAsciiDigit c = true)
    (hne : ds ≠ []) : readDecimal? ds = some ⟨digitsValue ds, 0⟩ := by
  have ht : ds.takeWhile isAsciiDigit = ds := List.takeWhile_eq_self_iff.2 h
  have hd : ds.dropWhile isAsciiDigit = [] := List.dropWhile_eq_nil_iff.2 h
  simp [readDecimal?, ht, hd, hne, readExponent?]

theorem readDecimal?_point {ds fs : List Char} (hds : ∀ c ∈ ds, isAsciiDigit c = true)
    (hfs : ∀ c ∈ fs, isAsciiDigit c = true) (hne : ds ≠ []) :
    readDecimal? (ds ++ '.' :: fs) = some ⟨digitsValue (ds ++ fs), -fs.length⟩ := by
  have ht : (ds ++ '.' :: fs).takeWhile isAsciiDigit = ds := by
    rw [List.takeWhile_append_of_pos hds, List.takeWhile_cons_of_neg (by decide), List.append_nil]
  have hd : (ds ++ '.' :: fs).dropWhile isAsciiDigit = '.' :: fs := by
    rw [List.dropWhile_append_of_pos hds, List.dropWhile_cons_of_neg (by decide)]
  have htf : fs.takeWhile isAsciiDigit = fs := List.takeWhile_eq_self_iff.2 hfs
  have hdf : fs.dropWhile isAsciiDigit = [] := List.dropWhile_eq_nil_iff.2 hfs
  simp [readDecimal?, ht, hd, htf, hdf, hne, readExponent?]

namespace Decimal

/-- Positional notation reads back as a decimal of the same value. -/
theorem exists_readDecimal_positional (d : Decimal) :
    ∃ d', readDecimal? (d.positional []) = some d' ∧ d'.value = d.value := by
  have hdigits := fun c => isAsciiDigit_of_mem_digitChars (d := d) (c := c)
  have hne : d.digitChars ≠ [] := Nat.toDigits_ne_nil
  have hcount : (digitCount d.digits : Int) = d.digitChars.length := rfl
  unfold positional
  by_cases h0 : d.digits = 0
  · rw [if_pos h0]
    exact ⟨⟨0, 0⟩, rfl, by simp [value, h0]⟩
  rw [if_neg h0]
  by_cases hpoint : d.point ≤ 0
  · rw [if_pos hpoint]
    have hzero : ∀ c ∈ ['0'], isAsciiDigit c = true := by decide
    refine ⟨_, readDecimal?_point hzero ?_ (by decide), ?_⟩
    · intro c hc
      rcases List.mem_append.1 hc with hc | hc
      · exact isAsciiDigit_of_mem_replicate hc
      · exact hdigits c hc
    · have hz : digitsValue (['0'] ++ (List.replicate (-d.point).toNat '0' ++ d.digitChars)) =
          d.digits := by
        rw [← List.append_assoc, show ['0'] = List.replicate 1 '0' from rfl,
          List.replicate_append_replicate, digitsValue_zeros_append, digitsValue_digitChars]
      have he : -((List.replicate (-d.point).toNat '0' ++ d.digitChars).length : Int) =
          d.exponent := by
        rw [List.length_append, List.length_replicate]
        unfold point at hpoint ⊢
        omega
      rw [value, hz, he]
      rfl
  rw [if_neg hpoint]
  by_cases hwhole : (d.digitChars.length : Int) ≤ d.point
  · rw [if_pos hwhole, List.append_nil]
    refine ⟨_, readDecimal?_whole ?_ (by simp [hne]), ?_⟩
    · intro c hc
      rcases List.mem_append.1 hc with hc | hc
      · exact hdigits c hc
      · exact isAsciiDigit_of_mem_replicate hc
    · have he : d.exponent = ((d.point.toNat - d.digitChars.length : Nat) : Int) := by
        unfold point at hpoint hwhole ⊢
        omega
      rw [value, value, digitsValue_append_zeros, digitsValue_digitChars, he, zpow_natCast]
      push_cast
      ring
  · rw [if_neg hwhole]
    refine ⟨_, readDecimal?_point ?_ ?_ ?_, ?_⟩
    · exact fun c hc => hdigits c (List.mem_of_mem_take hc)
    · exact fun c hc => hdigits c (List.mem_of_mem_drop hc)
    · intro hnil
      have := List.take_eq_nil_iff.1 hnil
      rcases this with h | h
      · omega
      · exact hne h
    · have he : -((d.digitChars.drop d.point.toNat).length : Int) = d.exponent := by
        rw [List.length_drop]
        unfold point at hpoint hwhole ⊢
        omega
      rw [value, List.take_append_drop, digitsValue_digitChars, he]
      rfl

/-- Positional notation is made of digits, points and the ending of whole numbers. -/
theorem isAsciiDigit_or_point_of_mem {d : Decimal} {whole : List Char} {c : Char}
    (h : c ∈ d.positional whole) : isAsciiDigit c = true ∨ c = '.' ∨ c ∈ whole := by
  have hdigits := fun c => isAsciiDigit_of_mem_digitChars (d := d) (c := c)
  unfold positional at h
  dsimp only at h
  split at h
  · rcases List.mem_cons.1 h with rfl | h
    · exact .inl rfl
    · exact .inr (.inr h)
  · split at h
    · simp only [List.mem_cons, List.mem_append] at h
      rcases h with rfl | rfl | h | h
      · exact .inl rfl
      · exact .inr (.inl rfl)
      · exact .inl (isAsciiDigit_of_mem_replicate h)
      · exact .inl (hdigits c h)
    · split at h
      · simp only [List.mem_append] at h
        rcases h with (h | h) | h
        · exact .inl (hdigits c h)
        · exact .inl (isAsciiDigit_of_mem_replicate h)
        · exact .inr (.inr h)
      · simp only [List.mem_append, List.mem_cons] at h
        rcases h with h | rfl | h
        · exact .inl (hdigits c (List.mem_of_mem_take h))
        · exact .inr (.inl rfl)
        · exact .inl (hdigits c (List.mem_of_mem_drop h))

theorem head_positional (d : Decimal) :
    ∃ c cs, d.positional [] = c :: cs ∧ isAsciiDigit c = true := by
  have hdigits := fun c => isAsciiDigit_of_mem_digitChars (d := d) (c := c)
  have hne : d.digitChars ≠ [] := Nat.toDigits_ne_nil
  obtain ⟨c, cs, hc⟩ := List.exists_cons_of_ne_nil hne
  have hd : isAsciiDigit c = true := hdigits c (hc ▸ List.mem_cons_self)
  unfold positional
  dsimp only
  split
  · exact ⟨_, _, rfl, rfl⟩
  · split
    · exact ⟨_, _, rfl, rfl⟩
    · split
      · exact ⟨c, _, by rw [hc]; rfl, hd⟩
      · rename_i hpoint _
        obtain ⟨n, hn⟩ : ∃ n, d.point.toNat = n + 1 := ⟨d.point.toNat - 1, by omega⟩
        exact ⟨c, _, by rw [hc, hn]; rfl, hd⟩

end Decimal

end HeaderReflection
