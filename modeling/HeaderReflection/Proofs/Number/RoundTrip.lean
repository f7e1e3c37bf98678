import Mathlib.Tactic.FieldSimp
import Mathlib.Tactic.Linarith
import Mathlib.Tactic.NormNum
import Mathlib.Tactic.Positivity
import Mathlib.Tactic.Ring
import HeaderReflection.Proofs.Number.Notation
import HeaderReflection.Proofs.Number.Rounding

/-!
# Shortest digits read back

* `roundsTo_shortest`: the shortest decimal of a finite number rounds to it. The search for it
  always succeeds, since a grid of 17 digits is finer than the numbers are.
* `read?_plainChars`: the plain text of a finite number reads back as the number, sign and all.
-/

namespace HeaderReflection

open Text (isAsciiDigit)

/-! ## Decimal exponents -/

theorem pow_pred_digitCount_le {n : ℕ} (hn : 0 < n) : 10 ^ (digitCount n - 1) ≤ n := by
  by_cases h1 : digitCount n - 1 = 0
  · rw [h1]
    exact hn
  · by_contra hlt
    have := (Nat.length_toDigits_le_iff (by decide) (by omega)).2 (Nat.lt_of_not_le hlt)
    unfold digitCount at *
    omega

theorem lt_pow_digitCount (n : ℕ) : n < 10 ^ digitCount n :=
  (Nat.length_toDigits_le_iff (by decide) Nat.length_toDigits_pos).1 (Nat.le_refl _)

private theorem ten_zpow_neg_le {num den k : ℕ} (hden : 0 < den) (h : den ≤ num * 10 ^ k) :
    (10 : ℚ) ^ (-(k : ℤ)) ≤ num / den := by
  have hd : (0 : ℚ) < den := by exact_mod_cast hden
  have h' : (den : ℚ) ≤ num * 10 ^ k := by exact_mod_cast h
  rw [zpow_neg, zpow_natCast, le_div_iff₀ hd, inv_mul_le_iff₀ (by positivity), mul_comm]
  exact h'

/-- The decimal exponent is not too great. -/
theorem decimalExponent_le {num den : ℕ} (hnum : 0 < num) (hden : 0 < den) :
    (10 : ℚ) ^ decimalExponent num den ≤ num / den := by
  have hd : (0 : ℚ) < den := by exact_mod_cast hden
  unfold decimalExponent
  split
  · rename_i h
    have hq := pow_pred_digitCount_le (Nat.div_pos h hden)
    have hpos : 0 < digitCount (num / den) := Nat.length_toDigits_pos
    have hle : 10 ^ (digitCount (num / den) - 1) * den ≤ num :=
      (Nat.mul_le_mul_right _ hq).trans (Nat.div_mul_le_self _ _)
    rw [show ((digitCount (num / den) : ℤ) - 1) = ((digitCount (num / den) - 1 : ℕ) : ℤ) by omega,
      zpow_natCast, le_div_iff₀ hd]
    exact_mod_cast hle
  · dsimp only
    split
    · rename_i h
      exact ten_zpow_neg_le hden h
    · split
      · rename_i h
        exact ten_zpow_neg_le hden h
      · refine ten_zpow_neg_le hden ?_
        have hn := pow_pred_digitCount_le hnum
        have hpos : 0 < digitCount num := Nat.length_toDigits_pos
        calc den ≤ 10 ^ digitCount den := (lt_pow_digitCount den).le
          _ ≤ 10 ^ (digitCount num - 1 + (digitCount den - digitCount num + 1)) :=
              Nat.pow_le_pow_right (by decide) (by omega)
          _ = 10 ^ (digitCount num - 1) * 10 ^ (digitCount den - digitCount num + 1) :=
              Nat.pow_add ..
          _ ≤ num * 10 ^ (digitCount den - digitCount num + 1) := Nat.mul_le_mul_right _ hn

/-! ## Points of a grid -/

namespace Number

/-- A grid point and an end of the interval, as they are compared in natural numbers: both are
scaled by the same factor. -/
private theorem cast_step (den d : ℕ) (grid : ℤ) :
    ((d * (den * Nat.pow 10 grid.toNat) : ℕ) : ℚ) =
      d * 10 ^ grid * (den * 10 ^ (-grid).toNat) := by
  rw [zpow_eq_div 10 grid, Nat.pow_eq]
  push_cast
  field_simp

private theorem cast_span {num den : ℕ} (hden : 0 < den) (x : ℕ) (grid : ℤ) :
    ((x * (num * Nat.pow 10 (-grid).toNat) : ℕ) : ℚ) =
      x * (num / den) * (den * 10 ^ (-grid).toNat) := by
  have hd : (0 : ℚ) < den := by exact_mod_cast hden
  rw [Nat.pow_eq]
  push_cast
  field_simp

private theorem scale_pos {den : ℕ} (hden : 0 < den) (grid : ℤ) :
    (0 : ℚ) < den * 10 ^ (-grid).toNat := by
  have hd : (0 : ℚ) < den := by exact_mod_cast hden
  positivity

private theorem span_lt_step_iff {num den : ℕ} (hden : 0 < den) (x d : ℕ) (grid : ℤ) :
    x * (num * Nat.pow 10 (-grid).toNat) < d * (den * Nat.pow 10 grid.toNat) ↔
      (x : ℚ) * (num / den) < d * 10 ^ grid := by
  rw [← Nat.cast_lt (α := ℚ), cast_step den d grid, cast_span hden x grid,
    mul_lt_mul_iff_left₀ (scale_pos hden grid)]

private theorem step_lt_span_iff {num den : ℕ} (hden : 0 < den) (x d : ℕ) (grid : ℤ) :
    d * (den * Nat.pow 10 grid.toNat) < x * (num * Nat.pow 10 (-grid).toNat) ↔
      (d : ℚ) * 10 ^ grid < x * (num / den) := by
  rw [← Nat.cast_lt (α := ℚ), cast_step den d grid, cast_span hden x grid,
    mul_lt_mul_iff_left₀ (scale_pos hden grid)]

/-- A value lies between two ends, strictly unless they belong to the interval. -/
def Between (low high : ℕ) (closed : Bool) (unit v : ℚ) : Prop :=
  low * unit ≤ v ∧ v ≤ high * unit ∧ (closed = false → low * unit < v ∧ v < high * unit)

theorem between_of_gridInside {low high num den d : ℕ} {closed : Bool} {grid : ℤ}
    (hden : 0 < den)
    (h : gridInside low high closed (den * Nat.pow 10 grid.toNat)
      (num * Nat.pow 10 (-grid).toNat) d = true) :
    Between low high closed (num / den) (d * 10 ^ grid) := by
  unfold gridInside at h
  cases closed
  · simp only [Bool.false_eq_true, if_false, Bool.and_eq_true, decide_eq_true_eq] at h
    rw [span_lt_step_iff hden, step_lt_span_iff hden] at h
    exact ⟨h.1.le, h.2.le, fun _ => h⟩
  · simp only [if_true, Bool.and_eq_true, decide_eq_true_eq] at h
    rw [← not_lt, ← not_lt, step_lt_span_iff hden, span_lt_step_iff hden, not_lt, not_lt] at h
    exact ⟨h.1, h.2, fun hc => by cases hc⟩

/-- The point that is found on a grid lies in the interval. -/
theorem gridPoint_between {low value high num den : ℕ} {closed : Bool} {grid : ℤ} {d : Decimal}
    (hden : 0 < den) (h : gridPoint low value high closed num den grid = some d) :
    Between low high closed (num / den) d.value := by
  unfold gridPoint at h
  dsimp only at h
  split at h
  · rename_i hb
    cases Option.some.inj h
    exact between_of_gridInside hden (Bool.and_eq_true_iff.1 hb).1
  · split at h
    · rename_i hb
      cases Option.some.inj h
      exact between_of_gridInside hden hb
    · cases h

/-- Strictly between the ends lies inside, whether or not they belong to the interval. -/
theorem gridInside_of_lt {low high step span d : ℕ} (closed : Bool) (hlo : low * span < d * step)
    (hhi : d * step < high * span) : gridInside low high closed step span d = true := by
  cases closed <;> simp [gridInside, hlo, hhi, hlo.le, hhi.le]

/-- A grid has a point in the interval if half a step is less than the distance of the value from
either end. -/
theorem isSome_gridPoint {low value high num den : ℕ} {closed : Bool} {grid : ℤ}
    (hstep : 0 < den * Nat.pow 10 grid.toNat)
    (hlo : 2 * (low * (num * Nat.pow 10 (-grid).toNat)) + den * Nat.pow 10 grid.toNat <
      2 * (value * (num * Nat.pow 10 (-grid).toNat)))
    (hhi : 2 * (value * (num * Nat.pow 10 (-grid).toNat)) + den * Nat.pow 10 grid.toNat <
      2 * (high * (num * Nat.pow 10 (-grid).toNat))) :
    (gridPoint low value high closed num den grid).isSome = true := by
  unfold gridPoint
  dsimp only
  generalize den * Nat.pow 10 grid.toNat = step at *
  generalize num * Nat.pow 10 (-grid).toNat = span at *
  have hdiv := Nat.div_add_mod (value * span) step
  have hrest := Nat.mod_lt (value * span) hstep
  generalize value * span / step = below at *
  generalize value * span % step = rest at *
  rw [Nat.mul_comm] at hdiv
  -- Of the two points next to the value, the nearer one is inside.
  have hin : gridInside low high closed step span below = true ∨
      gridInside low high closed step span (below + 1) = true := by
    by_cases hnear : 2 * rest ≤ step
    · exact .inl (gridInside_of_lt closed (by omega) (by omega))
    · exact .inr (gridInside_of_lt closed (by rw [Nat.add_mul]; omega)
        (by rw [Nat.add_mul]; omega))
  cases hb : gridInside low high closed step span below <;>
    cases ha : gridInside low high closed step span (below + 1) <;> simp_all
  split <;> rfl

/-! ## The parts of a number -/

theorem significand_lt (x : Number) : x.significand < 2 ^ 53 := by
  unfold significand
  simp only [Nat.pow_eq]
  split <;> omega

theorem le_scale (x : Number) : -1074 ≤ x.scale := by
  unfold scale
  simp only [Nat.pow_eq]
  split <;> omega

theorem significand_normal (x : Number) : 2 ^ 52 ≤ x.significand ∨ x.scale = -1074 := by
  unfold significand scale
  simp only [Nat.pow_eq]
  split
  · exact .inr rfl
  · exact .inl (Nat.le_add_right _ _)

theorem magnitude_eq (x : Number) :
    x.magnitude = (x.scale + 1074).toNat * 2 ^ 52 + x.significand := by
  unfold significand scale
  simp only [Nat.pow_eq]
  split <;> omega

/-- The two ways to tell that the gap below a number is half as wide. -/
theorem narrow_iff (x : Number) :
    (x.significand = 2 ^ 52 ∧ x.magnitude ≠ 2 ^ 52) ↔
      x.significand = 2 ^ 52 ∧ x.scale ≠ -1074 := by
  have hm := x.magnitude_eq
  have he := x.le_scale
  constructor <;> rintro ⟨h1, h2⟩ <;> refine ⟨h1, fun h => h2 ?_⟩ <;> omega

theorem scale_le {x : Number} (h : x.isFinite = true) : x.scale ≤ 971 := by
  unfold isFinite infiniteMagnitude at h
  simp only [Nat.pow_eq, decide_eq_true_eq] at h
  unfold scale
  simp only [Nat.pow_eq]
  split <;> omega

theorem ofMagnitude_magnitude (x : Number) : ofMagnitude x.isNegative x.magnitude = x := by
  have hlt := x.bits.toNat_lt
  have hbits : (if x.isNegative then Nat.pow 2 63 + x.magnitude else x.magnitude) =
      x.bits.toNat := by
    unfold isNegative magnitude
    simp only [Nat.pow_eq, decide_eq_true_eq]
    split <;> omega
  unfold ofMagnitude
  rw [hbits, UInt64.ofNat_toNat]

end Number

/-! ## The search for the shortest decimal -/

theorem Decimal.value_stripZeros (fuel : ℕ) (d : Decimal) :
    (d.stripZeros fuel).value = d.value := by
  induction fuel generalizing d with
  | zero => rfl
  | succ fuel ih =>
    rw [Decimal.stripZeros]
    split
    · rename_i h
      rw [ih]
      have hdvd : d.digits / 10 * 10 = d.digits := Nat.div_mul_cancel (Nat.dvd_of_mod_eq_zero h.2)
      have hcast : (d.digits : ℚ) = (d.digits / 10 : ℕ) * 10 := by exact_mod_cast hdvd.symm
      unfold Decimal.value
      dsimp only
      rw [hcast, zpow_add_one₀ (by norm_num)]
      ring
    · rfl

namespace Number

/-- A grid of 17 digits has a point in the interval of any number. -/
theorem isSome_gridPoint_17 {m num den : ℕ} (e : ℤ) (closed : Bool) (hm : 0 < m)
    (hmax : m < 2 ^ 53) (hnum : 0 < num) (hden : 0 < den) :
    (gridPoint (lowEnd m e) (4 * m) (4 * m + 2) closed num den
      (decimalExponent (4 * m * num) den - 16)).isSome = true := by
  have htop := decimalExponent_le (Nat.mul_pos (Nat.mul_pos (by decide : 0 < 4) hm) hnum) hden
  generalize decimalExponent (4 * m * num) den = top at *
  -- A step is at most the `10 ^ 16`th part of the value.
  have hfine : 10 ^ 16 * (den * Nat.pow 10 (top - 16).toNat) ≤
      4 * m * (num * Nat.pow 10 (-(top - 16)).toNat) := by
    rw [← not_lt, span_lt_step_iff hden, not_lt]
    calc ((10 ^ 16 : ℕ) : ℚ) * 10 ^ (top - 16) = 10 ^ (16 : ℤ) * 10 ^ (top - 16) := by norm_num
      _ = 10 ^ top := by
          rw [← zpow_add₀ (by norm_num)]
          congr 1
          omega
      _ ≤ ((4 * m * num : ℕ) : ℚ) / den := htop
      _ = ((4 * m : ℕ) : ℚ) * (num / den) := by push_cast; ring
  have hstep : 0 < den * Nat.pow 10 (top - 16).toNat :=
    Nat.mul_pos hden (Nat.pow_pos (by decide))
  have hspan : 0 < num * Nat.pow 10 (-(top - 16)).toNat :=
    Nat.mul_pos hnum (Nat.pow_pos (by decide))
  have hlow : lowEnd m e = 4 * m - 2 ∨ (lowEnd m e = 4 * m - 1 ∧ m = 2 ^ 52) := by
    unfold lowEnd
    split
    · rename_i h
      exact .inr ⟨rfl, h.1⟩
    · exact .inl rfl
  apply isSome_gridPoint hstep
  all_goals
    generalize den * Nat.pow 10 (top - 16).toNat = step at *
    generalize num * Nat.pow 10 (-(top - 16)).toNat = span at *
    have hmspan := Nat.mul_le_mul_right span (show 4 * m ≤ 2 ^ 55 by omega)
  · rcases hlow with hlow | ⟨hlow, rfl⟩
    · rw [hlow, Nat.sub_mul]
      have := Nat.mul_le_mul_right span (show 2 ≤ 4 * m by omega)
      omega
    · rw [hlow]
      omega
  · rw [Nat.add_mul]
    omega

/-- The shortest decimal of a number rounds to it. -/
theorem roundsTo_shortest {x : Number} (hm : x.significand ≠ 0) :
    RoundsTo x.significand x.scale x.shortest.value := by
  have hlow : (if (decide (x.significand = Nat.pow 2 52) &&
      decide (x.magnitude ≠ Nat.pow 2 52)) = true then 4 * x.significand - 1
        else 4 * x.significand - 2) = lowEnd x.significand x.scale := by
    unfold lowEnd
    simp only [Bool.and_eq_true, decide_eq_true_eq, Nat.pow_eq]
    exact if_congr (narrow_iff x) rfl rfl
  have hunit : ((Nat.pow 2 (x.scale - 2).toNat : ℕ) : ℚ) / (Nat.pow 2 (-(x.scale - 2)).toNat : ℕ) =
      2 ^ (x.scale - 2) := by
    rw [zpow_eq_div]
    simp
  have hnum : 0 < Nat.pow 2 (x.scale - 2).toNat := Nat.two_pow_pos _
  have hden : 0 < Nat.pow 2 (-(x.scale - 2)).toNat := Nat.two_pow_pos _
  have hfound := isSome_gridPoint_17 x.scale (decide (x.significand % 2 = 0))
    (Nat.pos_of_ne_zero hm) x.significand_lt hnum hden
  unfold shortest
  dsimp only
  rw [if_neg hm, hlow]
  split
  · rename_i d hd
    obtain ⟨grid, -, hgrid⟩ := List.exists_of_findSome?_eq_some hd
    have hbetween := gridPoint_between hden hgrid
    rw [hunit] at hbetween
    rw [Decimal.value_stripZeros]
    obtain ⟨hlo, hhi, hopen⟩ := hbetween
    push_cast at hhi hopen
    refine ⟨hlo, hhi, fun hodd => hopen ?_⟩
    simp [hodd]
  · rename_i hnone
    rw [List.findSome?_eq_none_iff] at hnone
    have hmiss := hnone _ (List.mem_map.2 ⟨16, List.mem_range.2 (by decide), rfl⟩)
    rw [Nat.cast_ofNat] at hmiss
    rw [hmiss] at hfound
    cases hfound

end Number

/-! ## Reading the plain text back -/

namespace Decimal

theorem value_eq_div (d : Decimal) : d.value =
    (d.digits * Nat.pow 10 d.exponent.toNat : ℕ) / (Nat.pow 10 (-d.exponent).toNat : ℕ) := by
  unfold value
  rw [Number.zpow_eq_div 10 d.exponent, Nat.pow_eq, Nat.pow_eq]
  push_cast
  rw [mul_div_assoc]

/-- The point of a decimal tells its order of magnitude. -/
theorem value_bounds {d : Decimal} (h : d.digits ≠ 0) :
    10 ^ (d.point - 1) ≤ d.value ∧ d.value < 10 ^ d.point := by
  have hcount : 0 < digitCount d.digits := Nat.length_toDigits_pos
  have hlo : (10 : ℚ) ^ (digitCount d.digits - 1) ≤ d.digits := by
    exact_mod_cast pow_pred_digitCount_le (Nat.pos_of_ne_zero h)
  have hhi : (d.digits : ℚ) < 10 ^ digitCount d.digits := by
    exact_mod_cast lt_pow_digitCount d.digits
  have hexp : (0 : ℚ) < 10 ^ d.exponent := zpow_pos (by norm_num) _
  have hpred : d.point - 1 = (digitCount d.digits - 1 : ℕ) + d.exponent := by
    unfold point
    omega
  unfold value
  constructor
  · rw [hpred, zpow_add₀ (by norm_num), zpow_natCast]
    exact mul_le_mul_of_nonneg_right hlo hexp.le
  · unfold point
    rw [zpow_add₀ (by norm_num), zpow_natCast]
    exact mul_lt_mul_of_pos_right hhi hexp

end Decimal

namespace Number

private theorem two_pow_le_ten_pow : (2 : ℚ) ^ 1080 ≤ 10 ^ 400 :=
  calc (2 : ℚ) ^ 1080 = (2 ^ 27) ^ 40 := pow_mul 2 27 40
    _ ≤ (10 ^ 10) ^ 40 := pow_le_pow_left₀ (by positivity) (by norm_num) 40
    _ = 10 ^ 400 := (pow_mul 10 10 40).symm

/-- The magnitudes of finite numbers have their points far inside the range that is read. -/
theorem point_bounds {x : Number} (hfin : x.isFinite = true) (hm : x.significand ≠ 0)
    {d : Decimal} (h : RoundsTo x.significand x.scale d.value) (hd : d.digits ≠ 0) :
    -400 ≤ d.point ∧ d.point ≤ 400 := by
  obtain ⟨hlo, hhi⟩ := d.value_bounds hd
  have hscale := x.le_scale
  have hscale' := scale_le hfin
  constructor
  · by_contra hlt
    have hlow : (2 : ℚ) ^ (-1080 : ℤ) ≤ d.value :=
      (zpow_le_zpow_right₀ (by norm_num) (by omega)).trans (h.le_of_pos (Nat.pos_of_ne_zero hm))
    have hsmall : d.value < (10 : ℚ) ^ (-400 : ℤ) :=
      hhi.trans_le (zpow_le_zpow_right₀ (by norm_num) (by omega))
    have hgap : (10 : ℚ) ^ (-400 : ℤ) ≤ 2 ^ (-1080 : ℤ) := by
      rw [zpow_neg, zpow_neg]
      exact inv_anti₀ (by positivity) two_pow_le_ten_pow
    exact absurd (hlow.trans_lt hsmall) hgap.not_gt
  · by_contra hlt
    have hlarge : (10 : ℚ) ^ 400 ≤ d.value := by
      rw [← zpow_natCast]
      exact (zpow_le_zpow_right₀ (by norm_num) (by omega)).trans hlo
    have hhigh : d.value < (2 : ℚ) ^ 1080 := by
      rw [← zpow_natCast]
      exact (h.lt_binade x.significand_lt).trans_le
        (zpow_le_zpow_right₀ (by norm_num) (by omega))
    exact absurd (hlarge.trans_lt hhigh) two_pow_le_ten_pow.not_gt

/-- A decimal that rounds to the magnitude of a finite number denotes the number. -/
theorem ofDecimal?_of_roundsTo {x : Number} (hfin : x.isFinite = true) (hm : x.significand ≠ 0)
    {d : Decimal} (h : RoundsTo x.significand x.scale d.value) :
    ofDecimal? x.isNegative d = some x := by
  have hpos : 0 < d.value :=
    (zpow_pos (by norm_num) _).trans_le (h.le_of_pos (Nat.pos_of_ne_zero hm))
  have hd : d.digits ≠ 0 := by
    intro h0
    simp [Decimal.value, h0] at hpos
  obtain ⟨hlo, hhi⟩ := point_bounds hfin hm h hd
  have hmag : nearestMagnitude (d.digits * Nat.pow 10 d.exponent.toNat)
      (Nat.pow 10 (-d.exponent).toNat) = x.magnitude := by
    rw [d.value_eq_div] at h
    rw [x.magnitude_eq]
    exact nearestMagnitude_eq (Nat.mul_pos (Nat.pos_of_ne_zero hd) (Nat.pow_pos (by decide)))
      (Nat.pow_pos (by decide)) x.le_scale (Nat.pos_of_ne_zero hm) x.significand_lt
      x.significand_normal h
  have hlt : x.magnitude < infiniteMagnitude := of_decide_eq_true hfin
  unfold ofDecimal?
  dsimp only
  rw [hmag, if_neg (by simp [hd, hlo]), if_neg (by omega), if_pos hlt, ofMagnitude_magnitude]

theorem magnitude_eq_zero {x : Number} (hm : x.significand = 0) : x.magnitude = 0 := by
  have hscale : x.scale = -1074 := by
    rcases x.significand_normal with h | h
    · omega
    · exact h
  rw [x.magnitude_eq, hm, hscale]
  rfl

/-- The shortest decimal of a finite number denotes the number, and so does any other notation of
the same value. -/
theorem ofDecimal?_of_value_eq {x : Number} (hfin : x.isFinite = true) {d : Decimal}
    (h : d.value = x.shortest.value) : ofDecimal? x.isNegative d = some x := by
  by_cases hm : x.significand = 0
  · have hzero : d.value = 0 := by
      rw [h]
      simp [shortest, hm, Decimal.value]
    have hd : d.digits = 0 := by
      simpa [Decimal.value, zpow_ne_zero] using hzero
    have hx := x.ofMagnitude_magnitude
    rw [magnitude_eq_zero hm] at hx
    simp [ofDecimal?, hd, hx]
  · exact ofDecimal?_of_roundsTo hfin hm (h ▸ roundsTo_shortest hm)

theorem not_isNaN_of_isFinite {x : Number} (hfin : x.isFinite = true) : x.isNaN = false := by
  simp only [isNaN, isFinite, decide_eq_true_eq, decide_eq_false_iff_not] at *
  omega

/-- The plain text of a finite number is made of digits, a point and a minus sign. -/
theorem mem_plainChars {x : Number} (hfin : x.isFinite = true) {c : Char}
    (hc : c ∈ x.plainChars) : isAsciiDigit c = true ∨ c = '.' ∨ c = '-' := by
  unfold plainChars signed at hc
  rw [if_neg (by simp [not_isNaN_of_isFinite hfin]), if_pos hfin] at hc
  have hpositional : c ∈ x.shortest.positional [] → isAsciiDigit c = true ∨ c = '.' ∨ c = '-' :=
    fun h => (Decimal.isAsciiDigit_or_point_of_mem h).imp_right fun h => .inl (by simpa using h)
  split at hc
  · rcases List.mem_cons.1 hc with rfl | hc
    · exact .inr (.inr rfl)
    · exact hpositional hc
  · exact hpositional hc

/-- The plain text of a finite number starts with a digit or a minus sign. -/
theorem head_plainChars {x : Number} (hfin : x.isFinite = true) :
    ∃ c cs, x.plainChars = c :: cs ∧ (isAsciiDigit c = true ∨ c = '-') := by
  obtain ⟨c, cs, hcs, hc⟩ := Decimal.head_positional x.shortest
  unfold plainChars signed
  rw [if_neg (by simp [not_isNaN_of_isFinite hfin]), if_pos hfin]
  split
  · exact ⟨_, _, rfl, .inr rfl⟩
  · exact ⟨c, cs, hcs, .inl hc⟩

/-- **The plain text of a finite number reads back as the number.** -/
theorem read?_plainChars {x : Number} (hfin : x.isFinite = true) : read? x.plainChars = some x := by
  obtain ⟨d, hd, hvalue⟩ := Decimal.exists_readDecimal_positional x.shortest
  obtain ⟨c, cs, hcs, hc⟩ := Decimal.head_positional x.shortest
  have hsign : readSign x.plainChars = (x.isNegative, x.shortest.positional []) := by
    unfold plainChars signed
    rw [if_neg (by simp [not_isNaN_of_isFinite hfin]), if_pos hfin, hcs]
    cases x.isNegative
    · have hminus : c ≠ '-' := fun h => by rw [h] at hc; cases hc
      have hplus : c ≠ '+' := fun h => by rw [h] at hc; cases hc
      rw [if_neg (by decide), readSign]
      · simpa using hminus
      · simpa using hplus
    · rfl
  unfold read?
  rw [hsign]
  dsimp only
  rw [hd, Option.bind_some, ofDecimal?_of_value_eq hfin hvalue]

end Number

end HeaderReflection
