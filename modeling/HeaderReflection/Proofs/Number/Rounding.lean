import Mathlib.Algebra.Order.Field.Power
import Mathlib.Data.Rat.Cast.Order
import Mathlib.Tactic.FieldSimp
import Mathlib.Tactic.Linarith
import Mathlib.Tactic.NormNum
import Mathlib.Tactic.Positivity
import Mathlib.Tactic.Ring
import HeaderReflection.Number.Read

/-!
# Rounding to the nearest number

A finite number is `m * 2 ^ e` with a significand `m` below `2 ^ 53`. The reals that round to it
make up an interval around it (`RoundsTo`), whose ends belong to it if `m` is even.

* `binaryExponent_bounds`: the binary exponent of a quotient encloses it between two powers of two.
* `roundQuotient_eq`: a quotient within half a unit of `n` rounds to `n`.
* `nearestMagnitude_eq`: a quotient that rounds to `m * 2 ^ e` has the magnitude of that number.
-/

namespace HeaderReflection.Number

/-! ## Powers with integer exponents -/

theorem zpow_eq_div (b : ℚ) (k : ℤ) : b ^ k = b ^ k.toNat / b ^ (-k).toNat := by
  rcases le_total 0 k with hk | hk
  · have h0 : (-k).toNat = 0 := by omega
    rw [h0, pow_zero, div_one, ← zpow_natCast, Int.toNat_of_nonneg hk]
  · have h0 : k.toNat = 0 := by omega
    rw [h0, pow_zero, ← zpow_natCast, Int.toNat_of_nonneg (by omega), zpow_neg, one_div, inv_inv]

private theorem two_zpow_pos (k : ℤ) : (0 : ℚ) < 2 ^ k := zpow_pos (by norm_num) k

private theorem two_zpow_le {a b : ℤ} (h : a ≤ b) : (2 : ℚ) ^ a ≤ 2 ^ b :=
  zpow_le_zpow_right₀ (by norm_num) h

private theorem two_zpow_add_nat (e : ℤ) (n : ℕ) : (2 : ℚ) ^ (e + n) = 2 ^ n * 2 ^ e := by
  rw [zpow_add₀ (by norm_num), zpow_natCast, mul_comm]

/-! ## The binary exponent -/

theorem two_pow_log2_bounds {n : ℕ} (hn : 0 < n) :
    (2 : ℚ) ^ (n.log2 : ℤ) ≤ n ∧ (n : ℚ) < 2 ^ ((n.log2 : ℤ) + 1) := by
  have hlo : 2 ^ n.log2 ≤ n := Nat.log2_self_le (by omega)
  have hhi : n < 2 ^ (n.log2 + 1) := Nat.lt_log2_self
  constructor
  · rw [zpow_natCast]
    exact_mod_cast hlo
  · rw [show (n.log2 : ℤ) + 1 = ((n.log2 + 1 : ℕ) : ℤ) by push_cast; rfl, zpow_natCast]
    exact_mod_cast hhi

theorem scaled_le_iff {num den : ℕ} (hden : 0 < den) (k : ℤ) :
    den * Nat.pow 2 k.toNat ≤ num * Nat.pow 2 (-k).toNat ↔ (2 : ℚ) ^ k ≤ num / den := by
  have hd : (0 : ℚ) < den := by exact_mod_cast hden
  rw [zpow_eq_div 2 k, div_le_div_iff₀ (by positivity) hd,
    mul_comm ((2 : ℚ) ^ k.toNat)]
  exact ⟨fun h => by exact_mod_cast h, fun h => by exact_mod_cast h⟩

/-- The binary exponent encloses a quotient between two powers of two. -/
theorem binaryExponent_bounds {num den : ℕ} (hnum : 0 < num) (hden : 0 < den) :
    (2 : ℚ) ^ binaryExponent num den ≤ num / den ∧
      (num : ℚ) / den < 2 ^ (binaryExponent num den + 1) := by
  have hd : (0 : ℚ) < den := by exact_mod_cast hden
  obtain ⟨hnlo, hnhi⟩ := two_pow_log2_bounds hnum
  obtain ⟨hdlo, hdhi⟩ := two_pow_log2_bounds hden
  have hlow : (2 : ℚ) ^ ((num.log2 : ℤ) - den.log2 - 1) ≤ num / den := by
    rw [le_div_iff₀ hd]
    calc (2 : ℚ) ^ ((num.log2 : ℤ) - den.log2 - 1) * den
        ≤ 2 ^ ((num.log2 : ℤ) - den.log2 - 1) * 2 ^ ((den.log2 : ℤ) + 1) :=
          mul_le_mul_of_nonneg_left hdhi.le (two_zpow_pos _).le
      _ = 2 ^ (num.log2 : ℤ) := by
          rw [← zpow_add₀ (by norm_num)]
          congr 1
          omega
      _ ≤ num := hnlo
  have hhigh : (num : ℚ) / den < 2 ^ ((num.log2 : ℤ) - den.log2 + 1) := by
    rw [div_lt_iff₀ hd]
    calc (num : ℚ) < 2 ^ ((num.log2 : ℤ) + 1) := hnhi
      _ = 2 ^ ((num.log2 : ℤ) - den.log2 + 1) * 2 ^ (den.log2 : ℤ) := by
          rw [← zpow_add₀ (by norm_num)]
          congr 1
          omega
      _ ≤ 2 ^ ((num.log2 : ℤ) - den.log2 + 1) * den :=
          mul_le_mul_of_nonneg_left hdlo (two_zpow_pos _).le
  unfold binaryExponent
  dsimp only
  split
  · rename_i h
    exact ⟨(scaled_le_iff hden _).1 h, hhigh⟩
  · rename_i h
    refine ⟨hlow, ?_⟩
    rw [sub_add_cancel]
    exact lt_of_not_ge fun hge => h ((scaled_le_iff hden _).2 hge)

/-! ## Rounding a quotient -/

/-- A quotient within half a unit of `n`, and closer if `n` is odd, rounds to `n`. -/
theorem roundQuotient_eq {num den n : ℕ} (hlo : 2 * (n * den) ≤ 2 * num + den)
    (hhi : 2 * num ≤ 2 * (n * den) + den)
    (hodd : n % 2 = 1 → 2 * (n * den) < 2 * num + den ∧ 2 * num < 2 * (n * den) + den)
    (hden : 0 < den) : roundQuotient num den = n := by
  have hdiv := Nat.div_add_mod num den
  have hrest := Nat.mod_lt num hden
  unfold roundQuotient
  dsimp only
  generalize num / den = q at *
  generalize num % den = r at *
  have hqn : q ≤ n := by
    by_contra hlt
    have := Nat.mul_le_mul_right den (show n + 1 ≤ q by omega)
    rw [Nat.add_mul, Nat.mul_comm q] at this
    omega
  have hnq : n ≤ q + 1 := by
    by_contra hlt
    have := Nat.mul_le_mul_right den (show q + 2 ≤ n by omega)
    rw [Nat.add_mul, Nat.mul_comm q] at this
    omega
  rcases (show n = q ∨ n = q + 1 by omega) with rfl | rfl
  · rw [Nat.mul_comm n den] at *
    rw [if_neg]
    simp only [Bool.or_eq_true, Bool.and_eq_true, decide_eq_true_eq]
    omega
  · rw [Nat.add_mul, Nat.mul_comm q den] at *
    rw [if_pos]
    simp only [Bool.or_eq_true, Bool.and_eq_true, decide_eq_true_eq]
    omega

/-- The same for a quotient in units of a power of two. -/
theorem roundQuotient_scaled {num den n : ℕ} {q : ℤ} (hden : 0 < den)
    (hlo : ((n : ℚ) - 1 / 2) * 2 ^ q ≤ num / den) (hhi : (num : ℚ) / den ≤ (n + 1 / 2) * 2 ^ q)
    (hodd : n % 2 = 1 →
      ((n : ℚ) - 1 / 2) * 2 ^ q < num / den ∧ (num : ℚ) / den < (n + 1 / 2) * 2 ^ q) :
    roundQuotient (num * Nat.pow 2 (-q).toNat) (den * Nat.pow 2 q.toNat) = n := by
  have hd : (0 : ℚ) < den := by exact_mod_cast hden
  have hq := zpow_eq_div 2 q
  have hA : (0 : ℚ) < 2 ^ q.toNat := by positivity
  have hB : (0 : ℚ) < 2 ^ (-q).toNat := by positivity
  rw [hq] at hlo hhi hodd
  rw [← mul_div_assoc, div_le_div_iff₀ hB hd] at hlo
  rw [← mul_div_assoc, div_le_div_iff₀ hd hB] at hhi
  rw [← mul_div_assoc, ← mul_div_assoc, div_lt_div_iff₀ hB hd, div_lt_div_iff₀ hd hB] at hodd
  have cast_le : ∀ a b : ℕ, (a : ℚ) ≤ b → a ≤ b := fun a b h => by exact_mod_cast h
  have cast_lt : ∀ a b : ℕ, (a : ℚ) < b → a < b := fun a b h => by exact_mod_cast h
  refine roundQuotient_eq (cast_le _ _ ?_) (cast_le _ _ ?_)
    (fun h => ⟨cast_lt _ _ ?_, cast_lt _ _ ?_⟩) (Nat.mul_pos hden (Nat.two_pow_pos _))
  · simp only [Nat.pow_eq]; push_cast; linarith
  · simp only [Nat.pow_eq]; push_cast; linarith
  · simp only [Nat.pow_eq]; push_cast; linarith [(hodd h).1]
  · simp only [Nat.pow_eq]; push_cast; linarith [(hodd h).2]

/-! ## The reals that round to a number -/

/-- The lower end of the reals that round to `m * 2 ^ e`, in quarters of the unit `2 ^ e`. The gap
below a power of two is half as wide, except at the least scale. -/
def lowEnd (m : ℕ) (e : ℤ) : ℕ :=
  if m = 2 ^ 52 ∧ e ≠ -1074 then 4 * m - 1 else 4 * m - 2

/-- The value rounds to `m * 2 ^ e`. -/
def RoundsTo (m : ℕ) (e : ℤ) (v : ℚ) : Prop :=
  lowEnd m e * 2 ^ (e - 2) ≤ v ∧ v ≤ (4 * m + 2) * 2 ^ (e - 2) ∧
    (m % 2 = 1 → lowEnd m e * 2 ^ (e - 2) < v ∧ v < (4 * m + 2) * 2 ^ (e - 2))

theorem lowEnd_bounds {m : ℕ} (hm : 0 < m) (e : ℤ) :
    (4 : ℚ) * m - 2 ≤ lowEnd m e ∧ (lowEnd m e : ℚ) ≤ 4 * m - 1 := by
  have h1 : ((4 * m - 1 : ℕ) : ℚ) = 4 * m - 1 := by
    rw [Nat.cast_sub (by omega)]; push_cast; ring
  have h2 : ((4 * m - 2 : ℕ) : ℚ) = 4 * m - 2 := by
    rw [Nat.cast_sub (by omega)]; push_cast; ring
  unfold lowEnd
  split
  · rw [h1]; constructor <;> linarith
  · rw [h2]; constructor <;> linarith

/-- What rounds to a number lies below the next binade. -/
theorem RoundsTo.lt_binade {m : ℕ} {e : ℤ} {v : ℚ} (h : RoundsTo m e v) (hmax : m < 2 ^ 53) :
    v < 2 ^ (e - 2 + (55 : ℕ)) := by
  have hmax' : (m : ℚ) ≤ 2 ^ 53 - 1 := by
    have : (m : ℚ) + 1 ≤ 2 ^ 53 := by exact_mod_cast hmax
    linarith
  rw [two_zpow_add_nat]
  calc v ≤ (4 * m + 2) * 2 ^ (e - 2) := h.2.1
    _ < 2 ^ 55 * 2 ^ (e - 2) := by
        apply mul_lt_mul_of_pos_right _ (two_zpow_pos _)
        linarith

/-- What rounds to a number that is not zero is at least half a unit. -/
theorem RoundsTo.le_of_pos {m : ℕ} {e : ℤ} {v : ℚ} (h : RoundsTo m e v) (hm : 0 < m) :
    2 ^ (e - 2) ≤ v := by
  have hlow := (lowEnd_bounds hm e).1
  have hm' : (1 : ℚ) ≤ m := by exact_mod_cast hm
  calc (2 : ℚ) ^ (e - 2) ≤ lowEnd m e * 2 ^ (e - 2) :=
        le_mul_of_one_le_left (two_zpow_pos _).le (by linarith)
    _ ≤ v := h.1

/-- A value in the binade of `m * 2 ^ e`, or at the least scale, that rounds to this number has its
magnitude. -/
private theorem roundQuotient_of_roundsTo {num den m : ℕ} {e : ℤ} (hden : 0 < den) (hm : 0 < m)
    (h : RoundsTo m e (num / den)) :
    roundQuotient (num * Nat.pow 2 (-e).toNat) (den * Nat.pow 2 e.toNat) = m := by
  obtain ⟨hlo, hhi, hodd⟩ := h
  have hu := two_zpow_pos (e - 2)
  have he : (2 : ℚ) ^ e = 4 * 2 ^ (e - 2) := by
    have := two_zpow_add_nat (e - 2) 2
    rw [show e - 2 + (2 : ℕ) = e by push_cast; omega] at this
    rw [this]; norm_num
  have hlow := (lowEnd_bounds hm e).1
  refine roundQuotient_scaled hden ?_ ?_ fun h => ⟨?_, ?_⟩ <;> rw [he]
  · nlinarith
  · nlinarith
  · nlinarith [(hodd h).1]
  · nlinarith [(hodd h).2]

/-- **Rounding to nearest.** A quotient that rounds to `m * 2 ^ e` has the magnitude of that
number. -/
theorem nearestMagnitude_eq {num den m : ℕ} {e : ℤ} (hnum : 0 < num) (hden : 0 < den)
    (he : -1074 ≤ e) (hm : 0 < m) (hmax : m < 2 ^ 53) (hnorm : 2 ^ 52 ≤ m ∨ e = -1074)
    (h : RoundsTo m e (num / den)) :
    nearestMagnitude num den = (e + 1074).toNat * 2 ^ 52 + m := by
  obtain ⟨hklo, hkhi⟩ := binaryExponent_bounds hnum hden
  have hu := two_zpow_pos (e - 2)
  have hpow : ∀ n : ℕ, (2 : ℚ) ^ (e - 2 + n) = 2 ^ n * 2 ^ (e - 2) := two_zpow_add_nat (e - 2)
  have hbelow := h.lt_binade hmax
  have hk : binaryExponent num den ≤ e + 52 := by
    by_contra hlt
    have := two_zpow_le (show e - 2 + (55 : ℕ) ≤ binaryExponent num den by push_cast; omega)
    exact absurd hbelow (not_lt.2 (this.trans hklo))
  by_cases hbin : (2 : ℚ) ^ (e - 2 + (54 : ℕ)) ≤ num / den ∨ e = -1074
  · -- The value is rounded in units of `2 ^ e`.
    have hq : max (binaryExponent num den - 52) (-1074) = e := by
      rcases hbin with hbin | rfl
      · have : e + 52 ≤ binaryExponent num den := by
          by_contra hlt
          have := two_zpow_le
            (show binaryExponent num den + 1 ≤ e - 2 + (54 : ℕ) by push_cast; omega)
          exact absurd hkhi (not_lt.2 (this.trans hbin))
        omega
      · omega
    unfold nearestMagnitude
    dsimp only
    rw [hq, roundQuotient_of_roundsTo hden hm h]
    rfl
  · -- The value lies in the quarter unit below a power of two, in the binade below.
    rw [not_or, not_le] at hbin
    obtain ⟨hbin, hne⟩ := hbin
    have hm52 : m = 2 ^ 52 := by
      by_contra hm52
      have hge : (2 : ℚ) ^ 52 + 1 ≤ m := by
        have : 2 ^ 52 + 1 ≤ m := by omega
        exact_mod_cast this
      have hlow : (lowEnd m e : ℚ) < 2 ^ 54 := by
        rw [hpow] at hbin
        exact lt_of_mul_lt_mul_right (lt_of_le_of_lt h.1 hbin) hu.le
      have := (lowEnd_bounds hm e).1
      linarith
    have hlow : (lowEnd m e : ℚ) = 2 ^ 54 - 1 := by
      rw [lowEnd, if_pos ⟨hm52, hne⟩, hm52]
      norm_num
    have hlo : ((2 : ℚ) ^ 54 - 1) * 2 ^ (e - 2) ≤ num / den := hlow ▸ h.1
    have hq : max (binaryExponent num den - 52) (-1074) = e - 1 := by
      have h1 : e + 51 ≤ binaryExponent num den := by
        by_contra hlt
        have := two_zpow_le
          (show binaryExponent num den + 1 ≤ e - 2 + (53 : ℕ) by push_cast; omega)
        rw [hpow] at this
        nlinarith
      have h2 : binaryExponent num den ≤ e + 51 := by
        by_contra hlt
        have := two_zpow_le
          (show e - 2 + (54 : ℕ) ≤ binaryExponent num den by push_cast; omega)
        exact absurd hbin (not_lt.2 (this.trans hklo))
      omega
    have he1 : (2 : ℚ) ^ (e - 1) = 2 * 2 ^ (e - 2) := by
      have := hpow 1
      rw [show e - 2 + (1 : ℕ) = e - 1 by push_cast; omega] at this
      rw [this]; norm_num
    have hround : roundQuotient (num * Nat.pow 2 (-(e - 1)).toNat)
        (den * Nat.pow 2 (e - 1).toNat) = 2 ^ 53 := by
      refine roundQuotient_scaled hden ?_ ?_ fun hodd => absurd hodd (by decide)
      · rw [he1]
        push_cast
        nlinarith
      · rw [he1]
        rw [hpow] at hbin
        push_cast
        nlinarith
    unfold nearestMagnitude
    dsimp only
    rw [hq, hround, hm52]
    simp only [Nat.pow_eq]
    omega

end HeaderReflection.Number
