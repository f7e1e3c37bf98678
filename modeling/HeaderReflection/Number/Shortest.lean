import HeaderReflection.Number.Basic

/-!
# Shortest digits

The shortest decimal that reads back as a given finite number. The reals that round to the number
form an interval, with its ends where the significand is even. The grids of 1, 2, ... 17 decimal
digits are tried in turn, and on each the two points next to the number: the first grid with a
point in the interval gives the digits, of two points the nearer, and of two equally near the
greater.
-/

namespace HeaderReflection

/-- The number of decimal digits of a natural number, one for zero. -/
def digitCount (n : Nat) : Nat :=
  (Nat.toDigits 10 n).length

/-- The greatest power of ten not above the quotient of two positive numbers. -/
def decimalExponent (num den : Nat) : Int :=
  if den ≤ num then (digitCount (num / den) : Int) - 1
  else
    let k := digitCount den - digitCount num
    if den ≤ num * Nat.pow 10 (k - 1) then -((k - 1 : Nat) : Int)
    else if den ≤ num * Nat.pow 10 k then -(k : Int)
    else -((k + 1 : Nat) : Int)

/-- A decimal: the value is `digits * 10 ^ exponent`. -/
structure Decimal where
  digits : Nat
  exponent : Int
  deriving DecidableEq, Repr

namespace Decimal

/-- A decimal without trailing zeros in its digits, by at most `fuel` steps. -/
def stripZeros : Nat → Decimal → Decimal
  | 0, d => d
  | fuel + 1, d =>
    if d.digits ≠ 0 ∧ d.digits % 10 = 0 then stripZeros fuel ⟨d.digits / 10, d.exponent + 1⟩ else d

/-- The digits in text. -/
def digitChars (d : Decimal) : List Char :=
  Nat.toDigits 10 d.digits

/-- The place of the point, counted from the left of the first digit. -/
def point (d : Decimal) : Int :=
  (digitCount d.digits : Int) + d.exponent

end Decimal

namespace Number

/-- The grid point `d` lies in an interval. The interval's ends are given in units of `span`, the
grid point in units of `step`. -/
def gridInside (low high : Nat) (closed : Bool) (step span d : Nat) : Bool :=
  if closed then low * span ≤ d * step && d * step ≤ high * span
  else low * span < d * step && d * step < high * span

/-- The point of a decimal grid that stands for an interval of reals, if there is one. The interval
is given by its ends and the value inside it in units of `num / den`. -/
def gridPoint (low value high : Nat) (closed : Bool) (num den : Nat) (grid : Int) :
    Option Decimal :=
  -- A grid point `d * 10 ^ grid` meets an end `x * num / den` as `d * step` meets `x * span`.
  let step := den * Nat.pow 10 grid.toNat
  let span := num * Nat.pow 10 (-grid).toNat
  let inside := gridInside low high closed step span
  let below := value * span / step
  let rest := value * span % step
  if inside below && (!inside (below + 1) || 2 * rest < step) then some ⟨below, grid⟩
  else if inside (below + 1) then some ⟨below + 1, grid⟩
  else none

/-- The shortest decimal that reads back as the magnitude of a finite number. -/
def shortest (x : Number) : Decimal :=
  let m := x.significand
  if m = 0 then ⟨0, 0⟩
  else
    -- Quarter units, since the interval below a power of two is half as wide.
    let unit := x.scale - 2
    let num := Nat.pow 2 unit.toNat
    let den := Nat.pow 2 (-unit).toNat
    let narrow := m = Nat.pow 2 52 && x.magnitude ≠ Nat.pow 2 52
    let low := if narrow then 4 * m - 1 else 4 * m - 2
    let top := decimalExponent (4 * m * num) den
    let grids := (List.range 17).map fun n : Nat => top - (n : Int)
    match grids.findSome? (gridPoint low (4 * m) (4 * m + 2) (m % 2 = 0) num den) with
    | some d => d.stripZeros 17
    | none => ⟨4 * m * num / den, 0⟩

end Number

end HeaderReflection
