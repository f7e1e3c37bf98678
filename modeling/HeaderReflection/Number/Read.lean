import HeaderReflection.Number.Basic
import HeaderReflection.Number.Shortest
import HeaderReflection.Text.CharClass

/-!
# Reading numbers

A literal is an optional sign, digits with at most one point among them, and an optional exponent.
Its value is the finite number nearest to it, of two equally near the one with the even
significand; a literal beyond the finite numbers has none.
-/

namespace HeaderReflection

open Text (isAsciiDigit)

namespace Number

/-- The quotient rounded to the nearest natural number, a half to the even one. -/
def roundQuotient (num den : Nat) : Nat :=
  let q := num / den
  let r := num % den
  if den < 2 * r || (2 * r = den && q % 2 = 1) then q + 1 else q

/-- The greatest power of two not above the quotient of two positive numbers. -/
def binaryExponent (num den : Nat) : Int :=
  let k : Int := (num.log2 : Int) - den.log2
  if den * Nat.pow 2 k.toNat ≤ num * Nat.pow 2 (-k).toNat then k else k - 1

/-- The magnitude nearest to a positive quotient. A significand that rounds up to the next power
of two carries into the exponent, which is the right result. -/
def nearestMagnitude (num den : Nat) : Nat :=
  let q := max (binaryExponent num den - 52) (-1074)
  (q + 1074).toNat * Nat.pow 2 52
    + roundQuotient (num * Nat.pow 2 (-q).toNat) (den * Nat.pow 2 q.toNat)

/-- The finite number nearest to a decimal. -/
def ofDecimal? (negative : Bool) (d : Decimal) : Option Number :=
  if d.digits = 0 || d.point < -400 then some (ofMagnitude negative 0)
  else if 400 < d.point then none
  else
    let num := d.digits * Nat.pow 10 d.exponent.toNat
    let den := Nat.pow 10 (-d.exponent).toNat
    let m := nearestMagnitude num den
    if m < infiniteMagnitude then some (ofMagnitude negative m) else none

end Number

/-- The value of a run of digits. -/
def digitsValue (cs : List Char) : Nat :=
  cs.foldl (fun n c => 10 * n + (c.toNat - 48)) 0

/-- A leading sign, and what follows it. -/
def readSign : List Char → Bool × List Char
  | '-' :: rest => (true, rest)
  | '+' :: rest => (false, rest)
  | rest => (false, rest)

/-- The exponent that ends a literal: nothing at all, or a letter, an optional sign and digits. -/
def readExponent? : List Char → Option Int
  | [] => some 0
  | c :: rest =>
    if c = 'e' || c = 'E' then
      let (negative, ds) := readSign rest
      if ds ≠ [] && ds.all isAsciiDigit then
        some (if negative then -(digitsValue ds : Int) else digitsValue ds)
      else none
    else none

/-- The decimal that an unsigned literal denotes. -/
def readDecimal? (cs : List Char) : Option Decimal :=
  let whole := cs.takeWhile isAsciiDigit
  let rest := cs.dropWhile isAsciiDigit
  let (fraction, tail) := match rest with
    | '.' :: r => (r.takeWhile isAsciiDigit, r.dropWhile isAsciiDigit)
    | r => ([], r)
  if whole = [] && fraction = [] then none
  else (readExponent? tail).map fun e => ⟨digitsValue (whole ++ fraction), e - fraction.length⟩

/-- The finite number that a literal denotes. -/
def Number.read? (cs : List Char) : Option Number :=
  let (negative, rest) := readSign cs
  (readDecimal? rest).bind (Number.ofDecimal? negative)

end HeaderReflection
