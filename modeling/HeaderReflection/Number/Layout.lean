import HeaderReflection.Number.Shortest

/-!
# Number texts

Two ways to write the shortest digits of a number: plain, which never has an exponent, and the way
of JSON documents, which keeps a fraction on whole numbers and turns to an exponent outside a
range of magnitudes.
-/

namespace HeaderReflection

namespace Decimal

/-- Positional notation. A whole number has no point, or the ending `whole`. -/
def positional (d : Decimal) (whole : List Char) : List Char :=
  let ds := d.digitChars
  if d.digits = 0 then '0' :: whole
  else if d.point ≤ 0 then '0' :: '.' :: (List.replicate (-d.point).toNat '0' ++ ds)
  else if (ds.length : Int) ≤ d.point then
    ds ++ List.replicate (d.point.toNat - ds.length) '0' ++ whole
  else ds.take d.point.toNat ++ '.' :: ds.drop d.point.toNat

/-- One digit, the others behind a point, and the exponent with its sign. -/
def scientific (d : Decimal) : List Char :=
  let ds := d.digitChars
  let e := d.point - 1
  let mantissa := match ds with
    | [] => []
    | [c] => [c]
    | c :: rest => c :: '.' :: rest
  mantissa ++ 'e' :: (if e < 0 then '-' else '+') :: (toString e.natAbs).toList

end Decimal

namespace Number

/-- A number's sign before the text of its magnitude. -/
def signed (x : Number) (cs : List Char) : List Char :=
  if x.isNegative then '-' :: cs else cs

/-- The plain text of a number: shortest digits that read back, in positional notation. -/
def plainChars (x : Number) : List Char :=
  if x.isNaN then ['N', 'a', 'N']
  else if x.isFinite then x.signed (x.shortest.positional [])
  else x.signed ['i', 'n', 'f']

/-- The plain text of a number as a string. -/
def plain (x : Number) : String :=
  String.ofList x.plainChars

/-- The text of a number in a JSON document, in positional notation from `1e-5` up to `1e16`. What
is not finite is written as null. -/
def json (x : Number) : String :=
  if x.isFinite then
    let d := x.shortest
    String.ofList (x.signed
      (if d.digits = 0 || (-5 < d.point && d.point ≤ 16) then d.positional ['.', '0']
        else d.scientific))
  else "null"

end Number

end HeaderReflection
