/-!
# Numbers

The numbers of attributes are binary floating-point numbers of 64 bits, kept as their bits: a sign,
eleven bits of exponent and 52 bits of fraction. All arithmetic on them is exact arithmetic on
natural numbers.

* `Number.same`: equality of values: the two zeros are equal, and what is not a number is not even
  equal to itself.
-/

namespace HeaderReflection

/-- A binary floating-point number of 64 bits. -/
structure Number where
  bits : UInt64
  deriving DecidableEq, Repr, Inhabited

namespace Number

/-- The bits below the sign. They count up from zero in the order of the magnitudes. -/
def magnitude (x : Number) : Nat :=
  x.bits.toNat % Nat.pow 2 63

/-- The sign bit. -/
def isNegative (x : Number) : Bool :=
  Nat.pow 2 63 ≤ x.bits.toNat

/-- The magnitude of infinity, the first that is no finite value. -/
def infiniteMagnitude : Nat := 2047 * Nat.pow 2 52

def isFinite (x : Number) : Bool :=
  x.magnitude < infiniteMagnitude

def isNaN (x : Number) : Bool :=
  infiniteMagnitude < x.magnitude

/-- The significand of a finite number: its fraction bits, with the leading bit of a normal one. -/
def significand (x : Number) : Nat :=
  if x.magnitude < Nat.pow 2 52 then x.magnitude else Nat.pow 2 52 + x.magnitude % Nat.pow 2 52

/-- The exponent of two that a finite number's significand is scaled by. -/
def scale (x : Number) : Int :=
  if x.magnitude < Nat.pow 2 52 then -1074 else (x.magnitude / Nat.pow 2 52 : Nat) - 1075

/-- A sign and a magnitude as one integer, in the order of the values. -/
def key (x : Number) : Int :=
  if x.isNegative then -(x.magnitude : Int) else x.magnitude

/-- A number of a sign and a magnitude below `2 ^ 63`. -/
def ofMagnitude (negative : Bool) (magnitude : Nat) : Number :=
  ⟨UInt64.ofNat (if negative then Nat.pow 2 63 + magnitude else magnitude)⟩

/-- The number one. -/
def one : Number := ⟨0x3ff0000000000000⟩

/-- Equality of values. -/
def same (x y : Number) : Bool :=
  !x.isNaN && !y.isNaN && x.key == y.key

/-- The order of values, false where one side is no number. -/
def exceeds (x y : Number) : Bool :=
  !x.isNaN && !y.isNaN && y.key < x.key

end Number

end HeaderReflection
