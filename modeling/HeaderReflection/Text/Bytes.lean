/-!
# Bytes as text

The text of bytes that need not be UTF-8: each longest beginning of a character that breaks off
becomes one replacement character.

* `length_stepLossy_le`: each step uses up at least one byte.
-/

namespace HeaderReflection.Text

/-- What stands for bytes that are no text. -/
def replacement : Char := '\uFFFD'

/-- Bytes that continue a character, in the range that its first byte leaves for the second. -/
def isContinuation (low high b : UInt8) : Bool :=
  low ≤ b && b ≤ high

/-- What the first byte of a longer character fixes: the bytes that follow it, the bits that it
gives, and the range of the second byte. -/
def leadByte (b : UInt8) : Option (Nat × Nat × UInt8 × UInt8) :=
  if 0xc2 ≤ b && b ≤ 0xdf then some (1, b.toNat - 0xc0, 0x80, 0xbf)
  else if b = 0xe0 then some (2, 0, 0xa0, 0xbf)
  else if b = 0xed then some (2, 0x0d, 0x80, 0x9f)
  else if 0xe1 ≤ b && b ≤ 0xef then some (2, b.toNat - 0xe0, 0x80, 0xbf)
  else if b = 0xf0 then some (3, 0, 0x90, 0xbf)
  else if 0xf1 ≤ b && b ≤ 0xf3 then some (3, b.toNat - 0xf0, 0x80, 0xbf)
  else if b = 0xf4 then some (3, 4, 0x80, 0x8f)
  else none

/-- Reads up to `n` continuation bytes, the first one in the given range. A character that breaks
off leaves the byte that does not fit. -/
def continueChar : Nat → Nat → UInt8 → UInt8 → List UInt8 → Char × List UInt8
  | 0, value, _, _, bytes => (Char.ofNat value, bytes)
  | _ + 1, _, _, _, [] => (replacement, [])
  | n + 1, value, low, high, b :: rest =>
    if isContinuation low high b then
      continueChar n (value * 64 + (b.toNat - 0x80)) 0x80 0xbf rest
    else (replacement, b :: rest)

/-- The first character of a byte sequence, given its first byte and the rest. -/
def stepLossy (b : UInt8) (rest : List UInt8) : Char × List UInt8 :=
  if b < 0x80 then (Char.ofNat b.toNat, rest)
  else match leadByte b with
    | none => (replacement, rest)
    | some (n, value, low, high) => continueChar n value low high rest

theorem length_continueChar_le (n value : Nat) (low high : UInt8) (bytes : List UInt8) :
    (continueChar n value low high bytes).2.length ≤ bytes.length := by
  fun_induction continueChar n value low high bytes with
  | case1 => exact Nat.le_refl _
  | case2 => exact Nat.le_refl _
  | case3 n value low high b rest hb ih => exact Nat.le_succ_of_le ih
  | case4 => exact Nat.le_refl _

theorem length_stepLossy_le (b : UInt8) (rest : List UInt8) :
    (stepLossy b rest).2.length ≤ rest.length := by
  unfold stepLossy
  split
  · exact Nat.le_refl _
  · split
    · exact Nat.le_refl _
    · exact length_continueChar_le ..

/-- The text of a byte sequence. -/
def decodeLossyList : List UInt8 → List Char
  | [] => []
  | b :: rest =>
    let step := stepLossy b rest
    step.1 :: decodeLossyList step.2
termination_by bytes => bytes.length
decreasing_by exact Nat.lt_succ_of_le (length_stepLossy_le b rest)

/-- The text of bytes that need not be UTF-8. -/
def decodeLossy (bytes : ByteArray) : String :=
  String.ofList (decodeLossyList bytes.toList)

/-- The text of a name that is kept byte by byte, as the characters with these numbers. -/
def decodeBytes (name : String) : String :=
  String.ofList (decodeLossyList (name.toList.map fun c => UInt8.ofNat c.toNat))

end HeaderReflection.Text
