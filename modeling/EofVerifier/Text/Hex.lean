/-! # Hexadecimal text

Byte strings are written with two lower-case digits a byte (`Hex.encode`) and read with
digits of either case.  `Hex.payload?` reads at most two digits for each of `size` bytes and
fills up with zeros on the left, so the value of the digits is kept and the number of bytes
is fixed. -/

namespace EofVerifier.Text.Hex

/-- The value of a hexadecimal digit of either case. -/
def digit? (c : Char) : Option Nat :=
  if '0' ≤ c ∧ c ≤ '9' then some (c.toNat - '0'.toNat)
  else if 'a' ≤ c ∧ c ≤ 'f' then some (c.toNat - 'a'.toNat + 10)
  else if 'A' ≤ c ∧ c ≤ 'F' then some (c.toNat - 'A'.toNat + 10)
  else none

/-- Reads two digits for each byte. -/
def decode? : List Char → Option (List UInt8)
  | [] => some []
  | [_] => none
  | hi :: lo :: rest => do
    let h ← digit? hi
    let l ← digit? lo
    let bytes ← decode? rest
    return UInt8.ofNat (16 * h + l) :: bytes

/-- Reads `size` bytes from one to `2 * size` digits, filled up with zeros on the left. -/
def payload? (size : Nat) (digits : List Char) : Option (List UInt8) :=
  if digits = [] ∨ 2 * size < digits.length then none
  else decode? (List.leftpad (2 * size) '0' digits)

/-- The two lower-case digits of a byte. -/
def encodeByte (b : UInt8) : List Char :=
  [Nat.digitChar (b.toNat / 16), Nat.digitChar (b.toNat % 16)]

/-- Writes two lower-case digits for each byte. -/
def encode (bytes : List UInt8) : List Char :=
  bytes.flatMap encodeByte

/-- The digits of `n` in base sixteen, filled up with zeros on the left to `width`. -/
def padded (width n : Nat) : List Char :=
  List.leftpad width '0' (Nat.toDigits 16 n)

end EofVerifier.Text.Hex
