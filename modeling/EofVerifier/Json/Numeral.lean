import EofVerifier.Text.Decimal

/-! # Numbers in JSON text

A `Numeral` is a number as it is written: a sign, digits, and possibly a fraction and an
exponent.  Where a program asks for an integer, only a numeral without sign, fraction and
exponent will do (`Numeral.nat?`).  Where any value is kept, a numeral must not be too large
for a double (`Numeral.inDoubleRange`).

The range is that of the usual fast conversion.  Digits are gathered into a significand of
64 bits; once a digit no longer fits, the remaining digits of the integer part only raise the
exponent, and those of the fraction are ignored.  The significand and the power of ten are
rounded to doubles on their own, and their product is rounded once more. -/

namespace EofVerifier.Json

/-- A number as it is written. -/
structure Numeral where
  negative : Bool := false
  integer : List Char
  /-- The digits after the point; empty if there is no point. -/
  fraction : List Char := []
  exponentNegative : Bool := false
  /-- The digits of the exponent; empty if there is none. -/
  exponent : List Char := []
deriving DecidableEq, Repr

namespace Numeral

/-- The numeral of a natural number. -/
def ofNat (n : Nat) : Numeral :=
  { integer := Text.Decimal.digits n }

/-- The value of a numeral without sign, fraction and exponent. -/
def nat? (n : Numeral) : Option Nat :=
  if n.negative = false ∧ n.fraction = [] ∧ n.exponent = [] then
    some (Nat.ofDigitChars 10 n.integer 0)
  else none

/-- A nonempty run of digits at the front, and what follows it. -/
def leadingDigits? (cs : List Char) : Option (List Char × List Char) :=
  let digits := cs.takeWhile Char.isDigit
  if digits = [] then none else some (digits, cs.dropWhile Char.isDigit)

/-- An integer part at the front: digits of which the first is no zero, or one zero. -/
def leadingInteger? (cs : List Char) : Option (List Char × List Char) :=
  (leadingDigits? cs).filter fun r => r.1.head? ≠ some '0' ∨ r.1 = ['0']

/-- A fraction at the front, empty if there is no point. -/
def leadingFraction? : List Char → Option (List Char × List Char)
  | '.' :: rest => leadingDigits? rest
  | cs => some ([], cs)

/-- A sign at the front, which is a minus sign if the answer is `true`. -/
def leadingSign : List Char → Bool × List Char
  | '-' :: rest => (true, rest)
  | '+' :: rest => (false, rest)
  | cs => (false, cs)

/-- The sign and digits of an exponent that makes up the rest of the text. -/
def exponent? : List Char → Option (Bool × List Char)
  | [] => some (false, [])
  | 'e' :: rest | 'E' :: rest =>
    match leadingDigits? (leadingSign rest).2 with
    | some (digits, []) => some ((leadingSign rest).1, digits)
    | _ => none
  | _ => none

/-- Reads a text that is a number from its first to its last character. -/
def ofLexeme? (cs : List Char) : Option Numeral := do
  let negative := cs.head? = some '-'
  let (integer, cs) ← leadingInteger? (if negative then cs.tail else cs)
  let (fraction, cs) ← leadingFraction? cs
  let (exponentNegative, exponent) ← exponent? cs
  return { negative, integer, fraction, exponentNegative, exponent }

/-- The number as it is written. -/
def lexeme (n : Numeral) : List Char :=
  (if n.negative then ['-'] else []) ++ n.integer
    ++ (if n.fraction = [] then [] else '.' :: n.fraction)
    ++ (if n.exponent = [] then []
        else 'e' :: ((if n.exponentNegative then ['-'] else []) ++ n.exponent))

/-! ### The range of doubles -/

/-- Rounds to 53 binary digits; a number half way goes to the even neighbour. -/
def roundTo53 (n : Nat) : Nat :=
  let unit := Nat.pow 2 (n.log2 - 52)
  let q := n / unit
  let r := n % unit
  if unit < 2 * r ∨ unit = 2 * r ∧ q % 2 = 1 then (q + 1) * unit else q * unit

/-- Appends digits to a significand as long as it fits into 64 bits, and gives the digits that
are left. -/
def gather (significand : Nat) : List Char → Nat × List Char
  | [] => (significand, [])
  | d :: ds =>
    let next := 10 * significand + (d.toNat - '0'.toNat)
    if UInt64.size ≤ next then (significand, d :: ds) else gather next ds

/-- The significand and the power of ten that a numeral is converted from. -/
def scientific (n : Numeral) : Nat × Int :=
  let (whole, dropped) := gather 0 n.integer
  let (significand, ignored) := gather whole n.fraction
  let shift : Int := dropped.length - (n.fraction.length - ignored.length : Nat)
  let exponent : Int := Nat.ofDigitChars 10 n.exponent 0
  (significand, if n.exponentNegative then shift - exponent else shift + exponent)

/-- The least number that is rounded beyond the largest double. -/
def overflowBound : Nat := Nat.pow 2 1024 - Nat.pow 2 970

/-- Tells whether the conversion to a double stays finite. -/
def inDoubleRange (n : Numeral) : Bool :=
  let (significand, exponent) := n.scientific
  significand = 0 ∨ exponent < 0 ∨
    exponent ≤ 308 ∧ roundTo53 significand * roundTo53 (Nat.pow 10 exponent.toNat) < overflowBound

end Numeral

end EofVerifier.Json
