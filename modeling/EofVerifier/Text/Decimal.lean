/-! # Decimal numerals

Numerals of ASCII digits, of any length and with any number of leading zeros.
`Decimal.read?` takes digits only; `readUnsigned?` allows one plus sign and refuses values
above a bound; `readSigned?` allows either sign.  A numeral is written without sign or
leading zeros, and reading it back gives the number (`read?_digits`). -/

namespace EofVerifier.Text.Decimal

/-- Reads a nonempty run of ASCII digits. -/
def read? (cs : List Char) : Option Nat :=
  if cs ≠ [] ∧ cs.all Char.isDigit then some (Nat.ofDigitChars 10 cs 0) else none

/-- Reads digits after at most one plus sign, as a number of at most `bound`. -/
def readUnsigned? (bound : Nat) (cs : List Char) : Option Nat :=
  let digits := match cs with
    | '+' :: rest => rest
    | _ => cs
  (read? digits).filter (· ≤ bound)

/-- Reads digits after at most one sign. -/
def readSigned? : List Char → Option Int
  | '+' :: rest => (read? rest).map Int.ofNat
  | '-' :: rest => (read? rest).map fun n => -Int.ofNat n
  | cs => (read? cs).map Int.ofNat

/-- The digits of `n`, without leading zeros. -/
def digits (n : Nat) : List Char :=
  Nat.toDigits 10 n

theorem read?_digits (n : Nat) : read? (digits n) = some n := by
  have hne : Nat.toDigits 10 n ≠ [] := by
    rw [Nat.toDigits_eq_if (by decide)]
    split <;> simp
  have hdigit : (Nat.toDigits 10 n).all Char.isDigit = true :=
    List.all_eq_true.2 fun c h => Nat.isDigit_of_mem_toDigits (by decide) (by decide) h
  simp [read?, digits, hne, hdigit, Nat.ofDigitChars_toDigits]

end EofVerifier.Text.Decimal
