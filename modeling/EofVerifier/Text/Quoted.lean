import EofVerifier.Text.Printable

/-! # Quoted text

A quoted text stands between double quotes.  The quote, the backslash and the four control
characters with a short name are written as a backslash and one character; any other
character that does not stand for itself is written by its code point, as in `\u{7f}`. -/

namespace EofVerifier.Text.Quoted

/-- The quoted form of one character. -/
def escape (c : Char) : List Char :=
  match c with
  | '\x00' => ['\\', '0']
  | '\t' => ['\\', 't']
  | '\n' => ['\\', 'n']
  | '\r' => ['\\', 'r']
  | '"' => ['\\', '"']
  | '\\' => ['\\', '\\']
  | c =>
    if isPrintable c then [c]
    else '\\' :: 'u' :: '\x7b' :: (Nat.toDigits 16 c.toNat ++ ['\x7d'])

/-- The quoted form of a text. -/
def encode (s : String) : String :=
  String.ofList ('"' :: (s.toList.flatMap escape ++ ['"']))

example : encode "a\t'b'\\" = "\"a\\t'b'\\\\\"" := by decide

end EofVerifier.Text.Quoted
