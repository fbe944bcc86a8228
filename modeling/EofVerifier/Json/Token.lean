import EofVerifier.Json.Literal
import EofVerifier.Json.Numeral

/-! # Tokens of JSON text

Text is first cut into tokens, with only spaces, tabs, line feeds and carriage returns
between them.  A number is the longest run of characters that numbers are made of, and a word
the longest run of lower-case letters.  Since no two numbers or words may stand side by side
in a JSON text, this refuses nothing that is one. -/

namespace EofVerifier.Json

/-- A token of JSON text. -/
inductive Token where
  | openObject
  | closeObject
  | openArray
  | closeArray
  | colon
  | comma
  | null
  | bool (b : Bool)
  | number (n : Numeral)
  /-- A string literal, with the text that it denotes if it denotes one. -/
  | string (text : Option String)
deriving DecidableEq, Repr

namespace Token

/-- Tells whether `c` may stand between tokens. -/
def isSpace (c : Char) : Bool :=
  c = ' ' ∨ c = '\t' ∨ c = '\n' ∨ c = '\r'

/-- Tells whether `c` occurs in numbers. -/
def isNumberChar (c : Char) : Bool :=
  c.isDigit ∨ c = '-' ∨ c = '+' ∨ c = '.' ∨ c = 'e' ∨ c = 'E'

/-- The token that is a single character. -/
def ofPunctuation? : Char → Option Token
  | '\x7b' => some .openObject
  | '\x7d' => some .closeObject
  | '[' => some .openArray
  | ']' => some .closeArray
  | ':' => some .colon
  | ',' => some .comma
  | _ => none

/-- The token that is a word. -/
def ofWord? (w : List Char) : Option Token :=
  if w = ['n', 'u', 'l', 'l'] then some .null
  else if w = ['t', 'r', 'u', 'e'] then some (.bool true)
  else if w = ['f', 'a', 'l', 's', 'e'] then some (.bool false)
  else none

/-- Reads the token that starts with `c`, and gives the text after it. -/
def read? (c : Char) (cs : List Char) : Option (Token × List Char) :=
  match ofPunctuation? c with
  | some t => some (t, cs)
  | none =>
    if c = '"' then (Literal.read? cs).map fun (text, rest) => (.string text, rest)
    else if c = '-' ∨ c.isDigit then
      (Numeral.ofLexeme? (c :: cs.takeWhile isNumberChar)).map fun n =>
        (.number n, cs.dropWhile isNumberChar)
    else
      (ofWord? (c :: cs.takeWhile Char.isLower)).map fun t => (t, cs.dropWhile Char.isLower)

theorem length_le_of_read? {c : Char} {cs rest : List Char} {t : Token}
    (h : read? c cs = some (t, rest)) : rest.length ≤ cs.length := by
  have hdrop (p : Char → Bool) : (cs.dropWhile p).length ≤ cs.length :=
    (List.dropWhile_sublist p).length_le
  simp only [read?] at h
  split at h
  · simp_all
  · split at h
    · simp only [Option.map_eq_some_iff, Prod.mk.injEq, Prod.exists] at h
      obtain ⟨_, _, h, _, rfl⟩ := h
      exact Nat.le_of_lt (Literal.length_lt_of_read? h)
    · split at h <;>
      · simp only [Option.map_eq_some_iff, Prod.mk.injEq] at h
        obtain ⟨_, _, _, rfl⟩ := h
        exact hdrop _

/-- The tokens of a text, added in reverse to those read before. -/
def readAll (before : List Token) : List Char → Option (List Token)
  | [] => some before.reverse
  | c :: cs =>
    if isSpace c then readAll before cs
    else match _h : read? c cs with
      | some (t, rest) => readAll (t :: before) rest
      | none => none
termination_by cs => cs.length
decreasing_by
  · simp
  · have := length_le_of_read? _h
    simp; omega

/-- The tokens of a text. -/
def ofText? (text : String) : Option (List Token) :=
  readAll [] text.toList

/-- The token as it is written. -/
def lexeme : Token → List Char
  | openObject => ['\x7b']
  | closeObject => ['\x7d']
  | openArray => ['[']
  | closeArray => [']']
  | colon => [':']
  | comma => [',']
  | null => ['n', 'u', 'l', 'l']
  | bool true => ['t', 'r', 'u', 'e']
  | bool false => ['f', 'a', 'l', 's', 'e']
  | number n => n.lexeme
  | string text => Literal.lexeme text

end Token

end EofVerifier.Json
