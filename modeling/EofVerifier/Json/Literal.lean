import EofVerifier.Text.Hex

/-! # Strings in JSON text

The body of a string literal is read in two steps.  `readUnits` goes up to the closing quote
and replaces the escapes; since `\u` escapes name 16-bit units, the result is a list of
numbers in which surrogates may occur.  `joinUnits` puts each pair of surrogates together.  A
surrogate without its partner makes a literal that denotes no text, although its syntax is
right: such a literal may stand where a value is skipped, and nowhere else. -/

namespace EofVerifier.Json.Literal

/-- The number that four hexadecimal digits write. -/
def hex4? (a b c d : Char) : Option Nat := do
  let a ← Text.Hex.digit? a
  let b ← Text.Hex.digit? b
  let c ← Text.Hex.digit? c
  let d ← Text.Hex.digit? d
  return ((a * 16 + b) * 16 + c) * 16 + d

/-- The character that a backslash and the given character stand for. -/
def shortEscape? : Char → Option Char
  | '"' => some '"'
  | '\\' => some '\\'
  | '/' => some '/'
  | 'b' => some '\x08'
  | 'f' => some '\x0c'
  | 'n' => some '\n'
  | 'r' => some '\r'
  | 't' => some '\t'
  | _ => none

/-- Reads up to the closing quote.  Gives the units of the body, added in reverse to those read
before, and the text after the quote. -/
def readUnits (before : List Nat) : List Char → Option (List Nat × List Char)
  | [] => none
  | '"' :: rest => some (before, rest)
  | '\\' :: 'u' :: a :: b :: c :: d :: rest =>
    match hex4? a b c d with
    | some u => readUnits (u :: before) rest
    | none => none
  | '\\' :: e :: rest =>
    match shortEscape? e with
    | some c => readUnits (c.toNat :: before) rest
    | none => none
  | c :: rest => if c.toNat < 0x20 then none else readUnits (c.toNat :: before) rest

theorem length_lt_of_readUnits {before units : List Nat} {cs rest : List Char}
    (h : readUnits before cs = some (units, rest)) : rest.length < cs.length := by
  fun_induction readUnits before cs generalizing units rest <;> simp_all <;> grind

/-- A unit that must be followed by a low surrogate. -/
def isHighSurrogate (u : Nat) : Bool := 0xD800 ≤ u ∧ u ≤ 0xDBFF

/-- A unit that must follow a high surrogate. -/
def isLowSurrogate (u : Nat) : Bool := 0xDC00 ≤ u ∧ u ≤ 0xDFFF

/-- The code point that two surrogates write together. -/
def pairValue (high low : Nat) : Nat := 0x10000 + (high - 0xD800) * 0x400 + (low - 0xDC00)

/-- Puts pairs of surrogates together, where `units` come last to first and `after` is the text
that follows them.  Fails on a surrogate without its partner. -/
def joinUnits (after : List Char) : List Nat → Option (List Char)
  | [] => some after
  | low :: units =>
    if isLowSurrogate low then
      match units with
      | high :: units =>
        if isHighSurrogate high then joinUnits (Char.ofNat (pairValue high low) :: after) units
        else none
      | [] => none
    else if isHighSurrogate low then none
    else joinUnits (Char.ofNat low :: after) units

/-- Reads the rest of a literal after its opening quote.  Gives the text that it denotes, if it
denotes one, and what follows the closing quote. -/
def read? (cs : List Char) : Option (Option String × List Char) :=
  (readUnits [] cs).map fun (units, rest) => ((joinUnits [] units).map String.ofList, rest)

theorem length_lt_of_read? {t : Option String} {cs rest : List Char}
    (h : read? cs = some (t, rest)) : rest.length < cs.length := by
  simp only [read?, Option.map_eq_some_iff, Prod.mk.injEq, Prod.exists] at h
  obtain ⟨_, _, h, _, rfl⟩ := h
  exact length_lt_of_readUnits h

/-- How a character is written inside a literal. -/
def escape (c : Char) : List Char :=
  match c with
  | '"' => ['\\', '"']
  | '\\' => ['\\', '\\']
  | '\x08' => ['\\', 'b']
  | '\x0c' => ['\\', 'f']
  | '\n' => ['\\', 'n']
  | '\r' => ['\\', 'r']
  | '\t' => ['\\', 't']
  | c => if c.toNat < 0x20 then '\\' :: 'u' :: Text.Hex.padded 4 c.toNat else [c]

/-- Writes a literal; a literal that denotes no text is written as a lone surrogate. -/
def lexeme : Option String → List Char
  | some s => '"' :: (s.toList.flatMap escape ++ ['"'])
  | none => ['"', '\\', 'u', 'd', '8', '0', '0', '"']

end EofVerifier.Json.Literal
