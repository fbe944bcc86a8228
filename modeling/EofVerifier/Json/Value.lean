import EofVerifier.Json.Token

/-! # JSON values

A `Value` keeps what a JSON text says as it is written: numbers as numerals, and objects as
lists of members in which a key may occur twice.

`Value.tokens` writes a value as tokens.  `Value.ofTokens?` goes the other way with a machine
that takes one token at a time: its `Place` says what may come next, and its stack holds the
arrays and objects that are still open, so that no depth of nesting needs a deep recursion. -/

namespace EofVerifier.Json

/-- A JSON value. -/
inductive Value where
  | null
  | bool (b : Bool)
  | number (n : Numeral)
  /-- A string; `none` for a literal that denotes no text. -/
  | string (text : Option String)
  | array (elements : List Value)
  | object (members : List (Option String × Value))

/-- The key and the value of an object's member. -/
abbrev Member := Option String × Value

namespace Value

/-! ### Writing -/

mutual

/-- The tokens of a value. -/
def tokens : Value → List Token
  | null => [.null]
  | bool b => [.bool b]
  | number n => [.number n]
  | string text => [.string text]
  | array [] => [.openArray, .closeArray]
  | array (v :: vs) => .openArray :: (v.tokens ++ moreElements vs)
  | object [] => [.openObject, .closeObject]
  | object ((key, v) :: ms) =>
    .openObject :: .string key :: .colon :: (v.tokens ++ moreMembers ms)

/-- The tokens of the further elements of an array, up to its end. -/
def moreElements : List Value → List Token
  | [] => [.closeArray]
  | v :: vs => .comma :: (v.tokens ++ moreElements vs)

/-- The tokens of the further members of an object, up to its end. -/
def moreMembers : List (Option String × Value) → List Token
  | [] => [.closeObject]
  | (key, v) :: ms => .comma :: .string key :: .colon :: (v.tokens ++ moreMembers ms)

end

/-- The value as JSON text without any space. -/
def render (v : Value) : String :=
  String.ofList (v.tokens.flatMap Token.lexeme)

/-! ### Reading -/

/-- An array or object that is still open, with what it holds so far, the latest first. -/
inductive Open where
  | array (elements : List Value)
  /-- An object that waits for the value of a key. -/
  | object (members : List Member) (key : Option String)

/-- What may come next in a text. -/
inductive Place where
  /-- A value. -/
  | value
  /-- A value or the end of the array that has just been opened. -/
  | firstElement
  /-- A key or the end of the object that has just been opened. -/
  | firstKey
  /-- A key, in an object with these members so far, the latest first. -/
  | key (members : List Member)
  /-- The colon after a key. -/
  | colon (members : List Member) (key : Option String)
  /-- What follows a value. -/
  | after (v : Value)

/-- Takes in a token that starts a value. -/
def start (stack : List Open) : Token → Option (Place × List Open)
  | .null => some (.after null, stack)
  | .bool b => some (.after (bool b), stack)
  | .number n => some (.after (number n), stack)
  | .string text => some (.after (string text), stack)
  | .openArray => some (.firstElement, stack)
  | .openObject => some (.firstKey, stack)
  | .closeArray | .closeObject | .colon | .comma => none

/-- Takes in a token that follows the value `v`. -/
def continueAfter (v : Value) : List Open → Token → Option (Place × List Open)
  | .array vs :: stack, .comma => some (.value, .array (v :: vs) :: stack)
  | .array vs :: stack, .closeArray => some (.after (array (v :: vs).reverse), stack)
  | .object ms key :: stack, .comma => some (.key ((key, v) :: ms), stack)
  | .object ms key :: stack, .closeObject => some (.after (object ((key, v) :: ms).reverse), stack)
  | _, _ => none

/-- Takes in a token. -/
def read (t : Token) : Place × List Open → Option (Place × List Open)
  | (.value, stack) => start stack t
  | (.firstElement, stack) =>
    if t = .closeArray then some (.after (array []), stack) else start (.array [] :: stack) t
  | (.firstKey, stack) =>
    match t with
    | .closeObject => some (.after (object []), stack)
    | .string key => some (.colon [] key, stack)
    | _ => none
  | (.key ms, stack) =>
    match t with
    | .string key => some (.colon ms key, stack)
    | _ => none
  | (.colon ms key, stack) =>
    if t = .colon then some (.value, .object ms key :: stack) else none
  | (.after v, stack) => continueAfter v stack t

/-- The value that the tokens make up. -/
def ofTokens? (ts : List Token) : Option Value := do
  match ← ts.foldlM (fun state t => read t state) (Place.value, []) with
  | (.after v, []) => some v
  | _ => none

/-- The value that a JSON text denotes. -/
def ofText? (text : String) : Option Value := do
  ofTokens? (← Token.ofText? text)

/-! ### Values that are kept as they are -/

mutual

/-- Tells whether a value can be kept: it has at most `depth` levels of arrays and objects, its
strings and keys denote texts, and its numbers are not too large for a double. -/
def isStorable (depth : Nat) : Value → Bool
  | null | bool _ => true
  | number n => n.inDoubleRange
  | string text => text.isSome
  | array vs =>
    match depth with
    | 0 => false
    | depth + 1 => areStorable depth vs
  | object ms =>
    match depth with
    | 0 => false
    | depth + 1 => membersAreStorable depth ms

/-- Tells whether all elements can be kept. -/
def areStorable (depth : Nat) : List Value → Bool
  | [] => true
  | v :: vs => v.isStorable depth && areStorable depth vs

/-- Tells whether all members can be kept. -/
def membersAreStorable (depth : Nat) : List (Option String × Value) → Bool
  | [] => true
  | (key, v) :: ms => key.isSome && v.isStorable depth && membersAreStorable depth ms

end

end Value

end EofVerifier.Json
