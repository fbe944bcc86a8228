import EofVerifier.Json.Value

/-! # Records in JSON text

A record is a value with named fields.  It is written as an object, in any order and with no
field twice, or as an array of the fields in their order, where the last ones may be missing.
`Value.fields?` looks the fields up; what must be there, and what it must be, is for the
caller to say, with the functions that follow it. -/

namespace EofVerifier.Json.Value

/-- Whether a record written as an object may have members that are not fields. -/
inductive Extra where
  /-- They are refused. -/
  | refused
  /-- They are skipped, whatever their value. -/
  | skipped
deriving DecidableEq, Repr

/-- Tells whether an object with these members is a record with these fields: every key denotes
a text, no field occurs twice, and further members are allowed for. -/
def isRecord (names : List String) (extra : Extra) (members : List Member) : Bool :=
  members.all (fun m => m.1.isSome ∧ (extra = .skipped ∨ m.1 ∈ names.map some)) ∧
    names.all fun name => members.countP (·.1 = some name) ≤ 1

/-- The values of the fields with these names; `none` for one that is missing. -/
def fields? (names : List String) (extra : Extra) : Value → Option (List (Option Value))
  | object members =>
    if isRecord names extra members then some (names.map fun name => members.lookup (some name))
    else none
  | array vs =>
    if vs.length ≤ names.length then
      some (vs.map some ++ List.replicate (names.length - vs.length) none)
    else none
  | _ => none

/-- A truth value. -/
def bool? : Value → Option Bool
  | bool b => some b
  | _ => none

/-- An integer from zero to `bound`. -/
def nat? (bound : Nat) : Value → Option Nat
  | number n => n.nat?.filter (· ≤ bound)
  | _ => none

/-- A text. -/
def text? : Value → Option String
  | string text => text
  | _ => none

/-- An array whose elements are read with `read?`. -/
def list? {α : Type} (read? : Value → Option α) : Value → Option (List α)
  | array vs => vs.mapM read?
  | _ => none

/-- A field that may be missing or `null`. -/
def optional? {α : Type} (read? : Value → Option α) : Option Value → Option (Option α)
  | none | some null => some none
  | some v => (read? v).map some

end EofVerifier.Json.Value
