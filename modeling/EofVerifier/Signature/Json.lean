import EofVerifier.Json.Record
import EofVerifier.Signature.Basic

/-! # Signatures in JSON text

A signature is a record of three numbers.  A signature error is an object with one member,
whose key names the error and whose value is the record of the numbers in question.  Members
that are not fields are skipped in either record.  Reading does not check a signature; it only
sees to it that the numbers fit. -/

namespace EofVerifier

open Json (Value Numeral)

/-- Reads a number of one byte. -/
def Json.Value.byte? (v : Value) : Option UInt8 :=
  (v.nat? 0xFF).map UInt8.ofNat

/-- Reads a number of two bytes. -/
def Json.Value.word? (v : Value) : Option UInt16 :=
  (v.nat? 0xFFFF).map UInt16.ofNat

/-- The object with these members, each of them a number. -/
def Json.Value.ofNumbers (members : List (String × Nat)) : Value :=
  .object (members.map fun m => (some m.1, .number (Numeral.ofNat m.2)))

namespace Signature

/-- Reads a signature. -/
def ofJson? (v : Value) : Option Signature := do
  match ← v.fields? ["inputs", "outputs", "max_stack_height"] .skipped with
  | [some i, some o, some m] =>
    return { inputs := ← i.byte?, outputs := ← o.byte?, maxStackHeight := ← m.word? }
  | _ => none

/-- Writes a signature. -/
def toJson (s : Signature) : Value :=
  .ofNumbers [("inputs", s.inputs.toNat), ("outputs", s.outputs.toNat),
    ("max_stack_height", s.maxStackHeight.toNat)]

end Signature

namespace SignatureError

/-- The numbers in question, each with its name. -/
def fields : SignatureError → List (String × Nat)
  | inputs value | outputs value => [("value", value.toNat)]
  | maxStackHeight value => [("value", value.toNat)]
  | inputsAboveMax i m => [("inputs", i.toNat), ("max_stack_height", m.toNat)]

/-- Reads the numbers of the error with the given name. -/
def ofBody? (name : String) (body : Value) : Option SignatureError := do
  match name with
  | "InvalidInputValue" =>
    match ← body.fields? ["value"] .skipped with
    | [some value] => return inputs (← value.byte?)
    | _ => none
  | "InvalidOutputValue" =>
    match ← body.fields? ["value"] .skipped with
    | [some value] => return outputs (← value.byte?)
    | _ => none
  | "InvalidMaxStackHeight" =>
    match ← body.fields? ["value"] .skipped with
    | [some value] => return maxStackHeight (← value.word?)
    | _ => none
  | "InputsAboveMaxStackHeight" =>
    match ← body.fields? ["inputs", "max_stack_height"] .skipped with
    | [some i, some m] => return inputsAboveMax (← i.byte?) (← m.word?)
    | _ => none
  | _ => none

/-- Reads a signature error. -/
def ofJson? : Value → Option SignatureError
  | .object [(some name, body)] => ofBody? name body
  | _ => none

/-- Writes a signature error. -/
def toJson (e : SignatureError) : Value :=
  .object [(some e.name, .ofNumbers e.fields)]

end SignatureError

end EofVerifier
