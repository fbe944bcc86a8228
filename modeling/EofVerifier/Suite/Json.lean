import EofVerifier.Json.Dictionary
import EofVerifier.Signature.Json
import EofVerifier.Suite.Basic

/-! # Suite files

A suite file is JSON text: a dictionary of groups, each of which holds a dictionary of cases.
Groups, cases and expectations are records without further members.  The description of a
group is kept as it is, so it must be storable; it lies two levels deep, and a file may have
no more than `maxNesting` levels where values are kept. -/

namespace EofVerifier

open Json (Value)

/-- The most levels of arrays and objects in a file, where values are kept. -/
def Suite.maxNesting : Nat := 127

/-- The largest index that a file can name. -/
def Suite.maxIndex : Nat := UInt64.size - 1

/-- Reads an expectation. -/
def Expectation.ofJson? (v : Value) : Option Expectation := do
  match ← v.fields? ["valid", "error", "section", "position"] .refused with
  | [some valid, error, index, position] =>
    return {
      valid := ← valid.bool?
      error := ← Value.optional? Value.text? error
      index := ← Value.optional? (Value.nat? Suite.maxIndex) index
      position := ← Value.optional? (Value.nat? Suite.maxIndex) position }
  | _ => none

/-- Reads a case. -/
def Case.ofJson? (v : Value) : Option Case := do
  match ← v.fields? ["types", "code", "expected"] .refused with
  | [some types, some sources, some expected] =>
    return {
      types := (← types.list? Signature.ofJson?).toArray
      sources := ← sources.list? Value.text?
      expected := ← Expectation.ofJson? expected }
  | _ => none

/-- A value that is kept as it is. -/
def Group.info? (v : Value) : Option Value :=
  if v.isStorable (Suite.maxNesting - 2) then some v else none

/-- Reads a group. -/
def Group.ofJson? (v : Value) : Option Group := do
  match ← v.fields? ["_info", "vectors"] .refused with
  | [info, cases] =>
    return {
      info := ← Value.optional? Group.info? info
      cases := ← match cases with
        | none => some ∅
        | some cases => cases.dictionary? Case.ofJson? }
  | _ => none

/-- Reads a suite. -/
def Suite.ofJson? (v : Value) : Option Suite :=
  v.dictionary? Group.ofJson?

/-- Reads the text of a suite file. -/
def Suite.ofText? (text : String) : Option Suite :=
  (Value.ofText? text).bind Suite.ofJson?

end EofVerifier
