import EofVerifier.Container.Basic
import EofVerifier.Json.Value
import Std.Data.TreeMap

/-! # Suites

A suite holds containers with the outcome that is expected of each.  It consists of groups of
cases; both have names, and are kept in the order of their names.  A case gives its code as
assembler text.

An `Expectation` says whether the container is valid.  For an invalid one it may also name
the cause, the section and the instruction, and what it leaves open is not compared
(`Expectation.matches`). -/

namespace EofVerifier

/-- The expected outcome of a case. -/
structure Expectation where
  /-- Whether the container is valid. -/
  valid : Bool
  /-- The name of the most specific cause. -/
  error : Option String
  /-- The index of the section in question. -/
  index : Option Nat
  /-- The index of the instruction in question. -/
  position : Option Nat
deriving DecidableEq, Repr

/-- Tells whether what is expected agrees with what is found, where nothing expected agrees with
anything. -/
def Expectation.agrees {α : Type} [DecidableEq α] (expected found : Option α) : Bool :=
  expected = none ∨ expected = found

/-- Tells whether a result is the expected one. -/
def Expectation.matches (e : Expectation) : Except Rejection (List UInt16) → Bool
  | .ok _ => e.valid
  | .error r =>
    !e.valid && agrees e.error (some r.name) && agrees e.index r.index?
      && agrees e.position r.position?

/-- A container in source form, with the outcome that is expected. -/
structure Case where
  types : TypeSection
  /-- The code sections as assembler text. -/
  sources : List String
  expected : Expectation

/-- A group of cases. -/
structure Group where
  /-- A free description, which has no meaning here. -/
  info : Option Json.Value
  cases : Std.TreeMap String Case compare

/-- The groups of a suite by name. -/
abbrev Suite := Std.TreeMap String Group compare

end EofVerifier
