import EofVerifier.Assembly.Fault
import EofVerifier.Section.Walk

/-! # Events

What the library reports while it works, beside its results.  Functions that report return a
`Logged` value: the events in the order in which they happen, and the result.  An event is
written on one line: its level, its text, and its fields (`Event.render`). -/

namespace EofVerifier

/-- Something worth reporting. -/
inductive Event where
  /-- The walk through a section enters an instruction for the first time. -/
  | visit (visit : Visit)
  /-- A code section is valid. -/
  | sectionValid (index : Nat) (maxHeight : UInt16)
  /-- A code section is invalid. -/
  | sectionInvalid (index : Nat) (failure : Failure)
  /-- A code section of a case cannot be assembled. -/
  | caseNotAssembled (group case : String) (error : AssemblyError)
  /-- All cases of a suite file have been run. -/
  | suiteDone (path : String) (total failed : Nat)
  /-- A single section is about to be verified. -/
  | validating (instructions sections : Nat)
deriving DecidableEq

/-- How much an event matters. -/
inductive Level where
  /-- A single step. -/
  | trace
  /-- An outcome. -/
  | debug
  /-- Something that the user should look at. -/
  | warn
deriving DecidableEq, Repr

namespace Event

/-- How much the event matters. -/
def level : Event → Level
  | visit _ => .trace
  | caseNotAssembled .. => .warn
  | sectionValid .. | sectionInvalid .. | suiteDone .. | validating .. => .debug

/-- What has happened. -/
def text : Event → String
  | visit _ => "visit"
  | sectionValid .. => "code section is valid"
  | sectionInvalid .. => "code section is invalid"
  | caseNotAssembled .. => "vector does not assemble"
  | suiteDone .. => "suite done"
  | validating .. => "validating"

/-- The particulars, each with its name. -/
def fields : Event → List (String × String)
  | visit v =>
    [("position", s!"{v.position}"), ("height", s!"{v.height}"), ("opcode", v.opcode.mnemonic)]
  | sectionValid index maxHeight =>
    [("section", s!"{index}"), ("max_height", s!"{maxHeight.toNat}")]
  | sectionInvalid index failure => [("section", s!"{index}"), ("error", failure.message)]
  | caseNotAssembled group case error =>
    [("unit", group), ("vector", case), ("error", error.message)]
  | suiteDone path total failed =>
    [("path", path), ("total", s!"{total}"), ("failed", s!"{failed}")]
  | validating instructions sections =>
    [("instructions", s!"{instructions}"), ("sections", s!"{sections}")]

/-- Tells whether the event belongs to the verification of one code section. -/
def isOfSection : Event → Bool
  | visit _ | sectionValid .. | sectionInvalid .. => true
  | caseNotAssembled .. | suiteDone .. | validating .. => false

end Event

/-- The level in capitals. -/
def Level.name : Level → String
  | trace => "TRACE"
  | debug => "DEBUG"
  | warn => "WARN"

/-- The event on one line. -/
def Event.render (e : Event) : String :=
  " ".intercalate
    (e.level.name :: (("message", e.text) :: e.fields).map fun f => f.1 ++ "=" ++ f.2)

/-- A result and the events on the way to it. -/
structure Logged (α : Type) where
  events : List Event
  result : α

end EofVerifier
