/-! # What can be wrong with a code section

A `Violation` is the rule that a section breaks, and a `Failure` is a violation at an
instruction of the section. -/

namespace EofVerifier

/-- The rule that a code section breaks. -/
inductive Violation where
  /-- Fewer items on the stack than the instruction takes. -/
  | stackUnderflow
  /-- Two paths reach the instruction with different heights. -/
  | conflictingHeights
  /-- A return with another height than the number of outputs. -/
  | returnArity
  /-- No path from the first instruction leads there. -/
  | unreachable
  /-- The height goes above the limit. -/
  | heightAboveLimit
  /-- The largest height is not the declared one. -/
  | heightMismatch
  /-- The section has no instruction. -/
  | emptySection
  /-- This section, or a called one, is not in the type section. -/
  | unknownSection
  /-- A jump target is not an instruction of the section. -/
  | jumpOutOfRange
  /-- The operand is not of the kind that the opcode asks for. -/
  | malformedOperand
  /-- The last instruction would go on past the end. -/
  | fallsOffEnd
deriving DecidableEq, Repr

/-- The name of the violation in suite files. -/
def Violation.name : Violation → String
  | stackUnderflow => "StackUnderflow"
  | conflictingHeights => "ConflictingStackHeight"
  | returnArity => "IncorrectReturnArity"
  | unreachable => "UnreachableCode"
  | heightAboveLimit => "MaxHeightExceeded"
  | heightMismatch => "MaxHeightMismatch"
  | emptySection => "EmptyCodeSection"
  | unknownSection => "CodeSectionOutOfBounds"
  | jumpOutOfRange => "JumpOutOfBounds"
  | malformedOperand => "MissingImmediate"
  | fallsOffEnd => "InstructionFallsOffEnd"

/-- The violation in words. -/
def Violation.message : Violation → String
  | stackUnderflow => "Stack requirement is above stack height"
  | conflictingHeights => "Instruction reached with different stack heights"
  | returnArity => "Stack height at RETF differs from outputs"
  | unreachable => "Instruction is unreachable"
  | heightAboveLimit => "Max stack height is above limit"
  | heightMismatch => "Max stack height mismatches types section"
  | emptySection => "Code section is empty"
  | unknownSection => "Code section index is out of bounds"
  | jumpOutOfRange => "Jump destination is out of bounds"
  | malformedOperand => "Immediate does not match opcode"
  | fallsOffEnd => "Last instruction is not terminating"

/-- A violation and the index of the instruction it is found at. -/
structure Failure where
  violation : Violation
  /-- The index of the offending instruction. -/
  position : Nat
deriving DecidableEq, Repr

/-- The failure in words. -/
def Failure.message (f : Failure) : String :=
  s!"{f.violation.message} at instruction {f.position}"

end EofVerifier
