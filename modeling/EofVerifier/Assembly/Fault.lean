import EofVerifier.Opcode.Table

/-! # What can be wrong with assembler text

A `Fault` is a cause, and an `AssemblyError` is a fault on a line; lines are counted from
one.  All wording stands in the two `message` functions. -/

namespace EofVerifier

/-- Why a piece of assembler text is refused. -/
inductive Fault where
  /-- The word is no mnemonic. -/
  | unknownMnemonic (word : String)
  /-- The opcode asks for an operand, and none follows on the line. -/
  | missingOperand (opcode : Opcode)
  /-- The word cannot be read as the operand, or does not fit. -/
  | invalidOperand (word : String)
  /-- The label is defined a second time. -/
  | duplicateLabel (name : String)
  /-- The label is used but defined nowhere. -/
  | undefinedLabel (name : String)
  /-- The word has the form of a label definition, but no name that can be used. -/
  | invalidLabel (word : String)
deriving DecidableEq

namespace Fault

/-- The word, name or mnemonic that the fault is about. -/
def subject : Fault → String
  | unknownMnemonic word | invalidOperand word | invalidLabel word => word
  | duplicateLabel name | undefinedLabel name => name
  | missingOperand opcode => opcode.mnemonic

/-- The fault in words. -/
def message : Fault → String
  | unknownMnemonic word => s!"unknown mnemonic `{word}`"
  | missingOperand opcode => s!"missing immediate for {opcode.mnemonic}"
  | invalidOperand word => s!"invalid immediate `{word}`"
  | duplicateLabel name => s!"duplicate label `{name}`"
  | undefinedLabel name => s!"undefined label `{name}`"
  | invalidLabel word => s!"invalid label `{word}`"

end Fault

/-- A fault and the line it is on. -/
structure AssemblyError where
  /-- The line, counted from one. -/
  line : Nat
  fault : Fault
deriving DecidableEq

/-- The error in words. -/
def AssemblyError.message (e : AssemblyError) : String :=
  s!"line {e.line}: {e.fault.message}"

end EofVerifier
