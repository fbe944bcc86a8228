import EofVerifier.Limits

/-! # Signatures of code sections

Each code section has a signature: how many items it takes, how many it returns, and the
height that its stack reaches at most.  The entries of a type section are the signatures of
the code sections, in their order.  `Signature.check` names the first bound that an entry
breaks. -/

namespace EofVerifier

/-- What a code section declares about its stack. -/
structure Signature where
  /-- Number of items on the stack at entry. -/
  inputs : UInt8
  /-- Number of items on the stack at return. -/
  outputs : UInt8
  /-- Largest height of the stack, inputs included. -/
  maxStackHeight : UInt16
deriving DecidableEq, Repr

/-- The signatures of the code sections of a container, in their order. -/
abbrev TypeSection := Array Signature

/-- By how much a call changes the height of the caller's stack. -/
def Signature.netEffect (s : Signature) : Int :=
  (s.outputs.toNat : Int) - s.inputs.toNat

/-- Why a signature is refused. -/
inductive SignatureError where
  /-- Too many inputs. -/
  | inputs (value : UInt8)
  /-- Too many outputs. -/
  | outputs (value : UInt8)
  /-- The declared height is above the limit. -/
  | maxStackHeight (value : UInt16)
  /-- The inputs alone are higher than the declared height. -/
  | inputsAboveMax (inputs : UInt8) (maxStackHeight : UInt16)
deriving DecidableEq, Repr

/-- The name of the error in suite files. -/
def SignatureError.name : SignatureError → String
  | inputs _ => "InvalidInputValue"
  | outputs _ => "InvalidOutputValue"
  | maxStackHeight _ => "InvalidMaxStackHeight"
  | inputsAboveMax _ _ => "InputsAboveMaxStackHeight"

/-- The error in words. -/
def SignatureError.message : SignatureError → String
  | inputs value => s!"Invalid inputs value: {value.toNat}"
  | outputs value => s!"Invalid outputs value: {value.toNat}"
  | maxStackHeight value => s!"Invalid max stack height value: {value.toNat}"
  | inputsAboveMax i m => s!"Inputs {i.toNat} are above max stack height {m.toNat}"

/-- Checks the bounds of one entry. -/
def Signature.check (s : Signature) : Except SignatureError Unit :=
  if Limits.maxFunctionInputs < s.inputs.toNat then .error (.inputs s.inputs)
  else if Limits.maxFunctionOutputs < s.outputs.toNat then .error (.outputs s.outputs)
  else if Limits.maxStackHeight < s.maxStackHeight.toNat then
    .error (.maxStackHeight s.maxStackHeight)
  else if s.maxStackHeight.toNat < s.inputs.toNat then
    .error (.inputsAboveMax s.inputs s.maxStackHeight)
  else .ok ()

end EofVerifier
