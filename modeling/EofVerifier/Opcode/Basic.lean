/-! # What is known of an instruction

`OpcodeInfo` holds what the instruction set says of one kind of instruction: its mnemonic,
how many items it takes from the stack and puts there, how many bytes of operand follow it,
and how control leaves it (`Flow`).  An entry starts as `OpcodeInfo.named`, without any
effect, and each of the functions after it sets one property. -/

namespace EofVerifier

/-- How control leaves an instruction. -/
inductive Flow where
  /-- To the next instruction. -/
  | next
  /-- To the jump target only. -/
  | jump
  /-- To one of the jump targets or to the next instruction. -/
  | branch
  /-- Into another code section, and on to the next instruction afterwards. -/
  | call
  /-- Back to the caller. -/
  | leave
  /-- Nowhere: the run halts. -/
  | halt
deriving DecidableEq, Repr

/-- Tells whether the next instruction is a successor. -/
def Flow.fallsThrough : Flow → Bool
  | next | branch | call => true
  | jump | leave | halt => false

/-- Tells whether no instruction of the section follows on this path. -/
def Flow.terminates : Flow → Bool
  | leave | halt => true
  | next | jump | branch | call => false

/-- What the instruction set says of one kind of instruction. -/
structure OpcodeInfo where
  /-- The upper-case name in assembler text. -/
  mnemonic : String
  /-- Number of stack items taken. -/
  inputs : UInt8
  /-- Number of stack items left in their place. -/
  outputs : UInt8
  /-- Number of operand bytes; for a jump table, of the byte that holds its length. -/
  immediateSize : UInt8
  flow : Flow
deriving DecidableEq, Repr

namespace OpcodeInfo

/-- An entry without stack effect or operand, after which the next instruction follows. -/
def named (mnemonic : String) : OpcodeInfo :=
  { mnemonic, inputs := 0, outputs := 0, immediateSize := 0, flow := .next }

/-- Sets the stack effect. -/
def stack (o : OpcodeInfo) (inputs outputs : UInt8) : OpcodeInfo :=
  { o with inputs, outputs }

/-- Sets the number of operand bytes. -/
def immediate (o : OpcodeInfo) (size : UInt8) : OpcodeInfo :=
  { o with immediateSize := size }

/-- Sets how control leaves. -/
def leaving (o : OpcodeInfo) (flow : Flow) : OpcodeInfo :=
  { o with flow }

/-- By how much the instruction changes the height of the stack. -/
def netEffect (o : OpcodeInfo) : Int :=
  (o.outputs.toNat : Int) - o.inputs.toNat

end OpcodeInfo

end EofVerifier
