import EofVerifier.Opcode.Table
import EofVerifier.Text.Decimal
import EofVerifier.Text.Hex

/-! # Instructions

An `Instruction` is an opcode with an operand.  Operands are generic in the type `τ` of jump
targets: assembler text names targets by label or by index, and code that is ready to be
verified names them by the index of an instruction, a 64-bit word.

Any operand may stand with any opcode; `Instruction.wellShaped` tells whether the operand is
of the kind that the opcode asks for (`Opcode.shape`).  An instruction is written as its
mnemonic and its operand (`Instruction.render`), which is how assembler text spells it. -/

namespace EofVerifier

/-- The operand of an instruction whose jump targets have type `τ`. -/
inductive Operand (τ : Type) where
  | none
  /-- Bytes to push or an offset into the data, most significant byte first. -/
  | payload (bytes : List UInt8)
  | target (t : τ)
  | table (ts : List τ)
  /-- The index of a code section. -/
  | callee (index : UInt16)
deriving DecidableEq

namespace Operand

variable {τ σ ε : Type}

/-- Replaces every jump target, from left to right, or fails as the first that fails. -/
def mapTargets (f : τ → Except ε σ) : Operand τ → Except ε (Operand σ)
  | none => .ok none
  | payload bytes => .ok (payload bytes)
  | target t => do return target (← f t)
  | table ts => do return table (← ts.mapM f)
  | callee index => .ok (callee index)

/-- The jump targets, in the order in which they are written. -/
def targets : Operand τ → List τ
  | target t => [t]
  | table ts => ts
  | none | payload _ | callee _ => []

/-- The words that follow the mnemonic. -/
def words : Operand UInt64 → List (List Char)
  | none => []
  | payload bytes => ['0' :: 'x' :: Text.Hex.encode bytes]
  | target t => [Text.Decimal.digits t.toNat]
  | table ts => ts.map fun t => Text.Decimal.digits t.toNat
  | callee index => [Text.Decimal.digits index.toNat]

end Operand

/-- The kind of operand that an opcode asks for. -/
inductive Shape where
  /-- A payload of `size` bytes; for size zero, no operand. -/
  | payload (size : Nat)
  | target
  /-- One or more jump targets. -/
  | table
  | callee
deriving DecidableEq, Repr

/-- The kind of operand that the opcode asks for: the jumps and the call have one of their
own, and every other opcode takes as many bytes as the table says. -/
def Opcode.shape (o : Opcode) : Shape :=
  match o.byte with
  | 0xE0 | 0xE1 => .target
  | 0xE2 => .table
  | 0xE3 => .callee
  | _ => .payload o.info.immediateSize.toNat

/-- The most targets a jump table can hold: its largest index is one byte. -/
def Shape.maxTargets : Nat := 256

/-- Tells whether the operand is of the given kind.  An empty payload is as good as none. -/
def Shape.accepts {τ : Type} : Shape → Operand τ → Bool
  | payload size, .payload bytes => bytes.length = size
  | payload size, .none => size = 0
  | target, .target _ => true
  | table, .table ts => ts ≠ [] ∧ ts.length ≤ maxTargets
  | callee, .callee _ => true
  | _, _ => false

/-- An opcode with an operand. -/
structure Instruction where
  opcode : Opcode
  /-- The operand; jump targets are indices of instructions of the same section. -/
  operand : Operand UInt64 := .none
deriving DecidableEq

/-- The instructions of one code section. -/
abbrev Code := Array Instruction

namespace Instruction

/-- Tells whether the operand is of the kind that the opcode asks for. -/
def wellShaped (i : Instruction) : Bool :=
  i.opcode.shape.accepts i.operand

/-- The positions that the instruction may jump to, in the order in which they are written. -/
def jumpTargets (i : Instruction) : List Nat :=
  i.operand.targets.map UInt64.toNat

/-- The code section that the operand names. -/
def calledSection? (i : Instruction) : Option Nat :=
  match i.operand with
  | .callee index => some index.toNat
  | _ => none

/-- Number of bytes of the encoded instruction. -/
def size (i : Instruction) : Nat :=
  match i.operand with
  | .table ts => 2 + 2 * ts.length
  | _ => 1 + i.opcode.info.immediateSize.toNat

/-- The instruction that pushes `bytes`, if one can push as many.  The opcodes that push zero
to 32 bytes follow each other. -/
def push? (bytes : List UInt8) : Option Instruction :=
  if bytes.length ≤ 32 then
    (Opcode.ofByte? (0x5F + UInt8.ofNat bytes.length)).map fun opcode =>
      { opcode, operand := if bytes = [] then .none else .payload bytes }
  else none

/-- The mnemonic and the words of the operand. -/
def words (i : Instruction) : List (List Char) :=
  i.opcode.mnemonic.toList :: i.operand.words

/-- The instruction as assembler text. -/
def render (i : Instruction) : String :=
  String.ofList ([' '].intercalate i.words)

end Instruction

end EofVerifier
