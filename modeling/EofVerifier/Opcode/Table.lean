import EofVerifier.Opcode.Basic

/-! # The instruction set

`Opcode.table` lists the instructions that may occur in a code section, in the order of
their bytes; a byte outside it is no instruction.  An `Opcode` is an entry of that table, so
whatever holds of every entry (`Opcode.forall_iff`) holds of every opcode.  Bytes and
mnemonics both name an opcode uniquely, and mnemonics are written in upper case. -/

namespace EofVerifier

open OpcodeInfo in
/-- The bytes that are instructions, with what is known of each. -/
def Opcode.table : List (UInt8 × OpcodeInfo) :=
  [(0x00, named "STOP" |>.stack 0 0 |>.leaving .halt),
   (0x01, named "ADD" |>.stack 2 1),
   (0x02, named "MUL" |>.stack 2 1),
   (0x03, named "SUB" |>.stack 2 1),
   (0x04, named "DIV" |>.stack 2 1),
   (0x05, named "SDIV" |>.stack 2 1),
   (0x06, named "MOD" |>.stack 2 1),
   (0x07, named "SMOD" |>.stack 2 1),
   (0x08, named "ADDMOD" |>.stack 3 1),
   (0x09, named "MULMOD" |>.stack 3 1),
   (0x0A, named "EXP" |>.stack 2 1),
   (0x0B, named "SIGNEXTEND" |>.stack 2 1),
   (0x10, named "LT" |>.stack 2 1),
   (0x11, named "GT" |>.stack 2 1),
   (0x12, named "SLT" |>.stack 2 1),
   (0x13, named "SGT" |>.stack 2 1),
   (0x14, named "EQ" |>.stack 2 1),
   (0x15, named "ISZERO" |>.stack 1 1),
   (0x16, named "AND" |>.stack 2 1),
   (0x17, named "OR" |>.stack 2 1),
   (0x18, named "XOR" |>.stack 2 1),
   (0x19, named "NOT" |>.stack 1 1),
   (0x1A, named "BYTE" |>.stack 2 1),
   (0x1B, named "SHL" |>.stack 2 1),
   (0x1C, named "SHR" |>.stack 2 1),
   (0x1D, named "SAR" |>.stack 2 1),
   (0x20, named "KECCAK256" |>.stack 2 1),
   (0x30, named "ADDRESS" |>.stack 0 1),
   (0x31, named "BALANCE" |>.stack 1 1),
   (0x32, named "ORIGIN" |>.stack 0 1),
   (0x33, named "CALLER" |>.stack 0 1),
   (0x34, named "CALLVALUE" |>.stack 0 1),
   (0x35, named "CALLDATALOAD" |>.stack 1 1),
   (0x36, named "CALLDATASIZE" |>.stack 0 1),
   (0x37, named "CALLDATACOPY" |>.stack 3 0),
   (0x3A, named "GASPRICE" |>.stack 0 1),
   (0x3D, named "RETURNDATASIZE" |>.stack 0 1),
   (0x3E, named "RETURNDATACOPY" |>.stack 3 0),
   (0x40, named "BLOCKHASH" |>.stack 1 1),
   (0x41, named "COINBASE" |>.stack 0 1),
   (0x42, named "TIMESTAMP" |>.stack 0 1),
   (0x43, named "NUMBER" |>.stack 0 1),
   (0x44, named "PREVRANDAO" |>.stack 0 1),
   (0x45, named "GASLIMIT" |>.stack 0 1),
   (0x46, named "CHAINID" |>.stack 0 1),
   (0x47, named "SELFBALANCE" |>.stack 0 1),
   (0x48, named "BASEFEE" |>.stack 0 1),
   (0x49, named "BLOBHASH" |>.stack 1 1),
   (0x4A, named "BLOBBASEFEE" |>.stack 0 1),
   (0x50, named "POP" |>.stack 1 0),
   (0x51, named "MLOAD" |>.stack 1 1),
   (0x52, named "MSTORE" |>.stack 2 0),
   (0x53, named "MSTORE8" |>.stack 2 0),
   (0x54, named "SLOAD" |>.stack 1 1),
   (0x55, named "SSTORE" |>.stack 2 0),
   (0x59, named "MSIZE" |>.stack 0 1),
   (0x5B, named "NOP" |>.stack 0 0),
   (0x5C, named "TLOAD" |>.stack 1 1),
   (0x5D, named "TSTORE" |>.stack 2 0),
   (0x5E, named "MCOPY" |>.stack 3 0),
   (0x5F, named "PUSH0" |>.stack 0 1),
   (0x60, named "PUSH1" |>.stack 0 1 |>.immediate 1),
   (0x61, named "PUSH2" |>.stack 0 1 |>.immediate 2),
   (0x62, named "PUSH3" |>.stack 0 1 |>.immediate 3),
   (0x63, named "PUSH4" |>.stack 0 1 |>.immediate 4),
   (0x64, named "PUSH5" |>.stack 0 1 |>.immediate 5),
   (0x65, named "PUSH6" |>.stack 0 1 |>.immediate 6),
   (0x66, named "PUSH7" |>.stack 0 1 |>.immediate 7),
   (0x67, named "PUSH8" |>.stack 0 1 |>.immediate 8),
   (0x68, named "PUSH9" |>.stack 0 1 |>.immediate 9),
   (0x69, named "PUSH10" |>.stack 0 1 |>.immediate 10),
   (0x6A, named "PUSH11" |>.stack 0 1 |>.immediate 11),
   (0x6B, named "PUSH12" |>.stack 0 1 |>.immediate 12),
   (0x6C, named "PUSH13" |>.stack 0 1 |>.immediate 13),
   (0x6D, named "PUSH14" |>.stack 0 1 |>.immediate 14),
   (0x6E, named "PUSH15" |>.stack 0 1 |>.immediate 15),
   (0x6F, named "PUSH16" |>.stack 0 1 |>.immediate 16),
   (0x70, named "PUSH17" |>.stack 0 1 |>.immediate 17),
   (0x71, named "PUSH18" |>.stack 0 1 |>.immediate 18),
   (0x72, named "PUSH19" |>.stack 0 1 |>.immediate 19),
   (0x73, named "PUSH20" |>.stack 0 1 |>.immediate 20),
   (0x74, named "PUSH21" |>.stack 0 1 |>.immediate 21),
   (0x75, named "PUSH22" |>.stack 0 1 |>.immediate 22),
   (0x76, named "PUSH23" |>.stack 0 1 |>.immediate 23),
   (0x77, named "PUSH24" |>.stack 0 1 |>.immediate 24),
   (0x78, named "PUSH25" |>.stack 0 1 |>.immediate 25),
   (0x79, named "PUSH26" |>.stack 0 1 |>.immediate 26),
   (0x7A, named "PUSH27" |>.stack 0 1 |>.immediate 27),
   (0x7B, named "PUSH28" |>.stack 0 1 |>.immediate 28),
   (0x7C, named "PUSH29" |>.stack 0 1 |>.immediate 29),
   (0x7D, named "PUSH30" |>.stack 0 1 |>.immediate 30),
   (0x7E, named "PUSH31" |>.stack 0 1 |>.immediate 31),
   (0x7F, named "PUSH32" |>.stack 0 1 |>.immediate 32),
   (0x80, named "DUP1" |>.stack 1 2),
   (0x81, named "DUP2" |>.stack 2 3),
   (0x82, named "DUP3" |>.stack 3 4),
   (0x83, named "DUP4" |>.stack 4 5),
   (0x84, named "DUP5" |>.stack 5 6),
   (0x85, named "DUP6" |>.stack 6 7),
   (0x86, named "DUP7" |>.stack 7 8),
   (0x87, named "DUP8" |>.stack 8 9),
   (0x88, named "DUP9" |>.stack 9 10),
   (0x89, named "DUP10" |>.stack 10 11),
   (0x8A, named "DUP11" |>.stack 11 12),
   (0x8B, named "DUP12" |>.stack 12 13),
   (0x8C, named "DUP13" |>.stack 13 14),
   (0x8D, named "DUP14" |>.stack 14 15),
   (0x8E, named "DUP15" |>.stack 15 16),
   (0x8F, named "DUP16" |>.stack 16 17),
   (0x90, named "SWAP1" |>.stack 2 2),
   (0x91, named "SWAP2" |>.stack 3 3),
   (0x92, named "SWAP3" |>.stack 4 4),
   (0x93, named "SWAP4" |>.stack 5 5),
   (0x94, named "SWAP5" |>.stack 6 6),
   (0x95, named "SWAP6" |>.stack 7 7),
   (0x96, named "SWAP7" |>.stack 8 8),
   (0x97, named "SWAP8" |>.stack 9 9),
   (0x98, named "SWAP9" |>.stack 10 10),
   (0x99, named "SWAP10" |>.stack 11 11),
   (0x9A, named "SWAP11" |>.stack 12 12),
   (0x9B, named "SWAP12" |>.stack 13 13),
   (0x9C, named "SWAP13" |>.stack 14 14),
   (0x9D, named "SWAP14" |>.stack 15 15),
   (0x9E, named "SWAP15" |>.stack 16 16),
   (0x9F, named "SWAP16" |>.stack 17 17),
   (0xA0, named "LOG0" |>.stack 2 0),
   (0xA1, named "LOG1" |>.stack 3 0),
   (0xA2, named "LOG2" |>.stack 4 0),
   (0xA3, named "LOG3" |>.stack 5 0),
   (0xA4, named "LOG4" |>.stack 6 0),
   (0xD0, named "DATALOAD" |>.stack 1 1),
   (0xD1, named "DATALOADN" |>.stack 0 1 |>.immediate 2),
   (0xD2, named "DATASIZE" |>.stack 0 1),
   (0xD3, named "DATACOPY" |>.stack 3 0),
   (0xE0, named "RJUMP" |>.stack 0 0 |>.immediate 2 |>.leaving .jump),
   (0xE1, named "RJUMPI" |>.stack 1 0 |>.immediate 2 |>.leaving .branch),
   (0xE2, named "RJUMPV" |>.stack 1 0 |>.immediate 1 |>.leaving .branch),
   (0xE3, named "CALLF" |>.stack 0 0 |>.immediate 2 |>.leaving .call),
   (0xE4, named "RETF" |>.stack 0 0 |>.leaving .leave),
   (0xF3, named "RETURN" |>.stack 2 0 |>.leaving .halt),
   (0xF7, named "RETURNDATALOAD" |>.stack 1 1),
   (0xF8, named "EXTCALL" |>.stack 4 1),
   (0xF9, named "EXTDELEGATECALL" |>.stack 3 1),
   (0xFB, named "EXTSTATICCALL" |>.stack 3 1),
   (0xFD, named "REVERT" |>.stack 2 0 |>.leaving .halt),
   (0xFE, named "INVALID" |>.stack 0 0 |>.leaving .halt)]

/-- An instruction of the instruction set. -/
structure Opcode where
  /-- The byte that encodes it. -/
  byte : UInt8
  /-- What the instruction set says of it. -/
  info : OpcodeInfo
  /-- The two stand together in the table. -/
  mem_table : (byte, info) ∈ Opcode.table
deriving DecidableEq

namespace Opcode

/-- All opcodes, in the order of their bytes. -/
def all : List Opcode :=
  table.attach.map fun e => { byte := e.1.1, info := e.1.2, mem_table := e.2 }

theorem mem_all (o : Opcode) : o ∈ all :=
  List.mem_map.2 ⟨⟨(o.byte, o.info), o.mem_table⟩, List.mem_attach _ _, rfl⟩

/-- A statement about byte and entry holds of every opcode when it holds down the table. -/
theorem forall_iff {p : UInt8 → OpcodeInfo → Prop} :
    (∀ o : Opcode, p o.byte o.info) ↔ ∀ e ∈ table, p e.1 e.2 :=
  ⟨fun h e he => h ⟨e.1, e.2, he⟩, fun h o => h _ o.mem_table⟩

/-- The opcode that `byte` encodes. -/
def ofByte? (byte : UInt8) : Option Opcode :=
  all.find? (·.byte = byte)

/-- The opcode with this mnemonic; mnemonics are matched as they are written. -/
def ofMnemonic? (mnemonic : String) : Option Opcode :=
  all.find? (·.info.mnemonic = mnemonic)

/-- The opcode that stands first in the table. -/
instance : Inhabited Opcode :=
  ⟨{ byte := 0x00, info := .leaving (.stack (.named "STOP") 0 0) .halt,
     mem_table := List.mem_cons_self }⟩

/-- The upper-case name in assembler text. -/
def mnemonic (o : Opcode) : String := o.info.mnemonic

/-- How control leaves. -/
def flow (o : Opcode) : Flow := o.info.flow

end Opcode

end EofVerifier
