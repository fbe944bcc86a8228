import EofVerifier.Assembly.Item

/-! # From assembler text to code

A label stands for the index of the first instruction after its definition, which is the
number of instructions before it.  `Labels.collect` builds the table of labels and refuses a
second definition; `resolve` replaces the references.  `assemble` reports what goes wrong in
this order: faults of the text and second definitions, whichever comes first in the text;
then the first reference, in the order of instructions and of targets in a table, to a label
that is defined nowhere. -/

namespace EofVerifier.Assembly

/-- The labels defined so far with the indices they stand for, the latest first. -/
abbrev Labels := List (Word × Nat)

/-- Adds the labels of the entries, before which there are `count` instructions. -/
def Labels.collect (labels : Labels) (count : Nat) : List Entry → Except AssemblyError Labels
  | [] => .ok labels
  | ⟨line, .label name⟩ :: rest =>
    if (labels.lookup name).isSome then
      .error ⟨line, .duplicateLabel (String.ofList name)⟩
    else Labels.collect ((name, count) :: labels) count rest
  | ⟨_, .instruction _ _⟩ :: rest => labels.collect (count + 1) rest

/-- The index that a target on the given line stands for. -/
def Target.resolve (labels : Labels) (line : Nat) : Target → Except AssemblyError UInt64
  | index i => .ok i
  | label name =>
    match labels.lookup name with
    | some n => .ok (UInt64.ofNat n)
    | none => .error ⟨line, .undefinedLabel (String.ofList name)⟩

/-- The instruction of an entry, if it is one, with its targets replaced. -/
def Entry.resolve? (labels : Labels) : Entry → Option (Except AssemblyError Instruction)
  | ⟨_, .label _⟩ => none
  | ⟨line, .instruction opcode operand⟩ =>
    some ((operand.mapTargets (Target.resolve labels line)).map ({ opcode, operand := · }))

/-- The instructions among the entries, with their targets replaced. -/
def resolve (labels : Labels) (entries : List Entry) : Except AssemblyError (List Instruction) :=
  (entries.filterMap (Entry.resolve? labels)).mapM id

end EofVerifier.Assembly

namespace EofVerifier

/-- Turns assembler text into the code of one section. -/
def assemble (source : String) : Except AssemblyError Code := do
  let (entries, fault) := Assembly.scan source
  let labels ← Assembly.Labels.collect [] 0 entries
  match fault with
  | some e => throw e
  | none => return (← Assembly.resolve labels entries).toArray

/-- Reads a text that holds one instruction and nothing else. -/
def Instruction.read (text : String) : Except AssemblyError Instruction := do
  match (← assemble text).toList with
  | [i] => return i
  | [] => throw ⟨1, .unknownMnemonic ""⟩
  | _ => throw ⟨1, .unknownMnemonic (String.ofList (Text.trim text.toList))⟩

end EofVerifier
