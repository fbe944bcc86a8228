import EofVerifier.Assembly.Fault
import EofVerifier.Instruction
import EofVerifier.Text.Blank

/-! # Items of assembler text

A line of assembler text is a sequence of words; what follows a `;` or `#` is a comment.  The
words make up items, and an item is either the definition of a label or an instruction with
its operand, all of it on one line.  `Item.read` takes the first item off a nonempty list of
words, and `scanWords` and `scanLines` repeat it.  A scan gives the items up to the first
fault together with that fault: what it finds on a line does not depend on the lines after
it, nor on which labels are defined. -/

namespace EofVerifier.Assembly

/-- A maximal run of characters that are not blank. -/
abbrev Word := List Char

/-- A jump target as assembler text writes it. -/
inductive Target where
  | index (i : UInt64)
  /-- The place where a label is defined. -/
  | label (name : Word)
deriving DecidableEq

/-- Reads `@name`, or the digits of an index of 64 bits. -/
def Target.read? : Word → Option Target
  | '@' :: name => if name = [] then none else some (.label name)
  | w => ((Text.Decimal.read? w).filter (· < UInt64.size)).map fun n => .index (UInt64.ofNat n)

/-- Reads `0x` or `0X` and the digits of at most `size` bytes. -/
def readPayload? (size : Nat) : Word → Option (List UInt8)
  | '0' :: 'x' :: digits | '0' :: 'X' :: digits => Text.Hex.payload? size digits
  | _ => none

/-- The longest run of targets at the front, and the words after it. -/
def leadingTargets : List Word → List Target × List Word
  | [] => ([], [])
  | w :: ws =>
    match Target.read? w with
    | some t =>
      let r := leadingTargets ws
      (t :: r.1, r.2)
    | none => ([], w :: ws)

theorem length_leadingTargets_le (ws : List Word) : (leadingTargets ws).2.length ≤ ws.length := by
  induction ws with
  | nil => simp [leadingTargets]
  | cons w ws ih =>
    simp only [leadingTargets]
    split
    · simp; omega
    · simp

/-- Reads one word as an operand. -/
def readWord (opcode : Opcode) (read? : Word → Option (Operand Target)) :
    List Word → Except Fault (Operand Target × List Word)
  | [] => .error (.missingOperand opcode)
  | w :: ws =>
    match read? w with
    | some operand => .ok (operand, ws)
    | none => .error (.invalidOperand (String.ofList w))

/-- Reads the operand that the opcode asks for, and gives the words after it. -/
def readOperand (opcode : Opcode) (ws : List Word) :
    Except Fault (Operand Target × List Word) :=
  match opcode.shape with
  | .payload 0 => .ok (.none, ws)
  | .payload size => readWord opcode (fun w => (readPayload? size w).map .payload) ws
  | .target => readWord opcode (fun w => (Target.read? w).map .target) ws
  | .callee => readWord opcode (fun w =>
      (Text.Decimal.readUnsigned? 0xFFFF w).map fun n => .callee (UInt16.ofNat n)) ws
  | .table =>
    match leadingTargets ws with
    | ([], _) => .error (.missingOperand opcode)
    | (ts, rest) => .ok (.table ts, rest)

/-- One item of assembler text. -/
inductive Item where
  /-- Names the place of the next instruction. -/
  | label (name : Word)
  /-- An instruction whose targets are still written as labels or indices. -/
  | instruction (opcode : Opcode) (operand : Operand Target)
deriving DecidableEq

/-- The name in a word that ends in a colon. -/
def labelName? (w : Word) : Option Word :=
  if w.getLast? = some ':' then some w.dropLast else none

/-- A label needs a name, and one that cannot be taken for a reference. -/
def usableName (name : Word) : Bool :=
  name ≠ [] ∧ name.head? ≠ some '@'

/-- The opcode that a word names; the case of ASCII letters does not matter. -/
def opcodeOf? (w : Word) : Option Opcode :=
  Opcode.ofMnemonic? (String.ofList (w.map Char.toUpper))

/-- Reads the item that starts with the word `w`, and gives the words after it. -/
def Item.read (w : Word) (ws : List Word) : Except Fault (Item × List Word) :=
  match labelName? w with
  | some name =>
    if usableName name then .ok (.label name, ws)
    else .error (.invalidLabel (String.ofList w))
  | none =>
    match opcodeOf? w with
    | none => .error (.unknownMnemonic (String.ofList w))
    | some opcode =>
      match readOperand opcode ws with
      | .error f => .error f
      | .ok (operand, rest) => .ok (.instruction opcode operand, rest)

/-! ### Reading takes words off the front -/

theorem length_le_of_readWord {opcode : Opcode} {read? : Word → Option (Operand Target)}
    {ws rest : List Word} {operand : Operand Target}
    (h : readWord opcode read? ws = .ok (operand, rest)) : rest.length ≤ ws.length := by
  cases ws with
  | nil => simp [readWord] at h
  | cons w ws =>
    simp only [readWord] at h
    split at h <;> simp_all

theorem length_le_of_readOperand {opcode : Opcode} {ws rest : List Word}
    {operand : Operand Target} (h : readOperand opcode ws = .ok (operand, rest)) :
    rest.length ≤ ws.length := by
  simp only [readOperand] at h
  split at h
  · simp_all
  · exact length_le_of_readWord h
  · exact length_le_of_readWord h
  · exact length_le_of_readWord h
  · have hle := length_leadingTargets_le ws
    split at h
    · simp at h
    · simp_all

theorem length_le_of_read {w : Word} {ws rest : List Word} {item : Item}
    (h : Item.read w ws = .ok (item, rest)) : rest.length ≤ ws.length := by
  simp only [Item.read] at h
  split at h
  · split at h <;> simp_all
  · split at h
    · simp at h
    · split at h
      · simp at h
      · next hread =>
        have hle := length_le_of_readOperand hread
        simp_all

/-! ### Scanning -/

/-- The items in a list of words, up to the first fault. -/
def scanWords : List Word → List Item × Option Fault
  | [] => ([], none)
  | w :: ws =>
    match _h : Item.read w ws with
    | .error f => ([], some f)
    | .ok (item, rest) =>
      let r := scanWords rest
      (item :: r.1, r.2)
termination_by ws => ws.length
decreasing_by have := length_le_of_read _h; simp; omega

/-- The words of a line that do not belong to a comment. -/
def lineWords (line : List Char) : List Word :=
  Text.words (line.takeWhile fun c => c ≠ ';' ∧ c ≠ '#')

/-- An item and the line it is on. -/
structure Entry where
  /-- The line, counted from one. -/
  line : Nat
  item : Item
deriving DecidableEq

/-- The items on lines that are numbered from `n` on, up to the first fault. -/
def scanLines (n : Nat) : List (List Char) → List Entry × Option AssemblyError
  | [] => ([], none)
  | l :: ls =>
    match scanWords (lineWords l) with
    | (items, some f) => (items.map (⟨n, ·⟩), some ⟨n, f⟩)
    | (items, none) =>
      let r := scanLines (n + 1) ls
      (items.map (⟨n, ·⟩) ++ r.1, r.2)

/-- The items of a source text, up to the first fault. -/
def scan (source : String) : List Entry × Option AssemblyError :=
  scanLines 1 (Text.lines source.toList)

end EofVerifier.Assembly
