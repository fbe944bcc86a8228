import EofVerifier.Event

/-! # Verification of one code section

A section is verified in three stages, and the first that finds a failure decides.

1. The section must be listed in the type section and must not be empty, and each of its
   instructions must have an operand of the right kind that names only instructions and
   sections that exist.  The first instruction that does not is reported
   (`Section.firstMalformed?`).
2. The walk gives each instruction that it reaches its height (`State.run`).
3. Every instruction must have been reached, and the largest height must be within the limit
   and equal to the declared one (`Section.conclude`).

Accepted sections yield that largest height. -/

namespace EofVerifier.Section

/-- What makes an instruction malformed: an operand of the wrong kind, or else a jump out of
the section, or else a call of a section that does not exist. -/
def malformation? (s : Section) (i : Instruction) : Option Violation :=
  if i.wellShaped = false then some .malformedOperand
  else if ∃ target ∈ i.jumpTargets, s.code.size ≤ target then some .jumpOutOfRange
  else if ∃ callee ∈ i.calledSection?, s.types.size ≤ callee then some .unknownSection
  else none

/-- The first malformed instruction. -/
def firstMalformed? (s : Section) : Option Failure :=
  s.code.toList.zipIdx.findSome? fun (i, position) => (s.malformation? i).map (⟨·, position⟩)

/-- The largest of the heights. -/
def peak (heights : List Nat) : Nat :=
  heights.foldl max 0

/-- Judges the heights that a finished walk has recorded.  What is wrong with the largest
height is reported at the first instruction that has it. -/
def conclude (s : Section) (recorded : List (Option Nat)) : Except Failure UInt16 :=
  match recorded.findIdx? (·.isNone) with
  | some position => .error ⟨.unreachable, position⟩
  | none =>
    let heights := recorded.filterMap id
    let position := heights.idxOf (peak heights)
    if Limits.maxStackHeight < peak heights then .error ⟨.heightAboveLimit, position⟩
    else if peak heights ≠ s.own.maxStackHeight.toNat then .error ⟨.heightMismatch, position⟩
    else .ok (UInt16.ofNat (peak heights))

/-- The visits of the walk, in order, and the verdict. -/
def walk (s : Section) : List Visit × Except Failure UInt16 :=
  match (State.initial s).run s with
  | .error halt => (halt.visits.reverse, .error halt.failure)
  | .ok st => (st.visits.reverse, s.conclude st.heights.toList)

/-- The visits and the verdict for a section whose own signature is known. -/
def examine (s : Section) : List Visit × Except Failure UInt16 :=
  if s.code.isEmpty then ([], .error ⟨.emptySection, 0⟩)
  else match s.firstMalformed? with
    | some failure => ([], .error failure)
    | none => s.walk

/-- The visits and the verdict for the code section with this index. -/
def inspect (types : TypeSection) (index : Nat) (code : Code) :
    List Visit × Except Failure UInt16 :=
  match types[index]? with
  | none => ([], .error ⟨.unknownSection, 0⟩)
  | some own => examine { code, own, types }

/-- Verifies the code section with this index and gives its largest height. -/
def verify (types : TypeSection) (index : Nat) (code : Code) : Except Failure UInt16 :=
  (inspect types index code).2

/-- The event that reports a verdict. -/
def verdictEvent (index : Nat) : Except Failure UInt16 → Event
  | .ok maxHeight => .sectionValid index maxHeight
  | .error failure => .sectionInvalid index failure

/-- Verifies a code section and reports each visit and the verdict. -/
def verifyLogged (types : TypeSection) (index : Nat) (code : Code) :
    Logged (Except Failure UInt16) :=
  let r := inspect types index code
  { events := r.1.map .visit ++ [verdictEvent index r.2], result := r.2 }

end EofVerifier.Section
