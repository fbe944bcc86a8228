import EofVerifier.Instruction
import EofVerifier.Section.Violation
import EofVerifier.Signature.Basic

/-! # The walk through a code section

Every instruction of a section must be entered with one height of the stack, whichever path
leads there.  The walk finds that height.  Its `State` holds the heights recorded so far and
the pending arrivals: instructions that some visited instruction leads to, each with the
height it would be entered with.

`State.step` takes one pending arrival in.  If the instruction has a height already, the two
must agree.  If not, the height is recorded, the instruction is checked, and the arrivals at
its successors become pending (`Section.successors`).  `State.run` repeats the step on the
arrival that was added last, so an instruction's successors are explored in the order in
which `successors` lists them, each with all that lies beyond it, before any older arrival.

A step either records a height or drops an arrival, which bounds the run
(`State.measure_step`): the number of instructions without a height, and then the number of
pending arrivals, goes down. -/

namespace EofVerifier

/-- A code section with what is needed to verify it. -/
structure Section where
  code : Code
  /-- The signature of the section itself. -/
  own : Signature
  /-- The signatures of all sections. -/
  types : TypeSection

/-- The next instruction of a path, and the height that the stack has there. -/
structure Arrival where
  /-- The index of the instruction. -/
  position : Nat
  /-- The number of items on the stack. -/
  height : Nat
deriving DecidableEq, Repr

/-- Adds a net effect to a height.  Heights are 64-bit words. -/
def advance (height : Nat) (effect : Int) : Nat :=
  (((height : Int) + effect) % UInt64.size).toNat

/-- How many items an instruction takes, and by how much it changes the height. -/
structure Effect where
  inputs : Nat
  /-- Change of the height. -/
  net : Int
deriving DecidableEq, Repr

namespace Section

/-- The effect of an instruction.  A call has the effect of the section it calls, if there is
such a section, and every other instruction the effect that the table gives. -/
def effect? (s : Section) (i : Instruction) : Option Effect :=
  if i.opcode.flow = .call then
    (i.calledSection?.bind (s.types[·]?)).map fun callee =>
      { inputs := callee.inputs.toNat, net := callee.netEffect }
  else
    some { inputs := i.opcode.info.inputs.toNat, net := i.opcode.info.netEffect }

/-- The arrivals that follow when the instruction `i` at `position` is entered with `height`:
first at the jump targets as they are written, then at the next instruction.  Refused are, in
this order, a call into nowhere, a stack that is too low, a return with the wrong height, and
a path that goes on past the end. -/
def successors (s : Section) (i : Instruction) (position height : Nat) :
    Except Violation (List Arrival) :=
  match s.effect? i with
  | none => .error .unknownSection
  | some effect =>
    let flow := i.opcode.flow
    if height < effect.inputs then .error .stackUnderflow
    else if flow = .leave ∧ height ≠ s.own.outputs.toNat then .error .returnArity
    else if flow.terminates then .ok []
    else if flow.fallsThrough ∧ s.code.size ≤ position + 1 then .error .fallsOffEnd
    else
      let next := advance height effect.net
      .ok (i.jumpTargets.map (⟨·, next⟩) ++ if flow.fallsThrough then [⟨position + 1, next⟩] else [])

end Section

/-- An instruction entered for the first time. -/
structure Visit where
  position : Nat
  /-- The height that is recorded for it. -/
  height : Nat
  opcode : Opcode
deriving DecidableEq

/-- A walk in progress. -/
structure State where
  /-- The recorded height of each instruction. -/
  heights : Array (Option Nat)
  /-- The arrivals still to be taken in, the latest first. -/
  pending : List Arrival
  /-- The visits made so far, the latest first. -/
  visits : List Visit
deriving DecidableEq

/-- The end of a walk that finds a failure, with the visits made up to it, the latest first. -/
structure Halt where
  failure : Failure
  /-- The visits made, the latest first. -/
  visits : List Visit
deriving DecidableEq

namespace State

/-- The state before the walk: the first instruction is to be entered with the inputs. -/
def initial (s : Section) : State :=
  { heights := Array.replicate s.code.size none
    pending := [⟨0, s.own.inputs.toNat⟩]
    visits := [] }

/-- Takes in the arrival `a`, where `rest` are the other pending arrivals.  An arrival outside
the code would be a jump out of range; a section whose jumps are in range has none. -/
def step (s : Section) (st : State) (a : Arrival) (rest : List Arrival) : Except Halt State :=
  match st.heights[a.position]?, s.code[a.position]? with
  | some (some recorded), _ =>
    if recorded = a.height then .ok { st with pending := rest }
    else .error ⟨⟨.conflictingHeights, a.position⟩, st.visits⟩
  | some none, some i =>
    let visits := ⟨a.position, a.height, i.opcode⟩ :: st.visits
    match s.successors i a.position a.height with
    | .error v => .error ⟨⟨v, a.position⟩, visits⟩
    | .ok next =>
      .ok { heights := st.heights.setIfInBounds a.position (some a.height)
            pending := next ++ rest
            visits }
  | _, _ => .error ⟨⟨.jumpOutOfRange, a.position⟩, st.visits⟩

/-- Number of instructions without a recorded height. -/
def unvisited (st : State) : Nat :=
  st.heights.count none

/-- A step that goes on records a height, or leaves only the other arrivals pending. -/
theorem measure_step {s : Section} {st st' : State} {a : Arrival} {rest : List Arrival}
    (h : st.step s a rest = .ok st') :
    st'.unvisited < st.unvisited ∨ st'.unvisited = st.unvisited ∧ st'.pending = rest := by
  simp only [step] at h
  split at h
  · split at h
    · cases h; exact .inr ⟨rfl, rfl⟩
    · cases h
  · next i hnone _ =>
    split at h
    · cases h
    · cases h
      obtain ⟨hlt, hget⟩ := Array.getElem?_eq_some_iff.1 hnone
      have hpos : 0 < st.heights.count none :=
        Array.count_pos_iff.2 (hget ▸ Array.getElem_mem hlt)
      left
      rw [unvisited, unvisited, Array.setIfInBounds, dif_pos hlt, Array.count_set hlt, hget,
        if_pos (beq_self_eq_true _), if_neg (by simp)]
      exact Nat.sub_lt hpos Nat.one_pos
  · cases h

/-- Takes in pending arrivals, the latest first, until none is left. -/
def run (s : Section) (st : State) : Except Halt State :=
  match _hp : st.pending with
  | [] => .ok st
  | a :: rest =>
    match _h : st.step s a rest with
    | .error halt => .error halt
    | .ok st' => st'.run s
termination_by (st.unvisited, st.pending.length)
decreasing_by
  rcases measure_step _h with hlt | ⟨heq, hrest⟩
  · exact Prod.Lex.left _ _ hlt
  · rw [heq, hrest, _hp]
    exact Prod.Lex.right _ (by simp)

end State

end EofVerifier
