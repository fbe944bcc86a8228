import EofVerifier.Proofs.Traversal
import EofVerifier.Proofs.HeightAssignment
import EofVerifier.Proofs.WalkHistory
import Mathlib.Order.Bounds.Defs

/-! # Malformed operands

Before the walk every instruction is looked at on its own.  Three things can be wrong with its
operand (`Section.Defect`), and they are looked for in one order (`Section.defectOrder`).  What
is reported is the first malformed instruction with the first of its defects
(`Section.exists_firstMalformed?_of_least`), whatever a walk would have found.

The walk relies on this.  It looks up heights and instructions at positions that come from the
entry, from jump operands and from falling through, and the signatures of called sections.  When
no instruction is malformed, all of these are there in every state of the walk (`State.Safe`). -/

namespace EofVerifier

/-- The only opcode that calls is the one with this mnemonic. -/
theorem Opcode.flow_eq_call_iff (o : Opcode) : o.flow = .call ↔ o.mnemonic = "CALLF" := by
  have hall := Opcode.forall_iff (p := fun _ info => info.flow = .call ↔ info.mnemonic = "CALLF")
  exact hall.mpr (by decide +kernel) o

namespace Section

variable {s : Section} {i : Instruction} {v : Violation} {p : Nat}

/-- What can be wrong with the operand of an instruction. -/
inductive Defect (s : Section) (i : Instruction) : Violation → Prop
  /-- It is not of the kind that the opcode asks for. -/
  | shape : i.wellShaped = false → Defect s i .malformedOperand
  /-- It names a jump target behind the end of the section. -/
  | target {t : Nat} : t ∈ i.jumpTargets → s.code.size ≤ t → Defect s i .jumpOutOfRange
  /-- It names a section that does not exist. -/
  | callee {f : Nat} : i.calledSection? = some f → s.types.size ≤ f → Defect s i .unknownSection

/-- The order in which defects are looked for. -/
def defectOrder : List Violation :=
  [.malformedOperand, .jumpOutOfRange, .unknownSection]

/-- The defect that is looked for before all others that the instruction has. -/
structure FirstDefect (s : Section) (i : Instruction) (v : Violation) : Prop where
  present : s.Defect i v
  first : ∀ w, s.Defect i w → defectOrder.idxOf v ≤ defectOrder.idxOf w

/-- The instruction at the position has a defect. -/
def MalformedAt (s : Section) (p : Nat) : Prop :=
  ∃ i, s.code[p]? = some i ∧ ∃ v, s.Defect i v

/-! ### The first stage -/

theorem wellFormed_iff_not_defect : s.WellFormed i ↔ ∀ v, ¬ s.Defect i v := by
  constructor
  · intro hi v hv
    cases hv with
    | shape hs => exact Bool.false_ne_true (hs.symm.trans hi.shaped)
    | target hm hle => exact absurd (hi.targets _ hm) (Nat.not_lt.mpr hle)
    | callee hf hle => exact absurd (hi.callee _ hf) (Nat.not_lt.mpr hle)
  · intro h
    refine ⟨?_, fun t hm => ?_, fun f hf => ?_⟩
    · exact Bool.of_not_eq_false fun hs => h _ (.shape hs)
    · exact Nat.lt_of_not_le fun hle => h _ (.target hm hle)
    · exact Nat.lt_of_not_le fun hle => h _ (.callee hf hle)

theorem firstDefect_of_malformation? (h : s.malformation? i = some v) : s.FirstDefect i v := by
  unfold malformation? at h
  split at h
  · rename_i hs
    cases h
    exact ⟨.shape hs, fun w _ => Nat.zero_le _⟩
  · rename_i hs
    split at h
    · rename_i ht
      obtain ⟨t, hm, hle⟩ := ht
      cases h
      refine ⟨.target hm hle, fun w hw => ?_⟩
      cases hw with
      | shape hs' => exact absurd hs' hs
      | target | callee => decide
    · rename_i ht
      split at h
      · rename_i hc
        obtain ⟨f, hf, hle⟩ := hc
        cases h
        refine ⟨.callee hf hle, fun w hw => ?_⟩
        cases hw with
        | shape hs' => exact absurd hs' hs
        | target hm hle => exact absurd ⟨_, hm, hle⟩ ht
        | callee => decide
      · cases h

/-- The first stage reports the first malformed instruction, with its first defect. -/
theorem exists_firstMalformed?_of_least (hp : IsLeast {q | s.MalformedAt q} p) :
    ∃ i v, s.code[p]? = some i ∧ s.FirstDefect i v ∧ s.firstMalformed? = some ⟨v, p⟩ := by
  obtain ⟨⟨i, hi, w, hw⟩, hleast⟩ := hp
  obtain ⟨v, hv⟩ : ∃ v, s.malformation? i = some v := by
    rw [← Option.ne_none_iff_exists', Ne, malformation?_eq_none_iff, wellFormed_iff_not_defect]
    exact fun h => h w hw
  refine ⟨i, v, hi, firstDefect_of_malformation? hv, ?_⟩
  refine Traversal.findSome?_zipIdx_eq_some_iff.mpr ⟨p, i, ?_, ?_, fun j hj i' hi' => ?_⟩
  · rw [Array.getElem?_toList, hi]
  · simp only [hv, Option.map_some]
  · rw [Array.getElem?_toList] at hi'
    simp only [Option.map_eq_none_iff, malformation?_eq_none_iff, wellFormed_iff_not_defect]
    exact fun w hw => Nat.not_lt.mpr (hleast ⟨i', hi', w, hw⟩) hj

theorem examine_of_firstMalformed? {f : Failure} (h : s.firstMalformed? = some f) :
    s.examine.2 = .error f := by
  have hne : s.code.isEmpty = false := by
    refine Bool.of_not_eq_true fun hempty => ?_
    unfold firstMalformed? at h
    rw [Array.isEmpty_iff.mp hempty] at h
    cases h
  unfold examine
  rw [hne, h]
  rfl

/-- A section with instructions, none of which is malformed, passes the first stage. -/
theorem formed_of_not_malformedAt (hne : s.code.isEmpty = false)
    (h : ∀ q, ¬ s.MalformedAt q) : s.Formed := by
  refine formed_iff.mpr ⟨hne, firstMalformed?_eq_none_iff.mpr fun p i hi => ?_⟩
  exact wellFormed_iff_not_defect.mpr fun v hv => h p ⟨i, hi, v, hv⟩

/-! ### What the walk looks up -/

/-- There is an instruction at the position, and if it is a call, the called section exists. -/
def Sound (s : Section) (p : Nat) : Prop :=
  ∃ i, s.code[p]? = some i ∧
    (i.opcode.mnemonic = "CALLF" → ∃ f, i.calledSection? = some f ∧ f < s.types.size)

theorem Formed.sound (hs : s.Formed) (hp : p < s.code.size) : s.Sound p := by
  have hi := Array.getElem?_eq_getElem hp
  have hwell := hs.wellFormed p _ hi
  refine ⟨_, hi, fun hcall => ?_⟩
  obtain ⟨f, hf⟩ :=
    Instruction.exists_calledSection? hwell.shaped ((Opcode.flow_eq_call_iff _).mpr hcall)
  exact ⟨f, hf, hwell.callee f hf⟩

end Section

namespace State

variable {s : Section} {st : State} {taken : List Arrival}

/-- All that the walk looks up in this state is there, and so no step fails for want of it. -/
structure Safe (s : Section) (st : State) : Prop where
  pending : ∀ a ∈ st.pending, a.position < st.heights.size ∧ s.Sound a.position
  visited : ∀ v ∈ st.visits, s.Sound v.position
  found : ∀ (a : Arrival) (rest : List Arrival) (halt : Halt), st.pending = a :: rest →
    st.step s a rest = .error halt →
    halt.failure.violation ≠ .jumpOutOfRange ∧ halt.failure.violation ≠ .unknownSection

theorem Consistent.safe (hs : s.Formed) (hc : st.Consistent s) : st.Safe s := by
  refine ⟨fun a ha => ?_, fun v hv => ?_, fun a rest halt hp hstep => ?_⟩
  · have hlt := (hc.pending a ha).position_lt hs
    exact ⟨hc.size ▸ hlt, hs.sound hlt⟩
  · exact hs.sound (hc.position_lt hs hv)
  · have ha : a ∈ st.pending := by rw [hp]; exact List.mem_cons_self
    have hpath := hc.ofPath_of_step hs ha hstep
    constructor
    · intro hv
      rw [hv] at hpath
      cases hpath
    · intro hv
      rw [hv] at hpath
      cases hpath

end State

namespace Section

/-- **Malformed operands come first, and without them the walk finds all that it looks up.**  If
some instruction is malformed, the first one is reported, with the first of its defects.  If none
is, and there is code to walk through, the verdict is that of the walk, and every state of it is
safe. -/
theorem malformed_first_then_safe {types : TypeSection} {index : Nat} {code : Code}
    {own : Signature} (hown : types[index]? = some own) :
    let s : Section := { code, own, types }
    ((∃ q, s.MalformedAt q) →
      ∃ p i v, IsLeast {q | s.MalformedAt q} p ∧ code[p]? = some i ∧ s.FirstDefect i v ∧
        verify types index code = .error ⟨v, p⟩) ∧
    ((∀ q, ¬ s.MalformedAt q) →
      code.isEmpty = true ∧ verify types index code = .error ⟨.emptySection, 0⟩ ∨
      verify types index code = s.verdict ((State.initial s).run s) ∧
        ∀ taken st, State.History s taken st → st.Safe s) := by
  intro s
  rw [verify_of_listed hown]
  constructor
  · intro hex
    classical
    have hleast : IsLeast {q | s.MalformedAt q} (Nat.find hex) :=
      ⟨Nat.find_spec hex, fun q hq => Nat.find_min' hex hq⟩
    obtain ⟨i, v, hi, hv, hfirst⟩ := exists_firstMalformed?_of_least hleast
    exact ⟨_, i, v, hleast, hi, hv, examine_of_firstMalformed? hfirst⟩
  · intro hall
    cases hne : code.isEmpty with
    | true =>
      refine .inl ⟨rfl, ?_⟩
      unfold examine
      rw [if_pos hne]
    | false =>
      have hs : s.Formed := formed_of_not_malformedAt hne hall
      refine .inr ⟨?_, fun taken st hh => hh.consistent.safe hs⟩
      rw [examine_of_formed hs, walk_snd]

open Instruction in
/-- Code that takes an item from an empty stack and has three malformed instructions. -/
def misdirected : Code :=
  #[ofByte 0x50, ofByte 0xE2 (.table [0, 4]), ofByte 0xE3 (.callee 1), ofByte 0x01 (.target 9)]

/-- Of the malformed instructions the jump is reported, and the underflow before it is not.  In
the counting loop nothing is malformed, and the walk is safe from its start. -/
theorem malformed_first_misdirected :
    (#[⟨0, 0, 1⟩] : TypeSection)[0]? = some ⟨0, 0, 1⟩ ∧
    (∃ i, misdirected[1]? = some i ∧ FirstDefect ⟨misdirected, ⟨0, 0, 1⟩, #[⟨0, 0, 1⟩]⟩ i
      .jumpOutOfRange) ∧
    verify #[⟨0, 0, 1⟩] 0 misdirected = .error ⟨.jumpOutOfRange, 1⟩ ∧
    (State.initial ⟨countingLoop, ⟨0, 0, 2⟩, #[⟨0, 0, 2⟩]⟩).Safe
      ⟨countingLoop, ⟨0, 0, 2⟩, #[⟨0, 0, 2⟩]⟩ := by
  have hown : (#[⟨0, 0, 1⟩] : TypeSection)[0]? = some ⟨0, 0, 1⟩ := rfl
  have hv : verify #[⟨0, 0, 1⟩] 0 misdirected = .error ⟨.jumpOutOfRange, 1⟩ := by cbv
  have hmalformed : MalformedAt ⟨misdirected, ⟨0, 0, 1⟩, #[⟨0, 0, 1⟩]⟩ 1 :=
    ⟨_, rfl, _, .target (t := 4) (by decide) (by decide)⟩
  obtain ⟨p, i, v, -, hi, hfirst, hv'⟩ := (malformed_first_then_safe hown).1 ⟨1, hmalformed⟩
  obtain ⟨rfl, rfl⟩ := Failure.mk.inj (Except.error.inj (hv'.symm.trans hv))
  refine ⟨hown, ⟨i, hi, hfirst⟩, hv, ?_⟩
  have hm : firstMalformed? ⟨countingLoop, ⟨0, 0, 2⟩, #[⟨0, 0, 2⟩]⟩ = none := by cbv
  have hown' : (#[⟨0, 0, 2⟩] : TypeSection)[0]? = some ⟨0, 0, 2⟩ := rfl
  have hnone (q : Nat) : ¬ MalformedAt ⟨countingLoop, ⟨0, 0, 2⟩, #[⟨0, 0, 2⟩]⟩ q := by
    rintro ⟨j, hj, w, hw⟩
    exact wellFormed_iff_not_defect.mp (firstMalformed?_eq_none_iff.mp hm q j hj) w hw
  rcases (malformed_first_then_safe hown').2 hnone with ⟨hempty, -⟩ | ⟨-, hsafe⟩
  · exact absurd hempty (by decide)
  · exact hsafe [] _ .start

end Section

end EofVerifier
