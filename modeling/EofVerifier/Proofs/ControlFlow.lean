import EofVerifier.Section.Verify
import Mathlib.Logic.Relation
import Mathlib.Tactic.ByContra

/-! # Control flow and stack effect of a section

What the verification of a section decides is a property of a graph.  Its nodes are the
positions of the section; an instruction leads from its position to its jump targets and, if
it falls through, to the next position (`Instruction.Leads`, `Section.Edge`).  Each
instruction takes `Section.pops` items and leaves `Section.pushes` in their place, where a
call takes and leaves what the called section declares.

An instruction is `Section.WellFormed` when its operand has the right shape and names only
instructions and sections that exist; `firstMalformed?_eq_none_iff` says that the first stage
of the verification lets exactly the sections of such instructions pass.  For these, the
function `successors` that drives the walk is described in terms of the graph:
`successors_eq_ok_iff` says when it goes on and where to, and `successors_error` lists what
it refuses. -/

namespace EofVerifier

/-! ### Opcodes and operands -/

theorem Opcode.byte_of_call (o : Opcode) (h : o.flow = .call) : o.byte = 0xE3 := by
  have hall := Opcode.forall_iff (p := fun b info => info.flow = .call → b = 0xE3)
  exact hall.mpr (by decide +kernel) o h

theorem Opcode.byte_of_terminates (o : Opcode) (h : o.flow.terminates = true) :
    o.byte ≠ 0xE0 ∧ o.byte ≠ 0xE1 ∧ o.byte ≠ 0xE2 ∧ o.byte ≠ 0xE3 := by
  have hall := Opcode.forall_iff (p := fun b info => info.flow.terminates = true →
    b ≠ 0xE0 ∧ b ≠ 0xE1 ∧ b ≠ 0xE2 ∧ b ≠ 0xE3)
  exact hall.mpr (by decide +kernel) o h

theorem Opcode.shape_of_jump (o : Opcode) (h : o.flow = .jump) : o.shape = .target := by
  have hall := Opcode.forall_iff (p := fun b info => info.flow = .jump → b = 0xE0)
  have hbyte := hall.mpr (by decide +kernel) o h
  unfold shape
  rw [hbyte]
  rfl

theorem Opcode.shape_of_call (o : Opcode) (h : o.flow = .call) : o.shape = .callee := by
  unfold shape
  rw [o.byte_of_call h]
  rfl

theorem Opcode.flow_of_shape_callee (o : Opcode) (h : o.shape = .callee) : o.flow = .call := by
  have hall := Opcode.forall_iff (p := fun b info => b = 0xE3 → info.flow = .call)
  refine hall.mpr (by decide +kernel) o ?_
  unfold shape at h
  split at h
  · cases h
  · cases h
  · cases h
  · assumption
  · cases h

theorem Opcode.shape_of_terminates (o : Opcode) (h : o.flow.terminates = true) :
    ∃ size, o.shape = .payload size := by
  obtain ⟨h0, h1, h2, h3⟩ := o.byte_of_terminates h
  unfold shape
  split <;> first | contradiction | exact ⟨_, rfl⟩

theorem Flow.not_fallsThrough_of_terminates {f : Flow} (h : f.terminates = true) :
    f.fallsThrough = false := by
  cases f <;> first | rfl | cases h

namespace Instruction

variable {i : Instruction}

/-- The instruction with this byte, for use in sample code; no byte outside the table is meant. -/
def ofByte (byte : UInt8) (operand : Operand UInt64 := .none) : Instruction :=
  { opcode := (Opcode.ofByte? byte).getD default, operand }

/-- A jump with the right operand has a target. -/
theorem exists_jumpTarget (hs : i.wellShaped = true) (hj : i.opcode.flow = .jump) :
    ∃ t, t ∈ i.jumpTargets := by
  unfold wellShaped at hs
  rw [i.opcode.shape_of_jump hj] at hs
  cases ho : i.operand with
  | target t => exact ⟨t.toNat, by unfold jumpTargets; rw [ho]; exact List.mem_singleton_self _⟩
  | none | payload _ | table _ | callee _ => rw [ho] at hs; cases hs

/-- A call with the right operand names a section. -/
theorem exists_calledSection? (hs : i.wellShaped = true) (hc : i.opcode.flow = .call) :
    ∃ f, i.calledSection? = some f := by
  unfold wellShaped at hs
  rw [i.opcode.shape_of_call hc] at hs
  cases ho : i.operand with
  | callee index => exact ⟨index.toNat, by unfold calledSection?; rw [ho]⟩
  | none | payload _ | target _ | table _ => rw [ho] at hs; cases hs

/-- Only a call has an operand of the right kind that names a section. -/
theorem flow_of_calledSection? {f : Nat} (hs : i.wellShaped = true)
    (hf : i.calledSection? = some f) : i.opcode.flow = .call := by
  unfold wellShaped at hs
  unfold calledSection? at hf
  split at hf
  · rename_i index ho
    rw [ho] at hs
    apply i.opcode.flow_of_shape_callee
    cases hshape : i.opcode.shape with
    | callee => rfl
    | payload size | target | table => rw [hshape] at hs; cases hs
  · cases hf

/-- An instruction that ends its path jumps nowhere. -/
theorem jumpTargets_of_terminates (hs : i.wellShaped = true)
    (ht : i.opcode.flow.terminates = true) : i.jumpTargets = [] := by
  obtain ⟨size, hshape⟩ := i.opcode.shape_of_terminates ht
  unfold wellShaped at hs
  rw [hshape] at hs
  unfold jumpTargets
  cases ho : i.operand with
  | none | payload _ | callee _ => rfl
  | target _ | table _ => rw [ho] at hs; cases hs

/-- The instruction at `p` leads to `q`: by a jump, or because it falls through. -/
def Leads (i : Instruction) (p q : Nat) : Prop :=
  q ∈ i.jumpTargets ∨ i.opcode.flow.fallsThrough = true ∧ q = p + 1

end Instruction

namespace Section

variable {s : Section} {i : Instruction}

/-! ### The graph -/

/-- A path can go from position `p` to position `q` in one step. -/
def Edge (s : Section) (p q : Nat) : Prop :=
  ∃ i, s.code[p]? = some i ∧ i.Leads p q

/-- The signature that the instruction's operand names. -/
def callee? (s : Section) (i : Instruction) : Option Signature :=
  i.calledSection?.bind (s.types[·]?)

/-- Number of items that the instruction takes. -/
def pops (s : Section) (i : Instruction) : Nat :=
  if i.opcode.flow = .call then (s.callee? i).elim 0 (·.inputs.toNat)
  else i.opcode.info.inputs.toNat

/-- Number of items that the instruction leaves in their place. -/
def pushes (s : Section) (i : Instruction) : Nat :=
  if i.opcode.flow = .call then (s.callee? i).elim 0 (·.outputs.toNat)
  else i.opcode.info.outputs.toNat

theorem pops_of_ne_call (h : i.opcode.flow ≠ .call) : s.pops i = i.opcode.info.inputs.toNat :=
  if_neg h

theorem pushes_of_ne_call (h : i.opcode.flow ≠ .call) :
    s.pushes i = i.opcode.info.outputs.toNat :=
  if_neg h

theorem pops_of_call (h : i.opcode.flow = .call) {callee : Signature}
    (hc : s.callee? i = some callee) : s.pops i = callee.inputs.toNat := by
  unfold pops
  rw [if_pos h, hc]
  rfl

theorem pushes_of_call (h : i.opcode.flow = .call) {callee : Signature}
    (hc : s.callee? i = some callee) : s.pushes i = callee.outputs.toNat := by
  unfold pushes
  rw [if_pos h, hc]
  rfl

/-- The operand has the right shape and names only what exists. -/
structure WellFormed (s : Section) (i : Instruction) : Prop where
  shaped : i.wellShaped = true
  targets : ∀ t ∈ i.jumpTargets, t < s.code.size
  callee : ∀ f ∈ i.calledSection?, f < s.types.size

theorem malformation?_eq_none_iff : s.malformation? i = none ↔ s.WellFormed i := by
  unfold malformation?
  constructor
  · intro h
    split at h
    · cases h
    · rename_i hs
      split at h
      · cases h
      · rename_i ht
        split at h
        · cases h
        · rename_i hc
          exact ⟨by simpa using hs, fun t hm => Nat.lt_of_not_le fun hle => ht ⟨t, hm, hle⟩,
            fun f hf => Nat.lt_of_not_le fun hle => hc ⟨f, hf, hle⟩⟩
  · rintro ⟨hs, ht, hc⟩
    rw [if_neg (by rw [hs]; exact Bool.noConfusion), if_neg, if_neg]
    · rintro ⟨f, hf, hle⟩
      exact absurd (hc f hf) (Nat.not_lt.mpr hle)
    · rintro ⟨t, hm, hle⟩
      exact absurd (ht t hm) (Nat.not_lt.mpr hle)

/-- The first stage finds nothing exactly when every instruction is well formed. -/
theorem firstMalformed?_eq_none_iff :
    s.firstMalformed? = none ↔ ∀ (p : Nat) (i : Instruction), s.code[p]? = some i → s.WellFormed i := by
  unfold firstMalformed?
  simp only [List.findSome?_eq_none_iff, Option.map_eq_none_iff, malformation?_eq_none_iff]
  constructor
  · intro h p i hi
    refine h (i, p) ?_
    rw [List.mem_zipIdx_iff_getElem?, Array.getElem?_toList]
    exact hi
  · rintro h ⟨i, p⟩ hm
    rw [List.mem_zipIdx_iff_getElem?, Array.getElem?_toList] at hm
    exact h p i hm

/-- The section has instructions, and all of them are well formed. -/
structure Formed (s : Section) : Prop where
  nonempty : 0 < s.code.size
  wellFormed : ∀ (p : Nat) (i : Instruction), s.code[p]? = some i → s.WellFormed i

theorem formed_iff : s.Formed ↔ s.code.isEmpty = false ∧ s.firstMalformed? = none := by
  rw [firstMalformed?_eq_none_iff, Array.isEmpty_eq_false_iff, ← Array.size_pos_iff]
  exact ⟨fun hs => ⟨hs.nonempty, hs.wellFormed⟩, fun ⟨hsize, hall⟩ => ⟨hsize, hall⟩⟩

/-- What passes the first stage is judged by the walk. -/
theorem examine_of_formed (hs : s.Formed) : s.examine = s.walk := by
  obtain ⟨hne, hm⟩ := formed_iff.mp hs
  unfold examine
  rw [hne, hm]
  rfl

/-- What does not pass is refused without a visit. -/
theorem examine_of_not_formed (hs : ¬ s.Formed) : ∃ failure, s.examine = ([], .error failure) := by
  unfold examine
  cases hne : s.code.isEmpty with
  | true => exact ⟨_, if_pos rfl⟩
  | false =>
      rw [if_neg Bool.false_ne_true]
      cases hm : s.firstMalformed? with
      | some failure => exact ⟨failure, rfl⟩
      | none => exact absurd (formed_iff.mpr ⟨hne, hm⟩) hs

theorem verify_of_listed {types : TypeSection} {index : Nat} {code : Code} {own : Signature}
    (hown : types[index]? = some own) :
    verify types index code = (examine { code, own, types }).2 := by
  unfold verify inspect
  rw [hown]

/-! ### What the walk does at an instruction -/

/-- The sum of a height and an effect is exact when it is a 64-bit word. -/
theorem advance_eq {h : Nat} {effect : Int} (hlow : 0 ≤ h + effect)
    (hhigh : h + effect < UInt64.size) : (advance h effect : Int) = h + effect := by
  unfold advance
  rw [Int.emod_eq_of_lt hlow hhigh, Int.toNat_of_nonneg hlow]

/-- The table and the signatures give each well formed instruction its effect. -/
theorem effect?_eq (hi : s.WellFormed i) :
    s.effect? i = some ⟨s.pops i, (s.pushes i : Int) - s.pops i⟩ := by
  unfold effect? pops pushes callee?
  by_cases hc : i.opcode.flow = .call
  · obtain ⟨f, hf⟩ := i.exists_calledSection? hi.shaped hc
    have hlt : f < s.types.size := hi.callee f hf
    simp [hc, hf, hlt, Signature.netEffect]
  · simp [hc, OpcodeInfo.netEffect]

/-- The height behind an instruction that is entered with height `h`. -/
def heightAfter (s : Section) (i : Instruction) (h : Nat) : Nat :=
  advance h ((s.pushes i : Int) - s.pops i)

/-- The height behind an instruction is the exact sum when it is a 64-bit word. -/
theorem heightAfter_eq {h : Nat} (hp : s.pops i ≤ h)
    (hlt : h - s.pops i + s.pushes i < UInt64.size) :
    s.heightAfter i h = h - s.pops i + s.pushes i := by
  have hlow : 0 ≤ (h : Int) + ((s.pushes i : Int) - s.pops i) := by omega
  have hhigh : (h : Int) + ((s.pushes i : Int) - s.pops i) < UInt64.size := by omega
  have hsum := advance_eq hlow hhigh
  unfold heightAfter
  omega

/-- The arrivals behind an instruction, which an instruction that ends its path does not have. -/
def arrivalsAfter (s : Section) (i : Instruction) (p h : Nat) : List Arrival :=
  i.jumpTargets.map (⟨·, s.heightAfter i h⟩) ++
    if i.opcode.flow.fallsThrough then [⟨p + 1, s.heightAfter i h⟩] else []

/-- What the walk demands at a well formed instruction, in the order in which it is looked at. -/
theorem successors_eq (hi : s.WellFormed i) {p h : Nat} :
    s.successors i p h =
      if h < s.pops i then .error .stackUnderflow
      else if i.opcode.flow = .leave ∧ h ≠ s.own.outputs.toNat then .error .returnArity
      else if i.opcode.flow.terminates then .ok []
      else if i.opcode.flow.fallsThrough ∧ s.code.size ≤ p + 1 then .error .fallsOffEnd
      else .ok (s.arrivalsAfter i p h) := by
  unfold successors
  rw [effect?_eq hi]
  rfl

theorem mem_arrivalsAfter_iff {p h : Nat} {a : Arrival} :
    a ∈ s.arrivalsAfter i p h ↔ i.Leads p a.position ∧ a.height = s.heightAfter i h := by
  obtain ⟨q, k⟩ := a
  unfold arrivalsAfter Instruction.Leads
  rw [List.mem_append, List.mem_map]
  cases i.opcode.flow.fallsThrough with
  | true =>
      simp only [if_true, List.mem_singleton, Arrival.mk.injEq, true_and]
      constructor
      · rintro (⟨t, ht, rfl, rfl⟩ | ⟨rfl, rfl⟩)
        · exact ⟨.inl ht, rfl⟩
        · exact ⟨.inr rfl, rfl⟩
      · rintro ⟨ht | rfl, rfl⟩
        · exact .inl ⟨q, ht, rfl, rfl⟩
        · exact .inr ⟨rfl, rfl⟩
  | false =>
      simp only [Bool.false_eq_true, if_false, List.not_mem_nil, Arrival.mk.injEq, false_and,
        or_false]
      constructor
      · rintro ⟨t, ht, rfl, rfl⟩
        exact ⟨ht, rfl⟩
      · rintro ⟨ht, rfl⟩
        exact ⟨q, ht, rfl, rfl⟩

/-- What the walk demands of a height before it goes on. -/
structure Admits (s : Section) (i : Instruction) (p h : Nat) : Prop where
  pops : s.pops i ≤ h
  returns : i.opcode.flow = .leave → h = s.own.outputs.toNat
  inside : i.opcode.flow.fallsThrough = true → p + 1 < s.code.size

/-- The walk goes on from a well formed instruction exactly when the height is admitted, and
then to all the instructions that it leads to. -/
theorem successors_eq_ok_iff (hi : s.WellFormed i) {p h : Nat} {next : List Arrival} :
    s.successors i p h = .ok next ↔ s.Admits i p h ∧ next = s.arrivalsAfter i p h := by
  have hnone (ht : i.opcode.flow.terminates = true) : s.arrivalsAfter i p h = [] := by
    unfold arrivalsAfter
    rw [i.jumpTargets_of_terminates hi.shaped ht, Flow.not_fallsThrough_of_terminates ht]
    rfl
  rw [successors_eq hi]
  split
  · rename_i hlt
    exact ⟨fun hr => (by cases hr), fun hr => absurd hr.1.pops (Nat.not_le.mpr hlt)⟩
  · rename_i hge
    split
    · rename_i hl
      exact ⟨fun hr => (by cases hr), fun hr => absurd (hr.1.returns hl.1) hl.2⟩
    · rename_i hl
      have hret : i.opcode.flow = .leave → h = s.own.outputs.toNat := by
        intro hf
        by_contra hne
        exact hl ⟨hf, hne⟩
      split
      · rename_i ht
        rw [hnone ht]
        constructor
        · intro hr
          cases hr
          refine ⟨⟨Nat.le_of_not_lt hge, hret, fun hf => ?_⟩, rfl⟩
          rw [Flow.not_fallsThrough_of_terminates ht] at hf
          cases hf
        · rintro ⟨-, rfl⟩
          rfl
      · split
        · rename_i hf
          exact ⟨fun hr => (by cases hr), fun hr => absurd (hr.1.inside hf.1) (Nat.not_lt.mpr hf.2)⟩
        · rename_i hf
          have hin : i.opcode.flow.fallsThrough = true → p + 1 < s.code.size := fun hft =>
            Nat.lt_of_not_le fun hle => hf ⟨hft, hle⟩
          constructor
          · intro hr
            cases hr
            exact ⟨⟨Nat.le_of_not_lt hge, hret, hin⟩, rfl⟩
          · rintro ⟨-, rfl⟩
            rfl

/-- What the walk finds wrong at a well formed instruction, and why. -/
theorem successors_error (hi : s.WellFormed i) {p h : Nat} {v : Violation}
    (hv : s.successors i p h = .error v) :
    v = .stackUnderflow ∧ h < s.pops i ∨
    v = .returnArity ∧ i.opcode.flow = .leave ∧ h ≠ s.own.outputs.toNat ∨
    v = .fallsOffEnd ∧ i.opcode.flow.fallsThrough = true ∧ s.code.size ≤ p + 1 := by
  rw [successors_eq hi] at hv
  split at hv
  · rename_i hlt
    cases hv
    exact .inl ⟨rfl, hlt⟩
  · split at hv
    · rename_i hl
      cases hv
      exact .inr (.inl ⟨rfl, hl⟩)
    · split at hv
      · cases hv
      · split at hv
        · rename_i hf
          cases hv
          exact .inr (.inr ⟨rfl, hf⟩)
        · cases hv

end Section

end EofVerifier
