import EofVerifier.Proofs.HeightAssignment

/-! # What a verdict depends on

The verification of a section sees only part of it: where its instructions lead, how many items
they take and leave, and whether their operands are in order.  Two sections that agree in this
part are `Section.Alike`, and then their verifications go on side by side.  They find the same
instruction malformed (`Section.Alike.firstMalformed?_eq`), each step of the one walk is a step of
the other, which records the same heights or fails in the same way (`State.Agree.of_step`), and so
the walks end alike (`State.Agree.of_run`).  Apart from this only the declared heights can tell
the sections apart, and those only in the last comparison. -/

namespace EofVerifier

/-- The opcodes take operands of one kind and have the same effect. -/
structure Opcode.SameEffect (o o' : Opcode) : Prop where
  shape : o.shape = o'.shape
  flow : o.flow = o'.flow
  inputs : o.info.inputs = o'.info.inputs
  outputs : o.info.outputs = o'.info.outputs

theorem Opcode.SameEffect.refl (o : Opcode) : o.SameEffect o := ⟨rfl, rfl, rfl, rfl⟩

/-- How many items a call of the section takes and returns, if there is such a section. -/
def TypeSection.arity? (types : TypeSection) (f : Nat) : Option (UInt8 × UInt8) :=
  types[f]?.map fun t => (t.inputs, t.outputs)

/-- A walk cannot tell the instructions apart, where the first stands in code for the one type
section and the second in code for the other. -/
structure Instruction.Alike (types types' : TypeSection) (i i' : Instruction) : Prop where
  shaped : i.wellShaped = i'.wellShaped
  targets : i.jumpTargets = i'.jumpTargets
  flow : i.opcode.flow = i'.opcode.flow
  inputs : i.opcode.info.inputs = i'.opcode.info.inputs
  outputs : i.opcode.info.outputs = i'.opcode.info.outputs
  callee : ∀ f f', i.calledSection? = some f → i'.calledSection? = some f' →
    types.arity? f = types'.arity? f'

/-- A walk cannot tell the sections apart. -/
structure Section.Alike (s s' : Section) : Prop where
  size : s.code.size = s'.code.size
  inputs : s.own.inputs = s'.own.inputs
  outputs : s.own.outputs = s'.own.outputs
  code : ∀ (p : Nat) (i i' : Instruction), s.code[p]? = some i → s'.code[p]? = some i' →
    i.Alike s.types s'.types i'

/-! ### Instructions -/

theorem TypeSection.arity?_eq_none_iff {types : TypeSection} {f : Nat} :
    types.arity? f = none ↔ types.size ≤ f := by
  unfold arity?
  rw [Option.map_eq_none_iff, Array.getElem?_eq_none_iff]

namespace Instruction

variable {types types' : TypeSection} {i i' : Instruction}

/-- Instructions of the right shape that are alike both call or both do not. -/
theorem Alike.calledSection? (h : i.Alike types types' i') (hs : i.wellShaped = true) :
    i.calledSection? = none ∧ i'.calledSection? = none ∨
    ∃ f f', i.calledSection? = some f ∧ i'.calledSection? = some f' ∧
      types.arity? f = types'.arity? f' := by
  have hs' : i'.wellShaped = true := h.shaped ▸ hs
  by_cases hcall : i.opcode.flow = .call
  · obtain ⟨f, hf⟩ := exists_calledSection? hs hcall
    obtain ⟨f', hf'⟩ := exists_calledSection? hs' (h.flow ▸ hcall)
    exact .inr ⟨f, f', hf, hf', h.callee f f' hf hf'⟩
  · refine .inl ⟨Option.eq_none_iff_forall_ne_some.mpr fun f hf => ?_,
      Option.eq_none_iff_forall_ne_some.mpr fun f hf => ?_⟩
    · exact hcall (flow_of_calledSection? hs hf)
    · exact hcall (h.flow.trans (flow_of_calledSection? hs' hf))

/-- Payloads of one length are alike. -/
theorem alike_payload {o : Opcode} {bytes bytes' : List UInt8}
    (h : bytes.length = bytes'.length) :
    Alike types types' ⟨o, .payload bytes⟩ ⟨o, .payload bytes'⟩ where
  shaped := by
    unfold wellShaped
    cases o.shape with
    | payload size => simp only [Shape.accepts, h]
    | target | table | callee => rfl
  targets := rfl
  flow := rfl
  inputs := rfl
  outputs := rfl
  callee := fun _ _ hf _ => nomatch hf

/-- Opcodes of the same effect are alike, with an operand that calls a section of one arity. -/
theorem alike_of_sameEffect {o o' : Opcode} {operand : Operand UInt64} (h : o.SameEffect o')
    (harity : ∀ f, calledSection? ⟨o, operand⟩ = some f → types.arity? f = types'.arity? f) :
    Alike types types' ⟨o, operand⟩ ⟨o', operand⟩ where
  shaped := by
    unfold wellShaped
    simp only [h.shape]
  targets := rfl
  flow := h.flow
  inputs := h.inputs
  outputs := h.outputs
  callee := by
    intro f f' hf hf'
    obtain rfl : f = f' := Option.some.inj (hf.symm.trans hf')
    exact harity f hf

end Instruction

/-! ### Sections -/

namespace Section

variable {s s' : Section} {i i' : Instruction} {p h : Nat}

theorem Alike.exists_instruction (ha : s.Alike s') (hi : s.code[p]? = some i) :
    ∃ i', s'.code[p]? = some i' ∧ i.Alike s.types s'.types i' := by
  obtain ⟨hlt, -⟩ := Array.getElem?_eq_some_iff.mp hi
  have hi' := Array.getElem?_eq_getElem (ha.size ▸ hlt)
  exact ⟨_, hi', ha.code p i _ hi hi'⟩

theorem Alike.malformation?_eq (ha : s.Alike s') (hi : i.Alike s.types s'.types i') :
    s.malformation? i = s'.malformation? i' := by
  have hcallee (hs : i.wellShaped = true) :
      (∃ f ∈ i.calledSection?, s.types.size ≤ f) ↔ ∃ f ∈ i'.calledSection?, s'.types.size ≤ f := by
    rcases hi.calledSection? hs with ⟨hn, hn'⟩ | ⟨f, f', hf, hf', harity⟩
    · simp [hn, hn']
    · simp only [hf, hf', Option.mem_def, Option.some.injEq, exists_eq_left',
        ← TypeSection.arity?_eq_none_iff, harity]
  unfold malformation?
  cases hs : i.wellShaped with
  | false =>
    rw [if_pos rfl, if_pos (hi.shaped ▸ hs)]
  | true =>
    have hs' : i'.wellShaped = true := hi.shaped ▸ hs
    simp only [hs', Bool.true_eq_false, if_false, hi.targets, ha.size, hcallee hs]

/-- The same instruction is found malformed, for the same reason. -/
theorem Alike.firstMalformed?_eq (ha : s.Alike s') : s.firstMalformed? = s'.firstMalformed? := by
  have hmap {s : Section} : s.firstMalformed? =
      (s.code.toList.zipIdx.map fun x =>
        (s.malformation? x.1).map (⟨·, x.2⟩ : Violation → Failure)).findSome? id := by
    unfold firstMalformed?
    rw [List.findSome?_map]
    rfl
  rw [hmap, hmap]
  congr 1
  refine List.ext_getElem? fun p => ?_
  rw [List.getElem?_map, List.getElem?_map, List.getElem?_zipIdx, List.getElem?_zipIdx,
    Array.getElem?_toList, Array.getElem?_toList]
  cases hi : s.code[p]? with
  | none =>
    rw [Array.getElem?_eq_none_iff, ha.size, ← Array.getElem?_eq_none_iff] at hi
    rw [hi]
    rfl
  | some i =>
    obtain ⟨i', hi', hlike⟩ := ha.exists_instruction hi
    simp only [hi', Option.map_some, ha.malformation?_eq hlike]

theorem effect?_eq_of_alike (hi : i.Alike s.types s'.types i') (hs : i.wellShaped = true) :
    s.effect? i = s'.effect? i' := by
  have harity {s : Section} {i : Instruction} : (i.calledSection?.bind (s.types[·]?)).map
      (fun callee => ({ inputs := callee.inputs.toNat, net := callee.netEffect } : Effect)) =
      (i.calledSection?.bind s.types.arity?).map fun x => ⟨x.1.toNat, x.2.toNat - x.1.toNat⟩ := by
    cases i.calledSection? with
    | none => rfl
    | some f =>
      rw [Option.bind_some, Option.bind_some]
      unfold TypeSection.arity?
      rw [Option.map_map]
      rfl
  unfold effect? OpcodeInfo.netEffect
  rw [harity, harity, hi.flow, hi.inputs, hi.outputs]
  rcases hi.calledSection? hs with ⟨hn, hn'⟩ | ⟨f, f', hf, hf', harity⟩
  · rw [hn, hn']
    rfl
  · rw [hf, hf', Option.bind_some, Option.bind_some, harity]

theorem Alike.successors_eq (ha : s.Alike s') (hi : i.Alike s.types s'.types i')
    (hs : i.wellShaped = true) : s.successors i p h = s'.successors i' p h := by
  unfold successors
  rw [effect?_eq_of_alike hi hs, hi.flow, hi.targets, ha.outputs, ha.size]

end Section

/-! ### Walks side by side -/

namespace State

variable {s s' : Section} {st st' : State} {a : Arrival} {rest : List Arrival}

/-- Both go on with the same heights and pending arrivals, or both fail in the same way. -/
inductive Agree : Except Halt State → Except Halt State → Prop
  | goOn {st st' : State} : st.heights = st'.heights → st.pending = st'.pending →
      Agree (.ok st) (.ok st')
  | fail {halt halt' : Halt} : halt.failure = halt'.failure → Agree (.error halt) (.error halt')

theorem Agree.of_step (ha : s.Alike s') (hs : s.Formed) (hh : st.heights = st'.heights) :
    Agree (st.step s a rest) (st'.step s' a rest) := by
  unfold step
  rw [← hh]
  cases hheight : st.heights[a.position]? with
  | none => exact .fail rfl
  | some recorded =>
    cases recorded with
    | some k =>
      simp only
      split
      · exact .goOn rfl rfl
      · exact .fail rfl
    | none =>
      cases hi : s.code[a.position]? with
      | none =>
        rw [Array.getElem?_eq_none_iff, ha.size, ← Array.getElem?_eq_none_iff] at hi
        rw [hi]
        exact .fail rfl
      | some i =>
        obtain ⟨i', hi', hlike⟩ := ha.exists_instruction hi
        have hsucc : s.successors i a.position a.height = s'.successors i' a.position a.height :=
          ha.successors_eq hlike (hs.wellFormed _ i hi).shaped
        simp only [hi', hsucc]
        cases s'.successors i' a.position a.height with
        | error v => exact .fail rfl
        | ok next => exact .goOn rfl rfl

/-- Walks through sections that are alike end alike. -/
theorem Agree.of_run (ha : s.Alike s') (hs : s.Formed) (hh : st.heights = st'.heights)
    (hp : st.pending = st'.pending) : Agree (st.run s) (st'.run s') := by
  fun_induction run s st generalizing st' with
  | case1 st hnil =>
    rw [run_nil (hp ▸ hnil)]
    exact .goOn hh hp
  | case2 st a rest hcons halt hstep =>
    have hcons' : st'.pending = a :: rest := hp ▸ hcons
    have hagree : Agree (st.step s a rest) (st'.step s' a rest) := Agree.of_step ha hs hh
    rw [run_cons hcons']
    rw [hstep] at hagree
    generalize st'.step s' a rest = next at hagree ⊢
    cases hagree with
    | fail hfailure => exact .fail hfailure
  | case3 st a rest hcons next hstep ih =>
    have hcons' : st'.pending = a :: rest := hp ▸ hcons
    have hagree : Agree (st.step s a rest) (st'.step s' a rest) := Agree.of_step ha hs hh
    rw [run_cons hcons']
    rw [hstep] at hagree
    generalize st'.step s' a rest = next' at hagree ⊢
    cases hagree with
    | goOn hheights hpending => exact ih hheights hpending

theorem Agree.of_initial (ha : s.Alike s') (hs : s.Formed) :
    Agree ((initial s).run s) ((initial s').run s') := by
  refine Agree.of_run ha hs ?_ ?_
  · unfold initial
    rw [ha.size]
  · unfold initial
    rw [ha.inputs]

end State

/-! ### Verdicts -/

namespace Section

variable {s s' : Section} {types types' : TypeSection} {index index' : Nat} {code code' : Code}
  {own : Signature}

/-- What is found before the heights are judged: a failure, or the heights that the walk has
recorded. -/
def found (s : Section) : Except Failure (List (Option Nat)) :=
  if s.code.isEmpty then .error ⟨.emptySection, 0⟩
  else match s.firstMalformed? with
    | some failure => .error failure
    | none => match (State.initial s).run s with
      | .error halt => .error halt.failure
      | .ok st => .ok st.heights.toList

/-- What is found in sections that are alike is the same. -/
theorem Alike.found_eq (ha : s.Alike s') : s.found = s'.found := by
  have hempty : s.code.isEmpty = s'.code.isEmpty := by
    rw [Array.isEmpty, Array.isEmpty, ha.size]
  unfold found
  rw [← hempty, ← ha.firstMalformed?_eq]
  cases hne : s.code.isEmpty with
  | true => rfl
  | false =>
    cases hm : s.firstMalformed? with
    | some failure => rfl
    | none =>
      have hagree := State.Agree.of_initial ha (formed_iff.mpr ⟨hne, hm⟩)
      simp only [Bool.false_eq_true, if_false]
      generalize (State.initial s).run s = r at hagree
      generalize (State.initial s').run s' = r' at hagree
      cases hagree with
      | goOn hheights _ => simp only [hheights]
      | fail hfailure => simp only [hfailure]

/-- The verdict is the judgement on what is found. -/
theorem examine_eq_found (s : Section) : s.examine.2 = s.found.bind s.conclude := by
  unfold examine found
  cases s.code.isEmpty with
  | true => rfl
  | false =>
    simp only [Bool.false_eq_true, if_false]
    cases s.firstMalformed? with
    | some failure => rfl
    | none =>
      unfold walk
      cases (State.initial s).run s <;> rfl

theorem verify_eq_found (hown : types[index]? = some own) :
    verify types index code =
      (found { code, own, types }).bind (conclude { code, own, types }) := by
  rw [verify_of_listed hown, examine_eq_found]

/-- The verdict is the same on sections that are alike and declare the same. -/
theorem verify_eq_of_alike (hown : types[index]? = some own) (hown' : types'[index']? = some own)
    (ha : Alike { code, own, types } { code := code', own, types := types' }) :
    verify types index code = verify types' index' code' := by
  rw [verify_eq_found hown, verify_eq_found hown', ha.found_eq]
  rfl

/-- Code in which one instruction is replaced by one that is like it. -/
theorem verify_setIfInBounds_of_alike {p : Nat} {i i' : Instruction} (hi : code[p]? = some i)
    (hlike : i.Alike types types i') :
    verify types index (code.setIfInBounds p i') = verify types index code := by
  cases hown : types[index]? with
  | none =>
    unfold verify inspect
    rw [hown]
  | some own =>
    have hat (q : Nat) (j j' : Instruction) (hj : code[q]? = some j)
        (hj' : (code.setIfInBounds p i')[q]? = some j') : j.Alike types types j' := by
      obtain ⟨hlt, -⟩ := Array.getElem?_eq_some_iff.mp hi
      rw [Array.getElem?_setIfInBounds] at hj'
      by_cases hq : p = q
      · subst hq
        rw [if_pos rfl, if_pos hlt] at hj'
        obtain rfl : i = j := Option.some.inj (hi.symm.trans hj)
        obtain rfl : i' = j' := Option.some.inj hj'
        exact hlike
      · rw [if_neg hq] at hj'
        obtain rfl : j = j' := Option.some.inj (hj.symm.trans hj')
        exact Instruction.alike_of_sameEffect (.refl _) fun f _ => rfl
    have ha : Alike { code, own, types } { code := code.setIfInBounds p i', own, types } :=
      ⟨Array.size_setIfInBounds.symm, rfl, rfl, hat⟩
    exact (verify_eq_of_alike hown hown ha).symm

/-- Type sections that list the section alike, and agree on the arity of what it calls. -/
theorem verify_of_arity (hown : types[index]? = types'[index]?)
    (harity : ∀ (p : Nat) (i : Instruction) (f : Nat), code[p]? = some i →
      i.calledSection? = some f → types.arity? f = types'.arity? f) :
    verify types index code = verify types' index code := by
  cases hlisted : types[index]? with
  | none =>
    unfold verify inspect
    rw [← hown, hlisted]
  | some own =>
    refine verify_eq_of_alike hlisted (hown ▸ hlisted) ⟨rfl, rfl, rfl, fun p i i' hi hi' => ?_⟩
    obtain rfl : i = i' := Option.some.inj (hi.symm.trans hi')
    exact Instruction.alike_of_sameEffect (.refl _) fun f hf => harity p i f hi hf

/-- **The verdict sees control flow and stack effects only.**  It is the same on code of one size
whose instructions are alike position by position, for sections with one signature.  So it does
not depend on payloads of one length, on the choice among opcodes of the same effect, on entries
of the type section other than the own one and the arity of those that are called, or on entries
behind the last one that the code can name. -/
theorem verdict_sees_effects_only :
    (∀ (types types' : TypeSection) (index index' : Nat) (code code' : Code) (own : Signature),
      types[index]? = some own → types'[index']? = some own → code.size = code'.size →
      (∀ (p : Nat) (i i' : Instruction), code[p]? = some i → code'[p]? = some i' →
        i.Alike types types' i') →
      verify types index code = verify types' index' code') ∧
    (∀ (types : TypeSection) (index : Nat) (code : Code) (p : Nat) (opcode : Opcode)
        (bytes bytes' : List UInt8),
      code[p]? = some ⟨opcode, .payload bytes⟩ → bytes.length = bytes'.length →
      verify types index (code.setIfInBounds p ⟨opcode, .payload bytes'⟩) =
        verify types index code) ∧
    (∀ (types : TypeSection) (index : Nat) (code : Code) (p : Nat) (opcode opcode' : Opcode)
        (operand : Operand UInt64),
      code[p]? = some ⟨opcode, operand⟩ → opcode.SameEffect opcode' →
      verify types index (code.setIfInBounds p ⟨opcode', operand⟩) = verify types index code) ∧
    (∀ (types types' : TypeSection) (index : Nat) (code : Code),
      types[index]? = types'[index]? →
      (∀ (p : Nat) (i : Instruction) (f : Nat), code[p]? = some i → i.calledSection? = some f →
        types.arity? f = types'.arity? f) →
      verify types index code = verify types' index code) ∧
    (∀ (types more : TypeSection) (index : Nat) (code : Code), index < types.size →
      (∀ (p : Nat) (i : Instruction) (f : Nat), code[p]? = some i → i.calledSection? = some f →
        f < types.size ∨ types.size + more.size ≤ f) →
      verify (types ++ more) index code = verify types index code) := by
  refine ⟨?_, ?_, ?_, ?_, ?_⟩
  · intro types types' index index' code code' own hown hown' hsize hlike
    exact verify_eq_of_alike hown hown' ⟨hsize, rfl, rfl, hlike⟩
  · intro types index code p opcode bytes bytes' hi hlength
    exact verify_setIfInBounds_of_alike hi (Instruction.alike_payload hlength)
  · intro types index code p opcode opcode' operand hi heffect
    exact verify_setIfInBounds_of_alike hi
      (Instruction.alike_of_sameEffect heffect fun f _ => rfl)
  · intro types types' index code
    exact verify_of_arity
  · intro types more index code hindex hcalled
    refine verify_of_arity (Array.getElem?_append_left hindex) fun p i f hi hf => ?_
    rcases hcalled p i f hi hf with hlt | hle
    · unfold TypeSection.arity?
      rw [Array.getElem?_append_left hlt]
    · have hle' : (types ++ more).size ≤ f := by rw [Array.size_append]; exact hle
      rw [TypeSection.arity?_eq_none_iff.mpr hle',
        TypeSection.arity?_eq_none_iff.mpr (Nat.le_trans (Nat.le_add_right _ _) hle)]

open Instruction in
/-- Code that adds two numbers and hands the sum to a section. -/
def addThenCall : Code :=
  #[ofByte 0x60 (.payload [1]), ofByte 0x60 (.payload [2]), ofByte 0x01, ofByte 0xE3 (.callee 1),
    ofByte 0x50, ofByte 0x00]

open Instruction in
/-- The same with other numbers, another operation and another section. -/
def xorThenCall : Code :=
  #[ofByte 0x60 (.payload [255]), ofByte 0x60 (.payload [0]), ofByte 0x18, ofByte 0xE3 (.callee 2),
    ofByte 0x50, ofByte 0x00]

/-- The two get one verdict, as sections of different containers. -/
theorem verdict_sees_effects_only_xorThenCall :
    (#[⟨0, 0, 2⟩, ⟨1, 1, 5⟩] : TypeSection)[0]? = some ⟨0, 0, 2⟩ ∧
    (#[⟨7, 7, 7⟩, ⟨0, 0, 2⟩, ⟨1, 1, 9⟩] : TypeSection)[1]? = some ⟨0, 0, 2⟩ ∧
    addThenCall.size = xorThenCall.size ∧
    (∀ (p : Nat) (i i' : Instruction), addThenCall[p]? = some i → xorThenCall[p]? = some i' →
      i.Alike #[⟨0, 0, 2⟩, ⟨1, 1, 5⟩] #[⟨7, 7, 7⟩, ⟨0, 0, 2⟩, ⟨1, 1, 9⟩] i') ∧
    verify #[⟨0, 0, 2⟩, ⟨1, 1, 5⟩] 0 addThenCall = .ok 2 ∧
    verify #[⟨7, 7, 7⟩, ⟨0, 0, 2⟩, ⟨1, 1, 9⟩] 1 xorThenCall = .ok 2 := by
  have hlike : ∀ (p : Nat) (i i' : Instruction),
      addThenCall[p]? = some i → xorThenCall[p]? = some i' →
      i.Alike #[⟨0, 0, 2⟩, ⟨1, 1, 5⟩] #[⟨7, 7, 7⟩, ⟨0, 0, 2⟩, ⟨1, 1, 9⟩] i' := by
    intro p i i' hi hi'
    obtain ⟨hlt, rfl⟩ := Array.getElem?_eq_some_iff.mp hi
    obtain ⟨hlt', rfl⟩ := Array.getElem?_eq_some_iff.mp hi'
    have hp : p < 6 := hlt
    have hcall (f f' : Nat) (hf : some 1 = some f) (hf' : some 2 = some f') :
        TypeSection.arity? #[⟨0, 0, 2⟩, ⟨1, 1, 5⟩] f =
          TypeSection.arity? #[⟨7, 7, 7⟩, ⟨0, 0, 2⟩, ⟨1, 1, 9⟩] f' := by
      cases hf
      cases hf'
      rfl
    interval_cases p
    · exact Instruction.alike_payload rfl
    · exact Instruction.alike_payload rfl
    · exact Instruction.alike_of_sameEffect ⟨by decide, by decide, by decide, by decide⟩ nofun
    · exact ⟨rfl, rfl, rfl, rfl, rfl, hcall⟩
    · exact Instruction.alike_of_sameEffect (.refl _) nofun
    · exact Instruction.alike_of_sameEffect (.refl _) nofun
  have hadd : verify #[⟨0, 0, 2⟩, ⟨1, 1, 5⟩] 0 addThenCall = .ok 2 := by cbv
  refine ⟨rfl, rfl, rfl, hlike, hadd, ?_⟩
  exact (verdict_sees_effects_only.1 _ _ 0 1 addThenCall xorThenCall ⟨0, 0, 2⟩ rfl rfl rfl
    hlike).symm.trans hadd

end Section

end EofVerifier
