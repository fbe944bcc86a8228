import EofVerifier.Proofs.Arrivals

/-! # The state of the walk

What a walk has recorded and what it has still to take in, compared with the arrivals of the
section.  A `State.Consistent` state has recorded only arrivals, each of which has passed,
and has every arrival behind a recorded one recorded or pending.  The invariant speaks of
pending arrivals as a set, so it is kept by taking in any of them
(`State.Consistent.step`), not only the one that was added last.

When nothing is pending, the recorded heights are the arrivals and the section is coherent
(`State.Consistent.coherent`).  When taking in an arrival fails, the section is not coherent
(`State.Consistent.not_coherent`): either the arrival does not pass, or it and the recorded
one differ in height. -/

namespace EofVerifier

/-- Violations that a path shows: the walk finds them, and which one it finds first depends
on the order. -/
def Violation.ofPath : Violation → Bool
  | .stackUnderflow | .conflictingHeights | .returnArity | .fallsOffEnd => true
  | .unreachable | .heightAboveLimit | .heightMismatch | .emptySection | .unknownSection
  | .jumpOutOfRange | .malformedOperand => false

namespace State

variable {s : Section} {st st' : State} {a : Arrival} {rest : List Arrival}

/-- The height recorded for the instruction at `p`. -/
def height? (st : State) (p : Nat) : Option Nat := st.heights[p]?.join

theorem height?_eq_some_iff {p h : Nat} : st.height? p = some h ↔ st.heights[p]? = some (some h) := by
  unfold height?
  rw [Option.join_eq_some_iff]

/-! ### One step -/

/-- The state after an arrival at an instruction without a height. -/
def record (st : State) (a : Arrival) (i : Instruction) (pending : List Arrival) : State :=
  { heights := st.heights.setIfInBounds a.position (some a.height)
    pending
    visits := ⟨a.position, a.height, i.opcode⟩ :: st.visits }

theorem height?_record {i : Instruction} {pending : List Arrival}
    (hn : st.heights[a.position]? = some none) (p : Nat) :
    (st.record a i pending).height? p = if p = a.position then some a.height else st.height? p := by
  obtain ⟨hlt, -⟩ := Array.getElem?_eq_some_iff.mp hn
  unfold height? record
  rw [Array.getElem?_setIfInBounds]
  by_cases hp : p = a.position
  · rw [if_pos hp, if_pos hp.symm, if_pos hlt]
    rfl
  · rw [if_neg hp, if_neg (Ne.symm hp)]

/-- A visit leaves one instruction less to be visited. -/
theorem unvisited_record {i : Instruction} {pending : List Arrival}
    (hn : st.heights[a.position]? = some none) :
    (st.record a i pending).unvisited + 1 = st.unvisited := by
  obtain ⟨hlt, hget⟩ := Array.getElem?_eq_some_iff.mp hn
  have hpos : 0 < st.heights.count none := Array.count_pos_iff.mpr (hget ▸ Array.getElem_mem hlt)
  unfold unvisited record
  rw [Array.setIfInBounds, dif_pos hlt, Array.count_set hlt, hget, if_pos (beq_self_eq_true _),
    if_neg (by simp)]
  omega

/-- A step that goes on drops an arrival whose height is recorded, or records a height for an
instruction without one. -/
theorem step_eq_ok (h : st.step s a rest = .ok st') :
    st.height? a.position = some a.height ∧ st' = { st with pending := rest } ∨
    ∃ i next, st.heights[a.position]? = some none ∧ s.code[a.position]? = some i ∧
      s.successors i a.position a.height = .ok next ∧ st' = st.record a i (next ++ rest) := by
  unfold step at h
  split at h
  · rename_i k hk
    split at h
    · rename_i heq
      cases h
      exact .inl ⟨height?_eq_some_iff.mpr (heq ▸ hk), rfl⟩
    · cases h
  · rename_i i hn hi
    split at h
    · cases h
    · rename_i next hnext
      cases h
      exact .inr ⟨i, next, hn, hi, hnext, rfl⟩
  · cases h

/-- A step that fails has met a recorded height that differs, an instruction that does not let
the arrival pass, or a position outside the section. -/
theorem step_eq_error {halt : Halt} (h : st.step s a rest = .error halt) :
    (∃ k, st.height? a.position = some k ∧ k ≠ a.height ∧
      halt = ⟨⟨.conflictingHeights, a.position⟩, st.visits⟩) ∨
    (∃ i v, st.heights[a.position]? = some none ∧ s.code[a.position]? = some i ∧
      s.successors i a.position a.height = .error v ∧
      halt = ⟨⟨v, a.position⟩, ⟨a.position, a.height, i.opcode⟩ :: st.visits⟩) ∨
    (st.heights[a.position]? = none ∨ s.code[a.position]? = none) ∧
      halt = ⟨⟨.jumpOutOfRange, a.position⟩, st.visits⟩ := by
  unfold step at h
  split at h
  · rename_i k hk
    split at h
    · cases h
    · rename_i hne
      cases h
      exact .inl ⟨k, height?_eq_some_iff.mpr hk, hne, rfl⟩
  · rename_i i hn hi
    split at h
    · rename_i v hv
      cases h
      exact .inr (.inl ⟨i, v, hn, hi, hv, rfl⟩)
    · cases h
  · rename_i hsome hnone
    cases h
    refine .inr (.inr ⟨?_, rfl⟩)
    cases hh : st.heights[a.position]? with
    | none => exact .inl rfl
    | some k =>
        cases k with
        | some k => exact absurd hh (hsome k)
        | none =>
            cases hc : s.code[a.position]? with
            | none => exact .inr rfl
            | some i => exact absurd hc (hnone i hh)

/-! ### The steps of a run -/

theorem run_nil (hp : st.pending = []) : st.run s = .ok st := by
  rw [run]
  split
  · rfl
  · rename_i hcons
    rw [hp] at hcons
    cases hcons

theorem run_cons (hp : st.pending = a :: rest) :
    st.run s = (st.step s a rest).bind fun st' => st'.run s := by
  rw [run]
  split
  · rename_i hnil
    rw [hp] at hnil
    cases hnil
  · rename_i b others hcons
    rw [hp] at hcons
    cases hcons
    split
    · rename_i hstep
      rw [hstep]
      rfl
    · rename_i hstep
      rw [hstep]
      rfl

/-! ### The invariant -/

/-- The arrival is recorded or pending. -/
def Covers (st : State) (a : Arrival) : Prop :=
  st.height? a.position = some a.height ∨ a ∈ st.pending

/-- What holds of the state of a walk at any time, in whichever order it takes arrivals in. -/
structure Consistent (s : Section) (st : State) : Prop where
  size : st.heights.size = s.code.size
  entry : st.Covers ⟨0, s.own.inputs.toNat⟩
  pending : ∀ b ∈ st.pending, s.Arrives b
  recorded : ∀ p h, st.height? p = some h → s.Arrives ⟨p, h⟩
  closed : ∀ p h, st.height? p = some h →
    ∃ next, s.Passes ⟨p, h⟩ next ∧ ∀ b ∈ next, st.Covers b
  logged : ∀ p h, st.height? p = some h ↔ ∃ v ∈ st.visits, v.position = p ∧ v.height = h

theorem height?_initial (p : Nat) : (initial s).height? p = none := by
  unfold height? initial
  rw [Array.getElem?_replicate]
  split <;> rfl

theorem consistent_initial : (initial s).Consistent s where
  size := Array.size_replicate
  entry := .inr (List.mem_singleton_self _)
  pending := by
    intro b hb
    rw [List.mem_singleton.mp hb]
    exact .entry
  recorded := by
    intro p h hh
    rw [height?_initial] at hh
    cases hh
  closed := by
    intro p h hh
    rw [height?_initial] at hh
    cases hh
  logged := by
    intro p h
    rw [height?_initial]
    simp [initial]

section step

variable {before after : List Arrival}

/-- What holds of all pending arrivals holds of the one taken in and of the others. -/
theorem forall_pending {P : Arrival → Prop} (hp : st.pending = before ++ a :: after)
    (h : ∀ b ∈ st.pending, P b) : P a ∧ ∀ b ∈ before ++ after, P b := by
  rw [hp, List.forall_mem_append, List.forall_mem_cons] at h
  rw [List.forall_mem_append]
  exact ⟨h.2.1, h.1, h.2.2⟩

/-- Nothing that is recorded or pending gets lost in a step. -/
theorem Covers.step {b : Arrival} (hb : st.Covers b) (hp : st.pending = before ++ a :: after)
    (h : st.step s a (before ++ after) = .ok st') : st'.Covers b := by
  have hmem (hm : b ∈ st.pending) : b = a ∨ b ∈ before ++ after := by
    rw [hp, List.mem_append, List.mem_cons] at hm
    rw [List.mem_append]
    exact or_left_comm.mp hm
  rcases step_eq_ok h with ⟨hrec, rfl⟩ | ⟨i, next, hn, -, -, rfl⟩
  · rcases hb with hb | hb
    · exact .inl hb
    · rcases hmem hb with rfl | hb
      · exact .inl hrec
      · exact .inr hb
  · rcases hb with hb | hb
    · left
      rw [height?_record hn, if_neg]
      · exact hb
      · intro hpos
        rw [height?_eq_some_iff, hpos, hn] at hb
        cases hb
    · rcases hmem hb with rfl | hb
      · left
        rw [height?_record hn, if_pos rfl]
      · exact .inr (List.mem_append_right _ hb)

/-- Taking in any of the pending arrivals keeps the invariant. -/
theorem Consistent.step (hc : st.Consistent s) (hp : st.pending = before ++ a :: after)
    (h : st.step s a (before ++ after) = .ok st') : st'.Consistent s := by
  obtain ⟨ha, hrest⟩ := forall_pending hp hc.pending
  have hcov {b : Arrival} (hb : st.Covers b) : st'.Covers b := hb.step hp h
  have hclosed : ∀ p k, st.height? p = some k →
      ∃ next, s.Passes ⟨p, k⟩ next ∧ ∀ b ∈ next, st'.Covers b := by
    intro p k hk
    obtain ⟨next, hpass, hnext⟩ := hc.closed p k hk
    exact ⟨next, hpass, fun b hb => hcov (hnext b hb)⟩
  refine ⟨?_, hcov hc.entry, ?_, ?_, ?_, ?_⟩ <;>
    rcases step_eq_ok h with ⟨hrec, rfl⟩ | ⟨i, next, hn, hi, hnext, rfl⟩
  · exact hc.size
  · exact Array.size_setIfInBounds.trans hc.size
  · exact hrest
  · intro b hb
    rcases List.mem_append.mp hb with hb | hb
    · exact ha.next ⟨i, hi, hnext⟩ hb
    · exact hrest b hb
  · exact hc.recorded
  · intro p k hk
    rw [height?_record hn] at hk
    split at hk
    · rename_i hpos
      cases hk
      rw [hpos]
      exact ha
    · exact hc.recorded p k hk
  · exact hclosed
  · intro p k hk
    rw [height?_record hn] at hk
    split at hk
    · rename_i hpos
      cases hk
      rw [hpos]
      exact ⟨next, ⟨i, hi, hnext⟩, fun b hb => .inr (List.mem_append_left _ hb)⟩
    · exact hclosed p k hk
  · exact hc.logged
  · intro p k
    rw [height?_record hn]
    simp only [record, List.mem_cons, exists_eq_or_imp]
    by_cases hpos : p = a.position
    · -- A first visit: nothing is recorded at this position, so no older visit is there either.
      have hnone : ¬ ∃ v ∈ st.visits, v.position = p ∧ v.height = k := by
        rw [← hc.logged, height?_eq_some_iff, hpos, hn]
        simp
      rw [if_pos hpos, or_iff_left hnone, hpos, Option.some.injEq, eq_self_iff_true, true_and]
    · rw [if_neg hpos, hc.logged]
      exact (or_iff_right fun hv => hpos hv.1.symm).symm

end step

/-! ### The end of a walk -/

/-- When nothing is pending, the recorded heights are the arrivals of the section. -/
theorem Consistent.height?_eq_some_iff_arrives (hc : st.Consistent s) (hp : st.pending = [])
    (p h : Nat) : st.height? p = some h ↔ s.Arrives ⟨p, h⟩ := by
  have hrec {b : Arrival} (hb : st.Covers b) : st.height? b.position = some b.height := by
    rcases hb with hb | hb
    · exact hb
    · rw [hp] at hb
      cases hb
  constructor
  · exact hc.recorded p h
  · intro ha
    -- Induction on the arrival: what passes at a recorded height is what the step has listed.
    generalize hb : (⟨p, h⟩ : Arrival) = b at ha
    have hall : st.height? b.position = some b.height := by
      clear hb
      induction ha with
      | entry => exact hrec hc.entry
      | next _ hpass hmem ih =>
          obtain ⟨next, hpass', hnext⟩ := hc.closed _ _ ih
          rw [hpass.unique hpass'] at hmem
          exact hrec (hnext _ hmem)
    rw [← hb] at hall
    exact hall

/-- A walk that has taken in everything shows that the section is coherent. -/
theorem Consistent.coherent (hc : st.Consistent s) (hp : st.pending = []) : s.Coherent where
  passes := by
    intro a ha
    obtain ⟨next, hpass, -⟩ := hc.closed _ _ ((hc.height?_eq_some_iff_arrives hp _ _).mpr ha)
    exact ⟨next, hpass⟩
  agree := by
    intro a b ha hb hpos
    have hra := (hc.height?_eq_some_iff_arrives hp _ _).mpr ha
    have hrb := (hc.height?_eq_some_iff_arrives hp _ _).mpr hb
    rw [hpos, hrb] at hra
    exact (Option.some.inj hra).symm

/-- A walk that fails shows that the section is not coherent. -/
theorem Consistent.not_coherent (hc : st.Consistent s) (ha : a ∈ st.pending) {halt : Halt}
    (h : st.step s a rest = .error halt) : ¬ s.Coherent := by
  intro hcoh
  have harr := hc.pending a ha
  obtain ⟨next, i, hi, hpass⟩ := hcoh.passes a harr
  rcases step_eq_error h with ⟨k, hk, hne, -⟩ | ⟨j, v, -, hj, hv, -⟩ | ⟨hnone, -⟩
  · exact hne (hcoh.agree _ _ (hc.recorded _ _ hk) harr rfl)
  · obtain rfl : i = j := Option.some.inj (hi.symm.trans hj)
    rw [hpass] at hv
    cases hv
  · rcases hnone with hnone | hnone
    · obtain ⟨hlt, -⟩ := Array.getElem?_eq_some_iff.mp hi
      rw [Array.getElem?_eq_none_iff, hc.size] at hnone
      exact absurd hlt (Nat.not_lt.mpr hnone)
    · rw [hi] at hnone
      cases hnone

/-- In a formed section a walk fails only with what a path shows. -/
theorem Consistent.ofPath_of_step (hs : s.Formed) (hc : st.Consistent s) (ha : a ∈ st.pending)
    {halt : Halt} (h : st.step s a rest = .error halt) :
    halt.failure.violation.ofPath = true := by
  have hlt := (hc.pending a ha).position_lt hs
  rcases step_eq_error h with ⟨k, -, -, rfl⟩ | ⟨i, v, -, hi, hv, rfl⟩ | ⟨hnone, -⟩
  · rfl
  · rcases Section.successors_error (hs.wellFormed _ i hi) hv with
      ⟨rfl, -⟩ | ⟨rfl, -⟩ | ⟨rfl, -⟩ <;> rfl
  · rw [Array.getElem?_eq_none_iff, Array.getElem?_eq_none_iff, hc.size] at hnone
    exact absurd hlt (Nat.not_lt.mpr (hnone.elim id id))

end State

end EofVerifier
