import EofVerifier.Proofs.FinalChecks

/-! # What a walk takes from runs

A run prefix goes along the control flow from the first instruction and keeps count of the
stack: it starts with the inputs, leaves an instruction only with enough items for it, and has
exactly the items behind it that the instruction leaves (`Section.RunsTo`).  Nothing in it
depends on recorded heights, on the checks that a walk makes, or on a word size.

Every height that a walk records or has pending is the height of a run prefix.  The heights of a
walk are 64-bit words, and they are exact because they are small: with every visit they can grow
by 255 items, and no instruction is visited twice (`State.Traced`).  So when a walk has taken in
everything, the run prefixes are what it has recorded (`State.Ends.runsTo_iff_arrives`). -/

namespace EofVerifier

namespace Section

open Relation (ReflTransGen)

/-- Some run prefix arrives like this. -/
inductive RunsTo (s : Section) : Arrival → Prop
  | entry : RunsTo s ⟨0, s.own.inputs.toNat⟩
  | next {a : Arrival} {i : Instruction} {q : Nat} :
      RunsTo s a → s.code[a.position]? = some i → s.pops i ≤ a.height → i.Leads a.position q →
      RunsTo s ⟨q, a.height - s.pops i + s.pushes i⟩

variable {s : Section}

theorem RunsTo.reachable {a : Arrival} (h : s.RunsTo a) : ReflTransGen s.Edge 0 a.position := by
  induction h with
  | entry => exact .refl
  | next _ hi _ hl ih => exact ih.tail ⟨_, hi, hl⟩

/-- Heights that are within the bound for code of this size are exact. -/
def Fits (s : Section) : Prop := 255 * (s.code.size + 1) < 2 ^ 63

theorem Fits.heightAfter_eq (hf : s.Fits) {i : Instruction} {h : Nat} (hp : s.pops i ≤ h)
    (hle : h ≤ 255 * (s.code.size + 1)) : s.heightAfter i h = h - s.pops i + s.pushes i := by
  refine Section.heightAfter_eq hp ?_
  have hpush := s.pushes_lt i
  have hsize : UInt64.size = 18446744073709551616 := rfl
  unfold Fits at hf
  omega

end Section

namespace State

variable {s : Section} {st st' : State} {a : Arrival}

/-- What a walk records and has pending are run prefixes, and their heights have grown by 255
items at most with each visit. -/
structure Traced (s : Section) (st : State) : Prop where
  count : st.visits.length + st.unvisited = s.code.size
  pending : ∀ b ∈ st.pending, s.RunsTo b ∧ b.height ≤ 255 * (st.visits.length + 1)
  recorded : ∀ p h, st.height? p = some h →
    s.RunsTo ⟨p, h⟩ ∧ h ≤ 255 * (st.visits.length + 1)

theorem traced_initial : (initial s).Traced s where
  count := by
    unfold unvisited initial
    rw [List.length_nil, Nat.zero_add, Array.count_replicate_self]
  pending := by
    intro b hb
    rw [List.mem_singleton.mp hb]
    have hlt := s.own.inputs.toNat_lt
    exact ⟨.entry, by simp only [initial, List.length_nil]; omega⟩
  recorded := by
    intro p h hh
    rw [height?_initial] at hh
    cases hh

/-- Taking in any of the pending arrivals keeps the invariant. -/
theorem Traced.anyStep (hs : s.Formed) (hf : s.Fits) (ht : st.Traced s)
    (h : AnyStep s st st') : st'.Traced s := by
  obtain ⟨before, a, after, hp, h⟩ := h
  obtain ⟨⟨hrun, hle⟩, hrest⟩ := forall_pending hp ht.pending
  rcases step_eq_ok h with ⟨-, rfl⟩ | ⟨i, next, hn, hi, hnext, rfl⟩
  · exact ⟨ht.count, hrest, ht.recorded⟩
  · have hcount := ht.count
    have hunvisited : (st.record a i (next ++ (before ++ after))).unvisited + 1 = st.unvisited :=
      unvisited_record hn
    have hvisits : (st.record a i (next ++ (before ++ after))).visits.length =
        st.visits.length + 1 := rfl
    refine ⟨by omega, ?_, ?_⟩
    · intro b hb
      rw [hvisits]
      rcases List.mem_append.mp hb with hb | hb
      · obtain ⟨hadm, rfl⟩ := (Section.successors_eq_ok_iff (hs.wellFormed _ i hi)).mp hnext
        obtain ⟨hl, hheight⟩ := Section.mem_arrivalsAfter_iff.mp hb
        have hpush := s.pushes_lt i
        rw [hf.heightAfter_eq hadm.pops (by omega)] at hheight
        have hb : s.RunsTo ⟨b.position, _⟩ := hrun.next hi hadm.pops hl
        rw [← hheight] at hb
        exact ⟨hb, by omega⟩
      · obtain ⟨hb, hle⟩ := hrest b hb
        exact ⟨hb, by omega⟩
    · intro p k hk
      rw [height?_record hn] at hk
      rw [hvisits]
      split at hk
      · rename_i hpos
        cases hk
        rw [hpos]
        exact ⟨hrun, by omega⟩
      · obtain ⟨hk, hle⟩ := ht.recorded p k hk
        exact ⟨hk, by omega⟩

/-- Both invariants hold at the end of a walk. -/
theorem Ends.traced (hs : s.Formed) (hf : s.Fits) {r : Except Halt State}
    (he : Ends s (initial s) r) :
    (∃ st' : State, r = .ok st' ∧ (st'.Consistent s ∧ st'.Traced s) ∧ st'.pending = []) ∨
    ∃ (halt : Halt) (st' : State) (a : Arrival) (rest : List Arrival),
      r = .error halt ∧ (st'.Consistent s ∧ st'.Traced s) ∧ a ∈ st'.pending ∧
        st'.step s a rest = .error halt :=
  he.keeps (fun h hstep => ⟨h.1.anyStep hstep, h.2.anyStep hs hf hstep⟩)
    ⟨consistent_initial, traced_initial⟩

/-- When a walk has taken in everything, run prefixes arrive like paths of the walk. -/
theorem Ends.runsTo_iff_arrives (hs : s.Formed) (hf : s.Fits)
    (he : Ends s (initial s) (.ok st)) : s.RunsTo a ↔ s.Arrives a := by
  rcases he.traced hs hf with ⟨st', hr, ⟨-, ht⟩, -⟩ | ⟨_, _, _, _, hr, -⟩
  · cases hr
    have hrecorded {b : Arrival} (hb : s.Arrives b) :
        s.RunsTo b ∧ b.height ≤ 255 * (s.code.size + 1) := by
      have hcount := ht.count
      obtain ⟨hrun, hle⟩ := ht.recorded _ _ ((he.height?_eq_some_iff _ _).mpr hb)
      exact ⟨hrun, by omega⟩
    refine ⟨fun hrun => ?_, fun ha => (hrecorded ha).1⟩
    -- Induction on the run prefix: the walk goes on behind each of its instructions.
    induction hrun with
    | entry => exact .entry
    | @next b i q _ hi hpops hl ih =>
      obtain ⟨next, j, hj, hpass⟩ := he.coherent.passes _ ih
      obtain rfl : i = j := Option.some.inj (hi.symm.trans hj)
      obtain ⟨-, rfl⟩ := (Section.successors_eq_ok_iff (hs.wellFormed _ i hi)).mp hpass
      refine ih.next ⟨i, hi, hpass⟩ (Section.mem_arrivalsAfter_iff.mpr ⟨hl, ?_⟩)
      exact (hf.heightAfter_eq hpops (hrecorded ih).2).symm
  · cases hr

end State

end EofVerifier
