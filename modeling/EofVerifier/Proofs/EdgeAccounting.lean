import EofVerifier.Proofs.DepthFirst
import EofVerifier.Proofs.WalkHistory

/-! # Every edge once

How often a walk takes something in is a matter of the section's graph.  Here the graph is a list
of edges, in which a jump stands as often as its operand names it (`Section.edges`).  When an
instruction is visited, one arrival for each edge that leaves it becomes pending
(`Section.arrivalsFrom`), and nothing else ever does.  So at any time the arrivals taken in and
the pending ones, together, are the entry and the arrivals from the visited instructions
(`State.History.perm`).  No instruction is visited twice, so there are never more of them than the
entry and one for each edge of the section; and when nothing is pending, each edge that leaves a
visited instruction has been taken in once, and the height there is the one recorded
(`State.History.height?_of_mem`). -/

namespace EofVerifier

namespace Section

variable {s : Section} {i : Instruction} {p q h : Nat}

/-- The positions that the instruction at `p` leads to, jump targets as often as they are
written. -/
def successorsOf (s : Section) (p : Nat) : List Nat :=
  (s.code[p]?.elim [] (·.following p)).filter (· < s.code.size)

/-- The edges of the section's graph, jumps as often as they are written. -/
def edges (s : Section) : List (Nat × Nat) :=
  (List.range s.code.size).flatMap fun p => (s.successorsOf p).map (p, ·)

/-- The arrivals along the edges that leave a visited instruction. -/
def arrivalsFrom (s : Section) (v : Visit) : List Arrival :=
  s.code[v.position]?.elim [] fun i =>
    (s.successorsOf v.position).map (⟨·, s.heightAfter i v.height⟩)

/-! ### The edges -/

theorem mem_following_iff : q ∈ i.following p ↔ i.Leads p q := by
  unfold Instruction.following Instruction.Leads
  rw [List.mem_append]
  cases i.opcode.flow.fallsThrough <;> simp

theorem mem_successorsOf_iff : q ∈ s.successorsOf p ↔ s.Edge p q ∧ q < s.code.size := by
  unfold successorsOf Edge
  rw [List.mem_filter, decide_eq_true_iff]
  cases s.code[p]? with
  | none => simp
  | some i => simp [mem_following_iff]

/-- The listed edges are those of the graph that end in the section. -/
theorem mem_edges_iff : (p, q) ∈ s.edges ↔ s.Edge p q ∧ q < s.code.size := by
  unfold edges
  simp only [List.mem_flatMap, List.mem_range, List.mem_map, Prod.mk.injEq,
    mem_successorsOf_iff]
  constructor
  · rintro ⟨_, -, _, hq, rfl, rfl⟩
    exact hq
  · intro hq
    obtain ⟨i, hi, -⟩ := hq.1
    exact ⟨p, (Array.getElem?_eq_some_iff.mp hi).1, q, hq, rfl, rfl⟩

theorem length_edges :
    s.edges.length = ((List.range s.code.size).map fun p => (s.successorsOf p).length).sum := by
  unfold edges
  simp only [List.length_flatMap, List.length_map]

theorem length_arrivalsFrom (v : Visit) :
    (s.arrivalsFrom v).length = (s.successorsOf v.position).length := by
  unfold arrivalsFrom
  cases hi : s.code[v.position]? with
  | none => simp [successorsOf, hi]
  | some i => simp

/-- What becomes pending at a visit are the arrivals along its edges. -/
theorem arrivalsAfter_eq_arrivalsFrom (hs : s.Formed) (hi : s.code[p]? = some i)
    (hadm : s.Admits i p h) :
    s.arrivalsAfter i p h = s.arrivalsFrom ⟨p, h, i.opcode⟩ := by
  have hinside : ∀ q ∈ i.following p, q < s.code.size := by
    intro q hq
    rcases mem_following_iff.mp hq with ht | ⟨hf, rfl⟩
    · exact (hs.wellFormed p i hi).targets q ht
    · exact hadm.inside hf
  have hall : s.successorsOf p = i.following p := by
    unfold successorsOf
    rw [hi, Option.elim_some, List.filter_eq_self]
    exact fun q hq => decide_eq_true (hinside q hq)
  unfold arrivalsFrom
  rw [hi, Option.elim_some, hall, arrivalsAfter_eq_map]

/-- Distinct positions do not have more edges than all positions have. -/
theorem sum_le_of_nodup {l : List Nat} {n : Nat} (hl : l.Nodup) (hlt : ∀ p ∈ l, p < n)
    (f : Nat → Nat) : (l.map f).sum ≤ ((List.range n).map f).sum := by
  obtain ⟨l', hperm, hsub⟩ := hl.subperm fun p hp => List.mem_range.mpr (hlt p hp)
  rw [← (hperm.map f).sum_eq]
  exact (hsub.map f).sum_le_sum fun _ _ => Nat.zero_le _

end Section

namespace State

open scoped List

variable {s : Section} {st : State} {a : Arrival} {taken : List Arrival} {r : Except Halt State}

/-! ### The account of a walk -/

/-- What has been taken in and what is pending, together, are the entry and the arrivals from
the visited instructions. -/
theorem History.perm (hs : s.Formed) (h : History s taken st) :
    (taken ++ st.pending).Perm
      (⟨0, s.own.inputs.toNat⟩ :: st.visits.flatMap s.arrivalsFrom) := by
  induction h with
  | start => exact .refl _
  | @step taken rest st st' a h hp hstep ih =>
    rw [hp] at ih
    rcases step_eq_ok hstep with ⟨-, rfl⟩ | ⟨i, next, hn, hi, hnext, rfl⟩
    -- The arrival was recorded already: it only changes its place.
    · exact List.perm_middle.symm.trans ih
    -- A visit: the arrivals from the instruction are new on both sides.
    · obtain ⟨hadm, rfl⟩ := (Section.successors_eq_ok_iff (hs.wellFormed _ i hi)).mp hnext
      rw [Section.arrivalsAfter_eq_arrivalsFrom hs hi hadm]
      generalize hv : (⟨a.position, a.height, i.opcode⟩ : Visit) = v
      have hvisits : (st.record a i (s.arrivalsFrom v ++ rest)).visits = v :: st.visits := by
        rw [← hv]
        rfl
      rw [hvisits, List.flatMap_cons]
      calc a :: taken ++ (s.arrivalsFrom v ++ rest)
          _ ~ s.arrivalsFrom v ++ (a :: taken ++ rest) := List.perm_append_comm_assoc _ _ _
          _ ~ s.arrivalsFrom v ++ (taken ++ a :: rest) := List.perm_middle.symm.append_left _
          _ ~ s.arrivalsFrom v ++ ⟨0, s.own.inputs.toNat⟩ :: st.visits.flatMap s.arrivalsFrom :=
            ih.append_left _
          _ ~ _ := List.perm_middle

/-- What has been taken in has the height that is recorded at its position. -/
theorem History.height?_of_mem (h : History s taken st) (ha : a ∈ taken) :
    st.height? a.position = some a.height := by
  induction h with
  | start => cases ha
  | step h hp hstep ih =>
    rcases List.mem_cons.mp ha with rfl | ha
    · rcases step_eq_ok hstep with ⟨hrec, rfl⟩ | ⟨i, next, hn, -, -, rfl⟩
      · exact hrec
      · rw [height?_record hn, if_pos rfl]
    · exact height?_step hstep (ih ha)

theorem History.length_taken (hs : s.Formed) (h : History s taken st) :
    taken.length + st.pending.length =
      1 + (st.visits.map fun v => (s.successorsOf v.position).length).sum := by
  rw [← List.length_append, (h.perm hs).length_eq, List.length_cons, List.length_flatMap]
  simp only [Section.length_arrivalsFrom]
  omega

/-- What has been taken in and what is pending, together, is bounded by the graph. -/
theorem History.length_le (hs : s.Formed) (h : History s taken st) :
    taken.length + st.pending.length ≤ 1 + s.edges.length := by
  have hinside : ∀ p ∈ st.visits.map (·.position), p < s.code.size := by
    intro p hp
    obtain ⟨v, hv, rfl⟩ := List.mem_map.mp hp
    exact h.consistent.position_lt hs hv
  have hle := Section.sum_le_of_nodup h.nodup_visits hinside fun p => (s.successorsOf p).length
  rw [List.map_map] at hle
  rw [h.length_taken hs, Section.length_edges]
  exact Nat.add_le_add_left hle 1

/-- A walk takes in at most the entry and one arrival for each edge. -/
theorem Course.length_le (hs : s.Formed) (h : Course s taken r) :
    taken.length ≤ 1 + s.edges.length := by
  cases h with
  | done hh hp =>
    have hle := hh.length_le hs
    omega
  | fails hh hp _ =>
    have hle := hh.length_le hs
    rw [hp, List.length_cons] at hle
    rw [List.length_cons]
    omega

end State

namespace Section

/-- **The walk ends, and takes in every edge once.**  No height is recorded twice or changed.
What is taken in, up to the end or to a failure, is not more than the entry and one arrival for
each edge of the section.  When nothing fails, it is the entry and one arrival for each edge that
leaves a visited instruction, and each has the height that is recorded at its position. -/
theorem walk_takes_edges_once {types : TypeSection} {index : Nat} {code : Code} {own : Signature}
    (hown : types[index]? = some own) (hne : code.isEmpty = false)
    (hm : firstMalformed? { code, own, types } = none) :
    let s : Section := { code, own, types }
    verify types index code = s.verdict ((State.initial s).run s) ∧
    (∃ taken, State.Course s taken ((State.initial s).run s)) ∧
    (∀ taken st, State.History s taken st →
      (st.visits.map (·.position)).Nodup ∧
      (∀ p k, st.height? p = some k ↔ ∃ v ∈ st.visits, v.position = p ∧ v.height = k) ∧
      ∀ later st', State.History s (later ++ taken) st' →
        ∀ p k, st.height? p = some k → st'.height? p = some k) ∧
    ∀ taken r, State.Course s taken r →
      r = (State.initial s).run s ∧ taken.length ≤ 1 + s.edges.length ∧
      ∀ st, r = .ok st →
        taken.length = 1 + (st.visits.map fun v => (s.successorsOf v.position).length).sum ∧
        taken.Perm (⟨0, own.inputs.toNat⟩ :: st.visits.flatMap s.arrivalsFrom) ∧
        ∀ a ∈ taken, st.height? a.position = some a.height := by
  intro s
  have hs : s.Formed := formed_iff.mpr ⟨hne, hm⟩
  refine ⟨?_, State.exists_course s, fun taken st h => ?_, fun taken r h => ?_⟩
  · rw [verify_of_listed hown, examine_of_formed hs, walk_snd]
  · exact ⟨h.nodup_visits, h.consistent.logged, fun later st' h' p k => h.height?_later h'⟩
  · refine ⟨h.eq_run, h.length_le hs, fun st hr => ?_⟩
    cases h with
    | fails => cases hr
    | done hh hp =>
      cases hr
      have hlength := hh.length_taken hs
      have hperm := hh.perm hs
      rw [hp, List.length_nil, Nat.add_zero] at hlength
      rw [hp, List.append_nil] at hperm
      exact ⟨hlength, hperm, fun a ha => hh.height?_of_mem ha⟩

/-- The walk through the counting loop takes in the entry and each of the seven edges, the one
that closes the loop included. -/
theorem walk_takes_edges_once_countingLoop :
    (#[⟨0, 0, 2⟩] : TypeSection)[0]? = some ⟨0, 0, 2⟩ ∧ countingLoop.isEmpty = false ∧
    firstMalformed? { code := countingLoop, own := ⟨0, 0, 2⟩, types := #[⟨0, 0, 2⟩] } = none ∧
    ∃ taken st, State.Course { code := countingLoop, own := ⟨0, 0, 2⟩, types := #[⟨0, 0, 2⟩] }
      taken (.ok st) ∧ taken.length = 8 := by
  let s : Section := { code := countingLoop, own := ⟨0, 0, 2⟩, types := #[⟨0, 0, 2⟩] }
  have hown : (#[⟨0, 0, 2⟩] : TypeSection)[0]? = some ⟨0, 0, 2⟩ := rfl
  have hne : countingLoop.isEmpty = false := by decide
  have hm : s.firstMalformed? = none := by cbv
  have hvisits : ((State.initial s).run s).toOption.map (·.visits.map (·.position)) =
    some [3, 6, 5, 4, 2, 1, 0] := by cbv
  obtain ⟨-, ⟨taken, hcourse⟩, -, htaken⟩ := walk_takes_edges_once hown hne hm
  obtain ⟨st, hst, hpositions⟩ := Option.map_eq_some_iff.mp hvisits
  have hrun : (State.initial s).run s = .ok st := by
    cases hr : (State.initial s).run s with
    | error halt => rw [hr] at hst; cases hst
    | ok st' => rw [hr] at hst; cases hst; rfl
  obtain ⟨-, -, hok⟩ := htaken taken _ hcourse
  obtain ⟨hlength, -⟩ := hok st hrun
  refine ⟨hown, hne, hm, taken, st, hrun ▸ hcourse, ?_⟩
  have hsum : (st.visits.map fun v => (s.successorsOf v.position).length) =
      (st.visits.map (·.position)).map fun p => (s.successorsOf p).length := by
    rw [List.map_map]
    rfl
  rw [hlength, hsum, hpositions]
  decide +kernel

end Section

end EofVerifier
