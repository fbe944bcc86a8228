import EofVerifier.Proofs.WalkOrder

/-! # The history of a walk

`State.run` takes in the arrival that was added last until none is left.  Its states differ in
what has been taken in so far: `State.History s taken st` says that the walk through `s` is in
the state `st` when it has taken in the arrivals `taken`, the latest first.
`State.Course s taken r` says that these are all the arrivals that the walk takes in, one that
fails included, and that it ends with `r`.  The walk has such a course (`exists_course`), and
what a course ends with is what `State.run` gives (`Course.eq_run`).

There is only one way for the walk to go (`History.unique`), so of two states the one with more
arrivals taken in is the later one.  A height that is recorded stays as it is in all later states
(`History.height?_later`), and no instruction is visited twice (`History.nodup_visits`). -/

namespace EofVerifier.State

variable {s : Section} {st st' : State} {a : Arrival} {taken rest : List Arrival}
  {r : Except Halt State}

/-- The walk is in this state when it has taken in these arrivals, the latest first. -/
inductive History (s : Section) : List Arrival → State → Prop
  | start : History s [] (initial s)
  | step {taken rest : List Arrival} {st st' : State} {a : Arrival} :
      History s taken st → st.pending = a :: rest → st.step s a rest = .ok st' →
      History s (a :: taken) st'

/-- The walk takes in these arrivals, the latest first, and then it is at its end. -/
inductive Course (s : Section) : List Arrival → Except Halt State → Prop
  | done {taken : List Arrival} {st : State} :
      History s taken st → st.pending = [] → Course s taken (.ok st)
  | fails {taken rest : List Arrival} {st : State} {a : Arrival} {halt : Halt} :
      History s taken st → st.pending = a :: rest → st.step s a rest = .error halt →
      Course s (a :: taken) (.error halt)

/-! ### The course of the run -/

theorem History.unique (h : History s taken st) (h' : History s taken st') : st = st' := by
  induction h generalizing st' with
  | start => cases h'; rfl
  | step _ hp hstep ih =>
    cases h' with
    | step h' hp' hstep' =>
      obtain rfl := ih h'
      obtain ⟨-, rfl⟩ := List.cons.inj (hp.symm.trans hp')
      exact Except.ok.inj (hstep.symm.trans hstep')

/-- What the run gives is what is left of it gives. -/
theorem History.run_eq (h : History s taken st) : (initial s).run s = st.run s := by
  induction h with
  | start => rfl
  | step _ hp hstep ih =>
    rw [ih, run_cons hp, hstep]
    rfl

/-- From every state that the walk is in it goes on to an end. -/
theorem History.exists_course (h : History s taken st) :
    ∃ all, Course s all (st.run s) := by
  fun_induction run s st generalizing taken with
  | case1 st hp => exact ⟨taken, .done h hp⟩
  | case2 st a rest hp halt hstep => exact ⟨a :: taken, .fails h hp hstep⟩
  | case3 st a rest hp st' hstep ih => exact ih (h.step hp hstep)

/-- The walk comes to an end. -/
theorem exists_course (s : Section) : ∃ taken, Course s taken ((initial s).run s) :=
  History.start.exists_course

theorem Course.eq_run (h : Course s taken r) : r = (initial s).run s := by
  cases h with
  | done hh hp => rw [hh.run_eq, run_nil hp]
  | fails hh hp hstep =>
    rw [hh.run_eq, run_cons hp, hstep]
    rfl

/-! ### What the steps keep -/

/-- What holds at the start and is kept by every step holds in every state of the walk. -/
theorem History.keeps {P : State → Prop} (hstart : P (initial s))
    (hstep : ∀ {st st'}, P st → AnyStep s st st' → P st') (h : History s taken st) : P st := by
  induction h with
  | start => exact hstart
  | step _ hp hs ih => exact hstep ih ⟨[], _, _, hp, hs⟩

theorem History.consistent (h : History s taken st) : st.Consistent s :=
  h.keeps consistent_initial Consistent.anyStep

/-- A step leaves the recorded heights as they are. -/
theorem height?_step {p k : Nat} (h : st.step s a rest = .ok st') (hk : st.height? p = some k) :
    st'.height? p = some k := by
  rcases step_eq_ok h with ⟨-, rfl⟩ | ⟨i, next, hn, -, -, rfl⟩
  · exact hk
  · rw [height?_record hn, if_neg]
    · exact hk
    · rintro rfl
      rw [height?_eq_some_iff, hn] at hk
      cases hk

/-- What is recorded is recorded in all later states, with the same height. -/
theorem History.height?_later {later : List Arrival} {p k : Nat} (h : History s taken st)
    (h' : History s (later ++ taken) st') (hk : st.height? p = some k) :
    st'.height? p = some k := by
  induction later generalizing st' with
  | nil =>
    obtain rfl := h.unique h'
    exact hk
  | cons a later ih =>
    rw [List.cons_append] at h'
    cases h' with
    | step h' _ hstep => exact height?_step hstep (ih h')

theorem Consistent.position_lt (hs : s.Formed) (hc : st.Consistent s) {v : Visit}
    (hv : v ∈ st.visits) : v.position < s.code.size := by
  have hrecorded := (hc.logged v.position v.height).mpr ⟨v, hv, rfl, rfl⟩
  exact (hc.recorded _ _ hrecorded).position_lt hs

/-- An instruction without a height has not been visited. -/
theorem Consistent.notMem_visits (hc : st.Consistent s) {p : Nat}
    (hn : st.heights[p]? = some none) : p ∉ st.visits.map (·.position) := by
  intro hm
  obtain ⟨v, hv, rfl⟩ := List.mem_map.mp hm
  have hh := (hc.logged v.position v.height).mpr ⟨v, hv, rfl, rfl⟩
  rw [height?_eq_some_iff, hn] at hh
  cases hh

/-- No instruction is visited twice. -/
theorem History.nodup_visits (h : History s taken st) :
    (st.visits.map (·.position)).Nodup := by
  induction h with
  | start => exact List.nodup_nil
  | step h _ hstep ih =>
    rcases step_eq_ok hstep with ⟨-, rfl⟩ | ⟨i, next, hn, -, -, rfl⟩
    · exact ih
    · exact List.nodup_cons.mpr ⟨h.consistent.notMem_visits hn, ih⟩

end EofVerifier.State
