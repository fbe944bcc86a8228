import EofVerifier.Proofs.WalkState
import Mathlib

/-! # Walks in any order

`State.run` takes in the arrival that was added last.  Here the choice is left open: a step
may take in any pending arrival (`State.AnyStep`), and `State.Ends` relates a state to the
ends of the walks that start there, whatever they choose and on whatever grounds.
`Section.Outcome` relates a code section to the verdicts that such a walk can lead to;
`Section.verify` gives one of them (`outcome_verify`).

No walk goes on forever (`State.wellFounded_anyStep`).  Two walks through one section succeed
or fail together, because success means that the section is coherent, and when they succeed
they have recorded the same heights (`State.Ends.agree`).  So the order can only decide which
of several violations is found first, and only among those that a path shows. -/

namespace EofVerifier

namespace State

variable {s : Section} {st st' : State}

/-- A step that takes in any of the pending arrivals. -/
def AnyStep (s : Section) (st st' : State) : Prop :=
  ∃ before a after, st.pending = before ++ a :: after ∧ st.step s a (before ++ after) = .ok st'

/-- The end of a walk that starts in a state and takes arrivals in in some order. -/
inductive Ends (s : Section) : State → Except Halt State → Prop
  | done {st : State} : st.pending = [] → Ends s st (.ok st)
  | fails {st : State} (before after : List Arrival) {a : Arrival} {halt : Halt} :
      st.pending = before ++ a :: after → st.step s a (before ++ after) = .error halt →
      Ends s st (.error halt)
  | goesOn {st st' : State} {r : Except Halt State} : AnyStep s st st' → Ends s st' r → Ends s st r

/-! ### Every walk comes to an end -/

/-- No walk goes on forever. -/
theorem wellFounded_anyStep (s : Section) : WellFounded fun st' st => AnyStep s st st' := by
  let measure (st : State) : Nat × Nat := (st.unvisited, st.pending.length)
  refine Subrelation.wf (r := InvImage (Prod.Lex (· < ·) (· < ·)) measure) ?_
    (InvImage.wf measure (Prod.lex Nat.lt_wfRel Nat.lt_wfRel).wf)
  rintro st' st ⟨before, a, after, hp, h⟩
  rcases measure_step h with hlt | ⟨heq, hrest⟩
  · exact .left _ _ hlt
  · show Prod.Lex _ _ (st'.unvisited, st'.pending.length) (st.unvisited, st.pending.length)
    rw [heq, hrest, hp]
    refine .right _ ?_
    simp only [List.length_append, List.length_cons]
    omega

/-- The walk that takes in the latest arrival is one of the walks. -/
theorem ends_run (s : Section) (st : State) : Ends s st (st.run s) := by
  fun_induction run s st with
  | case1 st hp => exact .done hp
  | case2 st a rest hp halt h => exact .fails [] rest hp h
  | case3 st a rest hp st' h ih => exact .goesOn ⟨[], a, rest, hp, h⟩ ih

/-! ### What the end of a walk tells -/

/-- What every step keeps holds at the end of a walk: when nothing is pending any more, or when
an arrival fails. -/
theorem Ends.keeps {P : State → Prop} (hstep : ∀ {st st'}, P st → AnyStep s st st' → P st')
    {r : Except Halt State} (he : Ends s st r) (h : P st) :
    (∃ st' : State, r = .ok st' ∧ P st' ∧ st'.pending = []) ∨
    ∃ (halt : Halt) (st' : State) (a : Arrival) (rest : List Arrival),
      r = .error halt ∧ P st' ∧ a ∈ st'.pending ∧ st'.step s a rest = .error halt := by
  induction he with
  | done hp => exact .inl ⟨_, rfl, h, hp⟩
  | fails _ _ hp hfail => exact .inr ⟨_, _, _, _, rfl, h, by rw [hp]; simp, hfail⟩
  | goesOn hany _ ih => exact ih (hstep h hany)

theorem Consistent.anyStep (hc : st.Consistent s) (h : AnyStep s st st') : st'.Consistent s := by
  obtain ⟨before, a, after, hp, h⟩ := h
  exact hc.step hp h

/-- Every walk ends in a consistent state, with nothing pending or with an arrival that fails. -/
theorem Ends.consistent {r : Except Halt State} (he : Ends s st r) (hc : st.Consistent s) :
    (∃ st' : State, r = .ok st' ∧ st'.Consistent s ∧ st'.pending = []) ∨
    ∃ (halt : Halt) (st' : State) (a : Arrival) (rest : List Arrival),
      r = .error halt ∧ st'.Consistent s ∧ a ∈ st'.pending ∧ st'.step s a rest = .error halt :=
  he.keeps Consistent.anyStep hc

theorem Ends.consistent_of_ok (he : Ends s (initial s) (.ok st)) :
    st.Consistent s ∧ st.pending = [] := by
  rcases he.consistent consistent_initial with ⟨st', hr, hc, hp⟩ | ⟨_, _, _, _, hr, -⟩
  · cases hr
    exact ⟨hc, hp⟩
  · cases hr

/-- A walk that succeeds shows that the section is coherent. -/
theorem Ends.coherent (he : Ends s (initial s) (.ok st)) : s.Coherent :=
  he.consistent_of_ok.1.coherent he.consistent_of_ok.2

/-- The heights that a successful walk leaves are the arrivals of the section. -/
theorem Ends.height?_eq_some_iff (he : Ends s (initial s) (.ok st)) (p h : Nat) :
    st.height? p = some h ↔ s.Arrives ⟨p, h⟩ :=
  he.consistent_of_ok.1.height?_eq_some_iff_arrives he.consistent_of_ok.2 p h

/-- A walk that fails shows that the section is not coherent. -/
theorem Ends.not_coherent {halt : Halt} (he : Ends s (initial s) (.error halt)) : ¬ s.Coherent := by
  rcases he.consistent consistent_initial with ⟨_, hr, -⟩ | ⟨_, _, _, _, hr, hc, ha, h⟩
  · cases hr
  · cases hr
    exact hc.not_coherent ha h

theorem Ends.ofPath (hs : s.Formed) {halt : Halt} (he : Ends s (initial s) (.error halt)) :
    halt.failure.violation.ofPath = true := by
  rcases he.consistent consistent_initial with ⟨_, hr, -⟩ | ⟨_, _, _, _, hr, hc, ha, h⟩
  · cases hr
  · cases hr
    exact hc.ofPath_of_step hs ha h

/-- An entry of the table of heights is the height recorded at its position. -/
theorem getElem?_heights {p : Nat} (hp : p < st.heights.size) :
    st.heights[p]? = some (st.height? p) := by
  unfold height?
  rw [Array.getElem?_eq_getElem hp]
  rfl

/-- Successful walks record the same heights, in whichever order they go. -/
theorem Ends.agree (he : Ends s (initial s) (.ok st)) (he' : Ends s (initial s) (.ok st')) :
    st.heights = st'.heights := by
  have hsize := he.consistent_of_ok.1.size
  have hsize' := he'.consistent_of_ok.1.size
  refine Array.ext_getElem? fun p => ?_
  by_cases hp : p < s.code.size
  · rw [getElem?_heights (by omega), getElem?_heights (by omega)]
    refine congrArg some (Option.ext fun h => ?_)
    rw [he.height?_eq_some_iff, he'.height?_eq_some_iff]
  · rw [Array.getElem?_eq_none (by omega), Array.getElem?_eq_none (by omega)]

end State

namespace Section

variable {types : TypeSection} {index : Nat} {code : Code}

/-- The verdict on a section at the end of a walk. -/
def verdict (s : Section) : Except Halt State → Except Failure UInt16
  | .error halt => .error halt.failure
  | .ok st => s.conclude st.heights.toList

theorem walk_snd (s : Section) : s.walk.2 = s.verdict ((State.initial s).run s) := by
  unfold walk
  cases (State.initial s).run s <;> rfl

/-- The verdicts on a code section when the walk may take in the arrivals in any order. -/
def Outcome (types : TypeSection) (index : Nat) (code : Code) (r : Except Failure UInt16) : Prop :=
  match types[index]? with
  | none => r = .error ⟨.unknownSection, 0⟩
  | some own =>
    let s : Section := { code, own, types }
    if code.isEmpty then r = .error ⟨.emptySection, 0⟩
    else match s.firstMalformed? with
      | some failure => r = .error failure
      | none => ∃ e, State.Ends s (State.initial s) e ∧ r = s.verdict e

/-- What the verification answers is one of the outcomes. -/
theorem outcome_verify (types : TypeSection) (index : Nat) (code : Code) :
    Outcome types index code (verify types index code) := by
  unfold Outcome verify inspect examine
  cases types[index]? with
  | none => rfl
  | some own =>
      simp only
      cases code.isEmpty with
      | true => rfl
      | false =>
          simp only [Bool.false_eq_true, if_false]
          cases firstMalformed? ⟨code, own, types⟩ with
          | some failure => rfl
          | none => exact ⟨_, State.ends_run _ _, walk_snd _⟩

/-- Two outcomes are the same, or both are violations that a path shows. -/
theorem Outcome.agree {r r' : Except Failure UInt16} (h : Outcome types index code r)
    (h' : Outcome types index code r') :
    r = r' ∨ (∃ f, r = .error f ∧ f.violation.ofPath = true) ∧
      ∃ f, r' = .error f ∧ f.violation.ofPath = true := by
  unfold Outcome at h h'
  cases hown : types[index]? with
  | none =>
      rw [hown] at h h'
      exact .inl (h.trans h'.symm)
  | some own =>
      rw [hown] at h h'
      simp only at h h'
      cases hne : code.isEmpty with
      | true =>
          rw [if_pos hne] at h h'
          exact .inl (h.trans h'.symm)
      | false =>
          rw [if_neg (by rw [hne]; exact Bool.noConfusion)] at h h'
          cases hm : firstMalformed? ⟨code, own, types⟩ with
          | some failure =>
              rw [hm] at h h'
              exact .inl (h.trans h'.symm)
          | none =>
              rw [hm] at h h'
              have hs : Formed ⟨code, own, types⟩ := formed_iff.mpr ⟨hne, hm⟩
              obtain ⟨e, he, rfl⟩ := h
              obtain ⟨e', he', rfl⟩ := h'
              cases e with
              | ok st =>
                  cases e' with
                  | ok st' =>
                      left
                      show conclude _ st.heights.toList = conclude _ st'.heights.toList
                      rw [he.agree he']
                  | error halt' => exact absurd he.coherent he'.not_coherent
              | error halt =>
                  cases e' with
                  | ok st' => exact absurd he'.coherent he.not_coherent
                  | error halt' =>
                      exact .inr ⟨⟨_, rfl, he.ofPath hs⟩, ⟨_, rfl, he'.ofPath hs⟩⟩

/-- **The order does not matter.**  Whichever pending arrivals a walk takes in first, it comes
to an end.  When the verification accepts, or refuses for a reason that is not a path's, every
order gives the same verdict; when it refuses for what a path shows, every order does. -/
theorem outcome_independent_of_order (types : TypeSection) (index : Nat) (code : Code) :
    (∀ own, types[index]? = some own →
      WellFounded fun st' st => State.AnyStep { code, own, types } st st') ∧
    Outcome types index code (verify types index code) ∧
    ∀ r, Outcome types index code r →
      ((∀ f, verify types index code = .error f → f.violation.ofPath = false) →
        r = verify types index code) ∧
      (∀ f, verify types index code = .error f → f.violation.ofPath = true →
        ∃ f', r = .error f' ∧ f'.violation.ofPath = true) := by
  have hv := outcome_verify types index code
  refine ⟨fun own _ => State.wellFounded_anyStep _, hv, fun r hr => ⟨?_, ?_⟩⟩
  · intro hexact
    rcases hr.agree hv with heq | ⟨-, f, hf, hpath⟩
    · exact heq
    · rw [hexact f hf] at hpath
      cases hpath
  · intro f hf hpath
    rcases hr.agree hv with heq | ⟨hr', -⟩
    · exact ⟨f, heq.trans hf, hpath⟩
    · exact hr'

open Instruction in
/-- Both ways out of the branch take an item too many. -/
def forkedUnderflow : Code :=
  #[ofByte 0x5F, ofByte 0xE1 (.target 4), ofByte 0x50, ofByte 0x00, ofByte 0x50, ofByte 0x00]

/-- The walk that follows the jump last refuses the code too, but elsewhere. -/
theorem outcome_of_forkedUnderflow :
    Outcome #[⟨0, 0, 1⟩] 0 forkedUnderflow (.error ⟨.stackUnderflow, 2⟩) ∧
    ∃ f, verify #[⟨0, 0, 1⟩] 0 forkedUnderflow = .error f ∧ f.violation.ofPath = true ∧
      f ≠ ⟨.stackUnderflow, 2⟩ ∧
      ∃ f', (.error ⟨.stackUnderflow, 2⟩ : Except Failure UInt16) = .error f' ∧
        f'.violation.ofPath = true := by
  let s : Section := { code := forkedUnderflow, own := ⟨0, 0, 1⟩, types := #[⟨0, 0, 1⟩] }
  let st₁ := (State.initial s).record ⟨0, 0⟩ (.ofByte 0x5F) [⟨1, 1⟩]
  let st₂ := st₁.record ⟨1, 1⟩ (.ofByte 0xE1 (.target 4)) [⟨4, 0⟩, ⟨2, 0⟩]
  have hm : s.firstMalformed? = none := by cbv
  have h₁ : (State.initial s).step s ⟨0, 0⟩ [] = .ok st₁ := rfl
  have h₂ : st₁.step s ⟨1, 1⟩ [] = .ok st₂ := rfl
  have h₃ : st₂.step s ⟨2, 0⟩ [⟨4, 0⟩] =
    .error ⟨⟨.stackUnderflow, 2⟩, ⟨2, 0, (Instruction.ofByte 0x50).opcode⟩ :: st₂.visits⟩ := rfl
  have hends : State.Ends s (State.initial s) (.error _) :=
    .goesOn ⟨[], _, [], rfl, h₁⟩ (.goesOn ⟨[], _, [], rfl, h₂⟩ (.fails [_] [] rfl h₃))
  have ho : Outcome #[⟨0, 0, 1⟩] 0 forkedUnderflow (.error ⟨.stackUnderflow, 2⟩) := by
    unfold Outcome
    simp only [List.getElem?_toArray, List.getElem?_cons_zero]
    rw [if_neg (by decide), hm]
    exact ⟨_, hends, rfl⟩
  have hv : verify #[⟨0, 0, 1⟩] 0 forkedUnderflow = .error ⟨.stackUnderflow, 4⟩ := by cbv
  exact ⟨ho, _, hv, rfl, by decide,
    ((outcome_independent_of_order _ _ _).2.2 _ ho).2 _ hv rfl⟩

end Section

end EofVerifier
