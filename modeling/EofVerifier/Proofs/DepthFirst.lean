import EofVerifier.Proofs.FinalChecks

/-! # The walk is a depth-first search

The walk keeps the arrivals that it has still to take in, the latest first, and takes in one of
them at a time.  `Section.explore` does without such a list: it is the recursive search that
visits an instruction, goes on to the jump targets as they are written, each with all that lies
behind it, and then to the next instruction.  The visits made so far are all that it remembers,
the latest first, and they only get more (`Section.Longer`); the height of an instruction is the
one that it has been visited with (`Section.heightIn?`).

A pending arrival of the walk is a call that the search has still to make.  `State.run_explore`
says so for one call: to take in an arrival and all that comes of it, before the arrivals that
were pending already, is to explore from there and then to go on with the others. -/

namespace EofVerifier

/-- The instructions that follow, in the order in which they are explored: the jump targets as
they are written, then the next instruction. -/
def Instruction.following (i : Instruction) (p : Nat) : List Nat :=
  i.jumpTargets ++ if i.opcode.flow.fallsThrough then [p + 1] else []

namespace Section

variable {s : Section} {log log' : List Visit} {i : Instruction} {p h : Nat}

/-- The height that the instruction at `p` has been visited with, if it has. -/
def heightIn? (log : List Visit) (p : Nat) : Option Nat :=
  (log.find? (·.position = p)).map (·.height)

/-- The visits of `log`, and then perhaps some more. -/
def Longer (log : List Visit) : Type := { log' : List Visit // log <:+ log' }

/-- Number of instructions without a visit. -/
def unexplored (s : Section) (log : List Visit) : Nat :=
  ((Finset.range s.code.size).filter fun p => heightIn? log p = none).card

theorem heightIn?_cons (v : Visit) (log : List Visit) (p : Nat) :
    heightIn? (v :: log) p = if v.position = p then some v.height else heightIn? log p := by
  unfold heightIn?
  rw [List.find?_cons]
  by_cases hp : v.position = p
  · rw [if_pos hp, decide_eq_true hp]
    rfl
  · rw [if_neg hp, decide_eq_false hp]

theorem heightIn?_of_suffix (hl : log <:+ log') (hp : heightIn? log' p = none) :
    heightIn? log p = none := by
  unfold heightIn? at hp ⊢
  rw [Option.map_eq_none_iff, List.find?_eq_none] at hp ⊢
  exact fun v hv => hp v (hl.mem hv)

theorem unexplored_le (hl : log <:+ log') : s.unexplored log' ≤ s.unexplored log :=
  Finset.card_le_card (Finset.monotone_filter_right _ fun _ _ hp => heightIn?_of_suffix hl hp)

/-- The first visit of an instruction leaves fewer without one. -/
theorem unexplored_cons_lt (hi : s.code[p]? = some i) (hp : heightIn? log p = none) (h : Nat) :
    s.unexplored (⟨p, h, i.opcode⟩ :: log) < s.unexplored log := by
  obtain ⟨hlt, -⟩ := Array.getElem?_eq_some_iff.mp hi
  have hsub : ((Finset.range s.code.size).filter fun q =>
      heightIn? (⟨p, h, i.opcode⟩ :: log) q = none) ⊆
      (Finset.range s.code.size).filter fun q => heightIn? log q = none :=
    Finset.monotone_filter_right _ fun _ _ hq => heightIn?_of_suffix (List.suffix_cons _ _) hq
  apply Finset.card_lt_card
  refine (Finset.ssubset_iff_of_subset hsub).mpr ⟨p, ?_, ?_⟩
  · exact Finset.mem_filter.mpr ⟨Finset.mem_range.mpr hlt, hp⟩
  · rw [Finset.mem_filter, heightIn?_cons, if_pos rfl]
    exact fun hmem => nomatch hmem.2

mutual

/-- Searches from the instruction at `p`, entered with height `h`. -/
def explore (s : Section) (log : List Visit) (p h : Nat) : Except Halt (Longer log) :=
  match _hi : s.code[p]?, _hp : heightIn? log p with
  | none, _ => .error ⟨⟨.jumpOutOfRange, p⟩, log⟩
  | some _, some recorded =>
    if recorded = h then .ok ⟨log, List.suffix_rfl⟩
    else .error ⟨⟨.conflictingHeights, p⟩, log⟩
  | some i, none =>
    let visited := ⟨p, h, i.opcode⟩ :: log
    let flow := i.opcode.flow
    if h < s.pops i then .error ⟨⟨.stackUnderflow, p⟩, visited⟩
    else if flow = .leave ∧ h ≠ s.own.outputs.toNat then .error ⟨⟨.returnArity, p⟩, visited⟩
    else if flow.terminates then .ok ⟨visited, List.suffix_cons _ _⟩
    else if flow.fallsThrough ∧ s.code.size ≤ p + 1 then .error ⟨⟨.fallsOffEnd, p⟩, visited⟩
    else do
      let ⟨later, hl⟩ ← exploreAll s visited (s.heightAfter i h) (i.following p)
      return ⟨later, (List.suffix_cons _ _).trans hl⟩
termination_by (s.unexplored log, 0)
decreasing_by exact .left _ _ (unexplored_cons_lt _hi _hp h)

/-- Searches from several instructions, one after the other, each entered with height `h`. -/
def exploreAll (s : Section) (log : List Visit) (h : Nat) : List Nat → Except Halt (Longer log)
  | [] => .ok ⟨log, List.suffix_rfl⟩
  | p :: ps => do
    let ⟨later, hl⟩ ← explore s log p h
    let ⟨last, hl'⟩ ← exploreAll s later h ps
    return ⟨last, hl.trans hl'⟩
termination_by ps => (s.unexplored log, ps.length + 1)
decreasing_by
  · exact .right _ (Nat.succ_pos _)
  · rcases Nat.lt_or_eq_of_le (unexplored_le hl) with hlt | heq
    · exact .left _ _ hlt
    · rw [heq]
      exact .right _ (Nat.lt_succ_self _)

end

/-- The visits of the search from the first instruction, and the verdict: what the search fails
with, or else what is wrong with the heights that it has found. -/
def search (s : Section) : List Visit × Except Failure UInt16 :=
  match explore s [] 0 s.own.inputs.toNat with
  | .error halt => (halt.visits.reverse, .error halt.failure)
  | .ok ⟨log, _⟩ => (log.reverse, s.judge (heightIn? log))

/-! ### One call of the search -/

theorem explore_of_outside (hi : s.code[p]? = none) :
    explore s log p h = .error ⟨⟨.jumpOutOfRange, p⟩, log⟩ := by
  rw [explore]
  split
  · rfl
  · rename_i hj _
    cases hi.symm.trans hj
  · rename_i hj _
    cases hi.symm.trans hj

theorem explore_of_visited (hi : s.code[p]? = some i) {k : Nat} (hp : heightIn? log p = some k) :
    explore s log p h =
      if k = h then .ok ⟨log, List.suffix_rfl⟩ else .error ⟨⟨.conflictingHeights, p⟩, log⟩ := by
  rw [explore]
  split
  · rename_i hj
    cases hi.symm.trans hj
  · rename_i recorded _ hrecorded
    obtain rfl : k = recorded := Option.some.inj (hp.symm.trans hrecorded)
    rfl
  · rename_i hnone
    cases hp.symm.trans hnone

theorem explore_of_unvisited (hi : s.code[p]? = some i) (hp : heightIn? log p = none) :
    explore s log p h =
      let visited := ⟨p, h, i.opcode⟩ :: log
      if h < s.pops i then .error ⟨⟨.stackUnderflow, p⟩, visited⟩
      else if i.opcode.flow = .leave ∧ h ≠ s.own.outputs.toNat then
        .error ⟨⟨.returnArity, p⟩, visited⟩
      else if i.opcode.flow.terminates then .ok ⟨visited, List.suffix_cons _ _⟩
      else if i.opcode.flow.fallsThrough ∧ s.code.size ≤ p + 1 then
        .error ⟨⟨.fallsOffEnd, p⟩, visited⟩
      else (exploreAll s visited (s.heightAfter i h) (i.following p)).map fun later =>
        ⟨later.1, (List.suffix_cons _ _).trans later.2⟩ := by
  rw [explore]
  split
  · rename_i hj
    cases hi.symm.trans hj
  · rename_i hsome
    cases hp.symm.trans hsome
  · rename_i j hj _
    obtain rfl : i = j := Option.some.inj (hi.symm.trans hj)
    rfl

theorem arrivalsAfter_eq_map : s.arrivalsAfter i p h =
    (i.following p).map (⟨·, s.heightAfter i h⟩) := by
  unfold arrivalsAfter Instruction.following
  rw [List.map_append, apply_ite (List.map _)]
  rfl

end Section

namespace State

variable {s : Section} {st : State} {log : List Visit} {i : Instruction} {a : Arrival}
  {rest : List Arrival}

/-- The state of a walk that has made these visits. -/
def ofLog (s : Section) (log : List Visit) (pending : List Arrival) : State :=
  { heights := (Array.range s.code.size).map (Section.heightIn? log)
    pending
    visits := log }

theorem getElem?_heights_ofLog {p : Nat} (hi : s.code[p]? = some i) :
    (ofLog s log rest).heights[p]? = some (Section.heightIn? log p) := by
  obtain ⟨hlt, -⟩ := Array.getElem?_eq_some_iff.mp hi
  unfold ofLog
  rw [Array.getElem?_map, Array.getElem?_range, if_pos hlt]
  rfl

/-- To record a height is to add a visit. -/
theorem record_ofLog (pending : List Arrival) :
    (ofLog s log pending).record a i rest =
      ofLog s (⟨a.position, a.height, i.opcode⟩ :: log) rest := by
  unfold record ofLog
  congr 1
  apply Array.ext_getElem?
  intro p
  simp only [Array.getElem?_setIfInBounds, Array.getElem?_map, Array.getElem?_range,
    Array.size_map, Array.size_range]
  by_cases hp : a.position = p
  · subst hp
    by_cases hlt : a.position < s.code.size <;> simp [hlt, Section.heightIn?_cons]
  · by_cases hlt : p < s.code.size <;> simp [hlt, hp, Section.heightIn?_cons]

theorem step_of_outside {pending : List Arrival} (hi : s.code[a.position]? = none) :
    (ofLog s log pending).step s a rest = .error ⟨⟨.jumpOutOfRange, a.position⟩, log⟩ := by
  have hle := Array.getElem?_eq_none_iff.mp hi
  unfold step ofLog
  rw [Array.getElem?_map, Array.getElem?_range, if_neg (Nat.not_lt.mpr hle)]
  rfl

theorem step_of_visited {pending : List Arrival} (hi : s.code[a.position]? = some i) {k : Nat}
    (hp : Section.heightIn? log a.position = some k) :
    (ofLog s log pending).step s a rest =
      if k = a.height then .ok (ofLog s log rest)
      else .error ⟨⟨.conflictingHeights, a.position⟩, log⟩ := by
  unfold step
  rw [getElem?_heights_ofLog hi, hp]
  rfl

theorem step_of_unvisited {pending : List Arrival} (hi : s.code[a.position]? = some i)
    (hp : Section.heightIn? log a.position = none) :
    (ofLog s log pending).step s a rest =
      match s.successors i a.position a.height with
      | .error v => .error ⟨⟨v, a.position⟩, ⟨a.position, a.height, i.opcode⟩ :: log⟩
      | .ok next => .ok (ofLog s (⟨a.position, a.height, i.opcode⟩ :: log) (next ++ rest)) := by
  unfold step
  rw [getElem?_heights_ofLog hi, hp, hi]
  cases hnext : s.successors i a.position a.height with
  | error v => simp only [hnext]; rfl
  | ok next =>
    simp only [hnext, ← record_ofLog pending]
    rfl

/-! ### The walk -/

mutual

/-- To take in an arrival and all that comes of it is to explore from there. -/
theorem run_explore (hs : s.Formed) (log : List Visit) (p h : Nat) (rest : List Arrival) :
    (ofLog s log (⟨p, h⟩ :: rest)).run s =
      (Section.explore s log p h).bind fun later => (ofLog s later.1 rest).run s := by
  rw [run_cons rfl]
  cases hi : s.code[p]? with
  | none => rw [Section.explore_of_outside hi, step_of_outside hi]; rfl
  | some i =>
    cases hp : Section.heightIn? log p with
    | some k =>
      rw [Section.explore_of_visited hi hp, step_of_visited hi hp]
      split_ifs <;> rfl
    | none =>
      rw [Section.explore_of_unvisited hi hp, step_of_unvisited hi hp,
        Section.successors_eq (hs.wellFormed p i hi), Section.arrivalsAfter_eq_map]
      simp only
      split_ifs
      -- What the instruction refuses, and the end of a path, leave nothing to explore.
      · rfl
      · rfl
      · rfl
      · rfl
      · refine (run_exploreAll hs (⟨p, h, i.opcode⟩ :: log) (s.heightAfter i h) (i.following p)
          rest).trans ?_
        cases Section.exploreAll s (⟨p, h, i.opcode⟩ :: log) (s.heightAfter i h) (i.following p) with
        | error halt => rfl
        | ok later => rfl
termination_by (s.unexplored log, 0)
decreasing_by exact .left _ _ (Section.unexplored_cons_lt hi hp h)

/-- To take in arrivals with one height, and all that comes of them, is to explore from there. -/
theorem run_exploreAll (hs : s.Formed) (log : List Visit) (h : Nat) (ps : List Nat)
    (rest : List Arrival) :
    (ofLog s log (ps.map (⟨·, h⟩) ++ rest)).run s =
      (Section.exploreAll s log h ps).bind fun later => (ofLog s later.1 rest).run s := by
  cases ps with
  | nil =>
    rw [Section.exploreAll]
    rfl
  | cons p ps =>
    rw [Section.exploreAll, List.map_cons, List.cons_append, run_explore hs]
    cases Section.explore s log p h with
    | error halt => rfl
    | ok later =>
      obtain ⟨later, hl⟩ := later
      refine (run_exploreAll hs later h ps rest).trans ?_
      show _ = ((Section.exploreAll s later h ps).bind _).bind _
      cases Section.exploreAll s later h ps with
      | error halt => rfl
      | ok last => rfl
termination_by (s.unexplored log, ps.length + 1)
decreasing_by
  · exact .right _ (Nat.succ_pos _)
  · rcases Nat.lt_or_eq_of_le (Section.unexplored_le hl) with hlt | heq
    · exact .left _ _ hlt
    · rw [heq]
      exact .right _ (Nat.lt_succ_self _)

end

end State

namespace Section

/-- The walk from the first instruction ends as the search does. -/
theorem run_initial {s : Section} (hs : s.Formed) :
    (State.initial s).run s =
      (explore s [] 0 s.own.inputs.toNat).map fun later => State.ofLog s later.1 [] := by
  have hinitial : State.initial s = State.ofLog s [] [⟨0, s.own.inputs.toNat⟩] := by
    unfold State.initial State.ofLog
    congr 1
    apply Array.ext (by simp)
    intro p _ _
    simp [heightIn?]
  rw [hinitial, State.run_explore hs]
  cases explore s [] 0 s.own.inputs.toNat with
  | error halt => rfl
  | ok later => exact State.run_nil rfl

/-- The walk makes the visits of the search and comes to its verdict. -/
theorem walk_eq_search {s : Section} (hs : s.Formed) : s.walk = s.search := by
  unfold walk search
  rw [run_initial hs]
  cases explore s [] 0 s.own.inputs.toNat with
  | error halt => rfl
  | ok later =>
    obtain ⟨log, hl⟩ := later
    have hjudge : s.conclude (State.ofLog s log []).heights.toList = s.judge (heightIn? log) := by
      rw [← conclude_eq_judge]
      simp [State.ofLog]
    exact congrArg (Prod.mk log.reverse) hjudge

/-- **The walk is the depth-first search.**  For a section that is not malformed, the
verification gives the verdict of the search, and reports its visits. -/
theorem verify_eq_search {types : TypeSection} {index : Nat} {code : Code} {own : Signature}
    (hown : types[index]? = some own) (hne : code.isEmpty = false)
    (hm : firstMalformed? { code, own, types } = none) :
    verify types index code = (search { code, own, types }).2 ∧
    verifyLogged types index code =
      { events := (search { code, own, types }).1.map .visit ++
          [verdictEvent index (search { code, own, types }).2]
        result := (search { code, own, types }).2 } := by
  have hs : Formed { code, own, types } := formed_iff.mpr ⟨hne, hm⟩
  have hinspect : inspect types index code = search { code, own, types } := by
    unfold inspect
    rw [hown]
    exact (examine_of_formed hs).trans (walk_eq_search hs)
  constructor
  · exact congrArg Prod.snd hinspect
  · unfold verifyLogged
    rw [hinspect]

/-- Of the two ways out of the branch the search takes the jump first. -/
theorem verify_eq_search_forkedUnderflow :
    (#[⟨0, 0, 1⟩] : TypeSection)[0]? = some ⟨0, 0, 1⟩ ∧ forkedUnderflow.isEmpty = false ∧
    firstMalformed? { code := forkedUnderflow, own := ⟨0, 0, 1⟩, types := #[⟨0, 0, 1⟩] } = none ∧
    (search { code := forkedUnderflow, own := ⟨0, 0, 1⟩, types := #[⟨0, 0, 1⟩] }).2 =
      .error ⟨.stackUnderflow, 4⟩ := by
  have hown : (#[⟨0, 0, 1⟩] : TypeSection)[0]? = some ⟨0, 0, 1⟩ := rfl
  have hne : forkedUnderflow.isEmpty = false := by decide
  have hm : firstMalformed? { code := forkedUnderflow, own := ⟨0, 0, 1⟩, types := #[⟨0, 0, 1⟩] } =
    none := by cbv
  have hv : verify #[⟨0, 0, 1⟩] 0 forkedUnderflow = .error ⟨.stackUnderflow, 4⟩ := by cbv
  exact ⟨hown, hne, hm, (verify_eq_search hown hne hm).1.symm.trans hv⟩

end Section

end EofVerifier
