import EofVerifier.Proofs.ContainerVerdict
import EofVerifier.Proofs.Rejections
import EofVerifier.Proofs.WalkHistory

/-! # The events of a verification

The verification of a section reports every visit of its walk and then its verdict.  No position
is visited twice, and the entry is visited first (`State.Course.nodup_visits`,
`State.Course.entry_first`).  The verdict can be checked against the visits before it
(`Section.Accords`): a failure of the walk is at the last visit, or for a conflict at an earlier
one; an acceptance, and a judgement on the largest height, come after a visit at every position.

The sections of a container report one after the other, and behind one that is not accepted none
does (`Container.events_verifyFrom_of_accepted`, `Container.events_verifyFrom_of_failure`). -/

namespace EofVerifier

namespace State

variable {s : Section} {st : State} {a : Arrival} {taken rest : List Arrival}
  {r : Except Halt State}

/-- The visits that a walk has made at its end, the latest first. -/
def visitsAt : Except Halt State → List Visit
  | .ok st => st.visits
  | .error halt => halt.visits

/-! ### The first visit -/

/-- The oldest of the visits is at the first instruction, with the inputs. -/
def EntryFirst (s : Section) (visits : List Visit) : Prop :=
  ∀ v ∈ visits.getLast?, v.position = 0 ∧ v.height = s.own.inputs.toNat

/-- Before the first visit nothing but the entry is pending. -/
def Opens (s : Section) (st : State) : Prop :=
  st.visits = [] → st.pending = [⟨0, s.own.inputs.toNat⟩]

theorem EntryFirst.visit (h : EntryFirst s st.visits) (ho : st.Opens s)
    (hp : st.pending = a :: rest) (opcode : Opcode) :
    EntryFirst s (⟨a.position, a.height, opcode⟩ :: st.visits) := by
  cases hv : st.visits with
  | nil =>
    have hentry := ho hv
    rw [hp] at hentry
    cases hentry
    rintro _ ⟨⟩
    exact ⟨rfl, rfl⟩
  | cons v visits =>
    unfold EntryFirst
    rw [List.getLast?_cons_cons, ← hv]
    exact h

theorem History.entry_first (h : History s taken st) : EntryFirst s st.visits ∧ st.Opens s := by
  induction h with
  | start => exact ⟨nofun, fun _ => rfl⟩
  | @step taken rest st st' a h hp hstep ih =>
    rcases step_eq_ok hstep with ⟨hrec, rfl⟩ | ⟨i, next, hn, -, -, rfl⟩
    · -- What is recorded has been visited, so this is not the first visit.
      obtain ⟨v, hv, -⟩ := (h.consistent.logged _ _).mp hrec
      exact ⟨ih.1, fun hnone => absurd hnone (List.ne_nil_of_mem hv)⟩
    · exact ⟨ih.1.visit ih.2 hp _, nofun⟩

theorem Course.entry_first (h : Course s taken r) : EntryFirst s (visitsAt r) := by
  cases h with
  | done hh _ => exact hh.entry_first.1
  | fails hh hp hstep =>
    obtain ⟨hfirst, hopens⟩ := hh.entry_first
    rcases step_eq_error hstep with ⟨k, -, -, rfl⟩ | ⟨i, v, -, -, -, rfl⟩ | ⟨-, rfl⟩
    · exact hfirst
    · exact hfirst.visit hopens hp _
    · exact hfirst

/-- No position is visited twice, by an arrival that fails either. -/
theorem Course.nodup_visits (h : Course s taken r) :
    ((visitsAt r).map (·.position)).Nodup := by
  cases h with
  | done hh _ => exact hh.nodup_visits
  | fails hh hp hstep =>
    rcases step_eq_error hstep with ⟨k, -, -, rfl⟩ | ⟨i, v, hn, -, -, rfl⟩ | ⟨-, rfl⟩
    · exact hh.nodup_visits
    · exact List.nodup_cons.mpr ⟨hh.consistent.notMem_visits hn, hh.nodup_visits⟩
    · exact hh.nodup_visits

/-- The visited positions are those with a height. -/
theorem Consistent.mem_positions_iff (hc : st.Consistent s) {p : Nat} :
    p ∈ st.visits.map (·.position) ↔ st.height? p ≠ none := by
  rw [Option.ne_none_iff_exists']
  simp only [hc.logged]
  constructor
  · intro hm
    obtain ⟨v, hv, rfl⟩ := List.mem_map.mp hm
    exact ⟨v.height, v, hv, rfl, rfl⟩
  · rintro ⟨h, v, hv, rfl, -⟩
    exact List.mem_map_of_mem hv

/-- When every position has a height, each has been visited once. -/
theorem History.perm_positions (hs : s.Formed) (h : History s taken st)
    (hall : ∀ p < s.code.size, st.height? p ≠ none) :
    (st.visits.map (·.position)).Perm (List.range s.code.size) := by
  refine (List.perm_ext_iff_of_nodup h.nodup_visits List.nodup_range).mpr fun p => ?_
  rw [List.mem_range]
  constructor
  · intro hm
    obtain ⟨v, hv, rfl⟩ := List.mem_map.mp hm
    exact h.consistent.position_lt hs hv
  · exact fun hp => h.consistent.mem_positions_iff.mpr (hall p hp)

end State

namespace Section

variable {s : Section} {types : TypeSection} {index : Nat} {code : Code}

/-- The verdict agrees with the visits that were made before it, in their order. -/
inductive Accords (code : Code) (visits : List Visit) : Except Failure UInt16 → Prop
  /-- Every position has been visited, and this is the largest height there. -/
  | accepted {m : UInt16} :
      (visits.map (·.position)).Perm (List.range code.size) →
      (visits.map (·.height)).max? = some m.toNat → Accords code visits (.ok m)
  /-- What is found before the walk leaves no visits. -/
  | malformed {f : Failure} : f.violation ∈ malformed → visits = [] → Accords code visits (.error f)
  /-- The instruction visited last does not let the walk go on. -/
  | atLastVisit {f : Failure} : f.violation ∈ [.stackUnderflow, .returnArity, .fallsOffEnd] →
      visits.getLast?.map (·.position) = some f.position → Accords code visits (.error f)
  /-- The instruction has been visited before, with another height. -/
  | conflictingHeights {p : Nat} : p ∈ visits.map (·.position) →
      Accords code visits (.error ⟨.conflictingHeights, p⟩)
  /-- The first position that has not been visited. -/
  | unreachable {p : Nat} : IsLeast {q | q < code.size ∧ q ∉ visits.map (·.position)} p →
      Accords code visits (.error ⟨.unreachable, p⟩)
  /-- Every position has been visited, and the largest height is refused. -/
  | judged {f : Failure} : f.violation ∈ [.heightAboveLimit, .heightMismatch] →
      (visits.map (·.position)).Perm (List.range code.size) → Accords code visits (.error f)

/-! ### Failures of the walk -/

theorem accords_of_step (hs : s.Formed) {st : State} {a : Arrival} {rest : List Arrival}
    (hc : st.Consistent s) (ha : a ∈ st.pending) {halt : Halt}
    (h : st.step s a rest = .error halt) :
    Accords s.code halt.visits.reverse (.error halt.failure) := by
  have hlt := (hc.pending a ha).position_lt hs
  rcases State.step_eq_error h with ⟨k, hk, -, rfl⟩ | ⟨i, v, -, hi, hv, rfl⟩ | ⟨hnone, -⟩
  · refine .conflictingHeights ?_
    rw [List.map_reverse, List.mem_reverse, hc.mem_positions_iff, hk]
    exact Option.some_ne_none k
  · refine .atLastVisit ?_ ?_
    · rcases successors_error (hs.wellFormed _ i hi) hv with ⟨rfl, -⟩ | ⟨rfl, -⟩ | ⟨rfl, -⟩ <;> simp
    · rw [List.getLast?_reverse]
      rfl
  · rw [Array.getElem?_eq_none_iff, Array.getElem?_eq_none_iff, hc.size] at hnone
    exact absurd hlt (Nat.not_lt.mpr (hnone.elim id id))

/-! ### Judgements on recorded heights -/

/-- What is accepted is the largest height that a visit has recorded. -/
theorem accords_of_conclude (hs : s.Formed) {st : State} {taken : List Arrival}
    (hh : State.History s taken st) {m : UInt16} (h : s.conclude st.heights.toList = .ok m) :
    Accords s.code st.visits.reverse (.ok m) := by
  have hsize := hh.consistent.size
  obtain ⟨hall, hgreatest, hle⟩ := recorded_of_conclude (hsize ▸ hs.nonempty) h
  rw [hsize] at hall
  have hmem (k : Nat) : k ∈ st.visits.map (·.height) ↔ ∃ p, st.height? p = some k := by
    rw [List.mem_map]
    simp only [hh.consistent.logged]
    constructor
    · rintro ⟨v, hv, hk⟩
      exact ⟨v.position, v, hv, rfl, hk⟩
    · rintro ⟨p, v, hv, -, hk⟩
      exact ⟨v, hv, hk⟩
  refine .accepted ?_ (List.max?_eq_some_iff.mpr ⟨?_, fun k hk => ?_⟩)
  · rw [List.map_reverse]
    exact (List.reverse_perm _).trans (hh.perm_positions hs hall)
  · rw [List.map_reverse, List.mem_reverse]
    exact (hmem _).mpr hgreatest
  · rw [List.map_reverse, List.mem_reverse] at hk
    exact hle ((hmem k).mp hk)

/-- What is refused behind a walk is a position without a visit, or the largest height. -/
theorem accords_of_judge (hs : s.Formed) {st : State} {taken : List Arrival}
    (hh : State.History s taken st) {f : Failure} (h : s.judge st.height? = .error f) :
    Accords s.code st.visits.reverse (.error f) := by
  have hnever (p : Nat) : p ∉ st.visits.reverse.map (·.position) ↔ st.height? p = none := by
    rw [List.map_reverse, List.mem_reverse, hh.consistent.mem_positions_iff, Decidable.not_not]
  rcases judge_eq_error hs.nonempty h with ⟨p, hp, hnone, hfirst, rfl⟩ | ⟨k, hk, p, -, hlimit⟩
  · refine .unreachable ⟨⟨hp, (hnever p).mpr hnone⟩, fun q hq => Nat.le_of_not_lt fun hlt => ?_⟩
    exact hfirst q hlt ((hnever q).mp hq.2)
  · refine .judged ?_ ?_
    · rcases hlimit with ⟨-, rfl⟩ | ⟨-, -, rfl⟩ <;> simp
    · rw [List.map_reverse]
      refine (List.reverse_perm _).trans (hh.perm_positions hs fun q hq => ?_)
      rw [hk q hq]
      exact Option.some_ne_none _

/-! ### The log of a section -/

theorem walk_fst (s : Section) :
    s.walk.1 = (State.visitsAt ((State.initial s).run s)).reverse := by
  unfold walk
  cases (State.initial s).run s <;> rfl

theorem accords_walk (hs : s.Formed) : Accords s.code s.walk.1 s.walk.2 := by
  rw [walk_fst, walk_snd]
  obtain ⟨taken, hcourse⟩ := State.exists_course s
  generalize (State.initial s).run s = r at hcourse
  cases hcourse with
  | fails hh hp hstep =>
    exact accords_of_step hs hh.consistent (by rw [hp]; exact List.mem_cons_self) hstep
  | @done _ st hh hp =>
    change Accords s.code st.visits.reverse (s.conclude st.heights.toList)
    cases hc : s.conclude st.heights.toList with
    | ok m => exact accords_of_conclude hs hh hc
    | error f => exact accords_of_judge hs hh (conclude_heights hh.consistent.size ▸ hc)

/-- Either nothing is visited, or the visits and the verdict are those of a walk. -/
theorem inspect_cases (types : TypeSection) (index : Nat) (code : Code) :
    (∃ f : Failure, f.violation ∈ malformed ∧ inspect types index code = ([], .error f)) ∨
    ∃ own, types[index]? = some own ∧ Formed { code, own, types } ∧
      inspect types index code = walk { code, own, types } := by
  cases hown : types[index]? with
  | none =>
    refine .inl ⟨⟨.unknownSection, 0⟩, by decide, ?_⟩
    unfold inspect
    rw [hown]
  | some own =>
    have hinspect : inspect types index code = examine { code, own, types } := by
      unfold inspect
      rw [hown]
    by_cases hs : Formed { code, own, types }
    · exact .inr ⟨own, rfl, hs, hinspect.trans (examine_of_formed hs)⟩
    · obtain ⟨f, hf⟩ := examine_of_not_formed hs
      exact .inl ⟨f, mem_malformed_of_not_formed hs (congrArg Prod.snd hf), hinspect.trans hf⟩

theorem accords_inspect (types : TypeSection) (index : Nat) (code : Code) :
    Accords code (inspect types index code).1 (verify types index code) := by
  unfold verify
  rcases inspect_cases types index code with ⟨f, hf, heq⟩ | ⟨own, -, hs, heq⟩
  · rw [heq]
    exact .malformed hf rfl
  · rw [heq]
    exact accords_walk hs

theorem nodup_inspect (types : TypeSection) (index : Nat) (code : Code) :
    ((inspect types index code).1.map (·.position)).Nodup := by
  rcases inspect_cases types index code with ⟨f, -, heq⟩ | ⟨own, -, -, heq⟩
  · rw [heq]
    exact List.nodup_nil
  · obtain ⟨taken, hcourse⟩ := State.exists_course { code, own, types }
    rw [heq, walk_fst, List.map_reverse, List.nodup_reverse]
    exact hcourse.nodup_visits

theorem head?_inspect (types : TypeSection) (index : Nat) (code : Code) :
    ∀ v ∈ (inspect types index code).1.head?, v.position = 0 ∧
      ∃ own, types[index]? = some own ∧ v.height = own.inputs.toNat := by
  rcases inspect_cases types index code with ⟨f, -, heq⟩ | ⟨own, hown, -, heq⟩
  · rw [heq]
    nofun
  · obtain ⟨taken, hcourse⟩ := State.exists_course { code, own, types }
    rw [heq, walk_fst, List.head?_reverse]
    intro v hv
    obtain ⟨hposition, hheight⟩ := hcourse.entry_first v hv
    exact ⟨hposition, own, hown, hheight⟩

end Section

/-! ### The log of a container -/

namespace Container

variable {types : TypeSection} {index : Nat} {codes : List Code}

/-- The events of code sections, of which the first has this index, one section after the other. -/
def sectionLogs (types : TypeSection) (index : Nat) (codes : List Code) : List Event :=
  (codes.zipIdx index).flatMap fun x => (Section.verifyLogged types x.2 x.1).events

theorem sectionLogs_cons (code : Code) :
    sectionLogs types index (code :: codes) =
      (Section.verifyLogged types index code).events ++ sectionLogs types (index + 1) codes := by
  unfold sectionLogs
  rw [List.zipIdx_cons, List.flatMap_cons]

theorem events_verifyFrom_cons (code : Code) :
    (verifyFrom types index (code :: codes)).events =
      (Section.verifyLogged types index code).events ++
        if (Section.verify types index code).isOk then (verifyFrom types (index + 1) codes).events
        else [] := by
  have hr : (Section.verifyLogged types index code).result = Section.verify types index code := rfl
  rw [← hr, verifyFrom]
  cases (Section.verifyLogged types index code).result <;> simp [Except.isOk, Except.toBool]

/-- When all sections are accepted, all of them report. -/
theorem events_verifyFrom_of_accepted
    (h : ∀ (k : Nat) (code : Code), codes[k]? = some code →
      ∃ m, Section.verify types (index + k) code = .ok m) :
    (verifyFrom types index codes).events = sectionLogs types index codes := by
  induction codes generalizing index with
  | nil => rfl
  | cons code codes ih =>
    obtain ⟨m, hm⟩ := h 0 code rfl
    rw [Nat.add_zero] at hm
    rw [events_verifyFrom_cons, hm, sectionLogs_cons, ih fun k code' hk => ?_]
    · rfl
    · rw [Nat.add_right_comm]
      exact h (k + 1) code' hk

/-- The first section that is not accepted is the last one that reports. -/
theorem events_verifyFrom_of_failure {k : Nat} {code : Code} {f : Failure}
    (hk : codes[k]? = some code) (hf : Section.verify types (index + k) code = .error f)
    (hbefore : ∀ j < k, ∀ code', codes[j]? = some code' →
      ∃ m, Section.verify types (index + j) code' = .ok m) :
    (verifyFrom types index codes).events = sectionLogs types index (codes.take (k + 1)) := by
  induction codes generalizing index k with
  | nil => cases hk
  | cons first codes ih =>
    rw [events_verifyFrom_cons, List.take_succ_cons, sectionLogs_cons]
    cases k with
    | zero =>
      cases hk
      rw [Nat.add_zero] at hf
      rw [hf]
      rfl
    | succ k =>
      obtain ⟨m, hm⟩ := hbefore 0 (Nat.succ_pos k) first rfl
      rw [Nat.add_zero] at hm
      have hadd (j : Nat) : index + 1 + j = index + (j + 1) := by omega
      rw [hm, ← ih hk (hadd k ▸ hf) fun j hj code' hcode' => ?_]
      · rfl
      · rw [hadd]
        exact hbefore (j + 1) (Nat.succ_lt_succ hj) code' hcode'

/-- The code section with this index is not accepted. -/
def FailsAt (c : Container) (k : Nat) : Prop :=
  ∃ code f, c.code[k]? = some code ∧ Section.verify c.types k code = .error f

theorem events_eq_verifyFrom {c : Container} (h : c.checkTypes = .ok ()) :
    c.verifyLogged.events = (verifyFrom c.types 0 c.code).events := by
  unfold verifyLogged
  rw [h]

/-- **The events tell the verdicts.**  The events of a section are its visits, each position at
most once and the entry first, and then one that reports the verdict, which accords with the
visits.  The events of a container whose type section is in order are those of its sections, one
after the other up to the first that is not accepted. -/
theorem events_tell_verdicts :
    (∀ (types : TypeSection) (index : Nat) (code : Code),
      let log := Section.verifyLogged types index code
      log.result = Section.verify types index code ∧
      ∃ (visits : List Visit) (outcome : Event),
        log.events = visits.map .visit ++ [outcome] ∧
        (∀ m, log.result = .ok m → outcome = .sectionValid index m) ∧
        (∀ f, log.result = .error f → outcome = .sectionInvalid index f) ∧
        (visits.map (·.position)).Nodup ∧
        (∀ v ∈ visits.head?, v.position = 0 ∧
          ∃ own, types[index]? = some own ∧ v.height = own.inputs.toNat) ∧
        Section.Accords code visits log.result) ∧
    ∀ c : Container, c.checkTypes = .ok () →
      ((∀ k, ¬ c.FailsAt k) → c.verifyLogged.events = sectionLogs c.types 0 c.code) ∧
      ∀ k, IsLeast {j | c.FailsAt j} k →
        c.verifyLogged.events = sectionLogs c.types 0 (c.code.take (k + 1)) := by
  refine ⟨fun types index code => ⟨rfl, ?_⟩, fun c hc => ?_⟩
  · refine ⟨(Section.inspect types index code).1, _, rfl, fun m hm => ?_, fun f hf => ?_,
      Section.nodup_inspect types index code, Section.head?_inspect types index code,
      Section.accords_inspect types index code⟩
    · exact congrArg (Section.verdictEvent index) hm
    · exact congrArg (Section.verdictEvent index) hf
  · have haccepted (j : Nat) (hj : ¬ c.FailsAt j) (code : Code) (hcode : c.code[j]? = some code) :
        ∃ m, Section.verify c.types (0 + j) code = .ok m := by
      rw [Nat.zero_add]
      cases hv : Section.verify c.types j code with
      | ok m => exact ⟨m, rfl⟩
      | error f => exact absurd ⟨code, f, hcode, hv⟩ hj
    rw [events_eq_verifyFrom hc]
    refine ⟨fun hnone => ?_, fun k hk => ?_⟩
    · exact events_verifyFrom_of_accepted fun k code hcode => haccepted k (hnone k) code hcode
    · obtain ⟨⟨code, f, hcode, hf⟩, hleast⟩ := hk
      rw [← Nat.zero_add k] at hf
      refine events_verifyFrom_of_failure hcode hf fun j hj code' hcode' => ?_
      exact haccepted j (fun hj' => Nat.not_lt.mpr (hleast hj') hj) code' hcode'

open Instruction in
/-- Three sections of which the second does not keep its height. -/
def growingMiddle : Container where
  code := [#[ofByte 0x00], Section.growingLoop, #[ofByte 0x00]]
  types := #[⟨0, 0, 0⟩, ⟨0, 0, 1⟩, ⟨0, 0, 0⟩]

open Instruction in
/-- The second section reports the visits up to the conflict, and the third reports nothing. -/
theorem events_of_growingMiddle :
    growingMiddle.checkTypes = .ok () ∧ IsLeast {j | growingMiddle.FailsAt j} 1 ∧
    growingMiddle.verifyLogged.events =
      [.visit ⟨0, 0, (ofByte 0x00).opcode⟩, .sectionValid 0 0, .visit ⟨0, 0, (ofByte 0x5F).opcode⟩,
        .visit ⟨1, 1, (ofByte 0xE0).opcode⟩, .sectionInvalid 1 ⟨.conflictingHeights, 0⟩] := by
  have hc : growingMiddle.checkTypes = .ok () := by cbv
  have hfirst : Section.verify growingMiddle.types 0 #[ofByte 0x00] = .ok 0 := by cbv
  have hsecond : Section.verify growingMiddle.types 1 Section.growingLoop =
      .error ⟨.conflictingHeights, 0⟩ := by
    cbv
  have hleast : IsLeast {j | growingMiddle.FailsAt j} 1 := by
    refine ⟨⟨_, _, rfl, hsecond⟩, fun j hj => Nat.pos_of_ne_zero ?_⟩
    rintro rfl
    obtain ⟨code, f, hcode, hf⟩ := hj
    cases hcode
    rw [hfirst] at hf
    cases hf
  refine ⟨hc, hleast, ?_⟩
  rw [(events_tell_verdicts.2 _ hc).2 1 hleast]
  cbv

end Container

end EofVerifier
