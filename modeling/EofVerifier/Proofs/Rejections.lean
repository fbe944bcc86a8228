import EofVerifier.Proofs.RunPrefixes
import Mathlib.Order.Bounds.Defs

/-! # Rejections are justified where they are reported

A section that is not malformed is rejected at a position, and something about that position
bears the rejection out (`Section.Justifies`).  For the failures that a path shows it is one run
prefix, or two of them; these are the heights that the walk has met there.  For the others it is
the graph, or the heights of all positions, each of which run prefixes reach with one height only
(`Section.SingleHeights`): the walk has then taken in everything, so what it has not recorded is
not there. -/

namespace EofVerifier

/-- The only opcode that returns is the one with this mnemonic. -/
theorem Opcode.flow_eq_leave_iff (o : Opcode) : o.flow = .leave ↔ o.mnemonic = "RETF" := by
  have hall := Opcode.forall_iff (p := fun _ info => info.flow = .leave ↔ info.mnemonic = "RETF")
  exact hall.mpr (by decide +kernel) o

namespace Section

open Relation (ReflTransGen)

variable {s : Section}

/-- Run prefixes reach every position, and with these heights only. -/
def SingleHeights (s : Section) (k : Nat → Nat) : Prop :=
  ∀ p < s.code.size, ∀ h, s.RunsTo ⟨p, h⟩ ↔ h = k p

/-- What bears a rejection out. -/
inductive Justifies (s : Section) : Failure → Prop
  /-- Some run prefix arrives with fewer items than the instruction takes. -/
  | stackUnderflow {p h : Nat} {i : Instruction} :
      s.code[p]? = some i → s.RunsTo ⟨p, h⟩ → h < s.pops i → Justifies s ⟨.stackUnderflow, p⟩
  /-- Two run prefixes arrive with different heights. -/
  | conflictingHeights {p h h' : Nat} :
      s.RunsTo ⟨p, h⟩ → s.RunsTo ⟨p, h'⟩ → h ≠ h' → Justifies s ⟨.conflictingHeights, p⟩
  /-- Some run prefix arrives at a return with a height other than the number of outputs. -/
  | returnArity {p h : Nat} {i : Instruction} :
      s.code[p]? = some i → i.opcode.mnemonic = "RETF" → s.RunsTo ⟨p, h⟩ →
      h ≠ s.own.outputs.toNat → Justifies s ⟨.returnArity, p⟩
  /-- Some run prefix arrives at the last instruction, which falls through. -/
  | fallsOffEnd {p h : Nat} {i : Instruction} :
      s.code[p]? = some i → p + 1 = s.code.size → i.opcode.flow.fallsThrough = true →
      s.RunsTo ⟨p, h⟩ → Justifies s ⟨.fallsOffEnd, p⟩
  /-- The position is the least one that no path leads to. -/
  | unreachable {p : Nat} :
      IsLeast {q | q < s.code.size ∧ ¬ ReflTransGen s.Edge 0 q} p → Justifies s ⟨.unreachable, p⟩
  /-- The position is the first one with the largest height, which is above the limit. -/
  | heightAboveLimit {p : Nat} {k : Nat → Nat} :
      s.SingleHeights k → s.FirstPeak k p → Limits.maxStackHeight < k p →
      Justifies s ⟨.heightAboveLimit, p⟩
  /-- The position is the first one with the largest height, which is within the limit and not
  the declared one. -/
  | heightMismatch {p : Nat} {k : Nat → Nat} :
      s.SingleHeights k → s.FirstPeak k p → k p ≤ Limits.maxStackHeight →
      k p ≠ s.own.maxStackHeight.toNat → Justifies s ⟨.heightMismatch, p⟩

/-! ### Failures of the walk -/

/-- An arrival that fails in a walk has a run prefix of its own to show for it. -/
theorem justifies_of_step (hs : s.Formed) {st : State} (hc : st.Consistent s) (ht : st.Traced s)
    {a : Arrival} {rest : List Arrival} (ha : a ∈ st.pending) {halt : Halt}
    (h : st.step s a rest = .error halt) : s.Justifies halt.failure := by
  have hrun := (ht.pending a ha).1
  have hlt := (hc.pending a ha).position_lt hs
  rcases State.step_eq_error h with ⟨k, hk, hne, rfl⟩ | ⟨i, v, -, hi, hv, rfl⟩ | ⟨hnone, -⟩
  · exact .conflictingHeights (ht.recorded _ _ hk).1 hrun hne
  · rcases successors_error (hs.wellFormed _ i hi) hv with
      ⟨rfl, hlow⟩ | ⟨rfl, hleave, hne⟩ | ⟨rfl, hfalls, hlast⟩
    · exact .stackUnderflow hi hrun hlow
    · exact .returnArity hi (i.opcode.flow_eq_leave_iff.mp hleave) hrun hne
    · exact .fallsOffEnd hi (by omega) hfalls hrun
  · rw [Array.getElem?_eq_none_iff, Array.getElem?_eq_none_iff, hc.size] at hnone
    exact absurd hlt (Nat.not_lt.mpr (hnone.elim id id))

/-! ### Failures behind the walk -/

/-- What a finished walk has recorded is judged by position. -/
theorem conclude_heights {st : State} (hsize : st.heights.size = s.code.size) :
    s.conclude st.heights.toList = s.judge st.height? := by
  rw [← conclude_eq_judge]
  congr 1
  refine List.ext_getElem (by simp [hsize]) fun p hp hp' => ?_
  rw [Array.length_toList] at hp
  have hget := State.getElem?_heights hp
  rw [Array.getElem?_eq_getElem hp] at hget
  simpa using Option.some.inj hget

/-- A judgement on a finished walk is borne out by all of its run prefixes. -/
theorem justifies_of_judge (hs : s.Formed) (hf : s.Fits) {st : State}
    (he : State.Ends s (State.initial s) (.ok st)) {f : Failure}
    (h : s.judge st.height? = .error f) : s.Justifies f := by
  rcases judge_eq_error hs.nonempty h with
    ⟨p, hp, hnone, hfirst, rfl⟩ | ⟨k, hk, p, hpeak, hlimit⟩
  · refine .unreachable ⟨⟨hp, fun hreach => ?_⟩, fun q hq => ?_⟩
    · obtain ⟨h, harr⟩ := he.coherent.exists_arrives hs hreach
      rw [(he.height?_eq_some_iff p h).mpr harr] at hnone
      cases hnone
    · apply Nat.le_of_not_lt
      intro hlt
      obtain ⟨h, hh⟩ := Option.ne_none_iff_exists'.mp (hfirst q hlt)
      exact hq.2 (((he.height?_eq_some_iff q h).mp hh).reachable hs)
  · have hsingle : s.SingleHeights k := by
      intro q hq h
      rw [he.runsTo_iff_arrives hs hf, ← he.height?_eq_some_iff, hk q hq, Option.some.injEq]
      exact eq_comm
    rcases hlimit with ⟨habove, rfl⟩ | ⟨hle, hne, rfl⟩
    · exact .heightAboveLimit hsingle hpeak habove
    · exact .heightMismatch hsingle hpeak hle hne

/-! ### Rejections -/

/-- A section that passes the first stage is rejected by the walk, or by the checks behind it. -/
theorem examine_error_cases (hs : s.Formed) {f : Failure} (h : s.examine.2 = .error f) :
    (∃ halt, State.Ends s (State.initial s) (.error halt) ∧ f = halt.failure) ∨
      ∃ st, State.Ends s (State.initial s) (.ok st) ∧ s.judge st.height? = .error f := by
  rw [examine_of_formed hs, walk_snd] at h
  have hends := State.ends_run s (State.initial s)
  generalize (State.initial s).run s = r at h hends
  cases r with
  | error halt =>
    cases h
    exact .inl ⟨halt, hends, rfl⟩
  | ok st =>
    have hsize := hends.consistent_of_ok.1.size
    exact .inr ⟨st, hends, conclude_heights hsize ▸ h⟩

theorem justifies_of_examine (hs : s.Formed) (hf : s.Fits) {f : Failure}
    (h : s.examine.2 = .error f) : s.Justifies f := by
  rcases examine_error_cases hs h with ⟨halt, hends, rfl⟩ | ⟨st, hends, hjudge⟩
  · rcases hends.traced hs hf with ⟨_, hr, -⟩ | ⟨_, st, a, rest, hr, ⟨hc, ht⟩, ha, hstep⟩
    · cases hr
    · cases hr
      exact justifies_of_step hs hc ht ha hstep
  · exact justifies_of_judge hs hf hends hjudge

/-- What can be wrong with a section before any path is looked at. -/
def malformed : List Violation :=
  [.unknownSection, .emptySection, .malformedOperand, .jumpOutOfRange]

theorem mem_malformed_of_malformation? {i : Instruction} {v : Violation}
    (h : s.malformation? i = some v) : v ∈ malformed := by
  unfold malformation? at h
  split at h
  · cases h
    decide
  · split at h
    · cases h
      decide
    · split at h
      · cases h
        decide
      · cases h

/-- A section that does not pass the first stage is rejected as malformed. -/
theorem mem_malformed_of_not_formed (hs : ¬ s.Formed) {f : Failure} (h : s.examine.2 = .error f) :
    f.violation ∈ malformed := by
  unfold examine at h
  cases hne : s.code.isEmpty with
  | true =>
    rw [if_pos hne] at h
    cases h
    decide
  | false =>
    rw [if_neg (by rw [hne]; exact Bool.false_ne_true)] at h
    cases hm : s.firstMalformed? with
    | some failure =>
      rw [hm] at h
      cases h
      obtain ⟨x, -, hx⟩ := List.exists_of_findSome?_eq_some hm
      obtain ⟨v, hv, rfl⟩ := Option.map_eq_some_iff.mp hx
      exact mem_malformed_of_malformation? hv
    | none => exact absurd (formed_iff.mpr ⟨hne, hm⟩) hs

/-- A walk, and what is judged behind it, does not reject a section as malformed. -/
theorem violation_notMem_malformed (hs : s.Formed) {f : Failure} (h : s.examine.2 = .error f) :
    f.violation ∉ malformed := by
  rcases examine_error_cases hs h with ⟨halt, hends, rfl⟩ | ⟨st, -, hjudge⟩
  · have hdisjoint (v : Violation) : v.ofPath = true → v ∉ malformed := by cases v <;> decide
    exact hdisjoint _ (hends.ofPath hs)
  · rcases judge_eq_error hs.nonempty hjudge with
      ⟨p, -, -, -, rfl⟩ | ⟨k, -, p, -, ⟨-, rfl⟩ | ⟨-, -, rfl⟩⟩ <;> simp [malformed]

/-- **Every rejection is justified at its position.**  A section that is rejected, and not as
malformed, has what its failure says at the position that the failure names. -/
theorem rejection_justified {types : TypeSection} {index : Nat} {code : Code}
    (hf : 255 * (code.size + 1) < 2 ^ 63) {f : Failure}
    (hv : verify types index code = .error f) (hm : f.violation ∉ malformed) :
    ∃ own, types[index]? = some own ∧ Justifies { code, own, types } f := by
  cases hown : types[index]? with
  | none =>
    unfold verify inspect at hv
    rw [hown] at hv
    cases hv
    exact absurd (by decide) hm
  | some own =>
    rw [verify_of_listed hown] at hv
    refine ⟨own, rfl, ?_⟩
    by_cases hs : Formed { code, own, types }
    · exact justifies_of_examine hs hf hv
    · exact absurd (mem_malformed_of_not_formed hs hv) hm

open Instruction in
/-- A loop that leaves an item behind in every round. -/
def growingLoop : Code :=
  #[ofByte 0x5F, ofByte 0xE0 (.target 0)]

/-- The loop comes back to its start with one item more. -/
theorem rejection_justified_growingLoop :
    255 * (growingLoop.size + 1) < 2 ^ 63 ∧
    verify #[⟨0, 0, 1⟩] 0 growingLoop = .error ⟨.conflictingHeights, 0⟩ ∧
    Violation.conflictingHeights ∉ malformed ∧
    ∃ h h', RunsTo { code := growingLoop, own := ⟨0, 0, 1⟩, types := #[⟨0, 0, 1⟩] } ⟨0, h⟩ ∧
      RunsTo { code := growingLoop, own := ⟨0, 0, 1⟩, types := #[⟨0, 0, 1⟩] } ⟨0, h'⟩ ∧
      h ≠ h' := by
  have hf : 255 * (growingLoop.size + 1) < 2 ^ 63 := by decide
  have hv : verify #[⟨0, 0, 1⟩] 0 growingLoop = .error ⟨.conflictingHeights, 0⟩ := by cbv
  have hm : Violation.conflictingHeights ∉ malformed := by decide
  obtain ⟨own, hown, hj⟩ := rejection_justified hf hv hm
  cases hown
  cases hj with
  | conflictingHeights h h' hne => exact ⟨hf, hv, hm, _, _, h, h', hne⟩

end Section

end EofVerifier
