import EofVerifier.Proofs.HeightAssignment

/-! # The checks behind a walk

When a walk has taken in everything, its heights are judged: every position must have one, and
the largest must be within the limit and the declared one, in this order.  `Section.judge` says
so for a height that each position may have, whoever has found it; `conclude_eq_judge` says that
the verification judges in this way.  What a refusal tells about the heights is said by
`judge_eq_error`, where the position in question is the first without a height or the first with
the largest one (`Section.FirstPeak`). -/

namespace EofVerifier.Section

variable {s : Section} {height? : Nat → Option Nat} {k : Nat → Nat} {p : Nat}

/-- Checks the heights of the positions. -/
def judge (s : Section) (height? : Nat → Option Nat) : Except Failure UInt16 :=
  let positions := List.range s.code.size
  match positions.find? fun p => (height? p).isNone with
  | some p => .error ⟨.unreachable, p⟩
  | none =>
    let largest := ((positions.filterMap height?).max?).getD 0
    let first := (positions.find? fun p => height? p = some largest).getD s.code.size
    if Limits.maxStackHeight < largest then .error ⟨.heightAboveLimit, first⟩
    else if largest ≠ s.own.maxStackHeight.toNat then .error ⟨.heightMismatch, first⟩
    else .ok (UInt16.ofNat largest)

/-! ### Positions of a list -/

/-- The first position of a value that is listed position by position. -/
theorem findIdx?_map_range {α : Type} (f : Nat → α) (q : α → Bool) (n : Nat) :
    ((List.range n).map f).findIdx? q = (List.range n).find? fun p => q (f p) := by
  refine Option.ext fun p => ?_
  rw [List.findIdx?_eq_some_iff_getElem, List.find?_range_eq_some]
  simp only [List.length_map, List.length_range, List.getElem_map, List.getElem_range,
    List.mem_range, Bool.not_eq_true']
  constructor
  · rintro ⟨hp, hq, hfirst⟩
    exact ⟨hq, hp, fun j hj => Bool.not_eq_true _ ▸ hfirst j hj⟩
  · rintro ⟨hq, hp, hfirst⟩
    exact ⟨hp, hq, fun j hj => by rw [hfirst j hj]; exact Bool.false_ne_true⟩

theorem peak_eq_max? (l : List Nat) : peak l = l.max?.getD 0 := by
  unfold peak
  rw [List.foldl_max]
  exact Nat.zero_max _

/-- When every position has a height, these are the heights position by position. -/
theorem filterMap_range_eq {n : Nat} (h : ∀ p < n, height? p = some (k p)) :
    (List.range n).filterMap height? = (List.range n).map k := by
  rw [← List.filterMap_eq_map]
  exact List.filterMap_congr fun p hp => h p (List.mem_range.mp hp)

/-- When no position without a height is found, every position has one. -/
theorem eq_some_of_find?_isNone {n : Nat}
    (h : (List.range n).find? (fun p => (height? p).isNone) = none) :
    ∀ p < n, height? p = some ((height? p).getD 0) := by
  intro p hp
  have hnot := List.find?_eq_none.mp h p (List.mem_range.mpr hp)
  cases hh : height? p with
  | none =>
    rw [hh] at hnot
    exact absurd rfl hnot
  | some k => rfl

/-- The verification judges the heights that it has recorded. -/
theorem conclude_eq_judge (s : Section) (height? : Nat → Option Nat) :
    s.conclude ((List.range s.code.size).map height?) = s.judge height? := by
  unfold conclude judge
  rw [findIdx?_map_range]
  cases hfind : (List.range s.code.size).find? fun p => (height? p).isNone with
  | some p => simp only [hfind]
  | none =>
    have hall := eq_some_of_find?_isNone hfind
    have hfirst (h : Nat) :
        ((List.range s.code.size).map fun p => (height? p).getD 0).idxOf h =
          ((List.range s.code.size).find? fun p => height? p = some h).getD s.code.size := by
      rw [List.idxOf, List.findIdx_eq_getD_findIdx?, findIdx?_map_range, List.length_map,
        List.length_range]
      congr 1
      refine List.find?_congr fun p hp => ?_
      rw [hall p (List.mem_range.mp hp), Option.getD_some, beq_eq_decide]
      exact decide_eq_decide.mpr Option.some_inj.symm
    simp only [hfind, List.filterMap_map, Function.id_comp, peak_eq_max?, filterMap_range_eq hall,
      hfirst]

/-! ### What a refusal tells -/

/-- The first of the positions with the largest height. -/
structure FirstPeak (s : Section) (k : Nat → Nat) (p : Nat) : Prop where
  inside : p < s.code.size
  largest : ∀ q < s.code.size, k q ≤ k p
  first : ∀ q < p, k q < k p

/-- What is found to be the largest height and its first position. -/
theorem exists_firstPeak (hs : 0 < s.code.size) (h : ∀ p < s.code.size, height? p = some (k p)) :
    ∃ p, s.FirstPeak k p ∧ ((List.range s.code.size).filterMap height?).max?.getD 0 = k p ∧
      (List.range s.code.size).find? (fun q => height? q = some (k p)) = some p := by
  have hne : (List.range s.code.size).map k ≠ [] := by simp [Nat.ne_of_gt hs]
  obtain ⟨m, hm⟩ := Option.isSome_iff_exists.mp (List.isSome_max?_of_ne_nil hne)
  obtain ⟨hmem, hle⟩ := List.max?_eq_some_iff.mp hm
  have hlargest : ∀ q < s.code.size, k q ≤ m := fun q hq =>
    hle _ (List.mem_map_of_mem (List.mem_range.mpr hq))
  -- Some position has the largest height, so the search for the first one finds it.
  have hsome : ((List.range s.code.size).find? fun q => height? q = some m).isSome := by
    obtain ⟨q, hq, hqm⟩ := List.mem_map.mp hmem
    refine List.find?_isSome.mpr ⟨q, hq, decide_eq_true ?_⟩
    rw [h q (List.mem_range.mp hq), hqm]
  obtain ⟨p, hp⟩ := Option.isSome_iff_exists.mp hsome
  obtain ⟨hpm, hin, hfirst⟩ := List.find?_range_eq_some.mp hp
  have hin := List.mem_range.mp hin
  have hkp : k p = m := by
    have hheight := of_decide_eq_true hpm
    rw [h p hin] at hheight
    exact Option.some.inj hheight
  refine ⟨p, ⟨hin, hkp ▸ hlargest, fun q hq => ?_⟩, ?_, hkp ▸ hp⟩
  · have hlt : q < s.code.size := Nat.lt_trans hq hin
    refine Nat.lt_of_le_of_ne (hkp ▸ hlargest q hlt) fun heq => ?_
    have hnot := hfirst q hq
    rw [h q hlt, heq, hkp] at hnot
    simp at hnot
  · rw [filterMap_range_eq h, hm, hkp]
    rfl

/-- A position has no height, or the largest height is above the limit or not the declared one. -/
theorem judge_eq_error {f : Failure} (hs : 0 < s.code.size) (h : s.judge height? = .error f) :
    (∃ p < s.code.size, height? p = none ∧ (∀ q < p, height? q ≠ none) ∧ f = ⟨.unreachable, p⟩) ∨
    ∃ k : Nat → Nat, (∀ p < s.code.size, height? p = some (k p)) ∧ ∃ p, s.FirstPeak k p ∧
      (Limits.maxStackHeight < k p ∧ f = ⟨.heightAboveLimit, p⟩ ∨
        k p ≤ Limits.maxStackHeight ∧ k p ≠ s.own.maxStackHeight.toNat ∧
          f = ⟨.heightMismatch, p⟩) := by
  unfold judge at h
  simp only at h
  split at h
  · rename_i p hfind
    cases h
    obtain ⟨hnone, hin, hfirst⟩ := List.find?_range_eq_some.mp hfind
    refine .inl ⟨p, List.mem_range.mp hin, Option.isNone_iff_eq_none.mp hnone, fun q hq => ?_, rfl⟩
    have hsome := hfirst q hq
    rw [Bool.not_eq_true', Option.isNone_eq_false_iff] at hsome
    exact Option.isSome_iff_ne_none.mp hsome
  · rename_i hfind
    have hall := eq_some_of_find?_isNone hfind
    obtain ⟨p, hpeak, hlargest, hfirst⟩ := exists_firstPeak hs hall
    rw [hlargest, hfirst] at h
    refine .inr ⟨_, hall, p, hpeak, ?_⟩
    split at h
    · rename_i hlimit
      cases h
      exact .inl ⟨hlimit, rfl⟩
    · rename_i hlimit
      split at h
      · rename_i hdeclared
        cases h
        exact .inr ⟨Nat.le_of_not_lt hlimit, hdeclared, rfl⟩
      · cases h

end EofVerifier.Section
