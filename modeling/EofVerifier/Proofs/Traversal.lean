import EofVerifier.Proofs.ContainerVerdict
import Mathlib.Data.List.Forall2

/-! # Going through a list of things that may fail

`List.mapM` and `List.forM` stop at the first failure.  Their results are described here by the
parts of the list: success is a list of results, one for each thing
(`mapM_eq_ok_iff_forall₂`), and failure is that of the first thing that fails, behind a prefix
of which nothing fails.  `List.findSome?` stops at the first find, which may be a failure
(`failure?_mapM`), and where the things are counted it tells their position
(`findSome?_zipIdx_eq_some_iff`). -/

namespace EofVerifier.Traversal

open Container (mapM_cons_of_ok mapM_cons_of_error)

variable {α β ε : Type}

/-- The failure, if it is one. -/
def failure? : Except ε α → Option ε
  | .error e => some e
  | .ok _ => none

theorem failure?_eq_some_iff {x : Except ε α} {e : ε} : failure? x = some e ↔ x = .error e := by
  cases x <;> simp [failure?]

theorem failure?_eq_none_iff {x : Except ε α} : failure? x = none ↔ ∃ a, x = .ok a := by
  cases x <;> simp [failure?]

theorem failure?_map (f : α → β) (x : Except ε α) : failure? (f <$> x) = failure? x := by
  cases x <;> rfl

section mapM

variable {f : α → Except ε β} {l : List α}

/-- Each thing has its result. -/
theorem mapM_eq_ok_iff_forall₂ {r : List β} :
    l.mapM f = .ok r ↔ List.Forall₂ (fun a b => f a = .ok b) l r := by
  induction l generalizing r with
  | nil =>
    rw [List.mapM_nil, List.forall₂_nil_left_iff]
    simp [pure, Except.pure, eq_comm]
  | cons a l ih =>
    rw [List.forall₂_cons_left_iff]
    cases ha : f a with
    | error e =>
      rw [mapM_cons_of_error ha]
      simp
    | ok b =>
      rw [mapM_cons_of_ok ha]
      constructor
      · intro h
        cases hl : l.mapM f with
        | error e => rw [hl] at h; cases h
        | ok r' =>
          rw [hl] at h
          cases h
          exact ⟨b, r', rfl, ih.mp hl, rfl⟩
      · rintro ⟨b', r', hb, hr, rfl⟩
        cases hb
        rw [ih.mpr hr]
        rfl

/-- When success has one meaning for each thing, it has that meaning for the list. -/
theorem mapM_eq_ok_iff_map {p : α → Prop} {g : α → β}
    (h : ∀ a b, f a = .ok b ↔ p a ∧ b = g a) {r : List β} :
    l.mapM f = .ok r ↔ (∀ a ∈ l, p a) ∧ r = l.map g := by
  rw [mapM_eq_ok_iff_forall₂]
  simp only [h]
  induction l generalizing r with
  | nil => simp [List.forall₂_nil_left_iff]
  | cons a l ih =>
    simp only [List.forall₂_cons_left_iff, ih, List.forall_mem_cons, List.map_cons]
    constructor
    · rintro ⟨b, r', ⟨ha, rfl⟩, ⟨hl, rfl⟩, rfl⟩
      exact ⟨⟨ha, hl⟩, rfl⟩
    · rintro ⟨⟨ha, hl⟩, rfl⟩
      exact ⟨_, _, ⟨ha, rfl⟩, ⟨hl, rfl⟩, rfl⟩

/-- The first failure is the one found first. -/
theorem failure?_mapM : failure? (l.mapM f) = l.findSome? fun a => failure? (f a) := by
  induction l with
  | nil => rfl
  | cons a l ih =>
    rw [List.findSome?_cons, ← ih]
    cases ha : f a with
    | error e =>
      rw [mapM_cons_of_error ha]
      rfl
    | ok b =>
      rw [mapM_cons_of_ok ha]
      exact failure?_map _ _

/-- The first failure decides. -/
theorem mapM_eq_error_iff_split {e : ε} : l.mapM f = .error e ↔
    ∃ before a after, l = before ++ a :: after ∧ (∀ x ∈ before, ∃ b, f x = .ok b) ∧
      f a = .error e := by
  rw [← failure?_eq_some_iff, failure?_mapM, List.findSome?_eq_some_iff]
  simp only [failure?_eq_some_iff, failure?_eq_none_iff, and_comm]

end mapM

section forM

variable {f : α → Except ε Unit} {l : List α}

end forM

section findSome?

variable {f : α × Nat → Option β} {l : List α}

/-- In a list that is counted through, something is found at the first position that has it. -/
theorem findSome?_zipIdx_eq_some_iff {b : β} :
    l.zipIdx.findSome? f = some b ↔ ∃ k a, l[k]? = some a ∧ f (a, k) = some b ∧
      ∀ j < k, ∀ a', l[j]? = some a' → f (a', j) = none := by
  have hat (k : Nat) : l.zipIdx[k]? = l[k]?.map fun a => (a, k) := by
    rw [List.getElem?_zipIdx, Nat.zero_add]
  rw [List.findSome?_eq_some_iff]
  constructor
  · rintro ⟨before, x, after, hsplit, hb, hbefore⟩
    -- The position is the length of the part of the counted list in which nothing is found.
    have hx : l[before.length]?.map (fun a => (a, before.length)) = some x := by
      rw [← hat, hsplit, List.getElem?_append_right (Nat.le_refl _), Nat.sub_self,
        List.getElem?_cons_zero]
    obtain ⟨a, ha, rfl⟩ := Option.map_eq_some_iff.mp hx
    refine ⟨before.length, a, ha, hb, fun j hj a' ha' => hbefore _ ?_⟩
    have hj' : l.zipIdx[j]? = some (a', j) := by rw [hat, ha', Option.map_some]
    rw [hsplit, List.getElem?_append_left hj] at hj'
    exact List.mem_of_getElem? hj'
  · rintro ⟨k, a, ha, hb, hbefore⟩
    have hk : l.zipIdx[k]? = some (a, k) := by rw [hat, ha, Option.map_some]
    refine ⟨l.zipIdx.take k, (a, k), l.zipIdx.drop (k + 1), ?_, hb, ?_⟩
    · have hdrop := List.drop_eq_getElem?_toList_append (l := l.zipIdx) (i := k)
      rw [hk, Option.toList_some, List.singleton_append] at hdrop
      rw [← hdrop, List.take_append_drop]
    · intro x hx
      obtain ⟨j, hj⟩ := List.mem_iff_getElem?.mp hx
      rw [List.getElem?_take] at hj
      split at hj
      · rename_i hlt
        rw [hat] at hj
        obtain ⟨a', ha', rfl⟩ := Option.map_eq_some_iff.mp hj
        exact hbefore j hlt a' ha'
      · cases hj

end findSome?
end EofVerifier.Traversal
