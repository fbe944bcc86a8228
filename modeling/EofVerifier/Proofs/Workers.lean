import EofVerifier.Container.Parallel
import EofVerifier.Proofs.ContainerVerdict
import EofVerifier.Proofs.ControlFlow
import Mathlib

/-! # Several workers, one verdict

Workers that verify chunks of a container come to the same verdict as one that goes through
it section by section, in whichever order they finish (`verifyFinishing`).

Two facts carry this.  The chunks, numbered, are the sections of the container with their
indices (`zipIdx_chunksOf`), so joining the results of the workers in the order of the chunks
is verifying the sections in their order (`joined_chunksOf`).  And results that come in
another order are put back in it, because no two of them carry the same number
(`joinFinished_of_perm`). -/

namespace EofVerifier.Container

variable {c : Container} {workers : Nat}

/-- The verdict when the workers hand in their results as listed. -/
def verifyFinishing (c : Container) (workers : Nat) (finished : List Finished) :
    Except Rejection (List UInt16) :=
  if c.activeWorkers workers ≤ 1 then c.verify
  else do
    c.checkTypes
    joinFinished finished

theorem verifyParallel_eq_verifyFinishing :
    c.verifyParallel workers = c.verifyFinishing workers (c.allWork workers) := rfl

/-! ### Chunks -/

section chunks

variable {α : Type} {size : Nat}

theorem zipIdx_take_append_drop (l : List α) (n size : Nat) :
    l.zipIdx n = (l.take size).zipIdx n ++ (l.drop size).zipIdx (n + size) := by
  by_cases hl : size ≤ l.length
  · conv_lhs => rw [← List.take_append_drop size l]
    rw [List.zipIdx_append, List.length_take, Nat.min_eq_left hl]
  · rw [List.take_of_length_le (by omega), List.drop_of_length_le (by omega)]
    simp

/-- The members of the chunks, counted from the first of each chunk, are the list counted
through. -/
theorem zipIdx_chunksOf (hsize : 0 < size) (l : List α) (n : Nat) :
    ((chunksOf size l).zipIdx n).flatMap (fun x => x.1.zipIdx (x.2 * size)) =
      l.zipIdx (n * size) := by
  fun_induction chunksOf size l generalizing n with
  | case1 l h =>
      obtain rfl : l = [] := h.resolve_left (by omega)
      rfl
  | case2 l h ih =>
      rw [List.zipIdx_cons, List.flatMap_cons, ih, zipIdx_take_append_drop l (n * size) size,
        Nat.succ_mul]

/-- Verifying chunk after chunk and joining the heights is verifying the whole list. -/
theorem joined_chunksOf (types : TypeSection) (hsize : 0 < size) (l : List Code) (n : Nat) :
    (do
      let results ← ((chunksOf size l).zipIdx n).mapM fun x =>
        (verifyFrom types (x.2 * size) x.1).result
      return results.flatten) = (verifyFrom types (n * size) l).result := by
  fun_induction chunksOf size l generalizing n with
  | case1 l h =>
      obtain rfl : l = [] := h.resolve_left (by omega)
      rfl
  | case2 l h ih =>
      have hrest : (verifyFrom types (n * size + (l.take size).length) (l.drop size)).result =
          (verifyFrom types ((n + 1) * size) (l.drop size)).result := by
        by_cases hl : size ≤ l.length
        · rw [List.length_take, Nat.min_eq_left hl, Nat.succ_mul]
        · rw [List.drop_of_length_le (by omega)]
          rfl
      conv_rhs => rw [← List.take_append_drop size l]
      rw [verifyFrom_append, hrest, ← ih, List.zipIdx_cons, List.mapM_cons]
      simp only [bind_assoc, pure_bind, List.flatten_cons]

end chunks

/-! ### Results in any order -/

theorem allWork_chunks (c : Container) (workers : Nat) :
    (c.allWork workers).map (·.chunk) =
      List.range' 0 (chunksOf (c.chunkSize workers) c.code).length := by
  unfold allWork
  rw [List.map_map]
  exact List.zipIdx_map_snd 0 _

/-- Results that came in any order are put back in the order of the chunks. -/
theorem mergeSort_of_perm {finished : List Finished} (hp : finished.Perm (c.allWork workers)) :
    finished.mergeSort (fun a b => a.chunk ≤ b.chunk) = c.allWork workers := by
  have hsorted : (finished.mergeSort fun a b => a.chunk ≤ b.chunk).Pairwise
      fun a b => a.chunk ≤ b.chunk :=
    List.pairwise_mergeSort' (Order.Preimage Finished.chunk (· ≤ ·)) finished
  have hchunks : (c.allWork workers).Pairwise fun a b => a.chunk ≤ b.chunk := by
    rw [← List.pairwise_map, allWork_chunks]
    exact List.pairwise_le_range'
  have hperm := (List.mergeSort_perm finished fun a b => a.chunk ≤ b.chunk).trans hp
  refine hperm.eq_of_pairwise (fun a b ha hb hab hba => ?_) hsorted hchunks
  refine List.inj_on_of_nodup_map ?_ (hperm.subset ha) hb (Nat.le_antisymm hab hba)
  rw [allWork_chunks]
  exact List.nodup_range'

theorem joinFinished_of_perm {finished : List Finished}
    (hp : finished.Perm (c.allWork workers)) (hsize : 0 < c.chunkSize workers) :
    joinFinished finished = (verifyFrom c.types 0 c.code).result := by
  unfold joinFinished
  rw [mergeSort_of_perm hp]
  simp only [allWork, List.mapM_map]
  have h := joined_chunksOf c.types hsize c.code 0
  rw [Nat.zero_mul] at h
  exact h

/-- Chunks are not empty when there is a section and a worker. -/
theorem chunkSize_pos (hw : 0 < workers) (hc : 0 < c.code.length) : 0 < c.chunkSize workers := by
  unfold chunkSize activeWorkers
  refine Nat.div_pos ?_ ?_ <;> omega

/-- The results of the workers, in any order, give the verdict of one worker. -/
theorem verifyFinishing_of_perm (hw : 0 < workers) {finished : List Finished}
    (hp : finished.Perm (c.allWork workers)) : c.verifyFinishing workers finished = c.verify := by
  unfold verifyFinishing
  split
  · rfl
  · rename_i hactive
    unfold activeWorkers at hactive
    have hsize : 0 < c.chunkSize workers := chunkSize_pos hw (by omega)
    cases hc : c.checkTypes with
    | error e =>
        rw [verify_of_checkTypes_error hc]
        rfl
    | ok u =>
        rw [verify_of_checkTypes_ok hc, ← joinFinished_of_perm hp hsize]
        rfl

/-- **Any number of workers, finishing in any order, give the verdict of one.**  That verdict
is the list of heights of all sections, or the failure of the first section that has one.  The
chunks hold each section once, and it is verified under its index in the container. -/
theorem workers_agree (c : Container) (workers : Nat) (hw : 1 ≤ workers) :
    c.verifyParallel workers = c.verify ∧
    (∀ finished, finished.Perm (c.allWork workers) →
      c.verifyFinishing workers finished = c.verify) ∧
    (∀ heights, c.verify = .ok heights ↔
      c.checkTypes = .ok () ∧ heights.length = c.code.length ∧
        ∀ (k : Nat) (code : Code), c.code[k]? = some code →
          ∃ h, heights[k]? = some h ∧ Section.verify c.types k code = .ok h) ∧
    (∀ index failure, c.verify = .error (.code index failure) ↔
      c.checkTypes = .ok () ∧ ∃ code, c.code[index]? = some code ∧
        Section.verify c.types index code = .error failure ∧
        ∀ j < index, ∀ code', c.code[j]? = some code' →
          ∃ h, Section.verify c.types j code' = .ok h) ∧
    ((chunksOf (c.chunkSize workers) c.code).zipIdx.flatMap fun x =>
      x.1.zipIdx (x.2 * c.chunkSize workers)) = c.code.zipIdx ∧
    c.allWork workers = (chunksOf (c.chunkSize workers) c.code).zipIdx.map fun x =>
      ⟨x.2, (x.1.zipIdx (x.2 * c.chunkSize workers)).mapM fun y => sectionVerdict c.types y.2 y.1⟩ := by
  refine ⟨?_, fun finished hp => verifyFinishing_of_perm hw hp, fun heights => verify_eq_ok_iff,
    fun index failure => verify_eq_code_error_iff, ?_, ?_⟩
  · rw [verifyParallel_eq_verifyFinishing]
    exact verifyFinishing_of_perm hw (List.Perm.refl _)
  · rcases Nat.eq_zero_or_pos c.code.length with hc | hc
    · rw [List.length_eq_zero_iff.mp hc, chunksOf, dif_pos (.inr rfl)]
      rfl
    · rw [zipIdx_chunksOf (chunkSize_pos hw hc), Nat.zero_mul]
  · unfold allWork work
    simp only [verifyFrom_eq_mapM]

open Instruction in
/-- Five sections, of which the second and the last take an item that is not there. -/
def twoFailures : Container where
  code := [#[ofByte 0x00], #[ofByte 0x50, ofByte 0xE4], #[ofByte 0xE4], #[ofByte 0xE4],
    #[ofByte 0x5F, ofByte 0x50, ofByte 0x50, ofByte 0xE4]]
  types := #[⟨0, 0, 0⟩, ⟨0, 0, 0⟩, ⟨0, 0, 0⟩, ⟨0, 0, 0⟩, ⟨0, 0, 1⟩]

/-- Three workers take two sections, two and one; the last to finish has the first failure. -/
theorem workers_agree_twoFailures :
    1 ≤ 3 ∧ (twoFailures.allWork 3).reverse.Perm (twoFailures.allWork 3) ∧
      twoFailures.verifyFinishing 3 (twoFailures.allWork 3).reverse =
        .error (.code 1 ⟨.stackUnderflow, 0⟩) := by
  have hp := List.reverse_perm (twoFailures.allWork 3)
  have hv : twoFailures.verify = .error (.code 1 ⟨.stackUnderflow, 0⟩) := by cbv
  refine ⟨by decide, hp, ?_⟩
  rw [(workers_agree twoFailures 3 (by decide)).2.1 _ hp, hv]

end EofVerifier.Container
