import EofVerifier.Container.Basic

/-! # Verification by several workers

The sections of a container can be verified independently.  They are cut into chunks of equal
size, the last one possibly shorter, and each worker takes a chunk and verifies its sections
under the indices that they have in the container.  Workers may finish in any order, so a
result carries the number of its chunk, and `joinFinished` puts the results in order before
it looks for the first rejection. -/

namespace EofVerifier.Container

/-- Cuts a list into chunks of `size`, the last one possibly shorter. -/
def chunksOf {α : Type} (size : Nat) (l : List α) : List (List α) :=
  if _h : size = 0 ∨ l = [] then [] else l.take size :: chunksOf size (l.drop size)
termination_by l.length
decreasing_by
  have := List.length_pos_iff.2 (fun e => _h (.inr e))
  simp; omega

/-- What a worker hands in. -/
structure Finished where
  chunk : Nat
  /-- The heights of its sections, or its first rejection. -/
  result : Except Rejection (List UInt16)

/-- Number of workers that have something to do. -/
def activeWorkers (c : Container) (workers : Nat) : Nat :=
  min workers c.code.length

/-- Number of sections in a chunk: the least with which the workers take all of them. -/
def chunkSize (c : Container) (workers : Nat) : Nat :=
  (c.code.length + c.activeWorkers workers - 1) / c.activeWorkers workers

/-- The result of the worker that takes chunk number `chunk`. -/
def work (c : Container) (workers : Nat) (codes : List Code) (chunk : Nat) : Finished :=
  { chunk, result := (verifyFrom c.types (chunk * c.chunkSize workers) codes).result }

/-- The results of all workers, in the order of their chunks. -/
def allWork (c : Container) (workers : Nat) : List Finished :=
  (chunksOf (c.chunkSize workers) c.code).zipIdx.map fun (codes, k) => c.work workers codes k

/-- Joins results that came in any order. -/
def joinFinished (finished : List Finished) : Except Rejection (List UInt16) := do
  let inOrder := finished.mergeSort fun a b => a.chunk ≤ b.chunk
  return (← inOrder.mapM (·.result)).flatten

/-- Verifies the container with at most this many workers. -/
def verifyParallel (workers : Nat) (c : Container) : Except Rejection (List UInt16) :=
  if c.activeWorkers workers ≤ 1 then c.verify
  else do
    c.checkTypes
    joinFinished (c.allWork workers)

end EofVerifier.Container
