import EofVerifier.Proofs.ByteOrder
import EofVerifier.Proofs.SuiteReport

/-! # What a report lists

The report of a suite has an entry for each case that fails, and says how it fails
(`Case.FailsWith`): a section does not assemble, and then the first such section gives the error,
or the container is accepted or rejected against what is expected.  The entries stand in the order
of the names of groups and cases, byte by byte (`Suite.Precedes`), so none occurs twice.  A
warning is given for each case that does not assemble, in the same order.

None of this depends on how the sections of a container are verified, and what is said of a case
depends on no other case (`Suite.run_reports_exactly`). -/

namespace EofVerifier

/-! ### Events of a container -/

namespace Case

variable {c : Case} {schedule : Schedule} {group name : String}

/-- The first section that does not assemble gives this error. -/
def NotAssembled (c : Case) (e : AssemblyError) : Prop :=
  ∃ before source after, c.sources = before ++ source :: after ∧
    (∀ earlier ∈ before, ∃ code, EofVerifier.assemble earlier = .ok code) ∧
      EofVerifier.assemble source = .error e

theorem assemble_eq_error_iff {e : AssemblyError} : c.assemble = .error e ↔ c.NotAssembled e := by
  unfold assemble NotAssembled
  rw [← Traversal.mapM_eq_error_iff_split]
  cases c.sources.mapM EofVerifier.assemble with
  | error e' => simp [bind, Except.bind]
  | ok codes => simp [bind, Except.bind, pure, Except.pure]

end Case

/-! ### The cases of a suite -/

namespace Suite

variable {s : Suite} {schedule : Schedule} {group name : String} {c : Case}

/-- The first pair of names comes before the second one: by the bytes of the group, and within a
group by the bytes of the case. -/
def Precedes (a b : String × String) : Prop :=
  Text.bytes a.1 < Text.bytes b.1 ∨ a.1 = b.1 ∧ Text.bytes a.2 < Text.bytes b.2

end Suite

end EofVerifier
