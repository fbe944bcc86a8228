import EofVerifier.Assembly.Resolve
import EofVerifier.Container.Parallel
import EofVerifier.Suite.Basic

/-! # Running a suite

The cases of a suite are run in the order of the names of groups and, within a group, of
cases.  A case fails if one of its sections cannot be assembled, whatever is expected, and
otherwise if the outcome of its container is not the expected one.  The `Report` counts the
cases and lists those that failed.

The sections of a container are verified one after the other or by several workers
(`Schedule`).  Both come to the same report; events of single sections are only given for the
former. -/

namespace EofVerifier

/-- How the sections of a container are verified. -/
inductive Schedule where
  | sequential
  | parallel (workers : Nat)
deriving DecidableEq, Repr

/-- Verifies a container. -/
def Container.verifyWith (c : Container) : Schedule → Logged (Except Rejection (List UInt16))
  | .sequential => c.verifyLogged
  | .parallel workers => { events := [], result := c.verifyParallel workers }

/-- A rejection with its name in front. -/
def Rejection.describe (r : Rejection) : String :=
  s!"{r.name} ({r.message})"

/-- A case that did not have its expected outcome. -/
structure CaseFailure where
  group : String
  case : String
  /-- What should have come out. -/
  expected : Expectation
  /-- What came out: heights, or the text of an error. -/
  outcome : Except String (List UInt16)

/-- What comes of running a suite. -/
structure Report where
  /-- Number of cases run. -/
  total : Nat
  /-- The cases that failed, in order. -/
  failures : List CaseFailure

/-- Assembles the sections of a case, up to the first that cannot be assembled. -/
def Case.assemble (c : Case) : Except AssemblyError Container := do
  return { code := ← c.sources.mapM EofVerifier.assemble, types := c.types }

/-- Runs the case of these names, and gives the failure if it fails. -/
def Case.run (schedule : Schedule) (group name : String) (c : Case) :
    Logged (Option CaseFailure) :=
  let failure (outcome : Except String (List UInt16)) : CaseFailure :=
    { group, case := name, expected := c.expected, outcome }
  match c.assemble with
  | .error e =>
    { events := [.caseNotAssembled group name e], result := some (failure (.error e.message)) }
  | .ok container =>
    let verdict := container.verifyWith schedule
    { events := verdict.events
      result :=
        if c.expected.matches verdict.result then none
        else some (failure (verdict.result.mapError Rejection.describe)) }

namespace Suite

/-- The cases of a suite with the names of their groups and their own, in order. -/
def allCases (s : Suite) : List (String × String × Case) :=
  s.toList.flatMap fun (group, g) => g.cases.toList.map fun (name, c) => (group, name, c)

/-- Runs all cases. -/
def run (schedule : Schedule) (s : Suite) : Logged Report :=
  let outcomes := (allCases s).map fun (group, name, c) => c.run schedule group name
  { events := outcomes.flatMap (·.events)
    result := { total := outcomes.length, failures := outcomes.filterMap (·.result) } }

end Suite

end EofVerifier
