import EofVerifier.Command.Arguments
import EofVerifier.Command.Report
import EofVerifier.Files.Discovery
import EofVerifier.Listing
import EofVerifier.Suite.Json

/-! # Running the commands

A command reads entries of the file system, which are given to it as a function from paths, and
writes text.  It ends at its first error, and what it has written and reported by then stays
(`CommandM`).

* `validate` prints a listing if it is asked to, checks all signatures, and then verifies the
  section under index zero, whatever its inputs and outputs.
* `suite` takes one path after the other.  For each it runs all suite files, prints the cases
  that failed, and a summary.  A path that does not exist, has no suite file, or has a case
  that failed ends the command. -/

namespace EofVerifier

/-- Why a command fails. -/
inductive CommandError where
  /-- There is nothing at the path. -/
  | pathMissing
  /-- There is no suite file at or below the path. -/
  | noSuiteFiles
  /-- A file cannot be read, or is no text. -/
  | unreadable
  /-- The file at this path is no suite file. -/
  | notASuite (path : String)
  /-- The code cannot be assembled. -/
  | assembly (error : AssemblyError)
  /-- The code or a signature is invalid. -/
  | rejected (rejection : Rejection)
  /-- Cases did not have their expected outcome. -/
  | casesFailed (failed total : Nat)
deriving DecidableEq

/-- The error in words. -/
def CommandError.message : CommandError → String
  | pathMissing => "The specified path does not exist"
  | noSuiteFiles => "No json test files found"
  | unreadable => "The file cannot be read"
  | notASuite path => s!"{path}: not a suite file"
  | assembly error => error.message
  | rejected rejection => s!"invalid code: {rejection.message}"
  | casesFailed failed total => s!"EOF stack validation failed: {failed}/{total}"

namespace Command

/-- What a command has written and reported. -/
structure Output where
  text : String := ""
  events : List Event := []

/-- A computation that writes and may fail; what it wrote before it failed stays. -/
abbrev CommandM := ExceptT CommandError (StateM Output)

/-- What a path leads to. -/
abbrev FileSystem := String → Option Files.Entry

/-- Writes a text. -/
def write (text : String) : CommandM Unit :=
  modify fun out => { out with text := out.text ++ text }

/-- Reports an event. -/
def report (event : Event) : CommandM Unit :=
  modify fun out => { out with events := out.events ++ [event] }

/-- Takes over the events of a result. -/
def reportAll {α : Type} (r : Logged α) : CommandM α := do
  modify fun out => { out with events := out.events ++ r.events }
  return r.result

/-- Takes over a result that may be an error. -/
def orFail {ε α : Type} (cause : ε → CommandError) : Except ε α → CommandM α
  | .ok a => return a
  | .error e => throw (cause e)

/-! ### The command `validate` -/

/-- The assembler text. -/
def Source.load (files : FileSystem) : Source → CommandM String
  | .text t => return t
  | .file path => do
    let some entry := files path | throw .pathMissing
    let some t := entry.text? | throw .unreadable
    return t

/-- The signatures of the section and of those that it can call. -/
def ValidateOptions.types (o : ValidateOptions) : TypeSection :=
  (o.own :: o.callees).toArray

/-- Verifies the section and gives its largest height. -/
def ValidateOptions.verify (files : FileSystem) (o : ValidateOptions) : CommandM UInt16 := do
  let text ← o.source.load files
  let code ← orFail .assembly (assemble text)
  if o.print then write (Listing.render code)
  if let some e := TypeSection.firstInvalid? o.types then throw (.rejected e)
  report (.validating code.size o.types.size)
  let verdict ← reportAll (Section.verifyLogged o.types 0 code)
  orFail (fun failure => .rejected (.code 0 failure)) verdict

/-- Verifies the section and prints its largest height. -/
def ValidateOptions.run (files : FileSystem) (o : ValidateOptions) : CommandM Unit := do
  let height ← o.verify files
  write s!"valid: max_height={height.toNat}\n"

/-! ### The command `suite` -/

/-- What has come of the suite files at or below a path. -/
structure Summary where
  total : Nat := 0
  /-- Number of cases that had their expected outcome. -/
  passed : Nat := 0
  /-- How often each cause of failure occurred. -/
  causes : Tally := ∅

/-- Adds the report of one suite file. -/
def Summary.add (s : Summary) (r : Report) : Summary :=
  { total := s.total + r.total
    passed := s.passed + (r.total - r.failures.length)
    causes := r.failures.foldl (fun t f => t.bump (cause f)) s.causes }

/-- Runs a suite file and prints the cases that failed. -/
def runFile (schedule : Schedule) (file : Files.Found) : CommandM Report := do
  let some text := String.fromUTF8? file.content | throw .unreadable
  let some s := Suite.ofText? text | throw (.notASuite file.path)
  let r ← reportAll (s.run schedule)
  report (.suiteDone file.path r.total r.failures.length)
  write (String.join (r.failures.map renderFailure))
  return r

/-- Runs the suite files at or below a path and prints a summary. -/
def runPath (files : FileSystem) (schedule : Schedule) (path : String) : CommandM Unit := do
  let some entry := files path | throw .pathMissing
  let found := entry.suiteFiles path
  if found.isEmpty then throw .noSuiteFiles
  let s ← found.foldlM (fun s file => return s.add (← runFile schedule file)) ({} : Summary)
  write s!"Passed tests: {s.passed}/{s.total}\n"
  if s.passed ≠ s.total then
    write s!"Types of error: {s.causes.render}\n"
    throw (.casesFailed (s.total - s.passed) s.total)

/-- Number of workers that verify the sections of a container. -/
def workers : Nat := 8

/-- How the sections of a container are to be verified. -/
def SuiteOptions.schedule (o : SuiteOptions) : Schedule :=
  if o.singleThread then .sequential else .parallel workers

/-- Runs the suite files at or below each path. -/
def SuiteOptions.run (files : FileSystem) (o : SuiteOptions) : CommandM Unit :=
  o.paths.forM (runPath files o.schedule)

/-- The paths that a command looks up. -/
def paths : Command → List String
  | validate { source := .file path, .. } => [path]
  | validate { source := .text _, .. } => []
  | suite o => o.paths

/-- Runs a command, and gives what it writes and reports beside its result. -/
def run (files : FileSystem) (c : Command) : Except CommandError Unit × Output :=
  let action : CommandM Unit :=
    match c with
    | validate o => o.run files
    | suite o => o.run files
  (action.run).run {}

end Command

end EofVerifier
