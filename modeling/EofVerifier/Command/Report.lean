import EofVerifier.Suite.Run
import EofVerifier.Text.Quoted

/-! # How results are printed

The failed cases of a suite are printed one by one, each with what was expected and what came
out, and the causes are counted at the end (`Tally`).  Texts inside this output are quoted. -/

namespace EofVerifier.Command

/-- A value that may be missing. -/
def renderOption (value : Option String) : String :=
  match value with
  | none => "None"
  | some v => s!"Some({v})"

/-- An expectation with all its fields. -/
def renderExpectation (e : Expectation) : String :=
  let fields := ", ".intercalate [
    s!"valid: {e.valid}",
    s!"error: {renderOption (e.error.map Text.Quoted.encode)}",
    s!"section: {renderOption (e.index.map toString)}",
    s!"position: {renderOption (e.position.map toString)}"]
  "TestResult \x7b " ++ fields ++ " \x7d"

/-- Heights, or the text of an error. -/
def renderOutcome : Except String (List UInt16) → String
  | .ok heights =>
    let list := ", ".intercalate (heights.map fun h => toString h.toNat)
    s!"Ok([{list}])"
  | .error text => s!"Err({Text.Quoted.encode text})"

/-- A failed case, between empty lines. -/
def renderFailure (f : CaseFailure) : String :=
  s!"\nTest failed: {f.group} - {f.case}\nexpected: {renderExpectation f.expected}\n" ++
    s!"got: {renderOutcome f.outcome}\n\n"

/-- How often each cause occurs. -/
abbrev Tally := Std.TreeMap String Nat compare

/-- The cause that a failed case is counted under. -/
def cause (f : CaseFailure) : String :=
  match f.outcome with
  | .ok _ => "FalsePositive"
  | .error text => text

/-- Counts one more case of a cause. -/
def Tally.bump (t : Tally) (cause : String) : Tally :=
  t.alter cause fun n => some (n.getD 0 + 1)

/-- The counts, one on each line. -/
def Tally.render (t : Tally) : String :=
  if t.isEmpty then "\x7b\x7d"
  else
    let lines := t.toList.map fun (cause, n) => s!"    {Text.Quoted.encode cause}: {n},\n"
    "\x7b\n" ++ String.join lines ++ "\x7d"

end EofVerifier.Command
