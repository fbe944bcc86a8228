import EofVerifier.Json.Record
import Std.Data.TreeMap

/-! # Dictionaries in JSON text

A dictionary is an object whose keys are free.  Its entries are kept in the order of the code
points of their keys.  If a key occurs more than once, the last value counts, but all of them
must be readable. -/

namespace EofVerifier.Json.Value

/-- An entry of a dictionary. -/
def keyed? {α : Type} (read? : Value → Option α) (m : Member) : Option (String × α) := do
  return (← m.1, ← read? m.2)

/-- An object whose members are read with `read?`. -/
def dictionary? {α : Type} (read? : Value → Option α) :
    Value → Option (Std.TreeMap String α compare)
  | object members => (members.mapM (keyed? read?)).map fun es => Std.TreeMap.ofList es compare
  | _ => none

end EofVerifier.Json.Value
