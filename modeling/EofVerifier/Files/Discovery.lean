import EofVerifier.Files.Entry

/-! # Finding suite files

`Entry.suiteFiles` lists the suite files at or below a path, at any depth and with hidden
directories included.  A directory is gone through in the order of its names, and what a
subdirectory holds stands at the place of the subdirectory.  Paths are extended as they are
given, without making them shorter. -/

namespace EofVerifier.Files

/-- Tells whether a file name ends in `.json` with something in front of it. -/
def isSuiteName (name : String) : Bool :=
  name.endsWith ".json" && name ≠ ".json"

/-- The last step of a path. -/
def lastStep (path : String) : String :=
  (Entry.steps path).getLastD ""

/-- The path of an entry of the directory at `path`. -/
def child (path name : String) : String :=
  if path.endsWith "/" then path ++ name else path ++ "/" ++ name

/-- A file that has been found. -/
structure Found where
  path : String
  content : ByteArray

namespace Entry

mutual

/-- The suite files at or below `path`, where this entry lies, in order. -/
def suiteFiles (path : String) : Entry → List Found
  | file content => if isSuiteName (lastStep path) then [{ path, content }] else []
  | directory entries =>
    ((suiteFilesByName path entries).mergeSort fun a b => a.1 ≤ b.1).flatMap (·.2)

/-- For each entry of the directory at `path`, its name and the suite files at or below it. -/
def suiteFilesByName (path : String) : List (String × Entry) → List (String × List Found)
  | [] => []
  | (name, e) :: es => (name, e.suiteFiles (child path name)) :: suiteFilesByName path es

end

end Entry

end EofVerifier.Files
