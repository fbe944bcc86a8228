import EofVerifier.Text.Blank

/-! # Files and directories

An `Entry` is what a path can lead to: a file with its bytes, or a directory with named
entries.  `Entry.find?` follows a relative path from a directory.  Steps that are empty or a
single dot stay where they are and two dots lead to the directory above; every step, also the
empty one after a slash at the end, starts from a directory. -/

namespace EofVerifier.Files

/-- A file or a directory. -/
inductive Entry where
  | file (content : ByteArray)
  /-- A directory, with what it holds by name. -/
  | directory (entries : List (String × Entry))

namespace Entry

/-- The entries of a directory. -/
def entries? : Entry → Option (List (String × Entry))
  | directory entries => some entries
  | file _ => none

/-- The text of a file, if it is a file that holds UTF-8 text. -/
def text? : Entry → Option String
  | file content => String.fromUTF8? content
  | directory _ => none

/-- Follows the steps of a path from `here`, where `above` are the directories that `here` lies
in, the nearest first. -/
def follow (above : List Entry) (here : Entry) : List String → Option Entry
  | [] => some here
  | step :: steps =>
    match here.entries? with
    | none => none
    | some entries =>
      if step = "" ∨ step = "." then follow above here steps
      else if step = ".." then
        match above with
        | [] => none
        | parent :: above => follow above parent steps
      else
        match entries.lookup step with
        | none => none
        | some child => follow (here :: above) child steps

/-- The steps of a path. -/
def steps (path : String) : List String :=
  (Text.pieces (· = '/') path.toList).map String.ofList

/-- What a relative path leads to from the directory `root`. -/
def find? (root : Entry) (path : String) : Option Entry :=
  if path = "" ∨ path.startsWith "/" then none else follow [] root (steps path)

end Entry

end EofVerifier.Files
