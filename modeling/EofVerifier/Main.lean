import EofVerifier.Command.Run

/-! # The program

Reads the command line, fetches what lies at the paths it names, runs the command, and prints
what the command writes.  The exit code is zero on success, one if the command fails, and two
if the command line is not understood. -/

namespace EofVerifier

/-- Fetches the file or directory at a path, with all that a directory holds. -/
partial def fetch (path : String) : IO (Option Files.Entry) := do
  try
    let here ← IO.FS.realPath path
    if ← here.isDir then
      let mut entries := []
      for e in ← here.readDir do
        if let some entry ← fetch (path ++ "/" ++ e.fileName) then
          entries := (e.fileName, entry) :: entries
      return some (.directory entries)
    else
      return some (.file (← IO.FS.readBinFile path))
  catch _ => return none

/-- How to call the program. -/
def usage : String :=
  "usage: validate [SOURCE] [--file FILE] --max-stack-height N [--inputs N] [--outputs N]\n" ++
  "                [--callee INPUTS,OUTPUTS,MAX_STACK_HEIGHT]... [--print]\n" ++
  "       suite [-s|--single-thread] PATH...\n"

/-- Runs a command on the files of the machine. -/
def perform (c : Command) : IO UInt32 := do
  let fetched ← c.paths.mapM fun path => return (path, ← fetch path)
  let (result, out) := c.run fun path => (fetched.lookup path).join
  IO.print out.text
  match result with
  | .ok () => return 0
  | .error e =>
    IO.eprintln s!"error: {e.message}"
    return 1

end EofVerifier

/-- Runs the command that the arguments name. -/
def main (args : List String) : IO UInt32 := do
  match EofVerifier.Command.ofArguments args with
  | .ok c => EofVerifier.perform c
  | .error .help =>
    IO.print EofVerifier.usage
    return 0
  | .error e =>
    if let some text := e.message? then IO.eprintln s!"error: {text}"
    IO.eprint EofVerifier.usage
    return 2
