/-! # Reading command-line options

A `Grammar` says which options and flags a command has and how its words are taken; a word is
an argument that is neither.  `Grammar.read` goes through the arguments and fills in a draft
of what the command is to do.

* `--name` and `--name=value` are long options, `-abc` are the short flags `a`, `b` and `c`.
  After a lone `--` everything is a word, and a lone `-` is a word too.
* The value of an option is attached with `=` or is the next argument, unless that one starts
  with a dash.
* What is given is judged late.  The value that follows an option stays pending, and so do
  words, until another known option, a flag or a word of another kind comes up, or the
  arguments end.  An unknown option, a value attached to a flag, or a word too many is
  reported as soon as it is met, before anything that is still pending. -/

namespace EofVerifier.Command

/-- Why the arguments are refused, or that help is asked for. -/
inductive UsageError where
  | help
  /-- There is no argument that names a command. -/
  | noCommand
  | unknownCommand
  /-- An argument that the command needs is missing. -/
  | missingArgument
  /-- An option is unknown, or there is a word too many. -/
  | unknownArgument
  /-- An option or flag that may be given once is given again. -/
  | repeated
  /-- An option has no value, or a path is empty. -/
  | missingValue
  /-- A value is attached to a flag. -/
  | unexpectedValue
  /-- A number does not parse or is out of range. -/
  | invalidNumber
  /-- The signature of a called section does not parse. -/
  | invalidCallee (text : String)
deriving DecidableEq, Repr

/-- What there is to say about the error beyond its kind. -/
def UsageError.message? : UsageError → Option String
  | invalidCallee text =>
    some s!"invalid callee signature `{text}`, expected INPUTS,OUTPUTS,MAX_STACK_HEIGHT"
  | _ => none

/-- The options, flags and words of a command that fills in drafts of type `δ`; `ω` and `φ` name
its options and flags. -/
structure Grammar (ω φ δ : Type) where
  /-- The option with this long name. -/
  option? : String → Option ω
  /-- The flag with this long name. -/
  flag? : String → Option φ
  /-- The flag with this short name. -/
  short? : Char → Option φ
  putOption : ω → String → δ → Except UsageError δ
  putFlag : φ → δ → Except UsageError δ
  /-- Takes in words that stand next to each other. -/
  putWords : List String → δ → Except UsageError δ
  /-- Whether there may be more than one word. -/
  manyWords : Bool

/-- What has been read but not judged. -/
inductive Pending (ω : Type) where
  | nothing
  /-- An option, with its value if it has come. -/
  | option (o : ω) (value : Option String)
  /-- Words, the latest first. -/
  | words (ws : List String)

/-- How far reading has come. -/
structure Progress (ω δ : Type) where
  /-- What has been read but not judged. -/
  pending : Pending ω
  /-- Whether there has been a word. -/
  hasWord : Bool
  /-- What has been taken in. -/
  draft : δ

/-- The kinds of argument by their look. -/
inductive Argument where
  | separator
  /-- A long option with the value attached to it, if there is one. -/
  | long (name : String) (value : Option String)
  /-- One or more short flags. -/
  | shorts (names : List Char)
  /-- Anything else. -/
  | word (text : String)
deriving DecidableEq, Repr

/-- Classifies an argument. -/
def Argument.ofString (text : String) : Argument :=
  match text.toList with
  | ['-', '-'] => .separator
  | '-' :: '-' :: rest =>
    let name := String.ofList (rest.takeWhile (· ≠ '='))
    match rest.dropWhile (· ≠ '=') with
    | _ :: value => .long name (some (String.ofList value))
    | [] => .long name none
  | '-' :: c :: rest => .shorts (c :: rest)
  | _ => .word text

namespace Grammar

variable {ω φ δ : Type}

/-- Takes in what is pending. -/
def settle (g : Grammar ω φ δ) (p : Progress ω δ) : Except UsageError (Progress ω δ) :=
  match p.pending with
  | .nothing => .ok p
  | .option _ none => .error .missingValue
  | .option o (some value) =>
    (g.putOption o value p.draft).map fun draft => { p with pending := .nothing, draft }
  | .words ws =>
    (g.putWords ws.reverse p.draft).map fun draft => { p with pending := .nothing, draft }

/-- Takes in a flag, after what is pending. -/
def readFlag (g : Grammar ω φ δ) (f : φ) (p : Progress ω δ) :
    Except UsageError (Progress ω δ) := do
  let p ← g.settle p
  return { p with draft := ← g.putFlag f p.draft }

/-- Reads a long option. -/
def readLong (g : Grammar ω φ δ) (name : String) (value : Option String) (p : Progress ω δ) :
    Except UsageError (Progress ω δ) :=
  match g.option? name, g.flag? name, value with
  | some o, _, none => do return { ← g.settle p with pending := .option o none }
  | some o, _, some value => do
    let p ← g.settle p
    return { p with draft := ← g.putOption o value p.draft }
  | none, some _, some _ => .error .unexpectedValue
  | none, some f, none => g.readFlag f p
  | none, none, _ => .error .unknownArgument

/-- Reads short flags, from left to right. -/
def readShorts (g : Grammar ω φ δ) (names : List Char) (p : Progress ω δ) :
    Except UsageError (Progress ω δ) :=
  names.foldlM (fun p c =>
    match g.short? c with
    | some f => g.readFlag f p
    | none => .error .unknownArgument) p

/-- Reads a word that is no value of an option. -/
def readWord (g : Grammar ω φ δ) (w : String) (p : Progress ω δ) :
    Except UsageError (Progress ω δ) :=
  if p.hasWord ∧ g.manyWords = false then .error .unknownArgument
  else match p.pending with
    | .words ws => .ok { p with pending := .words (w :: ws) }
    | _ => do return { ← g.settle p with pending := .words [w], hasWord := true }

/-- Reads an argument before the separator. -/
def readArgument (g : Grammar ω φ δ) (p : Progress ω δ) : Argument →
    Except UsageError (Progress ω δ)
  | .separator => .ok p
  | .long name value => g.readLong name value p
  | .shorts names => g.readShorts names p
  | .word w =>
    match p.pending with
    | .option o none => .ok { p with pending := .option o (some w) }
    | _ => g.readWord w p

/-- Reads arguments up to the separator, and all that follows it as words. -/
def readAll (g : Grammar ω φ δ) (p : Progress ω δ) : List String →
    Except UsageError (Progress ω δ)
  | [] => .ok p
  | a :: rest =>
    match Argument.ofString a with
    | .separator => rest.foldlM (fun p w => g.readWord w p) p
    | arg => do g.readAll (← g.readArgument p arg) rest

/-- Reads all arguments into the draft. -/
def read (g : Grammar ω φ δ) (draft : δ) (args : List String) : Except UsageError δ := do
  let p ← g.readAll { pending := .nothing, hasWord := false, draft } args
  return (← g.settle p).draft

end Grammar

end EofVerifier.Command
