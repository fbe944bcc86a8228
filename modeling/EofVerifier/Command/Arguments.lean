import EofVerifier.Command.Options
import EofVerifier.Signature.Basic
import EofVerifier.Text.Blank
import EofVerifier.Text.Decimal

/-! # The commands and their arguments

There are two commands.  `validate` verifies one code section whose signature, and those of
the sections that it calls, are given as options.  `suite` runs the suite files at or below
the given paths.

A command can be named by any text that its name alone starts with; `help` counts as a name
as well.  `Command.ofArguments` reads a whole command line. -/

namespace EofVerifier

namespace Command

/-- Where the assembler text comes from. -/
inductive Source where
  | text (text : String)
  | file (path : String)
deriving DecidableEq, Repr

/-- What `validate` is to do. -/
structure ValidateOptions where
  source : Source
  /-- The signature of the section. -/
  own : Signature
  /-- The signatures of the sections that can be called, from index one on. -/
  callees : List Signature
  /-- Whether to print a listing first. -/
  print : Bool
deriving DecidableEq, Repr

/-- What `suite` is to do. -/
structure SuiteOptions where
  /-- The files and directories to search, at least one. -/
  paths : List String
  /-- Whether sections are verified one after the other. -/
  singleThread : Bool
deriving DecidableEq, Repr

/-! ### Values -/

/-- Sets something that may be set once. -/
def once {α : Type} (old : Option α) (new : Except UsageError α) :
    Except UsageError (Option α) :=
  if old.isSome then .error .repeated else new.map some

/-- Reads a number from zero to `bound`; it may have a sign. -/
def readNumber (bound : Nat) (text : String) : Except UsageError Nat :=
  match Text.Decimal.readSigned? text.toList with
  | some n => if 0 ≤ n ∧ n ≤ bound then .ok n.toNat else .error .invalidNumber
  | none => .error .invalidNumber

/-- Reads a path, which must not be empty. -/
def readPath (text : String) : Except UsageError String :=
  if text = "" then .error .missingValue else .ok text

/-- Reads three numbers with commas between them and any blanks around them. -/
def readSignature? (text : String) : Option Signature :=
  match (Text.pieces (· = ',') text.toList).map Text.trim with
  | [i, o, m] => do
    let i ← Text.Decimal.readUnsigned? 0xFF i
    let o ← Text.Decimal.readUnsigned? 0xFF o
    let m ← Text.Decimal.readUnsigned? 0xFFFF m
    return { inputs := UInt8.ofNat i, outputs := UInt8.ofNat o, maxStackHeight := UInt16.ofNat m }
  | _ => none

/-- Reads the signature of a section that can be called. -/
def readCallee (text : String) : Except UsageError Signature :=
  match readSignature? text with
  | some s => .ok s
  | none => .error (.invalidCallee text)

/-! ### The command `validate` -/

/-- The options of `validate` with a value. -/
inductive ValidateOption where
  | file | inputs | outputs | maxStackHeight | callee
deriving DecidableEq, Repr

/-- The flags of `validate`. -/
inductive ValidateFlag where
  | print | help
deriving DecidableEq, Repr

/-- What has been read of the arguments of `validate`. -/
structure ValidateDraft where
  text : Option String := none
  file : Option String := none
  inputs : Option Nat := none
  outputs : Option Nat := none
  maxStackHeight : Option Nat := none
  callees : List Signature := []
  print : Bool := false

/-- Takes in an option of `validate`. -/
def ValidateDraft.put (value : String) (d : ValidateDraft) :
    ValidateOption → Except UsageError ValidateDraft
  | .file => do return { d with file := ← once d.file (readPath value) }
  | .inputs => do return { d with inputs := ← once d.inputs (readNumber 0xFF value) }
  | .outputs => do return { d with outputs := ← once d.outputs (readNumber 0xFF value) }
  | .maxStackHeight => do
    return { d with maxStackHeight := ← once d.maxStackHeight (readNumber 0xFFFF value) }
  | .callee => do return { d with callees := d.callees ++ [← readCallee value] }

/-- How the arguments of `validate` are read. -/
def validateGrammar : Grammar ValidateOption ValidateFlag ValidateDraft where
  option?
    | "file" => some .file
    | "inputs" => some .inputs
    | "outputs" => some .outputs
    | "max-stack-height" => some .maxStackHeight
    | "callee" => some .callee
    | _ => none
  flag?
    | "print" => some .print
    | "help" => some .help
    | _ => none
  short? c := if c = 'h' then some .help else none
  putOption o value d := d.put value o
  putFlag
    | .print, d => if d.print then .error .repeated else .ok { d with print := true }
    | .help, _ => .error .help
  putWords ws d := .ok { d with text := ws.head? }
  manyWords := false

/-- What `validate` is to do.  A file takes precedence over a text on the command line. -/
def ValidateDraft.finish (d : ValidateDraft) : Except UsageError ValidateOptions :=
  match d.file.map Source.file <|> d.text.map Source.text, d.maxStackHeight with
  | some source, some maxStackHeight =>
    .ok {
      source
      own := {
        inputs := UInt8.ofNat (d.inputs.getD 0)
        outputs := UInt8.ofNat (d.outputs.getD 0)
        maxStackHeight := UInt16.ofNat maxStackHeight }
      callees := d.callees
      print := d.print }
  | _, _ => .error .missingArgument

/-! ### The command `suite` -/

/-- The flags of `suite`. -/
inductive SuiteFlag where
  | singleThread | help
deriving DecidableEq, Repr

/-- How the arguments of `suite` are read. -/
def suiteGrammar : Grammar Empty SuiteFlag SuiteOptions where
  option? _ := none
  flag?
    | "single-thread" => some .singleThread
    | "help" => some .help
    | _ => none
  short? c := if c = 's' then some .singleThread else if c = 'h' then some .help else none
  putOption o := o.elim
  putFlag
    | .singleThread, d =>
      if d.singleThread then .error .repeated else .ok { d with singleThread := true }
    | .help, _ => .error .help
  putWords ws d := do return { d with paths := d.paths ++ (← ws.mapM readPath) }
  manyWords := true

/-! ### The command line -/

/-- The names of commands. -/
inductive Name where
  | validate | suite | help
deriving DecidableEq, Repr

/-- The name in full. -/
def Name.text : Name → String
  | validate => "validate"
  | suite => "suite"
  | help => "help"

/-- All names. -/
def Name.all : List Name := [.validate, .suite, .help]

/-- The command whose name, and no other, starts with this text. -/
def Name.ofString? (text : String) : Option Name :=
  match all.filter (·.text.startsWith text) with
  | [name] => some name
  | _ => none

/-- Asks for help on the commands named, which must be none or one, and in full. -/
def helpOn : List String → UsageError
  | [] => .help
  | [name] => if name ∈ Name.all.map Name.text then .help else .unknownCommand
  | _ => .unknownCommand

end Command

/-- What the program is to do. -/
inductive Command where
  | validate (options : Command.ValidateOptions)
  | suite (options : Command.SuiteOptions)
deriving DecidableEq, Repr

namespace Command

/-- Reads the arguments that follow the name of a command. -/
def ofNamed (args : List String) : Name → Except UsageError Command
  | .validate => do
    return .validate (← (← validateGrammar.read {} args).finish)
  | .suite => do
    let options ← suiteGrammar.read { paths := [], singleThread := false } args
    if options.paths = [] then throw .missingArgument
    return .suite options
  | .help => .error (helpOn args)

/-- Reads a command line.  Before the name of the command only a request for help may stand, or
a separator after which nothing is taken for a name. -/
def ofArguments : List String → Except UsageError Command
  | [] => .error .noCommand
  | a :: args =>
    match Argument.ofString a with
    | .word w =>
      match Name.ofString? w with
      | some name => ofNamed args name
      | none => .error .unknownCommand
    | .long "help" none => .error .help
    | .long "help" (some _) => .error .unexpectedValue
    | .long _ _ => .error .unknownArgument
    | .shorts names => .error (if names.head? = some 'h' then .help else .unknownArgument)
    | .separator =>
      match args with
      | [] => .error .noCommand
      | w :: _ =>
        .error (if (Name.ofString? w).isSome then .unknownArgument else .unknownCommand)

end Command

end EofVerifier
