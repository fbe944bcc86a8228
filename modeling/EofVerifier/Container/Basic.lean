import EofVerifier.Section.Verify

/-! # Containers

A `Container` is a list of code sections with a type section.  Its parts must fit together
before any code is looked at (`Container.checkTypes`); after that each section is verified on
its own, since a section depends on the others only through their signatures.  The sections
are taken in order, and the first invalid one decides. -/

namespace EofVerifier

/-- Code sections with their signatures. -/
structure Container where
  code : List Code
  types : TypeSection

/-- Why a container is refused. -/
inductive Rejection where
  /-- There is no code section. -/
  | noCode
  | tooManySections
  /-- There are more or fewer signatures than code sections. -/
  | countMismatch
  /-- The first section takes or returns items. -/
  | entrySignature
  | signature (index : Nat) (error : SignatureError)
  | code (index : Nat) (failure : Failure)
deriving DecidableEq

namespace Rejection

/-- The name of the most specific cause in suite files. -/
def name : Rejection → String
  | noCode => "NoCodeSections"
  | tooManySections => "TooManyCodeSections"
  | countMismatch => "MismatchCodeAndTypesSize"
  | entrySignature => "InvalidFirstCodeInfo"
  | signature _ error => error.name
  | code _ failure => failure.violation.name

/-- The rejection in words. -/
def message : Rejection → String
  | noCode => "No code sections"
  | tooManySections => "Too many code sections"
  | countMismatch => "Mismatch of code and types sizes"
  | entrySignature => "Invalid first types section"
  | signature index error => s!"Types section {index}: {error.message}"
  | code index failure => s!"Code section {index}: {failure.message}"

/-- The section that the rejection is about, if it is about one. -/
def index? : Rejection → Option Nat
  | signature index _ | code index _ => some index
  | noCode | tooManySections | countMismatch | entrySignature => none

/-- The instruction that the rejection is about, if it is about one. -/
def position? : Rejection → Option Nat
  | code _ failure => some failure.position
  | noCode | tooManySections | countMismatch | entrySignature | signature _ _ => none

end Rejection

/-- The first invalid signature. -/
def TypeSection.firstInvalid? (types : TypeSection) : Option Rejection :=
  types.toList.zipIdx.findSome? fun (s, index) =>
    match s.check with
    | .error e => some (.signature index e)
    | .ok () => none

/-- Tells whether the first section, where a run starts, takes and returns nothing. -/
def TypeSection.entryIsClosed (types : TypeSection) : Bool :=
  types[0]?.all fun s => s.inputs = 0 ∧ s.outputs = 0

namespace Container

/-- Checks the numbers of sections and the signatures. -/
def checkTypes (c : Container) : Except Rejection Unit :=
  if c.code.length = 0 then .error .noCode
  else if Limits.maxCodeSections < c.code.length then .error .tooManySections
  else if c.code.length ≠ c.types.size then .error .countMismatch
  else match TypeSection.firstInvalid? c.types with
    | some e => .error e
    | none => if TypeSection.entryIsClosed c.types then .ok () else .error .entrySignature

/-- Verifies code sections of which the first has this index, up to the first invalid one. -/
def verifyFrom (types : TypeSection) (index : Nat) :
    List Code → Logged (Except Rejection (List UInt16))
  | [] => { events := [], result := .ok [] }
  | code :: rest =>
    let head := Section.verifyLogged types index code
    match head.result with
    | .error failure => { events := head.events, result := .error (.code index failure) }
    | .ok height =>
      let tail := verifyFrom types (index + 1) rest
      { events := head.events ++ tail.events, result := tail.result.map (height :: ·) }

/-- Verifies the sections one after the other, and reports on each. -/
def verifyLogged (c : Container) : Logged (Except Rejection (List UInt16)) :=
  match c.checkTypes with
  | .error e => { events := [], result := .error e }
  | .ok () => verifyFrom c.types 0 c.code

/-- Verifies the container and gives the largest height of each section. -/
def verify (c : Container) : Except Rejection (List UInt16) :=
  c.verifyLogged.result

end Container

end EofVerifier
