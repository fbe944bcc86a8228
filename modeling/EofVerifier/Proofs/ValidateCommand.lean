import EofVerifier.Proofs.ContainerRules
import EofVerifier.Proofs.InstructionText
import EofVerifier.Proofs.SuiteCommand

/-! # The verdict of the command `validate`

The command verifies one section and knows of the others only their signatures, which stand on its
command line: three numerals with commas between them and blanks around them
(`SpellsSignature`).  A line that gives them option by option is read back as the options meant,
in their order (`ofArguments_arguments`).

The signatures are checked first, and then the section is verified under index zero
(`ValidateOptions.verdict`).  A container of which this is the first section goes through the same
two steps, with the counts checked before them, and between them that its first section takes and
returns nothing; only then do the other sections play a part.  So the two verdicts are the same as
far as the container's is about the signatures or the first section, and an acceptance by the
command tells nothing of the other sections (`validate_agrees_with_container`). -/

namespace EofVerifier

/-! ### Signatures as text -/

namespace Text

variable {before body after : List Char}

/-- Nothing is dropped in front of a body without blanks. -/
theorem dropWhile_isBlank_append (hne : body ≠ []) (hbody : ∀ c ∈ body, isBlank c = false)
    (after : List Char) : (body ++ after).dropWhile isBlank = body ++ after := by
  obtain ⟨c, cs, rfl⟩ := List.exists_cons_of_ne_nil hne
  rw [List.cons_append, List.dropWhile_cons, hbody c List.mem_cons_self]
  rfl

/-- A body without blanks is what is left between blanks. -/
theorem trim_append (hne : body ≠ []) (hbody : ∀ c ∈ body, isBlank c = false)
    (hbefore : ∀ c ∈ before, isBlank c = true) (hafter : ∀ c ∈ after, isBlank c = true) :
    trim (before ++ body ++ after) = body := by
  have hback : ∀ c ∈ body.reverse, isBlank c = false := fun c hc => hbody c (List.mem_reverse.mp hc)
  have hdropped := dropWhile_isBlank_append (by simpa using hne) hback []
  rw [List.append_nil] at hdropped
  unfold trim
  rw [List.append_assoc, List.dropWhile_append_of_pos hbefore,
    dropWhile_isBlank_append hne hbody, List.reverse_append,
    List.dropWhile_append_of_pos fun c hc => hafter c (List.mem_reverse.mp hc), hdropped,
    List.reverse_reverse]

theorem not_isBlank_of_isDigit {c : Char} (h : c.isDigit = true) : isBlank c = false := by
  have halnum : c.isAlphanum = true := by simp [Char.isAlphanum, h]
  exact (Assembly.isWordChar_eq_true_iff.mp (Assembly.isWordChar_of_isAlphanum halnum)).1

end Text

namespace Command

/-- The characters write this number in decimal, between any blanks. -/
def SpellsNumber (cs : List Char) (n : Nat) : Prop :=
  ∃ before digits after, cs = before ++ digits ++ after ∧ Text.Decimal.Denotes digits n ∧
    (∀ c ∈ before, Text.isBlank c = true) ∧ ∀ c ∈ after, Text.isBlank c = true

/-- The text writes the three numbers of this signature, with commas between them. -/
def SpellsSignature (text : String) (s : Signature) : Prop :=
  ∃ i o m, text.toList = i ++ ',' :: (o ++ ',' :: m) ∧ SpellsNumber i s.inputs.toNat ∧
    SpellsNumber o s.outputs.toNat ∧ SpellsNumber m s.maxStackHeight.toNat

section spelled

variable {cs : List Char} {n : Nat} {text : String} {s : Signature}

theorem SpellsNumber.comma_notMem (h : SpellsNumber cs n) : ',' ∉ cs := by
  obtain ⟨before, digits, after, rfl, hd, hbefore, hafter⟩ := h
  have hblank : Text.isBlank ',' ≠ true := by decide
  intro hmem
  simp only [List.mem_append] at hmem
  rcases hmem with (hmem | hmem) | hmem
  · exact hblank (hbefore _ hmem)
  · exact absurd (hd.2.1 _ hmem) (by decide)
  · exact hblank (hafter _ hmem)

/-- Without its blanks the number is read back. -/
theorem SpellsNumber.read (h : SpellsNumber cs n) (bound : Nat) (hle : n ≤ bound) :
    Text.Decimal.readUnsigned? bound (Text.trim cs) = some n := by
  obtain ⟨before, digits, after, rfl, hd, hbefore, hafter⟩ := h
  have hdigits : ∀ c ∈ digits, Text.isBlank c = false := fun c hc =>
    Text.not_isBlank_of_isDigit (hd.2.1 c hc)
  rw [Text.trim_append hd.1 hdigits hbefore hafter]
  exact Text.Decimal.readUnsigned?_eq_some_iff.mpr ⟨digits, .inl rfl, hd, hle⟩

/-- Commas cut a text into the parts between them. -/
theorem pieces_comma {i o m : List Char} (hi : ',' ∉ i) (ho : ',' ∉ o) (hm : ',' ∉ m) :
    Text.pieces (· = ',') (i ++ ',' :: (o ++ ',' :: m)) = [i, o, m] := by
  rw [Text.pieces_cut (by simp), Text.pieces_cut (by simp), Text.pieces_of_notMem hi,
    Text.pieces_of_notMem ho, Text.pieces_of_notMem hm]
  rfl

/-- A signature that is spelled is read back. -/
theorem SpellsSignature.read (h : SpellsSignature text s) : readCallee text = .ok s := by
  obtain ⟨i, o, m, htext, hi, ho, hm⟩ := h
  have hinputs := hi.read 0xFF (Nat.le_of_lt_succ s.inputs.toNat_lt)
  have houtputs := ho.read 0xFF (Nat.le_of_lt_succ s.outputs.toNat_lt)
  have hheight := hm.read 0xFFFF (Nat.le_of_lt_succ s.maxStackHeight.toNat_lt)
  have hread : readSignature? text = some s := by
    unfold readSignature?
    rw [htext, pieces_comma hi.comma_notMem ho.comma_notMem hm.comma_notMem]
    simp only [List.map_cons, List.map_nil, hinputs, houtputs, hheight, Option.bind_eq_bind,
      Option.bind_some, Option.pure_def, UInt8.ofNat_toNat, UInt16.ofNat_toNat]
  unfold readCallee
  rw [hread]

end spelled

/-! ### The command line -/

/-- The number in decimal. -/
def number (n : Nat) : String := String.ofList (Text.Decimal.digits n)

/-- An option with the value attached to it. -/
def attached (name value : String) : String := "--" ++ name ++ "=" ++ value

/-- The arguments that name a source. -/
def Source.arguments : Source → List String
  | .text t => ["--", t]
  | .file path => [attached "file" path]

/-- A command line of `validate`: the numbers of the section's own signature, the signatures of
the sections that it can call, one after the other, and the source. -/
def arguments (source : Source) (own : Signature) (callees : List String) (print : Bool) :
    List String :=
  "validate" :: attached "inputs" (number own.inputs.toNat) ::
    attached "outputs" (number own.outputs.toNat) ::
    attached "max-stack-height" (number own.maxStackHeight.toNat) ::
    (callees.map (attached "callee") ++ ((if print then ["--print"] else []) ++ source.arguments))

section line

variable {bound n : Nat} {name value : String} {rest : List String} {texts : List String}
  {callees : List Signature}

theorem readNumber_number (h : n ≤ bound) : readNumber bound (number n) = .ok n := by
  obtain ⟨hne, hdigit, -⟩ := Text.Decimal.denotes_digits n
  have hread : Text.Decimal.readSigned? (Text.Decimal.digits n) = some (n : Int) := by
    unfold Text.Decimal.readSigned?
    split
    · rename_i hcs
      exact absurd (hdigit '+' (hcs ▸ List.mem_cons_self)) (by decide)
    · rename_i hcs
      exact absurd (hdigit '-' (hcs ▸ List.mem_cons_self)) (by decide)
    · rw [Text.Decimal.read?_digits]
      rfl
  unfold readNumber number
  rw [String.toList_ofList, hread]
  simp [h]

/-- A value is attached behind the first equals sign. -/
theorem ofString_attached (hname : '=' ∉ name.toList) :
    Argument.ofString (attached name value) = .long name (some value) := by
  have htext : (attached name value).toList = '-' :: '-' :: (name.toList ++ '=' :: value.toList) := by
    simp [attached]
  have hall : ∀ c ∈ name.toList, decide (c ≠ '=') = true := by
    intro c hc
    rw [decide_eq_true_iff]
    rintro rfl
    exact hname hc
  unfold Argument.ofString
  rw [htext]
  split
  · rename_i heq
    simp at heq
  · rename_i after _ heq
    cases heq
    rw [List.takeWhile_append_of_pos hall, List.dropWhile_append_of_pos hall]
    simp
  · rename_i hdash heq
    cases heq
    exact (hdash rfl).elim
  · rename_i hdashes
    exact (hdashes _ _ rfl).elim

/-- How far reading has come when nothing is pending and there has been no word. -/
def settledAt (d : ValidateDraft) : Progress ValidateOption ValidateDraft :=
  { pending := .nothing, hasWord := false, draft := d }

/-- An option with its value is taken in at once. -/
theorem readAll_attached {o : ValidateOption} {d d' : ValidateDraft} (hname : '=' ∉ name.toList)
    (ho : validateGrammar.option? name = some o) (hput : d.put value o = .ok d') :
    validateGrammar.readAll (settledAt d) (attached name value :: rest) =
      validateGrammar.readAll (settledAt d') rest := by
  have hlong : validateGrammar.readLong name (some value) (settledAt d) = .ok (settledAt d') := by
    unfold Grammar.readLong
    rw [ho]
    have hput' : validateGrammar.putOption o value (settledAt d).draft = .ok d' := hput
    have hsettle : validateGrammar.settle (settledAt d) = .ok (settledAt d) := rfl
    simp only [hsettle, bind, Except.bind, hput']
    rfl
  rw [Grammar.readAll, ofString_attached hname]
  simp only [Grammar.readArgument, hlong]
  rfl

/-- The signatures are taken in one by one, behind those that are there. -/
theorem readAll_callees (h : List.Forall₂ SpellsSignature texts callees) (d : ValidateDraft) :
    validateGrammar.readAll (settledAt d) (texts.map (attached "callee") ++ rest) =
      validateGrammar.readAll (settledAt { d with callees := d.callees ++ callees }) rest := by
  induction h generalizing d with
  | nil => simp
  | @cons text s texts callees hs _ ih =>
    have hput : d.put text .callee = .ok { d with callees := d.callees ++ [s] } := by
      unfold ValidateDraft.put
      rw [hs.read]
      rfl
    rw [List.map_cons, List.cons_append, readAll_attached (by decide) rfl hput, ih]
    simp

/-- Asking for the listing is taken in at once. -/
theorem readAll_print {d : ValidateDraft} (h : d.print = false) :
    validateGrammar.readAll (settledAt d) ("--print" :: rest) =
      validateGrammar.readAll (settledAt { d with print := true }) rest := by
  have hput : validateGrammar.putFlag .print (settledAt d).draft = .ok { d with print := true } := by
    simp [validateGrammar, settledAt, h]
  have hlong : validateGrammar.readLong "print" none (settledAt d) =
      .ok (settledAt { d with print := true }) := by
    have ho : validateGrammar.option? "print" = none := rfl
    have hf : validateGrammar.flag? "print" = some .print := rfl
    have hsettle : validateGrammar.settle (settledAt d) = .ok (settledAt d) := rfl
    unfold Grammar.readLong
    rw [ho, hf]
    simp only [Grammar.readFlag, hsettle, bind, Except.bind, hput]
    rfl
  have hlook : Argument.ofString "--print" = .long "print" none := by decide
  rw [Grammar.readAll, hlook]
  simp only [Grammar.readArgument, hlong]
  rfl

/-- What is read in the end, from a point where nothing is pending. -/
def readRest (d : ValidateDraft) (args : List String) : Except UsageError ValidateDraft := do
  return (← validateGrammar.settle (← validateGrammar.readAll (settledAt d) args)).draft

/-- The source comes last. -/
theorem readRest_source {source : Source} {d : ValidateDraft} (hfile : source ≠ .file "")
    (h : d.file = none) :
    readRest d source.arguments = .ok (match source with
      | .text t => { d with text := some t }
      | .file path => { d with file := some path }) := by
  cases source with
  | text t => rfl
  | file path =>
    have hput : d.put path .file = .ok { d with file := some path } := by
      have hpath : path ≠ "" := fun heq => hfile (congrArg _ heq)
      simp [ValidateDraft.put, once, readPath, h, hpath]
      rfl
    unfold readRest
    rw [Source.arguments, readAll_attached (by decide) rfl hput]
    rfl

/-- Everything in front of the source. -/
theorem readRest_options {own : Signature} {print : Bool}
    (h : List.Forall₂ SpellsSignature texts callees) :
    readRest {} (attached "inputs" (number own.inputs.toNat) ::
      attached "outputs" (number own.outputs.toNat) ::
      attached "max-stack-height" (number own.maxStackHeight.toNat) ::
      (texts.map (attached "callee") ++ ((if print then ["--print"] else []) ++ rest))) =
    readRest { inputs := some own.inputs.toNat, outputs := some own.outputs.toNat,
               maxStackHeight := some own.maxStackHeight.toNat, callees, print } rest := by
  have hinputs {d : ValidateDraft} (hd : d.inputs = none) :
      d.put (number own.inputs.toNat) .inputs =
        .ok { d with inputs := some own.inputs.toNat } := by
    unfold ValidateDraft.put
    rw [readNumber_number (Nat.le_of_lt_succ own.inputs.toNat_lt), hd]
    rfl
  have houtputs {d : ValidateDraft} (hd : d.outputs = none) :
      d.put (number own.outputs.toNat) .outputs =
        .ok { d with outputs := some own.outputs.toNat } := by
    unfold ValidateDraft.put
    rw [readNumber_number (Nat.le_of_lt_succ own.outputs.toNat_lt), hd]
    rfl
  have hheight {d : ValidateDraft} (hd : d.maxStackHeight = none) :
      d.put (number own.maxStackHeight.toNat) .maxStackHeight =
        .ok { d with maxStackHeight := some own.maxStackHeight.toNat } := by
    unfold ValidateDraft.put
    rw [readNumber_number (Nat.le_of_lt_succ own.maxStackHeight.toNat_lt), hd]
    rfl
  unfold readRest
  rw [readAll_attached (by decide) rfl (hinputs rfl), readAll_attached (by decide) rfl (houtputs rfl),
    readAll_attached (by decide) rfl (hheight rfl), readAll_callees h]
  cases print with
  | false => rfl
  | true =>
    rw [if_pos rfl, List.singleton_append, readAll_print rfl]
    rfl

/-- **The command line is read as what it says.** -/
theorem ofArguments_arguments {source : Source} {own : Signature} {print : Bool}
    (hfile : source ≠ .file "") (h : List.Forall₂ SpellsSignature texts callees) :
    ofArguments (arguments source own texts print) =
      .ok (.validate { source, own, callees, print }) := by
  have hlook : Argument.ofString "validate" = .word "validate" := by decide
  have hname : Name.ofString? "validate" = some .validate := by decide +kernel
  unfold arguments ofArguments
  simp only [hlook, hname]
  change (do return Command.validate (← (← readRest {} _).finish)) = _
  rw [readRest_options h, readRest_source hfile rfl]
  cases source with
  | text t =>
    simp [bind, Except.bind, ValidateDraft.finish]
    rfl
  | file path =>
    simp [bind, Except.bind, ValidateDraft.finish]
    rfl

end line

/-! ### The verdict -/

section verdict

variable {files : FileSystem} {o : ValidateOptions} {text : String} {code : Code}

/-- The source is there, and gives this text. -/
def Source.Gives (files : FileSystem) : Source → String → Prop
  | .text t, text => t = text
  | .file path, text => path ≠ "" ∧ ∃ entry, files path = some entry ∧ entry.text? = some text

theorem Source.Gives.ne_file {source : Source} (h : source.Gives files text) :
    source ≠ .file "" := by
  rintro rfl
  exact h.1 rfl

theorem exec_load {source : Source} (h : source.Gives files text) (out : Output) :
    CommandM.exec (source.load files) out = (.ok text, out) := by
  cases source with
  | text t =>
    cases h
    rfl
  | file path =>
    obtain ⟨-, entry, hentry, htext⟩ := h
    unfold Source.load
    simp only [hentry, htext]
    rfl

/-- What the command says of a section: the first signature that is refused, or else the verdict
on the section under index zero. -/
def ValidateOptions.verdict (o : ValidateOptions) (code : Code) : Except CommandError UInt16 :=
  match TypeSection.firstInvalid? o.types with
  | some r => .error (.rejected r)
  | none => (Section.verify o.types 0 code).mapError fun failure => .rejected (.code 0 failure)

theorem fst_exec_verify (hsource : o.source.Gives files text) (hcode : assemble text = .ok code)
    (out : Output) : (CommandM.exec (o.verify files) out).1 = o.verdict code := by
  unfold ValidateOptions.verify ValidateOptions.verdict
  rw [CommandM.exec_bind, exec_load hsource]
  have hlast (out : Output) : (CommandM.exec (orFail (fun failure => .rejected (.code 0 failure))
      (Section.verifyLogged o.types 0 code).result) out).1 =
        (Section.verify o.types 0 code).mapError fun failure => .rejected (.code 0 failure) := by
    change _ = Except.mapError _ (Section.verifyLogged o.types 0 code).result
    cases (Section.verifyLogged o.types 0 code).result <;> rfl
  simp only [hcode, orFail, pure_bind]
  -- The listing changes only what is written.
  cases o.print <;> cases TypeSection.firstInvalid? o.types with
  | some r => rfl
  | none => exact hlast _

/-- Running the command prints the height that it gives. -/
theorem run_validate (files : FileSystem) (o : ValidateOptions) :
    (run files (.validate o)).1 = (CommandM.exec (o.verify files) {}).1.map (fun _ => ()) ∧
      ∀ h, (CommandM.exec (o.verify files) {}).1 = .ok h → ∃ before,
        (run files (.validate o)).2.text = before ++ s!"valid: max_height={h.toNat}\n" := by
  have hrun : run files (.validate o) = CommandM.exec (o.run files) {} := rfl
  rw [hrun, ValidateOptions.run, CommandM.exec_bind]
  obtain ⟨r, out⟩ := CommandM.exec (o.verify files) {}
  cases r with
  | error e => exact ⟨rfl, nofun⟩
  | ok h =>
    refine ⟨rfl, fun h' heq => ?_⟩
    cases heq
    exact ⟨out.text, rfl⟩

end verdict

/-! ### The container -/

section container

variable {own : Signature} {callees : List Signature} {code : Code} {others : List Code}

/-- The verdict on a first section agrees with that on the whole container, as far as this one is
about the signatures or the first section. -/
structure Agrees (own : Signature) (verdict : Except CommandError UInt16)
    (whole : Except Rejection (List UInt16)) : Prop where
  /-- The first of the heights is the one that is given. -/
  accepted : ∀ heights, whole = .ok heights → ∃ h, heights[0]? = some h ∧ verdict = .ok h
  signature : ∀ k e, whole = .error (.signature k e) →
    verdict = .error (.rejected (.signature k e))
  first : ∀ failure, whole = .error (.code 0 failure) →
    verdict = .error (.rejected (.code 0 failure))
  /-- A failure of a later section is not seen. -/
  later : ∀ k failure, 0 < k → whole = .error (.code k failure) →
    verdict = .ok own.maxStackHeight
  /-- A section that takes and returns nothing is refused only with its containers. -/
  refused : own.inputs = 0 → own.outputs = 0 → ∀ r, verdict = .error (.rejected r) →
    whole = .error r

/-- A container with sections of these signatures, the first of which is `code`. -/
def containerOf (own : Signature) (callees : List Signature) (code : Code) (others : List Code) :
    Container :=
  { code := code :: others, types := (own :: callees).toArray }

/-- Once the counts are right, the signatures are checked. -/
theorem checkTypes_containerOf (hothers : others.length = callees.length)
    (hfew : callees.length + 1 ≤ 1024) :
    (containerOf own callees code others).checkTypes =
      match TypeSection.firstInvalid? (own :: callees).toArray with
      | some r => .error r
      | none => if own.inputs = 0 ∧ own.outputs = 0 then .ok () else .error .entrySignature := by
  have hlength : (containerOf own callees code others).code.length = callees.length + 1 := by
    simp [containerOf, hothers]
  have hsize : (containerOf own callees code others).types.size = callees.length + 1 := by
    simp [containerOf]
  have hmany : ¬ Limits.maxCodeSections < callees.length + 1 := Nat.not_lt.mpr hfew
  have hentry : TypeSection.entryIsClosed (own :: callees).toArray =
      decide (own.inputs = 0 ∧ own.outputs = 0) := rfl
  unfold Container.checkTypes
  rw [hlength, hsize, if_neg (Nat.succ_ne_zero _), if_neg hmany, if_neg (by simp)]
  change (match TypeSection.firstInvalid? (own :: callees).toArray with
    | some e => _
    | none => if TypeSection.entryIsClosed (own :: callees).toArray then _ else _) = _
  rw [hentry]
  simp only [decide_eq_true_iff]

theorem agrees_containerOf {o : ValidateOptions} (hown : o.own = own) (hcallees : o.callees = callees)
    (hothers : others.length = callees.length) (hfew : callees.length + 1 ≤ 1024) :
    Agrees own (o.verdict code) (containerOf own callees code others).verify := by
  subst hown hcallees
  have hcheck : (containerOf o.own o.callees code others).checkTypes = _ :=
    checkTypes_containerOf hothers hfew
  unfold ValidateOptions.verdict ValidateOptions.types
  cases hinvalid : TypeSection.firstInvalid? (o.own :: o.callees).toArray with
  | some r =>
    -- Both report the first signature that is refused.
    rw [hinvalid] at hcheck
    rw [Container.verify_of_checkTypes_error hcheck]
    obtain ⟨k, -, e, -, -, rfl, -⟩ := TypeSection.firstInvalid?_eq_some hinvalid
    refine ⟨nofun, ?_, nofun, nofun, ?_⟩
    · rintro _ _ ⟨⟩
      rfl
    · rintro - - _ ⟨⟩
      rfl
  | none =>
    rw [hinvalid] at hcheck
    simp only at hcheck
    split at hcheck
    · rw [Container.verify_of_checkTypes_ok hcheck]
      change Agrees _ _ (Container.verifyFrom (o.own :: o.callees).toArray 0 (code :: others)).result
      rw [Container.verifyFrom_cons]
      cases hverify : Section.verify (o.own :: o.callees).toArray 0 code with
      | error failure =>
        refine ⟨nofun, nofun, ?_, ?_, ?_⟩
        · rintro _ ⟨⟩
          rfl
        · rintro _ _ hk ⟨⟩
          exact absurd hk (Nat.lt_irrefl 0)
        · rintro - - _ ⟨⟩
          rfl
      | ok h =>
        obtain ⟨own, hown, rfl, -⟩ := Section.declared_of_verify hverify
        cases hown
        simp only
        cases hrest : (Container.verifyFrom (o.own :: o.callees).toArray 1 others).result with
        | ok heights =>
          refine ⟨?_, nofun, nofun, nofun, nofun⟩
          rintro _ ⟨⟩
          exact ⟨_, rfl, rfl⟩
        | error r =>
          obtain ⟨k, -, failure, -, rfl, -⟩ := Container.verifyFrom_eq_error_iff.mp hrest
          refine ⟨nofun, nofun, ?_, ?_, nofun⟩
          · intro f heq
            have hzero : 1 + k = 0 := (Rejection.code.inj (Except.error.inj heq)).1
            omega
          · rintro _ _ - -
            rfl
    · rename_i hopen
      rw [Container.verify_of_checkTypes_error hcheck]
      refine ⟨nofun, nofun, nofun, nofun, fun hi ho => absurd ⟨hi, ho⟩ hopen⟩

end container

/-! ### Main theorem -/

/-- **The command agrees with the verification of containers.**  A command line that gives a
source, the signature of its section and those of others is read as just that.  The command's
verdict on the section is that on every container of these signatures which starts with it, unless
that one is about the counts, the entry or a later section.  With the verdict the command ends, and
it prints the height of an accepted section. -/
theorem validate_agrees_with_container {files : FileSystem} {source : Source} {text : String}
    {own : Signature} {texts : List String} {callees : List Signature} {code : Code}
    {others : List Code} (print : Bool) (hsource : source.Gives files text)
    (hcode : assemble text = .ok code) (htexts : List.Forall₂ SpellsSignature texts callees)
    (hothers : others.length = callees.length) (hfew : callees.length + 1 ≤ 1024) :
    let o : ValidateOptions := { source, own, callees, print }
    let verdict := (CommandM.exec (o.verify files) {}).1
    List.Forall₂ (fun text s => readCallee text = .ok s) texts callees ∧
      ofArguments (arguments source own texts print) = .ok (.validate o) ∧
      Agrees own verdict (containerOf own callees code others).verify ∧
      (run files (.validate o)).1 = verdict.map (fun _ => ()) ∧
      ∀ h, verdict = .ok h → ∃ before,
        (run files (.validate o)).2.text = before ++ s!"valid: max_height={h.toNat}\n" := by
  intro o verdict
  have hverdict : verdict = o.verdict code := fst_exec_verify hsource hcode {}
  refine ⟨htexts.imp fun _ _ hs => hs.read, ofArguments_arguments hsource.ne_file htexts, ?_,
    run_validate files o⟩
  rw [hverdict]
  exact agrees_containerOf rfl rfl hothers hfew

open Instruction in
/-- A call of a section that returns one item.  The section called has no code for that item, so
the container fails there, and the command, which does not know its code, accepts. -/
theorem validate_agrees_with_container_brokenCallee :
    assemble "CALLF 1 POP STOP" = .ok #[ofByte 0xE3 (.callee 1), ofByte 0x50, ofByte 0x00] ∧
      SpellsSignature " 0,1 ,\t1" ⟨0, 1, 1⟩ ∧
      ofArguments ["validate", "--inputs=0", "--outputs=0", "--max-stack-height=1",
        "--callee= 0,1 ,\t1", "--", "CALLF 1 POP STOP"] =
        .ok (.validate ⟨.text "CALLF 1 POP STOP", ⟨0, 0, 1⟩, [⟨0, 1, 1⟩], false⟩) ∧
      (containerOf ⟨0, 0, 1⟩ [⟨0, 1, 1⟩] #[ofByte 0xE3 (.callee 1), ofByte 0x50, ofByte 0x00]
        [#[ofByte 0xE4]]).verify = .error (.code 1 ⟨.returnArity, 0⟩) ∧
      (CommandM.exec (ValidateOptions.verify (fun _ => none)
        ⟨.text "CALLF 1 POP STOP", ⟨0, 0, 1⟩, [⟨0, 1, 1⟩], false⟩) {}).1 = .ok 1 := by
  have hcode : assemble "CALLF 1 POP STOP" =
      .ok #[ofByte 0xE3 (.callee 1), ofByte 0x50, ofByte 0x00] := by decide +kernel
  have hspells : SpellsSignature " 0,1 ,\t1" ⟨0, 1, 1⟩ := by
    have hblank {c : Char} (h : Text.isBlank c = true) : ∀ x ∈ [c], Text.isBlank x = true :=
      List.forall_mem_singleton.mpr h
    have hzero : Text.Decimal.Denotes ['0'] 0 := Text.Decimal.denotes_digits 0
    have hone : Text.Decimal.Denotes ['1'] 1 := Text.Decimal.denotes_digits 1
    refine ⟨[' ', '0'], ['1', ' '], ['\t', '1'], by decide, ?_, ?_, ?_⟩
    · exact ⟨[' '], ['0'], [], rfl, hzero, hblank (by decide), nofun⟩
    · exact ⟨[], ['1'], [' '], rfl, hone, nofun, hblank (by decide)⟩
    · exact ⟨['\t'], ['1'], [], rfl, hone, hblank (by decide), nofun⟩
  have hcontainer : (containerOf ⟨0, 0, 1⟩ [⟨0, 1, 1⟩]
      #[ofByte 0xE3 (.callee 1), ofByte 0x50, ofByte 0x00] [#[ofByte 0xE4]]).verify =
        .error (.code 1 ⟨.returnArity, 0⟩) := by cbv
  obtain ⟨-, hline, hagrees, -, -⟩ :=
    @validate_agrees_with_container (fun _ => none) (.text "CALLF 1 POP STOP") _ ⟨0, 0, 1⟩ _ _ _
      [#[ofByte 0xE4]] false rfl hcode (.cons hspells .nil) rfl (by decide)
  exact ⟨hcode, hspells, hline, hcontainer, hagrees.later 1 _ (by decide) hcontainer⟩

end Command

end EofVerifier
