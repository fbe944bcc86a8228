import EofVerifier.Proofs.ContainerVerdict
import EofVerifier.Proofs.HeightAssignment
import EofVerifier.Proofs.Traversal

/-! # The rules of a container

What a container must meet is listed once (`Container.Acceptable`), and what it can break is
listed once (`Container.Breaks`).  Several rules can be broken at a time; they are ranked
(`Rejection.Precedes`), by the stage that checks them and within a stage by the index of the
section, and the first broken rule is the one that is reported
(`verify_acceptable_or_first_broken`).

The list of demands is shorter than the list of checks.  A section that is accepted declares a
height within the limit and not below its inputs, since its inputs are the height of its first
instruction (`Section.signature_check_of_verify`), so the two checks of declared heights that
come before the code refuse no container whose sections are all accepted. -/

namespace EofVerifier

/-! ### Signatures -/

theorem Signature.check_eq_ok_iff {s : Signature} : s.check = .ok () ↔
    s.inputs.toNat ≤ Limits.maxFunctionInputs ∧ s.outputs.toNat ≤ Limits.maxFunctionOutputs ∧
      s.maxStackHeight.toNat ≤ Limits.maxStackHeight ∧
      s.inputs.toNat ≤ s.maxStackHeight.toNat := by
  unfold check
  constructor
  · intro h
    split at h
    · cases h
    · split at h
      · cases h
      · split at h
        · cases h
        · split at h
          · cases h
          · omega
  · rintro ⟨hin, hout, hmax, hle⟩
    rw [if_neg (by omega), if_neg (by omega), if_neg (by omega), if_neg (by omega)]

namespace TypeSection

variable {types : TypeSection}

/-- What the check of one entry says of the type section. -/
def entryRejection? (x : Signature × Nat) : Option Rejection :=
  match x.1.check with
  | .error e => some (.signature x.2 e)
  | .ok () => none

theorem firstInvalid?_eq :
    firstInvalid? types = types.toList.zipIdx.findSome? entryRejection? := rfl

theorem entryRejection?_eq_none_iff {x : Signature × Nat} :
    entryRejection? x = none ↔ x.1.check = .ok () := by
  unfold entryRejection?
  cases x.1.check with
  | error e => simp
  | ok u => simp

theorem entryRejection?_eq_some_iff {x : Signature × Nat} {r : Rejection} :
    entryRejection? x = some r ↔ ∃ e, x.1.check = .error e ∧ r = .signature x.2 e := by
  unfold entryRejection?
  cases x.1.check with
  | error e => simp [eq_comm]
  | ok u => simp

/-- Every entry passes its check. -/
theorem firstInvalid?_eq_none_iff :
    firstInvalid? types = none ↔
      ∀ (k : Nat) (s : Signature), types[k]? = some s → s.check = .ok () := by
  rw [firstInvalid?_eq, List.findSome?_eq_none_iff]
  simp only [entryRejection?_eq_none_iff]
  constructor
  · intro h k s hs
    exact h (s, k) (by rw [List.mem_zipIdx_iff_getElem?, Array.getElem?_toList]; exact hs)
  · rintro h ⟨s, k⟩ hm
    rw [List.mem_zipIdx_iff_getElem?, Array.getElem?_toList] at hm
    exact h k s hm

/-- The first entry that does not pass its check is reported. -/
theorem firstInvalid?_eq_some {r : Rejection} (h : firstInvalid? types = some r) :
    ∃ (k : Nat) (s : Signature) (e : SignatureError), types[k]? = some s ∧ s.check = .error e ∧
      r = .signature k e ∧
      ∀ j < k, ∀ s', types[j]? = some s' → s'.check = .ok () := by
  rw [firstInvalid?_eq, Traversal.findSome?_zipIdx_eq_some_iff] at h
  obtain ⟨k, s, hs, hr, hbefore⟩ := h
  obtain ⟨e, he, rfl⟩ := entryRejection?_eq_some_iff.mp hr
  rw [Array.getElem?_toList] at hs
  refine ⟨k, s, e, hs, he, rfl, fun j hj s' hs' => ?_⟩
  rw [← Array.getElem?_toList] at hs'
  exact entryRejection?_eq_none_iff.mp (hbefore j hj s' hs')

theorem entryIsClosed_iff : entryIsClosed types = true ↔
    ∀ s, types[0]? = some s → s.inputs = 0 ∧ s.outputs = 0 := by
  unfold entryIsClosed
  cases types[0]? with
  | none => simp
  | some s => simp

end TypeSection

/-! ### Declared heights -/

/-- The signature of an accepted section declares the height that the verification gives, and
that height lies between the inputs and the limit. -/
theorem Section.declared_of_verify {types : TypeSection} {index : Nat} {code : Code} {m : UInt16}
    (h : Section.verify types index code = .ok m) :
    ∃ own, types[index]? = some own ∧ m = own.maxStackHeight ∧
      own.maxStackHeight.toNat ≤ Limits.maxStackHeight ∧
      own.inputs.toNat ≤ own.maxStackHeight.toNat := by
  obtain ⟨own, hown, ha⟩ := Section.verify_eq_ok_iff_accepts.mp h
  obtain ⟨height, hassigns, hle, -⟩ := ha.assigned
  have hentry : height 0 = own.inputs.toNat := hassigns.entry
  have hm : m = own.maxStackHeight := ha.declared
  have hlimit := ha.limit
  have hzero := hle 0 ha.formed.nonempty
  rw [hentry, hm] at hzero
  rw [hm] at hlimit
  exact ⟨own, hown, hm, hlimit, hzero⟩

/-- The signature of an accepted section passes its check when its inputs and outputs are
within their bounds. -/
theorem Section.signature_check_of_verify {types : TypeSection} {index : Nat} {code : Code}
    {own : Signature} {m : UInt16} (hown : types[index]? = some own)
    (hin : own.inputs.toNat ≤ Limits.maxFunctionInputs)
    (hout : own.outputs.toNat ≤ Limits.maxFunctionOutputs)
    (h : Section.verify types index code = .ok m) : own.check = .ok () := by
  obtain ⟨own', hown', -, hlimit, hle⟩ := declared_of_verify h
  obtain rfl : own = own' := Option.some.inj (hown.symm.trans hown')
  exact Signature.check_eq_ok_iff.mpr ⟨hin, hout, hlimit, hle⟩

/-! ### Demands and broken rules -/

/-- All that is demanded of a container. -/
structure Container.Acceptable (c : Container) : Prop where
  nonempty : 1 ≤ c.code.length
  few : c.code.length ≤ 1024
  counts : c.code.length = c.types.size
  inputs : ∀ s ∈ c.types, s.inputs.toNat ≤ 0x7F
  outputs : ∀ s ∈ c.types, s.outputs.toNat ≤ 0x7F
  /-- The first section takes and returns nothing. -/
  entry : ∀ s, c.types[0]? = some s → s.inputs = 0 ∧ s.outputs = 0
  /-- Every section is accepted under its own index. -/
  sections : ∀ (k : Nat) (code : Code), c.code[k]? = some code →
    ∃ m, Section.verify c.types k code = .ok m

/-- The rule that a rejection names is broken. -/
def Container.Breaks (c : Container) : Rejection → Prop
  | .noCode => c.code.length = 0
  | .tooManySections => 1024 < c.code.length
  | .countMismatch => c.code.length ≠ c.types.size
  | .signature k e => ∃ s, c.types[k]? = some s ∧ s.check = .error e
  | .entrySignature => ∃ s, c.types[0]? = some s ∧ ¬ (s.inputs = 0 ∧ s.outputs = 0)
  | .code k failure => ∃ code, c.code[k]? = some code ∧
      Section.verify c.types k code = .error failure

namespace Rejection

/-- The stage at which a rule is checked. -/
def stage : Rejection → Nat
  | noCode => 0
  | tooManySections => 1
  | countMismatch => 2
  | signature _ _ => 3
  | entrySignature => 4
  | code _ _ => 5

/-- Rules are checked stage by stage, and within a stage in the order of the sections. -/
def Precedes (a b : Rejection) : Prop :=
  a.stage < b.stage ∨ a.stage = b.stage ∧ ∃ i ∈ a.index?, ∃ j ∈ b.index?, i < j

end Rejection

namespace Container

variable {c : Container}

/-- Broken rules of one stage and, where the stage has indices, of one index are the same. -/
theorem Breaks.eq_of_not_precedes {a b : Rejection} (ha : c.Breaks a) (hb : c.Breaks b)
    (hab : ¬ a.Precedes b) (hba : ¬ b.Precedes a) : a = b := by
  unfold Rejection.Precedes at hab hba
  have hstage : a.stage = b.stage := by omega
  have hindex : ∀ i ∈ a.index?, ∀ j ∈ b.index?, i = j := by
    intro i hi j hj
    have hij : ¬ i < j := fun hlt => hab (.inr ⟨hstage, i, hi, j, hj, hlt⟩)
    have hji : ¬ j < i := fun hlt => hba (.inr ⟨hstage.symm, j, hj, i, hi, hlt⟩)
    omega
  cases a <;> cases b <;> cases hstage <;> try rfl
  case signature.signature.refl k e k' e' =>
    obtain rfl : k = k' := hindex k rfl k' rfl
    obtain ⟨s, hs, he⟩ := ha
    obtain ⟨s', hs', he'⟩ := hb
    obtain rfl : s = s' := Option.some.inj (hs.symm.trans hs')
    rw [Except.error.inj (he.symm.trans he')]
  case code.code.refl k f k' f' =>
    obtain rfl : k = k' := hindex k rfl k' rfl
    obtain ⟨s, hs, he⟩ := ha
    obtain ⟨s', hs', he'⟩ := hb
    obtain rfl : s = s' := Option.some.inj (hs.symm.trans hs')
    rw [Except.error.inj (he.symm.trans he')]

/-- An acceptable container breaks no rule. -/
theorem Acceptable.not_breaks (h : c.Acceptable) (r : Rejection) : ¬ c.Breaks r := by
  intro hr
  cases r with
  | noCode => exact absurd (hr : c.code.length = 0) (Nat.ne_of_gt h.nonempty)
  | tooManySections => exact absurd (hr : 1024 < c.code.length) (Nat.not_lt.mpr h.few)
  | countMismatch => exact hr h.counts
  | entrySignature =>
    obtain ⟨s, hs, hopen⟩ := hr
    exact hopen (h.entry s hs)
  | signature k e =>
    obtain ⟨s, hs, he⟩ := hr
    obtain ⟨hlt, hget⟩ := Array.getElem?_eq_some_iff.mp hs
    have hmem : s ∈ c.types := hget ▸ Array.getElem_mem hlt
    have hcode : k < c.code.length := h.counts ▸ hlt
    obtain ⟨m, hm⟩ := h.sections k _ (List.getElem?_eq_getElem hcode)
    have hcheck : s.check = .ok () :=
      Section.signature_check_of_verify hs (h.inputs s hmem) (h.outputs s hmem) hm
    rw [he] at hcheck
    cases hcheck
  | code k failure =>
    obtain ⟨code, hcode, hf⟩ := hr
    obtain ⟨m, hm⟩ := h.sections k code hcode
    rw [hf] at hm
    cases hm

/-- A container that passes the checks before the code, and whose sections are all accepted, is
acceptable. -/
theorem acceptable_of_checkTypes (hc : c.checkTypes = .ok ())
    (hs : ∀ (k : Nat) (code : Code), c.code[k]? = some code →
      ∃ m, Section.verify c.types k code = .ok m) : c.Acceptable := by
  obtain ⟨hne, hfew, hcounts, hvalid, hentry⟩ := checkTypes_eq_ok_iff.mp hc
  rw [TypeSection.firstInvalid?_eq_none_iff] at hvalid
  have hcheck : ∀ s ∈ c.types, s.check = .ok () := by
    intro s hmem
    obtain ⟨k, hk⟩ := Array.mem_iff_getElem?.mp hmem
    exact hvalid k s hk
  refine ⟨Nat.pos_of_ne_zero hne, hfew, hcounts, ?_, ?_, ?_, hs⟩
  · exact fun s hmem => (Signature.check_eq_ok_iff.mp (hcheck s hmem)).1
  · exact fun s hmem => (Signature.check_eq_ok_iff.mp (hcheck s hmem)).2.1
  · exact TypeSection.entryIsClosed_iff.mp hentry

/-! ### The verdict -/

/-- The heights that are given for an accepted container are the declared ones. -/
theorem heights_of_verify {heights : List UInt16} (h : c.verify = .ok heights) :
    heights = c.types.toList.map (·.maxStackHeight) := by
  obtain ⟨hc, hlen, hall⟩ := verify_eq_ok_iff.mp h
  obtain ⟨-, -, hcounts, -⟩ := checkTypes_eq_ok_iff.mp hc
  have hsize : c.types.toList.length = c.types.size := Array.length_toList
  refine List.ext_getElem? fun k => ?_
  rw [List.getElem?_map]
  by_cases hk : k < c.code.length
  · obtain ⟨m, hm, hv⟩ := hall k _ (List.getElem?_eq_getElem hk)
    obtain ⟨own, hown, rfl, -⟩ := Section.declared_of_verify hv
    have hown' : c.types.toList[k]? = some own := by rw [Array.getElem?_toList, hown]
    rw [hm, hown']
    rfl
  · rw [List.getElem?_eq_none (by omega), List.getElem?_eq_none (by omega)]
    rfl

/-! ### The order of the stages -/

/-- No rule of a stage below `n` is broken. -/
def Passes (c : Container) (n : Nat) : Prop :=
  ∀ r, c.Breaks r → n ≤ r.stage

theorem passes_zero : c.Passes 0 := fun _ _ => Nat.zero_le _

theorem Passes.succ {n : Nat} (h : c.Passes n) (hn : ∀ r, r.stage = n → ¬ c.Breaks r) :
    c.Passes (n + 1) := by
  intro r hr
  have hle := h r hr
  have hne : r.stage ≠ n := fun heq => hn r heq hr
  omega

/-- A broken rule is the first when none of an earlier stage is, and none of its own stage with
a smaller index. -/
theorem Passes.first_broken {r : Rejection} (h : c.Passes r.stage) (hr : c.Breaks r)
    (hindex : ∀ r', c.Breaks r' → r'.stage = r.stage →
      ∀ i ∈ r'.index?, ∀ j ∈ r.index?, ¬ i < j) :
    c.Breaks r ∧ ∀ r', c.Breaks r' → ¬ r'.Precedes r := by
  refine ⟨hr, fun r' hr' hp => ?_⟩
  rcases hp with hlt | ⟨heq, i, hi, j, hj, hlt⟩
  · exact absurd hlt (Nat.not_lt.mpr (h r' hr'))
  · exact hindex r' hr' heq i hi j hj hlt

theorem Passes.one (hne : c.code.length ≠ 0) : c.Passes 1 := by
  refine passes_zero.succ fun r hr hb => ?_
  cases r <;> cases hr
  exact hne hb

theorem Passes.two (h : c.Passes 1) (hfew : c.code.length ≤ 1024) : c.Passes 2 := by
  refine h.succ fun r hr hb => ?_
  cases r <;> cases hr
  exact absurd hb (Nat.not_lt.mpr hfew)

theorem Passes.three (h : c.Passes 2) (hcounts : c.code.length = c.types.size) : c.Passes 3 := by
  refine h.succ fun r hr hb => ?_
  cases r <;> cases hr
  exact hb hcounts

theorem Passes.four (h : c.Passes 3) (hvalid : TypeSection.firstInvalid? c.types = none) :
    c.Passes 4 := by
  refine h.succ fun r hr hb => ?_
  cases r <;> cases hr
  obtain ⟨s, hs, he⟩ := hb
  rw [TypeSection.firstInvalid?_eq_none_iff.mp hvalid _ s hs] at he
  cases he

theorem Passes.five (h : c.Passes 4) (hentry : TypeSection.entryIsClosed c.types = true) :
    c.Passes 5 := by
  refine h.succ fun r hr hb => ?_
  cases r <;> cases hr
  obtain ⟨s, hs, hopen⟩ := hb
  exact hopen (TypeSection.entryIsClosed_iff.mp hentry s hs)

/-- What the checks before the code report is the first broken rule. -/
theorem first_broken_of_checkTypes {r : Rejection} (h : c.checkTypes = .error r) :
    c.Breaks r ∧ ∀ r', c.Breaks r' → ¬ r'.Precedes r := by
  unfold checkTypes at h
  split at h
  · rename_i hzero
    cases h
    refine passes_zero.first_broken hzero fun r' _ _ i _ j hj => ?_
    cases hj
  · rename_i hne
    have h1 := Passes.one hne
    split at h
    · rename_i hmany
      cases h
      refine h1.first_broken hmany fun r' _ _ i _ j hj => ?_
      cases hj
    · rename_i hfew
      have h2 := h1.two (Nat.le_of_not_lt hfew)
      split at h
      · rename_i hcounts
        cases h
        refine h2.first_broken hcounts fun r' _ _ i _ j hj => ?_
        cases hj
      · rename_i hcounts
        have h3 := h2.three (Decidable.not_not.mp hcounts)
        split at h
        · rename_i e he
          obtain ⟨k, s, e', hs, he', rfl, hbefore⟩ := TypeSection.firstInvalid?_eq_some he
          cases h
          refine h3.first_broken ⟨s, hs, he'⟩ fun r' hr' heq i hi j hj hlt => ?_
          cases r' <;> cases heq
          cases hi
          cases hj
          obtain ⟨s', hs', hbad⟩ := hr'
          rw [hbefore _ hlt s' hs'] at hbad
          cases hbad
        · rename_i hvalid
          have h4 := h3.four hvalid
          split at h
          · cases h
          · rename_i hopen
            cases h
            have hb : c.Breaks .entrySignature := by
              by_contra hnone
              refine hopen (TypeSection.entryIsClosed_iff.mpr fun s hs => ?_)
              by_contra hne
              exact hnone ⟨s, hs, hne⟩
            refine h4.first_broken hb fun r' _ _ i _ j hj => ?_
            cases hj

/-- What is reported of a code section is the first broken rule. -/
theorem first_broken_of_code {k : Nat} {failure : Failure}
    (h : c.verify = .error (.code k failure)) :
    c.Breaks (.code k failure) ∧ ∀ r', c.Breaks r' → ¬ r'.Precedes (.code k failure) := by
  obtain ⟨hc, code, hcode, hf, hbefore⟩ := verify_eq_code_error_iff.mp h
  obtain ⟨hne, hfew, hcounts, hvalid, hentry⟩ := checkTypes_eq_ok_iff.mp hc
  have h5 : c.Passes 5 := ((((Passes.one hne).two hfew).three hcounts).four hvalid).five hentry
  refine h5.first_broken ⟨code, hcode, hf⟩ fun r' hr' heq i hi j hj hlt => ?_
  cases r' <;> cases heq
  cases hi
  cases hj
  obtain ⟨code', hcode', hbad⟩ := hr'
  obtain ⟨m, hm⟩ := hbefore _ hlt code' hcode'
  rw [hm] at hbad
  cases hbad

/-- What is reported is the first broken rule. -/
theorem first_broken_of_verify {r : Rejection} (h : c.verify = .error r) :
    c.Breaks r ∧ ∀ r', c.Breaks r' → ¬ r'.Precedes r := by
  cases hc : c.checkTypes with
  | error e =>
    obtain rfl : e = r := Except.error.inj ((verify_of_checkTypes_error hc).symm.trans h)
    exact first_broken_of_checkTypes hc
  | ok u =>
    rw [verify_of_checkTypes_ok hc] at h
    obtain ⟨k, code, failure, -, rfl, -⟩ := verifyFrom_eq_error_iff.mp h
    rw [← verify_of_checkTypes_ok hc] at h
    exact first_broken_of_code h

/-- A container is accepted when it is acceptable. -/
theorem exists_verify_eq_ok_iff_acceptable :
    (∃ heights, c.verify = .ok heights) ↔ c.Acceptable := by
  constructor
  · rintro ⟨heights, h⟩
    obtain ⟨hc, -, hall⟩ := verify_eq_ok_iff.mp h
    refine acceptable_of_checkTypes hc fun k code hcode => ?_
    obtain ⟨m, -, hm⟩ := hall k code hcode
    exact ⟨m, hm⟩
  · intro h
    cases hv : c.verify with
    | ok heights => exact ⟨heights, rfl⟩
    | error r => exact absurd (first_broken_of_verify hv).1 (h.not_breaks r)

/-- **A container is accepted exactly when it is acceptable, and otherwise the first broken rule
is reported.**  The heights that are given are the declared ones. -/
theorem verify_acceptable_or_first_broken (c : Container) :
    (∀ heights, c.verify = .ok heights ↔
      c.Acceptable ∧ heights = c.types.toList.map (·.maxStackHeight)) ∧
    (∀ r, c.verify = .error r ↔ c.Breaks r ∧ ∀ r', c.Breaks r' → ¬ r'.Precedes r) := by
  refine ⟨fun heights => ⟨fun h => ?_, ?_⟩, fun r => ⟨first_broken_of_verify, ?_⟩⟩
  · exact ⟨exists_verify_eq_ok_iff_acceptable.mp ⟨heights, h⟩, heights_of_verify h⟩
  · rintro ⟨hacc, rfl⟩
    obtain ⟨heights, h⟩ := exists_verify_eq_ok_iff_acceptable.mpr hacc
    rw [h, heights_of_verify h]
  · rintro ⟨hr, hfirst⟩
    cases hv : c.verify with
    | ok heights =>
      exact absurd hr ((exists_verify_eq_ok_iff_acceptable.mp ⟨heights, hv⟩).not_breaks r)
    | error r' =>
      obtain ⟨hr', hfirst'⟩ := first_broken_of_verify hv
      rw [hr'.eq_of_not_precedes hr (hfirst r' hr') (hfirst' r hr)]

end Container

end EofVerifier
