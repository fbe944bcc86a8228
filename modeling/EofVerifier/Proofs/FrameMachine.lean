import EofVerifier.Proofs.ContainerVerdict
import EofVerifier.Proofs.HeightAssignment

/-! # Runs across calls

The machine that a verified container is meant for, as far as heights go.  Its state is a
stack of frames (`Machine`): the running one and those that wait for a call to return.  A
frame knows its code section, its position and how many items it has.  `Machine.Step` moves
an instruction's frame to any of its successors, opens a frame for a call and closes one for
a return.  No step checks a height, and heights are integers, so that nothing would keep a
machine from taking more items than there are.

Sections are verified one by one, each against the signatures of the others.  What ties them
together at run time is the invariant `Machine.Settled`: the running frame is one of the
arrivals of its section, and a waiting frame will be one when the section above it has
returned as many items as its signature says.  Each kind of step keeps it, so it holds along
every run, however long and however deep the calls (`settled_of_run`). -/

namespace EofVerifier

open Relation (ReflTransGen)

/-! ### The machine -/

/-- A code section in progress. -/
structure Frame where
  index : Nat
  /-- The instruction that is next in this frame. -/
  position : Nat
  height : Int
deriving DecidableEq

/-- A stack of frames. -/
structure Machine where
  /-- The frame on top. -/
  running : Frame
  /-- The frames below it, each waiting for the one above. -/
  waiting : List Frame
deriving DecidableEq

namespace Container

variable {c : Container}

/-- The code section with this index and all that is needed to verify it. -/
def section? (c : Container) (index : Nat) : Option Section :=
  c.code[index]?.bind fun code => c.types[index]?.map fun own => { code, own, types := c.types }

/-- The instruction that is next in a frame. -/
def fetch? (c : Container) (f : Frame) : Option Instruction :=
  (c.section? f.index).bind fun s => s.code[f.position]?

end Container

namespace Machine

/-- Every run starts at the first instruction of the first section, without items. -/
def start : Machine := { running := ⟨0, 0, 0⟩, waiting := [] }

/-- What the machine can do next. -/
inductive Step (c : Container) : Machine → Machine → Prop
  | goOn {f : Frame} {i : Instruction} {q : Nat} {rest : List Frame} :
      c.fetch? f = some i → i.opcode.flow ≠ .call → i.opcode.flow.terminates = false →
      i.Leads f.position q →
      Step c ⟨f, rest⟩
        ⟨⟨f.index, q, f.height - i.opcode.info.inputs.toNat + i.opcode.info.outputs.toNat⟩, rest⟩
  | call {f : Frame} {i : Instruction} {k : Nat} {callee : Signature} {rest : List Frame} :
      c.fetch? f = some i → i.opcode.flow = .call → i.calledSection? = some k →
      c.types[k]? = some callee →
      Step c ⟨f, rest⟩
        ⟨⟨k, 0, callee.inputs.toNat⟩,
          ⟨f.index, f.position + 1, f.height - callee.inputs.toNat⟩ :: rest⟩
  | leave {f g : Frame} {i : Instruction} {own : Signature} {rest : List Frame} :
      c.fetch? f = some i → i.opcode.flow = .leave → c.types[f.index]? = some own →
      Step c ⟨f, g :: rest⟩ ⟨⟨g.index, g.position, g.height + own.outputs.toNat⟩, rest⟩

/-- A run is over when it halts, or returns where nobody waits. -/
def Over (c : Container) (m : Machine) : Prop :=
  ∃ i, c.fetch? m.running = some i ∧
    (i.opcode.flow = .halt ∨ i.opcode.flow = .leave ∧ m.waiting = [])

end Machine

/-- The frame is at an instruction of its section and within the declared height. -/
def Frame.InBounds (c : Container) (f : Frame) : Prop :=
  ∃ s, c.section? f.index = some s ∧ f.position < s.code.size ∧ 0 ≤ f.height ∧
    f.height ≤ s.own.maxStackHeight.toNat ∧ s.own.maxStackHeight.toNat ≤ Limits.maxStackHeight

/-- What a run must never leave. -/
structure Machine.Safe (c : Container) (m : Machine) : Prop where
  frames : ∀ f ∈ m.running :: m.waiting, f.InBounds c
  enough : ∀ s i, c.section? m.running.index = some s → c.fetch? m.running = some i →
    (s.pops i : Int) ≤ m.running.height
  callee : ∀ i, c.fetch? m.running = some i → ∀ k ∈ i.calledSection?, k < c.code.length
  returns : ∀ s i, c.section? m.running.index = some s → c.fetch? m.running = some i →
    i.opcode.flow = .leave → m.running.height = s.own.outputs.toNat
  progress : m.Over c ∨ ∃ m', Machine.Step c m m'

/-! ### Arrivals of an accepted section -/

namespace Section

variable {s : Section} {m : UInt16} {a : Arrival}

/-- In an accepted section every arrival is admitted and within the declared height. -/
theorem Accepts.admits (ha : s.Accepts m) (harr : s.Arrives a) :
    ∃ i, s.code[a.position]? = some i ∧ s.Admits i a.position a.height ∧
      a.height ≤ s.own.maxStackHeight.toNat := by
  obtain ⟨h, hh, hle, -⟩ := ha.assigned
  have hlimit := ha.le_limit hle
  obtain ⟨next, i, hi, hpass⟩ := (hh.coherent ha.formed hlimit).passes a harr
  refine ⟨i, hi, ((successors_eq_ok_iff (ha.formed.wellFormed _ i hi)).mp hpass).1, ?_⟩
  rw [hh.height_eq ha.formed hlimit harr, ← ha.declared]
  exact hle _ (harr.position_lt ha.formed)

/-- From an arrival in an accepted section each successor is arrived at, with the exact sum. -/
theorem Accepts.next (ha : s.Accepts m) (harr : s.Arrives a) {i : Instruction} {q : Nat}
    (hi : s.code[a.position]? = some i) (hl : i.Leads a.position q) :
    s.Arrives ⟨q, a.height - s.pops i + s.pushes i⟩ := by
  obtain ⟨j, hj, hadm, hle⟩ := ha.admits harr
  obtain rfl : i = j := Option.some.inj (hi.symm.trans hj)
  have hpass := (successors_eq_ok_iff (ha.formed.wellFormed _ i hi)).mpr ⟨hadm, rfl⟩
  refine harr.next ⟨i, hi, hpass⟩ (mem_arrivalsAfter_iff.mpr ⟨hl, ?_⟩)
  rw [← ha.declared] at hle
  exact (heightAfter_eq_of_le_limit hadm.pops (Nat.le_trans hle ha.limit)).symm

end Section

/-! ### The invariant -/

/-- With `extra` more items the frame is one of the arrivals of its section. -/
def Frame.Arrived (c : Container) (f : Frame) (extra : Nat) : Prop :=
  ∃ s h, c.section? f.index = some s ∧ s.Arrives ⟨f.position, h⟩ ∧ f.height + extra = (h : Int) ∧
    0 ≤ f.height

/-- Each frame waits for what the section above it returns, the first for section `index`. -/
def Container.Waits (c : Container) : Nat → List Frame → Prop
  | _, [] => True
  | index, f :: rest =>
    (∃ callee, c.types[index]? = some callee ∧ f.Arrived c callee.outputs.toNat) ∧
      c.Waits f.index rest

/-- The running frame is an arrival, and each waiting one will be when it is returned to. -/
structure Machine.Settled (c : Container) (m : Machine) : Prop where
  running : m.running.Arrived c 0
  waiting : c.Waits m.running.index m.waiting

namespace Container

variable {c : Container} {heights : List UInt16}

theorem section?_eq_some_iff {index : Nat} {s : Section} : c.section? index = some s ↔
    c.code[index]? = some s.code ∧ c.types[index]? = some s.own ∧ s.types = c.types := by
  unfold section?
  simp only [Option.bind_eq_some_iff, Option.map_eq_some_iff]
  constructor
  · rintro ⟨code, hcode, own, hown, rfl⟩
    exact ⟨hcode, hown, rfl⟩
  · rintro ⟨hcode, hown, htypes⟩
    exact ⟨s.code, hcode, s.own, hown, by rw [← htypes]⟩

/-- Every section of an accepted container is accepted. -/
theorem accepts_of_verify (hv : c.verify = .ok heights) {index : Nat} {s : Section}
    (hs : c.section? index = some s) : ∃ m, s.Accepts m := by
  obtain ⟨hcode, hown, htypes⟩ := section?_eq_some_iff.mp hs
  obtain ⟨-, -, hall⟩ := verify_eq_ok_iff.mp hv
  obtain ⟨m, -, hm⟩ := hall index s.code hcode
  obtain ⟨own, hown', ha⟩ := Section.verify_eq_ok_iff_accepts.mp hm
  obtain rfl : s.own = own := Option.some.inj (hown.symm.trans hown')
  rw [← htypes] at ha
  exact ⟨m, ha⟩

/-- An accepted container has a code section for each signature. -/
theorem exists_section? (hv : c.verify = .ok heights) {index : Nat} (hi : index < c.types.size) :
    ∃ s, c.section? index = some s ∧ s.types = c.types ∧ c.types[index]? = some s.own := by
  obtain ⟨-, -, hcount, -⟩ := checkTypes_eq_ok_iff.mp (verify_eq_ok_iff.mp hv).1
  have hcode := List.getElem?_eq_getElem (l := c.code) (i := index) (by omega)
  have hown := Array.getElem?_eq_getElem hi
  exact ⟨⟨_, _, c.types⟩, section?_eq_some_iff.mpr ⟨hcode, hown, rfl⟩, rfl, hown⟩

end Container

/-- An arrived frame, running or waiting, is in bounds. -/
theorem Frame.Arrived.inBounds {c : Container} {heights : List UInt16} {f : Frame} {extra : Nat}
    (hv : c.verify = .ok heights) (hf : f.Arrived c extra) : f.InBounds c := by
  obtain ⟨s, h, hs, harr, hheight, hnonneg⟩ := hf
  obtain ⟨m, ha⟩ := Container.accepts_of_verify hv hs
  obtain ⟨-, -, -, hle⟩ := ha.admits harr
  have hlimit := ha.limit
  rw [ha.declared] at hlimit
  have hheight' : f.height ≤ (h : Int) := by omega
  exact ⟨s, hs, harr.position_lt ha.formed, hnonneg,
    Int.le_trans hheight' (Int.ofNat_le.mpr hle), hlimit⟩

namespace Machine

/-- What is known of a settled machine: the section, instruction and height it is at. -/
structure At (c : Container) (m : Machine) (s : Section) (i : Instruction) (h : Nat) : Prop where
  listed : c.section? m.running.index = some s
  fetched : s.code[m.running.position]? = some i
  accepted : ∃ largest, s.Accepts largest
  arrives : s.Arrives ⟨m.running.position, h⟩
  admits : s.Admits i m.running.position h
  height : m.running.height = (h : Int)

variable {c : Container} {heights : List UInt16} {m m' : Machine} {s : Section} {i : Instruction}
  {h : Nat}

theorem Settled.exists_at (hv : c.verify = .ok heights) (hm : m.Settled c) :
    ∃ s i h, m.At c s i h := by
  obtain ⟨s, h, hs, harr, hheight, -⟩ := hm.running
  obtain ⟨largest, ha⟩ := Container.accepts_of_verify hv hs
  obtain ⟨i, hi, hadm, -⟩ := ha.admits harr
  refine ⟨s, i, h, hs, hi, ⟨largest, ha⟩, harr, hadm, ?_⟩
  rw [← hheight]
  exact (Int.add_zero _).symm

namespace At

/-- The running frame is at one instruction only. -/
theorem eq_of_fetch (hat : m.At c s i h) {j : Instruction} (hj : c.fetch? m.running = some j) :
    j = i := by
  unfold Container.fetch? at hj
  rw [hat.listed, Option.bind_some, hat.fetched] at hj
  exact (Option.some.inj hj).symm

theorem fetch (hat : m.At c s i h) : c.fetch? m.running = some i := by
  unfold Container.fetch?
  rw [hat.listed, Option.bind_some, hat.fetched]

theorem wellFormed (hat : m.At c s i h) : s.WellFormed i := by
  obtain ⟨largest, ha⟩ := hat.accepted
  exact ha.formed.wellFormed _ i hat.fetched

theorem next (hat : m.At c s i h) {q : Nat} (hl : i.Leads m.running.position q) :
    s.Arrives ⟨q, h - s.pops i + s.pushes i⟩ := by
  obtain ⟨largest, ha⟩ := hat.accepted
  exact ha.next hat.arrives hat.fetched hl

end At

/-! ### Steps keep the invariant -/

/-- The first section takes no items, so the start is an arrival. -/
theorem settled_start (hv : c.verify = .ok heights) : start.Settled c := by
  obtain ⟨hne, -, hcount, -, hentry⟩ :=
    Container.checkTypes_eq_ok_iff.mp (Container.verify_eq_ok_iff.mp hv).1
  obtain ⟨s, hs, -, hown⟩ := Container.exists_section? hv (show 0 < c.types.size by omega)
  have hin : s.own.inputs.toNat = 0 := by
    unfold TypeSection.entryIsClosed at hentry
    rw [hown] at hentry
    simp only [Bool.decide_and, Option.all_some, Bool.and_eq_true, decide_eq_true_eq] at hentry
    rw [hentry.1]
    rfl
  refine ⟨⟨s, 0, hs, ?_, rfl, Int.le_refl 0⟩, trivial⟩
  have hentry := Section.Arrives.entry (s := s)
  rw [hin] at hentry
  exact hentry

/-- Within a section the running frame goes from arrival to arrival. -/
theorem settled_goOn (hat : m.At c s i h) (hw : c.Waits m.running.index m.waiting)
    (hcall : i.opcode.flow ≠ .call) {q : Nat} (hl : i.Leads m.running.position q) :
    Settled c ⟨⟨m.running.index, q, m.running.height - i.opcode.info.inputs.toNat +
      i.opcode.info.outputs.toNat⟩, m.waiting⟩ := by
  have hnext := hat.next hl
  have hpops := hat.admits.pops
  rw [Section.pops_of_ne_call hcall] at hnext hpops
  rw [Section.pushes_of_ne_call hcall] at hnext
  have hheight := hat.height
  exact ⟨⟨s, _, hat.listed, hnext, by simp only; omega, by simp only; omega⟩, hw⟩

/-- A call starts its section at the entry; its caller waits for what the section returns. -/
theorem settled_call (hv : c.verify = .ok heights) (hat : m.At c s i h)
    (hw : c.Waits m.running.index m.waiting) (hcall : i.opcode.flow = .call) {k : Nat}
    {callee : Signature} (hk : i.calledSection? = some k) (hcallee : c.types[k]? = some callee) :
    Settled c ⟨⟨k, 0, callee.inputs.toNat⟩, ⟨m.running.index, m.running.position + 1,
      m.running.height - callee.inputs.toNat⟩ :: m.waiting⟩ := by
  have heffect : s.callee? i = some callee := by
    unfold Section.callee?
    rw [hk, Option.bind_some, (Container.section?_eq_some_iff.mp hat.listed).2.2, hcallee]
  have hnext := hat.next (.inr ⟨by rw [hcall]; rfl, rfl⟩)
  have hpops := hat.admits.pops
  rw [Section.pops_of_call hcall heffect] at hnext hpops
  rw [Section.pushes_of_call hcall heffect] at hnext
  have hheight := hat.height
  obtain ⟨hlt, -⟩ := Array.getElem?_eq_some_iff.mp hcallee
  obtain ⟨s', hs', -, hown⟩ := Container.exists_section? hv hlt
  obtain rfl : callee = s'.own := Option.some.inj (hcallee.symm.trans hown)
  refine ⟨⟨s', _, hs', .entry, by simp, by simp only; omega⟩, ⟨_, hcallee, s, _, hat.listed, hnext,
    ?_, ?_⟩, hw⟩
  · simp only
    omega
  · simp only
    omega

/-- A return gives the caller the items that it waits for. -/
theorem settled_leave {index : Nat} {f : Frame} {rest : List Frame}
    (hw : c.Waits index (f :: rest)) {own : Signature} (hown : c.types[index]? = some own) :
    Settled c ⟨⟨f.index, f.position, f.height + own.outputs.toNat⟩, rest⟩ := by
  obtain ⟨⟨callee, hcallee, s', h', hs', harr, hheight, hnonneg⟩, hrest⟩ := hw
  obtain rfl : own = callee := Option.some.inj (hown.symm.trans hcallee)
  exact ⟨⟨s', h', hs', harr, by simpa using hheight, by simp only; omega⟩, hrest⟩

theorem Settled.step (hv : c.verify = .ok heights) (hm : m.Settled c) (hs : Step c m m') :
    m'.Settled c := by
  obtain ⟨s, i, h, hat⟩ := hm.exists_at hv
  cases hs with
  | goOn hfetch hcall _ hl =>
      obtain rfl := hat.eq_of_fetch hfetch
      exact settled_goOn hat hm.waiting hcall hl
  | call hfetch hcall hk hcallee =>
      obtain rfl := hat.eq_of_fetch hfetch
      exact settled_call hv hat hm.waiting hcall hk hcallee
  | leave _ _ hown => exact settled_leave hm.waiting hown

theorem settled_of_run (hv : c.verify = .ok heights) (hrun : ReflTransGen (Step c) start m) :
    m.Settled c := by
  induction hrun with
  | refl => exact settled_start hv
  | tail _ hs ih => exact ih.step hv hs

/-! ### What the invariant gives -/

/-- Where its instruction does not end the run, the machine can go on. -/
theorem At.progress (hat : m.At c s i h) (hsize : s.types = c.types) :
    m.Over c ∨ ∃ m', Step c m m' := by
  have hfetch := hat.fetch
  obtain ⟨f, rest⟩ := m
  cases hflow : i.opcode.flow with
  | next | branch =>
      have hl : i.Leads f.position (f.position + 1) := .inr ⟨by rw [hflow]; rfl, rfl⟩
      exact .inr ⟨_, .goOn hfetch (by rw [hflow]; decide) (by rw [hflow]; rfl) hl⟩
  | jump =>
      obtain ⟨t, ht⟩ := Instruction.exists_jumpTarget hat.wellFormed.shaped hflow
      exact .inr ⟨_, .goOn hfetch (by rw [hflow]; decide) (by rw [hflow]; rfl) (.inl ht)⟩
  | call =>
      obtain ⟨k, hk⟩ := Instruction.exists_calledSection? hat.wellFormed.shaped hflow
      have hlt : k < c.types.size := hsize ▸ hat.wellFormed.callee k hk
      exact .inr ⟨_, .call hfetch hflow hk (Array.getElem?_eq_getElem hlt)⟩
  | leave =>
      cases rest with
      | nil => exact .inl ⟨i, hfetch, .inr ⟨hflow, rfl⟩⟩
      | cons g rest =>
          obtain ⟨-, hown, -⟩ := Container.section?_eq_some_iff.mp hat.listed
          exact .inr ⟨_, .leave hfetch hflow hown⟩
  | halt => exact .inl ⟨i, hfetch, .inl hflow⟩

/-- Waiting frames are in bounds, since what they wait for only adds to their height. -/
theorem inBounds_of_waits (hv : c.verify = .ok heights) {index : Nat} {waiting : List Frame}
    (hw : c.Waits index waiting) : ∀ f ∈ waiting, f.InBounds c := by
  induction waiting generalizing index with
  | nil => simp
  | cons g rest ih =>
      obtain ⟨⟨callee, -, hg⟩, hrest⟩ := hw
      intro f hf
      rcases List.mem_cons.mp hf with rfl | hf
      · exact hg.inBounds hv
      · exact ih hrest f hf

theorem Settled.safe (hv : c.verify = .ok heights) (hm : m.Settled c) : m.Safe c := by
  obtain ⟨s, i, h, hat⟩ := hm.exists_at hv
  obtain ⟨-, -, htypes⟩ := Container.section?_eq_some_iff.mp hat.listed
  have hs : ∀ s', c.section? m.running.index = some s' → s' = s := fun s' hs' =>
    (Option.some.inj (hat.listed.symm.trans hs')).symm
  constructor
  case frames =>
    intro f hf
    rcases List.mem_cons.mp hf with rfl | hf
    · exact hm.running.inBounds hv
    · exact inBounds_of_waits hv hm.waiting f hf
  case enough =>
    intro s' j hs' hj
    obtain rfl := hs s' hs'
    obtain rfl := hat.eq_of_fetch hj
    rw [hat.height]
    exact Int.ofNat_le.mpr hat.admits.pops
  case callee =>
    intro j hj k hk
    obtain rfl := hat.eq_of_fetch hj
    have hlt : k < s.types.size := hat.wellFormed.callee k hk
    obtain ⟨-, -, hcount, -⟩ :=
      Container.checkTypes_eq_ok_iff.mp (Container.verify_eq_ok_iff.mp hv).1
    rw [hcount, ← htypes]
    exact hlt
  case returns =>
    intro s' j hs' hj hleave
    obtain rfl := hs s' hs'
    obtain rfl := hat.eq_of_fetch hj
    rw [hat.height, hat.admits.returns hleave]
  case progress => exact hat.progress htypes

/-- **No run of an accepted container goes wrong.**  After any number of steps, with any
choice of branches and any depth of calls, every frame is in bounds, the running instruction
has the items that it takes, its called section exists, a return leaves exactly what is
declared, and the run is over or goes on. -/
theorem run_safe (c : Container) (heights : List UInt16) (hv : c.verify = .ok heights)
    (m : Machine) (hrun : ReflTransGen (Step c) start m) : m.Safe c :=
  (settled_of_run hv hrun).safe hv

open Instruction in
/-- The second section calls itself as long as its item is not zero. -/
def recursion : Container where
  code := [#[ofByte 0x5F, ofByte 0xE3 (.callee 1), ofByte 0x50, ofByte 0x00],
    #[ofByte 0x80, ofByte 0xE1 (.target 3), ofByte 0xE4, ofByte 0xE3 (.callee 1), ofByte 0xE4]]
  types := #[⟨0, 0, 1⟩, ⟨1, 1, 2⟩]

/-- In the second call of the section both callers wait, and all is well. -/
theorem run_safe_recursion :
    recursion.verify = .ok [1, 2] ∧
    ReflTransGen (Step recursion) start ⟨⟨1, 0, 1⟩, [⟨1, 4, 0⟩, ⟨0, 2, 0⟩]⟩ ∧
    Machine.Safe recursion ⟨⟨1, 0, 1⟩, [⟨1, 4, 0⟩, ⟨0, 2, 0⟩]⟩ := by
  have hv : recursion.verify = .ok [1, 2] := by cbv
  have h1 : Step recursion start ⟨⟨0, 1, 1⟩, []⟩ :=
    .goOn (i := .ofByte 0x5F) rfl (by decide) rfl (.inr ⟨rfl, rfl⟩)
  have h2 : Step recursion ⟨⟨0, 1, 1⟩, []⟩ ⟨⟨1, 0, 1⟩, [⟨0, 2, 0⟩]⟩ :=
    @Step.call _ _ (.ofByte 0xE3 (.callee 1)) 1 ⟨1, 1, 2⟩ _ rfl rfl rfl rfl
  have h3 : Step recursion ⟨⟨1, 0, 1⟩, [⟨0, 2, 0⟩]⟩ ⟨⟨1, 1, 2⟩, [⟨0, 2, 0⟩]⟩ :=
    .goOn (i := .ofByte 0x80) rfl (by decide) rfl (.inr ⟨rfl, rfl⟩)
  have h4 : Step recursion ⟨⟨1, 1, 2⟩, [⟨0, 2, 0⟩]⟩ ⟨⟨1, 3, 1⟩, [⟨0, 2, 0⟩]⟩ :=
    .goOn (i := .ofByte 0xE1 (.target 3)) rfl (by decide) rfl (.inl (by decide))
  have h5 : Step recursion ⟨⟨1, 3, 1⟩, [⟨0, 2, 0⟩]⟩ ⟨⟨1, 0, 1⟩, [⟨1, 4, 0⟩, ⟨0, 2, 0⟩]⟩ :=
    @Step.call _ _ (.ofByte 0xE3 (.callee 1)) 1 ⟨1, 1, 2⟩ _ rfl rfl rfl rfl
  have hrun := ((((ReflTransGen.single h1).tail h2).tail h3).tail h4).tail h5
  exact ⟨hv, hrun, run_safe recursion [1, 2] hv _ hrun⟩

end Machine

end EofVerifier
