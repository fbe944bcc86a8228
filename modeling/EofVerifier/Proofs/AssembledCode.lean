import EofVerifier.Proofs.InstructionText
import EofVerifier.Proofs.MalformedOperands
import EofVerifier.Proofs.Rejections

/-! # What can be wrong with assembled code

Code that a text assembles to has few of the faults that instructions can have.  Operands are of
the kinds that their opcodes ask for, and all that can go wrong is that a jump table is too long
(`Writes.accepts_eq_false_iff`).  A target that the text writes as a label stands for a place in the
code or just behind it, and behind it only when nothing but labels follow the definition
(`Target.Lands`).  So a verification of assembled code that blames an operand blames a long table,
a number that the text itself gives, or a label at the end (`Target.LeadsOut`). -/

namespace EofVerifier

/-- The only opcode that asks for a jump table is the one with this mnemonic. -/
theorem Opcode.shape_eq_table_iff (o : Opcode) : o.shape = .table ↔ o.mnemonic = "RJUMPV" := by
  have hall := Opcode.forall_iff (p := fun b info => b = 0xE2 ↔ info.mnemonic = "RJUMPV")
  have hbyte : o.byte = 0xE2 ↔ o.mnemonic = "RJUMPV" := hall.mpr (by decide +kernel) o
  rw [← hbyte]
  unfold shape
  constructor
  · intro h
    split at h
    · cases h
    · cases h
    · assumption
    · cases h
    · cases h
  · intro h
    rw [h]
    rfl

namespace Assembly

variable {source : String} {code : Code} {items before after : List Item} {name : Word}

/-- What stands at a position of one list is related to what stands there in the other. -/
theorem exists_getElem?_of_forall₂ {α β : Type} {R : α → β → Prop} {l : List α} {r : List β}
    (h : List.Forall₂ R l r) {k : Nat} {b : β} (hk : r[k]? = some b) :
    ∃ a, l[k]? = some a ∧ R a b := by
  obtain ⟨hr, rfl⟩ := List.getElem?_eq_some_iff.mp hk
  have hl : k < l.length := h.length_eq ▸ hr
  exact ⟨_, List.getElem?_eq_getElem hl, h.get hl hr⟩

/-! ### Operands -/

/-- An operand that a text can write is of the right kind, unless it is a table with too many
targets. -/
theorem Writes.accepts_eq_false_iff {τ : Type} {shape : Shape} {operand : Operand Target}
    {args : List Word} (h : Writes shape operand args) (f : Target → τ) :
    shape.accepts (operand.map f) = false ↔
      shape = .table ∧ Shape.maxTargets < operand.targets.length := by
  cases h with
  | none => simp [Operand.map, Shape.accepts]
  | payload _ _ hsize _ => simp [Operand.map, Shape.accepts, hsize]
  | target _ => simp [Operand.map, Shape.accepts]
  | table hne _ => simp [Operand.map, Shape.accepts, Operand.targets, hne]
  | callee _ _ => simp [Operand.map, Shape.accepts]

/-! ### Instructions as they are written -/

/-- The instruction that an item is, with its targets as the text writes them. -/
def Item.written? : Item → Option (Opcode × Operand Target)
  | .label _ => none
  | .instruction opcode operand => some (opcode, operand)

/-- The instructions among the items, as the text writes them. -/
def written (items : List Item) : List (Opcode × Operand Target) :=
  items.filterMap Item.written?

theorem instructions_eq_map_written (items : List Item) : instructions items =
    (written items).map fun x => ⟨x.1, x.2.map (Target.value (placeOf items))⟩ := by
  unfold instructions written
  rw [List.map_filterMap]
  refine List.filterMap_congr fun item _ => ?_
  cases item <;> rfl

theorem length_written (items : List Item) :
    (written items).length = items.countP fun item => item.defines?.isNone := by
  unfold written
  rw [List.length_filterMap_eq_countP]
  refine List.countP_congr fun item _ => ?_
  cases item <;> simp [Item.written?, Item.defines?]

/-- Every item takes up at least one character. -/
theorem Rendering.length_le {cs : List Char} (h : Rendering items cs) :
    items.length ≤ cs.length := by
  have hinline {ws : List Word} {text : List Char} (ht : Inline ws text) : 0 < text.length := by
    have hword {w : Word} (hw : IsWord w) : 0 < w.length := List.length_pos_iff.mpr hw.1
    cases ht with
    | last hw => exact hword hw
    | more hw => rw [List.length_append]; exact Nat.add_pos_left (hword hw) _
  induction h with
  | done => exact Nat.zero_le _
  | item _ _ ht _ _ ih =>
    have hpos := hinline ht
    simp only [List.length_cons, List.length_append]
    omega

/-! ### Where labels lead -/

/-- Behind the definition of the label there are only definitions of labels. -/
def DefinedLast (items : List Item) (name : Word) : Prop :=
  ∃ before after, items = before ++ .label name :: after ∧ ∀ item ∈ after, ∃ n, item = .label n

theorem placeOf_append (h : .label name ∉ before) :
    placeOf (before ++ .label name :: after) name = (written before).length := by
  unfold placeOf
  rw [List.takeWhile_append_of_pos fun item hitem => ?_, List.takeWhile_cons_of_neg (by simp),
    List.append_nil, length_written]
  exact decide_eq_true fun heq => h (heq ▸ hitem)

theorem length_written_append :
    (written (before ++ .label name :: after)).length =
      (written before).length + (written after).length := by
  unfold written
  rw [List.filterMap_append, List.length_append]
  rfl

theorem written_eq_nil_iff : written items = [] ↔ ∀ item ∈ items, ∃ n, item = .label n := by
  unfold written
  rw [List.filterMap_eq_nil_iff]
  refine forall₂_congr fun item _ => ?_
  cases item <;> simp [Item.written?]

/-- A defined label has its place in the code, or behind it when it is defined last. -/
theorem placeOf_le (hn : (definedNames items).Nodup) (hd : name ∈ definedNames items) :
    placeOf items name ≤ (written items).length ∧
      (placeOf items name = (written items).length ↔ DefinedLast items name) := by
  obtain ⟨item, hmem, hitem⟩ := List.mem_filterMap.mp hd
  obtain rfl : item = .label name := by cases item <;> cases hitem; rfl
  -- With one definition only, each way to split the items there has the same parts.
  have hfirst {before after : List Item} (h : items = before ++ .label name :: after) :
      .label name ∉ before := by
    intro hbefore
    have hnames : definedNames items = definedNames before ++ name :: definedNames after := by
      rw [h, definedNames, List.filterMap_append]
      rfl
    have hdisjoint := (List.nodup_append.mp (hnames ▸ hn)).2.2
    exact hdisjoint name (List.mem_filterMap.mpr ⟨_, hbefore, rfl⟩) name List.mem_cons_self rfl
  obtain ⟨before, after, hsplit⟩ := List.append_of_mem hmem
  have hplace {before after : List Item} (h : items = before ++ .label name :: after) :
      placeOf items name = (written before).length ∧
        (written items).length = (written before).length + (written after).length := by
    have hnot := hfirst h
    subst h
    exact ⟨placeOf_append hnot, length_written_append⟩
  obtain ⟨hplaceOf, hlength⟩ := hplace hsplit
  refine ⟨by omega, fun heq => ⟨before, after, hsplit, ?_⟩, ?_⟩
  · have hnil : (written after).length = 0 := by omega
    exact written_eq_nil_iff.mp (List.length_eq_zero_iff.mp hnil)
  · rintro ⟨before', after', hsplit', hafter⟩
    obtain ⟨hplaceOf', hlength'⟩ := hplace hsplit'
    rw [written_eq_nil_iff.mpr hafter, List.length_nil] at hlength'
    omega

/-- What a target of the text has become in code of this size.  Indices are 64-bit words, so the
end of the code is one when the code is no longer than that. -/
inductive Target.Lands (items : List Item) (size : Nat) : Target → UInt64 → Prop
  | index (i : UInt64) : Lands items size (.index i) i
  | label {name : Word} {i : UInt64} : i.toNat ≤ size →
      (size < 2 ^ 64 → (i.toNat = size ↔ DefinedLast items name)) →
      Lands items size (.label name) i

/-- The target is the number of no instruction, or a label that is defined last. -/
inductive Target.LeadsOut (items : List Item) (size : Nat) : Target → Prop
  | index {i : UInt64} : size ≤ i.toNat → LeadsOut items size (.index i)
  | label {name : Word} : DefinedLast items name → LeadsOut items size (.label name)

theorem Target.lands_value (hn : (definedNames items).Nodup) {t : Target}
    (ht : t.DefinedIn (definedNames items)) :
    t.Lands items (written items).length (t.value (placeOf items)) := by
  cases t with
  | index i => exact .index i
  | label name =>
    obtain ⟨hle, hlast⟩ := placeOf_le hn ht
    have hmod : (UInt64.ofNat (placeOf items name)).toNat ≤ placeOf items name := by
      rw [UInt64.toNat_ofNat']
      exact Nat.mod_le _ _
    refine .label (Nat.le_trans hmod hle) fun hsize => ?_
    have hexact : (UInt64.ofNat (placeOf items name)).toNat = placeOf items name :=
      UInt64.toNat_ofNat_of_lt' (Nat.lt_of_le_of_lt hle hsize)
    change (UInt64.ofNat (placeOf items name)).toNat = _ ↔ _
    rw [hexact]
    exact hlast

/-- Only a target that leads out of the code can land behind its last instruction. -/
theorem Target.Lands.leadsOut {size : Nat} {t : Target} {i : UInt64} (h : t.Lands items size i)
    (hle : size ≤ i.toNat) : t.LeadsOut items size := by
  cases h with
  | index => exact .index hle
  | label hi hlast =>
    have heq : i.toNat = size := Nat.le_antisymm hi hle
    exact .label ((hlast (heq ▸ i.toNat_lt)).mp heq)

/-! ### Assembled instructions -/

/-- What the text writes as an instruction becomes this one, target by target. -/
structure Yields (items : List Item) (size : Nat) (x : Opcode × Operand Target)
    (i : Instruction) : Prop where
  opcode : i.opcode = x.1
  targets : List.Forall₂ (Target.Lands items size) x.2.targets i.operand.targets
  shape : i.wellShaped = false ↔ i.opcode.mnemonic = "RJUMPV" ∧ 256 < i.jumpTargets.length

theorem yields_of_mem_written (hr : Rendering items source.toList) (hl : WellLabelled items)
    {x : Opcode × Operand Target} (hx : x ∈ written items) :
    Yields items (written items).length x ⟨x.1, x.2.map (Target.value (placeOf items))⟩ := by
  obtain ⟨item, hmem, hitem⟩ := List.mem_filterMap.mp hx
  cases item with
  | label => cases hitem
  | instruction opcode operand =>
    cases hitem
    obtain ⟨ws, hws⟩ := hr.exists_spelled _ hmem
    cases hws with
    | instruction _ hargs =>
      refine ⟨rfl, ?_, ?_⟩
      · rw [Operand.targets_map, List.forall₂_map_right_iff, List.forall₂_same]
        exact fun t ht => Target.lands_value hl.nodup (hl.defined _ hmem t ht)
      · rw [Instruction.wellShaped, hargs.accepts_eq_false_iff, Opcode.shape_eq_table_iff,
          Instruction.jumpTargets, Operand.targets_map, List.length_map, List.length_map]
        rfl

theorem exists_yields (h : assemble source = .ok code) :
    ∃ items, Rendering items source.toList ∧ (written items).length = code.size ∧
      List.Forall₂ (Yields items code.size) (written items) code.toList := by
  obtain ⟨items, hlines, hlabelled, hcode⟩ := assemble_eq_ok_iff_lines.mp h
  have hr := rendering_iff_lines.mpr hlines
  have hsize : (written items).length = code.size := by
    rw [← Array.length_toList, hcode, instructions_eq_map_written, List.length_map]
  refine ⟨items, hr, hsize, ?_⟩
  rw [hcode, instructions_eq_map_written, List.forall₂_map_right_iff, List.forall₂_same, ← hsize]
  exact fun x hx => yields_of_mem_written hr hlabelled hx

end Assembly

/-! ### Verifications that blame an operand -/

namespace Section

variable {s : Section} {types : TypeSection} {index : Nat} {code : Code} {f : Failure}

/-- What is malformed is the whole section, or an instruction that has the defect. -/
theorem malformed_cases (h : verify types index code = .error f) (hm : f.violation ∈ malformed) :
    f = ⟨.unknownSection, 0⟩ ∨ f = ⟨.emptySection, 0⟩ ∨
      ∃ own i, code[f.position]? = some i ∧ Defect { code, own, types } i f.violation := by
  cases hown : types[index]? with
  | none =>
    unfold verify inspect at h
    rw [hown] at h
    cases h
    exact .inl rfl
  | some own =>
    rw [verify_of_listed hown] at h
    have hs : ¬ Formed { code, own, types } := fun hs => violation_notMem_malformed hs h hm
    unfold examine at h
    cases hne : code.isEmpty with
    | true =>
      rw [if_pos hne] at h
      cases h
      exact .inr (.inl rfl)
    | false =>
      rw [if_neg (by rw [hne]; exact Bool.false_ne_true)] at h
      cases hfirst : firstMalformed? { code, own, types } with
      | none => exact absurd (formed_iff.mpr ⟨hne, hfirst⟩) hs
      | some failure =>
        rw [hfirst] at h
        cases h
        obtain ⟨p, i, hi, hf, -⟩ := Traversal.findSome?_zipIdx_eq_some_iff.mp hfirst
        obtain ⟨v, hv, rfl⟩ := Option.map_eq_some_iff.mp hf
        rw [Array.getElem?_toList] at hi
        exact .inr (.inr ⟨own, i, hi, (firstDefect_of_malformation? hv).present⟩)

end Section

namespace Assembly

variable {source : String} {code : Code}

/-- **Assembled code has operands of the right kind, and labels lead into it.**  The only
malformed operands are jump tables with too many targets, and a label is the index of an
instruction unless it is defined last.  So when a verification blames an operand, it is a long
table, a number given in the text, or a label that is defined last. -/
theorem assembled_operands (h : assemble source = .ok code) :
    (∀ i ∈ code, i.wellShaped = false ↔
      i.opcode.mnemonic = "RJUMPV" ∧ 256 < i.jumpTargets.length) ∧
    code.size ≤ source.length ∧
    ∃ items, Rendering items source.toList ∧ (written items).length = code.size ∧
      (∀ (p : Nat) (i : Instruction), code[p]? = some i → ∃ operand : Operand Target,
        (written items)[p]? = some (i.opcode, operand) ∧
        List.Forall₂ (Target.Lands items code.size) operand.targets i.operand.targets) ∧
      ∀ types index p,
        (Section.verify types index code = .error ⟨.malformedOperand, p⟩ →
          ∃ i, code[p]? = some i ∧ i.opcode.mnemonic = "RJUMPV" ∧ 256 < i.jumpTargets.length) ∧
        (Section.verify types index code = .error ⟨.jumpOutOfRange, p⟩ →
          ∃ opcode operand, (written items)[p]? = some (opcode, operand) ∧
            ∃ t ∈ operand.targets, t.LeadsOut items code.size) := by
  obtain ⟨items, hr, hsize, hall⟩ := exists_yields h
  -- At every position an instruction of the text has become the one of the code.
  have hat (p : Nat) (i : Instruction) (hi : code[p]? = some i) :
      ∃ x, (written items)[p]? = some x ∧ Yields items code.size x i := by
    rw [← Array.getElem?_toList] at hi
    exact exists_getElem?_of_forall₂ hall hi
  have hshape (p : Nat) (i : Instruction) (hi : code[p]? = some i) :
      i.wellShaped = false ↔ i.opcode.mnemonic = "RJUMPV" ∧ 256 < i.jumpTargets.length := by
    obtain ⟨x, -, hx⟩ := hat p i hi
    exact hx.shape
  refine ⟨fun i hi => ?_, ?_, items, hr, hsize, fun p i hi => ?_, fun types index p => ⟨?_, ?_⟩⟩
  · obtain ⟨p, hp⟩ := Array.mem_iff_getElem?.mp hi
    exact hshape p i hp
  · rw [← hsize, ← String.length_toList]
    exact Nat.le_trans (List.length_filterMap_le _ _) hr.length_le
  · obtain ⟨⟨opcode, operand⟩, hx, hyields⟩ := hat p i hi
    obtain rfl := hyields.opcode
    exact ⟨operand, hx, hyields.targets⟩
  · intro hv
    have hm : Violation.malformedOperand ∈ Section.malformed := by decide
    rcases Section.malformed_cases hv hm with hf | hf | ⟨own, i, hi, hdefect⟩
    · cases hf
    · cases hf
    · cases hdefect with
      | shape hshaped => exact ⟨i, hi, (hshape p i hi).mp hshaped⟩
  · intro hv
    have hm : Violation.jumpOutOfRange ∈ Section.malformed := by decide
    rcases Section.malformed_cases hv hm with hf | hf | ⟨own, i, hi, hdefect⟩
    · cases hf
    · cases hf
    · cases hdefect with
      | @target _ ht hle =>
        obtain ⟨target, htarget, rfl⟩ := List.mem_map.mp ht
        obtain ⟨⟨opcode, operand⟩, hx, hyields⟩ := hat p i hi
        obtain ⟨k, hk⟩ := List.mem_iff_getElem?.mp htarget
        obtain ⟨t, ht, hlands⟩ := exists_getElem?_of_forall₂ hyields.targets hk
        exact ⟨opcode, operand, hx, t, List.mem_of_getElem? ht, hlands.leadsOut hle⟩

open Instruction in
/-- The jump to a label at the end of the text is refused, and the label is defined last. -/
theorem assembled_operands_danglingJump :
    assemble "RJUMP @end\nend:" = .ok #[ofByte 0xE0 (.target 1)] ∧
    Section.verify #[⟨0, 0, 0⟩] 0 #[ofByte 0xE0 (.target 1)] = .error ⟨.jumpOutOfRange, 0⟩ ∧
    ∃ items, Rendering items "RJUMP @end\nend:".toList ∧ DefinedLast items "end".toList := by
  have hassemble : assemble "RJUMP @end\nend:" = .ok #[ofByte 0xE0 (.target 1)] := by
    decide +kernel
  have hverify : Section.verify #[⟨0, 0, 0⟩] 0 #[ofByte 0xE0 (.target 1)] =
      .error ⟨.jumpOutOfRange, 0⟩ := by
    decide +kernel
  have hscan : scan "RJUMP @end\nend:" =
    ([⟨1, .instruction (ofByte 0xE0).opcode (.target (.label "end".toList))⟩,
      ⟨2, .label "end".toList⟩], none) := by
    decide +kernel
  obtain ⟨-, -, items, hr, -, -, hblames⟩ := assembled_operands hassemble
  have hitems := hr.unique (rendering_iff_lines.mpr (scan_eq_iff_lines.mp ⟨_, hscan, rfl⟩))
  obtain ⟨opcode, operand, hwritten, t, ht, hout⟩ := (hblames _ 0 0).2 hverify
  refine ⟨hassemble, hverify, items, hr, ?_⟩
  -- The only instruction of the text has the label for its only target.
  rw [hitems] at hwritten
  cases hwritten
  rw [List.mem_singleton.mp ht] at hout
  cases hout with
  | label hlast => exact hlast

end Assembly

end EofVerifier
