import EofVerifier.Assembly.Resolve
import EofVerifier.Proofs.Scanning
import EofVerifier.Proofs.Traversal

/-! # What assembler text assembles to

A text assembles to the instructions that it writes, in their order and with every reference to
a label replaced by the number of instructions before the definition of that label
(`instructions`).  It assembles exactly when it is a rendering of items none of which defines a
label a second time or refers to a label that is defined nowhere (`WellLabelled`); how it is laid
out does not matter (`assembles_exactly`). -/

namespace EofVerifier

/-- Replaces every jump target. -/
def Operand.map {τ σ : Type} (f : τ → σ) : Operand τ → Operand σ
  | none => .none
  | payload bytes => .payload bytes
  | target t => .target (f t)
  | table ts => .table (ts.map f)
  | callee index => .callee index

theorem Operand.targets_map {τ σ : Type} (f : τ → σ) (operand : Operand τ) :
    (operand.map f).targets = operand.targets.map f := by
  cases operand <;> rfl

theorem map_eq_ok_iff {α β ε : Type} {x : Except ε α} {f : α → β} {b : β} :
    f <$> x = .ok b ↔ ∃ a, x = .ok a ∧ b = f a := by
  cases x <;> simp [eq_comm]

/-- When success has one meaning for each target, it has that meaning for all of them. -/
theorem Operand.mapTargets_eq_ok_iff_map {τ σ ε : Type} {f : τ → Except ε σ} {p : τ → Prop}
    {g : τ → σ} (h : ∀ a b, f a = .ok b ↔ p a ∧ b = g a) {x : Operand τ} {y : Operand σ} :
    x.mapTargets f = .ok y ↔ (∀ t ∈ x.targets, p t) ∧ y = x.map g := by
  cases x with
  | target t =>
    rw [mapTargets, bind_pure_comp, map_eq_ok_iff]
    simp [h, targets, map, and_assoc]
  | table ts =>
    rw [mapTargets, bind_pure_comp, map_eq_ok_iff]
    simp [Traversal.mapM_eq_ok_iff_map h, targets, map, and_assoc]
  | none | payload | callee => simp [mapTargets, targets, map, eq_comm]

namespace Assembly

/-! ### Names and places -/

/-- The name that an item defines. -/
def Item.defines? : Item → Option Word
  | .label name => some name
  | .instruction _ _ => none

/-- The names that are defined, in the order of the text. -/
def definedNames (items : List Item) : List Word :=
  items.filterMap Item.defines?

/-- The target does not refer to a label that is not among these. -/
def Target.DefinedIn (names : List Word) : Target → Prop
  | .index _ => True
  | .label name => name ∈ names

/-- All targets of the instruction, if it is one, are defined. -/
def Item.DefinedIn (names : List Word) : Item → Prop
  | .label _ => True
  | .instruction _ operand => ∀ t ∈ operand.targets, t.DefinedIn names

/-- No label is defined twice, and every label that is referred to is defined. -/
structure WellLabelled (items : List Item) : Prop where
  nodup : (definedNames items).Nodup
  defined : ∀ item ∈ items, item.DefinedIn (definedNames items)

/-- The number of instructions before the definition of the label. -/
def placeOf (items : List Item) (name : Word) : Nat :=
  (items.takeWhile (· ≠ .label name)).countP fun item => item.defines?.isNone

/-- The index that a target stands for, as a 64-bit word, when labels have these places. -/
def Target.value (place : Word → Nat) : Target → UInt64
  | .index i => i
  | .label name => UInt64.ofNat (place name)

/-- The instruction that an item is, when labels have these places. -/
def Item.instruction? (place : Word → Nat) : Item → Option Instruction
  | .label _ => none
  | .instruction opcode operand => some { opcode, operand := operand.map (Target.value place) }

/-- The instructions among the items. -/
def instructions (items : List Item) : List Instruction :=
  items.filterMap (Item.instruction? (placeOf items))

/-! ### The table of labels -/

variable {entries : List Entry} {items : List Item} {labels table : Labels} {count n : Nat}
  {name : Word}

theorem placeOf_label (name name' : Word) (items : List Item) :
    placeOf (.label name' :: items) name =
      if name' = name then 0 else placeOf items name := by
  by_cases h : name' = name <;> simp [placeOf, Item.defines?, h]

theorem placeOf_instruction (opcode : Opcode) (operand : Operand Target) (items : List Item) :
    placeOf (.instruction opcode operand :: items) name = placeOf items name + 1 := by
  simp [placeOf, Item.defines?]

theorem lookup_cons (labels : Labels) (name name' : Word) (count : Nat) :
    List.lookup name ((name', count) :: labels) =
      if name = name' then some count else labels.lookup name := by
  rw [List.lookup_cons]
  by_cases h : name = name'
  · simp [h]
  · simp [h, beq_eq_false_iff_ne.mpr h]

/-- The table of labels can be built when no name comes twice or is there already. -/
theorem exists_collect_iff : (∃ table, labels.collect count entries = .ok table) ↔
    (definedNames (entries.map Entry.item)).Nodup ∧
      ∀ name ∈ definedNames (entries.map Entry.item), labels.lookup name = none := by
  induction entries generalizing labels count with
  | nil => simp [Labels.collect, definedNames]
  | cons entry entries ih =>
    obtain ⟨line, name | ⟨opcode, operand⟩⟩ := entry
    · have hnames : definedNames ((Entry.mk line (.label name) :: entries).map Entry.item) =
          name :: definedNames (entries.map Entry.item) := rfl
      rw [hnames, List.nodup_cons, List.forall_mem_cons, Labels.collect]
      cases hl : labels.lookup name with
      | some n => simp
      | none =>
        have hnone (name' : Word) : List.lookup name' ((name, count) :: labels) = none ↔
            name' ≠ name ∧ labels.lookup name' = none := by
          rw [lookup_cons]
          by_cases h : name' = name <;> simp [h]
        simp only [Option.isSome_none, Bool.false_eq_true, if_false, ih, hnone]
        constructor
        · rintro ⟨hnodup, hfresh⟩
          have hnot : name ∉ definedNames (entries.map Entry.item) := fun hmem =>
            (hfresh name hmem).1 rfl
          exact ⟨⟨hnot, hnodup⟩, trivial, fun n hn => (hfresh n hn).2⟩
        · rintro ⟨⟨hnot, hnodup⟩, -, hfresh⟩
          exact ⟨hnodup, fun n hn => ⟨fun heq => hnot (heq ▸ hn), hfresh n hn⟩⟩
    · exact ih

/-- The table gives each name its place, behind the instructions that came before. -/
theorem lookup_collect (h : labels.collect count entries = .ok table) (name : Word) :
    table.lookup name =
      if name ∈ definedNames (entries.map Entry.item) then
        some (count + placeOf (entries.map Entry.item) name)
      else labels.lookup name := by
  induction entries generalizing labels count with
  | nil =>
    cases h
    rfl
  | cons entry entries ih =>
    obtain ⟨line, name' | ⟨opcode, operand⟩⟩ := entry
    · rw [Labels.collect] at h
      split at h
      · cases h
      · have hnot := (exists_collect_iff.mp ⟨table, h⟩).2 name'
        have hnames : definedNames ((Entry.mk line (.label name') :: entries).map Entry.item) =
            name' :: definedNames (entries.map Entry.item) := rfl
        rw [ih h, hnames, List.map_cons, placeOf_label, lookup_cons]
        by_cases hname : name = name'
        · subst hname
          have hlast : name ∉ definedNames (entries.map Entry.item) := fun hmem => by
            have hnone := hnot hmem
            simp at hnone
          simp [hlast]
        · simp [hname, Ne.symm hname]
    · rw [ih h, List.map_cons, placeOf_instruction, Nat.add_right_comm]
      rfl

/-- The table of all labels of a text. -/
theorem lookup_table (h : Labels.collect [] 0 entries = .ok table) (name : Word) :
    table.lookup name = if name ∈ definedNames (entries.map Entry.item) then
      some (placeOf (entries.map Entry.item) name) else none := by
  rw [lookup_collect h, Nat.zero_add]
  rfl

/-! ### References -/

section Resolve

variable {names : List Word} {place : Word → Nat}
  (hlabels : ∀ name, labels.lookup name = if name ∈ names then some (place name) else none)
include hlabels

theorem resolve_target_eq_ok_iff {line : Nat} (t : Target) (i : UInt64) :
    t.resolve labels line = .ok i ↔ t.DefinedIn names ∧ i = t.value place := by
  cases t with
  | index j => simp [Target.resolve, Target.DefinedIn, Target.value, eq_comm]
  | label name =>
    by_cases h : name ∈ names
    · simp [Target.resolve, hlabels, h, Target.DefinedIn, Target.value, eq_comm]
    · simp [Target.resolve, hlabels, h, Target.DefinedIn]

/-- The instructions are resolved when every label that is referred to is in the table. -/
theorem resolve_eq_ok_iff {code : List Instruction} : resolve labels entries = .ok code ↔
    (∀ item ∈ entries.map Entry.item, item.DefinedIn names) ∧
      code = (entries.map Entry.item).filterMap (Item.instruction? place) := by
  have hcons (l : List Entry) (is : List Instruction) : resolve labels l = .ok is ↔
      List.Forall₂ (fun r i => r = .ok i) (l.filterMap (Entry.resolve? labels)) is :=
    Traversal.mapM_eq_ok_iff_forall₂
  induction entries generalizing code with
  | nil => simp [hcons, List.forall₂_nil_left_iff]
  | cons entry entries ih =>
    obtain ⟨line, name | ⟨opcode, operand⟩⟩ := entry
    · have hlabel : Item.DefinedIn names (.label name) := trivial
      rw [List.map_cons, List.forall_mem_cons, and_iff_right hlabel]
      exact ih
    · have hoperand (i : Instruction) :
          (operand.mapTargets (Target.resolve labels line)).map (Instruction.mk opcode) = .ok i ↔
            (∀ t ∈ operand.targets, t.DefinedIn names) ∧
              i = { opcode, operand := operand.map (Target.value place) } := by
        change Instruction.mk opcode <$> operand.mapTargets (Target.resolve labels line) = _ ↔ _
        rw [map_eq_ok_iff]
        simp [Operand.mapTargets_eq_ok_iff_map (resolve_target_eq_ok_iff hlabels), and_assoc]
      have hentry : (Entry.mk line (.instruction opcode operand) :: entries).filterMap
          (Entry.resolve? labels) =
          (operand.mapTargets (Target.resolve labels line)).map (Instruction.mk opcode) ::
            entries.filterMap (Entry.resolve? labels) := rfl
      rw [hcons, hentry, List.forall₂_cons_left_iff, List.map_cons, List.forall_mem_cons]
      simp only [hoperand, ← hcons, ih]
      constructor
      · rintro ⟨i, is, ⟨hi, rfl⟩, ⟨his, rfl⟩, rfl⟩
        exact ⟨⟨hi, his⟩, rfl⟩
      · rintro ⟨⟨hi, his⟩, rfl⟩
        exact ⟨_, _, ⟨hi, rfl⟩, ⟨his, rfl⟩, rfl⟩

end Resolve

/-! ### Whole texts -/

theorem assemble_eq_ok_iff_scan {source : String} {code : Code} : assemble source = .ok code ↔
    ∃ entries table, scan source = (entries, none) ∧ Labels.collect [] 0 entries = .ok table ∧
      resolve table entries = .ok code.toList := by
  unfold assemble
  cases hscan : scan source with
  | mk entries fault =>
    cases htable : Labels.collect [] 0 entries with
    | error e => simp [htable, bind, Except.bind]
    | ok table =>
      cases fault with
      | some e => simp [htable, bind, Except.bind, throw, throwThe, MonadExceptOf.throw]
      | none =>
        have hrest : (do return (← resolve table entries).toArray) = .ok code ↔
            resolve table entries = .ok code.toList := by
          rw [bind_pure_comp, map_eq_ok_iff]
          constructor
          · rintro ⟨is, his, rfl⟩
            exact his
          · intro his
            exact ⟨code.toList, his, rfl⟩
        dsimp only
        rw [htable]
        exact hrest.trans (by simp [htable])

/-- A text assembles when the items on its lines are well labelled. -/
theorem assemble_eq_ok_iff_lines {source : String} {code : Code} : assemble source = .ok code ↔
    ∃ items, Lines items (wordLines source.toList) ∧ WellLabelled items ∧
      code.toList = instructions items := by
  rw [assemble_eq_ok_iff_scan]
  constructor
  · rintro ⟨entries, table, hscan, htable, hresolve⟩
    obtain ⟨hdefined, hcode⟩ := (resolve_eq_ok_iff (lookup_table htable)).mp hresolve
    have hnodup := (exists_collect_iff.mp ⟨table, htable⟩).1
    have hlines := scan_eq_iff_lines.mp ⟨entries, hscan, rfl⟩
    exact ⟨entries.map Entry.item, hlines, ⟨hnodup, hdefined⟩, hcode⟩
  · rintro ⟨items, hlines, ⟨hnodup, hdefined⟩, hcode⟩
    obtain ⟨entries, hscan, rfl⟩ := scan_eq_iff_lines.mpr hlines
    obtain ⟨table, htable⟩ := exists_collect_iff.mpr ⟨hnodup, fun _ _ => List.lookup_nil⟩
    exact ⟨entries, table, hscan, htable,
      (resolve_eq_ok_iff (lookup_table htable)).mpr ⟨hdefined, hcode⟩⟩

end Assembly

end EofVerifier
