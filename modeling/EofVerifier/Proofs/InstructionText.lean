import EofVerifier.Proofs.Assembling

/-! # Assembled code as assembler text

Labels are gone from assembled code: its targets are indices.  Its operands are still of the
kinds that their opcodes ask for, as the words that write an operand of some kind are replaced by
other words that write it (`Writes.words`).  So assembled code can be written instruction by
instruction, with a line break, a space or any other blank between two of them, and assembles to
itself again (`assemble_intercalate`). -/

namespace EofVerifier.Assembly

variable {c : Char} {cs text : List Char} {ws : List Word} {is : List Instruction}
  {source : String} {code : Code}

/-! ### Words that are written -/

theorem isAlphanum_iff : c.isAlphanum = true ↔
    (65 ≤ c.toNat ∧ c.toNat ≤ 90 ∨ 97 ≤ c.toNat ∧ c.toNat ≤ 122) ∨
      48 ≤ c.toNat ∧ c.toNat ≤ 57 := by
  simp [Char.isAlphanum, Char.isAlpha, Char.isUpper, Char.isLower, Char.isDigit,
    UInt32.le_iff_toNat_le]

theorem isWordChar_of_isAlphanum (h : c.isAlphanum = true) : isWordChar c = true := by
  have hblank : Text.isBlank c = false := by
    rw [isAlphanum_iff] at h
    simp [Text.isBlank, Text.blankRanges]
    omega
  have hmark : marksComment c = false := by
    refine decide_eq_false ?_
    rintro (rfl | rfl) <;> exact absurd h (by decide)
  exact isWordChar_eq_true_iff.mpr ⟨hblank, hmark⟩

theorem isAlphanum_of_digit? {d : Nat} (h : Text.Hex.digit? c = some d) : c.isAlphanum = true := by
  have hle (a b : Char) : a ≤ b ↔ a.toNat ≤ b.toNat := UInt32.le_iff_toNat_le
  rw [isAlphanum_iff]
  unfold Text.Hex.digit? at h
  simp only [hle] at h
  grind

theorem isWord_of_isAlphanum {w : Word} (hne : w ≠ []) (h : ∀ c ∈ w, c.isAlphanum = true) :
    IsWord w :=
  ⟨hne, fun c hc => isWordChar_of_isAlphanum (h c hc)⟩

theorem isWord_digits (n : Nat) : IsWord (Text.Decimal.digits n) := by
  obtain ⟨hne, hdigit, -⟩ := Text.Decimal.denotes_digits n
  exact isWord_of_isAlphanum hne fun c hc => by simp [Char.isAlphanum, hdigit c hc]

theorem isWord_hex {x : Char} {ds : List Nat} (hx : x = 'x' ∨ x = 'X')
    (h : Text.Hex.HasDigits cs ds) : IsWord ('0' :: x :: cs) := by
  have hx' : x.isAlphanum = true := by rcases hx with rfl | rfl <;> decide
  have hcs : ∀ c ∈ cs, c.isAlphanum = true := by
    induction h with
    | nil => nofun
    | cons hc _ ih => exact List.forall_mem_cons.mpr ⟨isAlphanum_of_digit? hc, ih⟩
  refine isWord_of_isAlphanum (List.cons_ne_nil _ _) ?_
  simp only [List.forall_mem_cons]
  exact ⟨by decide, hx', hcs⟩

theorem isWord_mnemonic (opcode : Opcode) : IsWord opcode.mnemonic.toList := by
  refine isWord_of_isAlphanum ?_ fun c hc => ?_
  · intro hnil
    have hhead := opcode.head_mnemonic
    rw [hnil] at hhead
    cases hhead
  · rcases opcode.mem_mnemonic c hc with h | h <;> simp [Char.isAlphanum, Char.isAlpha, h]

theorem isWord_of_mem_operand {operand : Operand UInt64} : ∀ w ∈ operand.words, IsWord w := by
  cases operand with
  | none => nofun
  | payload bytes =>
    obtain ⟨-, ds, hd, -⟩ := Text.Hex.decode?_eq_some_iff.mp (Text.Hex.decode?_encode bytes)
    exact List.forall_mem_singleton.mpr (isWord_hex (.inl rfl) hd)
  | target t => exact List.forall_mem_singleton.mpr (isWord_digits _)
  | table ts =>
    intro w hw
    obtain ⟨t, -, rfl⟩ := List.mem_map.mp hw
    exact isWord_digits _
  | callee index => exact List.forall_mem_singleton.mpr (isWord_digits _)

theorem isWord_of_mem_words {i : Instruction} : ∀ w ∈ i.words, IsWord w :=
  List.forall_mem_cons.mpr ⟨isWord_mnemonic _, isWord_of_mem_operand⟩

/-! ### Words with spaces between them -/

theorem render_toList (i : Instruction) : i.render.toList = [' '].intercalate i.words := by
  unfold Instruction.render
  exact String.toList_ofList

theorem isSpace_space : isSpace ' ' := ⟨by decide, by decide⟩

theorem inline_intercalate (hne : ws ≠ []) (h : ∀ w ∈ ws, IsWord w) :
    Inline ws ([' '].intercalate ws) := by
  induction ws with
  | nil => exact absurd rfl hne
  | cons w ws ih =>
    obtain ⟨hw, hws⟩ := List.forall_mem_cons.mp h
    cases ws with
    | nil =>
      rw [List.intercalate_singleton]
      exact .last hw
    | cons w' ws =>
      rw [List.intercalate_cons_cons, List.append_assoc]
      refine .more hw (List.cons_ne_nil _ _) ?_ (ih (List.cons_ne_nil _ _) hws)
      exact List.forall_mem_singleton.mpr isSpace_space

theorem words_space {sp : List Char} (hsp : ∀ c ∈ sp, isSpace c) (cs : List Char) :
    Text.words (sp ++ cs) = Text.words cs := by
  induction sp with
  | nil => rfl
  | cons c sp ih =>
    obtain ⟨hc, hsp⟩ := List.forall_mem_cons.mp hsp
    rw [List.cons_append, Text.words_blank hc.1, ih hsp]

theorem Inline.words_eq (h : Inline ws text) : Text.words text = ws := by
  have hword {w : Word} (hw : IsWord w) {cs : List Char}
      (hcs : ∀ c ∈ cs.head?, Text.isBlank c = true) : Text.words (w ++ cs) = w :: Text.words cs :=
    Text.words_append hw.1 (fun c hc => (isWordChar_eq_true_iff.mp (hw.2 c hc)).1) hcs
  induction h with
  | @last w hw =>
    have hlast : Text.words (w ++ []) = w :: Text.words [] := hword hw nofun
    rw [List.append_nil] at hlast
    exact hlast
  | @more w ws sp cs hw hne hsp _ ih =>
    rw [hword hw, words_space hsp, ih]
    obtain ⟨c, sp, rfl⟩ := List.exists_cons_of_ne_nil hne
    rintro _ ⟨⟩
    exact (hsp c List.mem_cons_self).1

theorem Inline.newline_notMem (h : Inline ws text) : '\n' ∉ text := by
  have hword {w : Word} (hw : IsWord w) : '\n' ∉ w := fun hmem => by cases hw.2 _ hmem
  induction h with
  | last hw => exact hword hw
  | more hw _ hsp _ ih =>
    rw [List.mem_append, List.mem_append]
    rintro (hmem | hmem | hmem)
    · exact hword hw hmem
    · exact (hsp _ hmem).2 rfl
    · exact ih hmem

/-! ### Instructions as items -/

/-- The item that writes an instruction. -/
def Item.ofInstruction (i : Instruction) : Item :=
  .instruction i.opcode (i.operand.map .index)

theorem names_mnemonic (opcode : Opcode) : Names opcode.mnemonic.toList opcode := by
  have hupper {c : Char} (h : c.isUpper = true ∨ c.isDigit = true) : c.toUpper = c := by
    grind [Char.toUpper, Char.isUpper, Char.isDigit]
  have hmap : opcode.mnemonic.toList.map Char.toUpper = opcode.mnemonic.toList.map id :=
    List.map_congr_left fun c hc => hupper (opcode.mem_mnemonic c hc)
  exact hmap.trans (List.map_id _)

theorem spelled_digits (i : UInt64) : (Target.index i).Spelled (Text.Decimal.digits i.toNat) :=
  .index (Text.Decimal.denotes_digits _)

/-- Bytes are written as two digits each. -/
theorem writes_payload {bytes : List UInt8} (hne : bytes ≠ []) :
    Writes (.payload bytes.length) (.payload bytes) (Operand.payload bytes).words := by
  obtain ⟨hle, -, hd⟩ := Text.Hex.payload?_eq_some_iff.mp (Text.Hex.payload?_encode hne)
  exact .payload (.inl rfl) hle rfl hd

theorem writes_table {ts : List UInt64} (hne : ts ≠ []) :
    Writes .table (.table (ts.map .index)) (Operand.table ts).words := by
  refine .table (by simpa using hne) ?_
  have hwords : (Operand.table ts).words = ts.map fun i => Text.Decimal.digits i.toNat := rfl
  rw [hwords, List.forall₂_map_left_iff, List.forall₂_map_right_iff, List.forall₂_same]
  exact fun i _ => spelled_digits i

/-- An operand of some kind, with its targets replaced, is written as an operand of this kind. -/
theorem Writes.words {shape : Shape} {operand : Operand Target} {args : List Word}
    (h : Writes shape operand args) (f : Target → UInt64) :
    Writes shape ((operand.map f).map .index) (operand.map f).words := by
  cases h with
  | none => exact .none
  | @payload size x digits bytes _ hle hsize hd =>
    have hne : bytes ≠ [] := by
      rintro rfl
      have hpos : 0 < digits.length := List.length_pos_iff.mpr hd.1
      simp at hsize
      omega
    rw [← hsize]
    exact writes_payload hne
  | target ht => exact .target (spelled_digits _)
  | table hne _ => exact writes_table (by simpa using hne)
  | callee _ _ => exact .callee (.inl rfl) (Text.Decimal.denotes_digits _)

theorem Rendering.exists_spelled {items : List Item} {cs : List Char} (h : Rendering items cs) :
    ∀ item ∈ items, ∃ ws, item.Spelled ws := by
  induction h with
  | done => nofun
  | item _ hi _ _ _ ih => exact List.forall_mem_cons.mpr ⟨⟨_, hi⟩, ih⟩

/-- Assembled instructions are written as items. -/
theorem spelled_of_assemble (h : assemble source = .ok code) :
    ∀ i ∈ code.toList, (Item.ofInstruction i).Spelled i.words := by
  obtain ⟨items, hlines, -, hcode⟩ := assemble_eq_ok_iff_lines.mp h
  intro i hi
  rw [hcode] at hi
  obtain ⟨item, hmem, hitem⟩ := List.mem_filterMap.mp hi
  obtain ⟨ws, hws⟩ := (rendering_iff_lines.mpr hlines).exists_spelled item hmem
  cases hws with
  | label => cases hitem
  | instruction _ hargs =>
    cases hitem
    exact .instruction (names_mnemonic _) (hargs.words _)

/-- Items with a blank between them are a text that writes them. -/
theorem rendering_intercalate (hc : Text.isBlank c = true)
    (h : ∀ i ∈ is, (Item.ofInstruction i).Spelled i.words) :
    Rendering (is.map Item.ofInstruction) ([c].intercalate (is.map (·.render.toList))) := by
  have hinline (i : Instruction) : Inline i.words i.render.toList := by
    rw [render_toList]
    exact inline_intercalate (List.cons_ne_nil _ _) isWord_of_mem_words
  induction is with
  | nil => exact .done (.gap .nil)
  | cons i is ih =>
    obtain ⟨hi, his⟩ := List.forall_mem_cons.mp h
    cases is with
    | nil =>
      have hitem := Rendering.item .nil hi (hinline i) apart_nil (.done (.gap .nil))
      rw [List.append_nil] at hitem
      change Rendering [Item.ofInstruction i] ([c].intercalate [i.render.toList])
      rw [List.intercalate_singleton]
      exact hitem
    | cons i' is =>
      have hgap : Gap [c] := .blank hc .nil
      have hapart (cs : List Char) : Apart ([c] ++ cs) := by
        rintro _ ⟨⟩
        simp [isWordChar, hc]
      change Rendering (Item.ofInstruction i :: (i' :: is).map Item.ofInstruction)
        ([c].intercalate (i.render.toList :: i'.render.toList :: is.map (·.render.toList)))
      rw [List.intercalate_cons_cons, List.append_assoc]
      have hitem := Rendering.item .nil hi (hinline i) (hapart _) ((ih his).gap_append hgap)
      exact hitem

theorem wellLabelled_ofInstruction (is : List Instruction) :
    WellLabelled (is.map Item.ofInstruction) := by
  have hnames : definedNames (is.map Item.ofInstruction) = [] := by
    refine List.filterMap_eq_nil_iff.mpr fun item hitem => ?_
    obtain ⟨i, -, rfl⟩ := List.mem_map.mp hitem
    rfl
  refine ⟨hnames ▸ List.nodup_nil, fun item hitem => ?_⟩
  obtain ⟨i, -, rfl⟩ := List.mem_map.mp hitem
  intro t ht
  rw [Operand.targets_map] at ht
  obtain ⟨index, -, rfl⟩ := List.mem_map.mp ht
  trivial

theorem instructions_ofInstruction (is : List Instruction) :
    instructions (is.map Item.ofInstruction) = is := by
  have hvalue (place : Word → Nat) (operand : Operand UInt64) :
      (operand.map Target.index).map (Target.value place) = operand := by
    cases operand with
    | table ts => simp [Operand.map, Function.comp_def, Target.value]
    | none | payload | target | callee => rfl
  have hinstruction (place : Word → Nat) (i : Instruction) :
      (Item.ofInstruction i).instruction? place = some i := by
    simp only [Item.ofInstruction, Item.instruction?, hvalue]
  unfold instructions
  rw [List.filterMap_map]
  refine (List.filterMap_congr fun i _ => ?_).trans List.filterMap_some
  exact hinstruction _ i

/-- Instructions that can be written, with blanks between them, assemble to themselves. -/
theorem assemble_of_spelled (hc : Text.isBlank c = true)
    (h : ∀ i ∈ is, (Item.ofInstruction i).Spelled i.words) :
    assemble (String.ofList ([c].intercalate (is.map (·.render.toList)))) = .ok is.toArray := by
  refine assemble_eq_ok_iff_lines.mpr
    ⟨is.map Item.ofInstruction, ?_, wellLabelled_ofInstruction _,
      (instructions_ofInstruction _).symm⟩
  rw [String.toList_ofList]
  exact rendering_iff_lines.mp (rendering_intercalate hc h)

theorem assemble_intercalate (hc : Text.isBlank c = true) (h : assemble source = .ok code) :
    assemble (String.ofList ([c].intercalate (code.toList.map (·.render.toList)))) = .ok code :=
  assemble_of_spelled hc (spelled_of_assemble h)

end EofVerifier.Assembly
