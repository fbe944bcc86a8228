import EofVerifier.Proofs.ControlFlow
import EofVerifier.Proofs.InstructionText

/-! # Single instructions are read back

An instruction whose operand is of the kind that its opcode asks for is written as an item
(`spelled_of_wellShaped`), so the text of the instruction assembles to it and to nothing else.

There is one exception.  An opcode without operand bytes may carry an empty payload, which is as
good as no operand but is written as `0x`, a word that no such opcode takes.  The reader stops
there, with the instruction already read (`scan_render_of_payload_nil`).  Between the two cases
`Instruction.read_render` says what every instruction of the right shape is read back as. -/

namespace EofVerifier

namespace Assembly

variable {i : Instruction} {ws : List Word} {text : List Char}

/-! ### Operands of the right kind -/

/-- An operand of the right kind is written as one, unless it is an empty payload. -/
theorem writes_of_accepts {shape : Shape} {operand : Operand UInt64}
    (h : shape.accepts operand = true) (hne : operand ≠ .payload []) :
    Writes shape (operand.map .index) operand.words := by
  cases operand with
  | none =>
    cases shape with
    | payload size =>
      obtain rfl : size = 0 := by simpa [Shape.accepts] using h
      exact .none
    | target | table | callee => cases h
  | payload bytes =>
    cases shape with
    | payload size =>
      obtain rfl : bytes.length = size := by simpa [Shape.accepts] using h
      exact writes_payload fun hnil => hne (hnil ▸ rfl)
    | target | table | callee => cases h
  | target t =>
    cases shape with
    | target => exact .target (spelled_digits t)
    | payload | table | callee => cases h
  | table ts =>
    cases shape with
    | table =>
      have hbounds : ts ≠ [] ∧ ts.length ≤ Shape.maxTargets := of_decide_eq_true h
      exact writes_table hbounds.1
    | payload | target | callee => cases h
  | callee index =>
    cases shape with
    | callee => exact .callee (.inl rfl) (Text.Decimal.denotes_digits _)
    | payload | target | table => cases h

theorem spelled_of_wellShaped (h : i.wellShaped = true) (hne : i.operand ≠ .payload []) :
    (Item.ofInstruction i).Spelled i.words :=
  .instruction (names_mnemonic _) (writes_of_accepts h hne)

theorem assemble_render (h : (Item.ofInstruction i).Spelled i.words) :
    assemble i.render = .ok #[i] := by
  have hall := assemble_of_spelled (c := ' ') (by decide) (List.forall_mem_singleton.mpr h)
  rw [List.map_singleton, List.intercalate_singleton, String.ofList_toList] at hall
  exact hall

/-! ### An empty payload -/

/-- A text of one line has the words of this line only. -/
theorem scan_inline (h : Inline ws text) : scan (String.ofList text) =
    ((scanWords ws).1.map (⟨1, ·⟩), (scanWords ws).2.map (⟨1, ·⟩)) := by
  have hpieces : Text.pieces (· = '\n') text = [text] := Text.pieces_of_notMem h.newline_notMem
  have hne : text ≠ [] := by
    rintro rfl
    exact h.not_apart apart_nil
  have hlines : Text.lines text = [text] := by
    unfold Text.lines
    rw [hpieces]
    exact if_neg (by simpa using hne)
  have hwords : lineWords text = ws := by
    have hall : wordLines (text ++ []) = [ws ++ []] := h.wordLines_append apart_nil rfl
    rw [List.append_nil, List.append_nil, wordLines, hpieces] at hall
    exact (List.cons.inj hall).1
  unfold scan
  rw [String.toList_ofList, hlines, scanLines, hwords, scanLines]
  rcases scanWords ws with ⟨items, _ | f⟩ <;> simp

theorem scanWords_of_payload_nil (hshape : i.opcode.shape = .payload 0) :
    scanWords [i.opcode.mnemonic.toList, ['0', 'x']] =
      ([.instruction i.opcode .none], some (.unknownMnemonic "0x")) := by
  have hspelled : (Item.instruction i.opcode .none).Spelled [i.opcode.mnemonic.toList] :=
    .instruction (names_mnemonic _) (hshape ▸ .none)
  have hread : Item.read i.opcode.mnemonic.toList ([] ++ [['0', 'x']]) =
      .ok (.instruction i.opcode .none, [['0', 'x']]) :=
    hspelled.read (by rintro _ ⟨⟩; decide)
  rw [List.nil_append] at hread
  have hopcode : opcodeOf? ['0', 'x'] = none := by decide +kernel
  have hfault : Item.read ['0', 'x'] [] = .error (.unknownMnemonic "0x") := by
    unfold Item.read
    rw [hopcode]
    rfl
  rw [scanWords]
  split
  · rename_i f h
    rw [hread] at h
    cases h
  · rename_i item rest h
    rw [hread] at h
    cases h
    rw [scanWords]
    split
    · rename_i f h
      rw [hfault] at h
      cases h
      rfl
    · rename_i item rest h
      rw [hfault] at h
      cases h

/-- The instruction itself is read, and the word that stands for the empty payload is left. -/
theorem assemble_render_of_payload_nil (hshape : i.opcode.shape = .payload 0)
    (ho : i.operand = .payload []) : assemble i.render = .error ⟨1, .unknownMnemonic "0x"⟩ := by
  have hwords : i.words = [i.opcode.mnemonic.toList, ['0', 'x']] := by
    unfold Instruction.words
    rw [ho]
    rfl
  have hinline : Inline i.words ([' '].intercalate i.words) :=
    inline_intercalate (List.cons_ne_nil _ _) isWord_of_mem_words
  have hscan := scan_inline hinline
  rw [hwords, scanWords_of_payload_nil hshape, ← hwords] at hscan
  unfold assemble Instruction.render
  rw [hscan]
  rfl

end Assembly

namespace Instruction

/-- An empty payload is of the right kind for an opcode without operand bytes only. -/
theorem shape_of_payload_nil {i : Instruction} (h : i.wellShaped = true)
    (ho : i.operand = .payload []) : i.opcode.shape = .payload 0 := by
  unfold wellShaped at h
  rw [ho] at h
  cases hshape : i.opcode.shape with
  | payload size =>
    rw [hshape] at h
    have hsize : 0 = size := of_decide_eq_true h
    rw [hsize]
  | target | table | callee =>
    rw [hshape] at h
    cases h

/-- **An instruction of the right shape is read back as itself, unless its operand is an empty
payload**, which is refused as a word that is no mnemonic. -/
theorem read_render (i : Instruction) (h : i.wellShaped = true) :
    read i.render =
      if i.operand = .payload [] then .error ⟨1, .unknownMnemonic "0x"⟩ else .ok i := by
  unfold read
  by_cases ho : i.operand = .payload []
  · rw [if_pos ho, Assembly.assemble_render_of_payload_nil (shape_of_payload_nil h ho) ho]
    rfl
  · rw [if_neg ho, Assembly.assemble_render (Assembly.spelled_of_wellShaped h ho)]
    rfl

/-- A jump to the largest index is read back. -/
theorem read_render_farJump :
    (ofByte 0xE0 (.target 0xFFFFFFFFFFFFFFFF)).wellShaped = true ∧
      read (ofByte 0xE0 (.target 0xFFFFFFFFFFFFFFFF)).render =
        .ok (ofByte 0xE0 (.target 0xFFFFFFFFFFFFFFFF)) := by
  have hshaped : (ofByte 0xE0 (.target 0xFFFFFFFFFFFFFFFF)).wellShaped = true := by decide +kernel
  refine ⟨hshaped, ?_⟩
  rw [read_render _ hshaped, if_neg (by decide +kernel)]

/-- An addition with an empty payload has the right shape and is not read back. -/
theorem read_render_emptyPayload_ne :
    (ofByte 0x01 (.payload [])).wellShaped = true ∧
      read (ofByte 0x01 (.payload [])).render ≠ .ok (ofByte 0x01 (.payload [])) := by
  refine ⟨by decide +kernel, ?_⟩
  have hread : read (ofByte 0x01 (.payload [])).render = .error ⟨1, .unknownMnemonic "0x"⟩ := by
    decide +kernel
  rw [hread]
  exact nofun

end Instruction

end EofVerifier
