import EofVerifier.Listing
import EofVerifier.Proofs.ControlFlow
import EofVerifier.Proofs.InstructionText

/-! # Listings are assembler text

A listing has one line for each instruction, which shows its index, its offset and the
instruction itself (`Listing.Shows`).  The instructions on the lines, put together with line
breaks or with spaces between them, assemble to the code that is listed
(`Listing.reassembles`). -/

namespace EofVerifier

namespace Text

/-- Lines that are ended by line feeds are read back. -/
theorem lines_flatMap {ls : List (List Char)} (h : ∀ l ∈ ls, '\n' ∉ l) :
    lines (ls.flatMap (· ++ ['\n'])) = ls := by
  have hpieces : pieces (· = '\n') (ls.flatMap (· ++ ['\n'])) = ls ++ [[]] := by
    induction ls with
    | nil => rfl
    | cons l ls ih =>
      obtain ⟨hl, hls⟩ := List.forall_mem_cons.mp h
      rw [List.flatMap_cons, List.append_assoc, List.singleton_append, pieces_cut (by simp),
        pieces_of_notMem hl, ih hls, List.singleton_append, List.cons_append]
  unfold lines
  rw [hpieces, if_pos List.getLast?_concat, List.dropLast_concat]

end Text

/-! ### The lines of a listing -/

namespace Listing

/-- The line shows the instruction with its index, on the right of a field of this width, and
its offset in hexadecimal digits; these are its words. -/
def Shows (width index offset : Nat) (i : Instruction) (l : List Char) : Prop :=
  ∃ blanks hex, blanks + (Text.Decimal.digits index).length = width ∧
    Text.Hex.Denotes hex offset ∧
    l = List.replicate blanks ' ' ++ Text.Decimal.digits index ++
      ' ' :: '0' :: 'x' :: hex ++ ' ' :: ' ' :: i.render.toList ∧
    Text.words l = Text.Decimal.digits index :: ('0' :: 'x' :: hex) :: i.words

/-- The words of a line behind its first two, with one space between them. -/
def column (l : List Char) : List Char :=
  [' '].intercalate ((Text.words l).drop 2)

variable {width index offset : Nat} {i : Instruction} {code : List Instruction}

open Assembly in
/-- A line is its words, with spaces before and between them. -/
theorem exists_inline_line (width index offset : Nat) (i : Instruction) :
    ∃ sp text, line width index offset i = sp ++ text ∧ (∀ c ∈ sp, isSpace c) ∧
      Inline (Text.Decimal.digits index :: ('0' :: 'x' :: Text.Hex.padded 4 offset) :: i.words)
        text := by
  obtain ⟨-, ds, hd, -⟩ := Text.Hex.denotes_padded 4 offset
  have hinstruction : Inline i.words ([' '].intercalate i.words) :=
    inline_intercalate (List.cons_ne_nil _ _) isWord_of_mem_words
  have hone : ∀ c ∈ [' '], isSpace c := List.forall_mem_singleton.mpr isSpace_space
  have htwo : ∀ c ∈ [' ', ' '], isSpace c := List.forall_mem_cons.mpr ⟨isSpace_space, hone⟩
  refine ⟨List.replicate (width - (Text.Decimal.digits index).length) ' ', _, ?_, fun c hc => ?_,
    .more (isWord_digits index) (List.cons_ne_nil _ _) hone
      (.more (isWord_hex (.inl rfl) hd) (List.cons_ne_nil _ _) htwo hinstruction)⟩
  · simp [line, List.leftpad]
  · rw [(List.mem_replicate.mp hc).2]
    exact isSpace_space

theorem words_line (width index offset : Nat) (i : Instruction) :
    Text.words (line width index offset i) =
      Text.Decimal.digits index :: ('0' :: 'x' :: Text.Hex.padded 4 offset) :: i.words := by
  obtain ⟨sp, text, hline, hsp, ht⟩ := exists_inline_line width index offset i
  rw [hline, Assembly.words_space hsp, ht.words_eq]

theorem column_line (width index offset : Nat) (i : Instruction) :
    column (line width index offset i) = i.render.toList := by
  unfold column
  rw [words_line, Assembly.render_toList]
  rfl

theorem newline_notMem_line (width index offset : Nat) (i : Instruction) :
    '\n' ∉ line width index offset i := by
  obtain ⟨sp, text, hline, hsp, ht⟩ := exists_inline_line width index offset i
  rw [hline, List.mem_append]
  rintro (hmem | hmem)
  · exact (hsp _ hmem).2 rfl
  · exact ht.newline_notMem hmem

theorem shows_line (h : (Text.Decimal.digits index).length ≤ width) :
    Shows width index offset i (line width index offset i) := by
  refine ⟨_, _, Nat.sub_add_cancel h, Text.Hex.denotes_padded 4 offset, ?_, words_line _ _ _ _⟩
  rw [Assembly.render_toList]
  rfl

/-- Each instruction has its line, with the sizes of those before it added up. -/
theorem getElem?_linesFrom (width index offset : Nat) (code : List Instruction) (k : Nat) :
    (linesFrom width index offset code)[k]? = code[k]?.map
      (line width (index + k) (offset + ((code.take k).map Instruction.size).sum)) := by
  induction code generalizing index offset k with
  | nil => simp [linesFrom]
  | cons i code ih =>
    cases k with
    | zero => simp [linesFrom]
    | succ k =>
      rw [linesFrom, List.getElem?_cons_succ, List.getElem?_cons_succ, ih, List.take_succ_cons,
        List.map_cons, List.sum_cons, Nat.add_right_comm, Nat.add_assoc offset, Nat.add_assoc index]

theorem map_column_linesFrom (width index offset : Nat) (code : List Instruction) :
    (linesFrom width index offset code).map column = code.map (·.render.toList) := by
  induction code generalizing index offset with
  | nil => rfl
  | cons i code ih => rw [linesFrom, List.map_cons, List.map_cons, column_line, ih]

theorem mem_linesFrom {l : List Char} (h : l ∈ linesFrom width index offset code) :
    ∃ index offset i, l = line width index offset i := by
  induction code generalizing index offset with
  | nil => cases h
  | cons i code ih =>
    rcases List.mem_cons.mp h with rfl | h
    · exact ⟨_, _, i, rfl⟩
    · exact ih h

theorem lines_render (code : Code) : Text.lines (render code).toList = lines code := by
  unfold render
  rw [String.toList_ofList]
  refine Text.lines_flatMap fun l hl => ?_
  obtain ⟨index, offset, i, rfl⟩ := mem_linesFrom hl
  exact newline_notMem_line _ _ _ _

theorem length_digits_le {m n : Nat} (h : m ≤ n) :
    (Text.Decimal.digits m).length ≤ (Text.Decimal.digits n).length := by
  unfold Text.Decimal.digits
  rw [Nat.length_toDigits_le_iff (by decide) Nat.length_toDigits_pos]
  have hn := (Nat.length_toDigits_le_iff (by decide) Nat.length_toDigits_pos).mp
    (Nat.le_refl (Nat.toDigits 10 n).length)
  exact Nat.lt_of_le_of_lt h hn

/-! ### The round trip -/

/-- **A listing shows every instruction on a line of its own, and what it shows assembles to the
code again.** -/
theorem reassembles {source : String} {code : Code} (h : assemble source = .ok code) :
    let ls := Text.lines (render code).toList
    ls.length = code.size ∧
    (∃ width, ∀ k i, code[k]? = some i → ∃ l, ls[k]? = some l ∧
      Shows width k ((code.toList.take k).map Instruction.size).sum i l) ∧
    assemble (String.ofList (['\n'].intercalate (ls.map column))) = .ok code ∧
    assemble (String.ofList ([' '].intercalate (ls.map column))) = .ok code := by
  intro ls
  have hls : ls = lines code := lines_render code
  have hcolumn : ls.map column = code.toList.map (·.render.toList) := by
    rw [hls]
    exact map_column_linesFrom _ _ _ _
  refine ⟨?_, ⟨(Text.Decimal.digits (code.size - 1)).length, fun k i hk => ?_⟩, ?_, ?_⟩
  · have hlength := congrArg List.length hcolumn
    rw [List.length_map, List.length_map, Array.length_toList] at hlength
    exact hlength
  · have hlt : k < code.size := (Array.getElem?_eq_some_iff.mp hk).1
    refine ⟨_, ?_, shows_line (length_digits_le (Nat.le_sub_one_of_lt hlt))⟩
    rw [hls, lines, getElem?_linesFrom, Array.getElem?_toList, hk]
    simp
  · rw [hcolumn]
    exact Assembly.assemble_intercalate (by decide) h
  · rw [hcolumn]
    exact Assembly.assemble_intercalate (by decide) h

/-- A jump table, a payload and a call, with labels, a comment and letters of both cases. -/
def tableLoopText : String :=
  "loop: push1 0x3 ; three\n RJUMPV @loop 2 @end\nend: CALLF +1\n STOP"

open Instruction in
/-- What it assembles to. -/
def tableLoop : Code :=
  #[ofByte 0x60 (.payload [3]), ofByte 0xE2 (.table [0, 2, 2]), ofByte 0xE3 (.callee 1),
    ofByte 0x00]

theorem reassembles_tableLoop :
    let ls := Text.lines (render tableLoop).toList
    assemble tableLoopText = .ok tableLoop ∧ ls.length = 4 ∧
    (∃ width l, ls[3]? = some l ∧ Shows width 3 13 (.ofByte 0x00) l) ∧
    assemble (String.ofList (['\n'].intercalate (ls.map column))) = .ok tableLoop ∧
    assemble (String.ofList ([' '].intercalate (ls.map column))) = .ok tableLoop := by
  have h : assemble tableLoopText = .ok tableLoop := by decide +kernel
  obtain ⟨hlength, ⟨width, hshows⟩, hbreaks, hspaces⟩ := reassembles h
  exact ⟨h, hlength, ⟨width, hshows 3 (.ofByte 0x00) rfl⟩, hbreaks, hspaces⟩

end Listing

end EofVerifier
