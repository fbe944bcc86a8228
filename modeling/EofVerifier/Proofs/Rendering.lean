import EofVerifier.Proofs.Numerals
import EofVerifier.Proofs.WordLines

/-! # How assembler text is written

The grammar of assembler text, in two layers.  An item is written as a few words
(`Item.Spelled`): a label definition as its name and a colon, an instruction as its mnemonic, in
letters of either case, and its operand.  A text writes a list of items (`Rendering`) when
these words stand in it in order.  The words of one item are on one line, with white space
between them; between items, before the first and after the last there may be anything else that
has no meaning: white space, line breaks and comments (`Gap`, `Ending`).

Whatever the layout, it comes down to lines of words: a text writes a list of items exactly when
its lines of words do, none of which has to hold a certain number of items
(`rendering_iff_lines`). -/

namespace EofVerifier.Assembly

/-! ### Items as words -/

/-- The word writes the target: a reference to a label, or the digits of an index. -/
inductive Target.Spelled : Target → Word → Prop
  | label {name : Word} : name ≠ [] → Spelled (.label name) ('@' :: name)
  | index {i : UInt64} {digits : Word} :
    Text.Decimal.Denotes digits i.toNat → Spelled (.index i) digits

/-- The word is the mnemonic, in letters of either case. -/
def Names (w : Word) (opcode : Opcode) : Prop :=
  w.map Char.toUpper = opcode.mnemonic.toList

/-- The words write an operand of the given kind. -/
inductive Writes : Shape → Operand Target → List Word → Prop
  | none : Writes (.payload 0) .none []
  /-- At most two hexadecimal digits for each byte; the bytes denote the same number. -/
  | payload {size : Nat} {x : Char} {digits : Word} {bytes : List UInt8} :
    x = 'x' ∨ x = 'X' → digits.length ≤ 2 * size → bytes.length = size →
      Text.Hex.Denotes digits (Text.Hex.bytesValue bytes) →
      Writes (.payload size) (.payload bytes) ['0' :: x :: digits]
  | target {t : Target} {v : Word} : t.Spelled v → Writes .target (.target t) [v]
  /-- One or more targets. -/
  | table {ts : List Target} {vs : List Word} :
    ts ≠ [] → List.Forall₂ Target.Spelled ts vs → Writes .table (.table ts) vs
  /-- The number of a section, with or without a plus sign. -/
  | callee {index : UInt16} {v digits : Word} :
    v = digits ∨ v = '+' :: digits → Text.Decimal.Denotes digits index.toNat →
      Writes .callee (.callee index) [v]

/-- The words write the item. -/
inductive Item.Spelled : Item → List Word → Prop
  /-- A name that could not be taken for a reference, and a colon. -/
  | label {name : Word} :
    name ≠ [] → name.head? ≠ some '@' → Spelled (.label name) [name ++ [':']]
  | instruction {opcode : Opcode} {operand : Operand Target} {w : Word} {args : List Word} :
    Names w opcode → Writes opcode.shape operand args →
      Spelled (.instruction opcode operand) (w :: args)

/-! ### Layout -/

/-- White space that does not end the line. -/
def isSpace (c : Char) : Prop := Text.isBlank c = true ∧ c ≠ '\n'

/-- White space, line breaks, and comments that end with their lines. -/
inductive Gap : List Char → Prop
  | nil : Gap []
  | blank {c : Char} {cs : List Char} : Text.isBlank c = true → Gap cs → Gap (c :: cs)
  | comment {c : Char} {body cs : List Char} :
    marksComment c = true → '\n' ∉ body → Gap cs → Gap (c :: (body ++ '\n' :: cs))

/-- What may follow the last item: the last line may be a comment that nothing ends. -/
inductive Ending : List Char → Prop
  | gap {g : List Char} : Gap g → Ending g
  | comment {g body : List Char} {c : Char} :
    Gap g → marksComment c = true → '\n' ∉ body → Ending (g ++ c :: body)

/-- The text holds these words, one or more, on one line. -/
inductive Inline : List Word → List Char → Prop
  | last {w : Word} : IsWord w → Inline [w] w
  | more {w : Word} {ws : List Word} {sp cs : List Char} :
    IsWord w → sp ≠ [] → (∀ c ∈ sp, isSpace c) → Inline ws cs → Inline (w :: ws) (w ++ (sp ++ cs))

/-- The text writes these items. -/
inductive Rendering : List Item → List Char → Prop
  | done {cs : List Char} : Ending cs → Rendering [] cs
  /-- The rest of the text must not go on with the last word of the item. -/
  | item {item : Item} {items : List Item} {ws : List Word} {g cs rest : List Char} :
    Gap g → item.Spelled ws → Inline ws cs → Apart rest → Rendering items rest →
      Rendering (item :: items) (g ++ (cs ++ rest))

/-! ### Items on lines of words -/

/-- The words write the items, one after the other. -/
inductive Line : List Item → List Word → Prop
  | nil : Line [] []
  | cons {item : Item} {items : List Item} {ws rest : List Word} :
    item.Spelled ws → Line items rest → Line (item :: items) (ws ++ rest)

/-- The lines of words write the items, each some of them. -/
def Lines (items : List Item) (lines : List (List Word)) : Prop :=
  ∃ parts : List (List Item), parts.flatten = items ∧ List.Forall₂ Line parts lines

variable {item : Item} {items : List Item} {ws rest : List Word} {lines : List (List Word)}
  {cs : List Char}

theorem Item.Spelled.ne_nil (h : item.Spelled ws) : ws ≠ [] := by
  cases h <;> simp

theorem lines_one_empty : Lines [] [[]] := ⟨[[]], rfl, .cons .nil .nil⟩

theorem Lines.newline (h : Lines items lines) : Lines items ([] :: lines) := by
  obtain ⟨parts, rfl, hparts⟩ := h
  exact ⟨[] :: parts, rfl, .cons .nil hparts⟩

theorem Lines.cons (hi : item.Spelled ws) (h : Lines items (rest :: lines)) :
    Lines (item :: items) ((ws ++ rest) :: lines) := by
  obtain ⟨parts, rfl, hparts⟩ := h
  cases hparts with
  | @cons part _ parts _ hpart hparts =>
    exact ⟨(item :: part) :: parts, rfl, .cons (.cons hi hpart) hparts⟩

/-! ### From a text to its lines -/

/-- A gap only ends lines. -/
theorem Gap.lines_append {g : List Char} (hg : Gap g) (h : Lines items (wordLines cs)) :
    Lines items (wordLines (g ++ cs)) := by
  induction hg with
  | nil => exact h
  | @blank c g hc _ ih =>
    rw [List.cons_append]
    by_cases hn : c = '\n'
    · rw [hn, wordLines_newline]
      exact ih.newline
    · rw [wordLines_blank hc hn]
      exact ih
  | @comment c body g hc hbody _ ih =>
    rw [List.cons_append, List.append_assoc, List.cons_append, wordLines_comment hc,
      tail_wordLines_append hbody]
    exact ih.newline

theorem Ending.lines_nil (h : Ending cs) : Lines [] (wordLines cs) := by
  cases h with
  | gap hg =>
    rw [← List.append_nil cs]
    exact hg.lines_append lines_one_empty
  | comment hg hc hbody =>
    refine hg.lines_append ?_
    rw [wordLines_comment hc, tail_wordLines_of_notMem hbody]
    exact lines_one_empty

theorem apart_of_space {sp : List Char} (hne : sp ≠ []) (hsp : ∀ c ∈ sp, isSpace c)
    (cs : List Char) : Apart (sp ++ cs) := by
  obtain ⟨c, sp, rfl⟩ := List.exists_cons_of_ne_nil hne
  intro d hd
  cases hd
  simp [isWordChar, (hsp c List.mem_cons_self).1]

theorem wordLines_space {sp : List Char} (hsp : ∀ c ∈ sp, isSpace c) (cs : List Char) :
    wordLines (sp ++ cs) = wordLines cs := by
  induction sp with
  | nil => rfl
  | cons c sp ih =>
    obtain ⟨hc, hsp⟩ := List.forall_mem_cons.mp hsp
    rw [List.cons_append, wordLines_blank hc.1 hc.2, ih hsp]

/-- Words on one line stand before the other words of that line. -/
theorem Inline.wordLines_append {text : List Char} (ht : Inline ws text) (hcs : Apart cs)
    (h : wordLines cs = rest :: lines) : wordLines (text ++ cs) = (ws ++ rest) :: lines := by
  induction ht with
  | last hw => exact Assembly.wordLines_append hw hcs h
  | @more w ws sp text hw hne hsp _ ih =>
    rw [List.append_assoc, List.append_assoc, List.cons_append]
    refine Assembly.wordLines_append hw (apart_of_space hne hsp _) ?_
    rw [wordLines_space hsp]
    exact ih

theorem Rendering.toLines (h : Rendering items cs) : Lines items (wordLines cs) := by
  induction h with
  | done hend => exact hend.lines_nil
  | @item item items ws g text cs hg hi ht hcs _ ih =>
    refine hg.lines_append ?_
    obtain ⟨rest, others, hlines⟩ := List.exists_cons_of_ne_nil (wordLines_ne_nil cs)
    rw [ht.wordLines_append hcs hlines]
    rw [hlines] at ih
    exact ih.cons hi

/-! ### From lines to a text -/

/-- What a text can start with, behind its first spaces. -/
inductive Start : List Char → Prop
  | done : Start []
  | newline (cs : List Char) : Start ('\n' :: cs)
  | comment {c : Char} (cs : List Char) : marksComment c = true → Start (c :: cs)
  | word {w : Word} {cs : List Char} : IsWord w → Apart cs → Start (w ++ cs)

/-- A character that words are made of starts a word that goes as far as it can. -/
theorem start_word {c : Char} (hc : isWordChar c = true) (cs : List Char) : Start (c :: cs) := by
  have hsplit : c :: cs = (c :: cs.takeWhile isWordChar) ++ cs.dropWhile isWordChar := by
    rw [List.cons_append, List.takeWhile_append_dropWhile]
  rw [hsplit]
  refine .word ⟨List.cons_ne_nil _ _, ?_⟩ ?_
  · rw [List.forall_mem_cons]
    exact ⟨hc, fun d hd => List.mem_takeWhile_imp hd⟩
  · intro d hd
    have hnot := List.head?_dropWhile_not isWordChar cs
    rw [Option.mem_def.mp hd] at hnot
    exact hnot

theorem exists_start (cs : List Char) :
    ∃ sp rest, cs = sp ++ rest ∧ (∀ c ∈ sp, isSpace c) ∧ Start rest := by
  induction cs with
  | nil => exact ⟨[], [], rfl, by simp, .done⟩
  | cons c cs ih =>
    by_cases hn : c = '\n'
    · exact ⟨[], c :: cs, rfl, by simp, hn ▸ .newline cs⟩
    · cases hb : Text.isBlank c with
      | true =>
        obtain ⟨sp, rest, rfl, hsp, hstart⟩ := ih
        exact ⟨c :: sp, rest, rfl, List.forall_mem_cons.mpr ⟨⟨hb, hn⟩, hsp⟩, hstart⟩
      | false =>
        refine ⟨[], c :: cs, rfl, by simp, ?_⟩
        cases hm : marksComment c with
        | true => exact .comment cs hm
        | false => exact start_word (isWordChar_eq_true_iff.mpr ⟨hb, hm⟩) cs

/-- The first word of a text is behind spaces only. -/
theorem split_word {w : Word} (h : wordLines cs = (w :: ws) :: lines) :
    ∃ sp rest, cs = sp ++ (w ++ rest) ∧ (∀ c ∈ sp, isSpace c) ∧ IsWord w ∧ Apart rest ∧
      wordLines rest = ws :: lines := by
  obtain ⟨sp, rest, rfl, hsp, hstart⟩ := exists_start cs
  rw [wordLines_space hsp] at h
  cases hstart with
  | done => cases h
  | newline rest => rw [wordLines_newline] at h; cases h
  | comment rest hc => rw [wordLines_comment hc] at h; cases h
  | @word w' rest hw hrest =>
    obtain ⟨ws', lines', hlines, happ⟩ := exists_wordLines_append hw hrest
    rw [happ] at h
    cases h
    exact ⟨sp, rest, rfl, hsp, hw, hrest, hlines⟩

theorem Inline.not_apart {text : List Char} (ht : Inline ws text) : ¬ Apart (text ++ cs) := by
  have hword {w : Word} (hw : IsWord w) (cs : List Char) : ¬ Apart (w ++ cs) := by
    intro h
    obtain ⟨c, w, rfl⟩ := List.exists_cons_of_ne_nil hw.1
    have hc := hw.2 c List.mem_cons_self
    rw [h c rfl] at hc
    cases hc
  cases ht with
  | last hw => exact hword hw _
  | more hw =>
    rw [List.append_assoc]
    exact hword hw _

/-- The first words of a text are behind spaces only, and have spaces between them. -/
theorem split_words {more : List Word} (hne : ws ≠ []) (h : wordLines cs = (ws ++ more) :: lines) :
    ∃ sp text rest, cs = sp ++ (text ++ rest) ∧ (∀ c ∈ sp, isSpace c) ∧ Inline ws text ∧
      Apart rest ∧ wordLines rest = more :: lines := by
  induction ws generalizing cs with
  | nil => exact absurd rfl hne
  | cons w ws ih =>
    obtain ⟨sp, cs, rfl, hsp, hw, hcs, hlines⟩ := split_word h
    cases ws with
    | nil => exact ⟨sp, w, cs, rfl, hsp, .last hw, hcs, hlines⟩
    | cons w' ws =>
      obtain ⟨sp', text, rest, rfl, hsp', ht, hrest, hlines⟩ := ih (List.cons_ne_nil _ _) hlines
      have hne : sp' ≠ [] := by
        rintro rfl
        exact ht.not_apart hcs
      refine ⟨sp, w ++ (sp' ++ text), rest, ?_, hsp, .more hw hne hsp' ht, hrest, hlines⟩
      simp only [List.append_assoc]

theorem Gap.append {g g' : List Char} (hg : Gap g) (hg' : Gap g') : Gap (g ++ g') := by
  induction hg with
  | nil => exact hg'
  | blank hc _ ih => exact .blank hc ih
  | comment hc hb _ ih =>
    rw [List.cons_append, List.append_assoc, List.cons_append]
    exact .comment hc hb ih

theorem gap_of_space {sp : List Char} (hsp : ∀ c ∈ sp, isSpace c) : Gap sp := by
  induction sp with
  | nil => exact .nil
  | cons c sp ih =>
    obtain ⟨hc, hsp⟩ := List.forall_mem_cons.mp hsp
    exact .blank hc.1 (ih hsp)

/-- A comment is all that can keep words off a line, and it ends with the line. -/
theorem split_line (h : wordLines cs = [] :: lines) (hne : lines ≠ []) :
    ∃ g rest, cs = g ++ rest ∧ Gap g ∧ wordLines rest = lines := by
  obtain ⟨sp, rest, rfl, hsp, hstart⟩ := exists_start cs
  rw [wordLines_space hsp] at h
  cases hstart with
  | done =>
    cases h
    exact absurd rfl hne
  | newline rest =>
    rw [wordLines_newline] at h
    cases h
    refine ⟨sp ++ ['\n'], rest, by simp, (gap_of_space hsp).append ?_, rfl⟩
    exact .blank (by decide) .nil
  | @comment c rest hc =>
    rw [wordLines_comment hc] at h
    by_cases hn : '\n' ∈ rest
    · obtain ⟨body, rest, rfl, hb⟩ := List.eq_append_cons_of_mem hn
      rw [tail_wordLines_append hb] at h
      cases h
      refine ⟨sp ++ c :: (body ++ ['\n']), rest, by simp, (gap_of_space hsp).append ?_, rfl⟩
      exact .comment hc hb .nil
    · rw [tail_wordLines_of_notMem hn] at h
      cases h
      exact absurd rfl hne
  | @word w rest hw hrest =>
    obtain ⟨ws', lines', -, happ⟩ := exists_wordLines_append hw hrest
    rw [happ] at h
    cases h

theorem Ending.gap_append {g : List Char} (hg : Gap g) (h : Ending cs) : Ending (g ++ cs) := by
  cases h with
  | gap hcs => exact .gap (hg.append hcs)
  | comment hcs hc hb =>
    rw [← List.append_assoc]
    exact .comment (hg.append hcs) hc hb

/-- A text without words, and without a second line that could have some. -/
theorem ending_of_wordLines (h : wordLines cs = [[]]) : Ending cs := by
  obtain ⟨sp, rest, rfl, hsp, hstart⟩ := exists_start cs
  rw [wordLines_space hsp] at h
  refine Ending.gap_append (gap_of_space hsp) ?_
  cases hstart with
  | done => exact .gap .nil
  | newline rest =>
    rw [wordLines_newline] at h
    exact absurd (List.cons.inj h).2 (wordLines_ne_nil rest)
  | @comment c rest hc =>
    refine .comment .nil hc fun hn => ?_
    obtain ⟨body, rest, rfl, hb⟩ := List.eq_append_cons_of_mem hn
    rw [wordLines_comment hc, tail_wordLines_append hb] at h
    exact absurd (List.cons.inj h).2 (wordLines_ne_nil rest)
  | @word w rest hw hrest =>
    obtain ⟨ws', lines', -, happ⟩ := exists_wordLines_append hw hrest
    rw [happ] at h
    cases h

theorem Rendering.gap_append {g : List Char} (hg : Gap g) (h : Rendering items cs) :
    Rendering items (g ++ cs) := by
  cases h with
  | done h => exact .done (h.gap_append hg)
  | item hg' hi ht hrest h =>
    rw [← List.append_assoc]
    exact .item (hg.append hg') hi ht hrest h

/-- One line after the other: `later` are the items of the lines that follow. -/
theorem Line.rendering {later : List Item} (h : Line items ws) (hlast : lines = [] → later = [])
    (hlater : ∀ cs, wordLines cs = lines → Rendering later cs) (hcs : wordLines cs = ws :: lines) :
    Rendering (items ++ later) cs := by
  induction h generalizing cs with
  | nil =>
    by_cases hne : lines = []
    · rw [hlast hne]
      rw [hne] at hcs
      exact .done (ending_of_wordLines hcs)
    · obtain ⟨g, rest, rfl, hg, hrest⟩ := split_line hcs hne
      exact (hlater rest hrest).gap_append hg
  | cons hi _ ih =>
    obtain ⟨sp, text, rest, rfl, hsp, ht, hapart, hrest⟩ := split_words hi.ne_nil hcs
    exact .item (gap_of_space hsp) hi ht hapart (ih hrest)

theorem rendering_of_forall₂ {parts : List (List Item)} (h : List.Forall₂ Line parts lines)
    (hcs : wordLines cs = lines) : Rendering parts.flatten cs := by
  induction h generalizing cs with
  | nil => exact absurd hcs (wordLines_ne_nil cs)
  | cons hline hrest ih =>
    refine hline.rendering ?_ (fun cs hcs => ih hcs) hcs
    rintro rfl
    cases hrest
    rfl

/-- **The layout of a text comes to its lines of words.** -/
theorem rendering_iff_lines : Rendering items cs ↔ Lines items (wordLines cs) := by
  constructor
  · exact Rendering.toLines
  · rintro ⟨parts, rfl, hparts⟩
    exact rendering_of_forall₂ hparts rfl

end EofVerifier.Assembly
