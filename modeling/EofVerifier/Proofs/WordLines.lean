import EofVerifier.Assembly.Item
import Mathlib.Data.List.TakeWhile

/-! # Lines of words

All that the layout of assembler text comes to is its lines of words (`wordLines`).  Each
character has one effect on them: a line feed starts a new line, a blank on a line does nothing,
a comment hides the rest of its line, and a word stands before the other words of its line.
Every text is gone through by these steps (`wordLines_newline` and the lemmas after it). -/

namespace EofVerifier.Text

variable {p : Char → Bool} {c : Char} {cs w : List Char}

theorem pieces_ne_nil (p : Char → Bool) (cs : List Char) : pieces p cs ≠ [] := by
  cases cs with
  | nil => simp
  | cons c cs =>
    rw [pieces_cons]
    split
    · simp
    · cases pieces p cs <;> simp [consHead]

/-- Characters that do not cut the text stand before its first piece. -/
theorem pieces_append {first : List Char} {rest : List (List Char)}
    (hw : ∀ c ∈ w, p c = false) (h : pieces p cs = first :: rest) :
    pieces p (w ++ cs) = (w ++ first) :: rest := by
  induction w with
  | nil => exact h
  | cons c w ih =>
    obtain ⟨hc, hw⟩ := List.forall_mem_cons.mp hw
    rw [List.cons_append, pieces_cons, ih hw, hc]
    rfl

/-- Characters other than the cut stand before the first piece. -/
theorem pieces_append_of_notMem {cut : Char} {first : List Char} {rest : List (List Char)}
    (hw : cut ∉ w) (h : pieces (· = cut) cs = first :: rest) :
    pieces (· = cut) (w ++ cs) = (w ++ first) :: rest := by
  refine pieces_append (fun c hc => ?_) h
  rw [decide_eq_false_iff_not]
  rintro rfl
  exact hw hc

/-- A text without the cut is one piece. -/
theorem pieces_of_notMem {cut : Char} (hw : cut ∉ w) : pieces (· = cut) w = [w] := by
  have h := pieces_append_of_notMem hw (pieces_nil _)
  simpa using h

/-- A cut parts the pieces before it from the pieces behind it. -/
theorem pieces_cut (hc : p c = true) (front rest : List Char) :
    pieces p (front ++ c :: rest) = pieces p front ++ pieces p rest := by
  induction front with
  | nil => simp [pieces_cons, hc]
  | cons d front ih =>
    rw [List.cons_append, pieces_cons, pieces_cons, ih]
    split
    · rfl
    · obtain ⟨first, others, h⟩ := List.exists_cons_of_ne_nil (pieces_ne_nil p front)
      rw [h]
      rfl

/-- The first piece starts as the text does, if it is not empty. -/
theorem head?_of_pieces {first : List Char} {rest : List (List Char)}
    (h : pieces p cs = first :: rest) : ∀ c ∈ first.head?, c ∈ cs.head? := by
  cases cs with
  | nil =>
    cases h
    exact fun c hc => hc
  | cons c cs =>
    rw [pieces_cons] at h
    split at h
    · cases h
      exact fun d hd => by cases hd
    · obtain ⟨first', rest', hcs⟩ := List.exists_cons_of_ne_nil (pieces_ne_nil p cs)
      rw [hcs] at h
      cases h
      exact fun d hd => hd

theorem words_blank (hc : isBlank c = true) : words (c :: cs) = words cs := by
  unfold words
  rw [pieces_cons, if_pos hc, List.filter_cons_of_neg (by simp)]

/-- A run of characters that are not blank is a word when a blank or the end follows it. -/
theorem words_append (hne : w ≠ []) (hw : ∀ c ∈ w, isBlank c = false)
    (hcs : ∀ c ∈ cs.head?, isBlank c = true) : words (w ++ cs) = w :: words cs := by
  cases cs with
  | nil =>
    unfold words
    rw [pieces_append hw (pieces_nil isBlank), List.append_nil, List.filter_cons_of_pos (by simpa)]
    rfl
  | cons c cs =>
    have hc : isBlank c = true := hcs c rfl
    have hpieces : pieces isBlank (c :: cs) = [] :: pieces isBlank cs := by
      rw [pieces_cons, if_pos hc]
    rw [words_blank hc]
    unfold words
    rw [pieces_append hw hpieces, List.append_nil, List.filter_cons_of_pos (by simpa)]

end EofVerifier.Text

namespace EofVerifier.Assembly

/-- Starts a comment. -/
def marksComment (c : Char) : Bool := c = ';' ∨ c = '#'

/-- A character that words are made of. -/
def isWordChar (c : Char) : Bool := !Text.isBlank c && !marksComment c

/-- A run of characters without white space and comments. -/
def IsWord (w : Word) : Prop := w ≠ [] ∧ ∀ c ∈ w, isWordChar c = true

/-- The text does not go on with a word that ends before it. -/
def Apart (cs : List Char) : Prop := ∀ c ∈ cs.head?, isWordChar c = false

variable {c : Char} {cs : List Char} {w : Word}

theorem apart_nil : Apart [] := nofun

theorem isWordChar_eq_true_iff :
    isWordChar c = true ↔ Text.isBlank c = false ∧ marksComment c = false := by
  simp [isWordChar]

/-! ### One line -/

theorem lineWords_eq (line : List Char) :
    lineWords line = Text.words (line.takeWhile fun c => !marksComment c) := by
  unfold lineWords marksComment
  congr 2
  funext c
  simp

theorem marksComment_of_isBlank (hc : Text.isBlank c = true) : marksComment c = false := by
  by_contra h
  have hmark : c = ';' ∨ c = '#' := of_decide_eq_true (eq_true_of_ne_false h)
  rcases hmark with rfl | rfl <;> cases hc

theorem lineWords_blank (hc : Text.isBlank c = true) : lineWords (c :: cs) = lineWords cs := by
  have hmark := marksComment_of_isBlank hc
  rw [lineWords_eq, lineWords_eq, List.takeWhile_cons_of_pos (by simp [hmark]), Text.words_blank hc]

theorem lineWords_comment (hc : marksComment c = true) : lineWords (c :: cs) = [] := by
  rw [lineWords_eq, List.takeWhile_cons_of_neg (by simp [hc])]
  rfl

theorem lineWords_append (hw : IsWord w) (hcs : Apart cs) :
    lineWords (w ++ cs) = w :: lineWords cs := by
  have hchars : ∀ c ∈ w, Text.isBlank c = false ∧ marksComment c = false := fun c hc =>
    isWordChar_eq_true_iff.mp (hw.2 c hc)
  have hblank : ∀ c ∈ (cs.takeWhile fun c => !marksComment c).head?, Text.isBlank c = true := by
    cases cs with
    | nil => simp
    | cons c cs =>
      have hc : isWordChar c = false := hcs c rfl
      cases hmark : marksComment c with
      | true => simp [hmark]
      | false => simpa [hmark, isWordChar] using hc
  have hkept : ∀ c ∈ w, (!marksComment c) = true := fun c hc => by simp [(hchars c hc).2]
  rw [lineWords_eq, lineWords_eq, List.takeWhile_append_of_pos hkept]
  exact Text.words_append hw.1 (fun c hc => (hchars c hc).1) hblank

/-! ### All lines -/

/-- The words of each line. -/
def wordLines (cs : List Char) : List (List Word) :=
  (Text.pieces (· = '\n') cs).map lineWords

theorem wordLines_ne_nil (cs : List Char) : wordLines cs ≠ [] := by
  unfold wordLines
  simpa using Text.pieces_ne_nil _ cs

theorem wordLines_newline : wordLines ('\n' :: cs) = [] :: wordLines cs := by
  unfold wordLines
  rw [Text.pieces_cons, if_pos (by simp)]
  rfl

/-- A character other than a line feed belongs to the first line. -/
theorem wordLines_cons (hc : c ≠ '\n') (cs : List Char) :
    ∃ first rest, wordLines cs = lineWords first :: rest ∧
      wordLines (c :: cs) = lineWords (c :: first) :: rest := by
  unfold wordLines
  cases hp : Text.pieces (· = '\n') cs with
  | nil => exact absurd hp (Text.pieces_ne_nil _ cs)
  | cons first rest =>
    refine ⟨first, rest.map lineWords, rfl, ?_⟩
    rw [Text.pieces_cons, if_neg (by simpa using hc), hp]
    rfl

theorem wordLines_blank (hc : Text.isBlank c = true) (hne : c ≠ '\n') :
    wordLines (c :: cs) = wordLines cs := by
  obtain ⟨first, rest, hcs, hccs⟩ := wordLines_cons hne cs
  rw [hccs, hcs, lineWords_blank hc]

theorem ne_newline_of_marksComment (hc : marksComment c = true) : c ≠ '\n' := by
  rintro rfl
  cases hc

/-- A comment hides the rest of its line. -/
theorem wordLines_comment (hc : marksComment c = true) :
    wordLines (c :: cs) = [] :: (wordLines cs).tail := by
  obtain ⟨first, rest, hcs, hccs⟩ := wordLines_cons (ne_newline_of_marksComment hc) cs
  rw [hccs, hcs, lineWords_comment hc]
  rfl

/-- Without a line feed there is one line. -/
theorem tail_wordLines_of_notMem {body : List Char} (hb : '\n' ∉ body) :
    (wordLines body).tail = [] := by
  unfold wordLines
  rw [Text.pieces_of_notMem hb]
  rfl

/-- The first line feed ends the first line. -/
theorem tail_wordLines_append {body : List Char} (hb : '\n' ∉ body) :
    (wordLines (body ++ '\n' :: cs)).tail = wordLines cs := by
  unfold wordLines
  rw [Text.pieces_cut (by simp), Text.pieces_of_notMem hb]
  rfl

/-- A word stands before the other words of its line. -/
theorem wordLines_append {words : List Word} {rest : List (List Word)} (hw : IsWord w)
    (hcs : Apart cs) (h : wordLines cs = words :: rest) :
    wordLines (w ++ cs) = (w :: words) :: rest := by
  have hb : '\n' ∉ w := fun hmem => by cases hw.2 _ hmem
  unfold wordLines at h ⊢
  cases hp : Text.pieces (· = '\n') cs with
  | nil => exact absurd hp (Text.pieces_ne_nil _ cs)
  | cons first others =>
    rw [hp] at h
    cases h
    have hfirst : Apart first := fun c hc => hcs c (Text.head?_of_pieces hp c hc)
    rw [Text.pieces_append_of_notMem hb hp, List.map_cons, lineWords_append hw hfirst]

theorem exists_wordLines_append (hw : IsWord w) (hcs : Apart cs) : ∃ words rest,
    wordLines cs = words :: rest ∧ wordLines (w ++ cs) = (w :: words) :: rest := by
  obtain ⟨words, rest, h⟩ := List.exists_cons_of_ne_nil (wordLines_ne_nil cs)
  exact ⟨words, rest, h, wordLines_append hw hcs h⟩

end EofVerifier.Assembly
