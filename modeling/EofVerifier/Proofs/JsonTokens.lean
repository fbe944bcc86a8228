import EofVerifier.Proofs.JsonLexemes
import Mathlib.Data.List.Chain

/-! # Tokens of JSON text

`Token.Spaced` says that a text is made of the lexemes of tokens with spaces between them.  A word
or a number is read as far as its characters go, so the tokens of a text are found if none of them
can run into the next (`Token.Separated`), and nothing else is found
(`Token.ofText?_eq_some_iff`). -/

namespace EofVerifier.Json.Token

variable {cs rest lexeme : List Char} {before ts : List Token} {t t' : Token} {c : Char}

/-- The characters write this token. -/
def Writes (cs : List Char) : Token → Prop
  | number n => Numeral.Writes cs n
  | string text => Literal.Writes cs text
  | t => cs = t.lexeme

/-- A word or a number, whose end is not seen from its own characters. -/
def IsOpen : Token → Prop
  | null | bool _ | number _ => True
  | _ => False

/-- What cannot be taken for more of a word or a number. -/
def Ends (cs : List Char) : Prop :=
  ∀ c ∈ cs.head?, isNumberChar c = false ∧ c.isLower = false

/-- A token that is a single character. -/
def IsPunctuation : Token → Prop
  | openObject | closeObject | openArray | closeArray | colon | comma => True
  | _ => False

theorem writes_of_ofPunctuation? (h : ofPunctuation? c = some t) : Writes [c] t := by
  unfold ofPunctuation? at h
  split at h <;> cases h <;> rfl

/-- What starts a number starts nothing else. -/
theorem ofPunctuation?_eq_none (h : c = '-' ∨ c.isDigit = true) : ofPunctuation? c = none ∧ c ≠ '"' := by
  obtain rfl | h := h
  · decide
  · constructor
    · unfold ofPunctuation?
      split <;> first | rfl | exact absurd h (by decide)
    · rintro rfl
      exact absurd h (by decide)

theorem ofWord?_eq_some_iff :
    ofWord? cs = some t ↔ (t = .null ∨ ∃ b, t = .bool b) ∧ cs = t.lexeme := by
  constructor
  · intro h
    unfold ofWord? at h
    split at h
    · cases h
      exact ⟨.inl rfl, ‹_›⟩
    · split at h
      · cases h
        exact ⟨.inr ⟨true, rfl⟩, ‹_›⟩
      · split at h
        · cases h
          exact ⟨.inr ⟨false, rfl⟩, ‹_›⟩
        · cases h
  · rintro ⟨rfl | ⟨b, rfl⟩, rfl⟩
    · rfl
    · cases b <;> rfl

/-- A word is in lower case, and what starts it starts nothing else. -/
theorem isLower_of_ofWord? (h : ofWord? (c :: cs) = some t) : (∀ x ∈ cs, x.isLower = true) ∧
    ofPunctuation? c = none ∧ c ≠ '"' ∧ ¬ (c = '-' ∨ c.isDigit = true) := by
  obtain ⟨rfl | ⟨_ | _, rfl⟩, hword⟩ := ofWord?_eq_some_iff.mp h <;> cases hword <;>
  exact ⟨List.all_eq_true.mp rfl, rfl, by decide, by decide⟩

theorem read?_word_append (h : ofWord? (c :: cs) = some t) (hrest : Ends rest) :
    read? c (cs ++ rest) = some (t, rest) := by
  obtain ⟨hlower, hpunctuation, hquote, hnumber⟩ := isLower_of_ofWord? h
  have hend : ∀ c ∈ rest.head?, c.isLower = false := fun c hc => (hrest c hc).2
  simp only [read?, hpunctuation]
  rw [if_neg hquote, if_neg hnumber, takeWhile_append_stop hlower hend,
    dropWhile_append_stop hlower hend, h]
  rfl

/-- A token is read to its end, where this can be seen. -/
theorem read?_append (h : Writes (c :: cs) t) (hrest : t.IsOpen → Ends rest) :
    read? c (cs ++ rest) = some (t, rest) := by
  cases t with
  | openObject | closeObject | openArray | closeArray | colon | comma =>
    cases h
    rfl
  | null =>
    exact read?_word_append (ofWord?_eq_some_iff.mpr ⟨.inl rfl, h⟩) (hrest trivial)
  | bool b =>
    exact read?_word_append (ofWord?_eq_some_iff.mpr ⟨.inr ⟨b, rfl⟩, h⟩) (hrest trivial)
  | number n =>
    have hn : Numeral.Writes (c :: cs) n := h
    obtain ⟨_, _, hhead, hc⟩ := hn.head?
    cases hhead
    obtain ⟨hpunctuation, hquote⟩ := ofPunctuation?_eq_none hc
    have hchars := (List.forall_mem_cons.mp hn.isNumberChar).2
    have hend : ∀ c ∈ rest.head?, isNumberChar c = false := fun c hc => (hrest trivial c hc).1
    simp only [read?, hpunctuation]
    rw [if_neg hquote, if_pos hc, takeWhile_append_stop hchars hend,
      dropWhile_append_stop hchars hend, Numeral.ofLexeme?_eq_some_iff.mpr hn]
    rfl
  | string text =>
    obtain ⟨rfl, hread⟩ : c = '"' ∧ Literal.read? (cs ++ rest) = some (text, rest) :=
      Literal.read?_eq_some_iff.mpr ⟨c :: cs, List.cons_append, h⟩
    have hpunctuation : ofPunctuation? '"' = none := rfl
    simp only [read?, hpunctuation, ↓reduceIte, hread]
    rfl

/-- What is read writes the token. -/
theorem writes_of_read? (h : read? c cs = some (t, rest)) :
    ∃ l, cs = l ++ rest ∧ Writes (c :: l) t := by
  unfold read? at h
  split at h
  · rename_i t' hpunctuation
    cases h
    exact ⟨[], rfl, writes_of_ofPunctuation? hpunctuation⟩
  · split at h
    · rename_i hquote
      simp only [Option.map_eq_some_iff, Prod.exists, Prod.mk.injEq] at h
      obtain ⟨text, _, hread, rfl, rfl⟩ := h
      obtain ⟨_, hcs, body, units, rfl, htext⟩ := Literal.read?_eq_some_iff.mp ⟨hquote, hread⟩
      cases hcs
      exact ⟨_, rfl, body, units, rfl, htext⟩
    · split at h
      · simp only [Option.map_eq_some_iff, Prod.mk.injEq] at h
        obtain ⟨n, hread, rfl, rfl⟩ := h
        exact ⟨_, List.takeWhile_append_dropWhile.symm, Numeral.ofLexeme?_eq_some_iff.mp hread⟩
      · simp only [Option.map_eq_some_iff, Prod.mk.injEq] at h
        obtain ⟨t, hword, rfl, rfl⟩ := h
        obtain ⟨rfl | ⟨b, rfl⟩, hlexeme⟩ := ofWord?_eq_some_iff.mp hword <;>
        exact ⟨_, List.takeWhile_append_dropWhile.symm, hlexeme⟩

/-- Tokens with their lexemes in a text, and spaces between them. -/
inductive Spaced : List Char → List Token → Prop
  | nil : Spaced [] []
  | space {c : Char} {cs : List Char} {ts : List Token} :
    isSpace c = true → Spaced cs ts → Spaced (c :: cs) ts
  | token {lexeme cs : List Char} {t : Token} {ts : List Token} :
    Writes lexeme t → Spaced cs ts → Spaced (lexeme ++ cs) (t :: ts)

/-- No two words or numbers stand side by side, nor one of them in front of a string. -/
abbrev Separated (ts : List Token) : Prop :=
  ts.IsChain fun t t' => t.IsOpen → t'.IsPunctuation

theorem Writes.ends (h : Writes cs t) (ht : t.IsPunctuation) (rest : List Char) :
    Ends (cs ++ rest) := by
  cases t with
  | openObject | closeObject | openArray | closeArray | colon | comma =>
    cases h
    intro c hc
    cases hc
    decide
  | null | bool | number | string => cases ht

theorem isSpace_iff : isSpace c = true ↔ c = ' ' ∨ c = '\t' ∨ c = '\n' ∨ c = '\r' :=
  decide_eq_true_iff

theorem ends_of_isSpace (h : isSpace c = true) : Ends (c :: cs) := by
  rintro _ ⟨⟩
  obtain rfl | rfl | rfl | rfl := isSpace_iff.mp h <;> decide

theorem Spaced.ends (h : Spaced cs ts) (hts : ∀ t ∈ ts.head?, t.IsPunctuation) : Ends cs := by
  cases h with
  | nil => simp [Ends]
  | space hc _ => exact ends_of_isSpace hc
  | token ht _ => exact ht.ends (hts _ rfl) _

/-- A lexeme starts with a character that is no space. -/
theorem Writes.head? (h : Writes cs t) : ∃ c l, cs = c :: l ∧ isSpace c = false := by
  cases t with
  | openObject | closeObject | openArray | closeArray | colon | comma | null =>
    cases h
    exact ⟨_, _, rfl, by decide⟩
  | bool b =>
    cases b <;> cases h <;> exact ⟨_, _, rfl, by decide⟩
  | number n =>
    obtain ⟨c, l, rfl, hc⟩ := Numeral.Writes.head? h
    refine ⟨c, l, rfl, Bool.eq_false_iff.mpr fun hspace => ?_⟩
    obtain rfl | rfl | rfl | rfl := isSpace_iff.mp hspace <;> revert hc <;> decide
  | string text =>
    obtain ⟨body, _, rfl, -⟩ := h
    exact ⟨_, _, rfl, by decide⟩

/-- **Tokens are found in every text that spells them out**, with any spaces between them. -/
theorem Spaced.readAll (h : Spaced cs ts) (hts : Separated ts) (before : List Token) :
    readAll before cs = some (before.reverse ++ ts) := by
  induction h generalizing before with
  | nil => simp [Token.readAll]
  | space hc _ ih =>
    rw [Token.readAll, if_pos hc]
    exact ih hts before
  | @token lexeme cs t ts ht h ih =>
    obtain ⟨c, l, rfl, hc⟩ := ht.head?
    have hends : t.IsOpen → Ends cs := fun hopen => h.ends fun t' ht' => hts.rel_head? ht' hopen
    rw [List.cons_append, Token.readAll, if_neg (by simp [hc])]
    split
    · rename_i _ _ hread
      rw [read?_append ht hends] at hread
      cases hread
      rw [ih hts.tail]
      simp
    · rename_i hread
      rw [read?_append ht hends] at hread
      cases hread

theorem exists_spaced (h : Token.readAll before cs = some ts) :
    ∃ ts', ts = before.reverse ++ ts' ∧ Spaced cs ts' := by
  fun_induction Token.readAll before cs with
  | case1 before =>
    cases h
    exact ⟨[], (List.append_nil _).symm, .nil⟩
  | case2 before c cs hc ih =>
    obtain ⟨ts', rfl, hspaced⟩ := ih h
    exact ⟨ts', rfl, .space hc hspaced⟩
  | case3 before c cs hc t rest hread ih =>
    obtain ⟨ts', rfl, hspaced⟩ := ih h
    obtain ⟨l, rfl, ht⟩ := writes_of_read? hread
    exact ⟨t :: ts', by simp, hspaced.token ht⟩
  | case4 => cases h

theorem ofText?_eq_some_iff {text : String} (hts : Separated ts) :
    ofText? text = some ts ↔ Spaced text.toList ts := by
  constructor
  · intro h
    obtain ⟨_, rfl, hspaced⟩ := exists_spaced h
    exact hspaced
  · intro h
    exact h.readAll hts []

/-- Tokens one after another, without any space. -/
theorem spaced_flatMap_lexeme (h : ∀ t ∈ ts, Writes t.lexeme t) : Spaced (ts.flatMap Token.lexeme) ts := by
  induction ts with
  | nil => exact .nil
  | cons t ts ih =>
    obtain ⟨ht, hts⟩ := List.forall_mem_cons.mp h
    exact .token ht (ih hts)

end EofVerifier.Json.Token
