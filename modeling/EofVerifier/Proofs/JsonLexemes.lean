import EofVerifier.Json.Token
import EofVerifier.Proofs.Numerals
import Mathlib.Data.List.TakeWhile

/-! # Strings and numbers in JSON text

A string literal is described by the units between its quotes and the text that these denote
(`Literal.Writes`), a number by its sign, digits, fraction and exponent (`Numeral.Writes`).  The
readers accept exactly these characters (`Literal.read?_eq_some_iff`,
`Numeral.ofLexeme?_eq_some_iff`), and what is written for a text or a natural number is among them
(`Literal.writes_lexeme`, `Numeral.writes_ofNat`). -/

namespace EofVerifier.Json

/-! ### Runs of characters -/

section Runs

variable {p : Char → Bool} {cs rest : List Char}

/-- A run ends where the next character does not belong to it. -/
theorem takeWhile_append_stop (hcs : ∀ c ∈ cs, p c = true) (hrest : ∀ c ∈ rest.head?, p c = false) :
    (cs ++ rest).takeWhile p = cs := by
  rw [List.takeWhile_append_of_pos hcs]
  cases rest with
  | nil => simp
  | cons c l => simp [hrest c rfl]

theorem dropWhile_append_stop (hcs : ∀ c ∈ cs, p c = true) (hrest : ∀ c ∈ rest.head?, p c = false) :
    (cs ++ rest).dropWhile p = rest := by
  rw [List.dropWhile_append_of_pos hcs]
  cases rest with
  | nil => simp
  | cons c l => simp [hrest c rfl]

end Runs

/-! ### String literals -/

namespace Literal

variable {cs rest body text text' : List Char} {us us' before units : List Nat}

/-- The characters between the quotes of a literal, and the units that they stand for: any character
but a quote, a backslash and the control characters, or an escape. -/
inductive Body : List Char → List Nat → Prop
  | nil : Body [] []
  | plain {c : Char} {cs : List Char} {us : List Nat} :
    0x20 ≤ c.toNat → c ≠ '"' → c ≠ '\\' → Body cs us → Body (c :: cs) (c.toNat :: us)
  | short {e c : Char} {cs : List Char} {us : List Nat} :
    shortEscape? e = some c → Body cs us → Body ('\\' :: e :: cs) (c.toNat :: us)
  | unit {a b c d : Char} {u : Nat} {cs : List Char} {us : List Nat} :
    hex4? a b c d = some u → Body cs us → Body ('\\' :: 'u' :: a :: b :: c :: d :: cs) (u :: us)

/-- The text that units denote, if each surrogate among them has its partner. -/
inductive Denotes : List Nat → List Char → Prop
  | nil : Denotes [] []
  | unit {u : Nat} {us : List Nat} {cs : List Char} :
    isLowSurrogate u = false → isHighSurrogate u = false → Denotes us cs →
    Denotes (u :: us) (Char.ofNat u :: cs)
  | pair {high low : Nat} {us : List Nat} {cs : List Char} :
    isHighSurrogate high = true → isLowSurrogate low = true → Denotes us cs →
    Denotes (high :: low :: us) (Char.ofNat (pairValue high low) :: cs)

/-- The characters are a literal; it denotes this text, or none. -/
def Writes (cs : List Char) (text : Option String) : Prop :=
  ∃ body units, cs = '"' :: (body ++ ['"']) ∧ Body body units ∧
    ∀ t : String, text = some t ↔ Denotes units t.toList

theorem readUnits_append (h : Body body us) (before : List Nat) (rest : List Char) :
    readUnits before (body ++ '"' :: rest) = some (us.reverse ++ before, rest) := by
  induction h generalizing before with
  | nil => rfl
  | @plain c cs us hc hquote hslash _ ih =>
    rw [List.cons_append, readUnits]
    · rw [if_neg (Nat.not_lt.mpr hc), ih]
      simp
    · exact hquote
    · rintro a b d e l rfl
      exact absurd rfl hslash
    · rintro e l rfl
      exact absurd rfl hslash
  | @short e c cs us he _ ih =>
    rw [List.cons_append, List.cons_append, readUnits]
    · rw [he]
      simp only [ih]
      simp
    · rintro a b c d l rfl
      cases he
  | @unit a b c d u cs us hu _ ih =>
    simp only [List.cons_append, readUnits, hu, ih]
    simp

/-- What is read up to the closing quote is a body. -/
theorem exists_body (h : readUnits before cs = some (units, rest)) :
    ∃ body us, cs = body ++ '"' :: rest ∧ Body body us ∧ units = us.reverse ++ before := by
  fun_induction readUnits before cs with
  | case1 => cases h
  | case2 before l =>
    cases h
    exact ⟨[], [], rfl, .nil, rfl⟩
  | case3 before a b c d l u hu ih =>
    obtain ⟨body, us, rfl, hbody, rfl⟩ := ih h
    exact ⟨_, u :: us, rfl, .unit hu hbody, by simp⟩
  | case4 => cases h
  | case5 before e l hno c hc ih =>
    obtain ⟨body, us, rfl, hbody, rfl⟩ := ih h
    exact ⟨_, c.toNat :: us, rfl, .short hc hbody, by simp⟩
  | case6 => cases h
  | case7 => cases h
  | case8 before c l hquote hunit hshort hc ih =>
    obtain ⟨body, us, rfl, hbody, rfl⟩ := ih h
    have hslash : c ≠ '\\' := by
      rintro rfl
      cases body with
      | nil => exact hshort '"' rest rfl rfl
      | cons e body => exact hshort e _ rfl rfl
    exact ⟨_, c.toNat :: us, rfl, .plain (Nat.le_of_not_lt hc) hquote hslash hbody, by simp⟩

/-- Units are joined from the last to the first. -/
theorem Denotes.joinUnits_append (h : Denotes us text) (after : List Char) (before : List Nat) :
    joinUnits after (us.reverse ++ before) = joinUnits (text ++ after) before := by
  induction h generalizing before with
  | nil => rfl
  | unit hlow hhigh _ ih =>
    rw [List.reverse_cons, List.append_assoc, List.singleton_append, ih, joinUnits.eq_def]
    simp only [hlow, hhigh]
    rfl
  | pair hhigh hlow _ ih =>
    rw [List.reverse_cons, List.reverse_cons, List.append_assoc, List.append_assoc,
      List.singleton_append, List.singleton_append, ih]
    simp only [joinUnits, hlow, hhigh]
    rfl

theorem Denotes.append (h : Denotes us text) (h' : Denotes us' text') :
    Denotes (us ++ us') (text ++ text') := by
  induction h with
  | nil => exact h'
  | unit hlow hhigh _ ih => exact .unit hlow hhigh ih
  | pair hhigh hlow _ ih => exact .pair hhigh hlow ih

/-- What is joined is denoted, before what comes after it. -/
theorem exists_denotes {after : List Char} (h : joinUnits after units = some text) :
    ∃ t, Denotes units.reverse t ∧ text = t ++ after := by
  fun_induction joinUnits after units with
  | case1 after =>
    cases h
    exact ⟨[], .nil, rfl⟩
  | case2 after low hlow high units hhigh ih =>
    obtain ⟨t, ht, rfl⟩ := ih h
    refine ⟨t ++ [Char.ofNat (pairValue high low)], ?_, by simp⟩
    simpa using ht.append (.pair hhigh hlow .nil)
  | case3 => cases h
  | case4 => cases h
  | case5 => cases h
  | case6 after low units hlow hhigh ih =>
    obtain ⟨t, ht, rfl⟩ := ih h
    refine ⟨t ++ [Char.ofNat low], ?_, by simp⟩
    simpa using ht.append (.unit (by simpa using hlow) (by simpa using hhigh) .nil)

theorem joinUnits_eq_some_iff : joinUnits [] us.reverse = some text ↔ Denotes us text := by
  constructor
  · intro h
    obtain ⟨t, ht, rfl⟩ := exists_denotes h
    simpa using ht
  · intro h
    simpa [joinUnits] using h.joinUnits_append [] []

/-- A literal is read to its end, whatever follows. -/
theorem read?_eq_some_iff {c : Char} {text : Option String} :
    c = '"' ∧ read? cs = some (text, rest) ↔ ∃ lexeme, c :: cs = lexeme ++ rest ∧ Writes lexeme text := by
  have hjoin (us : List Nat) : (joinUnits [] us.reverse).map String.ofList = text ↔
      ∀ t : String, text = some t ↔ Denotes us t.toList := by
    have hmap (t : String) : (joinUnits [] us.reverse).map String.ofList = some t ↔
        Denotes us t.toList := by
      rw [← joinUnits_eq_some_iff, Option.map_eq_some_iff]
      refine ⟨fun ⟨l, hl, ht⟩ => ?_, fun h => ⟨_, h, String.ofList_toList⟩⟩
      rw [hl, ← ht, String.toList_ofList]
    rw [Option.ext_iff]
    simp only [hmap, eq_comm (a := text), iff_comm]
  unfold read?
  simp only [Option.map_eq_some_iff, Prod.mk.injEq, Prod.exists]
  constructor
  · rintro ⟨rfl, units, _, h, htext, rfl⟩
    obtain ⟨body, us, rfl, hbody, rfl⟩ := exists_body h
    rw [List.append_nil] at htext
    exact ⟨_, by simp, body, us, rfl, hbody, (hjoin us).mp htext⟩
  · rintro ⟨_, hcs, body, us, rfl, hbody, htext⟩
    rw [List.cons_append, List.append_assoc] at hcs
    cases hcs
    refine ⟨rfl, _, _, readUnits_append hbody _ _, ?_, rfl⟩
    rw [List.append_nil]
    exact (hjoin us).mpr htext

theorem body_escape (c : Char) (h : Body cs us) : Body (escape c ++ cs) (c.toNat :: us) := by
  have hcontrol : ∀ n : Fin 32, ∃ a b c d,
      Text.Hex.padded 4 n = [a, b, c, d] ∧ hex4? a b c d = some n.val := by
    intro n
    refine ⟨'0', '0', Nat.digitChar (n / 16), Nat.digitChar (n % 16), ?_⟩
    revert n
    decide
  unfold escape
  split
  · exact .short rfl h
  · exact .short rfl h
  · exact .short rfl h
  · exact .short rfl h
  · exact .short rfl h
  · exact .short rfl h
  · exact .short rfl h
  · rename_i hquote hslash _ _ _ _ _
    split
    · rename_i hlt
      obtain ⟨a, b, c', d, hpadded, hhex⟩ := hcontrol ⟨c.toNat, hlt⟩
      rw [show Text.Hex.padded 4 c.toNat = [a, b, c', d] from hpadded]
      exact .unit hhex h
    · rename_i hge
      exact .plain (Nat.le_of_not_lt hge) hquote hslash h

theorem body_flatMap_escape (l : List Char) : Body (l.flatMap escape) (l.map Char.toNat) := by
  induction l with
  | nil => exact .nil
  | cons c l ih => exact body_escape c ih

/-- No character is a surrogate. -/
theorem denotes_map_toNat (l : List Char) : Denotes (l.map Char.toNat) l := by
  induction l with
  | nil => exact .nil
  | cons c l ih =>
    have hvalid : c.toNat < 0xD800 ∨ 0xDFFF < c.toNat ∧ c.toNat < 0x110000 := c.valid
    have hlow : isLowSurrogate c.toNat = false := decide_eq_false (by omega)
    have hhigh : isHighSurrogate c.toNat = false := decide_eq_false (by omega)
    have h := Denotes.unit hlow hhigh ih
    rwa [Char.ofNat_toNat] at h

/-- A text is written as a literal that denotes it. -/
theorem writes_lexeme (s : String) : Writes (lexeme (some s)) (some s) := by
  refine ⟨_, _, rfl, body_flatMap_escape s.toList, fun t => ?_⟩
  have hdenotes := joinUnits_eq_some_iff.mpr (denotes_map_toNat s.toList)
  rw [← joinUnits_eq_some_iff, hdenotes, Option.some.injEq, Option.some.injEq, String.toList_inj]

end Literal

/-! ### Numbers -/

namespace Numeral

variable {cs rest ds : List Char} {negative : Bool} {n : Numeral}

/-- Digits, and at least one. -/
def Digits (cs : List Char) : Prop := cs ≠ [] ∧ ∀ c ∈ cs, c.isDigit = true

/-- A point and the digits after it, or nothing. -/
inductive Fraction : List Char → List Char → Prop
  | none : Fraction [] []
  | point {ds : List Char} : Digits ds → Fraction ('.' :: ds) ds

/-- A sign that may be left out; `true` is a minus sign. -/
inductive Sign : List Char → Bool → Prop
  | none : Sign [] false
  | plus : Sign ['+'] false
  | minus : Sign ['-'] true

/-- The mark of an exponent with a sign and digits, or nothing. -/
inductive Exponent : List Char → Bool → List Char → Prop
  | none : Exponent [] false []
  | mark {e : Char} {sign ds : List Char} {negative : Bool} :
    e = 'e' ∨ e = 'E' → Sign sign negative → Digits ds → Exponent (e :: (sign ++ ds)) negative ds

/-- The characters write this number.  No zero stands in front of other digits. -/
def Writes (cs : List Char) (n : Numeral) : Prop :=
  ∃ fraction exponent,
    cs = (if n.negative then ['-'] else []) ++ (n.integer ++ (fraction ++ exponent)) ∧
      Digits n.integer ∧ (n.integer.head? = some '0' → n.integer = ['0']) ∧
      Fraction fraction n.fraction ∧ Exponent exponent n.exponentNegative n.exponent

/-- The digits in front of something else. -/
theorem leadingDigits?_eq_some_iff : leadingDigits? cs = some (ds, rest) ↔
    cs = ds ++ rest ∧ Digits ds ∧ ∀ c ∈ rest.head?, c.isDigit = false := by
  unfold leadingDigits? Digits
  constructor
  · intro h
    simp only [Option.ite_none_left_eq_some, Option.some.injEq, Prod.mk.injEq] at h
    obtain ⟨hne, rfl, rfl⟩ := h
    refine ⟨List.takeWhile_append_dropWhile.symm, ⟨hne, fun c hc => List.mem_takeWhile_imp hc⟩, ?_⟩
    intro c hc
    have hhead := List.head?_dropWhile_not Char.isDigit cs
    rw [show (cs.dropWhile Char.isDigit).head? = some c from hc] at hhead
    simpa using hhead
  · rintro ⟨rfl, ⟨hne, hds⟩, hrest⟩
    rw [takeWhile_append_stop hds hrest, dropWhile_append_stop hds hrest, if_neg hne]

theorem leadingInteger?_eq_some_iff : leadingInteger? cs = some (ds, rest) ↔
    cs = ds ++ rest ∧ Digits ds ∧ (ds.head? = some '0' → ds = ['0']) ∧
      ∀ c ∈ rest.head?, c.isDigit = false := by
  unfold leadingInteger?
  rw [Option.filter_eq_some_iff, leadingDigits?_eq_some_iff, decide_eq_true_iff]
  tauto

theorem fraction_of_leadingFraction? (h : leadingFraction? cs = some (ds, rest)) :
    ∃ fraction, cs = fraction ++ rest ∧ Fraction fraction ds := by
  unfold leadingFraction? at h
  split at h
  · obtain ⟨rfl, hds, -⟩ := leadingDigits?_eq_some_iff.mp h
    exact ⟨_, rfl, .point hds⟩
  · cases h
    exact ⟨[], rfl, .none⟩

theorem leadingSign_append {sign : List Char} (h : Sign sign negative) (hds : Digits ds) :
    leadingSign (sign ++ ds) = (negative, ds) := by
  cases h with
  | none =>
    obtain ⟨hne, hdigits⟩ := hds
    cases ds with
    | nil => exact absurd rfl hne
    | cons c cs =>
      have hc : c.isDigit = true := hdigits c List.mem_cons_self
      rw [List.nil_append, leadingSign]
      · rintro _ ⟨⟩
        cases hc
      · rintro _ ⟨⟩
        cases hc
  | plus => rfl
  | minus => rfl

theorem sign_leadingSign (cs : List Char) :
    ∃ sign, cs = sign ++ (leadingSign cs).2 ∧ Sign sign (leadingSign cs).1 := by
  unfold leadingSign
  split
  · exact ⟨_, rfl, .minus⟩
  · exact ⟨_, rfl, .plus⟩
  · exact ⟨_, rfl, .none⟩

theorem exponent_of_leadingDigits? {e : Char} (he : e = 'e' ∨ e = 'E')
    (h : leadingDigits? (leadingSign cs).2 = some (ds, [])) :
    Exponent (e :: cs) (leadingSign cs).1 ds := by
  obtain ⟨hcs, hds, -⟩ := leadingDigits?_eq_some_iff.mp h
  obtain ⟨sign, hsign, hs⟩ := sign_leadingSign cs
  rw [hcs, List.append_nil] at hsign
  have hmark := Exponent.mark he hs hds
  rwa [← hsign] at hmark

theorem exponent?_eq_some_iff : exponent? cs = some (negative, ds) ↔ Exponent cs negative ds := by
  constructor
  · intro h
    unfold exponent? at h
    split at h
    · cases h
      exact .none
    · split at h
      · rename_i hread
        cases h
        exact exponent_of_leadingDigits? (.inl rfl) hread
      · cases h
    · split at h
      · rename_i hread
        cases h
        exact exponent_of_leadingDigits? (.inr rfl) hread
      · cases h
    · cases h
  · rintro (_ | ⟨he, hsign, hds⟩)
    · rfl
    · have hread : leadingDigits? ds = some (ds, []) :=
        leadingDigits?_eq_some_iff.mpr ⟨(List.append_nil ds).symm, hds, by simp⟩
      obtain rfl | rfl := he <;>
      simp only [exponent?, leadingSign_append hsign hds, hread]

/-- Neither a digit nor a point starts an exponent. -/
theorem Exponent.head? (h : Exponent cs negative ds) :
    ∀ c ∈ cs.head?, c.isDigit = false ∧ c ≠ '.' := by
  cases h with
  | none => simp
  | mark he _ _ => obtain rfl | rfl := he <;> simp

theorem leadingFraction?_append {fraction exponent : List Char} (h : Fraction fraction ds)
    (hrest : ∀ c ∈ exponent.head?, c.isDigit = false ∧ c ≠ '.') :
    leadingFraction? (fraction ++ exponent) = some (ds, exponent) := by
  cases h with
  | none =>
    rw [List.nil_append, leadingFraction?]
    rintro l rfl
    exact (hrest '.' rfl).2 rfl
  | point hds => exact leadingDigits?_eq_some_iff.mpr ⟨rfl, hds, fun c hc => (hrest c hc).1⟩

theorem Fraction.head? {fraction exponent : List Char} (h : Fraction fraction ds)
    (hrest : ∀ c ∈ exponent.head?, c.isDigit = false ∧ c ≠ '.') :
    ∀ c ∈ (fraction ++ exponent).head?, c.isDigit = false := by
  cases h with
  | none => exact fun c hc => (hrest c hc).1
  | point _ => simp

/-- **A number is read from exactly the characters that write it.** -/
theorem ofLexeme?_eq_some_iff : ofLexeme? cs = some n ↔ Writes cs n := by
  constructor
  · intro h
    simp only [ofLexeme?, Option.bind_eq_bind, Option.bind_eq_some_iff, Prod.exists] at h
    obtain ⟨integer, rest, hinteger, fraction, rest', hfraction, negative, exponent, hexponent, hn⟩ := h
    cases hn
    obtain ⟨hcs, hdigits, hzero, -⟩ := leadingInteger?_eq_some_iff.mp hinteger
    obtain ⟨lexeme, rfl, hlexeme⟩ := fraction_of_leadingFraction? hfraction
    refine ⟨lexeme, rest', ?_, hdigits, hzero, hlexeme, exponent?_eq_some_iff.mp hexponent⟩
    rw [← hcs]
    cases cs with
    | nil => rfl
    | cons c cs =>
      by_cases hc : c = '-' <;> simp [hc]
  · rintro ⟨fraction, exponent, rfl, hinteger, hzero, hfraction, hexponent⟩
    have hread := leadingInteger?_eq_some_iff.mpr
      ⟨rfl, hinteger, hzero, hfraction.head? hexponent.head?⟩
    have hfraction := leadingFraction?_append hfraction hexponent.head?
    have hexponent := exponent?_eq_some_iff.mpr hexponent
    have hhead : (n.integer ++ (fraction ++ exponent)).head? ≠ some '-' := by
      rw [List.head?_append_of_ne_nil _ hinteger.1]
      intro h
      have hminus := hinteger.2 '-' (List.mem_of_mem_head? h)
      cases hminus
    obtain ⟨negative, integer, _, _, _⟩ := n
    cases negative with
    | true => simp [ofLexeme?, hread, hfraction, hexponent]
    | false =>
      simp only [Bool.false_eq_true, ↓reduceIte, List.nil_append]
      simp [ofLexeme?, hhead, hread, hfraction, hexponent, -List.head?_append]

theorem head?_digits_ne_zero {n : Nat} (h : n ≠ 0) : (Text.Decimal.digits n).head? ≠ some '0' := by
  -- On the number without its last digit.
  induction n using Nat.strongRecOn with
  | ind n ih =>
    unfold Text.Decimal.digits at ih ⊢
    rw [Nat.toDigits_eq_if (by decide)]
    split
    · simpa using h
    · rw [List.head?_append_of_ne_nil _ Nat.toDigits_ne_nil]
      exact ih (n / 10) (by omega) (by omega)

theorem writes_ofNat (n : Nat) : Writes (ofNat n).lexeme (ofNat n) := by
  have hlexeme : (ofNat n).lexeme = Text.Decimal.digits n := by
    simp [lexeme, ofNat]
  obtain ⟨hne, hdigits, -⟩ := Text.Decimal.denotes_digits n
  refine ⟨[], [], ?_, ⟨hne, hdigits⟩, fun hzero => ?_, .none, .none⟩
  · rw [hlexeme]
    simp [ofNat]
  · by_cases hn : n = 0
    · rw [hn]
      rfl
    · exact absurd hzero (head?_digits_ne_zero hn)

theorem Digits.isNumberChar (h : Digits ds) : ∀ c ∈ ds, Token.isNumberChar c = true := by
  intro c hc
  simp [Token.isNumberChar, h.2 c hc]

theorem Fraction.isNumberChar (h : Fraction cs ds) : ∀ c ∈ cs, Token.isNumberChar c = true := by
  cases h with
  | none => simp
  | point hds => exact List.forall_mem_cons.mpr ⟨by decide, hds.isNumberChar⟩

theorem Exponent.isNumberChar (h : Exponent cs negative ds) :
    ∀ c ∈ cs, Token.isNumberChar c = true := by
  cases h with
  | none => simp
  | mark he hsign hds =>
    refine List.forall_mem_cons.mpr ⟨?_, List.forall_mem_append.mpr ⟨?_, hds.isNumberChar⟩⟩
    · obtain rfl | rfl := he <;> decide
    · cases hsign <;> simp [Token.isNumberChar]

theorem Writes.isNumberChar (h : Writes cs n) : ∀ c ∈ cs, Token.isNumberChar c = true := by
  obtain ⟨fraction, exponent, rfl, hinteger, -, hfraction, hexponent⟩ := h
  have hminus : ∀ c ∈ if n.negative then ['-'] else [], Token.isNumberChar c = true := by
    cases n.negative <;> simp [Token.isNumberChar]
  simp only [List.forall_mem_append]
  exact ⟨hminus, hinteger.isNumberChar, hfraction.isNumberChar, hexponent.isNumberChar⟩

/-- A number starts with a digit or a minus sign. -/
theorem Writes.head? (h : Writes cs n) : ∃ c l, cs = c :: l ∧ (c = '-' ∨ c.isDigit = true) := by
  obtain ⟨fraction, exponent, rfl, ⟨hne, hdigits⟩, -⟩ := h
  cases n.negative with
  | true => exact ⟨'-', _, rfl, .inl rfl⟩
  | false =>
    cases hinteger : n.integer with
    | nil => exact absurd hinteger hne
    | cons c l => exact ⟨c, _, rfl, .inr (hdigits c (hinteger ▸ List.mem_cons_self))⟩

end Numeral

end EofVerifier.Json
