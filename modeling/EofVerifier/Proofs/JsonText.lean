import EofVerifier.Json.Value
import EofVerifier.Proofs.JsonTokens

/-! # JSON text

A text is JSON text of a value if the tokens of the value can be cut out of it (`Value.Writes`).  It
is then read as this value, and no other text is (`Value.ofText?_eq_some_iff`).

One half is an induction on the value: the machine takes in the tokens of a value from any place
where a value may stand, whatever is open around it (`readTokens_tokens`).  The other half is an
induction on the tokens: each state of the machine remembers the tokens that led to it
(`tokensBefore_read`), so that a machine that has come to its end has seen the tokens of the value
that it gives. -/

namespace EofVerifier.Json

open Token (Spaced Separated IsPunctuation)

namespace Value

/-- The text is JSON text of this value, with any spaces between the tokens. -/
def Writes (text : String) (v : Value) : Prop := Spaced text.toList v.tokens

/-! ### Tokens of a value -/

theorem separated_cons {t : Token} {ts : List Token} (h : Separated ts)
    (hts : t.IsOpen → ∀ t' ∈ ts.head?, t'.IsPunctuation) : Separated (t :: ts) :=
  List.isChain_cons.mpr ⟨fun t' ht' hopen => hts hopen t' ht', h⟩

theorem isPunctuation_head?_moreElements (vs : List Value) (rest : List Token) :
    ∀ t ∈ (moreElements vs ++ rest).head?, t.IsPunctuation := by
  cases vs <;> simp [moreElements, IsPunctuation]

theorem isPunctuation_head?_moreMembers (ms : List Member) (rest : List Token) :
    ∀ t ∈ (moreMembers ms ++ rest).head?, t.IsPunctuation := by
  cases ms <;> simp [moreMembers, IsPunctuation]

mutual

/-- Only a single character follows a word or a number. -/
theorem separated_tokens_append (v : Value) {rest : List Token} (h : Separated rest)
    (hrest : ∀ t ∈ rest.head?, t.IsPunctuation) : Separated (v.tokens ++ rest) := by
  match v with
  | null | bool _ | number _ | string _ => exact separated_cons h fun _ => hrest
  | array [] | object [] => exact separated_cons (separated_cons h nofun) nofun
  | array (v :: vs) =>
    rw [tokens, List.cons_append, List.append_assoc]
    exact separated_cons (separated_tokens_append v (separated_moreElements_append vs h)
      (isPunctuation_head?_moreElements vs rest)) nofun
  | object ((key, v) :: ms) =>
    have hms := separated_tokens_append v (separated_moreMembers_append ms h)
      (isPunctuation_head?_moreMembers ms rest)
    rw [← List.append_assoc] at hms
    exact separated_cons (separated_cons (separated_cons hms nofun) nofun) nofun

theorem separated_moreElements_append (vs : List Value) {rest : List Token} (h : Separated rest) :
    Separated (moreElements vs ++ rest) := by
  match vs with
  | [] => exact separated_cons h nofun
  | v :: vs =>
    rw [moreElements, List.cons_append, List.append_assoc]
    exact separated_cons (separated_tokens_append v (separated_moreElements_append vs h)
      (isPunctuation_head?_moreElements vs rest)) nofun

theorem separated_moreMembers_append (ms : List Member) {rest : List Token} (h : Separated rest) :
    Separated (moreMembers ms ++ rest) := by
  match ms with
  | [] => exact separated_cons h nofun
  | (key, v) :: ms =>
    have hms := separated_tokens_append v (separated_moreMembers_append ms h)
      (isPunctuation_head?_moreMembers ms rest)
    rw [← List.append_assoc] at hms
    exact separated_cons (separated_cons (separated_cons hms nofun) nofun) nofun

end

theorem separated_tokens (v : Value) : Separated v.tokens := by
  simpa using separated_tokens_append v (List.isChain_nil) (by simp)

/-! ### Reading the tokens of a value -/

/-- Takes in tokens from the left. -/
abbrev readTokens (ts : List Token) (state : Place × List Open) : Option (Place × List Open) :=
  ts.foldlM (fun state t => read t state) state

/-- The first token of a value does not close an array. -/
theorem exists_tokens_eq_cons (v : Value) : ∃ t ts, v.tokens = t :: ts ∧ t ≠ .closeArray := by
  match v with
  | null | bool _ | number _ | string _ | array [] | array (_ :: _) | object [] | object (_ :: _) =>
    exact ⟨_, _, rfl, nofun⟩

theorem readTokens_firstElement (v : Value) (rest : List Token) (stack : List Open) :
    readTokens (v.tokens ++ rest) (.firstElement, stack) =
      readTokens (v.tokens ++ rest) (.value, .array [] :: stack) := by
  obtain ⟨t, ts, hv, ht⟩ := exists_tokens_eq_cons v
  simp [hv, readTokens, read, ht]

mutual

/-- A value is read up to its end, whatever is open around it. -/
theorem readTokens_tokens (v : Value) (rest : List Token) (stack : List Open) :
    readTokens (v.tokens ++ rest) (.value, stack) = readTokens rest (.after v, stack) := by
  match v with
  | null | bool _ | number _ | string _ | array [] | object [] => rfl
  | array (v :: vs) =>
    calc readTokens ((array (v :: vs)).tokens ++ rest) (.value, stack)
      _ = readTokens (v.tokens ++ (moreElements vs ++ rest)) (.firstElement, stack) := by
        rw [tokens, List.cons_append, List.append_assoc]
        rfl
      _ = readTokens (moreElements vs ++ rest) (.after v, .array [] :: stack) := by
        rw [readTokens_firstElement, readTokens_tokens v]
      _ = readTokens rest (.after (array (v :: vs)), stack) :=
        readTokens_moreElements vs v [] rest stack
  | object ((key, v) :: ms) =>
    calc readTokens ((object ((key, v) :: ms)).tokens ++ rest) (.value, stack)
      _ = readTokens (v.tokens ++ (moreMembers ms ++ rest)) (.value, .object [] key :: stack) := by
        rw [← List.append_assoc]
        rfl
      _ = readTokens (moreMembers ms ++ rest) (.after v, .object [] key :: stack) :=
        readTokens_tokens v _ _
      _ = readTokens rest (.after (object ((key, v) :: ms)), stack) :=
        readTokens_moreMembers ms key v [] rest stack

theorem readTokens_moreElements (vs : List Value) (v : Value) (before : List Value)
    (rest : List Token) (stack : List Open) :
    readTokens (moreElements vs ++ rest) (.after v, .array before :: stack) =
      readTokens rest (.after (array (before.reverse ++ v :: vs)), stack) := by
  match vs with
  | [] =>
    rw [← List.reverse_cons]
    rfl
  | w :: vs =>
    calc readTokens (moreElements (w :: vs) ++ rest) (.after v, .array before :: stack)
      _ = readTokens (w.tokens ++ (moreElements vs ++ rest)) (.value, .array (v :: before) :: stack) := by
        rw [← List.append_assoc]
        rfl
      _ = readTokens (moreElements vs ++ rest) (.after w, .array (v :: before) :: stack) :=
        readTokens_tokens w _ _
      _ = readTokens rest (.after (array (before.reverse ++ v :: w :: vs)), stack) := by
        rw [readTokens_moreElements vs w (v :: before) rest stack]
        simp

theorem readTokens_moreMembers (ms : List Member) (key : Option String) (v : Value)
    (before : List Member) (rest : List Token) (stack : List Open) :
    readTokens (moreMembers ms ++ rest) (.after v, .object before key :: stack) =
      readTokens rest (.after (object (before.reverse ++ (key, v) :: ms)), stack) := by
  match ms with
  | [] =>
    rw [← List.reverse_cons]
    rfl
  | (key', w) :: ms =>
    calc readTokens (moreMembers ((key', w) :: ms) ++ rest) (.after v, .object before key :: stack)
      _ = readTokens (w.tokens ++ (moreMembers ms ++ rest))
          (.value, .object ((key, v) :: before) key' :: stack) := by
        rw [← List.append_assoc]
        rfl
      _ = readTokens (moreMembers ms ++ rest) (.after w, .object ((key, v) :: before) key' :: stack) :=
        readTokens_tokens w _ _
      _ = readTokens rest (.after (object (before.reverse ++ (key, v) :: (key', w) :: ms)), stack) := by
        rw [readTokens_moreMembers ms key' w ((key, v) :: before) rest stack]
        simp

end

/-! ### What has been read -/

/-- The tokens of elements, with a comma after each. -/
def elementsBefore (vs : List Value) : List Token :=
  vs.flatMap fun v => v.tokens ++ [.comma]

/-- The tokens of members, with a comma after each. -/
def membersBefore (ms : List Member) : List Token :=
  ms.flatMap fun m => .string m.1 :: .colon :: (m.2.tokens ++ [.comma])

theorem tokens_array_concat (vs : List Value) (v : Value) :
    (array (vs ++ [v])).tokens = .openArray :: (elementsBefore vs ++ v.tokens ++ [.closeArray]) := by
  have hmore (u : Value) (vs : List Value) : u.tokens ++ moreElements (vs ++ [v]) =
      elementsBefore (u :: vs) ++ v.tokens ++ [.closeArray] := by
    induction vs generalizing u with
    | nil => simp [moreElements, elementsBefore]
    | cons w vs ih =>
      rw [List.cons_append, moreElements, ih w]
      simp [elementsBefore]
  cases vs with
  | nil => simp [tokens, moreElements, elementsBefore]
  | cons u vs => rw [List.cons_append, tokens, hmore u vs]

theorem tokens_object_concat (ms : List Member) (key : Option String) (v : Value) :
    (object (ms ++ [(key, v)])).tokens =
      .openObject :: (membersBefore ms ++ .string key :: .colon :: (v.tokens ++ [.closeObject])) := by
  have hmore (u : Value) (ms : List Member) : u.tokens ++ moreMembers (ms ++ [(key, v)]) =
      u.tokens ++ .comma :: (membersBefore ms ++ .string key :: .colon :: (v.tokens ++ [.closeObject])) := by
    induction ms generalizing u with
    | nil => simp [moreMembers, membersBefore]
    | cons m ms ih =>
      rw [List.cons_append, moreMembers, ih m.2]
      simp [membersBefore]
  cases ms with
  | nil => simp [tokens, moreMembers, membersBefore]
  | cons m ms =>
    rw [List.cons_append, tokens, hmore m.2 ms]
    simp [membersBefore]

/-- The tokens of what is open. -/
def Open.tokens : Open → List Token
  | array vs => .openArray :: elementsBefore vs.reverse
  | object ms key => .openObject :: (membersBefore ms.reverse ++ [.string key, .colon])

/-- The tokens since the last array or object that is open. -/
def Place.tokens : Place → List Token
  | value => []
  | firstElement => [.openArray]
  | firstKey => [.openObject]
  | key ms => .openObject :: membersBefore ms.reverse
  | colon ms k => .openObject :: (membersBefore ms.reverse ++ [.string k])
  | after v => v.tokens

/-- The tokens that lead to a state. -/
def tokensBefore (state : Place × List Open) : List Token :=
  state.2.reverse.flatMap Open.tokens ++ state.1.tokens

theorem tokensBefore_start {stack : List Open} {t : Token} {state : Place × List Open}
    (h : start stack t = some state) : tokensBefore state = tokensBefore (.value, stack) ++ [t] := by
  cases t <;> cases h <;> simp [tokensBefore, Place.tokens, tokens]

theorem tokensBefore_continueAfter {v : Value} {stack : List Open} {t : Token}
    {state : Place × List Open} (h : continueAfter v stack t = some state) :
    tokensBefore state = tokensBefore (.after v, stack) ++ [t] := by
  unfold continueAfter at h
  split at h
  · cases h
    simp [tokensBefore, Place.tokens, Open.tokens, elementsBefore]
  · cases h
    simp [tokensBefore, Place.tokens, Open.tokens, tokens_array_concat]
  · cases h
    simp [tokensBefore, Place.tokens, Open.tokens, membersBefore]
  · cases h
    simp [tokensBefore, Place.tokens, Open.tokens, tokens_object_concat]
  · cases h

/-- A token that is taken in is one more token that leads to the state. -/
theorem tokensBefore_read {t : Token} {state state' : Place × List Open}
    (h : read t state = some state') : tokensBefore state' = tokensBefore state ++ [t] := by
  obtain ⟨place, stack⟩ := state
  cases place with
  | value => exact tokensBefore_start h
  | firstElement =>
    simp only [read] at h
    split at h
    · rename_i ht
      cases h
      simp [tokensBefore, Place.tokens, tokens, ht]
    · rw [tokensBefore_start h]
      simp [tokensBefore, Place.tokens, Open.tokens, elementsBefore]
  | firstKey =>
    cases t <;> cases h <;> simp [tokensBefore, Place.tokens, tokens, membersBefore]
  | key ms =>
    cases t <;> cases h
    simp [tokensBefore, Place.tokens]
  | colon ms key =>
    simp only [read] at h
    split at h
    · rename_i ht
      cases h
      simp [tokensBefore, Place.tokens, Open.tokens, ht]
    · cases h
  | after v => exact tokensBefore_continueAfter h

theorem tokensBefore_readTokens {ts : List Token} {state state' : Place × List Open}
    (h : readTokens ts state = some state') : tokensBefore state' = tokensBefore state ++ ts := by
  induction ts generalizing state with
  | nil =>
    cases h
    simp
  | cons t ts ih =>
    rw [readTokens, List.foldlM_cons, Option.bind_eq_bind, Option.bind_eq_some_iff] at h
    obtain ⟨next, hnext, h⟩ := h
    rw [ih h, tokensBefore_read hnext, List.append_assoc, List.singleton_append]

/-- **Tokens make up a value exactly if they are its tokens.** -/
theorem ofTokens?_eq_some_iff {ts : List Token} {v : Value} : ofTokens? ts = some v ↔ ts = v.tokens := by
  have hstate : ofTokens? ts = some v ↔ readTokens ts (.value, []) = some (.after v, []) := by
    unfold ofTokens? readTokens
    rw [Option.bind_eq_bind, Option.bind_eq_some_iff]
    constructor
    · rintro ⟨state, hread, h⟩
      split at h
      · cases h
        exact hread
      · cases h
    · exact fun h => ⟨_, h, rfl⟩
  rw [hstate]
  constructor
  · intro h
    simpa [tokensBefore, Place.tokens] using (tokensBefore_readTokens h).symm
  · rintro rfl
    have h := readTokens_tokens v [] []
    rwa [List.append_nil] at h

/-- **A text is read as a value exactly if it is JSON text of this value.** -/
theorem ofText?_eq_some_iff {text : String} {v : Value} : ofText? text = some v ↔ Writes text v := by
  have hseparated := separated_tokens v
  unfold ofText? Writes
  rw [Option.bind_eq_bind, Option.bind_eq_some_iff]
  constructor
  · rintro ⟨ts, hts, h⟩
    rw [ofTokens?_eq_some_iff] at h
    subst h
    exact (Token.ofText?_eq_some_iff hseparated).mp hts
  · intro h
    exact ⟨v.tokens, (Token.ofText?_eq_some_iff hseparated).mpr h, ofTokens?_eq_some_iff.mpr rfl⟩

/-- A text is JSON text of one value at most. -/
theorem Writes.eq {text : String} {v w : Value} (hv : Writes text v) (hw : Writes text w) : v = w := by
  rw [← ofText?_eq_some_iff] at hv hw
  exact Option.some.inj (hv.symm.trans hw)

/-! ### Writing values -/

/-- The tokens of the value can be written. -/
def Writable (v : Value) : Prop := ∀ t ∈ v.tokens, Token.Writes t.lexeme t

/-- A value that can be written is written by its own rendering. -/
theorem Writable.writes_render {v : Value} (h : Writable v) : Writes v.render v := by
  rw [Writes, render, String.toList_ofList]
  exact Token.spaced_flatMap_lexeme h

theorem writable_number (n : Nat) : Writable (number (Numeral.ofNat n)) := by
  rw [Writable, tokens, List.forall_mem_singleton]
  exact Numeral.writes_ofNat n

theorem writable_moreMembers {ms : List Member} (h : ∀ m ∈ ms, (∃ key, m.1 = some key) ∧ Writable m.2) :
    ∀ t ∈ moreMembers ms, Token.Writes t.lexeme t := by
  induction ms with
  | nil =>
    rw [moreMembers, List.forall_mem_singleton]
    rfl
  | cons m ms ih =>
    obtain ⟨key, v⟩ := m
    obtain ⟨⟨⟨key, rfl⟩, hv⟩, hms⟩ := List.forall_mem_cons.mp h
    rw [moreMembers]
    simp only [List.forall_mem_cons, List.forall_mem_append]
    exact ⟨rfl, Literal.writes_lexeme key, rfl, hv, ih hms⟩

/-- An object can be written if its keys are texts and its values can be written. -/
theorem writable_object {ms : List Member} (h : ∀ m ∈ ms, (∃ key, m.1 = some key) ∧ Writable m.2) :
    Writable (object ms) := by
  cases ms with
  | nil =>
    rw [Writable, tokens, List.forall_mem_cons, List.forall_mem_singleton]
    exact ⟨rfl, rfl⟩
  | cons m ms =>
    obtain ⟨key, v⟩ := m
    obtain ⟨⟨⟨key, rfl⟩, hv⟩, hms⟩ := List.forall_mem_cons.mp h
    rw [Writable, tokens]
    simp only [List.forall_mem_cons, List.forall_mem_append]
    exact ⟨rfl, Literal.writes_lexeme key, rfl, hv, writable_moreMembers hms⟩

end Value

end EofVerifier.Json
