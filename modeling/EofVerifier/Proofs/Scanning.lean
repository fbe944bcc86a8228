import EofVerifier.Proofs.Rendering
import Mathlib

/-! # Scanning finds what a text writes

The scan of a text has no fault exactly when its lines of words write some items, and it gives
these (`scan_eq_iff_lines`).  So a text writes one list of items at most (`Rendering.unique`).

The words of an item are taken off a line one item at a time.  Where an item ends can be told
from its first word and its operand, except for a jump table, which takes every target that
follows.  No item starts with a word that could be a target (`Item.Spelled.not_target`), so a
table takes only its own. -/

namespace EofVerifier

/-! ### Mnemonics -/

theorem Opcode.head_mnemonic (o : Opcode) :
    o.mnemonic.toList.head?.any Char.isUpper = true := by
  have h : (Opcode.table.all fun e => e.2.mnemonic.toList.head?.any Char.isUpper) = true := by
    decide +kernel
  exact List.all_eq_true.mp h _ o.mem_table

theorem Opcode.mem_mnemonic (o : Opcode) :
    ∀ c ∈ o.mnemonic.toList, c.isUpper = true ∨ c.isDigit = true := by
  have h : (Opcode.table.all fun e =>
      e.2.mnemonic.toList.all fun c => c.isUpper || c.isDigit) = true := by
    decide +kernel
  intro c hc
  exact Bool.or_eq_true_iff.mp (List.all_eq_true.mp (List.all_eq_true.mp h _ o.mem_table) c hc)

theorem Opcode.find?_mnemonic (o : Opcode) :
    Opcode.table.find? (·.2.mnemonic = o.mnemonic) = some (o.byte, o.info) := by
  have h : (Opcode.table.all fun e =>
      Opcode.table.find? (·.2.mnemonic = e.2.mnemonic) = some e) = true := by
    decide +kernel
  exact of_decide_eq_true (List.all_eq_true.mp h _ o.mem_table)

theorem Opcode.eq_of_mnemonic_eq {o o' : Opcode} (h : o.mnemonic = o'.mnemonic) : o = o' := by
  have ho := o.find?_mnemonic
  rw [h, o'.find?_mnemonic] at ho
  cases o
  cases o'
  cases ho
  rfl

theorem Opcode.ofMnemonic?_eq_some_iff {m : String} {o : Opcode} :
    Opcode.ofMnemonic? m = some o ↔ o.mnemonic = m := by
  have hfound {o' : Opcode} (h : Opcode.ofMnemonic? m = some o') : o'.mnemonic = m := by
    have hdec := List.find?_some h
    exact of_decide_eq_true hdec
  constructor
  · exact hfound
  · intro ho
    cases h : Opcode.ofMnemonic? m with
    | none =>
      have hnot := List.find?_eq_none.mp h o o.mem_all
      exact absurd (decide_eq_true ho) hnot
    | some o' => rw [Opcode.eq_of_mnemonic_eq ((hfound h).trans ho.symm)]

namespace Assembly

variable {w : Word} {ws args rest : List Word} {opcode : Opcode} {operand : Operand Target}
  {item : Item} {items : List Item}

theorem opcodeOf?_eq_some_iff : opcodeOf? w = some opcode ↔ Names w opcode := by
  unfold opcodeOf? Names
  rw [Opcode.ofMnemonic?_eq_some_iff, ← String.toList_inj, String.toList_ofList]
  exact eq_comm

/-- A mnemonic starts with a letter of either case. -/
theorem Names.isUpper_head (h : Names w opcode) :
    ∃ c cs, w = c :: cs ∧ c.toUpper.isUpper = true := by
  have hhead := opcode.head_mnemonic
  rw [← show w.map Char.toUpper = _ from h] at hhead
  cases w with
  | nil => cases hhead
  | cons c cs => exact ⟨c, cs, rfl, hhead⟩

/-- A mnemonic does not have the form of a label definition. -/
theorem Names.labelName? (h : Names w opcode) : labelName? w = none := by
  refine if_neg fun hlast => ?_
  have hmem : ':' ∈ opcode.mnemonic.toList := by
    rw [← show w.map Char.toUpper = _ from h]
    exact List.mem_map_of_mem (f := Char.toUpper) (List.mem_of_getLast? hlast)
  exact absurd (opcode.mem_mnemonic ':' hmem) (by decide)

/-! ### Targets -/

theorem Target.read?_eq_some_iff {t : Target} : Target.read? w = some t ↔ t.Spelled w := by
  unfold Target.read?
  split
  · rename_i name
    constructor
    · intro h
      split at h
      · cases h
      · rename_i hne
        cases h
        exact .label hne
    · rintro (hne | hd)
      · rw [if_neg hne]
      · have hat := hd.2.1 '@' List.mem_cons_self
        cases hat
  · rename_i hno
    rw [Option.map_eq_some_iff]
    simp only [Option.filter_eq_some_iff, Text.Decimal.read?_eq_some_iff, decide_eq_true_iff]
    constructor
    · rintro ⟨n, ⟨hd, hlt⟩, rfl⟩
      refine .index ?_
      rw [UInt64.toNat_ofNat_of_lt' hlt]
      exact hd
    · rintro (hne | hd)
      · exact absurd rfl (hno _)
      · exact ⟨_, ⟨hd, UInt64.toNat_lt _⟩, by rw [UInt64.ofNat_toNat]⟩

theorem not_isUpper_toUpper {c : Char} (h : c.isDigit = true) : c.toUpper.isUpper = false := by
  grind [Char.toUpper, Char.isDigit, Char.isUpper]

/-- A word that starts an item cannot be taken for a target. -/
theorem Item.Spelled.not_target (h : item.Spelled (w :: args)) : Target.read? w = none := by
  refine Option.eq_none_iff_forall_ne_some.mpr fun t ht => ?_
  have hspelled := Target.read?_eq_some_iff.mp ht
  cases h with
  | @label name hne hat =>
    generalize hw : name ++ [':'] = w at hspelled
    cases hspelled with
    | label =>
      obtain ⟨c, name, rfl⟩ := List.exists_cons_of_ne_nil hne
      cases hw
      exact hat rfl
    | index hd =>
      have hcolon := hd.2.1 ':' (by simp [← hw])
      cases hcolon
  | instruction hname =>
    obtain ⟨c, cs, rfl, hupper⟩ := hname.isUpper_head
    generalize hw : c :: cs = w at hspelled
    cases hspelled with
    | label =>
      cases hw
      cases hupper
    | index hd =>
      have hdigit := hd.2.1 c (by simp [← hw])
      rw [not_isUpper_toUpper hdigit] at hupper
      cases hupper

theorem leadingTargets_append {ts : List Target} {vs : List Word}
    (h : List.Forall₂ Target.Spelled ts vs) (hrest : ∀ w ∈ rest.head?, Target.read? w = none) :
    leadingTargets (vs ++ rest) = (ts, rest) := by
  induction h with
  | nil =>
    cases rest with
    | nil => rfl
    | cons w rest =>
      have hw : Target.read? w = none := hrest w rfl
      simp [leadingTargets, hw]
  | cons ht _ ih =>
    rw [List.cons_append]
    simp [leadingTargets, Target.read?_eq_some_iff.mpr ht, ih]

theorem exists_leadingTargets (ws : List Word) : ∃ vs, ws = vs ++ (leadingTargets ws).2 ∧
    List.Forall₂ Target.Spelled (leadingTargets ws).1 vs := by
  induction ws with
  | nil => exact ⟨[], rfl, .nil⟩
  | cons w ws ih =>
    unfold leadingTargets
    split
    · rename_i t ht
      obtain ⟨vs, hws, hvs⟩ := ih
      exact ⟨w :: vs, congrArg _ hws, .cons (Target.read?_eq_some_iff.mp ht) hvs⟩
    · exact ⟨[], rfl, .nil⟩

/-! ### Operands -/

theorem readWord_eq_ok_iff {read? : Word → Option (Operand Target)} :
    readWord opcode read? ws = .ok (operand, rest) ↔
      ∃ w, ws = w :: rest ∧ read? w = some operand := by
  cases ws with
  | nil => simp [readWord]
  | cons w ws => cases hw : read? w <;> simp [readWord, hw, and_comm, eq_comm]

theorem readPayload?_eq_some_iff {size : Nat} {bytes : List UInt8} :
    readPayload? size w = some bytes ↔ Writes (.payload size) (.payload bytes) [w] := by
  have hdigits (x : Char) (digits : Word) (hx : x = 'x' ∨ x = 'X') :
      Text.Hex.payload? size digits = some bytes ↔
        Writes (.payload size) (.payload bytes) ['0' :: x :: digits] := by
    rw [Text.Hex.payload?_eq_some_iff]
    constructor
    · rintro ⟨hle, hsize, hd⟩
      exact .payload hx hle hsize hd
    · rintro ⟨⟩
      exact ⟨‹_›, ‹_›, ‹_›⟩
  unfold readPayload?
  split
  · exact hdigits 'x' _ (.inl rfl)
  · exact hdigits 'X' _ (.inr rfl)
  · rename_i hx hX
    simp only [reduceCtorEq, false_iff]
    rintro (_ | ⟨rfl | rfl, -⟩)
    · exact hx _ rfl
    · exact hX _ rfl

/-- An operand is read from its words, unless a target follows a jump table. -/
theorem readOperand_append (h : Writes opcode.shape operand args)
    (hrest : ∀ w ∈ rest.head?, Target.read? w = none) :
    readOperand opcode (args ++ rest) = .ok (operand, rest) := by
  unfold readOperand
  generalize opcode.shape = shape at h
  cases h with
  | none => rfl
  | @payload size x digits bytes hx hle hsize hd =>
    have hpos : 0 < digits.length := List.length_pos_iff.mpr hd.1
    obtain ⟨size, rfl⟩ : ∃ k, size = k + 1 := Nat.exists_eq_succ_of_ne_zero (by omega)
    refine readWord_eq_ok_iff.mpr ⟨_, rfl, ?_⟩
    rw [readPayload?_eq_some_iff.mpr (.payload hx hle hsize hd)]
    rfl
  | target ht =>
    refine readWord_eq_ok_iff.mpr ⟨_, rfl, ?_⟩
    rw [Target.read?_eq_some_iff.mpr ht]
    rfl
  | @table ts vs hne hts =>
    obtain ⟨t, ts, rfl⟩ := List.exists_cons_of_ne_nil hne
    simp only [leadingTargets_append hts hrest]
  | @callee index v digits hv hd =>
    refine readWord_eq_ok_iff.mpr ⟨_, rfl, ?_⟩
    have hle : index.toNat ≤ 0xFFFF := Nat.le_of_lt_succ index.toNat_lt
    have hread := Text.Decimal.readUnsigned?_eq_some_iff.mpr ⟨digits, hv, hd, hle⟩
    rw [hread, Option.map_some, UInt16.ofNat_toNat]

/-- What is read as an operand is written by the words that are taken off. -/
theorem exists_writes (h : readOperand opcode ws = .ok (operand, rest)) :
    ∃ args, ws = args ++ rest ∧ Writes opcode.shape operand args := by
  unfold readOperand at h
  generalize opcode.shape = shape at h
  split at h
  · cases h
    exact ⟨[], rfl, .none⟩
  · obtain ⟨w, rfl, hw⟩ := readWord_eq_ok_iff.mp h
    obtain ⟨bytes, hbytes, rfl⟩ := Option.map_eq_some_iff.mp hw
    exact ⟨[w], rfl, readPayload?_eq_some_iff.mp hbytes⟩
  · obtain ⟨w, rfl, hw⟩ := readWord_eq_ok_iff.mp h
    obtain ⟨t, ht, rfl⟩ := Option.map_eq_some_iff.mp hw
    exact ⟨[w], rfl, .target (Target.read?_eq_some_iff.mp ht)⟩
  · obtain ⟨w, rfl, hw⟩ := readWord_eq_ok_iff.mp h
    obtain ⟨n, hn, rfl⟩ := Option.map_eq_some_iff.mp hw
    obtain ⟨digits, hv, hd, hle⟩ := Text.Decimal.readUnsigned?_eq_some_iff.mp hn
    refine ⟨[w], rfl, .callee hv ?_⟩
    rw [UInt16.toNat_ofNat_of_lt' (Nat.lt_succ_of_le hle)]
    exact hd
  · obtain ⟨vs, hws, hvs⟩ := exists_leadingTargets ws
    split at h
    · cases h
    · rename_i ts rest' hne hleading
      cases h
      rw [hleading] at hws hvs
      exact ⟨vs, hws, .table hne hvs⟩

/-! ### Items -/

theorem labelName?_eq_some_iff {name : Word} :
    labelName? w = some name ↔ w = name ++ [':'] := by
  unfold labelName?
  constructor
  · intro h
    split at h
    · rename_i hlast
      cases h
      exact (List.dropLast_append_getLast? _ hlast).symm
    · cases h
  · rintro rfl
    rw [if_pos List.getLast?_concat, List.dropLast_concat]

theorem usableName_eq_true_iff {name : Word} :
    usableName name = true ↔ name ≠ [] ∧ name.head? ≠ some '@' := by
  unfold usableName
  exact decide_eq_true_iff

theorem Item.Spelled.read (h : item.Spelled (w :: args))
    (hrest : ∀ w ∈ rest.head?, Target.read? w = none) :
    Item.read w (args ++ rest) = .ok (item, rest) := by
  unfold Item.read
  generalize hws : w :: args = ws at h
  cases h with
  | @label name hne hat =>
    cases hws
    simp [labelName?_eq_some_iff.mpr rfl, usableName_eq_true_iff.mpr ⟨hne, hat⟩]
  | @instruction opcode operand w args hname hargs =>
    cases hws
    simp [hname.labelName?, opcodeOf?_eq_some_iff.mpr hname, readOperand_append hargs hrest]

/-- What is read as an item is written by the words that are taken off. -/
theorem exists_spelled (h : Item.read w ws = .ok (item, rest)) :
    ∃ args, ws = args ++ rest ∧ item.Spelled (w :: args) := by
  unfold Item.read at h
  split at h
  · rename_i name hlabel
    split at h
    · rename_i husable
      obtain ⟨hne, hat⟩ := usableName_eq_true_iff.mp husable
      obtain rfl := labelName?_eq_some_iff.mp hlabel
      cases h
      exact ⟨[], rfl, .label hne hat⟩
    · cases h
  · split at h
    · cases h
    · rename_i opcode hopcode
      have hname := opcodeOf?_eq_some_iff.mp hopcode
      split at h
      · cases h
      · rename_i operand rest' hoperand
        cases h
        obtain ⟨args, hws, hargs⟩ := exists_writes hoperand
        exact ⟨args, hws, .instruction hname hargs⟩

/-! ### Lines -/

/-- The items on a line are unique, and there is no fault. -/
theorem scanWords_eq_iff_line : scanWords ws = (items, none) ↔ Line items ws := by
  constructor
  · intro h
    fun_induction scanWords ws generalizing items with
    | case1 =>
      cases h
      exact .nil
    | case2 w ws f hread => cases h
    | case3 w ws item rest hread r =>
      rename_i ih
      obtain ⟨args, rfl, hitem⟩ := exists_spelled hread
      obtain ⟨rfl, hfault⟩ := Prod.mk.inj h
      exact .cons hitem (ih (Prod.ext rfl hfault))
  · intro h
    induction h with
    | nil => rw [scanWords]
    | @cons item items ws rest hitem hline ih =>
      obtain ⟨w, args, rfl⟩ := List.exists_cons_of_ne_nil hitem.ne_nil
      have hrest : ∀ w ∈ rest.head?, Target.read? w = none := by
        cases hline with
        | nil => nofun
        | cons hnext =>
          obtain ⟨w, args, rfl⟩ := List.exists_cons_of_ne_nil hnext.ne_nil
          rintro _ ⟨⟩
          exact hnext.not_target
      rw [List.cons_append, scanWords]
      split
      · rename_i f hread
        rw [hitem.read hrest] at hread
        cases hread
      · rename_i item' rest' hread
        rw [hitem.read hrest] at hread
        cases hread
        rw [ih]

theorem lines_nil_iff : Lines items [] ↔ items = [] := by
  constructor
  · rintro ⟨parts, rfl, hparts⟩
    cases hparts
    rfl
  · rintro rfl
    exact ⟨[], rfl, .nil⟩

theorem lines_cons_iff {lines : List (List Word)} : Lines items (ws :: lines) ↔
    ∃ part later, items = part ++ later ∧ Line part ws ∧ Lines later lines := by
  constructor
  · rintro ⟨_, rfl, hparts⟩
    cases hparts with
    | @cons part _ parts _ hpart hparts =>
      exact ⟨part, parts.flatten, rfl, hpart, parts, rfl, hparts⟩
  · rintro ⟨part, _, rfl, hpart, parts, rfl, hparts⟩
    exact ⟨part :: parts, rfl, .cons hpart hparts⟩

/-- The items of lines that are numbered from `n` on, each with its line. -/
def numbered (n : Nat) : List (List Item) → List Entry
  | [] => []
  | part :: parts => part.map (⟨n, ·⟩) ++ numbered (n + 1) parts

theorem map_item_numbered (n : Nat) (parts : List (List Item)) :
    (numbered n parts).map Entry.item = parts.flatten := by
  induction parts generalizing n with
  | nil => rfl
  | cons part parts ih => simp [numbered, ih, Function.comp_def]

/-- The entries are the items with the lines they are on. -/
theorem scanLines_eq_iff_numbered {n : Nat} {ls : List (List Char)} {entries : List Entry} :
    scanLines n ls = (entries, none) ↔
      ∃ parts, List.Forall₂ Line parts (ls.map lineWords) ∧ entries = numbered n parts := by
  induction ls generalizing n entries with
  | nil => simp [scanLines, numbered, List.forall₂_nil_right_iff, eq_comm]
  | cons l ls ih =>
    rw [List.map_cons]
    constructor
    · intro hscan
      unfold scanLines at hscan
      split at hscan
      · cases hscan
      · rename_i part hpart
        obtain ⟨rfl, hfault⟩ := Prod.mk.inj hscan
        obtain ⟨parts, hparts, hlater⟩ := ih.mp (Prod.ext rfl hfault)
        exact ⟨part :: parts, .cons (scanWords_eq_iff_line.mp hpart) hparts, congrArg _ hlater⟩
    · rintro ⟨_, hparts, rfl⟩
      cases hparts with
      | cons hpart hparts =>
        unfold scanLines
        rw [scanWords_eq_iff_line.mpr hpart, ih.mpr ⟨_, hparts, rfl⟩]
        rfl

theorem scanLines_eq_iff_lines {n : Nat} {ls : List (List Char)} :
    (∃ entries, scanLines n ls = (entries, none) ∧ entries.map Entry.item = items) ↔
      Lines items (ls.map lineWords) := by
  simp only [scanLines_eq_iff_numbered, Lines]
  constructor
  · rintro ⟨_, ⟨parts, hparts, rfl⟩, rfl⟩
    exact ⟨parts, (map_item_numbered n parts).symm, hparts⟩
  · rintro ⟨parts, rfl, hparts⟩
    exact ⟨_, ⟨parts, hparts, rfl⟩, map_item_numbered n parts⟩

/-- A last line without words changes nothing. -/
theorem lines_concat_nil {lines : List (List Word)} :
    Lines items (lines ++ [[]]) ↔ Lines items lines := by
  induction lines generalizing items with
  | nil =>
    have hline {part : List Item} : Line part [] ↔ part = [] := by
      rw [← scanWords_eq_iff_line]
      simp [scanWords, eq_comm]
    rw [List.nil_append, lines_cons_iff]
    simp [hline, lines_nil_iff]
  | cons ws lines ih => simp only [List.cons_append, lines_cons_iff, ih]

/-- **The scan of a text has no fault exactly when its lines of words write some items.** -/
theorem scan_eq_iff_lines {source : String} :
    (∃ entries, scan source = (entries, none) ∧ entries.map Entry.item = items) ↔
      Lines items (wordLines source.toList) := by
  unfold scan
  rw [scanLines_eq_iff_lines, wordLines, Text.lines]
  split
  · rename_i hlast
    have hpieces := List.dropLast_append_getLast? _ hlast
    rw [← hpieces, List.map_append, List.dropLast_concat]
    exact lines_concat_nil.symm
  · rfl

/-- A text writes one list of items at most. -/
theorem Rendering.unique {items' : List Item} {cs : List Char} (h : Rendering items cs)
    (h' : Rendering items' cs) : items = items' := by
  have hscan {items : List Item} (h : Rendering items cs) :
      ∃ entries, scan (String.ofList cs) = (entries, none) ∧ entries.map Entry.item = items := by
    rw [scan_eq_iff_lines, String.toList_ofList]
    exact rendering_iff_lines.mp h
  obtain ⟨entries, hentries, rfl⟩ := hscan h
  obtain ⟨entries', hentries', rfl⟩ := hscan h'
  rw [hentries] at hentries'
  cases hentries'
  rfl

end Assembly

end EofVerifier
