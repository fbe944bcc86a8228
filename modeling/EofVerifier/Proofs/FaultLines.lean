import EofVerifier.Proofs.Assembling

/-! # Where a text is at fault

A text is gone through twice.  The first pass takes its lines one after the other and keeps the
labels defined so far and the number of instructions (`scanFrom`); it stops at the first word that
is no part of an item and at the first label that is defined again.  So a fault of this pass is on
one line, and what is found up to there does not depend on what follows (`scanFrom_append`,
`exists_faulty_line`).

The second pass looks up the targets, in the order in which the text writes them
(`failure?_resolve`), and fails only for a label that is defined nowhere.  By then the whole text
has been gone through, and there is nothing else wrong with it (`FirstUndefined`). -/

namespace EofVerifier

open Traversal (failure? failure?_eq_some_iff failure?_map failure?_mapM)

/-- The first target that fails decides. -/
theorem Operand.failure?_mapTargets {τ σ ε : Type} (f : τ → Except ε σ) (x : Operand τ) :
    failure? (x.mapTargets f) = x.targets.findSome? fun t => failure? (f t) := by
  cases x with
  | target t =>
    rw [mapTargets, bind_pure_comp, failure?_map]
    simp [targets]
  | table ts =>
    rw [mapTargets, bind_pure_comp, failure?_map]
    exact failure?_mapM
  | none | payload | callee => rfl

namespace Assembly

variable {source : String} {labels table : Labels} {count n k : Nat} {e : AssemblyError}
  {line : List Char} {ls : List (List Char)} {parts : List (List Item)}

/-! ### The first pass, line by line -/

/-- The labels that are defined and the number of instructions, behind some lines. -/
abbrev Progress := Labels × Nat

/-- Goes through a line with this number. -/
def scanLine (n : Nat) (st : Progress) (line : List Char) : Except AssemblyError Progress := do
  let r := scanWords (lineWords line)
  let labels ← st.1.collect st.2 (r.1.map (⟨n, ·⟩))
  match r.2 with
  | some f => throw ⟨n, f⟩
  | none => return (labels, st.2 + r.1.countP fun item => item.defines?.isNone)

/-- Goes through lines of which the first has this number. -/
def scanFrom (n : Nat) (st : Progress) : List (List Char) → Except AssemblyError Progress
  | [] => .ok st
  | line :: ls => do scanFrom (n + 1) (← scanLine n st line) ls

theorem scanFrom_append (n : Nat) (st : Progress) (ls later : List (List Char)) :
    scanFrom n st (ls ++ later) =
      (do scanFrom (n + ls.length) (← scanFrom n st ls) later) := by
  induction ls generalizing n st with
  | nil => rfl
  | cons line ls ih =>
    rw [List.cons_append, scanFrom, scanFrom]
    cases scanLine n st line with
    | error e => rfl
    | ok st' =>
      change scanFrom (n + 1) st' (ls ++ later) = _
      rw [ih, List.length_cons, Nat.add_comm ls.length, ← Nat.add_assoc]
      rfl

/-- A fault that is found is on one line, and none is found before it. -/
theorem exists_faulty_line {st : Progress} (h : scanFrom n st ls = .error e) :
    ∃ before line after st', ls = before ++ line :: after ∧ scanFrom n st before = .ok st' ∧
      scanLine (n + before.length) st' line = .error e := by
  induction ls generalizing n st with
  | nil => cases h
  | cons line ls ih =>
    cases hline : scanLine n st line with
    | error e' =>
      rw [scanFrom, hline] at h
      cases h
      exact ⟨[], line, ls, st, rfl, rfl, hline⟩
    | ok st' =>
      rw [scanFrom, hline] at h
      obtain ⟨before, line', after, st'', rfl, hbefore, hline'⟩ := ih h
      refine ⟨line :: before, line', after, st'', rfl, ?_, ?_⟩
      · rw [scanFrom, hline]
        exact hbefore
      · rw [List.length_cons, Nat.add_comm before.length, ← Nat.add_assoc]
        exact hline'

/-! ### Faults of the first pass -/

theorem collect_append (labels : Labels) (count : Nat) (entries later : List Entry) :
    labels.collect count (entries ++ later) = (do
      let table ← labels.collect count entries
      table.collect (count + entries.countP fun entry => entry.item.defines?.isNone) later) := by
  induction entries generalizing labels count with
  | nil => rfl
  | cons entry entries ih =>
    obtain ⟨k, name | ⟨opcode, operand⟩⟩ := entry
    · rw [List.cons_append, Labels.collect, Labels.collect]
      split
      · rfl
      · rw [ih]
        rfl
    · rw [List.cons_append, Labels.collect, Labels.collect, ih, List.countP_cons_of_pos rfl,
        Nat.add_assoc, Nat.add_comm 1]

/-- A label that is defined again is refused on its line. -/
theorem collect_eq_error {entries : List Entry} (h : labels.collect count entries = .error e) :
    ∃ entry ∈ entries, ∃ name, e = ⟨entry.line, .duplicateLabel name⟩ := by
  induction entries generalizing labels count with
  | nil => cases h
  | cons entry entries ih =>
    have hrest {labels : Labels} {count : Nat} (h : labels.collect count entries = .error e) :
        ∃ x ∈ entry :: entries, ∃ name, e = ⟨x.line, .duplicateLabel name⟩ := by
      obtain ⟨x, hx, hname⟩ := ih h
      exact ⟨x, List.mem_cons_of_mem _ hx, hname⟩
    obtain ⟨k, name | ⟨opcode, operand⟩⟩ := entry
    · rw [Labels.collect] at h
      split at h
      · cases h
        exact ⟨_, List.mem_cons_self, _, rfl⟩
      · exact hrest h
    · exact hrest h

/-- A fault of the first pass is no reference to a label. -/
def Fault.Scanned (f : Fault) : Prop := ∀ name, f ≠ .undefinedLabel name

theorem scanned_of_readWord {opcode : Opcode} {read? : Word → Option (Operand Target)}
    {ws : List Word} {f : Fault} (h : readWord opcode read? ws = .error f) : Fault.Scanned f := by
  unfold readWord at h
  split at h
  · cases h
    simp [Fault.Scanned]
  · split at h
    · cases h
    · cases h
      simp [Fault.Scanned]

theorem scanned_of_readOperand {opcode : Opcode} {ws : List Word} {f : Fault}
    (h : readOperand opcode ws = .error f) : Fault.Scanned f := by
  unfold readOperand at h
  split at h
  · cases h
  · exact scanned_of_readWord h
  · exact scanned_of_readWord h
  · exact scanned_of_readWord h
  · split at h
    · cases h
      simp [Fault.Scanned]
    · cases h

theorem scanned_of_read {w : Word} {ws : List Word} {f : Fault} (h : Item.read w ws = .error f) :
    Fault.Scanned f := by
  unfold Item.read at h
  split at h
  · split at h
    · cases h
    · cases h
      simp [Fault.Scanned]
  · split at h
    · cases h
      simp [Fault.Scanned]
    · split at h
      · rename_i hoperand
        cases h
        exact scanned_of_readOperand hoperand
      · cases h

theorem scanned_of_scanWords {ws : List Word} {f : Fault} (h : (scanWords ws).2 = some f) :
    Fault.Scanned f := by
  fun_induction scanWords ws with
  | case1 => cases h
  | case2 w ws f' hread =>
    cases h
    exact scanned_of_read hread
  | case3 w ws item rest hread r ih => exact ih h

/-- What is wrong with a line is found on that line. -/
theorem scanLine_eq_error {st : Progress} (h : scanLine n st line = .error e) :
    e.line = n ∧ Fault.Scanned e.fault := by
  unfold scanLine at h
  simp only at h
  cases hcollect : st.1.collect st.2 ((scanWords (lineWords line)).1.map (⟨n, ·⟩)) with
  | error e' =>
    rw [hcollect] at h
    cases h
    obtain ⟨entry, hentry, name, rfl⟩ := collect_eq_error hcollect
    obtain ⟨item, -, rfl⟩ := List.mem_map.mp hentry
    exact ⟨rfl, by simp [Fault.Scanned]⟩
  | ok table =>
    rw [hcollect] at h
    cases hfault : (scanWords (lineWords line)).2 with
    | none =>
      rw [hfault] at h
      cases h
    | some f =>
      rw [hfault] at h
      cases h
      exact ⟨rfl, scanned_of_scanWords hfault⟩

/-- The labels of all entries are collected as the lines are gone through. -/
theorem scanFrom_eq (n : Nat) (labels : Labels) (count : Nat) (ls : List (List Char)) :
    scanFrom n (labels, count) ls = (do
      let r := scanLines n ls
      let table ← labels.collect count r.1
      match r.2 with
      | some e => throw e
      | none => return (table, count + r.1.countP fun entry => entry.item.defines?.isNone)) := by
  induction ls generalizing n labels count with
  | nil => rfl
  | cons line ls ih =>
    rw [scanFrom, scanLine, scanLines]
    cases hscan : scanWords (lineWords line) with
    | mk items fault =>
      cases fault with
      | some f =>
        simp only
        cases labels.collect count (items.map (⟨n, ·⟩)) <;> rfl
      | none =>
        have hcount : (items.map (Entry.mk n)).countP (fun entry => entry.item.defines?.isNone) =
            items.countP fun item => item.defines?.isNone := List.countP_map
        simp only [collect_append, List.countP_append, hcount]
        cases labels.collect count (items.map (⟨n, ·⟩)) with
        | error e => rfl
        | ok table =>
          change scanFrom (n + 1) (table, _) ls = _
          rw [ih]
          simp only [Nat.add_assoc]
          rfl

/-! ### The second pass -/

/-- The targets of an item. -/
def Item.targets : Item → List Target
  | .label _ => []
  | .instruction _ operand => operand.targets

/-- The targets that the entries write, each with its line. -/
def writtenTargets (entries : List Entry) : List (Nat × Target) :=
  entries.flatMap fun entry => entry.item.targets.map (entry.line, ·)

/-- The first target that cannot be looked up decides. -/
theorem failure?_resolve (labels : Labels) (entries : List Entry) :
    failure? (resolve labels entries) =
      (writtenTargets entries).findSome? fun x => failure? (x.2.resolve labels x.1) := by
  unfold resolve writtenTargets
  induction entries with
  | nil => rfl
  | cons entry entries ih =>
    obtain ⟨k, name | ⟨opcode, operand⟩⟩ := entry
    · exact ih
    · have hentry : (Entry.mk k (.instruction opcode operand) :: entries).filterMap
          (Entry.resolve? labels) =
          Instruction.mk opcode <$> operand.mapTargets (Target.resolve labels k) ::
            entries.filterMap (Entry.resolve? labels) := rfl
      rw [failure?_mapM] at ih ⊢
      rw [hentry, List.findSome?_cons, id_eq, failure?_map, Operand.failure?_mapTargets, ih,
        List.flatMap_cons, List.findSome?_append, List.findSome?_map]
      have htargets : ((Item.instruction opcode operand).targets.findSome?
          ((fun x => failure? (x.2.resolve labels x.1)) ∘ (k, ·))) =
          operand.targets.findSome? fun t => failure? (t.resolve labels k) := rfl
      rw [htargets]
      cases operand.targets.findSome? (fun t => failure? (t.resolve labels k)) <;> rfl

section Lookup

variable {names : List Word} {place : Word → Nat}
  (hlabels : ∀ name, labels.lookup name = if name ∈ names then some (place name) else none)
include hlabels

/-- A target cannot be looked up when it is a label that is not among the names. -/
theorem failure?_resolve_target (t : Target) (k : Nat) : failure? (t.resolve labels k) =
    match t with
    | .index _ => none
    | .label name =>
      if name ∈ names then none else some ⟨k, .undefinedLabel (String.ofList name)⟩ := by
  cases t with
  | index i => rfl
  | label name =>
    rw [Target.resolve, hlabels]
    by_cases h : name ∈ names <;> simp [h, failure?]

theorem failure?_resolve_target_eq_none_iff {t : Target} :
    failure? (t.resolve labels k) = none ↔ t.DefinedIn names := by
  rw [failure?_resolve_target hlabels]
  cases t <;> simp [Target.DefinedIn]

theorem failure?_resolve_target_eq_some_iff {t : Target} :
    failure? (t.resolve labels k) = some e ↔
      ∃ name, t = .label name ∧ name ∉ names ∧
        e = ⟨k, .undefinedLabel (String.ofList name)⟩ := by
  rw [failure?_resolve_target hlabels]
  cases t <;> simp [eq_comm]

/-- The references are looked up in the order in which they are written. -/
theorem resolve_eq_error_iff {entries : List Entry} : resolve labels entries = .error e ↔
    ∃ name, e.fault = .undefinedLabel (String.ofList name) ∧ name ∉ names ∧
      ∃ before after, writtenTargets entries = before ++ (e.line, .label name) :: after ∧
        ∀ x ∈ before, x.2.DefinedIn names := by
  rw [← failure?_eq_some_iff, failure?_resolve, List.findSome?_eq_some_iff]
  simp only [failure?_resolve_target_eq_some_iff hlabels,
    failure?_resolve_target_eq_none_iff hlabels]
  constructor
  · rintro ⟨before, ⟨k, t⟩, after, hsplit, ⟨name, rfl, hname, rfl⟩, hbefore⟩
    exact ⟨name, rfl, hname, before, after, hsplit, hbefore⟩
  · rintro ⟨name, hfault, hname, before, after, hsplit, hbefore⟩
    obtain ⟨k, f⟩ := e
    obtain rfl : f = _ := hfault
    exact ⟨before, _, after, hsplit, ⟨name, rfl, hname, rfl⟩, hbefore⟩

end Lookup

/-! ### Whole texts -/

/-- The first pass comes to the end of the text, with these items on its lines and with this table
of labels. -/
structure Scans (source : String) (parts : List (List Item)) (table : Labels) : Prop where
  lines : List.Forall₂ Line parts ((Text.lines source.toList).map lineWords)
  collected : Labels.collect [] 0 (numbered 1 parts) = .ok table

/-- The first pass over a whole text. -/
abbrev scanned (source : String) : Except AssemblyError Progress :=
  scanFrom 1 ([], 0) (Text.lines source.toList)

theorem scanned_eq_ok_iff : (∃ count, scanned source = .ok (table, count)) ↔
    ∃ parts, Scans source parts table := by
  rw [scanned, scanFrom_eq]
  constructor
  · rintro ⟨count, h⟩
    cases hscan : scanLines 1 (Text.lines source.toList) with
    | mk entries fault =>
      rw [hscan] at h
      cases hcollect : Labels.collect [] 0 entries with
      | error e =>
        simp only [hcollect] at h
        cases h
      | ok table' =>
        simp only [hcollect] at h
        cases fault with
        | some e => cases h
        | none =>
          cases h
          obtain ⟨parts, hparts, rfl⟩ := scanLines_eq_iff_numbered.mp hscan
          exact ⟨parts, hparts, hcollect⟩
  · rintro ⟨parts, hparts, hcollect⟩
    rw [scanLines_eq_iff_numbered.mpr ⟨parts, hparts, rfl⟩]
    simp only [hcollect]
    exact ⟨_, rfl⟩

/-- Behind the first pass there is only the second. -/
theorem assemble_of_scans (h : Scans source parts table) :
    assemble source = List.toArray <$> resolve table (numbered 1 parts) := by
  unfold assemble scan
  rw [scanLines_eq_iff_numbered.mpr ⟨parts, h.lines, rfl⟩]
  simp only [h.collected]
  rfl

theorem assemble_of_scanned_error (h : scanned source = .error e) :
    assemble source = .error e := by
  rw [scanned, scanFrom_eq] at h
  unfold assemble scan
  cases hscan : scanLines 1 (Text.lines source.toList) with
  | mk entries fault =>
    rw [hscan] at h
    cases hcollect : Labels.collect [] 0 entries with
    | error e' =>
      simp only [hcollect] at h ⊢
      cases h
      rfl
    | ok table =>
      simp only [hcollect] at h ⊢
      cases fault with
      | some e' =>
        cases h
        rfl
      | none => cases h

/-- A fault of the first pass decides on the spot, and otherwise the second pass is made. -/
theorem scans_or_scanned_error (source : String) :
    (∃ parts table, Scans source parts table) ∨ ∃ e, scanned source = .error e := by
  cases h : scanned source with
  | error e => exact .inr ⟨e, rfl⟩
  | ok st =>
    obtain ⟨parts, hscans⟩ := scanned_eq_ok_iff.mp ⟨st.2, h⟩
    exact .inl ⟨parts, st.1, hscans⟩

theorem scanned_of_scanned_error (h : scanned source = .error e) : Fault.Scanned e.fault := by
  obtain ⟨before, line, after, st, -, -, hline⟩ := exists_faulty_line h
  exact (scanLine_eq_error hline).2

/-- The lines write items and define no label twice; this label, to which an instruction on this
line refers, is not defined, and all labels that are referred to before are. -/
structure FirstUndefined (source : String) (n : Nat) (name : Word) (parts : List (List Item)) :
    Prop where
  lines : List.Forall₂ Line parts ((Text.lines source.toList).map lineWords)
  nodup : (definedNames parts.flatten).Nodup
  undefined : name ∉ definedNames parts.flatten
  first : ∃ before after,
    writtenTargets (numbered 1 parts) = before ++ (n, .label name) :: after ∧
      ∀ x ∈ before, x.2.DefinedIn (definedNames parts.flatten)

theorem Scans.assemble_eq_error_iff (h : Scans source parts table) :
    assemble source = .error e ↔
      ∃ name, e.fault = .undefinedLabel (String.ofList name) ∧
        FirstUndefined source e.line name parts := by
  have herror : assemble source = .error e ↔ resolve table (numbered 1 parts) = .error e := by
    rw [assemble_of_scans h]
    cases resolve table (numbered 1 parts) <;> simp
  have hnodup := (exists_collect_iff.mp ⟨table, h.collected⟩).1
  rw [herror, resolve_eq_error_iff (lookup_table h.collected)]
  rw [map_item_numbered] at hnodup ⊢
  constructor
  · rintro ⟨name, hfault, hname, hfirst⟩
    exact ⟨name, hfault, h.lines, hnodup, hname, hfirst⟩
  · rintro ⟨name, hfault, hundefined⟩
    exact ⟨name, hfault, hundefined.undefined, hundefined.first⟩

/-- The text assembles, or would if all labels were defined. -/
def Passes (source : String) : Prop :=
  (∃ code, assemble source = .ok code) ∨
    ∃ line name, assemble source = .error ⟨line, .undefinedLabel name⟩

theorem Scans.passes (h : Scans source parts table) : Passes source := by
  cases hassemble : assemble source with
  | ok code => exact .inl ⟨code, hassemble⟩
  | error e =>
    obtain ⟨name, hfault, -⟩ := h.assemble_eq_error_iff.mp hassemble
    refine .inr ⟨e.line, String.ofList name, ?_⟩
    rw [hassemble, ← hfault]

/-! ### Main theorem -/

/-- What the first pass finds depends on the lines up to there, and only on them. -/
theorem scanned_error_is_local (h : scanned source = .error e) :
    (1 ≤ e.line ∧ e.line ≤ (Text.lines source.toList).length) ∧
      (∀ source', (Text.lines source'.toList).take e.line =
          (Text.lines source.toList).take e.line → scanned source' = .error e) ∧
        ∀ source', Text.lines source'.toList = (Text.lines source.toList).take (e.line - 1) →
          ∃ st, scanned source' = .ok st := by
  obtain ⟨before, line, after, st, hlines, hbefore, hline⟩ := exists_faulty_line h
  have hnumber : e.line = 1 + before.length := (scanLine_eq_error hline).1
  have htake : (Text.lines source.toList).take e.line = before ++ [line] := by
    rw [hlines, List.append_cons, hnumber, Nat.add_comm]
    exact List.take_left' List.length_append
  refine ⟨?_, ?_, ?_⟩
  · rw [hlines, hnumber]
    simp
    omega
  · intro source' hsame
    have hsplit := List.take_append_drop e.line (Text.lines source'.toList)
    rw [hsame, htake, List.append_assoc] at hsplit
    rw [scanned, ← hsplit, scanFrom_append, hbefore]
    show scanFrom (1 + before.length) st (line :: _) = .error e
    rw [scanFrom, hline]
    rfl
  · intro source' hprefix
    rw [hlines, hnumber, Nat.add_sub_cancel_left, List.take_left' rfl] at hprefix
    refine ⟨st, ?_⟩
    rw [scanned, hprefix]
    exact hbefore

/-- The lines of entries are counted from the first one. -/
theorem line_of_mem_numbered {entry : Entry} (h : entry ∈ numbered n parts) :
    n ≤ entry.line ∧ entry.line < n + parts.length := by
  induction parts generalizing n with
  | nil => cases h
  | cons part parts ih =>
    rw [numbered, List.mem_append] at h
    rw [List.length_cons]
    rcases h with h | h
    · obtain ⟨item, -, rfl⟩ := List.mem_map.mp h
      show n ≤ n ∧ n < n + (parts.length + 1)
      omega
    · have hline := ih h
      omega

theorem FirstUndefined.line_le {name : Word} (h : FirstUndefined source n name parts) :
    1 ≤ n ∧ n ≤ (Text.lines source.toList).length := by
  obtain ⟨before, after, hsplit, -⟩ := h.first
  have hmem : (n, Target.label name) ∈ writtenTargets (numbered 1 parts) := by
    rw [hsplit]
    simp
  obtain ⟨entry, hentry, htarget⟩ := List.mem_flatMap.mp hmem
  obtain ⟨t, -, ht⟩ := List.mem_map.mp htarget
  obtain rfl : entry.line = n := congrArg Prod.fst ht
  have hlength := h.lines.length_eq
  rw [List.length_map] at hlength
  have hline := line_of_mem_numbered hentry
  omega

/-- **Faults are found on the spot, except for labels that are defined nowhere.**  What is wrong
with a line, or is a second definition, is reported for every text that starts with the same lines
up to there, and the lines before pass.  A label that is defined nowhere is reported only when
nothing else is wrong anywhere, and on the line of the first reference that leads nowhere. -/
theorem faults_are_local (h : assemble source = .error e) :
    (1 ≤ e.line ∧ e.line ≤ (Text.lines source.toList).length) ∧
      ((∀ name, e.fault ≠ .undefinedLabel name) →
        (∀ source', (Text.lines source'.toList).take e.line =
            (Text.lines source.toList).take e.line → assemble source' = .error e) ∧
          ∀ source', Text.lines source'.toList =
            (Text.lines source.toList).take (e.line - 1) → Passes source') ∧
        ∀ name, e.fault = .undefinedLabel name →
          ∃ parts, FirstUndefined source e.line name.toList parts := by
  rcases scans_or_scanned_error source with ⟨parts, table, hscans⟩ | ⟨e', hscanned⟩
  · obtain ⟨name, hfault, hundefined⟩ := hscans.assemble_eq_error_iff.mp h
    refine ⟨hundefined.line_le, fun hother => absurd hfault (hother _), ?_⟩
    intro name' hfault'
    rw [hfault] at hfault'
    cases hfault'
    rw [String.toList_ofList]
    exact ⟨parts, hundefined⟩
  · obtain rfl : e' = e := by
      rw [assemble_of_scanned_error hscanned] at h
      exact Except.error.inj h
    obtain ⟨hline, hlater, hbefore⟩ := scanned_error_is_local hscanned
    refine ⟨hline, fun _ => ⟨?_, ?_⟩, fun name hfault => ?_⟩
    · exact fun source' hsame => assemble_of_scanned_error (hlater source' hsame)
    · intro source' hprefix
      obtain ⟨st, hst⟩ := hbefore source' hprefix
      obtain ⟨parts, hscans⟩ := scanned_eq_ok_iff.mp ⟨st.2, hst⟩
      exact hscans.passes
    · exact absurd hfault (scanned_of_scanned_error hscanned name)

/-- A word that is no mnemonic hides an undefined label on an earlier line, whatever follows; of
two undefined labels the first one is reported. -/
theorem faults_are_local_unknownWord :
    assemble "RJUMP @end\nLOAD 1\nSTOP" = .error ⟨2, .unknownMnemonic "LOAD"⟩ ∧
      assemble "RJUMP @end\nLOAD 1\n; more\nend: STOP" = .error ⟨2, .unknownMnemonic "LOAD"⟩ ∧
        Passes "RJUMP @end\n" ∧
          ∃ parts, FirstUndefined "\ntop: RJUMPV @top @end\nRJUMP @far" 2 "end".toList parts := by
  have hword : assemble "RJUMP @end\nLOAD 1\nSTOP" = .error ⟨2, .unknownMnemonic "LOAD"⟩ := by
    decide +kernel
  have hlabel : assemble "\ntop: RJUMPV @top @end\nRJUMP @far" =
      .error ⟨2, .undefinedLabel "end"⟩ := by
    decide +kernel
  obtain ⟨hlater, hbefore⟩ := (faults_are_local hword).2.1 nofun
  exact ⟨hword, hlater _ (by decide +kernel), hbefore _ (by decide +kernel),
    (faults_are_local hlabel).2.2 _ rfl⟩

end Assembly

end EofVerifier
