import EofVerifier.Files.Discovery
import EofVerifier.Proofs.ByteOrder
import EofVerifier.Proofs.WordLines

/-! # The components of a path

A path is a text, and what it leads to depends on its steps, the texts between its slashes.
Paths are compared by their `components`, which are the steps as bytes, without those that stay
where they are.

The path of an entry is made by putting its name behind the path of its directory, with a slash
between them unless one is there already (`child`).  Either way the name becomes one more
component (`components_child`) and the last step (`lastStep_child`), and the path leads to what
the directory holds under this name (`Entry.find?_child`), provided that the name is one that an
entry can have (`IsName`). -/

namespace EofVerifier.Files

variable {name path : String}

/-- What an entry of a directory can be called. -/
structure IsName (name : String) : Prop where
  nonempty : name ≠ ""
  ne_here : name ≠ "."
  ne_above : name ≠ ".."
  slash_notMem : '/' ∉ name.toList

instance : DecidablePred IsName := fun name =>
  decidable_of_iff (name ≠ "" ∧ name ≠ "." ∧ name ≠ ".." ∧ '/' ∉ name.toList)
    ⟨fun ⟨h1, h2, h3, h4⟩ => ⟨h1, h2, h3, h4⟩, fun ⟨h1, h2, h3, h4⟩ => ⟨h1, h2, h3, h4⟩⟩

/-- The components of a path, in the bytes that stand for them. -/
def components (path : String) : List (List UInt8) :=
  ((Entry.steps path).filter fun step => step ≠ "" ∧ step ≠ ".").map Text.bytes

/-! ### Steps -/

theorem endsWith_iff {text ending : String} :
    text.endsWith ending = true ↔ ∃ front, text = front ++ ending := by
  rw [← String.endsWith_toSlice, String.Slice.endsWith_string_iff, String.copy_toSlice]
  constructor
  · rintro ⟨front, h⟩
    exact ⟨String.ofList front, by simp [← String.toList_inj, ← h]⟩
  · rintro ⟨front, rfl⟩
    exact ⟨front.toList, by simp⟩

theorem IsName.steps_eq (h : IsName name) : Entry.steps name = [name] := by
  unfold Entry.steps
  rw [Text.pieces_of_notMem h.slash_notMem, List.map_singleton, String.ofList_toList]

theorem steps_append_slash (front rest : String) :
    Entry.steps (front ++ "/" ++ rest) = Entry.steps front ++ Entry.steps rest := by
  have htext : (front ++ "/" ++ rest).toList = front.toList ++ '/' :: rest.toList := by simp
  unfold Entry.steps
  rw [htext, Text.pieces_cut (by simp), List.map_append]

/-- A name is put behind the steps of the path, where an empty step at their end makes room
for it. -/
theorem exists_steps_child (path : String) (h : IsName name) :
    ∃ front, (Entry.steps path = front ∨ Entry.steps path = front ++ [""]) ∧
      Entry.steps (child path name) = front ++ [name] := by
  unfold child
  by_cases hend : path.endsWith "/" = true
  · obtain ⟨front, rfl⟩ := endsWith_iff.mp hend
    refine ⟨Entry.steps front, .inr ?_, ?_⟩
    · have hempty : Entry.steps "" = [""] := rfl
      have hsteps := steps_append_slash front ""
      rwa [String.append_empty, hempty] at hsteps
    · rw [if_pos hend, steps_append_slash, h.steps_eq]
  · refine ⟨Entry.steps path, .inl rfl, ?_⟩
    rw [if_neg hend, steps_append_slash, h.steps_eq]

theorem components_child (path : String) (h : IsName name) :
    components (child path name) = components path ++ [Text.bytes name] := by
  obtain ⟨front, hpath, hchild⟩ := exists_steps_child path h
  have hnonempty := h.nonempty
  have hhere := h.ne_here
  unfold components
  rw [hchild]
  rcases hpath with hpath | hpath <;> simp [hpath, hnonempty, hhere]

/-- Each of the names becomes one component. -/
theorem components_foldl_child {names : List String} (h : ∀ name ∈ names, IsName name)
    (path : String) :
    components (names.foldl child path) = components path ++ names.map Text.bytes := by
  induction names generalizing path with
  | nil => simp
  | cons name names ih =>
    obtain ⟨hname, hnames⟩ := List.forall_mem_cons.mp h
    rw [List.foldl_cons, ih hnames, components_child path hname]
    simp

theorem lastStep_child (path : String) (h : IsName name) : lastStep (child path name) = name := by
  obtain ⟨front, -, hchild⟩ := exists_steps_child path h
  unfold lastStep
  rw [hchild]
  simp

/-- The path of an entry starts as the path of its directory does. -/
theorem exists_child_eq (path name : String) : ∃ rest, child path name = path ++ rest := by
  unfold child
  split
  · exact ⟨name, rfl⟩
  · exact ⟨"/" ++ name, String.append_assoc ..⟩

/-- The path of an entry is relative when the path of its directory is. -/
theorem relative_child (h : ¬ (path = "" ∨ path.startsWith "/" = true)) (name : String) :
    ¬ (child path name = "" ∨ (child path name).startsWith "/" = true) := by
  obtain ⟨rest, hchild⟩ := exists_child_eq path name
  rw [hchild]
  simp only [String.startsWith_string_iff, ← String.toList_inj, String.toList_append] at h ⊢
  cases hpath : path.toList with
  | nil => exact absurd (.inl hpath) h
  | cons c cs =>
    rw [hpath] at h
    simpa using h

/-! ### Following a path -/

namespace Entry

variable {above : List Entry} {here e : Entry} {entries : List (String × Entry)}

theorem follow_nil (above : List Entry) (here : Entry) : follow above here [] = some here := by
  rw [follow.eq_def]

theorem follow_file_cons (above : List Entry) (content : ByteArray) (step : String)
    (steps : List String) : follow above (file content) (step :: steps) = none := by
  rw [follow.eq_def]
  rfl

theorem follow_cons (above : List Entry) (entries : List (String × Entry)) (step : String)
    (steps : List String) :
    follow above (directory entries) (step :: steps) =
      if step = "" ∨ step = "." then follow above (directory entries) steps
      else if step = ".." then
        match above with
        | [] => none
        | parent :: above => follow above parent steps
      else
        match entries.lookup step with
        | none => none
        | some child => follow (directory entries :: above) child steps := by
  rw [follow.eq_def]
  rfl

/-- More steps go on from where the first ones lead. -/
theorem follow_append (above : List Entry) (here : Entry) (front rest : List String) :
    follow above here front = none ∧ follow above here (front ++ rest) = none ∨
    ∃ above' e, follow above here front = some e ∧
      follow above here (front ++ rest) = follow above' e rest := by
  induction front generalizing above here with
  | nil => exact .inr ⟨above, here, follow_nil above here, rfl⟩
  | cons step front ih =>
    rw [List.cons_append]
    cases here with
    | file content => exact .inl ⟨follow_file_cons .., follow_file_cons ..⟩
    | directory entries =>
      rw [follow_cons, follow_cons]
      split_ifs
      · exact ih above _
      · cases above with
        | nil => exact .inl ⟨rfl, rfl⟩
        | cons parent above => exact ih above parent
      · cases entries.lookup step with
        | none => exact .inl ⟨rfl, rfl⟩
        | some child => exact ih _ child

/-- A name leads from a directory to what is listed under it. -/
theorem follow_name (above : List Entry) (entries : List (String × Entry)) (h : IsName name) :
    follow above (directory entries) [name] = entries.lookup name := by
  have hmoves : ¬ (name = "" ∨ name = ".") := by simp [h.nonempty, h.ne_here]
  rw [follow_cons, if_neg hmoves, if_neg h.ne_above]
  cases entries.lookup name with
  | none => rfl
  | some child => exact follow_nil _ child

/-- An empty step stays where it is. -/
theorem eq_of_follow_empty (h : follow above here [""] = some e) : here = e := by
  cases here with
  | file content =>
    rw [follow_file_cons] at h
    cases h
  | directory entries =>
    rw [follow_cons, if_pos (.inl rfl), follow_nil] at h
    exact Option.some.inj h

theorem find?_child {root : Entry} (hpath : root.find? path = some (directory entries))
    (hname : IsName name) : root.find? (child path name) = entries.lookup name := by
  unfold find? at hpath ⊢
  split at hpath
  · cases hpath
  · rename_i hrelative
    obtain ⟨front, hsteps, hchild⟩ := exists_steps_child path hname
    have hfront : follow [] root front = some (directory entries) := by
      rcases hsteps with hsteps | hsteps <;> rw [hsteps] at hpath
      · exact hpath
      · rcases follow_append [] root front [""] with ⟨-, hnone⟩ | ⟨above, e, he, happend⟩
        · rw [hnone] at hpath
          cases hpath
        · rw [happend] at hpath
          rw [he, eq_of_follow_empty hpath]
    rw [if_neg (relative_child hrelative name), hchild]
    rcases follow_append [] root front [name] with ⟨hnone, -⟩ | ⟨above, e, he, happend⟩
    · rw [hnone] at hfront
      cases hfront
    · rw [hfront] at he
      cases he
      rw [happend, follow_name above entries hname]

end Entry

end EofVerifier.Files
