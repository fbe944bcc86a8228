import EofVerifier.Proofs.PathComponents

/-! # What the search for suite files finds

A tree is `Entry.WellNamed` when the entries of each directory have names, and no two of them the
same one.  `Entry.At` relates an entry to what lies at or below it, by the names that lead there.
The search goes through a directory by name and knows nothing of paths as a whole; still it finds
exactly the files at or below the start that have the extension (`Entry.mem_suiteFiles_iff`), and
finds them in the order of their components (`Entry.pairwise_suiteFiles`).  All that is found under
one name has this name as the component behind the path of the directory, so of two entries the
one with the lesser name decides before what lies below is compared.  This is not the order of the
paths as texts, in which a slash counts as a character. -/

namespace EofVerifier.Files

/-- The name ends in this extension: it is what follows the last dot, and something stands in
front of the dot. -/
def HasExtension (name ext : String) : Prop :=
  ∃ stem, stem ≠ "" ∧ name = stem ++ "." ++ ext ∧ '.' ∉ ext.toList

theorem isSuiteName_iff {name : String} : isSuiteName name = true ↔ HasExtension name "json" := by
  unfold isSuiteName HasExtension
  rw [Bool.and_eq_true, endsWith_iff, decide_eq_true_iff]
  have hdot : "." ++ "json" = ".json" := rfl
  constructor
  · rintro ⟨⟨stem, rfl⟩, hne⟩
    refine ⟨stem, ?_, by rw [String.append_assoc, hdot], by decide⟩
    rintro rfl
    exact hne String.empty_append
  · rintro ⟨stem, hstem, rfl, -⟩
    rw [String.append_assoc, hdot]
    exact ⟨⟨stem, rfl⟩, by simpa using hstem⟩

/-- A name that is nothing but a dot and what follows it has no extension. -/
example : isSuiteName "..json" = true ∧ isSuiteName ".json" = false := by decide +kernel

namespace Entry

variable {path : String} {entries : List (String × Entry)} {above : List Entry}
  {root here e e' : Entry} {f : Found}

/-! ### Trees -/

/-- A tree as a file system holds it: what a directory lists has names, and no two the same. -/
inductive WellNamed : Entry → Prop
  | file (content : ByteArray) : WellNamed (file content)
  | directory {entries : List (String × Entry)} :
      (entries.map (·.1)).Nodup → (∀ x ∈ entries, IsName x.1) → (∀ x ∈ entries, WellNamed x.2) →
      WellNamed (directory entries)

/-- What lies at or below an entry, where the names lead from one directory into the next. -/
inductive At : Entry → List String → Entry → Prop
  | here (e : Entry) : At e [] e
  | inside {entries : List (String × Entry)} {name : String} {child e : Entry}
      {names : List String} :
      (name, child) ∈ entries → At child names e → At (directory entries) (name :: names) e

theorem mem_of_lookup {name : String} {child : Entry} (h : entries.lookup name = some child) :
    (name, child) ∈ entries := by
  obtain ⟨before, after, rfl, -⟩ := List.lookup_eq_some_iff.mp h
  simp

/-- Where no name is listed twice, every entry is looked up by its name. -/
theorem lookup_of_nodup {name : String} {child : Entry} (hnodup : (entries.map (·.1)).Nodup)
    (h : (name, child) ∈ entries) : entries.lookup name = some child := by
  obtain ⟨before, after, rfl⟩ := List.append_of_mem h
  refine List.lookup_eq_some_iff.mpr ⟨before, after, rfl, fun x hx => ?_⟩
  rw [List.map_append, List.nodup_append] at hnodup
  rw [bne_iff_ne]
  exact (hnodup.2.2 x.1 (List.mem_map_of_mem hx) name (by simp)).symm

theorem WellNamed.follow {steps : List String} (habove : ∀ e ∈ above, WellNamed e)
    (hhere : WellNamed here) (h : Entry.follow above here steps = some e) : WellNamed e := by
  induction steps generalizing above here with
  | nil =>
    rw [follow_nil] at h
    cases h
    exact hhere
  | cons step steps ih =>
    cases hhere with
    | file content =>
      rw [follow_file_cons] at h
      cases h
    | @directory entries hnodup hnames hall =>
      have hhere := WellNamed.directory hnodup hnames hall
      rw [follow_cons] at h
      split_ifs at h
      · exact ih habove hhere h
      · cases above with
        | nil => cases h
        | cons parent above =>
          obtain ⟨hparent, habove⟩ := List.forall_mem_cons.mp habove
          exact ih habove hparent h
      · cases hl : entries.lookup step with
        | none =>
          rw [hl] at h
          cases h
        | some child =>
          rw [hl] at h
          exact ih (List.forall_mem_cons.mpr ⟨hhere, habove⟩) (hall _ (mem_of_lookup hl)) h

/-- What a path leads to in a well named tree is well named. -/
theorem WellNamed.find? (hroot : root.WellNamed) (h : root.find? path = some e) : WellNamed e := by
  unfold Entry.find? at h
  split at h
  · cases h
  · exact WellNamed.follow (List.forall_mem_nil _) hroot h

theorem at_file_iff {content : ByteArray} {names : List String} :
    (file content).At names e ↔ names = [] ∧ e = file content := by
  constructor
  · intro h
    cases h
    exact ⟨rfl, rfl⟩
  · rintro ⟨rfl, rfl⟩
    exact .here _

theorem At.isName {names : List String} (h : e.At names e') (he : e.WellNamed) :
    ∀ name ∈ names, IsName name := by
  induction h with
  | here e => exact List.forall_mem_nil _
  | inside hmem _ ih =>
    cases he with
    | directory _ hnames hall => exact List.forall_mem_cons.mpr ⟨hnames _ hmem, ih (hall _ hmem)⟩

/-- The path made of the names leads to what lies there. -/
theorem At.find? {names : List String} (h : e.At names e') (he : e.WellNamed)
    (hpath : root.find? path = some e) : root.find? (names.foldl child path) = some e' := by
  induction h generalizing path with
  | here e => exact hpath
  | inside hmem _ ih =>
    cases he with
    | directory hnodup hnames hall =>
      apply ih (hall _ hmem)
      rw [find?_child hpath (hnames _ hmem)]
      exact lookup_of_nodup hnodup hmem

/-! ### One directory -/

/-- The entries of a directory in the order of their names, each with what is found there. -/
def byName (path : String) (entries : List (String × Entry)) : List (String × List Found) :=
  (entries.map fun x => (x.1, x.2.suiteFiles (child path x.1))).mergeSort fun a b => a.1 ≤ b.1

theorem suiteFilesByName_eq_map (path : String) (entries : List (String × Entry)) :
    suiteFilesByName path entries =
      entries.map fun x => (x.1, x.2.suiteFiles (child path x.1)) := by
  induction entries with
  | nil => rw [suiteFilesByName, List.map_nil]
  | cons x entries ih => rw [suiteFilesByName, ih, List.map_cons]

theorem suiteFiles_directory :
    (directory entries).suiteFiles path = (byName path entries).flatMap (·.2) := by
  rw [suiteFiles, suiteFilesByName_eq_map]
  rfl

theorem mem_byName {a : String × List Found} : a ∈ byName path entries ↔
    ∃ x ∈ entries, (x.1, x.2.suiteFiles (child path x.1)) = a := by
  rw [byName, List.mem_mergeSort, List.mem_map]

theorem mem_suiteFiles_directory : f ∈ (directory entries).suiteFiles path ↔
    ∃ x ∈ entries, f ∈ x.2.suiteFiles (child path x.1) := by
  rw [suiteFiles_directory]
  simp only [List.mem_flatMap, mem_byName, exists_exists_and_eq_and]

theorem pairwise_byName (path : String) (h : (entries.map (·.1)).Nodup) :
    (byName path entries).Pairwise fun a b => a.1 < b.1 := by
  let found := entries.map fun x => (x.1, x.2.suiteFiles (child path x.1))
  have hsorted : (byName path entries).Pairwise fun a b => a.1 ≤ b.1 :=
    List.pairwise_mergeSort' (Order.Preimage Prod.fst (· ≤ ·)) found
  have hnames : ((byName path entries).map (·.1)).Nodup := by
    have hperm := (List.mergeSort_perm found fun a b => a.1 ≤ b.1).map (·.1)
    rw [List.map_map] at hperm
    exact hperm.nodup_iff.mpr h
  exact hsorted.imp₂ (fun _ _ hle hne => lt_of_le_of_ne hle hne) (List.pairwise_map.mp hnames)

/-! ### The whole tree -/

/-- What is found is what lies at or below the entry as a file with the extension. -/
theorem mem_suiteFiles_iff (h : e.WellNamed) : f ∈ e.suiteFiles path ↔
    ∃ names, e.At names (file f.content) ∧ f.path = names.foldl child path ∧
      HasExtension (names.getLastD (lastStep path)) "json" := by
  induction h generalizing path with
  | file content =>
    simp only [at_file_iff, suiteFiles, ← isSuiteName_iff]
    constructor
    · intro hf
      split_ifs at hf with hname
      · rw [List.mem_singleton.mp hf]
        exact ⟨[], ⟨rfl, rfl⟩, rfl, hname⟩
      · cases hf
    · rintro ⟨names, ⟨rfl, hcontent⟩, hpath, hname⟩
      rw [List.getLastD_nil] at hname
      rw [if_pos hname, List.mem_singleton]
      obtain ⟨path', content'⟩ := f
      cases hcontent
      exact congrArg (Found.mk · content') hpath
  | @directory entries _ hnames hall ih =>
    rw [mem_suiteFiles_directory]
    constructor
    · rintro ⟨x, hx, hf⟩
      obtain ⟨names, hat, hpath, hext⟩ := (ih x hx).mp hf
      rw [lastStep_child path (hnames x hx), ← List.getLastD_cons] at hext
      exact ⟨x.1 :: names, .inside hx hat, hpath, hext⟩
    · rintro ⟨names, hat, hpath, hext⟩
      cases hat with
      | @inside _ name child' _ names hmem hat =>
        have hname : IsName name := hnames _ hmem
        rw [List.getLastD_cons, ← lastStep_child path hname] at hext
        exact ⟨(name, child'), hmem, (ih _ hmem).mpr ⟨names, hat, hpath, hext⟩⟩

theorem exists_components_eq (h : e.WellNamed) (hf : f ∈ e.suiteFiles path) :
    ∃ below, components f.path = components path ++ below := by
  obtain ⟨names, hat, hpath, -⟩ := (mem_suiteFiles_iff h).mp hf
  exact ⟨_, hpath ▸ components_foldl_child (hat.isName h) path⟩

/-- What is found under the lesser name comes first, whatever lies below. -/
theorem components_lt {x y : String × Entry} {g : Found} (hx : IsName x.1) (hy : IsName y.1)
    (hwx : x.2.WellNamed) (hwy : y.2.WellNamed) (hlt : x.1 < y.1)
    (hf : f ∈ x.2.suiteFiles (child path x.1)) (hg : g ∈ y.2.suiteFiles (child path y.1)) :
    components f.path < components g.path := by
  obtain ⟨below, hbelow⟩ := exists_components_eq hwx hf
  obtain ⟨below', hbelow'⟩ := exists_components_eq hwy hg
  rw [hbelow, hbelow', components_child path hx, components_child path hy, List.append_assoc,
    List.append_assoc]
  apply List.Lex.append_left
  exact .rel (Text.bytes_lt_iff.mpr hlt)

/-- The files are found in the order of their components. -/
theorem pairwise_suiteFiles (h : e.WellNamed) (path : String) :
    (e.suiteFiles path).Pairwise fun f g => components f.path < components g.path := by
  induction h generalizing path with
  | file content =>
    rw [suiteFiles]
    split_ifs
    · exact List.pairwise_singleton _ _
    · exact List.Pairwise.nil
  | @directory entries hnodup hnames hall ih =>
    rw [suiteFiles_directory, List.pairwise_flatMap]
    constructor
    · intro a ha
      obtain ⟨x, hx, rfl⟩ := mem_byName.mp ha
      exact ih x hx _
    · apply (pairwise_byName path hnodup).imp_of_mem
      intro a b ha hb hlt f hf g hg
      obtain ⟨x, hx, rfl⟩ := mem_byName.mp ha
      obtain ⟨y, hy, rfl⟩ := mem_byName.mp hb
      exact components_lt (hnames x hx) (hnames y hy) (hall x hx) (hall y hy) hlt hf hg

/-- **The search is complete, and its order is that of the paths.**  From any path into a tree it
finds exactly the files at or below this path whose own name has the extension, each under the path
that leads to it and with what lies there.  It finds them in the order of their components, so none
is found twice. -/
theorem suiteFiles_complete_in_order (hroot : root.WellNamed) (hpath : root.find? path = some e) :
    (∀ f : Found, f ∈ e.suiteFiles path ↔
      ∃ names, e.At names (file f.content) ∧ f.path = names.foldl child path ∧
        HasExtension (names.getLastD (lastStep path)) "json") ∧
    (∀ f ∈ e.suiteFiles path, root.find? f.path = some (file f.content)) ∧
    (e.suiteFiles path).Pairwise (fun f g => components f.path < components g.path) ∧
    ((e.suiteFiles path).map (·.path)).Nodup := by
  have he := hroot.find? hpath
  have hsorted := pairwise_suiteFiles he path
  refine ⟨fun f => mem_suiteFiles_iff he, fun f hf => ?_, hsorted, ?_⟩
  · obtain ⟨names, hat, hnames, -⟩ := (mem_suiteFiles_iff he).mp hf
    rw [hnames]
    exact hat.find? he hpath
  · apply List.pairwise_map.mpr
    apply hsorted.imp
    intro f g hlt heq
    rw [heq] at hlt
    exact List.lt_irrefl _ hlt

/-- A hidden directory, and beside it a file whose name starts as that of the directory does. -/
def hiddenPair : Entry :=
  directory [(".a.json", file .empty), (".a", directory [("x.json", file .empty)])]

/-- The file in the directory is found first, although its path is the greater text. -/
theorem suiteFiles_complete_in_order_hiddenPair :
    (directory [("t", hiddenPair)]).WellNamed ∧
    (directory [("t", hiddenPair)]).find? "t/" = some hiddenPair ∧
    ⟨"t/.a/x.json", .empty⟩ ∈ hiddenPair.suiteFiles "t/" ∧
    ⟨"t/.a.json", .empty⟩ ∈ hiddenPair.suiteFiles "t/" ∧
    (hiddenPair.suiteFiles "t/").Pairwise (fun f g => components f.path < components g.path) ∧
    components "t/.a/x.json" < components "t/.a.json" ∧ "t/.a.json" < "t/.a/x.json" := by
  have hinner : (directory [("x.json", file .empty)]).WellNamed :=
    .directory (by decide) (by decide) (by simpa using .file _)
  have hpair : hiddenPair.WellNamed :=
    .directory (by decide) (by decide) (by simpa using ⟨.file _, hinner⟩)
  have hroot : (directory [("t", hiddenPair)]).WellNamed :=
    .directory (by decide) (by decide) (by simpa using hpair)
  have hpath : (directory [("t", hiddenPair)]).find? "t/" = some hiddenPair := by cbv
  obtain ⟨hmem, -, hsorted, -⟩ := suiteFiles_complete_in_order hroot hpath
  have hfirst : hiddenPair.At [".a", "x.json"] (file .empty) :=
    .inside (.tail _ (.head _)) (.inside (.head _) (.here _))
  have hsecond : hiddenPair.At [".a.json"] (file .empty) := .inside (.head _) (.here _)
  refine ⟨hroot, hpath, ?_, ?_, hsorted, by decide +kernel, by decide⟩
  · exact (hmem _).mpr ⟨_, hfirst, by decide +kernel, isSuiteName_iff.mp (by decide +kernel)⟩
  · exact (hmem _).mpr ⟨_, hsecond, by decide +kernel, isSuiteName_iff.mp (by decide +kernel)⟩

end Entry

end EofVerifier.Files
