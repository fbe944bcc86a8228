import EofVerifier.Json.Dictionary
import Mathlib.Data.List.Forall2
import Mathlib.Data.List.Perm.Basic

/-! # Members of JSON objects

What matters about the members of an object is the list of values that each key has
(`Value.valuesOf`).  A record is an object where every field has one value at most; its fields are
the same in any order of the members (`fields?_perm`), and members that are not fields can be added
where they are skipped (`fields?_skip`).  A dictionary is an object where every value of every key is
readable (`exists_dictionary?_iff`), and the last value of a key counts (`getElem?_dictionary?`). -/

namespace EofVerifier.Json.Value

variable {α β : Type} {names : List String} {extra : Extra} {ms ms' body further : List Member}
  {fs : List (Option Value)} {name key : String} {v : Value}

/-! ### The values of a key -/

/-- The values that a key has in an object, in their order. -/
def valuesOf (name : String) (ms : List Member) : List Value :=
  (ms.filter (·.1 = some name)).map Prod.snd

@[simp] theorem valuesOf_nil : valuesOf name [] = [] := rfl

theorem valuesOf_cons_self : valuesOf name ((some name, v) :: ms) = v :: valuesOf name ms := by
  simp [valuesOf]

theorem valuesOf_cons_of_ne {m : Member} (h : m.1 ≠ some name) :
    valuesOf name (m :: ms) = valuesOf name ms := by
  simp [valuesOf, h]

theorem mem_valuesOf : v ∈ valuesOf name ms ↔ (some name, v) ∈ ms := by
  simp [valuesOf]

theorem valuesOf_append : valuesOf name (ms ++ ms') = valuesOf name ms ++ valuesOf name ms' := by
  simp [valuesOf]

theorem valuesOf_perm (h : ms.Perm ms') : (valuesOf name ms).Perm (valuesOf name ms') :=
  (h.filter _).map _

theorem valuesOf_eq_nil (h : ∀ m ∈ ms, m.1 ≠ some name) : valuesOf name ms = [] := by
  rw [valuesOf, List.filter_eq_nil_iff.mpr (by simpa using h), List.map_nil]

/-- Where no key occurs twice, a key has one value. -/
theorem valuesOf_of_nodup (hkeys : (ms.map Prod.fst).Nodup) (h : (some name, v) ∈ ms) :
    valuesOf name ms = [v] := by
  induction ms with
  | nil => cases h
  | cons m ms ih =>
    rw [List.map_cons, List.nodup_cons] at hkeys
    obtain ⟨hnot, hkeys⟩ := hkeys
    obtain rfl | h := List.mem_cons.mp h
    · rw [valuesOf_cons_self, valuesOf_eq_nil]
      rintro m hm hkey
      exact hnot (List.mem_map.mpr ⟨m, hm, hkey⟩)
    · rw [valuesOf_cons_of_ne, ih hkeys h]
      rintro hkey
      exact hnot (List.mem_map.mpr ⟨_, h, hkey.symm⟩)

theorem lookup_eq_head?_valuesOf (name : String) (ms : List Member) :
    ms.lookup (some name) = (valuesOf name ms).head? := by
  induction ms with
  | nil => rfl
  | cons m ms ih =>
    obtain ⟨key, v⟩ := m
    by_cases hkey : key = some name
    · rw [hkey, List.lookup_cons_self, valuesOf_cons_self, List.head?_cons]
    · have hbeq : (some name == key) = false := beq_false_of_ne (Ne.symm hkey)
      rw [List.lookup_cons, hbeq, valuesOf_cons_of_ne hkey]
      exact ih

theorem countP_eq_length_valuesOf (name : String) (ms : List Member) :
    ms.countP (·.1 = some name) = (valuesOf name ms).length := by
  rw [List.countP_eq_length_filter, valuesOf, List.length_map]

/-! ### Records -/

/-- The value is an array. -/
def IsArray : Value → Prop
  | .array _ => True
  | _ => False

/-- Every key is a text, and names a field where no further members are allowed. -/
def HasKeys (names : List String) (extra : Extra) (ms : List Member) : Prop :=
  ∀ m ∈ ms, ∃ key, m.1 = some key ∧ (extra = .skipped ∨ key ∈ names)

theorem isRecord_iff : isRecord names extra ms = true ↔
    HasKeys names extra ms ∧ ∀ name ∈ names, (valuesOf name ms).length ≤ 1 := by
  have hkey (k : Option String) : k.isSome = true ∧ (extra = .skipped ∨ k ∈ names.map some) ↔
      ∃ key, k = some key ∧ (extra = .skipped ∨ key ∈ names) := by
    cases k <;> simp
  simp only [isRecord, List.all_eq_true, decide_eq_true_eq,
    countP_eq_length_valuesOf, hkey, HasKeys]

/-- The fields of a record that is written as an object. -/
theorem fields?_object_eq_some_iff : fields? names extra (.object ms) = some fs ↔
    HasKeys names extra ms ∧ (∀ name ∈ names, (valuesOf name ms).length ≤ 1) ∧
      fs = names.map fun name => (valuesOf name ms).head? := by
  simp only [fields?, lookup_eq_head?_valuesOf, Option.ite_none_right_eq_some, isRecord_iff,
    Option.some.injEq, and_assoc, eq_comm (a := fs)]

/-- Objects with the same values for the fields are the same record. -/
theorem fields?_congr (hkeys : HasKeys names extra ms ↔ HasKeys names extra ms')
    (hvalues : ∀ name ∈ names, (valuesOf name ms).Perm (valuesOf name ms')) :
    fields? names extra (.object ms) = fields? names extra (.object ms') := by
  have hlength : (∀ name ∈ names, (valuesOf name ms).length ≤ 1) ↔
      ∀ name ∈ names, (valuesOf name ms').length ≤ 1 :=
    forall₂_congr fun name hname => by rw [(hvalues name hname).length_eq]
  refine Option.ext fun fs => ?_
  rw [fields?_object_eq_some_iff, fields?_object_eq_some_iff, hkeys, ← hlength]
  refine and_congr_right fun _ => and_congr_right fun hle => ?_
  have hhead : (names.map fun name => (valuesOf name ms).head?) =
      names.map fun name => (valuesOf name ms').head? := by
    refine List.map_congr_left fun name hname => ?_
    -- Of at most one value there is only one order.
    have hperm := hvalues name hname
    match hvs : valuesOf name ms, hle name hname with
    | [], _ =>
      rw [hvs] at hperm
      rw [hperm.nil_eq]
    | [v], _ =>
      rw [hvs] at hperm
      rw [List.singleton_perm.mp hperm]
  rw [hhead]

/-- **The order of members does not matter in a record.** -/
theorem fields?_perm (h : ms.Perm ms') :
    fields? names extra (.object ms) = fields? names extra (.object ms') := by
  refine fields?_congr ?_ fun _ _ => valuesOf_perm h
  exact forall_congr' fun m => by rw [h.mem_iff]

/-- The keys are texts, and none of them names a field. -/
def Further (names : List String) (further : List Member) : Prop :=
  ∀ m ∈ further, ∃ key, m.1 = some key ∧ key ∉ names

/-- **Further members are skipped**, wherever they stand. -/
theorem fields?_skip (hfurther : Further names further) (h : ms.Perm (body ++ further)) :
    fields? names .skipped (.object ms) = fields? names .skipped (.object body) := by
  rw [fields?_perm h]
  refine fields?_congr ?_ fun name hname => ?_
  · have hkeys : HasKeys names .skipped further := fun m hm =>
      let ⟨key, hkey, _⟩ := hfurther m hm
      ⟨key, hkey, .inl rfl⟩
    exact ⟨fun h m hm => h m (List.mem_append_left _ hm),
      fun h => List.forall_mem_append.mpr ⟨h, hkeys⟩⟩
  · have hnil : valuesOf name further = [] := by
      refine valuesOf_eq_nil fun m hm hkey => ?_
      obtain ⟨key, hm, hnot⟩ := hfurther m hm
      rw [hm, Option.some.injEq] at hkey
      exact hnot (hkey ▸ hname)
    rw [valuesOf_append, hnil, List.append_nil]

/-! ### Dictionaries -/

theorem mapM_eq_some_iff_forall₂ {f : α → Option β} {l : List α} {r : List β} :
    l.mapM f = some r ↔ List.Forall₂ (fun a b => f a = some b) l r := by
  induction l generalizing r with
  | nil => simp [List.forall₂_nil_left_iff, eq_comm]
  | cons a l ih =>
    simp only [List.mapM_cons, Option.bind_eq_bind, Option.bind_eq_some_iff, ih, Option.pure_def,
      Option.some.injEq, List.forall₂_cons_left_iff]
    grind

/-- Each of the elements has its partner. -/
theorem exists_forall₂_iff {R : α → β → Prop} {l : List α} :
    (∃ r, List.Forall₂ R l r) ↔ ∀ a ∈ l, ∃ b, R a b := by
  induction l with
  | nil => exact ⟨fun _ => nofun, fun _ => ⟨[], .nil⟩⟩
  | cons a l ih =>
    rw [List.forall_mem_cons, ← ih]
    constructor
    · rintro ⟨_, _ | ⟨hab, hl⟩⟩
      exact ⟨⟨_, hab⟩, ⟨_, hl⟩⟩
    · rintro ⟨⟨b, hab⟩, ⟨r, hl⟩⟩
      exact ⟨b :: r, .cons hab hl⟩

theorem keyed?_eq_some_iff {read? : Value → Option α} {m : Member} {e : String × α} :
    keyed? read? m = some e ↔ m.1 = some e.1 ∧ read? m.2 = some e.2 := by
  obtain ⟨key, a⟩ := e
  simp only [keyed?, Option.bind_eq_bind, Option.bind_eq_some_iff, Option.pure_def,
    Option.some.injEq, Prod.mk.injEq]
  grind

theorem dictionary?_eq_some_iff {read? : Value → Option α} {t : Std.TreeMap String α compare} :
    dictionary? read? (.object ms) = some t ↔ ∃ es,
      List.Forall₂ (fun m e => m.1 = some e.1 ∧ read? m.2 = some e.2) ms es ∧
        t = Std.TreeMap.ofList es compare := by
  simp only [dictionary?, Option.map_eq_some_iff, mapM_eq_some_iff_forall₂, keyed?_eq_some_iff,
    eq_comm (a := t)]

/-- Entries are inserted one after another, each over the one before it with the same key. -/
theorem getElem?_insertMany {read? : Value → Option α} {es : List (String × α)}
    (h : List.Forall₂ (fun m e => m.1 = some e.1 ∧ read? m.2 = some e.2) ms es)
    (t : Std.TreeMap String α compare) (name : String) :
    (t.insertMany es)[name]? = ((valuesOf name ms).getLast?.bind read?).or t[name]? := by
  have hread : ∀ v ∈ valuesOf name ms, ∃ a, read? v = some a := by
    intro v hv
    obtain ⟨e, _, ha⟩ := exists_forall₂_iff.mp ⟨es, h⟩ _ (mem_valuesOf.mp hv)
    exact ⟨e.2, ha⟩
  -- What the later members leave of an entry is what the first one has put there.
  induction h generalizing t with
  | nil => simp
  | @cons m e ms es hm _ ih =>
    obtain ⟨key, a⟩ := e
    obtain ⟨k, v⟩ := m
    obtain ⟨rfl, ha⟩ := hm
    rw [Std.TreeMap.insertMany_cons]
    by_cases hkey : key = name
    · subst hkey
      rw [valuesOf_cons_self, List.forall_mem_cons] at hread
      rw [ih _ hread.2, Std.TreeMap.getElem?_insert, valuesOf_cons_self, List.getLast?_cons]
      cases hlast : (valuesOf key ms).getLast? with
      | none => simp [ha]
      | some w =>
        obtain ⟨b, hb⟩ := hread.2 w (List.mem_of_getLast? hlast)
        simp [hb]
    · rw [valuesOf_cons_of_ne (by simpa using hkey)] at hread ⊢
      rw [ih _ hread, Std.TreeMap.getElem?_insert]
      simp [hkey]

/-- **The last value of a key counts.** -/
theorem getElem?_dictionary? {read? : Value → Option α} {t : Std.TreeMap String α compare}
    (h : dictionary? read? (.object ms) = some t) (name : String) :
    t[name]? = (valuesOf name ms).getLast?.bind read? := by
  obtain ⟨es, hes, rfl⟩ := dictionary?_eq_some_iff.mp h
  rw [Std.TreeMap.ofList_eq_insertMany_empty, getElem?_insertMany hes]
  simp

/-- An object is a dictionary if its keys are texts and its values are readable. -/
theorem exists_dictionary?_iff {read? : Value → Option α} :
    (∃ t, dictionary? read? (.object ms) = some t) ↔
      (∀ m ∈ ms, ∃ key, m.1 = some key) ∧
        ∀ name, ∀ v ∈ valuesOf name ms, ∃ a, read? v = some a := by
  simp only [dictionary?_eq_some_iff, @exists_comm (Std.TreeMap String α compare),
    exists_and_left, exists_eq, and_true, exists_forall₂_iff]
  constructor
  · intro h
    refine ⟨fun m hm => ?_, fun name v hv => ?_⟩
    · obtain ⟨e, hkey, _⟩ := h m hm
      exact ⟨e.1, hkey⟩
    · obtain ⟨e, _, ha⟩ := h _ (mem_valuesOf.mp hv)
      exact ⟨e.2, ha⟩
  · rintro ⟨hkeys, hread⟩ ⟨k, v⟩ hm
    obtain ⟨key, rfl⟩ := hkeys _ hm
    obtain ⟨a, ha⟩ := hread key v (mem_valuesOf.mpr hm)
    exact ⟨(key, a), rfl, ha⟩

end EofVerifier.Json.Value
