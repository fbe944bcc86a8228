import EofVerifier.Proofs.JsonText
import EofVerifier.Proofs.SuiteOrder

/-! # The format of suite files

`Suite.Denotes` describes suite files from the inside out: signatures, expectations, cases, groups
and suites, each as an object with the members that it must and may have, and with what these
denote.  Strings are those that denote texts, and an integer is a number written as digits alone.
Signatures may have further members; the other records may not.  Where a dictionary has a name
twice, the last entry counts, but all of them must be right.

A record can also be written as an array of its fields.  Apart from that (`Suite.AsObjects`), and as
long as the descriptions of groups can be kept (`Suite.WithinLimits`), a text is read as a suite
exactly if it denotes one (`Suite.format_exact`). -/

namespace EofVerifier

open Json (Value Numeral Member)

/-! ### Values and fields -/

namespace Json.Value

variable {α β : Type} {read? : Value → Option α} {denotes : Value → α → Prop} {v : Value}
  {vs : List Value} {ms : List Member} {bound n : Nat}

/-- A number that is written as digits alone, and these digits write `n`. -/
def IsInteger (v : Value) (n : Nat) : Prop :=
  ∃ numeral : Numeral, v = .number numeral ∧ numeral.negative = false ∧ numeral.fraction = [] ∧
    numeral.exponent = [] ∧ Nat.ofDigitChars 10 numeral.integer 0 = n

theorem nat?_eq_some_iff : nat? bound v = some n ↔ IsInteger v n ∧ n ≤ bound := by
  cases v with
  | number numeral =>
    simp [nat?, Numeral.nat?, IsInteger, Option.filter_eq_some_iff, and_assoc]
  | _ => simp [nat?, IsInteger]

theorem byte?_eq_some_iff {b : UInt8} : byte? v = some b ↔ IsInteger v b.toNat := by
  rw [byte?, Option.map_eq_some_iff]
  constructor
  · rintro ⟨n, hn, rfl⟩
    obtain ⟨hv, hle⟩ := nat?_eq_some_iff.mp hn
    rwa [UInt8.toNat_ofNat_of_lt' (Nat.lt_succ_of_le hle)]
  · intro h
    exact ⟨b.toNat, nat?_eq_some_iff.mpr ⟨h, Nat.le_of_lt_succ b.toNat_lt⟩, UInt8.ofNat_toNat⟩

theorem word?_eq_some_iff {b : UInt16} : word? v = some b ↔ IsInteger v b.toNat := by
  rw [word?, Option.map_eq_some_iff]
  constructor
  · rintro ⟨n, hn, rfl⟩
    obtain ⟨hv, hle⟩ := nat?_eq_some_iff.mp hn
    rwa [UInt16.toNat_ofNat_of_lt' (Nat.lt_succ_of_le hle)]
  · intro h
    exact ⟨b.toNat, nat?_eq_some_iff.mpr ⟨h, Nat.le_of_lt_succ b.toNat_lt⟩, UInt16.ofNat_toNat⟩

theorem bool?_eq_some_iff {b : Bool} : bool? v = some b ↔ v = .bool b := by
  cases v <;> simp [bool?]

/-- A string that denotes this text. -/
def IsText (v : Value) (t : String) : Prop := v = .string (some t)

theorem text?_eq_some_iff {t : String} : text? v = some t ↔ IsText v t := by
  cases v <;> simp [text?, IsText]

/-- An array whose elements denote these things, in their order. -/
def IsList (denotes : Value → α → Prop) (v : Value) (l : List α) : Prop :=
  ∃ vs, v = .array vs ∧ List.Forall₂ denotes vs l

theorem list?_eq_some_iff {l : List α}
    (h : ∀ vs, v = .array vs → ∀ w ∈ vs, ∀ a, read? w = some a ↔ denotes w a) :
    list? read? v = some l ↔ IsList denotes v l := by
  cases v with
  | array vs =>
    have hvs := h vs rfl
    simp only [list?, mapM_eq_some_iff_forall₂, IsList, Value.array.injEq, exists_eq_left']
    constructor
    · intro hl
      exact ((List.forall₂_and_left vs l).mpr ⟨hvs, hl⟩).imp fun _ a h => (h.1 a).mp h.2
    · intro hl
      exact ((List.forall₂_and_left vs l).mpr ⟨hvs, hl⟩).imp fun _ a h => (h.1 a).mpr h.2
  | _ => simp [list?, IsList]

/-- The values of a member that may be missing or `null`, and what they denote. -/
inductive Optional (denotes : Value → α → Prop) : List Value → Option α → Prop
  | absent : Optional denotes [] none
  | null : Optional denotes [.null] none
  | given {v : Value} {a : α} : v ≠ .null → denotes v a → Optional denotes [v] (some a)

theorem Optional.length_le {a : Option α} (h : Optional denotes vs a) : vs.length ≤ 1 := by
  cases h <;> simp

theorem optional?_eq_some_iff {a : Option α} (hvs : vs.length ≤ 1)
    (h : ∀ v ∈ vs, ∀ a, read? v = some a ↔ denotes v a) :
    optional? read? vs.head? = some a ↔ Optional denotes vs a := by
  match vs, hvs with
  | [], _ =>
    rw [List.head?_nil, optional?, Option.some.injEq]
    exact ⟨fun ha => ha ▸ .absent, fun h => by cases h; rfl⟩
  | [v], _ =>
    by_cases hv : v = .null
    · subst hv
      rw [List.head?_cons, optional?, Option.some.injEq]
      refine ⟨fun ha => ha ▸ .null, fun h => ?_⟩
      cases h with
      | null => rfl
      | given hne _ => exact absurd rfl hne
    · have hread : optional? read? (some v) = (read? v).map some := by
        rw [optional?]
        rintro rfl
        exact hv rfl
      rw [List.head?_cons, hread, Option.map_eq_some_iff]
      constructor
      · rintro ⟨b, hb, rfl⟩
        exact .given hv ((h v List.mem_cons_self b).mp hb)
      · intro ha
        cases ha with
        | null => exact absurd rfl hv
        | given _ hb => exact ⟨_, (h v List.mem_cons_self _).mpr hb, rfl⟩

theorem head?_eq_some_iff_of_length_le (hvs : vs.length ≤ 1) : vs.head? = some v ↔ vs = [v] := by
  match vs, hvs with
  | [], _ => simp
  | [w], _ => simp

/-! ### Dictionaries -/

/-- What is read is what the value denotes, and every value that denotes something is read. -/
def Reads (read? : β → Option α) (denotes : β → α → Prop) (v : β) : Prop :=
  (∀ a, read? v = some a → denotes v a) ∧ ((∃ a, denotes v a) → ∃ a, read? v = some a)

theorem reads_of_iff (h : ∀ a, read? v = some a ↔ denotes v a) : Reads read? denotes v := by
  constructor
  · intro a
    exact (h a).mp
  · rintro ⟨a, ha⟩
    exact ⟨a, (h a).mpr ha⟩

/-- The keys are texts, each value denotes something, and the last value of a name tells the entry
of this name. -/
def IsDictionary (denotes : Value → α → Prop) (ms : List Member)
    (t : Std.TreeMap String α compare) : Prop :=
  (∀ m ∈ ms, ∃ key, m.1 = some key) ∧ (∀ name, ∀ v ∈ valuesOf name ms, ∃ a, denotes v a) ∧
    ∀ name : String, Option.Rel denotes (valuesOf name ms).getLast? t[name]?

theorem reads_dictionary (h : ∀ name, ∀ v ∈ valuesOf name ms, Reads read? denotes v) :
    Reads (dictionary? read?) (fun _ => IsDictionary denotes ms) (.object ms) := by
  constructor
  · intro t ht
    obtain ⟨hkeys, hvalues⟩ := exists_dictionary?_iff.mp ⟨t, ht⟩
    have hdenotes (name : String) : ∀ v ∈ valuesOf name ms, ∃ a, read? v = some a ∧ denotes v a := by
      intro v hv
      obtain ⟨a, ha⟩ := hvalues name v hv
      exact ⟨a, ha, (h name v hv).1 a ha⟩
    refine ⟨hkeys, fun name v hv => (hdenotes name v hv).imp fun _ => And.right, fun name => ?_⟩
    -- The entry of a name is what its last value is read as.
    rw [getElem?_dictionary? ht]
    cases hlast : (valuesOf name ms).getLast? with
    | none => exact .none
    | some v =>
      obtain ⟨a, ha, hva⟩ := hdenotes name v (List.mem_of_getLast? hlast)
      rw [Option.bind_some, ha]
      exact .some hva
  · rintro ⟨t, hkeys, hvalues, -⟩
    exact exists_dictionary?_iff.mpr ⟨hkeys, fun name v hv => (h name v hv).2 (hvalues name v hv)⟩

end Json.Value

/-! ### Records -/

open Json.Value (IsInteger IsText IsList Optional IsDictionary Reads HasKeys valuesOf isRecord_iff
  head?_eq_some_iff_of_length_le)

/-- The value denotes this signature: an object with each of the three numbers once, where further
members mean nothing. -/
def Signature.Denotes (v : Value) (s : Signature) : Prop :=
  ∃ ms inputs outputs height, v = .object ms ∧
    HasKeys ["inputs", "outputs", "max_stack_height"] .skipped ms ∧
    valuesOf "inputs" ms = [inputs] ∧ IsInteger inputs s.inputs.toNat ∧
    valuesOf "outputs" ms = [outputs] ∧ IsInteger outputs s.outputs.toNat ∧
    valuesOf "max_stack_height" ms = [height] ∧ IsInteger height s.maxStackHeight.toNat

theorem Signature.ofJson?_eq_some_iff {v : Value} {s : Signature} (hv : ¬ v.IsArray) :
    ofJson? v = some s ↔ Denotes v s := by
  cases v with
  | array vs => exact absurd trivial hv
  | object ms =>
    simp only [ofJson?_object, Option.ite_none_right_eq_some, isRecord_iff, Option.bind_eq_bind,
      Option.bind_eq_some_iff, Value.byte?_eq_some_iff, Value.word?_eq_some_iff]
    constructor
    · rintro ⟨⟨hkeys, hle⟩, i, hi, o, ho, h, hh, _, hbi, _, hbo, _, hbh, ⟨⟩⟩
      rw [head?_eq_some_iff_of_length_le (hle _ (by decide))] at hi ho hh
      exact ⟨ms, i, o, h, rfl, hkeys, hi, hbi, ho, hbo, hh, hbh⟩
    · rintro ⟨_, i, o, h, ⟨⟩, hkeys, hi, hbi, ho, hbo, hh, hbh⟩
      refine ⟨⟨hkeys, by simp [hi, ho, hh]⟩, i, by rw [hi]; rfl, o, by rw [ho]; rfl, h, by rw [hh]; rfl, ?_⟩
      exact ⟨_, hbi, _, hbo, _, hbh, rfl⟩
  | _ =>
    refine ⟨nofun, ?_⟩
    rintro ⟨_, _, _, _, ⟨⟩, _⟩

/-- The value denotes this expectation: an object with a truth value and up to three members that
say more about it. -/
def Expectation.Denotes (v : Value) (e : Expectation) : Prop :=
  ∃ ms, v = .object ms ∧ HasKeys ["valid", "error", "section", "position"] .refused ms ∧
    valuesOf "valid" ms = [.bool e.valid] ∧
    Optional IsText (valuesOf "error" ms) e.error ∧
    Optional (fun v n => IsInteger v n ∧ n < UInt64.size) (valuesOf "section" ms) e.index ∧
    Optional (fun v n => IsInteger v n ∧ n < UInt64.size) (valuesOf "position" ms) e.position

theorem Expectation.ofJson?_eq_some_iff {v : Value} {e : Expectation} (hv : ¬ v.IsArray) :
    ofJson? v = some e ↔ Denotes v e := by
  have htext {vs : List Value} {t : Option String} (hvs : vs.length ≤ 1) :
      Value.optional? Value.text? vs.head? = some t ↔ Optional IsText vs t :=
    Value.optional?_eq_some_iff hvs fun _ _ _ => Value.text?_eq_some_iff
  have hindex {vs : List Value} {n : Option Nat} (hvs : vs.length ≤ 1) :
      Value.optional? (Value.nat? Suite.maxIndex) vs.head? = some n ↔
        Optional (fun v n => IsInteger v n ∧ n < UInt64.size) vs n :=
    Value.optional?_eq_some_iff hvs fun _ _ _ => by
      rw [Value.nat?_eq_some_iff, Suite.maxIndex, Nat.le_sub_one_iff_lt (by decide)]
  cases v with
  | array vs => exact absurd trivial hv
  | object ms =>
    simp only [ofJson?_object, Option.ite_none_right_eq_some, isRecord_iff, Option.bind_eq_bind,
      Option.bind_eq_some_iff, Value.bool?_eq_some_iff]
    constructor
    · rintro ⟨⟨hkeys, hle⟩, _, hvalid, valid, rfl, error, herror, index, hi, position, hp, ⟨⟩⟩
      rw [head?_eq_some_iff_of_length_le (hle _ (by decide))] at hvalid
      rw [htext (hle _ (by decide))] at herror
      rw [hindex (hle _ (by decide))] at hi hp
      exact ⟨ms, rfl, hkeys, hvalid, herror, hi, hp⟩
    · rintro ⟨_, ⟨⟩, hkeys, hvalid, herror, hi, hp⟩
      refine ⟨⟨hkeys, by simp [hvalid, herror.length_le, hi.length_le, hp.length_le]⟩,
        _, by rw [hvalid]; rfl, _, rfl, ?_⟩
      rw [← htext herror.length_le] at herror
      rw [← hindex hi.length_le] at hi
      rw [← hindex hp.length_le] at hp
      exact ⟨_, herror, _, hi, _, hp, rfl⟩
  | _ =>
    refine ⟨nofun, ?_⟩
    rintro ⟨_, ⟨⟩, _⟩

/-- The value denotes this case: an object with exactly the three members. -/
def Case.Denotes (v : Value) (c : Case) : Prop :=
  ∃ ms types sources expected, v = .object ms ∧
    HasKeys ["types", "code", "expected"] .refused ms ∧
    valuesOf "types" ms = [types] ∧ IsList Signature.Denotes types c.types.toList ∧
    valuesOf "code" ms = [sources] ∧ IsList IsText sources c.sources ∧
    valuesOf "expected" ms = [expected] ∧ Expectation.Denotes expected c.expected

theorem Case.ofJson?_eq_some_iff {v : Value} {c : Case} (hv : AsObjects v) :
    ofJson? v = some c ↔ Denotes v c := by
  obtain ⟨hv, hrecords⟩ := hv
  have hsources {sources : Value} {l : List String} :
      sources.list? Value.text? = some l ↔ IsList IsText sources l :=
    Value.list?_eq_some_iff fun _ _ _ _ _ => Value.text?_eq_some_iff
  cases v with
  | array vs => exact absurd trivial hv
  | object ms =>
    obtain ⟨hexpected, htypes⟩ := hrecords ms rfl
    have htypes {types : Value} (h : valuesOf "types" ms = [types]) {l : List Signature} :
        types.list? Signature.ofJson? = some l ↔ IsList Signature.Denotes types l := by
      refine Value.list?_eq_some_iff ?_
      rintro vs rfl w hw s
      exact Signature.ofJson?_eq_some_iff (htypes vs (by simp [h]) w hw)
    have hexpected {expected : Value} (h : valuesOf "expected" ms = [expected]) {e : Expectation} :
        Expectation.ofJson? expected = some e ↔ Expectation.Denotes expected e :=
      Expectation.ofJson?_eq_some_iff (hexpected expected (by simp [h]))
    simp only [ofJson?_object, Option.ite_none_right_eq_some, isRecord_iff, Option.bind_eq_bind,
      Option.bind_eq_some_iff, hsources]
    constructor
    · rintro ⟨⟨hkeys, hle⟩, types, ht, sources, hs, expected, he, types', ht', sources', hs',
        expected', he', ⟨⟩⟩
      rw [head?_eq_some_iff_of_length_le (hle _ (by decide))] at ht hs he
      rw [htypes ht] at ht'
      rw [hexpected he] at he'
      exact ⟨ms, types, sources, expected, rfl, hkeys, ht, by simpa using ht', hs, hs', he, he'⟩
    · rintro ⟨_, types, sources, expected, ⟨⟩, hkeys, ht, ht', hs, hs', he, he'⟩
      refine ⟨⟨hkeys, by simp [ht, hs, he]⟩, types, by rw [ht]; rfl, sources, by rw [hs]; rfl,
        expected, by rw [he]; rfl, ?_⟩
      rw [← htypes ht] at ht'
      rw [← hexpected he] at he'
      exact ⟨_, ht', _, hs', _, he', by simp⟩
  | _ =>
    refine ⟨nofun, ?_⟩
    rintro ⟨_, _, _, _, ⟨⟩, _⟩

/-- The value denotes this group: an object with at most a description, which may be any value, and
a dictionary of cases. -/
def Group.Denotes (v : Value) (g : Group) : Prop :=
  ∃ ms cases, v = .object ms ∧ HasKeys ["_info", "vectors"] .refused ms ∧
    Optional (fun v info => v = info) (valuesOf "_info" ms) g.info ∧
    (valuesOf "vectors" ms = [.object cases] ∨ valuesOf "vectors" ms = [] ∧ cases = []) ∧
    IsDictionary Case.Denotes cases g.cases

theorem Group.reads_cases? {vs : List Value} (hvs : vs.length ≤ 1)
    (h : ∀ cases, .object cases ∈ vs → ∀ c ∈ cases, Case.AsObjects c.2) :
    Reads (fun vs : List Value => cases? vs.head?)
      (fun vs t => ∃ cases, (vs = [.object cases] ∨ vs = [] ∧ cases = []) ∧
        IsDictionary Case.Denotes cases t) vs := by
  match vs, hvs with
  | [], _ =>
    refine ⟨?_, fun _ => ⟨∅, rfl⟩⟩
    rintro _ ⟨⟩
    exact ⟨[], .inr ⟨rfl, rfl⟩, by simp, by simp, fun name => by simp⟩
  | [.object cases], _ =>
    have hread : ∀ name, ∀ v ∈ valuesOf name cases, Reads Case.ofJson? Case.Denotes v :=
      fun name v hv => Value.reads_of_iff fun c => Case.ofJson?_eq_some_iff
        (h cases (List.mem_singleton_self _) _ (Value.mem_valuesOf.mp hv))
    have hcases := Value.reads_dictionary hread
    refine ⟨fun t ht => ⟨cases, .inl rfl, hcases.1 t ht⟩, ?_⟩
    rintro ⟨t, _, hsame | ⟨⟨⟩, _⟩, ht⟩
    cases hsame
    exact hcases.2 ⟨t, ht⟩
  | [.null], _ | [.bool _], _ | [.number _], _ | [.string _], _ | [.array _], _ =>
    refine ⟨nofun, ?_⟩
    rintro ⟨t, _, ⟨⟨⟩⟩ | ⟨⟨⟩, _⟩, _⟩

theorem Group.reads_ofJson? {v : Value} (hv : AsObjects v) (hlimits : WithinLimits v) :
    Reads ofJson? Denotes v := by
  obtain ⟨hv, hrecords⟩ := hv
  cases v with
  | array vs => exact absurd trivial hv
  | object ms =>
    have hinfo (hle : (valuesOf "_info" ms).length ≤ 1) {info : Option Value} :
        Value.optional? info? (valuesOf "_info" ms).head? = some info ↔
          Optional (fun v info => v = info) (valuesOf "_info" ms) info := by
      refine Value.optional?_eq_some_iff hle fun v hv a => ?_
      rw [info?, if_pos (hlimits ms rfl v hv), Option.some.injEq]
    have hcases (hle : (valuesOf "vectors" ms).length ≤ 1) := reads_cases? hle (hrecords ms · rfl)
    simp only [Reads, ofJson?_object, Option.ite_none_right_eq_some, isRecord_iff,
      Option.bind_eq_bind, Option.bind_eq_some_iff]
    constructor
    · rintro _ ⟨⟨hkeys, hle⟩, info, hi, t, ht, ⟨⟩⟩
      rw [hinfo (hle _ (by decide))] at hi
      obtain ⟨cases, hvectors, ht⟩ := (hcases (hle _ (by decide))).1 t ht
      exact ⟨ms, cases, rfl, hkeys, hi, hvectors, ht⟩
    · rintro ⟨g, _, cases, ⟨⟩, hkeys, hi, hvectors, ht⟩
      have hle : (valuesOf "vectors" ms).length ≤ 1 := by
        obtain h | ⟨h, -⟩ := hvectors <;> simp [h]
      obtain ⟨t, ht⟩ := (hcases hle).2 ⟨_, cases, hvectors, ht⟩
      refine ⟨_, ⟨hkeys, by simp [hi.length_le, hle]⟩, _, (hinfo hi.length_le).mpr hi, t, ht, rfl⟩
  | _ =>
    refine ⟨?_, ?_⟩
    · rintro _ ⟨⟩
    · rintro ⟨_, _, _, ⟨⟩, _⟩

namespace Suite

/-- The value denotes this suite: a dictionary of groups. -/
def Denotes (v : Value) (s : Suite) : Prop :=
  ∃ groups, v = .object groups ∧ IsDictionary Group.Denotes groups s

theorem reads_ofJson? {v : Value} (hv : AsObjects v) (hlimits : WithinLimits v) :
    Reads ofJson? Denotes v := by
  cases v with
  | object groups =>
    have hread : ∀ name, ∀ g ∈ valuesOf name groups, Reads Group.ofJson? Group.Denotes g :=
      fun name g hg => Group.reads_ofJson? (hv groups rfl _ (Value.mem_valuesOf.mp hg))
        (hlimits groups rfl _ (Value.mem_valuesOf.mp hg))
    have h := Value.reads_dictionary hread
    refine ⟨fun s hs => ⟨groups, rfl, h.1 s hs⟩, ?_⟩
    rintro ⟨s, _, ⟨⟩, hs⟩
    exact h.2 ⟨s, hs⟩
  | _ =>
    refine ⟨nofun, ?_⟩
    rintro ⟨_, _, ⟨⟩, _⟩

/-- **A text is a suite file exactly if it denotes a suite**, and then the suite that is read is the
one denoted.  The order of members makes no difference, as long as groups, and cases, of the same
name keep theirs; an optional member that is `null` counts as missing, and a group whose cases are
missing has none. -/
theorem format_exact :
    (∀ (text : String) (v : Value), Value.Writes text v → AsObjects v → WithinLimits v →
      ((∃ s, ofText? text = some s) ↔ ∃ s, Denotes v s) ∧
        ∀ s, ofText? text = some s → Denotes v s) ∧
    (∀ (text text' : String) (v v' : Value), Value.Writes text v → Value.Writes text' v' →
      AsObjects v → WithinLimits v → WithinLimits v' → Value.Reordered v v' →
      Option.Rel Same (ofText? text) (ofText? text')) ∧
    (∀ (name : String) (ms : List Member), name ∈ ["error", "section", "position"] →
      valuesOf name ms = [] →
      Expectation.ofJson? (.object ((some name, .null) :: ms)) = Expectation.ofJson? (.object ms)) ∧
    (∀ ms : List Member, valuesOf "_info" ms = [] →
      Group.ofJson? (.object ((some "_info", .null) :: ms)) = Group.ofJson? (.object ms)) ∧
    ∀ ms : List Member, valuesOf "vectors" ms = [] →
      Group.ofJson? (.object ((some "vectors", .object []) :: ms)) = Group.ofJson? (.object ms) := by
  have hread {text : String} {v : Value} (htext : Value.Writes text v) : ofText? text = ofJson? v := by
    rw [ofText?, Value.ofText?_eq_some_iff.mpr htext, Option.bind_some]
  refine ⟨?_, ?_, fun _ _ => Expectation.ofJson?_null, fun _ => Group.ofJson?_null,
    fun _ => Group.ofJson?_empty⟩
  · intro text v htext hv hlimits
    obtain ⟨hsound, hcomplete⟩ := reads_ofJson? hv hlimits
    rw [hread htext]
    exact ⟨⟨fun ⟨s, hs⟩ => ⟨s, hsound s hs⟩, hcomplete⟩, hsound⟩
  · intro text text' v v' htext htext' hv hlimits hlimits' h
    rw [hread htext, hread htext']
    exact ofJson?_reordered hv hlimits hlimits' h

/-- A group with a description and no cases. -/
theorem format_exact_group :
    ∃ s, ofText? (Value.object [(some "g", .object [(some "_info", .bool true)])]).render = some s := by
  have hinfo : Value.Writable (.bool true) := by
    rw [Value.Writable, Value.tokens, List.forall_mem_singleton]
    rfl
  have hgroup : Value.Writable (.object [(some "_info", .bool true)]) :=
    Value.writable_object (List.forall_mem_singleton.mpr ⟨⟨"_info", rfl⟩, hinfo⟩)
  have hsuite : Value.Writable (.object [(some "g", .object [(some "_info", .bool true)])]) :=
    Value.writable_object (List.forall_mem_singleton.mpr ⟨⟨"g", rfl⟩, hgroup⟩)
  have hdenotes : Group.Denotes (.object [(some "_info", .bool true)])
      { info := some (.bool true), cases := ∅ } := by
    refine ⟨_, [], rfl, List.forall_mem_singleton.mpr ⟨"_info", rfl, .inr (by decide)⟩, ?_,
      .inr ⟨rfl, rfl⟩, ?_, ?_, fun name => by simp⟩
    · exact .given (by simp) rfl
    · simp
    · simp
  have hvalue {name : String} {v : Value}
      (h : v ∈ valuesOf name [(some "g", .object [(some "_info", .bool true)])]) :
      v = .object [(some "_info", .bool true)] := by
    have hmem := List.mem_singleton.mp (Value.mem_valuesOf.mp h)
    cases hmem
    rfl
  have hobjects : AsObjects (.object [(some "g", .object [(some "_info", .bool true)])]) := by
    rintro _ ⟨⟩
    refine List.forall_mem_singleton.mpr ⟨id, ?_⟩
    rintro _ cases ⟨⟩ hmem
    cases hmem
  have hlimits : WithinLimits (.object [(some "g", .object [(some "_info", .bool true)])]) := by
    rintro _ ⟨⟩
    refine List.forall_mem_singleton.mpr ?_
    rintro _ ⟨⟩
    exact List.forall_mem_singleton.mpr rfl
  refine ((format_exact.1 _ _ hsuite.writes_render hobjects hlimits).1).mpr
    ⟨(∅ : Suite).insert "g" { info := some (.bool true), cases := ∅ }, _, rfl, ?_, ?_, ?_⟩
  · exact List.forall_mem_singleton.mpr ⟨"g", rfl⟩
  · intro name v hv
    rw [hvalue hv]
    exact ⟨_, hdenotes⟩
  · intro name
    rw [Std.TreeMap.getElem?_insert]
    by_cases hname : "g" = name
    · subst hname
      simpa [Value.valuesOf_cons_self] using hdenotes
    · rw [Value.valuesOf_cons_of_ne (by simpa using hname)]
      simp [hname]

end Suite

end EofVerifier
