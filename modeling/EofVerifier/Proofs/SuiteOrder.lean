import EofVerifier.Proofs.JsonRecords
import EofVerifier.Suite.Json

/-! # Order and defaults in suite files

Two values are the same up to order if the members of every object in them have the same keys, and
under each name the same values up to order (`Value.Reordered`).  Signatures, expectations and cases
are read alike from both; so are groups and suites, entry by entry, where the descriptions are the
same up to order again (`Suite.ofJson?_reordered`).

The readers of records are first written out for objects, as functions of the values of each field
(`Expectation.ofJson?_object` and the like).  From these it is also seen that an optional member
that is `null` might as well be missing. -/

namespace EofVerifier

open Json (Value Member)

namespace Json.Value

variable {α : Type} {read? : Value → Option α} {names : List String} {extra : Extra}
  {v w : Value} {vs ws : List Value} {ms ms' : List Member} {bound : Nat}

/-! ### Results that are alike -/

section Rel

variable {β γ δ : Type} {P : α → β → Prop} {R : γ → δ → Prop} {a : Option α} {b : Option β}

theorem rel_self {R : α → α → Prop} (hR : ∀ a, R a a) (a : Option α) : Option.Rel R a a := by
  cases a with
  | none => exact .none
  | some a => exact .some (hR a)

theorem eq_of_rel {a b : Option α} (h : Option.Rel Eq a b) : a = b := by
  cases h with
  | none => rfl
  | some h => rw [h]

theorem rel_imp {R : α → β → Prop} (h : Option.Rel P a b) (hPR : ∀ x y, P x y → R x y) :
    Option.Rel R a b := by
  cases h with
  | none => exact .none
  | some h => exact .some (hPR _ _ h)

theorem bind_rel {f : α → Option γ} {g : β → Option δ} (h : Option.Rel P a b)
    (hfg : ∀ x ∈ a, ∀ y ∈ b, P x y → Option.Rel R (f x) (g y)) :
    Option.Rel R (a.bind f) (b.bind g) := by
  cases h with
  | none => exact .none
  | some h => exact hfg _ rfl _ rfl h

theorem forall₂_imp_of_mem {R : α → β → Prop} {l : List α} {r : List β} (h : List.Forall₂ P l r)
    (hPR : ∀ x ∈ l, ∀ y ∈ r, P x y → R x y) : List.Forall₂ R l r := by
  induction h with
  | nil => exact .nil
  | cons h _ ih =>
    exact .cons (hPR _ List.mem_cons_self _ List.mem_cons_self h)
      (ih fun x hx y hy => hPR x (List.mem_cons_of_mem _ hx) y (List.mem_cons_of_mem _ hy))

theorem head?_rel {l : List α} {r : List β} (h : List.Forall₂ P l r) :
    Option.Rel P l.head? r.head? := by
  cases h with
  | nil => exact .none
  | cons h _ => exact .some h

theorem getLast?_rel {l : List α} {r : List β} (h : List.Forall₂ P l r) :
    Option.Rel P l.getLast? r.getLast? := by
  rw [← List.head?_reverse, ← List.head?_reverse]
  exact head?_rel (List.rel_reverse h)

end Rel

/-! ### Values in another order -/

/-- The same value up to order: objects have the same keys, and under each name the same values in
the same order, up to order inside of them. -/
inductive Reordered : Value → Value → Prop
  | refl (v : Value) : Reordered v v
  | array {vs ws : List Value} : List.Forall₂ Reordered vs ws → Reordered (.array vs) (.array ws)
  | object {ms ms' : List Member} :
    (ms.map Prod.fst).Perm (ms'.map Prod.fst) →
    (∀ name, List.Forall₂ Reordered (valuesOf name ms) (valuesOf name ms')) →
    Reordered (.object ms) (.object ms')

/-- Members may change places where those of the same name keep their order. -/
theorem reordered_of_perm (h : ms.Perm ms') (hvalues : ∀ name, valuesOf name ms = valuesOf name ms') :
    Reordered (.object ms) (.object ms') := by
  refine .object (h.map _) fun name => ?_
  rw [hvalues name]
  exact List.forall₂_same.mpr fun v _ => .refl v

theorem bool?_reordered (h : Reordered v w) : v.bool? = w.bool? := by
  cases h <;> rfl

theorem text?_reordered (h : Reordered v w) : v.text? = w.text? := by
  cases h <;> rfl

theorem nat?_reordered (h : Reordered v w) : v.nat? bound = w.nat? bound := by
  cases h <;> rfl

theorem byte?_reordered (h : Reordered v w) : v.byte? = w.byte? := by
  rw [byte?, byte?, nat?_reordered h]

theorem word?_reordered (h : Reordered v w) : v.word? = w.word? := by
  rw [word?, word?, nat?_reordered h]

theorem list?_reordered (h : Reordered v w)
    (hread : ∀ vs, v = .array vs → ∀ a ∈ vs, ∀ b, Reordered a b → read? a = read? b) :
    v.list? read? = w.list? read? := by
  cases h with
  | refl => rfl
  | object => rfl
  | array h =>
    replace hread := hread _ rfl
    rw [list?, list?]
    induction h with
    | nil => rfl
    | cons hab _ ih =>
      rw [List.forall_mem_cons] at hread
      rw [List.mapM_cons, List.mapM_cons, hread.1 _ hab, ih hread.2]

theorem optional?_reordered {a b : Option Value} (h : Option.Rel Reordered a b)
    (hread : ∀ v w, Reordered v w → read? v = read? w) : optional? read? a = optional? read? b := by
  cases h with
  | none => rfl
  | some h =>
    have hsame := hread _ _ h
    cases h with
    | refl => rfl
    -- Neither an array nor an object is `null`.
    | array | object => simp only [optional?, hsame]

/-! ### Fields in another order -/

theorem forall_key_iff (h : (ms.map Prod.fst).Perm (ms'.map Prod.fst)) (p : Option String → Prop) :
    (∀ m ∈ ms, p m.1) ↔ ∀ m ∈ ms', p m.1 := by
  rw [← List.forall_mem_map, ← List.forall_mem_map (f := Prod.fst)]
  exact forall_congr' fun key => by rw [h.mem_iff]

theorem isRecord_reordered (hkeys : (ms.map Prod.fst).Perm (ms'.map Prod.fst))
    (hvalues : ∀ name, List.Forall₂ Reordered (valuesOf name ms) (valuesOf name ms')) :
    isRecord names extra ms = isRecord names extra ms' := by
  rw [Bool.eq_iff_iff, isRecord_iff, isRecord_iff, HasKeys, HasKeys,
    forall_key_iff hkeys fun k => ∃ key, k = some key ∧ (extra = .skipped ∨ key ∈ names)]
  simp only [(hvalues _).length_eq]

theorem bind_reordered {f g : Value → Option α} {a b : Option Value} (h : Option.Rel Reordered a b)
    (hfg : ∀ v ∈ a, ∀ w, Reordered v w → f v = g w) : a.bind f = b.bind g :=
  eq_of_rel (bind_rel h fun v hv w _ hvw => hfg v hv w hvw ▸ rel_self (fun _ => rfl) _)

theorem forall_readable_iff {R : α → α → Prop}
    (h : List.Forall₂ (fun v w => Option.Rel R (read? v) (read? w)) vs ws) :
    (∀ v ∈ vs, ∃ a, read? v = some a) ↔ ∀ w ∈ ws, ∃ a, read? w = some a := by
  induction h with
  | nil => simp
  | @cons v w _ _ hvw _ ih =>
    have hiff : (∃ a, read? v = some a) ↔ ∃ a, read? w = some a := by
      generalize read? v = a at hvw ⊢
      generalize read? w = b at hvw ⊢
      cases hvw <;> simp
    rw [List.forall_mem_cons, List.forall_mem_cons, hiff, ih]

/-- Dictionaries with the same keys, whose values are read alike under each name. -/
theorem dictionary?_rel {R : α → α → Prop} (hkeys : (ms.map Prod.fst).Perm (ms'.map Prod.fst))
    (hvalues : ∀ name, List.Forall₂ (fun v w => Option.Rel R (read? v) (read? w))
      (valuesOf name ms) (valuesOf name ms')) :
    Option.Rel (fun t t' => ∀ name : String, Option.Rel R t[name]? t'[name]?)
      (dictionary? read? (.object ms)) (dictionary? read? (.object ms')) := by
  have hiff : (∃ t, dictionary? read? (.object ms) = some t) ↔
      ∃ t, dictionary? read? (.object ms') = some t := by
    rw [exists_dictionary?_iff, exists_dictionary?_iff,
      forall_key_iff hkeys fun k => ∃ key, k = some key]
    exact and_congr_right fun _ => forall_congr' fun name => forall_readable_iff (hvalues name)
  cases ht : dictionary? read? (.object ms) with
  | none =>
    cases ht' : dictionary? read? (.object ms') with
    | none => exact .none
    | some t' =>
      obtain ⟨t, ht''⟩ := hiff.mpr ⟨t', ht'⟩
      cases ht.symm.trans ht''
  | some t =>
    obtain ⟨t', ht'⟩ := hiff.mp ⟨t, ht⟩
    rw [ht']
    refine .some fun name => ?_
    rw [getElem?_dictionary? ht, getElem?_dictionary? ht']
    exact bind_rel (getLast?_rel (hvalues name)) fun _ _ _ _ h => h

end Json.Value

open Json.Value (Reordered IsArray valuesOf isRecord)

/-! ### Records as objects -/

theorem Signature.ofJson?_object (ms : List Member) : ofJson? (.object ms) =
    if isRecord ["inputs", "outputs", "max_stack_height"] .skipped ms then do
      let inputs ← (valuesOf "inputs" ms).head?
      let outputs ← (valuesOf "outputs" ms).head?
      let height ← (valuesOf "max_stack_height" ms).head?
      return {
        inputs := ← inputs.byte?, outputs := ← outputs.byte?, maxStackHeight := ← height.word? }
    else none := by
  simp only [ofJson?, Value.fields?, Value.lookup_eq_head?_valuesOf]
  split
  · simp only [List.map_cons, List.map_nil]
    cases (valuesOf "inputs" ms).head? <;> cases (valuesOf "outputs" ms).head? <;>
    cases (valuesOf "max_stack_height" ms).head? <;> rfl
  · rfl

theorem Expectation.ofJson?_object (ms : List Member) : ofJson? (.object ms) =
    if isRecord ["valid", "error", "section", "position"] .refused ms then do
      let valid ← (valuesOf "valid" ms).head?
      return {
        valid := ← valid.bool?
        error := ← Value.optional? Value.text? (valuesOf "error" ms).head?
        index := ← Value.optional? (Value.nat? Suite.maxIndex) (valuesOf "section" ms).head?
        position := ← Value.optional? (Value.nat? Suite.maxIndex) (valuesOf "position" ms).head? }
    else none := by
  simp only [ofJson?, Value.fields?, Value.lookup_eq_head?_valuesOf]
  split
  · simp only [List.map_cons, List.map_nil]
    cases (valuesOf "valid" ms).head? <;> rfl
  · rfl

theorem Case.ofJson?_object (ms : List Member) : ofJson? (.object ms) =
    if isRecord ["types", "code", "expected"] .refused ms then do
      let types ← (valuesOf "types" ms).head?
      let sources ← (valuesOf "code" ms).head?
      let expected ← (valuesOf "expected" ms).head?
      return {
        types := (← types.list? Signature.ofJson?).toArray
        sources := ← sources.list? Value.text?
        expected := ← Expectation.ofJson? expected }
    else none := by
  simp only [ofJson?, Value.fields?, Value.lookup_eq_head?_valuesOf]
  split
  · simp only [List.map_cons, List.map_nil]
    cases (valuesOf "types" ms).head? <;> cases (valuesOf "code" ms).head? <;>
    cases (valuesOf "expected" ms).head? <;> rfl
  · rfl

/-- The cases of a group, of which there are none where the member is missing. -/
def Group.cases? : Option Value → Option (Std.TreeMap String Case compare)
  | none => some ∅
  | some cases => cases.dictionary? Case.ofJson?

theorem Group.ofJson?_object (ms : List Member) : ofJson? (.object ms) =
    if isRecord ["_info", "vectors"] .refused ms then do
      let info ← Value.optional? info? (valuesOf "_info" ms).head?
      let cases ← cases? (valuesOf "vectors" ms).head?
      return { info, cases }
    else none := by
  simp only [ofJson?, Value.fields?, Value.lookup_eq_head?_valuesOf]
  split
  · simp only [List.map_cons, List.map_nil]
    cases (valuesOf "vectors" ms).head? <;> rfl
  · rfl

/-! ### What the format leaves out -/

/-- Neither the case nor the records in it are written as arrays. -/
def Case.AsObjects (v : Value) : Prop :=
  ¬ v.IsArray ∧ ∀ ms, v = .object ms →
    (∀ e ∈ valuesOf "expected" ms, ¬ e.IsArray) ∧
      ∀ types, .array types ∈ valuesOf "types" ms → ∀ t ∈ types, ¬ t.IsArray

/-- Neither the group nor the records in it are written as arrays. -/
def Group.AsObjects (v : Value) : Prop :=
  ¬ v.IsArray ∧ ∀ ms cases, v = .object ms → .object cases ∈ valuesOf "vectors" ms →
    ∀ c ∈ cases, Case.AsObjects c.2

/-- No record of the suite is written as an array. -/
def Suite.AsObjects (v : Value) : Prop :=
  ∀ groups, v = .object groups → ∀ g ∈ groups, Group.AsObjects g.2

/-- The description of the group can be kept. -/
def Group.WithinLimits (v : Value) : Prop :=
  ∀ ms, v = .object ms → ∀ info ∈ valuesOf "_info" ms, info.isStorable (Suite.maxNesting - 2) = true

/-- The descriptions of the groups can be kept. -/
def Suite.WithinLimits (v : Value) : Prop :=
  ∀ groups, v = .object groups → ∀ g ∈ groups, Group.WithinLimits g.2

/-! ### Records in another order -/

section Reordered

open Json.Value (rel_self rel_imp eq_of_rel bind_rel bind_reordered forall₂_imp_of_mem head?_rel
  optional?_reordered isRecord_reordered)

variable {v w : Value}

theorem Signature.ofJson?_reordered (hv : ¬ v.IsArray) (h : Reordered v w) : ofJson? v = ofJson? w := by
  cases h with
  | refl => rfl
  | array => exact absurd trivial hv
  | object hkeys hvalues =>
    rw [ofJson?_object, ofJson?_object, isRecord_reordered hkeys hvalues]
    refine if_congr Iff.rfl ?_ rfl
    refine bind_reordered (head?_rel (hvalues _)) fun i _ i' hi => ?_
    refine bind_reordered (head?_rel (hvalues _)) fun o _ o' ho => ?_
    refine bind_reordered (head?_rel (hvalues _)) fun m _ m' hm => ?_
    rw [Value.byte?_reordered hi, Value.byte?_reordered ho, Value.word?_reordered hm]

theorem Expectation.ofJson?_reordered (hv : ¬ v.IsArray) (h : Reordered v w) :
    ofJson? v = ofJson? w := by
  cases h with
  | refl => rfl
  | array => exact absurd trivial hv
  | object hkeys hvalues =>
    have htext := optional?_reordered (head?_rel (hvalues "error"))
      fun _ _ => Value.text?_reordered
    have hindex (name : String) :
        Value.optional? (Value.nat? Suite.maxIndex) (valuesOf name _).head? =
          Value.optional? (Value.nat? Suite.maxIndex) (valuesOf name _).head? :=
      optional?_reordered (head?_rel (hvalues name)) fun _ _ => Value.nat?_reordered
    rw [ofJson?_object, ofJson?_object, isRecord_reordered hkeys hvalues, htext, hindex, hindex]
    refine if_congr Iff.rfl ?_ rfl
    refine bind_reordered (head?_rel (hvalues _)) fun valid _ valid' hvalid => ?_
    rw [Value.bool?_reordered hvalid]

theorem Case.ofJson?_reordered (hv : AsObjects v) (h : Reordered v w) : ofJson? v = ofJson? w := by
  obtain ⟨hv, hrecords⟩ := hv
  cases h with
  | refl => rfl
  | array => exact absurd trivial hv
  | @object ms ms' hkeys hvalues =>
    obtain ⟨hexpected, htypes⟩ := hrecords ms rfl
    rw [ofJson?_object, ofJson?_object, isRecord_reordered hkeys hvalues]
    refine if_congr Iff.rfl ?_ rfl
    refine bind_reordered (head?_rel (hvalues _)) fun types ht types' ht' => ?_
    refine bind_reordered (head?_rel (hvalues _)) fun sources _ sources' hs' => ?_
    refine bind_reordered (head?_rel (hvalues _)) fun expected he expected' he' => ?_
    have htypes : types.list? Signature.ofJson? = types'.list? Signature.ofJson? := by
      refine Value.list?_reordered ht' ?_
      rintro vs rfl t hmem t' htt'
      exact Signature.ofJson?_reordered (htypes vs (List.mem_of_mem_head? ht) t hmem) htt'
    have hsources : sources.list? Value.text? = sources'.list? Value.text? :=
      Value.list?_reordered hs' fun _ _ _ _ _ => Value.text?_reordered
    rw [htypes, hsources, Expectation.ofJson?_reordered (hexpected _ (List.mem_of_mem_head? he)) he']

/-- The groups have the same cases under the same names, and the same description up to the order of
its members. -/
def Group.Same (g g' : Group) : Prop :=
  Option.Rel Reordered g.info g'.info ∧ ∀ name : String, g.cases[name]? = g'.cases[name]?

theorem Group.Same.refl (g : Group) : Same g g :=
  ⟨rel_self .refl g.info, fun _ => rfl⟩

theorem Group.optional?_info?_reordered {a b : Option Value} (h : Option.Rel Reordered a b)
    (ha : ∀ v ∈ a, v.isStorable (Suite.maxNesting - 2) = true)
    (hb : ∀ w ∈ b, w.isStorable (Suite.maxNesting - 2) = true) :
    Option.Rel (Option.Rel Reordered) (Value.optional? info? a) (Value.optional? info? b) := by
  cases h with
  | none => exact .some .none
  | @some v w h =>
    have hread : Option.Rel (Option.Rel Reordered) ((info? v).map some) ((info? w).map some) := by
      rw [info?, info?, if_pos (ha v rfl), if_pos (hb w rfl)]
      exact .some (.some h)
    cases h with
    | refl => exact rel_self (rel_self .refl) _
    | array | object => exact hread

theorem Group.cases?_reordered {a b : Option Value} (h : Option.Rel Reordered a b)
    (ha : ∀ cases, .object cases ∈ a → ∀ c ∈ cases, Case.AsObjects c.2) :
    Option.Rel (fun t t' => ∀ name : String, t[name]? = t'[name]?) (cases? a) (cases? b) := by
  cases h with
  | none => exact .some fun _ => rfl
  | some h =>
    cases h with
    | refl => exact rel_self (fun _ _ => rfl) _
    | array => exact .none
    | @object ms ms' hkeys hvalues =>
      have hread (name : String) : List.Forall₂
          (fun v w => Option.Rel Eq (Case.ofJson? v) (Case.ofJson? w)) (valuesOf name ms)
          (valuesOf name ms') := by
        refine forall₂_imp_of_mem (hvalues name) fun v hv w _ hvw => ?_
        rw [Case.ofJson?_reordered (ha ms rfl _ (Value.mem_valuesOf.mp hv)) hvw]
        exact rel_self (fun _ => rfl) _
      exact rel_imp (Value.dictionary?_rel hkeys hread) fun t t' h name => eq_of_rel (h name)

theorem Group.ofJson?_reordered (hv : AsObjects v) (hlimits : WithinLimits v)
    (hlimits' : WithinLimits w) (h : Reordered v w) : Option.Rel Same (ofJson? v) (ofJson? w) := by
  obtain ⟨hv, hrecords⟩ := hv
  cases h with
  | refl => exact rel_self Same.refl _
  | array => exact absurd trivial hv
  | @object ms ms' hkeys hvalues =>
    rw [ofJson?_object, ofJson?_object, isRecord_reordered hkeys hvalues]
    split
    · have hinfo := optional?_info?_reordered (head?_rel (hvalues "_info"))
        (fun v hv => hlimits ms rfl v (List.mem_of_mem_head? hv))
        (fun w hw => hlimits' ms' rfl w (List.mem_of_mem_head? hw))
      have hcases := cases?_reordered (head?_rel (hvalues "vectors"))
        (fun cases hmem => hrecords ms cases rfl (List.mem_of_mem_head? hmem))
      exact bind_rel hinfo fun _ _ _ _ hinfo => bind_rel hcases fun _ _ _ _ ht => .some ⟨hinfo, ht⟩
    · exact .none

/-- The suites have the same groups under the same names. -/
def Suite.Same (s s' : Suite) : Prop :=
  ∀ name : String, Option.Rel Group.Same s[name]? s'[name]?

theorem Suite.ofJson?_reordered (hv : AsObjects v) (hlimits : WithinLimits v)
    (hlimits' : WithinLimits w) (h : Reordered v w) : Option.Rel Same (ofJson? v) (ofJson? w) := by
  cases h with
  | refl => exact rel_self (fun s name => rel_self Group.Same.refl _) _
  | array => exact .none
  | @object ms ms' hkeys hvalues =>
    refine Value.dictionary?_rel hkeys fun name => ?_
    refine forall₂_imp_of_mem (hvalues name) fun v hmem w hmem' hvw => ?_
    rw [Value.mem_valuesOf] at hmem hmem'
    exact Group.ofJson?_reordered (hv ms rfl _ hmem) (hlimits ms rfl _ hmem) (hlimits' ms' rfl _ hmem')
      hvw

end Reordered

/-! ### Members that are missing -/

section Missing

open Json.Value (valuesOf_cons_self valuesOf_cons_of_ne)

variable {name : String} {ms : List Member}

theorem Json.Value.isRecord_cons {names : List String} {extra : Value.Extra} (v : Value)
    (hname : name ∈ names) (hnone : valuesOf name ms = []) :
    isRecord names extra ((some name, v) :: ms) = isRecord names extra ms := by
  have hlength (n : String) : (valuesOf n ((some name, v) :: ms)).length ≤ 1 ↔
      (valuesOf n ms).length ≤ 1 := by
    by_cases hn : name = n
    · subst hn
      simp [valuesOf_cons_self, hnone]
    · rw [valuesOf_cons_of_ne (by simpa using hn)]
  rw [Bool.eq_iff_iff, isRecord_iff, isRecord_iff, HasKeys, List.forall_mem_cons]
  simp only [hlength]
  exact and_congr_left fun _ => and_iff_right ⟨name, rfl, .inr hname⟩

theorem Json.Value.optional?_null {α : Type} (read? : Value → Option α)
    (hnone : valuesOf name ms = []) (n : String) :
    optional? read? (valuesOf n ((some name, .null) :: ms)).head? =
      optional? read? (valuesOf n ms).head? := by
  by_cases hn : name = n
  · subst hn
    rw [valuesOf_cons_self, hnone]
    rfl
  · rw [valuesOf_cons_of_ne (by simpa using hn)]

/-- A member that is `null` counts as missing. -/
theorem Expectation.ofJson?_null (hname : name ∈ ["error", "section", "position"])
    (hnone : valuesOf name ms = []) :
    ofJson? (.object ((some name, .null) :: ms)) = ofJson? (.object ms) := by
  have hvalid : some name ≠ some "valid" := by
    rintro ⟨⟩
    revert hname
    decide
  rw [ofJson?_object, ofJson?_object,
    Value.isRecord_cons _ (List.mem_cons_of_mem _ hname) hnone, valuesOf_cons_of_ne hvalid]
  simp only [Value.optional?_null _ hnone]

theorem Group.ofJson?_null (hnone : valuesOf "_info" ms = []) :
    ofJson? (.object ((some "_info", .null) :: ms)) = ofJson? (.object ms) := by
  rw [ofJson?_object, ofJson?_object, Value.isRecord_cons _ (by decide) hnone,
    Value.optional?_null _ hnone, valuesOf_cons_of_ne (by decide)]

/-- A group without the member has no cases. -/
theorem Group.ofJson?_empty (hnone : valuesOf "vectors" ms = []) :
    ofJson? (.object ((some "vectors", .object []) :: ms)) = ofJson? (.object ms) := by
  have hcases : cases? (some (.object [])) = cases? none := rfl
  rw [ofJson?_object, ofJson?_object, Value.isRecord_cons _ (by decide) hnone,
    valuesOf_cons_of_ne (by decide), valuesOf_cons_self, hnone, List.head?_cons, hcases,
    List.head?_nil]

end Missing

end EofVerifier
