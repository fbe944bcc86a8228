import EofVerifier.Proofs.JsonRecords
import EofVerifier.Proofs.JsonText
import EofVerifier.Signature.Json

/-! # Signatures as JSON text

A signature, or an error about one, is written as an object of numbers.  Read back, it is what it
was, and the reader does not mind spaces, the order of the numbers, or further members with any
values (`signature_texts_read_back`). -/

namespace EofVerifier

open Json (Value Numeral Token Member)

/-! ### Numbers -/

namespace Json

/-- The numeral of a natural number is read as this number. -/
theorem Numeral.nat?_ofNat (n : Nat) : (Numeral.ofNat n).nat? = some n := by
  obtain ⟨-, -, hn⟩ := Text.Decimal.denotes_digits n
  simp [Numeral.nat?, Numeral.ofNat, hn]

namespace Value

theorem byte?_number (n : UInt8) : byte? (.number (Numeral.ofNat n.toNat)) = some n := by
  have hn : n.toNat ≤ 0xFF := Nat.le_of_lt_succ n.toNat_lt
  simp [byte?, nat?, Numeral.nat?_ofNat, hn]

theorem word?_number (n : UInt16) : word? (.number (Numeral.ofNat n.toNat)) = some n := by
  have hn : n.toNat ≤ 0xFFFF := Nat.le_of_lt_succ n.toNat_lt
  simp [word?, nat?, Numeral.nat?_ofNat, hn]

/-! ### Records of numbers -/

variable {numbers : List (String × Nat)} {extra : Extra}

theorem writable_ofNumbers (numbers : List (String × Nat)) : Writable (ofNumbers numbers) := by
  refine writable_object fun m hm => ?_
  obtain ⟨n, -, rfl⟩ := List.mem_map.mp hm
  exact ⟨⟨n.1, rfl⟩, writable_number n.2⟩

/-- Numbers with different names are found under their names. -/
theorem fields?_ofNumbers (names : List String) (hnodup : names.Nodup)
    (hnames : numbers.map Prod.fst = names) :
    (ofNumbers numbers).fields? names extra =
      some (numbers.map fun m => some (.number (Numeral.ofNat m.2))) := by
  subst hnames
  have hvalues (m : String × Nat) (hm : m ∈ numbers) :
      valuesOf m.1 (numbers.map fun m => (some m.1, .number (Numeral.ofNat m.2))) =
        [.number (Numeral.ofNat m.2)] := by
    refine valuesOf_of_nodup ?_ (List.mem_map_of_mem hm)
    rw [List.map_map]
    have hsome := hnodup.map (Option.some_injective String)
    rwa [List.map_map] at hsome
  refine fields?_object_eq_some_iff.mpr ⟨?_, ?_, ?_⟩
  · intro m hm
    obtain ⟨n, hn, rfl⟩ := List.mem_map.mp hm
    exact ⟨n.1, rfl, .inr (List.mem_map_of_mem hn)⟩
  · rw [List.forall_mem_map]
    intro m hm
    rw [hvalues m hm]
    rfl
  · rw [List.map_map]
    exact List.map_congr_left fun m hm => by simp [hvalues m hm]

end Value

end Json

namespace Signature

/-- The names of the numbers of a signature. -/
def fieldNames : List String := ["inputs", "outputs", "max_stack_height"]

/-- Reading goes by the fields alone. -/
theorem ofJson?_congr {v w : Value}
    (h : v.fields? fieldNames .skipped = w.fields? fieldNames .skipped) : ofJson? v = ofJson? w := by
  rw [fieldNames] at h
  rw [ofJson?, ofJson?, h]

theorem ofJson?_toJson (s : Signature) : ofJson? s.toJson = some s := by
  have hfields : s.toJson.fields? ["inputs", "outputs", "max_stack_height"] .skipped =
      some [some (.number (.ofNat s.inputs.toNat)), some (.number (.ofNat s.outputs.toNat)),
        some (.number (.ofNat s.maxStackHeight.toNat))] :=
    Value.fields?_ofNumbers _ (by decide) rfl
  rw [ofJson?, hfields]
  simp [Value.byte?_number, Value.word?_number]

theorem writable_toJson (s : Signature) : Value.Writable s.toJson :=
  Value.writable_ofNumbers _

end Signature

namespace SignatureError

/-- The names of the numbers in question. -/
def fieldNames (e : SignatureError) : List String := e.fields.map Prod.fst

theorem nodup_fieldNames (e : SignatureError) : e.fieldNames.Nodup := by
  cases e <;> simp [fieldNames, fields]

theorem ofBody?_congr (e : SignatureError) {v w : Value}
    (h : v.fields? e.fieldNames .skipped = w.fields? e.fieldNames .skipped) :
    ofBody? e.name v = ofBody? e.name w := by
  cases e <;>
  simp only [fieldNames, fields, List.map_cons, List.map_nil] at h <;>
  simp only [name, ofBody?, h]

theorem ofBody?_ofNumbers (e : SignatureError) : ofBody? e.name (.ofNumbers e.fields) = some e := by
  have hfields : (Value.ofNumbers e.fields).fields? e.fieldNames .skipped = some _ :=
    Value.fields?_ofNumbers _ e.nodup_fieldNames rfl
  cases e <;>
  simp only [fieldNames, fields, List.map_cons, List.map_nil] at hfields <;>
  simp [name, ofBody?, fields, hfields, Value.byte?_number, Value.word?_number]

theorem ofJson?_toJson (e : SignatureError) : ofJson? e.toJson = some e :=
  e.ofBody?_ofNumbers

theorem writable_toJson (e : SignatureError) : Value.Writable e.toJson := by
  refine Value.writable_object fun m hm => ?_
  rw [List.mem_singleton] at hm
  subst hm
  exact ⟨⟨e.name, rfl⟩, Value.writable_ofNumbers e.fields⟩

end SignatureError

/-! ### Reading back -/

/-- The members of `body` in some order, and possibly further ones whose keys are not among the
`names`. -/
def Json.Value.Extends (names : List String) (body ms : List Member) : Prop :=
  ∃ further, Value.Further names further ∧ ms.Perm (body ++ further)

/-- **Signatures and their errors are read back from the texts that they are written as.**  The
spaces between the tokens, the order of the members and further members, whatever their values,
make no difference to what is read. -/
theorem signature_texts_read_back :
    (∀ s : Signature, Value.Writes s.toJson.render s.toJson ∧
      (Value.ofText? s.toJson.render).bind Signature.ofJson? = some s) ∧
    (∀ e : SignatureError, Value.Writes e.toJson.render e.toJson ∧
      (Value.ofText? e.toJson.render).bind SignatureError.ofJson? = some e) ∧
    (∀ (body ms : List Member) (text text' : String),
      Value.Extends Signature.fieldNames body ms →
      Value.Writes text (.object body) → Value.Writes text' (.object ms) →
      (Value.ofText? text').bind Signature.ofJson? = (Value.ofText? text).bind Signature.ofJson?) ∧
    (∀ (e : SignatureError) (body ms : List Member) (text text' : String),
      Value.Extends e.fieldNames body ms →
      Value.Writes text (.object [(some e.name, .object body)]) →
      Value.Writes text' (.object [(some e.name, .object ms)]) →
      (Value.ofText? text').bind SignatureError.ofJson? =
        (Value.ofText? text).bind SignatureError.ofJson?) := by
  refine ⟨fun s => ?_, fun e => ?_, ?_, ?_⟩
  · have hwrites := s.writable_toJson.writes_render
    rw [Value.ofText?_eq_some_iff.mpr hwrites]
    exact ⟨hwrites, s.ofJson?_toJson⟩
  · have hwrites := e.writable_toJson.writes_render
    rw [Value.ofText?_eq_some_iff.mpr hwrites]
    exact ⟨hwrites, e.ofJson?_toJson⟩
  · rintro body ms text text' ⟨further, hfurther, hperm⟩ htext htext'
    rw [Value.ofText?_eq_some_iff.mpr htext, Value.ofText?_eq_some_iff.mpr htext']
    exact Signature.ofJson?_congr (Value.fields?_skip hfurther hperm)
  · rintro e body ms text text' ⟨further, hfurther, hperm⟩ htext htext'
    rw [Value.ofText?_eq_some_iff.mpr htext, Value.ofText?_eq_some_iff.mpr htext']
    exact e.ofBody?_congr (Value.fields?_skip hfurther hperm)

/-- A member of the same name inside a further member is skipped with it. -/
theorem signature_texts_read_back_with_note :
    (Value.ofText? (Value.object [(some "InvalidInputValue", .object
      [(some "note", .object [(some "value", .null)]), (some "value", .number (.ofNat 200))])]).render).bind
        SignatureError.ofJson? = some (.inputs 200) := by
  have hnull : Value.Writable .null := by
    rw [Value.Writable, Value.tokens, List.forall_mem_singleton]
    rfl
  have hwritable : Value.Writable (.object
      [(some "note", .object [(some "value", .null)]), (some "value", .number (.ofNat 200))]) :=
    Value.writable_object (List.forall_mem_cons.mpr
      ⟨⟨⟨"note", rfl⟩, Value.writable_object (List.forall_mem_singleton.mpr ⟨⟨"value", rfl⟩, hnull⟩)⟩,
        List.forall_mem_singleton.mpr ⟨⟨"value", rfl⟩, Value.writable_number 200⟩⟩)
  have hextends : Value.Extends (SignatureError.inputs 200).fieldNames
      [(some "value", .number (.ofNat 200))]
      [(some "note", .object [(some "value", .null)]), (some "value", .number (.ofNat 200))] :=
    ⟨[(some "note", .object [(some "value", .null)])],
      List.forall_mem_singleton.mpr ⟨"note", rfl, by decide⟩, List.Perm.swap _ _ []⟩
  obtain ⟨-, hread, -, hsame⟩ := signature_texts_read_back
  obtain ⟨hwrites, he⟩ := hread (.inputs 200)
  refine (hsame (.inputs 200) _ _ _ _ hextends hwrites ?_).trans he
  exact (Value.writable_object (List.forall_mem_singleton.mpr ⟨⟨_, rfl⟩, hwritable⟩)).writes_render

end EofVerifier
