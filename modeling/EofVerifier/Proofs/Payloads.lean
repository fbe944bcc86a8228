import EofVerifier.Proofs.InstructionReading

/-! # Payloads keep their value

An opcode that asks for operand bytes, and for no jump target or section, takes one word: `0x` or
`0X` and at most two digits for each byte (`PayloadWord`).  The word is read as the bytes that
denote the same number, and as exactly as many as the opcode asks for; a word of any other form is
refused (`payload_keeps_value`).

A numeral of fewer digits is filled up with zeros before it is read.  It comes to the same to put
at most one zero before the digits, so that they come in pairs, and the zeros that are still
missing before the bytes (`payload?_eq_completed`). -/

namespace EofVerifier

/-- Only the jumps and the call have operands of their own kinds. -/
theorem Opcode.shape_eq_payload (o : Opcode)
    (h : o.mnemonic ∉ ["RJUMP", "RJUMPI", "RJUMPV", "CALLF"]) :
    o.shape = .payload o.info.immediateSize.toNat := by
  have hall := Opcode.forall_iff (p := fun b info =>
    info.mnemonic ∉ ["RJUMP", "RJUMPI", "RJUMPV", "CALLF"] →
      b ≠ 0xE0 ∧ b ≠ 0xE1 ∧ b ≠ 0xE2 ∧ b ≠ 0xE3)
  obtain ⟨h0, h1, h2, h3⟩ := hall.mpr (by decide +kernel) o h
  unfold shape
  split <;> first | contradiction | rfl

namespace Text.Hex

variable {c : Char} {d size : Nat} {cs : List Char} {ds : List Nat} {bytes : List UInt8}

/-! ### Digits -/

/-- The character is the hexadecimal digit of this value, in either case. -/
def IsDigit (c : Char) (d : Nat) : Prop :=
  d < 16 ∧ (c = Nat.digitChar d ∨ c = (Nat.digitChar d).toUpper)

theorem digit?_eq_some_iff : digit? c = some d ↔ IsDigit c d := by
  constructor
  · intro h
    have hlt : d < 16 := digit?_lt h
    have hcode (d : Fin 16) :
        (Nat.digitChar d).toNat = (if d.val < 10 then 48 + d.val else 87 + d.val) ∧
          (Nat.digitChar d).toUpper.toNat = (if d.val < 10 then 48 + d.val else 55 + d.val) := by
      revert d
      decide
    obtain ⟨hlower, hupper⟩ := hcode ⟨d, hlt⟩
    have hle (a b : Char) : a ≤ b ↔ a.toNat ≤ b.toNat := UInt32.le_iff_toNat_le
    refine ⟨hlt, ?_⟩
    rw [← Char.toNat_inj, ← Char.toNat_inj, hlower, hupper]
    unfold digit? at h
    simp only [hle] at h
    grind
  · rintro ⟨hlt, hc⟩
    have hall : ∀ d : Fin 16, digit? (Nat.digitChar d).toUpper = some d.val := by decide
    rcases hc with rfl | rfl
    · exact digit?_digitChar hlt
    · exact hall ⟨d, hlt⟩

theorem hasDigits_iff : HasDigits cs ds ↔ List.Forall₂ IsDigit cs ds := by
  simp only [HasDigits, digit?_eq_some_iff]

/-- Digits that fit are read as a payload. -/
theorem exists_payload? (hd : HasDigits cs ds) (hne : cs ≠ []) (hle : cs.length ≤ 2 * size) :
    ∃ bytes, payload? size cs = some bytes ∧ bytes.length = size ∧
      bytesValue bytes = value 16 ds := by
  have hpad : HasDigits (List.leftpad (2 * size) '0' cs)
      (List.replicate (2 * size - cs.length) 0 ++ ds) :=
    hasDigits_replicate_append.mpr ⟨ds, rfl, hd⟩
  have hlen : (List.leftpad (2 * size) '0' cs).length = 2 * size := by
    rw [List.length_leftpad]
    omega
  obtain ⟨bytes, hbytes, hsize, hvalue⟩ := exists_decode? hpad hlen
  rw [value_replicate_zero_append] at hvalue
  refine ⟨bytes, ?_, hsize, hvalue⟩
  unfold payload?
  rw [if_neg, hbytes]
  rintro (h | h)
  · exact hne h
  · omega

/-! ### Completing the digits and padding the bytes -/

/-- The characters are pairs of digits, each of which is a byte. -/
inductive Pairs : List Char → List UInt8 → Prop
  | nil : Pairs [] []
  | cons {hi lo : Char} {h l : Nat} {cs : List Char} {bytes : List UInt8} :
    IsDigit hi h → IsDigit lo l → Pairs cs bytes →
      Pairs (hi :: lo :: cs) (UInt8.ofNat (16 * h + l) :: bytes)

theorem decode?_eq_some_iff_pairs : decode? cs = some bytes ↔ Pairs cs bytes := by
  constructor
  · intro h
    fun_induction decode? cs generalizing bytes with
    | case1 =>
      cases h
      exact .nil
    | case2 => cases h
    | case3 hi lo rest ih =>
      simp only [Option.bind_eq_bind, Option.pure_def, Option.bind_eq_some_iff,
        Option.some.injEq] at h
      obtain ⟨h, hh, l, hl, bytes, hbytes, rfl⟩ := h
      exact .cons (digit?_eq_some_iff.mp hh) (digit?_eq_some_iff.mp hl) (ih hbytes)
  · intro h
    induction h with
    | nil => rfl
    | cons hh hl _ ih =>
      simp [decode?, digit?_eq_some_iff.mpr hh, digit?_eq_some_iff.mpr hl, ih]

/-- The digits with a zero in front of them, if there is an odd number of them. -/
def completed (cs : List Char) : List Char := List.replicate (cs.length % 2) '0' ++ cs

theorem length_completed (cs : List Char) :
    (completed cs).length = 2 * ((cs.length + 1) / 2) := by
  rw [completed, List.length_append, List.length_replicate]
  omega

theorem bytesValue_leftpad (size : Nat) (bytes : List UInt8) :
    bytesValue (List.leftpad size 0 bytes) = bytesValue bytes := by
  rw [bytesValue, List.leftpad, List.map_append, List.map_replicate]
  exact value_replicate_zero_append _ _ _

/-- With any decoder of pairs, it comes to the same to complete the digits to pairs before they
are decoded and to put the zeros that are missing before the bytes. -/
theorem payload?_eq_completed {decode : List Char → Option (List UInt8)}
    (hdecode : ∀ cs bytes, decode cs = some bytes ↔ Pairs cs bytes) (size : Nat)
    (cs : List Char) : payload? size cs =
      if cs = [] then none
      else (decode (completed cs)).bind fun bytes =>
        if size < bytes.length then none else some (List.leftpad size 0 bytes) := by
  have hpairs : decode (completed cs) = decode? (completed cs) := by
    apply Option.ext
    intro bytes
    rw [hdecode, decode?_eq_some_iff_pairs]
  rw [hpairs]
  by_cases hne : cs = []
  · simp [payload?, hne]
  · rw [if_neg hne]
    apply Option.ext
    intro bytes
    rw [payload?_eq_some_iff, Option.bind_eq_some_iff]
    have hlength := length_completed cs
    constructor
    · rintro ⟨hle, hsize, -, ds, hd, hvalue⟩
      have hcompleted : HasDigits (completed cs) (List.replicate (cs.length % 2) 0 ++ ds) :=
        hasDigits_replicate_append.mpr ⟨ds, rfl, hd⟩
      obtain ⟨bytes', hbytes', hsize', hvalue'⟩ := exists_decode? hcompleted hlength
      refine ⟨bytes', hbytes', ?_⟩
      rw [if_neg (by omega), Option.some.injEq]
      apply eq_of_bytesValue_eq
      · rw [List.length_leftpad]
        omega
      · rw [bytesValue_leftpad, hvalue', value_replicate_zero_append, hvalue]
    · rintro ⟨bytes', hbytes', hpadded⟩
      obtain ⟨hlen, _, hcompleted, hvalue⟩ := decode?_eq_some_iff.mp hbytes'
      obtain ⟨ds, rfl, hd⟩ := hasDigits_replicate_append.mp hcompleted
      rw [value_replicate_zero_append] at hvalue
      split at hpadded
      · cases hpadded
      · cases hpadded
        refine ⟨by omega, ?_, hne, ds, hd, ?_⟩
        · rw [List.length_leftpad]
          omega
        · rw [bytesValue_leftpad, hvalue]

end Text.Hex

namespace Assembly

variable {o : Opcode} {size : Nat} {v w : Word} {ws : List Word} {ds : List Nat}
  {bytes : List UInt8}

/-! ### Words -/

/-- The word is `0x` or `0X` and from one to `2 * size` hexadecimal digits of these values. -/
inductive PayloadWord (size : Nat) : Word → List Nat → Prop
  | mk {x : Char} {digits : Word} {ds : List Nat} :
    x = 'x' ∨ x = 'X' → 1 ≤ digits.length → digits.length ≤ 2 * size →
      List.Forall₂ Text.Hex.IsDigit digits ds → PayloadWord size ('0' :: x :: digits) ds

/-- The digits of a word are read as bytes that denote the same number. -/
theorem PayloadWord.read (h : PayloadWord size w ds) :
    ∃ bytes, readPayload? size w = some bytes ∧ bytes.length = size ∧
      Nat.ofDigits 256 (bytes.map UInt8.toNat).reverse = Nat.ofDigits 16 ds.reverse := by
  cases h with
  | @mk x digits _ hx hpos hle hd =>
    have hread : readPayload? size ('0' :: x :: digits) = Text.Hex.payload? size digits := by
      rcases hx with rfl | rfl <;> rfl
    rw [hread]
    apply Text.Hex.exists_payload? (Text.Hex.hasDigits_iff.mpr hd) _ hle
    exact List.ne_nil_of_length_pos hpos

theorem exists_payloadWord (h : readPayload? size w = some bytes) :
    ∃ ds, PayloadWord size w ds := by
  cases readPayload?_eq_some_iff.mp h with
  | payload hx hle _ hdenotes =>
    obtain ⟨hne, ds, hd, -⟩ := hdenotes
    exact ⟨ds, .mk hx (List.length_pos_iff.mpr hne) hle (Text.Hex.hasDigits_iff.mp hd)⟩

theorem PayloadWord.isWord (h : PayloadWord size w ds) : IsWord w := by
  cases h with
  | mk hx _ _ hd => exact isWord_hex hx (Text.Hex.hasDigits_iff.mpr hd)

/-! ### Instructions -/

theorem readOperand_payload (hshape : o.shape = .payload size) (hsize : 1 ≤ size) :
    readOperand o (w :: ws) =
      match readPayload? size w with
      | some bytes => .ok (.payload bytes, ws)
      | none => .error (.invalidOperand (String.ofList w)) := by
  obtain ⟨k, rfl⟩ : ∃ k, size = k + 1 := ⟨size - 1, by omega⟩
  unfold readOperand
  rw [hshape]
  cases h : readPayload? (k + 1) w <;> simp [readWord, h]

theorem Names.read (h : Names v o) :
    Item.read v ws = (fun r => (.instruction o r.1, r.2)) <$> readOperand o ws := by
  unfold Item.read
  simp only [h.labelName?, opcodeOf?_eq_some_iff.mpr h]
  cases readOperand o ws <;> rfl

/-- A text of one mnemonic and one word has at most one item. -/
theorem scan_mnemonic_word (hw : IsWord w) : scan (o.mnemonic ++ " " ++ String.ofList w) =
    ((scanWords [o.mnemonic.toList, w]).1.map (⟨1, ·⟩),
      (scanWords [o.mnemonic.toList, w]).2.map (⟨1, ·⟩)) := by
  have htext : o.mnemonic ++ " " ++ String.ofList w =
      String.ofList ([' '].intercalate [o.mnemonic.toList, w]) := by
    simp [← String.toList_inj]
  rw [htext]
  apply scan_inline
  apply inline_intercalate (by simp)
  simp [isWord_mnemonic, hw]

theorem assemble_of_read (hw : IsWord w)
    (h : Item.read o.mnemonic.toList [w] = .ok (.instruction o (.payload bytes), [])) :
    assemble (o.mnemonic ++ " " ++ String.ofList w) = .ok #[⟨o, .payload bytes⟩] := by
  have hwords : scanWords [o.mnemonic.toList, w] = ([.instruction o (.payload bytes)], none) := by
    rw [scanWords]
    split <;> rename_i hread
    · rw [h] at hread
      cases hread
    · rw [h] at hread
      cases hread
      rw [scanWords]
  unfold assemble
  rw [scan_mnemonic_word hw, hwords]
  rfl

theorem assemble_of_not_read {f : Fault} (hw : IsWord w)
    (h : Item.read o.mnemonic.toList [w] = .error f) :
    assemble (o.mnemonic ++ " " ++ String.ofList w) = .error ⟨1, f⟩ := by
  have hwords : scanWords [o.mnemonic.toList, w] = ([], some f) := by
    rw [scanWords]
    split <;> rename_i hread
    · rw [h] at hread
      cases hread
      rfl
    · rw [h] at hread
      cases hread
  unfold assemble
  rw [scan_mnemonic_word hw, hwords]
  rfl

/-! ### Main theorem -/

/-- **A payload is a word of digits that fit, and the bytes denote the number of the digits.**
With an opcode that asks for operand bytes, and is none of the jumps or the call, such a word is
read as exactly as many bytes, in an instruction with any words behind it and in a text of its own,
and every other word is refused. -/
theorem payload_keeps_value (hsize : 1 ≤ o.info.immediateSize.toNat)
    (hother : o.mnemonic ∉ ["RJUMP", "RJUMPI", "RJUMPV", "CALLF"]) (hw : IsWord w) :
    (∀ ds, PayloadWord o.info.immediateSize.toNat w ds →
      ∃ bytes : List UInt8, bytes.length = o.info.immediateSize.toNat ∧
        Nat.ofDigits 256 (bytes.map UInt8.toNat).reverse = Nat.ofDigits 16 ds.reverse ∧
        (∀ v ws, Names v o →
          Item.read v (w :: ws) = .ok (.instruction o (.payload bytes), ws)) ∧
        assemble (o.mnemonic ++ " " ++ String.ofList w) = .ok #[⟨o, .payload bytes⟩]) ∧
      ((∀ ds, ¬ PayloadWord o.info.immediateSize.toNat w ds) →
        (∀ v ws, Names v o →
          Item.read v (w :: ws) = .error (.invalidOperand (String.ofList w))) ∧
        assemble (o.mnemonic ++ " " ++ String.ofList w) =
          .error ⟨1, .invalidOperand (String.ofList w)⟩) := by
  have hread {v : Word} {ws : List Word} (hv : Names v o) : Item.read v (w :: ws) =
      match readPayload? o.info.immediateSize.toNat w with
      | some bytes => .ok (.instruction o (.payload bytes), ws)
      | none => .error (.invalidOperand (String.ofList w)) := by
    rw [hv.read, readOperand_payload (o.shape_eq_payload hother) hsize]
    cases readPayload? o.info.immediateSize.toNat w <;> rfl
  constructor
  · intro ds hds
    obtain ⟨bytes, hbytes, hlength, hvalue⟩ := hds.read
    simp only [hbytes] at hread
    exact ⟨bytes, hlength, hvalue, fun v ws => hread,
      assemble_of_read hw (hread (names_mnemonic o))⟩
  · intro hnot
    have hnone : readPayload? o.info.immediateSize.toNat w = none := by
      by_contra hsome
      obtain ⟨bytes, hbytes⟩ := Option.ne_none_iff_exists'.mp hsome
      obtain ⟨ds, hds⟩ := exists_payloadWord hbytes
      exact hnot ds hds
    simp only [hnone] at hread
    exact ⟨fun v ws => hread, assemble_of_not_read hw (hread (names_mnemonic o))⟩

/-- Three digits for four bytes are read, with zeros on the left; for one byte they are too many. -/
theorem payload_keeps_value_threeDigits :
    assemble "PUSH4 0XaBc" = .ok #[Instruction.ofByte 0x63 (.payload [0x00, 0x00, 0x0A, 0xBC])] ∧
      assemble "PUSH1 0XaBc" = .error ⟨1, .invalidOperand "0XaBc"⟩ := by
  have hdigits : List.Forall₂ Text.Hex.IsDigit ['a', 'B', 'c'] [10, 11, 12] := by
    simp [Text.Hex.IsDigit]
    decide
  have hword : PayloadWord 4 ['0', 'X', 'a', 'B', 'c'] [10, 11, 12] :=
    .mk (.inr rfl) (by decide) (by decide) hdigits
  constructor
  · obtain ⟨bytes, hlength, hvalue, -, hassemble⟩ := (payload_keeps_value
      (o := (Instruction.ofByte 0x63 .none).opcode) (by decide +kernel) (by decide +kernel)
      hword.isWord).1 _ hword
    have hbytes : bytes = [0x00, 0x00, 0x0A, 0xBC] :=
      Text.Hex.eq_of_bytesValue_eq hlength (hvalue.trans (by decide))
    rw [hbytes] at hassemble
    exact hassemble
  · have hnot : ∀ ds, ¬ PayloadWord 1 ['0', 'X', 'a', 'B', 'c'] ds := by
      rintro ds ⟨-, -, hle, -⟩
      simp at hle
    exact ((payload_keeps_value (o := (Instruction.ofByte 0x60 .none).opcode)
      (by decide +kernel) (by decide +kernel) hword.isWord).2 hnot).2

end Assembly

end EofVerifier
