import EofVerifier.Text.Decimal
import EofVerifier.Text.Hex
import Mathlib.Data.List.Forall2
import Mathlib.Data.Nat.Digits.Lemmas

/-! # What numerals denote

The readers of numerals accept exactly the numerals of their kind, and give the number that
these denote.  A decimal numeral is a nonempty run of ASCII digits (`Decimal.Denotes`).  A
hexadecimal one is a nonempty run of digits of either case (`Hex.Denotes`); read as a payload of
some size, it gives the bytes that denote the same number and are that many
(`Hex.payload?_eq_some_iff`).  Numerals that are written denote the number that was meant
(`Decimal.denotes_digits`, `Hex.denotes_padded`), and bytes that are written are read back
(`Hex.payload?_encode`). -/

namespace EofVerifier.Text

/-! ### Decimal numerals -/

namespace Decimal

/-- The characters are decimal digits, and write this number. -/
def Denotes (cs : List Char) (n : Nat) : Prop :=
  cs ≠ [] ∧ (∀ c ∈ cs, c.isDigit = true) ∧ Nat.ofDigitChars 10 cs 0 = n

theorem read?_eq_some_iff {cs : List Char} {n : Nat} : read? cs = some n ↔ Denotes cs n := by
  have hall : cs.all Char.isDigit = true ↔ ∀ c ∈ cs, c.isDigit = true := List.all_eq_true
  unfold read? Denotes
  split
  · rename_i h
    rw [Option.some.injEq, and_iff_right h.1, and_iff_right (hall.mp h.2)]
  · rename_i h
    simp only [reduceCtorEq, false_iff]
    exact fun hd => h ⟨hd.1, hall.mpr hd.2.1⟩

theorem denotes_digits (n : Nat) : Denotes (digits n) n :=
  read?_eq_some_iff.mp (read?_digits n)

/-- A number within the bound, written with or without a plus sign. -/
theorem readUnsigned?_eq_some_iff {bound n : Nat} {cs : List Char} :
    readUnsigned? bound cs = some n ↔
      ∃ digits, (cs = digits ∨ cs = '+' :: digits) ∧ Denotes digits n ∧ n ≤ bound := by
  have hfilter (ds : List Char) :
      (read? ds).filter (· ≤ bound) = some n ↔ Denotes ds n ∧ n ≤ bound := by
    rw [Option.filter_eq_some_iff, read?_eq_some_iff, decide_eq_true_iff]
  unfold readUnsigned?
  split
  · rename_i rest
    rw [hfilter]
    constructor
    · intro h
      exact ⟨rest, .inr rfl, h⟩
    · rintro ⟨ds, rfl | hcs, h⟩
      · -- A plus sign is no digit.
        have hplus := h.1.2.1 '+' List.mem_cons_self
        simp at hplus
      · cases hcs
        exact h
  · rename_i hplus
    rw [hfilter]
    constructor
    · intro h
      exact ⟨cs, .inl rfl, h⟩
    · rintro ⟨ds, rfl | rfl, h⟩
      · exact h
      · exact absurd rfl (hplus ds)

end Decimal

/-! ### Hexadecimal numerals -/

namespace Hex

/-- The characters are hexadecimal digits of these values. -/
abbrev HasDigits (cs : List Char) (ds : List Nat) : Prop :=
  List.Forall₂ (fun c d => digit? c = some d) cs ds

/-- The number that digits of base `b` denote, the most significant first. -/
def value (b : Nat) (ds : List Nat) : Nat := Nat.ofDigits b ds.reverse

/-- The characters are hexadecimal digits, and write this number. -/
def Denotes (cs : List Char) (n : Nat) : Prop :=
  cs ≠ [] ∧ ∃ ds, HasDigits cs ds ∧ value 16 ds = n

/-- The number that bytes denote, the most significant first. -/
def bytesValue (bytes : List UInt8) : Nat := value 256 (bytes.map UInt8.toNat)

theorem value_cons (b d : Nat) (ds : List Nat) :
    value b (d :: ds) = b ^ ds.length * d + value b ds := by
  unfold value
  rw [List.reverse_cons, Nat.ofDigits_append, Nat.ofDigits_singleton, List.length_reverse,
    Nat.add_comm]

theorem value_append (b : Nat) (ds es : List Nat) :
    value b (ds ++ es) = b ^ es.length * value b ds + value b es := by
  unfold value
  rw [List.reverse_append, Nat.ofDigits_append, List.length_reverse, Nat.add_comm]

theorem value_replicate_zero_append (b k : Nat) (ds : List Nat) :
    value b (List.replicate k 0 ++ ds) = value b ds := by
  induction k with
  | zero => rfl
  | succ k ih =>
    rw [List.replicate_succ, List.cons_append, value_cons, ih, Nat.mul_zero, Nat.zero_add]

/-- Byte strings of one length that denote one number are the same. -/
theorem eq_of_bytesValue_eq {l r : List UInt8} (hlen : l.length = r.length)
    (h : bytesValue l = bytesValue r) : l = r := by
  have hlt (bs : List UInt8) : ∀ d ∈ (bs.map UInt8.toNat).reverse, d < 256 := by
    intro d hd
    obtain ⟨b, -, rfl⟩ := List.mem_map.mp (List.mem_reverse.mp hd)
    exact b.toNat_lt
  have hdigits := Nat.ofDigits_inj_of_len_eq (by decide) (by simpa using hlen) (hlt l) (hlt r) h
  exact List.map_injective_iff.mpr (fun _ _ => UInt8.toNat_inj.mp) (List.reverse_injective hdigits)

theorem digit?_lt {c : Char} {d : Nat} (h : digit? c = some d) : d < 16 := by
  have hle (a b : Char) : a ≤ b ↔ a.toNat ≤ b.toNat := UInt32.le_iff_toNat_le
  have h0 : '0'.toNat = 48 := rfl
  have h9 : '9'.toNat = 57 := rfl
  have ha : 'a'.toNat = 97 := rfl
  have hf : 'f'.toNat = 102 := rfl
  have hA : 'A'.toNat = 65 := rfl
  have hF : 'F'.toNat = 70 := rfl
  unfold digit? at h
  simp only [hle] at h
  split at h
  · cases h; omega
  · split at h
    · cases h; omega
    · split at h
      · cases h; omega
      · cases h

theorem digit?_digitChar {d : Nat} (h : d < 16) : digit? (Nat.digitChar d) = some d := by
  have hall : ∀ d : Fin 16, digit? (Nat.digitChar d) = some d.val := by decide
  exact hall ⟨d, h⟩

/-! ### Reading bytes -/

/-- Two digits make a byte of the same value. -/
theorem toNat_byte {h l : Nat} (hh : h < 16) (hl : l < 16) :
    (UInt8.ofNat (16 * h + l)).toNat = 16 * h + l :=
  UInt8.toNat_ofNat_of_lt (by simp only [UInt8.size]; omega)

theorem bytesValue_cons (b : UInt8) (bytes : List UInt8) :
    bytesValue (b :: bytes) = 256 ^ bytes.length * b.toNat + bytesValue bytes := by
  unfold bytesValue
  rw [List.map_cons, value_cons, List.length_map]

/-- An even number of digits is read as half as many bytes, which denote the same number. -/
theorem exists_decode? {cs : List Char} {ds : List Nat} (hd : HasDigits cs ds) {size : Nat}
    (hlen : cs.length = 2 * size) :
    ∃ bytes, decode? cs = some bytes ∧ bytes.length = size ∧ bytesValue bytes = value 16 ds := by
  induction size generalizing cs ds with
  | zero =>
    obtain rfl : cs = [] := List.length_eq_zero_iff.mp hlen
    cases hd
    exact ⟨[], rfl, rfl, rfl⟩
  | succ size ih =>
    cases hd with
    | nil => simp at hlen
    | @cons hi h cs ds hh hrest =>
      cases hrest with
      | nil => simp at hlen; omega
      | @cons lo l cs ds hl hrest =>
        have hcs : cs.length = 2 * size := by simp at hlen; omega
        obtain ⟨bytes, hbytes, hsize, hvalue⟩ := ih hrest hcs
        refine ⟨UInt8.ofNat (16 * h + l) :: bytes, ?_, by simp [hsize], ?_⟩
        · simp [decode?, hh, hl, hbytes]
        · have hpow : 256 ^ size = 16 ^ ds.length := by
            rw [← hrest.length_eq, hcs, Nat.pow_mul]
          rw [bytesValue_cons, toNat_byte (digit?_lt hh) (digit?_lt hl), hvalue, hsize, hpow,
            value_cons, value_cons, List.length_cons, Nat.pow_succ]
          ring

/-- What is read as bytes is an even number of digits. -/
theorem hasDigits_of_decode? {cs : List Char} {bytes : List UInt8} (h : decode? cs = some bytes) :
    cs.length = 2 * bytes.length ∧ ∃ ds, HasDigits cs ds := by
  fun_induction decode? cs generalizing bytes with
  | case1 =>
    cases h
    exact ⟨rfl, [], .nil⟩
  | case2 => cases h
  | case3 hi lo rest ih =>
    simp only [Option.bind_eq_bind, Option.pure_def, Option.bind_eq_some_iff,
      Option.some.injEq] at h
    obtain ⟨h, hh, l, hl, bytes, hbytes, rfl⟩ := h
    obtain ⟨hlen, ds, hd⟩ := ih hbytes
    refine ⟨?_, h :: l :: ds, .cons hh (.cons hl hd)⟩
    rw [List.length_cons, List.length_cons, List.length_cons, hlen]
    omega

/-- Digits are read as the bytes that denote their number, if they come in pairs. -/
theorem decode?_eq_some_iff {cs : List Char} {bytes : List UInt8} : decode? cs = some bytes ↔
    cs.length = 2 * bytes.length ∧ ∃ ds, HasDigits cs ds ∧ value 16 ds = bytesValue bytes := by
  constructor
  · intro h
    obtain ⟨hlen, ds, hd⟩ := hasDigits_of_decode? h
    obtain ⟨bytes', h', -, hvalue⟩ := exists_decode? hd hlen
    obtain rfl : bytes = bytes' := Option.some.inj (h.symm.trans h')
    exact ⟨hlen, ds, hd, hvalue.symm⟩
  · rintro ⟨hlen, ds, hd, hvalue⟩
    obtain ⟨bytes', h', hlen', hvalue'⟩ := exists_decode? hd hlen
    rw [h', eq_of_bytesValue_eq hlen' (hvalue'.trans hvalue)]

/-- Zeros on the left are digits that do not change the number. -/
theorem hasDigits_replicate_append {k : Nat} {cs : List Char} {ds : List Nat} :
    HasDigits (List.replicate k '0' ++ cs) ds ↔
      ∃ ds', ds = List.replicate k 0 ++ ds' ∧ HasDigits cs ds' := by
  induction k generalizing ds with
  | zero => simp
  | succ k ih =>
    rw [List.replicate_succ, List.cons_append, HasDigits, List.forall₂_cons_left_iff]
    simp only [ih]
    constructor
    · rintro ⟨d, _, hd, ⟨ds', rfl, h⟩, rfl⟩
      obtain rfl : 0 = d := Option.some.inj hd
      exact ⟨ds', rfl, h⟩
    · rintro ⟨ds', rfl, h⟩
      exact ⟨0, _, rfl, ⟨ds', rfl, h⟩, rfl⟩

/-- A payload is read from at most two digits for each byte, and denotes their number. -/
theorem payload?_eq_some_iff {size : Nat} {digits : List Char} {bytes : List UInt8} :
    payload? size digits = some bytes ↔
      digits.length ≤ 2 * size ∧ bytes.length = size ∧ Denotes digits (bytesValue bytes) := by
  unfold payload? Denotes
  split
  · rename_i h
    simp only [reduceCtorEq, false_iff]
    rintro ⟨hle, -, hne, -⟩
    rcases h with h | h
    · exact hne h
    · omega
  · rename_i h
    have hne : digits ≠ [] := fun heq => h (.inl heq)
    have hle : digits.length ≤ 2 * size := Nat.le_of_not_lt fun hlt => h (.inr hlt)
    rw [decode?_eq_some_iff, List.leftpad, List.length_append, List.length_replicate]
    simp only [hasDigits_replicate_append]
    constructor
    · rintro ⟨hlen, _, ⟨ds, rfl, hd⟩, hvalue⟩
      rw [value_replicate_zero_append] at hvalue
      exact ⟨hle, by omega, hne, ds, hd, hvalue⟩
    · rintro ⟨-, hsize, -, ds, hd, hvalue⟩
      refine ⟨by omega, _, ⟨ds, rfl, hd⟩, ?_⟩
      rw [value_replicate_zero_append, hvalue]

/-! ### Writing -/

theorem decode?_encode (bytes : List UInt8) : decode? (encode bytes) = some bytes := by
  induction bytes with
  | nil => rfl
  | cons b bytes ih =>
    have hb : b.toNat < 256 := b.toNat_lt
    have hh : digit? (Nat.digitChar (b.toNat / 16)) = some (b.toNat / 16) :=
      digit?_digitChar (by omega)
    have hl : digit? (Nat.digitChar (b.toNat % 16)) = some (b.toNat % 16) :=
      digit?_digitChar (by omega)
    have hsum : UInt8.ofNat (16 * (b.toNat / 16) + b.toNat % 16) = b := by
      rw [Nat.div_add_mod, UInt8.ofNat_toNat]
    have hcons : encode (b :: bytes) =
        Nat.digitChar (b.toNat / 16) :: Nat.digitChar (b.toNat % 16) :: encode bytes := rfl
    rw [hcons, decode?, hh, hl, ih]
    exact congrArg (fun x => some (x :: bytes)) hsum

/-- Bytes that are written are read back as a payload of their size. -/
theorem payload?_encode {bytes : List UInt8} (hne : bytes ≠ []) :
    payload? bytes.length (encode bytes) = some bytes := by
  obtain ⟨hlen, ds, hd, hvalue⟩ := decode?_eq_some_iff.mp (decode?_encode bytes)
  have hpos : 0 < bytes.length := List.length_pos_iff.mpr hne
  refine payload?_eq_some_iff.mpr ⟨by omega, rfl, ?_, ds, hd, hvalue⟩
  exact List.ne_nil_of_length_pos (by omega)

theorem hasDigits_toDigits (n : Nat) :
    ∃ ds, HasDigits (Nat.toDigits 16 n) ds ∧ value 16 ds = n := by
  induction n using Nat.strongRecOn with
  | _ n ih =>
    rw [Nat.toDigits_eq_if (by decide)]
    split
    · rename_i hlt
      exact ⟨[n], .cons (digit?_digitChar hlt) .nil, by simp [value]⟩
    · rename_i hge
      obtain ⟨ds, hd, hvalue⟩ := ih (n / 16) (by omega)
      have hlast : digit? (Nat.digitChar (n % 16)) = some (n % 16) := digit?_digitChar (by omega)
      refine ⟨ds ++ [n % 16], List.rel_append hd (.cons hlast .nil), ?_⟩
      rw [value_append, hvalue]
      simp [value]
      omega

/-- A number is written with at least so many digits, which denote it. -/
theorem denotes_padded (width n : Nat) : Denotes (padded width n) n := by
  obtain ⟨ds, hd, hvalue⟩ := hasDigits_toDigits n
  unfold padded Denotes
  rw [List.leftpad]
  refine ⟨?_, _, hasDigits_replicate_append.mpr ⟨ds, rfl, hd⟩, ?_⟩
  · rw [Nat.toDigits_eq_if (by decide)]
    split <;> simp
  · rw [value_replicate_zero_append, hvalue]

end Hex

end EofVerifier.Text
