import EofVerifier.Proofs.SameEffects
import EofVerifier.Proofs.Rejections

/-! # The declared height

A section declares its largest height, and the verification compares the declaration with what it
finds.  `TypeSection.declaring` puts another declaration in the place of the one that a section
makes.  This may also be a section that calls itself, so the entry is seen by the walk; but the
walk sees of an entry only the arity, and finds the same whatever is declared
(`Section.verify_declaring`).  The declaration is left to the last comparison, which one value
passes if any does (`Section.conclude_cases`). -/

namespace EofVerifier

/-- The type section in which the section with this index declares `m`. -/
def TypeSection.declaring (types : TypeSection) (index : Nat) (m : UInt16) : TypeSection :=
  types.modify index ({ · with maxStackHeight := m })

namespace TypeSection

variable {types : TypeSection} {index : Nat} {own : Signature}

theorem getElem?_declaring (hown : types[index]? = some own) (m : UInt16) :
    (types.declaring index m)[index]? = some { own with maxStackHeight := m } := by
  unfold declaring
  rw [Array.getElem?_modify, if_pos rfl, hown]
  rfl

/-- The given type section is the one with some declaration, with any if the section is not
listed. -/
theorem exists_declaring_eq_self (types : TypeSection) (index : Nat) :
    ∃ m, types.declaring index m = types := by
  refine ⟨types[index]?.elim 0 (·.maxStackHeight), Array.ext_getElem? fun q => ?_⟩
  unfold declaring
  rw [Array.getElem?_modify]
  split
  · rename_i hq
    subst hq
    cases types[index]? <;> rfl
  · rfl

/-- Calls do not depend on what a section declares. -/
theorem arity?_declaring (types : TypeSection) (index : Nat) (m : UInt16) (f : Nat) :
    (types.declaring index m).arity? f = types.arity? f := by
  unfold declaring arity?
  rw [Array.getElem?_modify]
  split
  · rw [Option.map_map]
    rfl
  · rfl

end TypeSection

namespace Section

variable {types : TypeSection} {index : Nat} {code : Code} {own : Signature}

/-! ### The walk -/

/-- The section with this index, when it declares `m`. -/
def declaring (s : Section) (index : Nat) (m : UInt16) : Section :=
  { s with own := { s.own with maxStackHeight := m }, types := s.types.declaring index m }

theorem alike_declaring (s : Section) (index : Nat) (m : UInt16) :
    (s.declaring index m).Alike s where
  size := rfl
  inputs := rfl
  outputs := rfl
  code := by
    intro p i i' hi hi'
    obtain rfl : i = i' := Option.some.inj (hi.symm.trans hi')
    exact Instruction.alike_of_sameEffect (.refl _) fun f _ => s.types.arity?_declaring index m f

/-- What is found does not depend on the declared height, which is only compared with it. -/
theorem verify_declaring (hown : types[index]? = some own) (m : UInt16) :
    verify (types.declaring index m) index code =
      (found { code, own, types }).bind (conclude (declaring { code, own, types } index m)) := by
  rw [← (alike_declaring _ index m).found_eq]
  exact verify_eq_found (TypeSection.getElem?_declaring hown m)

/-- A failure that is found before the heights are judged is not about the declared one. -/
theorem violation_ne_of_found {s : Section} {f : Failure} (h : s.found = .error f) :
    f.violation ≠ .heightMismatch := by
  intro hv
  by_cases hs : s.Formed
  · obtain ⟨hne, hm⟩ := formed_iff.mp hs
    unfold found at h
    rw [hne, hm] at h
    simp only [Bool.false_eq_true, if_false] at h
    have hends := State.ends_run s (State.initial s)
    generalize (State.initial s).run s = r at h hends
    cases r with
    | ok st => cases h
    | error halt =>
      cases h
      have hpath := hends.ofPath hs
      rw [hv] at hpath
      cases hpath
  · have hexamine : s.examine.2 = .error f := by
      rw [examine_eq_found, h]
      rfl
    have hmem := mem_malformed_of_not_formed hs hexamine
    rw [hv] at hmem
    exact absurd hmem (by decide)

/-! ### The last comparison -/

/-- Recorded heights are refused for another reason, or are accepted with one declared height
only. -/
theorem conclude_cases (recorded : List (Option Nat)) :
    (∃ f : Failure, f.violation ≠ .heightMismatch ∧ ∀ s : Section, s.conclude recorded = .error f) ∨
    ∃ (m₀ : UInt16) (p : Nat), m₀.toNat ≤ Limits.maxStackHeight ∧
      ∀ s : Section, s.conclude recorded =
        if s.own.maxStackHeight = m₀ then .ok m₀ else .error ⟨.heightMismatch, p⟩ := by
  unfold conclude
  cases recorded.findIdx? (·.isNone) with
  | some p => exact .inl ⟨⟨.unreachable, p⟩, nofun, fun s => rfl⟩
  | none =>
    simp only
    generalize recorded.filterMap id = heights
    by_cases hlimit : Limits.maxStackHeight < peak heights
    · refine .inl ⟨⟨.heightAboveLimit, heights.idxOf (peak heights)⟩, nofun, fun s => ?_⟩
      rw [if_pos hlimit]
    · have hle : peak heights ≤ Limits.maxStackHeight := Nat.le_of_not_lt hlimit
      have hpeak : (UInt16.ofNat (peak heights)).toNat = peak heights :=
        UInt16.toNat_ofNat_of_lt' (Nat.lt_of_le_of_lt hle (by decide))
      have hlimit₀ : (UInt16.ofNat (peak heights)).toNat ≤ Limits.maxStackHeight := by
        rw [hpeak]
        exact hle
      refine .inr ⟨UInt16.ofNat (peak heights), heights.idxOf (peak heights), hlimit₀, fun s => ?_⟩
      have hdeclared : peak heights ≠ s.own.maxStackHeight.toNat ↔
          ¬ s.own.maxStackHeight = UInt16.ofNat (peak heights) := by
        rw [← UInt16.toNat_inj, hpeak, ne_comm]
      simp only [if_neg hlimit, hdeclared, ite_not]

/-- The verdicts for all declared heights: one failure, or one height that is accepted. -/
theorem verify_declaring_cases (types : TypeSection) (index : Nat) (code : Code) :
    (∃ f : Failure, f.violation ≠ .heightMismatch ∧
      ∀ m, verify (types.declaring index m) index code = .error f) ∨
    ∃ (m₀ : UInt16) (p : Nat), m₀.toNat ≤ Limits.maxStackHeight ∧
      ∀ m, verify (types.declaring index m) index code =
        if m = m₀ then .ok m₀ else .error ⟨.heightMismatch, p⟩ := by
  cases hown : types[index]? with
  | none =>
    refine .inl ⟨⟨.unknownSection, 0⟩, nofun, fun m => ?_⟩
    unfold verify inspect TypeSection.declaring
    rw [Array.getElem?_modify, if_pos rfl, hown]
    rfl
  | some own =>
    have hjudged (m : UInt16) : verify (types.declaring index m) index code = _ :=
      verify_declaring hown m
    cases hfound : found { code, own, types } with
    | error f =>
      simp only [hfound, Except.bind] at hjudged
      exact .inl ⟨f, violation_ne_of_found hfound, hjudged⟩
    | ok recorded =>
      simp only [hfound, Except.bind] at hjudged
      rcases conclude_cases recorded with ⟨f, hf, hall⟩ | ⟨m₀, p, hle, hall⟩
      · exact .inl ⟨f, hf, fun m => (hjudged m).trans (hall _)⟩
      · exact .inr ⟨m₀, p, hle, fun m => (hjudged m).trans (hall _)⟩

/-- **The declared height decides the last comparison only.**  Either every declaration is refused
with one failure, or one declaration is accepted, within the limit, and every other is refused as
a mismatch at one position.  So after a mismatch one declaration makes the section valid, and
after any other failure none does. -/
theorem declared_height_decides_last (types : TypeSection) (index : Nat) (code : Code) :
    ((∃ f, ∀ m, verify (types.declaring index m) index code = .error f) ∨
      ∃ (m₀ : UInt16) (p : Nat), m₀.toNat ≤ Limits.maxStackHeight ∧
        verify (types.declaring index m₀) index code = .ok m₀ ∧
        ∀ m, m ≠ m₀ →
          verify (types.declaring index m) index code = .error ⟨.heightMismatch, p⟩) ∧
    ∀ f, verify types index code = .error f →
      (f.violation = .heightMismatch →
        ∃! m, ∃ k, verify (types.declaring index m) index code = .ok k) ∧
      (f.violation ≠ .heightMismatch →
        ∀ m, verify (types.declaring index m) index code = .error f) := by
  -- The verdict on the section as it is given is one of those compared.
  obtain ⟨m', hgiven⟩ := types.exists_declaring_eq_self index
  rcases verify_declaring_cases types index code with ⟨f, hv, hall⟩ | ⟨m₀, p, hle, hall⟩
  · refine ⟨.inl ⟨f, hall⟩, fun f' hf' => ?_⟩
    rw [← hgiven, hall] at hf'
    cases hf'
    exact ⟨fun h => absurd h hv, fun _ => hall⟩
  · have hm₀ : verify (types.declaring index m₀) index code = .ok m₀ := by
      rw [hall, if_pos rfl]
    have hother (m : UInt16) (hm : m ≠ m₀) :
        verify (types.declaring index m) index code = .error ⟨.heightMismatch, p⟩ := by
      rw [hall, if_neg hm]
    refine ⟨.inr ⟨m₀, p, hle, hm₀, hother⟩, fun f hf => ⟨fun _ => ⟨m₀, ⟨m₀, hm₀⟩, ?_⟩, ?_⟩⟩
    · rintro m ⟨k, hk⟩
      by_contra hm
      rw [hother m hm] at hk
      cases hk
    · intro hne
      rw [← hgiven, hall] at hf
      split at hf
      · cases hf
      · cases hf
        exact absurd rfl hne

/-- The counting loop is refused when it declares three items, and just one declaration makes it
valid. -/
theorem declared_height_decides_last_countingLoop :
    verify #[⟨0, 0, 3⟩] 0 countingLoop = .error ⟨.heightMismatch, 2⟩ ∧
    ∃! m, ∃ k, verify (TypeSection.declaring #[⟨0, 0, 3⟩] 0 m) 0 countingLoop = .ok k := by
  have hv : verify #[⟨0, 0, 3⟩] 0 countingLoop = .error ⟨.heightMismatch, 2⟩ := by cbv
  exact ⟨hv, ((declared_height_decides_last #[⟨0, 0, 3⟩] 0 countingLoop).2 _ hv).1 rfl⟩

end Section

end EofVerifier
