import EofVerifier.Proofs.ControlFlow

/-! # Arrivals

An arrival is an instruction together with a height that it is entered with.  A section has
the arrival at its first instruction, and behind every arrival that is let pass those at the
successors (`Section.Arrives`).  The relation mentions neither recorded heights nor an order
in which arrivals are taken in, so it is what the walks in different orders have in common.

A section is `Section.Coherent` when every arrival is let pass and no two arrivals at one
instruction differ in height.  Whether a walk succeeds depends on this alone. -/

namespace EofVerifier.Section

open Relation (ReflTransGen)

variable {s : Section}

/-- The instruction lets the arrival pass, and `next` are the arrivals behind it. -/
def Passes (s : Section) (a : Arrival) (next : List Arrival) : Prop :=
  ∃ i, s.code[a.position]? = some i ∧ s.successors i a.position a.height = .ok next

/-- Some path from the first instruction arrives like this. -/
inductive Arrives (s : Section) : Arrival → Prop
  | entry : Arrives s ⟨0, s.own.inputs.toNat⟩
  | next {a b : Arrival} {next : List Arrival} :
      Arrives s a → s.Passes a next → b ∈ next → Arrives s b

/-- Every arrival passes, and all arrivals at an instruction have one height. -/
structure Coherent (s : Section) : Prop where
  passes : ∀ a, s.Arrives a → ∃ next, s.Passes a next
  agree : ∀ a b, s.Arrives a → s.Arrives b → a.position = b.position → a.height = b.height

theorem Passes.unique {a : Arrival} {l r : List Arrival} (hl : s.Passes a l) (hr : s.Passes a r) :
    l = r := by
  obtain ⟨i, hi, hsl⟩ := hl
  obtain ⟨j, hj, hsr⟩ := hr
  obtain rfl : i = j := Option.some.inj (hi.symm.trans hj)
  exact Except.ok.inj (hsl.symm.trans hsr)

/-- In a formed section the arrivals behind an instruction are at its successors. -/
theorem Passes.leads (hs : s.Formed) {a b : Arrival} {next : List Arrival}
    (hp : s.Passes a next) (hb : b ∈ next) :
    ∃ i, s.code[a.position]? = some i ∧ s.Admits i a.position a.height ∧
      i.Leads a.position b.position ∧ b.height = s.heightAfter i a.height := by
  obtain ⟨i, hi, hsucc⟩ := hp
  obtain ⟨hadm, rfl⟩ := (successors_eq_ok_iff (hs.wellFormed _ i hi)).mp hsucc
  exact ⟨i, hi, hadm, mem_arrivalsAfter_iff.mp hb⟩

theorem Arrives.reachable (hs : s.Formed) {a : Arrival} (ha : s.Arrives a) :
    ReflTransGen s.Edge 0 a.position := by
  induction ha with
  | entry => exact .refl
  | next _ hp hb ih =>
      obtain ⟨i, hi, -, hl, -⟩ := hp.leads hs hb
      exact ih.tail ⟨i, hi, hl⟩

/-- Jumps stay in the section, and nothing falls off its end. -/
theorem Arrives.position_lt (hs : s.Formed) {a : Arrival} (ha : s.Arrives a) :
    a.position < s.code.size := by
  cases ha with
  | entry => exact hs.nonempty
  | next _ hp hb =>
      obtain ⟨i, hi, hadm, hl, -⟩ := hp.leads hs hb
      rcases hl with ht | ⟨hf, hq⟩
      · exact (hs.wellFormed _ i hi).targets _ ht
      · rw [hq]
        exact hadm.inside hf

/-- In a coherent section every position that a path leads to is arrived at. -/
theorem Coherent.exists_arrives (hs : s.Formed) (hc : s.Coherent) {p : Nat}
    (hp : ReflTransGen s.Edge 0 p) : ∃ h, s.Arrives ⟨p, h⟩ := by
  induction hp with
  | refl => exact ⟨_, .entry⟩
  | tail _ he ih =>
      obtain ⟨i, hi, hl⟩ := he
      obtain ⟨h, ha⟩ := ih
      obtain ⟨next, j, hj, hpass⟩ := hc.passes _ ha
      obtain rfl : i = j := Option.some.inj (hi.symm.trans hj)
      obtain ⟨-, rfl⟩ := (successors_eq_ok_iff (hs.wellFormed _ i hi)).mp hpass
      exact ⟨_, ha.next ⟨i, hi, hpass⟩ (mem_arrivalsAfter_iff.mpr ⟨hl, rfl⟩)⟩

end EofVerifier.Section
