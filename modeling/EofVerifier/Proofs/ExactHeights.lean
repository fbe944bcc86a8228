import EofVerifier.Proofs.RunPrefixes
import EofVerifier.Proofs.WalkHistory

/-! # Heights are exact

The heights of a walk are 64-bit words, and a word is added to one of them without a check that
the sum is a word again.  It always is.  A height that is recorded or pending has grown by 255 items
at most with each visit (`State.History.heightsWithin`), and no walk makes more visits than there
are instructions.  What is added is the difference of two bytes, and what is taken has been found to
be there, so the sum is neither negative nor too large (`Section.Fits.addsExactly`).  The largest
height is compared with the limit before it is made a 16-bit word, so an accepted section yields
this height and not what is left of it (`Section.recorded_of_conclude`).

Nothing here asks the signatures to be valid: a called section may declare any two bytes. -/

namespace EofVerifier

/-- All heights that are recorded or pending are within the bound. -/
structure State.HeightsWithin (st : State) (bound : Nat) : Prop where
  recorded : ∀ p h, st.height? p = some h → h ≤ bound
  pending : ∀ b ∈ st.pending, b.height ≤ bound

namespace Section

variable {s : Section} {i : Instruction} {h : Nat}

/-- The effect is what the instruction leaves less what it takes, and adding it to the height
wraps neither below zero nor above the largest word. -/
structure AddsExactly (s : Section) (i : Instruction) (h : Nat) (effect : Effect) : Prop where
  inputs : effect.inputs = s.pops i
  net : effect.net = (s.pushes i : Int) - s.pops i
  small : -255 ≤ effect.net ∧ effect.net ≤ 255
  nonneg : 0 ≤ h + effect.net
  lt_size : h + effect.net < UInt64.size
  sum : (advance h effect.net : Int) = h + effect.net

theorem pops_lt (s : Section) (i : Instruction) : s.pops i < 256 := by
  unfold pops
  split
  · cases s.callee? i with
    | none => exact Nat.zero_lt_succ _
    | some callee => exact callee.inputs.toNat_lt
  · exact i.opcode.info.inputs.toNat_lt

/-- Where the instruction finds what it takes, its effect is added exactly. -/
theorem Fits.addsExactly (hf : s.Fits) (hi : s.WellFormed i) (hp : s.pops i ≤ h)
    (hle : h ≤ 255 * (s.code.size + 1)) :
    ∃ effect, s.effect? i = some effect ∧ s.AddsExactly i h effect := by
  have hpops := s.pops_lt i
  have hpushes := s.pushes_lt i
  have hsize : UInt64.size = 18446744073709551616 := rfl
  unfold Fits at hf
  have hlow : 0 ≤ (h : Int) + ((s.pushes i : Int) - s.pops i) := by omega
  have hhigh : (h : Int) + ((s.pushes i : Int) - s.pops i) < UInt64.size := by omega
  refine ⟨_, effect?_eq hi, rfl, rfl, ?_, hlow, hhigh, advance_eq hlow hhigh⟩
  show -255 ≤ (s.pushes i : Int) - s.pops i ∧ (s.pushes i : Int) - s.pops i ≤ 255
  omega

end Section

namespace State

variable {s : Section} {st st' : State} {a : Arrival} {taken rest : List Arrival}

theorem History.traced (hs : s.Formed) (hf : s.Fits) (h : History s taken st) : st.Traced s :=
  h.keeps traced_initial (Traced.anyStep hs hf)

/-- With every visit the heights grow by 255 items at most. -/
theorem History.heightsWithin (hs : s.Formed) (hf : s.Fits) (h : History s taken st) :
    st.HeightsWithin (255 * (st.visits.length + 1)) where
  recorded p k hk := ((h.traced hs hf).recorded p k hk).2
  pending b hb := ((h.traced hs hf).pending b hb).2

/-- No height exceeds what the size of the code allows. -/
theorem History.height_le (hs : s.Formed) (hf : s.Fits) (h : History s taken st)
    (ha : a ∈ st.pending) : a.height ≤ 255 * (s.code.size + 1) := by
  have hcount := (h.traced hs hf).count
  have hheight := (h.heightsWithin hs hf).pending a ha
  omega

/-- A step pushes nothing but the exact heights behind the instruction that it takes in. -/
theorem History.pushed (hs : s.Formed) (hf : s.Fits) (h : History s taken st)
    (hp : st.pending = a :: rest) (hstep : st.step s a rest = .ok st') {i : Instruction}
    (hi : s.code[a.position]? = some i) :
    st'.pending = rest ∨ s.pops i ≤ a.height ∧ ∃ next, st'.pending = next ++ rest ∧
      ∀ b ∈ next, (b.height : Int) = a.height - s.pops i + s.pushes i := by
  rcases step_eq_ok hstep with ⟨-, rfl⟩ | ⟨j, next, -, hj, hnext, rfl⟩
  · exact .inl rfl
  · obtain rfl : i = j := Option.some.inj (hi.symm.trans hj)
    obtain ⟨hadm, rfl⟩ := (Section.successors_eq_ok_iff (hs.wellFormed _ i hi)).mp hnext
    have hle := h.height_le hs hf (a := a) (by simp [hp])
    refine .inr ⟨hadm.pops, _, rfl, fun b hb => ?_⟩
    obtain ⟨-, hheight⟩ := Section.mem_arrivalsAfter_iff.mp hb
    have hexact := hf.heightAfter_eq hadm.pops hle
    have hpops := hadm.pops
    omega

end State

namespace Section

/-- **Heights are exact.**  A section that is neither empty nor malformed is walked through.  In
every state of its walk with `v` visits the heights that are recorded or pending are at most
`255 * (v + 1)`.  Where the instruction to be taken in next finds what it takes, its effect is added
to the height without wrapping, and what becomes pending has the height of the arrival less the
items taken plus the items left, as integers.  An accepted section yields the largest of the heights
that its walk has recorded. -/
theorem heights_exact {types : TypeSection} {index : Nat} {code : Code}
    (hf : 255 * (code.size + 1) < 2 ^ 63) :
    (∀ own, types[index]? = some own → code.isEmpty = false →
      firstMalformed? { code, own, types } = none →
      let s : Section := { code, own, types }
      ∀ taken st, State.History s taken st →
        st.HeightsWithin (255 * (st.visits.length + 1)) ∧
        ∀ a rest, st.pending = a :: rest → ∃ i, code[a.position]? = some i ∧
          (s.pops i ≤ a.height →
            ∃ effect, s.effect? i = some effect ∧ s.AddsExactly i a.height effect) ∧
          ∀ st', st.step s a rest = .ok st' →
            st'.pending = rest ∨ s.pops i ≤ a.height ∧ ∃ next, st'.pending = next ++ rest ∧
              ∀ b ∈ next, (b.height : Int) = a.height - s.pops i + s.pushes i) ∧
    ∀ m, verify types index code = .ok m → ∃ own taken st, types[index]? = some own ∧
      State.Course { code, own, types } taken (.ok st) ∧
      IsGreatest {h | ∃ p, st.height? p = some h} m.toNat := by
  constructor
  · intro own _ hne hm s taken st h
    have hs : s.Formed := formed_iff.mpr ⟨hne, hm⟩
    have hfits : s.Fits := hf
    refine ⟨h.heightsWithin hs hfits, fun a rest hp => ?_⟩
    have ha : a ∈ st.pending := by simp [hp]
    have hi := Array.getElem?_eq_getElem ((h.consistent.pending a ha).position_lt hs)
    refine ⟨_, hi, fun hpops => ?_, fun st' hstep => h.pushed hs hfits hp hstep hi⟩
    exact hfits.addsExactly (hs.wellFormed _ _ hi) hpops (h.height_le hs hfits ha)
  · intro m hv
    obtain ⟨own, hown, hs, st, hrun, hc⟩ := verify_eq_ok_iff_stages.mp hv
    obtain ⟨taken, hcourse⟩ := State.exists_course { code, own, types }
    rw [hrun] at hcourse
    cases hcourse with
    | done h hend =>
      have hpos : 0 < st.heights.size := h.consistent.size ▸ hs.nonempty
      exact ⟨own, taken, st, hown, .done h hend, (recorded_of_conclude hpos hc).2⟩

open Instruction in
/-- A call of a section that leaves as many items as a byte can say, more than are valid. -/
def generousCall : Section where
  code := #[ofByte 0x5F, ofByte 0xE3 (.callee 1), ofByte 0x00]
  own := ⟨0, 0, 255⟩
  types := #[⟨0, 0, 255⟩, ⟨1, 255, 0⟩]

open Instruction in
/-- The call is exact although the signature of the called section is refused. -/
theorem heights_exact_generousCall :
    255 * (generousCall.code.size + 1) < 2 ^ 63 ∧ generousCall.types[0]? = some generousCall.own ∧
    generousCall.code.isEmpty = false ∧ generousCall.firstMalformed? = none ∧
    (∃ callee, generousCall.types[1]? = some callee ∧ callee.check ≠ .ok ()) ∧
    (∃ effect, generousCall.effect? (ofByte 0xE3 (.callee 1)) = some effect ∧
      generousCall.AddsExactly (ofByte 0xE3 (.callee 1)) 1 effect) ∧
    verify generousCall.types 0 generousCall.code = .ok 255 ∧
    ∃ taken st, State.Course generousCall taken (.ok st) ∧
      IsGreatest {h | ∃ p, st.height? p = some h} 255 := by
  have hf : 255 * (generousCall.code.size + 1) < 2 ^ 63 := by decide
  have hown : generousCall.types[0]? = some generousCall.own := rfl
  have hne : generousCall.code.isEmpty = false := by decide
  have hm : generousCall.firstMalformed? = none := by cbv
  have hv : verify generousCall.types 0 generousCall.code = .ok 255 := by cbv
  obtain ⟨hwalk, hpeak⟩ := @heights_exact generousCall.types 0 _ hf
  have hfirst : (State.initial generousCall).step generousCall ⟨0, 0⟩ [] =
      .ok ((State.initial generousCall).record ⟨0, 0⟩ (ofByte 0x5F) [⟨1, 1⟩]) := rfl
  obtain ⟨-, hnext⟩ := hwalk _ hown hne hm _ _ (.step .start rfl hfirst)
  obtain ⟨i, hi, hadds, -⟩ := hnext _ _ rfl
  cases hi
  obtain ⟨own, taken, st, hown', hcourse, hgreatest⟩ := hpeak 255 hv
  obtain rfl : generousCall.own = own := Option.some.inj (hown.symm.trans hown')
  exact ⟨hf, hown, hne, hm, ⟨_, rfl, by decide⟩, hadds (by decide), hv, taken, st, hcourse,
    hgreatest⟩

end Section

end EofVerifier
