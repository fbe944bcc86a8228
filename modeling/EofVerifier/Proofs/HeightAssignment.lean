import EofVerifier.Proofs.WalkOrder
import Mathlib.Order.Bounds.Defs

/-! # Height assignments

A section is accepted exactly when the heights of its stack can be written down: one height
for each instruction, such that every demand can be checked at one instruction or along one
edge (`Section.Assigns`), the largest being the one that the section declares
(`Section.Accepts`).  Nothing in these two definitions speaks of a walk, of an order or of a
word size.

The heights that a finished walk records are such an assignment
(`Section.Coherent.assigns`).  Conversely an assignment forces the height of every arrival
(`Section.Assigns.height_eq`), so a section that has one is coherent and its walk finishes
with the assigned heights.  No height of an accepted section comes near the word size, so
`heightAfter` is exact in both directions. -/

namespace EofVerifier.Section

open Relation (ReflTransGen)

variable {s : Section}

/-- A height for every instruction that meets all demands of the section's graph. -/
structure Assigns (s : Section) (h : Nat → Nat) : Prop where
  entry : h 0 = s.own.inputs.toNat
  pops : ∀ p i, s.code[p]? = some i → s.pops i ≤ h p
  returns : ∀ (p : Nat) (i : Instruction), s.code[p]? = some i → i.opcode.flow = .leave →
    h p = s.own.outputs.toNat
  inside : ∀ (p : Nat) (i : Instruction), s.code[p]? = some i →
    i.opcode.flow.fallsThrough = true → p + 1 < s.code.size
  follows : ∀ (p q : Nat) (i : Instruction), s.code[p]? = some i → i.Leads p q →
    h q = h p - s.pops i + s.pushes i

/-- All that makes a section acceptable with largest height `m`. -/
structure Accepts (s : Section) (m : UInt16) : Prop where
  formed : s.Formed
  reachable : ∀ p < s.code.size, ReflTransGen s.Edge 0 p
  assigned : ∃ h, s.Assigns h ∧ (∀ p < s.code.size, h p ≤ m.toNat) ∧ ∃ p < s.code.size, h p = m.toNat
  declared : m = s.own.maxStackHeight
  limit : m.toNat ≤ Limits.maxStackHeight

/-! ### Heights stay far below the word size -/

theorem pushes_lt (s : Section) (i : Instruction) : s.pushes i < 256 := by
  unfold pushes
  split
  · cases s.callee? i with
    | none => exact Nat.zero_lt_succ _
    | some callee => exact callee.outputs.toNat_lt
  · exact i.opcode.info.outputs.toNat_lt

theorem heightAfter_eq_of_le_limit {i : Instruction} {h : Nat} (hp : s.pops i ≤ h)
    (hle : h ≤ Limits.maxStackHeight) : s.heightAfter i h = h - s.pops i + s.pushes i := by
  refine heightAfter_eq hp ?_
  have hpush := s.pushes_lt i
  have hlimit : Limits.maxStackHeight = 1023 := rfl
  have hsize : UInt64.size = 18446744073709551616 := rfl
  omega

theorem Accepts.le_limit {m : UInt16} (ha : s.Accepts m) {h : Nat → Nat}
    (hle : ∀ p < s.code.size, h p ≤ m.toNat) : ∀ p < s.code.size, h p ≤ Limits.maxStackHeight :=
  fun p hp => Nat.le_trans (hle p hp) ha.limit

/-! ### Uniqueness -/

/-- Assignments agree wherever a path leads. -/
theorem Assigns.unique {h h' : Nat → Nat} (ha : s.Assigns h) (ha' : s.Assigns h') {p : Nat}
    (hp : ReflTransGen s.Edge 0 p) : h p = h' p := by
  induction hp with
  | refl => rw [ha.entry, ha'.entry]
  | tail _ he ih =>
      obtain ⟨i, hi, hl⟩ := he
      rw [ha.follows _ _ i hi hl, ha'.follows _ _ i hi hl, ih]

/-! ### From recorded heights to an assignment -/

/-- In a coherent section of which every instruction is reached, the heights of the arrivals
are an assignment. -/
theorem Coherent.assigns (hs : s.Formed) (hc : s.Coherent) {h : Nat → Nat}
    (harr : ∀ p < s.code.size, s.Arrives ⟨p, h p⟩)
    (hle : ∀ p < s.code.size, h p ≤ Limits.maxStackHeight) : s.Assigns h := by
  have hadm : ∀ p i, s.code[p]? = some i → s.Admits i p (h p) ∧
      s.Passes ⟨p, h p⟩ (s.arrivalsAfter i p (h p)) := by
    intro p i hi
    obtain ⟨hlt, -⟩ := Array.getElem?_eq_some_iff.mp hi
    obtain ⟨next, j, hj, hpass⟩ := hc.passes _ (harr p hlt)
    obtain rfl : i = j := Option.some.inj (hi.symm.trans hj)
    obtain ⟨ha, rfl⟩ := (successors_eq_ok_iff (hs.wellFormed p i hi)).mp hpass
    exact ⟨ha, i, hi, hpass⟩
  refine ⟨?_, fun p i hi => (hadm p i hi).1.pops, fun p i hi => (hadm p i hi).1.returns,
    fun p i hi => (hadm p i hi).1.inside, ?_⟩
  · exact hc.agree _ _ (harr 0 hs.nonempty) .entry rfl
  · intro p q i hi hl
    obtain ⟨hlt, -⟩ := Array.getElem?_eq_some_iff.mp hi
    obtain ⟨ha, hpass⟩ := hadm p i hi
    have hq : s.Arrives ⟨q, s.heightAfter i (h p)⟩ :=
      (harr p hlt).next hpass (mem_arrivalsAfter_iff.mpr ⟨hl, rfl⟩)
    have heq := hc.agree _ _ (harr q (hq.position_lt hs)) hq rfl
    rw [heightAfter_eq_of_le_limit ha.pops (hle p hlt)] at heq
    exact heq

/-! ### From an assignment to the walk -/

/-- An assignment within the limit gives every arrival its height. -/
theorem Assigns.height_eq (hs : s.Formed) {h : Nat → Nat} (ha : s.Assigns h)
    (hle : ∀ p < s.code.size, h p ≤ Limits.maxStackHeight) {a : Arrival} (harr : s.Arrives a) :
    a.height = h a.position := by
  induction harr with
  | entry => exact ha.entry.symm
  | next harr hp hb ih =>
      obtain ⟨i, hi, hadm, hl, hheight⟩ := hp.leads hs hb
      rw [ha.follows _ _ i hi hl, hheight, ih]
      rw [ih] at hadm
      exact heightAfter_eq_of_le_limit hadm.pops (hle _ (harr.position_lt hs))

/-- A section with an assignment within the limit is coherent. -/
theorem Assigns.coherent (hs : s.Formed) {h : Nat → Nat} (ha : s.Assigns h)
    (hle : ∀ p < s.code.size, h p ≤ Limits.maxStackHeight) : s.Coherent where
  passes := by
    intro a harr
    have hi := Array.getElem?_eq_getElem (harr.position_lt hs)
    refine ⟨_, _, hi, (successors_eq_ok_iff (hs.wellFormed _ _ hi)).mpr ⟨?_, rfl⟩⟩
    rw [ha.height_eq hs hle harr]
    exact ⟨ha.pops _ _ hi, ha.returns _ _ hi, ha.inside _ _ hi⟩
  agree := by
    intro a b harr hbrr hpos
    rw [ha.height_eq hs hle harr, ha.height_eq hs hle hbrr, hpos]

/-- Whatever is reachable in the graph is arrived at, with the assigned height. -/
theorem Assigns.arrives (hs : s.Formed) {h : Nat → Nat} (ha : s.Assigns h)
    (hle : ∀ p < s.code.size, h p ≤ Limits.maxStackHeight) {p : Nat}
    (hp : ReflTransGen s.Edge 0 p) : s.Arrives ⟨p, h p⟩ := by
  obtain ⟨k, harr⟩ := (ha.coherent hs hle).exists_arrives hs hp
  have hk : k = h p := ha.height_eq hs hle harr
  exact hk ▸ harr

/-! ### The last stage -/

theorem peak_eq_iff {l : List Nat} (hl : l ≠ []) {m : Nat} :
    peak l = m ↔ m ∈ l ∧ ∀ h ∈ l, h ≤ m := by
  obtain ⟨x, hx⟩ := Option.isSome_iff_exists.mp (List.isSome_max?_of_ne_nil hl)
  have hpeak : peak l = x := by
    unfold peak
    rw [List.foldl_max, hx]
    exact Nat.zero_max x
  rw [hpeak, ← Option.some.injEq, ← hx]
  exact List.max?_eq_some_iff

theorem eq_map_some {l : List (Option Nat)} (h : ∀ o ∈ l, o.isNone = false) :
    l = (l.filterMap id).map some := by
  induction l with
  | nil => rfl
  | cons o l ih =>
      obtain ⟨k, rfl⟩ := Option.isSome_iff_exists.mp (Option.isNone_eq_false_iff.mp (h o (by simp)))
      rw [List.filterMap_cons_some (f := id) rfl, List.map_cons, ← ih fun o ho => h o (by simp [ho])]

/-- The last stage accepts when every instruction has a height and the largest is the declared
one and within the limit. -/
theorem conclude_eq_ok_iff {recorded : List (Option Nat)} {m : UInt16} :
    s.conclude recorded = .ok m ↔ ∃ heights, recorded = heights.map some ∧
      peak heights = m.toNat ∧ m = s.own.maxStackHeight ∧ m.toNat ≤ Limits.maxStackHeight := by
  unfold conclude
  constructor
  · intro h
    split at h
    · cases h
    · rename_i hnone
      simp only at h
      split at h
      · cases h
      · rename_i hlimit
        split at h
        · cases h
        · rename_i hpeak
          rw [Decidable.not_not] at hpeak
          cases h
          rw [hpeak, UInt16.ofNat_toNat]
          refine ⟨recorded.filterMap id, ?_, hpeak, rfl, by omega⟩
          rw [List.findIdx?_eq_none_iff] at hnone
          exact eq_map_some hnone
  · rintro ⟨heights, rfl, hpeak, hm, hlimit⟩
    have hnone : (heights.map some).findIdx? (·.isNone) = none := by
      rw [List.findIdx?_eq_none_iff]
      simp
    rw [hnone]
    simp only [List.filterMap_map, Function.comp_def, id_eq, List.filterMap_some, hpeak]
    rw [if_neg (Nat.not_lt.mpr hlimit), if_neg (not_not.mpr (congrArg UInt16.toNat hm)),
      UInt16.ofNat_toNat]

/-- Once the last stage accepts, no height is missing, and the largest of them is what it yields. -/
theorem recorded_of_conclude {st : State} {m : UInt16} (hpos : 0 < st.heights.size)
    (hc : s.conclude st.heights.toList = .ok m) :
    (∀ p < st.heights.size, st.height? p ≠ none) ∧
      IsGreatest {h | ∃ p, st.height? p = some h} m.toNat := by
  obtain ⟨heights, hlist, hpeak, -⟩ := conclude_eq_ok_iff.mp hc
  have hsize : heights.length = st.heights.size := by
    rw [← Array.length_toList, hlist, List.length_map]
  have hget (p h : Nat) : st.height? p = some h ↔ heights[p]? = some h := by
    rw [State.height?_eq_some_iff, ← Array.getElem?_toList, hlist, List.getElem?_map]
    simp
  have hset (h : Nat) : (∃ p, st.height? p = some h) ↔ h ∈ heights := by
    simp only [hget, List.mem_iff_getElem?]
  obtain ⟨hmem, hle⟩ := (peak_eq_iff (List.ne_nil_of_length_pos (hsize ▸ hpos))).mp hpeak
  refine ⟨fun p hp => ?_, (hset _).mpr hmem, fun h hh => hle h ((hset h).mp hh)⟩
  rw [(hget p _).mpr (List.getElem?_eq_getElem (hsize ▸ hp))]
  exact Option.some_ne_none _

/-! ### Acceptance -/

section verify

variable {types : TypeSection} {index : Nat} {code : Code} {m : UInt16}

/-- The three stages of a verification that accepts. -/
theorem verify_eq_ok_iff_stages : verify types index code = .ok m ↔
    ∃ own, types[index]? = some own ∧ Formed { code, own, types } ∧
      ∃ st, (State.initial { code, own, types }).run { code, own, types } = .ok st ∧
        conclude { code, own, types } st.heights.toList = .ok m := by
  cases hown : types[index]? with
  | none =>
      unfold verify inspect
      rw [hown]
      constructor
      · intro h
        cases h
      · rintro ⟨own, hown', -⟩
        cases hown'
  | some own =>
      rw [verify_of_listed hown]
      simp only [Option.some.injEq, exists_eq_left']
      by_cases hs : Formed { code, own, types }
      · rw [examine_of_formed hs, walk_snd, and_iff_right hs]
        unfold verdict
        constructor
        · intro h
          split at h
          · cases h
          · rename_i st hrun
            exact ⟨st, hrun, h⟩
        · rintro ⟨st, hrun, hc⟩
          rw [hrun]
          exact hc
      · obtain ⟨failure, hf⟩ := examine_of_not_formed hs
        rw [hf]
        constructor
        · intro h
          cases h
        · rintro ⟨hs', -⟩
          exact absurd hs' hs

end verify

/-- A walk that is accepted leaves an assignment: the heights that it has recorded. -/
theorem accepts_of_conclude {m : UInt16} {st : State} (hs : s.Formed)
    (hrun : (State.initial s).run s = .ok st) (hc : s.conclude st.heights.toList = .ok m) :
    s.Accepts m := by
  have hends : State.Ends s (State.initial s) (.ok st) := hrun ▸ State.ends_run _ _
  have hcons := hends.consistent_of_ok.1
  obtain ⟨-, -, -, hm, hlimit⟩ := conclude_eq_ok_iff.mp hc
  obtain ⟨hall, ⟨q, hq⟩, hle⟩ := recorded_of_conclude (hcons.size ▸ hs.nonempty) hc
  rw [hcons.size] at hall
  obtain ⟨height, hget⟩ : ∃ height : Nat → Nat, ∀ p < s.code.size,
      st.height? p = some (height p) := by
    refine ⟨fun p => (st.height? p).getD 0, fun p hp => ?_⟩
    obtain ⟨h, hh⟩ := Option.ne_none_iff_exists'.mp (hall p hp)
    simp only [hh, Option.getD_some]
  have harr : ∀ p < s.code.size, s.Arrives ⟨p, height p⟩ := fun p hp =>
    (hends.height?_eq_some_iff p _).mp (hget p hp)
  have hbound : ∀ p < s.code.size, height p ≤ m.toNat := fun p hp => hle ⟨p, hget p hp⟩
  refine ⟨hs, fun p hp => (harr p hp).reachable hs, ⟨height, ?_, hbound, ?_⟩, hm, hlimit⟩
  · exact hends.coherent.assigns hs harr fun p hp =>
      Nat.le_trans (hbound p hp) hlimit
  · have hqlt := ((hends.height?_eq_some_iff q _).mp hq).position_lt hs
    exact ⟨q, hqlt, Option.some.inj ((hget q hqlt).symm.trans hq)⟩

/-- A walk through an acceptable section records the assigned heights. -/
theorem Accepts.exists_run {m : UInt16} (ha : s.Accepts m) {h : Nat → Nat} (hh : s.Assigns h)
    (hle : ∀ p < s.code.size, h p ≤ m.toNat) :
    ∃ st, (State.initial s).run s = .ok st ∧
      st.heights.toList = ((List.range s.code.size).map h).map some := by
  have hlimit := ha.le_limit hle
  have hends := State.ends_run s (State.initial s)
  cases hrun : (State.initial s).run s with
  | error halt =>
      rw [hrun] at hends
      exact absurd (hh.coherent ha.formed hlimit) hends.not_coherent
  | ok st =>
      rw [hrun] at hends
      have hsize := hends.consistent_of_ok.1.size
      refine ⟨st, rfl, List.ext_getElem (by simp [hsize]) fun p hp hp' => ?_⟩
      rw [Array.length_toList, hsize] at hp
      have harr := hh.arrives ha.formed hlimit (ha.reachable p hp)
      have hget := State.height?_eq_some_iff.mp ((hends.height?_eq_some_iff p _).mpr harr)
      rw [Array.getElem?_eq_getElem (by omega), Option.some.injEq] at hget
      simpa using hget

theorem Accepts.conclude {m : UInt16} (ha : s.Accepts m) :
    ∃ st, (State.initial s).run s = .ok st ∧ s.conclude st.heights.toList = .ok m := by
  obtain ⟨h, hh, hle, p, hp, hpm⟩ := ha.assigned
  obtain ⟨st, hrun, hlist⟩ := ha.exists_run hh hle
  refine ⟨st, hrun, conclude_eq_ok_iff.mpr ⟨_, hlist, ?_, ha.declared, ha.limit⟩⟩
  have hne : (List.range s.code.size).map h ≠ [] := by
    simp [Nat.ne_of_gt ha.formed.nonempty]
  rw [peak_eq_iff hne]
  constructor
  · exact List.mem_map.mpr ⟨p, List.mem_range.mpr hp, hpm⟩
  · intro k hk
    obtain ⟨q, hq, rfl⟩ := List.mem_map.mp hk
    exact hle q (List.mem_range.mp hq)

/-- The verification accepts exactly the acceptable sections. -/
theorem verify_eq_ok_iff_accepts {types : TypeSection} {index : Nat} {code : Code} {m : UInt16} :
    verify types index code = .ok m ↔
      ∃ own, types[index]? = some own ∧ Accepts { code, own, types } m := by
  rw [verify_eq_ok_iff_stages]
  constructor
  · rintro ⟨own, hown, hs, st, hrun, hc⟩
    exact ⟨own, hown, accepts_of_conclude hs hrun hc⟩
  · rintro ⟨own, hown, ha⟩
    exact ⟨own, hown, ha.formed, ha.conclude⟩

/-- The visits of an accepted walk are the instructions with their assigned heights. -/
theorem exists_visit_iff {types : TypeSection} {index : Nat} {code : Code} {own : Signature}
    {m : UInt16} {h : Nat → Nat} (hown : types[index]? = some own)
    (hv : verify types index code = .ok m) (hh : Assigns { code, own, types } h) (p k : Nat) :
    (∃ v ∈ (inspect types index code).1, v.position = p ∧ v.height = k) ↔
      p < code.size ∧ k = h p := by
  obtain ⟨own', hown', hs, st, hrun, hc⟩ := verify_eq_ok_iff_stages.mp hv
  obtain rfl : own = own' := Option.some.inj (hown.symm.trans hown')
  have ha := accepts_of_conclude hs hrun hc
  have hends : State.Ends { code, own, types } _ (.ok st) := hrun ▸ State.ends_run _ _
  have hvisits : (inspect types index code).1 = st.visits.reverse := by
    unfold inspect
    rw [hown]
    simp only [examine_of_formed hs, walk, hrun]
  have hmem : (∃ v ∈ (inspect types index code).1, v.position = p ∧ v.height = k) ↔
      st.height? p = some k := by
    rw [hvisits, hends.consistent_of_ok.1.logged]
    simp only [List.mem_reverse]
  rw [hmem, hends.height?_eq_some_iff]
  obtain ⟨h', hh', hle, -⟩ := ha.assigned
  have hlimit := ha.le_limit hle
  constructor
  · intro harr
    have hp := harr.position_lt hs
    refine ⟨hp, ?_⟩
    rw [hh.unique hh' (ha.reachable p hp)]
    exact hh'.height_eq hs hlimit harr
  · rintro ⟨hp, rfl⟩
    rw [hh.unique hh' (ha.reachable p hp)]
    exact hh'.arrives hs hlimit (ha.reachable p hp)

/-- **Exact acceptance.**  A section is accepted with largest height `m` exactly when it is
formed, all of it is reachable, and it has an assignment whose largest height is `m`, the
declared height, within the limit.  There is only one assignment when all of the section is
reachable, and when the section is accepted it is what the walk has recorded. -/
theorem accepted_exactly (types : TypeSection) (index : Nat) (code : Code) :
    (∀ m, verify types index code = .ok m ↔
      ∃ own, types[index]? = some own ∧ Accepts { code, own, types } m) ∧
    ∀ own h, types[index]? = some own → Assigns { code, own, types } h →
      ((∀ p < code.size, ReflTransGen (Edge { code, own, types }) 0 p) →
        ∀ h', Assigns { code, own, types } h' → ∀ p < code.size, h' p = h p) ∧
      ∀ m, verify types index code = .ok m → ∀ p k,
        (∃ v ∈ (inspect types index code).1, v.position = p ∧ v.height = k) ↔
          p < code.size ∧ k = h p := by
  refine ⟨fun m => verify_eq_ok_iff_accepts, fun own h hown hh => ⟨?_, ?_⟩⟩
  · intro hreach h' hh' p hp
    exact hh'.unique hh (hreach p hp)
  · intro m hv p k
    exact exists_visit_iff hown hv hh p k

open Instruction in
/-- A loop that counts down: its body leaves the height as it was. -/
def countingLoop : Code :=
  #[ofByte 0x5F, ofByte 0x80, ofByte 0xE1 (.target 4), ofByte 0x00, ofByte 0x5F, ofByte 0x01,
    ofByte 0xE0 (.target 1)]

/-- The loop is accepted, and its heights are those of its one assignment. -/
theorem accepted_exactly_countingLoop :
    verify #[⟨0, 0, 2⟩] 0 countingLoop = .ok 2 ∧
    ∃ h, Assigns { code := countingLoop, own := ⟨0, 0, 2⟩, types := #[⟨0, 0, 2⟩] } h ∧
      ∀ p k, (∃ v ∈ (inspect #[⟨0, 0, 2⟩] 0 countingLoop).1, v.position = p ∧ v.height = k) ↔
        p < countingLoop.size ∧ k = h p := by
  have hv : verify #[⟨0, 0, 2⟩] 0 countingLoop = .ok 2 := by cbv
  obtain ⟨own, hown, ha⟩ := ((accepted_exactly _ _ _).1 2).mp hv
  cases hown
  obtain ⟨h, hh, -⟩ := ha.assigned
  exact ⟨hv, h, hh, ((accepted_exactly _ _ _).2 _ h rfl hh).2 2 hv⟩

end EofVerifier.Section
