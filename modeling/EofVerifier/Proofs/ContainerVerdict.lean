import EofVerifier.Container.Basic

/-! # The verdict on a container

`Container.verifyFrom` goes through code sections in order and stops at the first invalid
one, as `List.mapM` does with things that may fail (`verifyFrom_eq_mapM`).  Its result is
described by positions: it accepts when every section is accepted under its own index
(`verifyFrom_eq_ok_iff`), and otherwise rejects with the failure of the first section that is
not (`verifyFrom_eq_error_iff`).  Cutting the list anywhere and verifying the
parts, each from the index where it starts, gives the same result (`verifyFrom_append`), which
is what workers rely on.

The checks before it never blame a code section (`checkTypes_ne_code`), so a container is
accepted exactly when they pass and every section is accepted (`verify_eq_ok_iff`). -/

namespace EofVerifier.Container

/-! ### Lists of things that may fail -/

section mapM

variable {α β ε : Type} {f : α → Except ε β} {l : List α}

theorem mapM_cons_of_ok {a : α} {b : β} (ha : f a = .ok b) :
    (a :: l).mapM f = (l.mapM f).map (b :: ·) := by
  rw [List.mapM_cons, ha]
  cases l.mapM f <;> rfl

theorem mapM_cons_of_error {a : α} {e : ε} (ha : f a = .error e) :
    (a :: l).mapM f = .error e := by
  rw [List.mapM_cons, ha]
  rfl

/-- Nothing fails, and the results stand where the things stood. -/
theorem mapM_eq_ok_iff {r : List β} : l.mapM f = .ok r ↔
    r.length = l.length ∧ ∀ (k : Nat) (a : α), l[k]? = some a → ∃ b, r[k]? = some b ∧ f a = .ok b := by
  induction l generalizing r with
  | nil =>
      rw [List.mapM_nil, List.length_nil, List.length_eq_zero_iff]
      simp [pure, Except.pure, eq_comm]
  | cons a l ih =>
      cases ha : f a with
      | error e =>
          rw [mapM_cons_of_error ha]
          refine ⟨fun h => (by cases h), fun h => ?_⟩
          obtain ⟨b, -, hb⟩ := h.2 0 a rfl
          rw [ha] at hb
          cases hb
      | ok b =>
          have hcons : Except.map (b :: ·) (l.mapM f) = .ok r ↔
              ∃ r', r = b :: r' ∧ l.mapM f = .ok r' := by
            cases l.mapM f <;> simp [Except.map, eq_comm]
          rw [mapM_cons_of_ok ha, hcons]
          constructor
          · rintro ⟨r', rfl, hr⟩
            obtain ⟨hlen, hall⟩ := ih.mp hr
            refine ⟨by simp [hlen], fun k x hk => ?_⟩
            cases k with
            | zero =>
                cases hk
                exact ⟨b, rfl, ha⟩
            | succ k => exact hall k x hk
          · rintro ⟨hlen, hall⟩
            cases r with
            | nil => cases hlen
            | cons b' r' =>
                obtain ⟨b'', hb', ha'⟩ := hall 0 a rfl
                cases hb'
                obtain rfl : b = b' := Except.ok.inj (ha.symm.trans ha')
                exact ⟨r', rfl, ih.mpr ⟨by simpa using hlen, fun k x hk => hall (k + 1) x hk⟩⟩

/-- The first failure ends it. -/
theorem mapM_eq_error_iff {e : ε} : l.mapM f = .error e ↔
    ∃ (k : Nat) (a : α), l[k]? = some a ∧ f a = .error e ∧
      ∀ j < k, ∀ a', l[j]? = some a' → ∃ b, f a' = .ok b := by
  induction l with
  | nil => simp [pure, Except.pure]
  | cons a l ih =>
      cases ha : f a with
      | error e' =>
          rw [mapM_cons_of_error ha]
          constructor
          · intro h
            cases h
            exact ⟨0, a, rfl, ha, fun j hj => absurd hj (Nat.not_lt_zero j)⟩
          · rintro ⟨k, x, hk, hx, hall⟩
            cases k with
            | zero =>
                cases hk
                exact congrArg _ (Except.error.inj (ha.symm.trans hx))
            | succ k =>
                obtain ⟨b, hb⟩ := hall 0 (Nat.succ_pos k) a rfl
                rw [ha] at hb
                cases hb
      | ok b =>
          have hcons : Except.map (b :: ·) (l.mapM f) = .error e ↔ l.mapM f = .error e := by
            cases l.mapM f <;> simp [Except.map]
          rw [mapM_cons_of_ok ha, hcons, ih]
          constructor
          · rintro ⟨k, x, hk, hx, hall⟩
            refine ⟨k + 1, x, hk, hx, fun j hj y hy => ?_⟩
            cases j with
            | zero =>
                cases hy
                exact ⟨b, ha⟩
            | succ j => exact hall j (Nat.lt_of_succ_lt_succ hj) y hy
          · rintro ⟨k, x, hk, hx, hall⟩
            cases k with
            | zero =>
                cases hk
                rw [ha] at hx
                cases hx
            | succ k =>
                exact ⟨k, x, hk, hx, fun j hj y hy => hall (j + 1) (Nat.succ_lt_succ hj) y hy⟩

end mapM

variable {types : TypeSection} {c : Container}

/-! ### Sections in order -/

theorem verifyFrom_cons (index : Nat) (code : Code) (rest : List Code) :
    (verifyFrom types index (code :: rest)).result =
      match Section.verify types index code with
      | .error failure => .error (.code index failure)
      | .ok height => (verifyFrom types (index + 1) rest).result.map (height :: ·) := by
  have hr : (Section.verifyLogged types index code).result = Section.verify types index code := rfl
  rw [← hr, verifyFrom]
  cases (Section.verifyLogged types index code).result <;> rfl

/-- The verdict on the section with this index, as a part of the verdict on the container. -/
def sectionVerdict (types : TypeSection) (index : Nat) (code : Code) : Except Rejection UInt16 :=
  (Section.verify types index code).mapError (.code index)

/-- Each section is verified under its own index, up to the first failure. -/
theorem verifyFrom_eq_mapM (index : Nat) (codes : List Code) :
    (verifyFrom types index codes).result =
      (codes.zipIdx index).mapM fun x => sectionVerdict types x.2 x.1 := by
  induction codes generalizing index with
  | nil => rfl
  | cons code codes ih =>
      rw [verifyFrom_cons, ih, List.zipIdx_cons, List.mapM_cons]
      unfold sectionVerdict
      cases Section.verify types index code with
      | error failure => rfl
      | ok height =>
          show Except.map _ _ = Except.bind _ _
          cases (codes.zipIdx (index + 1)).mapM fun x => sectionVerdict types x.2 x.1 <;> rfl

/-- The sections of a list are verified as those of its two parts. -/
theorem verifyFrom_append (index : Nat) (l r : List Code) :
    (verifyFrom types index (l ++ r)).result = (do
      let heights ← (verifyFrom types index l).result
      let others ← (verifyFrom types (index + l.length) r).result
      return heights ++ others) := by
  simp only [verifyFrom_eq_mapM, List.zipIdx_append, List.mapM_append]

theorem sectionVerdict_eq_ok_iff {index : Nat} {code : Code} {h : UInt16} :
    sectionVerdict types index code = .ok h ↔ Section.verify types index code = .ok h := by
  unfold sectionVerdict
  cases Section.verify types index code with
  | error failure =>
      constructor
      · intro hv
        cases hv
      · intro hv
        cases hv
  | ok height =>
      constructor
      · intro hv
        cases hv
        rfl
      · intro hv
        cases hv
        rfl

theorem sectionVerdict_eq_error_iff {index : Nat} {code : Code} {e : Rejection} :
    sectionVerdict types index code = .error e ↔
      ∃ failure, e = .code index failure ∧ Section.verify types index code = .error failure := by
  unfold sectionVerdict
  cases Section.verify types index code with
  | error failure =>
      constructor
      · intro hv
        cases hv
        exact ⟨failure, rfl, rfl⟩
      · rintro ⟨failure', rfl, hv⟩
        cases hv
        rfl
  | ok height =>
      constructor
      · intro hv
        cases hv
      · rintro ⟨failure, -, hv⟩
        cases hv

/-- The list is accepted when every section is, under its own index. -/
theorem verifyFrom_eq_ok_iff {index : Nat} {codes : List Code} {heights : List UInt16} :
    (verifyFrom types index codes).result = .ok heights ↔
      heights.length = codes.length ∧ ∀ (k : Nat) (code : Code), codes[k]? = some code →
        ∃ h, heights[k]? = some h ∧ Section.verify types (index + k) code = .ok h := by
  rw [verifyFrom_eq_mapM, mapM_eq_ok_iff, List.length_zipIdx]
  simp only [List.getElem?_zipIdx, Option.map_eq_some_iff, forall_exists_index, and_imp,
    forall_apply_eq_imp_iff₂, sectionVerdict_eq_ok_iff]

/-- The list is rejected with the failure of the first section that is not accepted. -/
theorem verifyFrom_eq_error_iff {index : Nat} {codes : List Code} {e : Rejection} :
    (verifyFrom types index codes).result = .error e ↔
      ∃ (k : Nat) (code : Code) (failure : Failure), codes[k]? = some code ∧
        e = .code (index + k) failure ∧ Section.verify types (index + k) code = .error failure ∧
        ∀ j < k, ∀ code', codes[j]? = some code' → ∃ h, Section.verify types (index + j) code' = .ok h := by
  rw [verifyFrom_eq_mapM, mapM_eq_error_iff]
  simp only [List.getElem?_zipIdx, Option.map_eq_some_iff, forall_exists_index, and_imp,
    forall_apply_eq_imp_iff₂, sectionVerdict_eq_ok_iff]
  constructor
  · rintro ⟨k, -, ⟨code, hk, rfl⟩, he, hall⟩
    obtain ⟨failure, rfl, hv⟩ := sectionVerdict_eq_error_iff.mp he
    exact ⟨k, code, failure, hk, rfl, hv, hall⟩
  · rintro ⟨k, code, failure, hk, rfl, hv, hall⟩
    exact ⟨k, _, ⟨code, hk, rfl⟩, sectionVerdict_eq_error_iff.mpr ⟨failure, rfl, hv⟩, hall⟩

/-! ### The checks before -/

theorem checkTypes_eq_ok_iff : c.checkTypes = .ok () ↔
    c.code.length ≠ 0 ∧ c.code.length ≤ Limits.maxCodeSections ∧ c.code.length = c.types.size ∧
      TypeSection.firstInvalid? c.types = none ∧ TypeSection.entryIsClosed c.types = true := by
  unfold checkTypes
  constructor
  · intro h
    split at h
    · cases h
    · rename_i hne
      split at h
      · cases h
      · rename_i hmany
        split at h
        · cases h
        · rename_i hcount
          split at h
          · cases h
          · rename_i hvalid
            split at h
            · rename_i hentry
              exact ⟨hne, Nat.le_of_not_lt hmany, Decidable.not_not.mp hcount, hvalid, hentry⟩
            · cases h
  · rintro ⟨hne, hmany, hcount, hvalid, hentry⟩
    rw [if_neg hne, if_neg (Nat.not_lt.mpr hmany), if_neg (Decidable.not_not.mpr hcount), hvalid]
    exact if_pos hentry

/-- The checks before the code do not blame a code section. -/
theorem checkTypes_ne_code (index : Nat) (failure : Failure) :
    c.checkTypes ≠ .error (.code index failure) := by
  unfold checkTypes TypeSection.firstInvalid?
  intro h
  split at h
  · cases h
  · split at h
    · cases h
    · split at h
      · cases h
      · split at h
        · rename_i e he
          obtain ⟨⟨signature, k⟩, -, hx⟩ := List.exists_of_findSome?_eq_some he
          simp only at hx
          cases hs : signature.check with
          | error e' =>
              rw [hs] at hx
              cases hx
              cases h
          | ok u =>
              rw [hs] at hx
              cases hx
        · split at h <;> cases h

theorem verify_of_checkTypes_ok (h : c.checkTypes = .ok ()) :
    c.verify = (verifyFrom c.types 0 c.code).result := by
  unfold verify verifyLogged
  rw [h]

theorem verify_of_checkTypes_error {e : Rejection} (h : c.checkTypes = .error e) :
    c.verify = .error e := by
  unfold verify verifyLogged
  rw [h]

/-- A container is accepted when the checks pass and every section is accepted. -/
theorem verify_eq_ok_iff {heights : List UInt16} : c.verify = .ok heights ↔
    c.checkTypes = .ok () ∧ heights.length = c.code.length ∧
      ∀ (k : Nat) (code : Code), c.code[k]? = some code →
        ∃ h, heights[k]? = some h ∧ Section.verify c.types k code = .ok h := by
  cases hc : c.checkTypes with
  | error e =>
      rw [verify_of_checkTypes_error hc]
      constructor
      · intro h
        cases h
      · rintro ⟨h, -⟩
        cases h
  | ok u =>
      rw [verify_of_checkTypes_ok hc, verifyFrom_eq_ok_iff]
      simp only [Nat.zero_add, true_and]

/-- A code section is blamed when it is the first that is not accepted. -/
theorem verify_eq_code_error_iff {index : Nat} {failure : Failure} :
    c.verify = .error (.code index failure) ↔
      c.checkTypes = .ok () ∧ ∃ code, c.code[index]? = some code ∧
        Section.verify c.types index code = .error failure ∧
        ∀ j < index, ∀ code', c.code[j]? = some code' → ∃ h, Section.verify c.types j code' = .ok h := by
  cases hc : c.checkTypes with
  | error e =>
      rw [verify_of_checkTypes_error hc]
      constructor
      · intro h
        rw [Except.error.inj h] at hc
        exact absurd hc (checkTypes_ne_code index failure)
      · rintro ⟨h, -⟩
        cases h
  | ok u =>
      rw [verify_of_checkTypes_ok hc, verifyFrom_eq_error_iff]
      simp only [Nat.zero_add, true_and]
      constructor
      · rintro ⟨k, code, f, hk, he, hv, hall⟩
        cases he
        exact ⟨code, hk, hv, hall⟩
      · rintro ⟨code, hk, hv, hall⟩
        exact ⟨index, code, failure, hk, rfl, hv, hall⟩

end EofVerifier.Container
