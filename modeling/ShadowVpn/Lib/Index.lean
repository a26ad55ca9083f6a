import ShadowVpn.Lib.HashMap

/-! Secondary indexes over a table. A table `K → Option V` whose values carry an
optional key `A` is indexed exactly when the index maps a key to the row that
carries it and to nothing else. A binding is the one-sided form: it may forget
rows, but what it does name is right. -/

namespace Lib

section Functions

variable {A K V : Type}

/-- `idx` is the inverse of `key` over the rows of `tbl`. -/
def IsIndex (idx : A → Option K) (tbl : K → Option V) (key : V → Option A) : Prop :=
  ∀ a k, idx a = some k ↔ ∃ v, tbl k = some v ∧ key v = some a

/-- Every key that `idx` binds is carried by the row it is bound to. -/
def IsBinding (idx : A → Option K) (tbl : K → Option V) (key : V → Option A) : Prop :=
  ∀ a k, idx a = some k → ∃ v, tbl k = some v ∧ key v = some a

variable {idx : A → Option K} {tbl : K → Option V} {key : V → Option A}

theorem IsIndex.unique (h : IsIndex idx tbl key) {k k' : K} {v v' : V} {a : A}
    (hk : tbl k = some v) (hk' : tbl k' = some v') (ha : key v = some a)
    (ha' : key v' = some a) : k = k' := by
  have h1 := (h a k).2 ⟨v, hk, ha⟩
  have h2 := (h a k').2 ⟨v', hk', ha'⟩
  rw [h1] at h2
  exact Option.some.inj h2

theorem IsIndex.eq_none_iff (h : IsIndex idx tbl key) (a : A) :
    idx a = none ↔ ∀ k v, tbl k = some v → key v ≠ some a := by
  rw [Option.eq_none_iff_forall_ne_some]
  constructor
  · intro hn k v hk ha
    exact hn k ((h a k).2 ⟨v, hk, ha⟩)
  · intro hn k hk
    obtain ⟨v, hv, ha⟩ := (h a k).1 hk
    exact hn k v hv ha

theorem isIndex_empty : IsIndex (fun _ : A => (none : Option K)) (fun _ => none) key := by
  intro a k
  simp

/-- A row is bound under one key at most. -/
theorem IsBinding.unique (h : IsBinding idx tbl key) {a b : A} {k : K}
    (ha : idx a = some k) (hb : idx b = some k) : a = b := by
  obtain ⟨v, hv, hva⟩ := h a k ha
  obtain ⟨w, hw, hwb⟩ := h b k hb
  rw [hv] at hw
  cases hw
  rw [hva] at hwb
  exact Option.some.inj hwb

theorem isBinding_empty : IsBinding (fun _ : A => (none : Option K)) tbl key := by
  intro a k h
  cases h

end Functions

section Maps

variable {A K V : Type} [DecidableEq A] [DecidableEq K]
variable {idx : HashMap A K} {tbl : HashMap K V} {key : V → Option A}

/-- A fresh row under a free key. -/
theorem IsIndex.insert (h : IsIndex idx.get tbl.get key) {k : K} {v : V}
    (hk : tbl.get k = none) (hfree : ∀ a, key v = some a → idx.get a = none) :
    IsIndex (idx.insertOpt (key v) k).get (HashMap.get (tbl.insert k v)) key := by
  intro a k'
  rw [HashMap.get_insertOpt, HashMap.get_insert]
  by_cases ha : key v = some a
  · rw [if_pos ha]
    by_cases hk' : k' = k
    · subst hk'
      simp [ha]
    · rw [if_neg hk']
      have hno := (h.eq_none_iff a).1 (hfree a ha)
      constructor
      · intro heq
        exact absurd (Option.some.inj heq).symm hk'
      · rintro ⟨w, hw, hwa⟩
        exact absurd hwa (hno k' w hw)
  · rw [if_neg ha]
    by_cases hk' : k' = k
    · subst hk'
      have := h a k'
      simp [hk] at this
      simp [ha, this]
    · rw [if_neg hk']
      exact h a k'

theorem IsIndex.erase (h : IsIndex idx.get tbl.get key) {k : K} {v : V}
    (hk : tbl.get k = some v) :
    IsIndex (idx.eraseOpt (key v)).get (HashMap.get (tbl.erase k)) key := by
  intro a k'
  rw [HashMap.get_eraseOpt, HashMap.get_erase]
  by_cases hk' : k' = k
  · subst hk'
    simp only [if_true, reduceCtorEq, false_and, exists_false, iff_false]
    split_ifs with ha
    · simp
    · intro hidx
      obtain ⟨w, hw, hwa⟩ := (h a k').1 hidx
      rw [hk] at hw
      cases hw
      exact ha hwa
  · rw [if_neg hk']
    split_ifs with ha
    · simp only [false_iff, not_exists, not_and]
      intro w hw hwa
      exact hk' (h.unique hw hk hwa ha)
    · exact h a k'

/-- Rewriting a row without touching its key. -/
theorem IsIndex.replace (h : IsIndex idx.get tbl.get key) {k : K} {v v' : V}
    (hk : tbl.get k = some v) (hv : key v' = key v) :
    IsIndex idx.get (HashMap.get (tbl.insert k v')) key := by
  intro a k'
  rw [HashMap.get_insert]
  by_cases hk' : k' = k
  · subst hk'
    simp [h a k', hk, hv]
  · rw [if_neg hk']
    exact h a k'

theorem IsBinding.replace (h : IsBinding idx.get tbl.get key) {k : K} {v v' : V}
    (hk : tbl.get k = some v) (hv : key v' = key v) :
    IsBinding idx.get (HashMap.get (tbl.insert k v')) key := by
  intro a k' hidx
  obtain ⟨w, hw, hwa⟩ := h a k' hidx
  rw [HashMap.get_insert]
  split_ifs with hk'
  · subst hk'
    cases hk.symm.trans hw
    exact ⟨v', rfl, hv.trans hwa⟩
  · exact ⟨w, hw, hwa⟩

/-- A fresh row, bound under its key whoever was bound there. -/
theorem IsBinding.insert (h : IsBinding idx.get tbl.get key) {k : K} {v : V} {a : A}
    (hk : tbl.get k = none) (hv : key v = some a) :
    IsBinding (HashMap.get (idx.insert a k)) (HashMap.get (tbl.insert k v)) key := by
  intro b k' hidx
  rw [HashMap.get_insert] at hidx
  rw [HashMap.get_insert]
  split_ifs at hidx with hba
  · cases hidx
    exact ⟨v, by rw [if_pos rfl], by rw [hv, hba]⟩
  · obtain ⟨w, hw, hwb⟩ := h b k' hidx
    have hne : k' ≠ k := by
      rintro rfl
      rw [hk] at hw
      cases hw
    exact ⟨w, by rw [if_neg hne, hw], hwb⟩

end Maps

end Lib
