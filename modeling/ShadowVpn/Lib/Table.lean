import Mathlib.Data.List.Nodup

/-! Lists as tables: records with a key of their own, each key once, and the record with
the greatest measure. -/

namespace Lib

variable {α κ : Type} {l : List α} {k : κ}

/-! Scans that report some of what they pass. -/

/-- `out` lists, each once, the elements of `done` that have the property. -/
def Collects (C : κ → Prop) (done out : List κ) : Prop :=
  out.Nodup ∧ ∀ x, x ∈ out ↔ x ∈ done ∧ C x

theorem Collects.nil (C : κ → Prop) : Collects C [] [] := by
  simp [Collects]

variable {C : κ → Prop} {done out : List κ}

theorem Collects.skip (h : Collects C done out) (hk : k ∈ done ∨ ¬ C k) :
    Collects C (done ++ [k]) out := by
  refine ⟨h.1, fun x => ?_⟩
  rw [h.2, List.mem_append, List.mem_singleton]
  constructor
  · rintro ⟨hx, hc⟩
    exact ⟨Or.inl hx, hc⟩
  · rintro ⟨hx | rfl, hc⟩
    · exact ⟨hx, hc⟩
    · rcases hk with hk | hk
      · exact ⟨hk, hc⟩
      · exact absurd hc hk

theorem Collects.push (h : Collects C done out) (hk : k ∉ done) (hc : C k) :
    Collects C (done ++ [k]) (out ++ [k]) := by
  have hnew : k ∉ out := fun hout => hk ((h.2 k).1 hout).1
  refine ⟨?_, fun x => ?_⟩
  · rw [List.nodup_append']
    exact ⟨h.1, by simp, by simpa using hnew⟩
  · rw [List.mem_append, List.mem_append, List.mem_singleton, h.2]
    constructor
    · rintro (⟨hx, hcx⟩ | rfl)
      · exact ⟨Or.inl hx, hcx⟩
      · exact ⟨Or.inr rfl, hc⟩
    · rintro ⟨hx | rfl, hcx⟩
      · exact Or.inl ⟨hx, hcx⟩
      · exact Or.inr rfl

/-- The same elements for another property that agrees with it on what was passed. -/
theorem Collects.congr {D : κ → Prop} (h : Collects C done out) (hcd : ∀ x ∈ done, C x ↔ D x) :
    Collects D done out :=
  ⟨h.1, fun x => (h.2 x).trans (and_congr_right (hcd x))⟩

/-! Keys. -/

section Keys

variable [DecidableEq κ] {key : α → κ} {a : α}

theorem find_key_iff (hn : (l.map key).Nodup) :
    (l.find? fun x => key x = k) = some a ↔ a ∈ l ∧ key a = k := by
  constructor
  · intro h
    exact ⟨List.mem_of_find?_eq_some h, by simpa using List.find?_some h⟩
  · rintro ⟨ha, rfl⟩
    cases h : l.find? fun x => key x = key a with
    | none =>
      have hall := List.find?_eq_none.1 h a ha
      simp at hall
    | some b =>
      have hb := List.mem_of_find?_eq_some h
      have hkey : key b = key a := by simpa using List.find?_some h
      rw [List.inj_on_of_nodup_map hn hb ha hkey]

/-- Where the record of a key stands. -/
theorem exists_findIdx (hn : (l.map key).Nodup) (ha : a ∈ l) (hk : key a = k) :
    ∃ i, (l.findIdx? fun x => key x = k) = some i ∧ l[i]? = some a := by
  cases hidx : l.findIdx? fun x => key x = k with
  | none =>
    have hall := List.findIdx?_eq_none_iff.1 hidx a ha
    simp [hk] at hall
  | some i =>
    obtain ⟨hi, hp, -⟩ := List.findIdx?_eq_some_iff_getElem.1 hidx
    have hkey : key l[i] = key a := by
      rw [hk]
      simpa using hp
    have heq := List.inj_on_of_nodup_map hn (List.getElem_mem hi) ha hkey
    exact ⟨i, rfl, by rw [List.getElem?_eq_getElem hi, heq]⟩

/-- To rewrite one record is to rewrite the records with its key. -/
theorem modify_eq_map (hn : (l.map key).Nodup) {i : Nat} (hi : l[i]? = some a) (f : α → α) :
    l.modify i f = l.map fun x => if key x = key a then f x else x := by
  apply List.ext_getElem?
  intro j
  rw [List.getElem?_modify, List.getElem?_map]
  cases hj : l[j]? with
  | none => rfl
  | some x =>
    by_cases hij : i = j
    · subst hij
      obtain rfl : a = x := by
        rw [hi] at hj
        exact Option.some.inj hj
      simp
    · have hne : key x ≠ key a := by
        intro hkey
        apply hij
        have hlt : i < (l.map key).length := by
          rw [List.length_map]
          exact (List.getElem?_eq_some_iff.1 hi).1
        rw [← List.getElem?_inj hlt hn, List.getElem?_map, List.getElem?_map, hi, hj,
          Option.map_some, Option.map_some, hkey]
      simp [hij, hne]

end Keys

/-- The first element that is not among the first `k` is the next one. -/
theorem find?_not_mem_take (hn : l.Nodup) (k : Nat) {p : α → Bool}
    (hp : ∀ x ∈ l, p x = true ↔ x ∉ l.take k) : l.find? p = l[k]? := by
  have hfront : (l.take k).find? p = none := by
    rw [List.find?_eq_none]
    intro x hx hpx
    exact (hp x (List.mem_of_mem_take hx)).1 hpx hx
  rw [← List.take_append_drop k l, List.find?_append, hfront, Option.none_or,
    List.take_append_drop]
  cases hrest : l.drop k with
  | nil =>
    have hlen : l.length ≤ k := List.drop_eq_nil_iff.1 hrest
    rw [List.getElem?_eq_none hlen]
    rfl
  | cons x rest =>
    have hx : l[k]? = some x := by
      have hget : (l.drop k)[0]? = l[k + 0]? := List.getElem?_drop
      rw [hrest] at hget
      simpa using hget.symm
    have hdrop : x ∈ l.drop k := by
      rw [hrest]
      exact List.mem_cons_self
    have hnew : x ∉ l.take k := by
      intro hmem
      exact List.disjoint_take_drop hn (Nat.le_refl k) hmem hdrop
    rw [List.find?_cons, (hp x (List.mem_of_mem_drop hdrop)).2 hnew, hx]

/-! Measures. -/

/-- The last of the records with the greatest measure. -/
def maxByKey (measure : α → Nat) (l : List α) : Option α :=
  l.foldl (fun best x =>
    match best with
    | none => some x
    | some b => if measure b ≤ measure x then some x else some b) none

/-- Once something is found, it only gets better. -/
theorem foldl_max (measure : α → Nat) (l : List α) (b : α) :
    ∃ m, l.foldl (fun best x =>
        match best with
        | none => some x
        | some b => if measure b ≤ measure x then some x else some b) (some b) = some m ∧
      (m = b ∨ m ∈ l) ∧ measure b ≤ measure m ∧ ∀ x ∈ l, measure x ≤ measure m := by
  induction l generalizing b with
  | nil => exact ⟨b, rfl, Or.inl rfl, Nat.le_refl _, by simp⟩
  | cons x l ih =>
    rw [List.foldl_cons]
    dsimp only
    split_ifs with hx
    · obtain ⟨m, hm, hmem, hle, hall⟩ := ih x
      refine ⟨m, hm, Or.inr ?_, by omega, List.forall_mem_cons.2 ⟨hle, hall⟩⟩
      rcases hmem with rfl | hmem
      · exact List.mem_cons_self
      · exact List.mem_cons_of_mem x hmem
    · obtain ⟨m, hm, hmem, hle, hall⟩ := ih b
      refine ⟨m, hm, ?_, hle, List.forall_mem_cons.2 ⟨by omega, hall⟩⟩
      rcases hmem with rfl | hmem
      · exact Or.inl rfl
      · exact Or.inr (List.mem_cons_of_mem x hmem)

/-- What is found is there, and nothing measures more. -/
theorem maxByKey_spec (measure : α → Nat) (l : List α) :
    (l = [] ∧ maxByKey measure l = none) ∨
      ∃ m ∈ l, maxByKey measure l = some m ∧ ∀ x ∈ l, measure x ≤ measure m := by
  cases l with
  | nil => exact Or.inl ⟨rfl, rfl⟩
  | cons x l =>
    right
    obtain ⟨m, hm, hmem, hle, hall⟩ := foldl_max measure l x
    refine ⟨m, ?_, hm, List.forall_mem_cons.2 ⟨hle, hall⟩⟩
    rcases hmem with rfl | hmem
    · exact List.mem_cons_self
    · exact List.mem_cons_of_mem x hmem

/-- A maximum that no other record equals is the one found. -/
theorem maxByKey_eq_some {measure : α → Nat} {m : α} (hm : m ∈ l)
    (hmax : ∀ x ∈ l, measure x ≤ measure m) (huniq : ∀ x ∈ l, measure x = measure m → x = m) :
    maxByKey measure l = some m := by
  rcases maxByKey_spec measure l with ⟨rfl, -⟩ | ⟨x, hx, hfound, hall⟩
  · cases hm
  · have hle := hmax x hx
    have hge := hall m hm
    rw [hfound, huniq x hx (by omega)]

end Lib
