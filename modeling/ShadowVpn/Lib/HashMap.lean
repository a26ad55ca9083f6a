import Mathlib.Data.List.AList

/-! Hash maps as key-unique association lists. `get` reads a map as a partial
function, and an `IterOrder` is one of the orders in which a map may be walked:
a hash map promises no order, so whatever iterates takes one as an argument. -/

namespace Lib

/-- A finite map. The stored order of the entries carries no meaning. -/
abbrev HashMap (K V : Type) := AList fun _ : K => V

namespace HashMap

variable {K V : Type} [DecidableEq K]

def get (m : HashMap K V) (k : K) : Option V := m.lookup k

/-- Insert under an optional key; `none` leaves the map alone. -/
def insertOpt (m : HashMap K V) : Option K → V → HashMap K V
  | some k, v => m.insert k v
  | none, _ => m

/-- Erase an optional key; `none` leaves the map alone. -/
def eraseOpt (m : HashMap K V) : Option K → HashMap K V
  | some k => m.erase k
  | none => m

/-- Erase an optional key, but only while it is bound to `v`. -/
def eraseBinding [DecidableEq V] (m : HashMap K V) : Option K → V → HashMap K V
  | some k, v => if m.get k = some v then m.erase k else m
  | none, _ => m

/-- Keep the entries that pass `keep`. -/
def retain (m : HashMap K V) (keep : K → V → Bool) : HashMap K V :=
  ⟨m.entries.filter fun e => keep e.1 e.2, m.nodupKeys.sublist List.filter_sublist⟩

@[simp] theorem get_empty (k : K) : (∅ : HashMap K V).get k = none := rfl

@[simp] theorem get_insert (m : HashMap K V) (k : K) (v : V) (a : K) :
    HashMap.get (m.insert k v) a = if a = k then some v else m.get a := by
  unfold get
  split_ifs with h
  · subst h
    exact AList.lookup_insert m
  · exact AList.lookup_insert_ne h

@[simp] theorem get_erase (m : HashMap K V) (k a : K) :
    HashMap.get (m.erase k) a = if a = k then none else m.get a := by
  unfold get
  split_ifs with h
  · subst h
    exact AList.lookup_erase a m
  · exact AList.lookup_erase_ne h

@[simp] theorem get_insertOpt (m : HashMap K V) (o : Option K) (v : V) (a : K) :
    (m.insertOpt o v).get a = if o = some a then some v else m.get a := by
  cases o with
  | none => simp [insertOpt]
  | some k => simp [insertOpt, eq_comm]

@[simp] theorem get_eraseOpt (m : HashMap K V) (o : Option K) (a : K) :
    (m.eraseOpt o).get a = if o = some a then none else m.get a := by
  cases o with
  | none => simp [eraseOpt]
  | some k => simp [eraseOpt, eq_comm]

@[simp] theorem get_eraseBinding [DecidableEq V] (m : HashMap K V) (o : Option K) (v : V)
    (a : K) :
    (m.eraseBinding o v).get a = if o = some a ∧ m.get a = some v then none else m.get a := by
  cases o with
  | none => simp [eraseBinding]
  | some k =>
    by_cases hk : m.get k = some v
    · by_cases ha : a = k
      · subst ha
        simp [eraseBinding, hk]
      · simp [eraseBinding, hk, ha, Ne.symm ha]
    · by_cases ha : a = k
      · subst ha
        simp [eraseBinding, hk]
      · simp [eraseBinding, hk, Ne.symm ha]

theorem mem_entries {m : HashMap K V} {k : K} {v : V} :
    ⟨k, v⟩ ∈ m.entries ↔ m.get k = some v :=
  AList.mem_lookup_iff.symm

theorem get_retain (m : HashMap K V) (keep : K → V → Bool) (k : K) :
    (m.retain keep).get k = (m.get k).filter (keep k) := by
  apply Option.ext
  intro v
  rw [← mem_entries, Option.filter_eq_some_iff, ← mem_entries]
  simp [retain]

theorem get_foldl_erase (l : List K) (m : HashMap K V) (k : K) :
    HashMap.get (l.foldl (fun m k => m.erase k) m) k = if k ∈ l then none else m.get k := by
  induction l generalizing m with
  | nil => simp
  | cons x l ih =>
    rw [List.foldl_cons, ih, get_erase]
    by_cases hx : k = x
    · simp [hx]
    · simp [hx]

theorem get_eraseBinding_eq_some [DecidableEq V] {m : HashMap K V} {k a : K} {v w : V} :
    (m.eraseBinding (some k) v).get a = some w ↔ m.get a = some w ∧ (k = a → v ≠ w) := by
  rw [get_eraseBinding]
  split_ifs with h
  · refine iff_of_false (by simp) ?_
    rintro ⟨hw, hne⟩
    cases h.2.symm.trans hw
    exact hne (Option.some.inj h.1) rfl
  · rw [iff_self_and]
    rintro hw rfl rfl
    exact h ⟨rfl, hw⟩

theorem get_foldl_eraseBinding [DecidableEq V] {α : Type} (key : α → K) (val : α → V) (l : List α)
    (m : HashMap K V) (k : K) (v : V) :
    HashMap.get (l.foldl (fun m a => m.eraseBinding (some (key a)) (val a)) m) k = some v ↔
      m.get k = some v ∧ ∀ a ∈ l, key a = k → val a ≠ v := by
  induction l generalizing m with
  | nil => simp
  | cons x l ih =>
    rw [List.foldl_cons, ih, get_eraseBinding_eq_some, List.forall_mem_cons, and_assoc]

theorem mem_keys {m : HashMap K V} {k : K} : k ∈ m.keys ↔ (m.get k).isSome :=
  AList.lookup_isSome.symm

omit [DecidableEq K] in
theorem length_keys (m : HashMap K V) : m.keys.length = m.entries.length := List.length_map ..

/-- A map has as many entries as there are keys. -/
theorem length_entries_eq {m : HashMap K V} {ks : List K} (hks : ks.Nodup)
    (h : ∀ k, (m.get k).isSome ↔ k ∈ ks) : m.entries.length = ks.length := by
  rw [← length_keys]
  exact ((List.perm_ext_iff_of_nodup m.keys_nodup hks).2 fun k => mem_keys.trans (h k)).length_eq

theorem length_le_of_keys {m m' : HashMap K V} (h : ∀ k, (m'.get k).isSome → (m.get k).isSome) :
    m'.entries.length ≤ m.entries.length := by
  rw [← length_keys, ← length_keys]
  exact List.Nodup.length_le_of_subset m'.keys_nodup fun k hk => mem_keys.2 (h k (mem_keys.1 hk))

/-- A map with fewer bindings is no longer. -/
theorem length_le_of_get {m m' : HashMap K V} (h : ∀ k v, m'.get k = some v → m.get k = some v) :
    m'.entries.length ≤ m.entries.length := by
  refine length_le_of_keys fun k hk => ?_
  obtain ⟨v, hv⟩ := Option.isSome_iff_exists.1 hk
  exact Option.isSome_iff_exists.2 ⟨v, h k v hv⟩

theorem length_insert_le (m : HashMap K V) (k : K) (v : V) :
    (AList.insert k v m).entries.length ≤ m.entries.length + 1 := by
  rw [AList.entries_insert, List.length_cons]
  exact Nat.succ_le_succ (List.kerase_sublist k m.entries).length_le

end HashMap

/-- One order in which maps are walked: each entry once. -/
structure IterOrder (K V : Type) where
  iter : HashMap K V → List (Σ _ : K, V)
  perm : ∀ m, (iter m).Perm m.entries

namespace IterOrder

variable {K V : Type}

/-- The stored order, for running the model. -/
def stored : IterOrder K V := ⟨fun m => m.entries, fun _ => .refl _⟩

theorem nodup_keys (o : IterOrder K V) (m : HashMap K V) :
    ((o.iter m).map Sigma.fst).Nodup :=
  ((o.perm m).map Sigma.fst).nodup_iff.mpr m.nodupKeys

theorem mem_iter [DecidableEq K] (o : IterOrder K V) {m : HashMap K V} {k : K} {v : V} :
    ⟨k, v⟩ ∈ o.iter m ↔ m.get k = some v :=
  (o.perm m).mem_iff.trans HashMap.mem_entries

/-- In whatever order a map is walked, exactly one entry passes if one key has it. -/
theorem countP_iter_eq_one [DecidableEq K] (o : IterOrder K V) {m : HashMap K V} {f : V → Bool} :
    (o.iter m).countP (fun e => f e.2) = 1 ↔ ∃ k v, m.get k = some v ∧ f v = true ∧
      ∀ k' v', m.get k' = some v' → f v' = true → k' = k := by
  have hmem : ∀ k v, ⟨k, v⟩ ∈ (o.iter m).filter (fun e => f e.2) ↔ m.get k = some v ∧ f v = true := by
    intro k v
    rw [List.mem_filter, o.mem_iter]
  rw [List.countP_eq_length_filter, List.length_eq_one_iff]
  constructor
  · rintro ⟨⟨k, v⟩, hone⟩
    obtain ⟨hk, hv⟩ := (hmem k v).1 (hone ▸ List.mem_singleton_self _)
    refine ⟨k, v, hk, hv, ?_⟩
    intro k' v' hk' hv'
    have hin := (hmem k' v').2 ⟨hk', hv'⟩
    rw [hone, List.mem_singleton] at hin
    cases hin
    rfl
  · rintro ⟨k, v, hk, hv, honly⟩
    have hnodup := (List.Nodup.of_map _ (o.nodup_keys m)).filter fun e : Σ _ : K, V => f e.2
    refine ⟨⟨k, v⟩, List.perm_singleton.1 ?_⟩
    refine (List.perm_ext_iff_of_nodup hnodup (List.nodup_singleton _)).2 ?_
    rintro ⟨k', v'⟩
    rw [hmem, List.mem_singleton]
    constructor
    · rintro ⟨hk', hv'⟩
      obtain rfl := honly k' v' hk' hv'
      cases hk.symm.trans hk'
      rfl
    · rintro heq
      cases heq
      exact ⟨hk, hv⟩

end IterOrder

end Lib
