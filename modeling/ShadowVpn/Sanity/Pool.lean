import ShadowVpn.Lib.Mask
import ShadowVpn.Lib.Run
import ShadowVpn.Spec.Pool

/-! The pool of leased addresses: the cursor goes round the whole range, so an allocation
fails only when every address is leased, and then it leaves the pool as it was. -/

namespace ShadowVpn

open Lib

theorem toNat_saturatingAdd_one (a : BitVec 32) :
    (saturatingAdd a 1).toNat = min (a.toNat + 1) (2 ^ 32 - 1) := by
  have hlt := a.isLt
  have hone : (1 : BitVec 32).toNat = 1 := rfl
  unfold saturatingAdd
  split_ifs with hfit
  · rw [BitVec.toNat_add_of_lt hfit]
    omega
  · rw [BitVec.toNat_allOnes]
    omega

theorem toNat_saturatingSub_one (a : BitVec 32) : (saturatingSub a 1).toNat = a.toNat - 1 := by
  unfold saturatingSub
  split_ifs with hfit
  · exact BitVec.toNat_sub_of_le hfit
  · have hzero : ¬ 1 ≤ a.toNat := fun h => hfit (BitVec.le_def.2 h)
    show 0 = a.toNat - 1
    omega

/-- The hosts of a subnet leave out the first and the last address of all. -/
theorem hostRange_bounds (addr netmask : Ipv4Addr) :
    1 ≤ (hostRange addr netmask).1.toNat ∧ (hostRange addr netmask).2.toNat ≤ 2 ^ 32 - 2 := by
  have hlt := (addr &&& netmask ||| ~~~netmask).isLt
  simp only [hostRange, toNat_saturatingAdd_one, toNat_saturatingSub_one]
  omega

/-- The hosts lie strictly between the network address and the broadcast address. -/
theorem mem_hostRange_iff {addr netmask x : Ipv4Addr} :
    (hostRange addr netmask).1 ≤ x ∧ x ≤ (hostRange addr netmask).2 ↔
      addr &&& netmask < x ∧ x < addr &&& netmask ||| ~~~netmask := by
  have hlast := Mask.toNat_last (a := addr) (m := netmask)
  have hlt := (addr &&& netmask ||| ~~~netmask).isLt
  have hx := x.isLt
  simp only [hostRange, BitVec.le_def, BitVec.lt_def, toNat_saturatingAdd_one,
    toNat_saturatingSub_one]
  omega

/-! The addresses from one to another, in order. -/

def addrs (start end_ : BitVec 32) : List Ipv4Addr :=
  (List.range' start.toNat (end_.toNat + 1 - start.toNat)).map (BitVec.ofNat 32)

theorem mem_addrs {start end_ a : BitVec 32} : a ∈ addrs start end_ ↔ start ≤ a ∧ a ≤ end_ := by
  have hend := end_.isLt
  simp only [addrs, List.mem_map, List.mem_range'_1, BitVec.le_def]
  constructor
  · rintro ⟨n, hn, rfl⟩
    rw [BitVec.toNat_ofNat, Nat.mod_eq_of_lt (by omega)]
    omega
  · intro ha
    exact ⟨a.toNat, by omega, by simp⟩

theorem nodup_addrs (start end_ : BitVec 32) : (addrs start end_).Nodup := by
  have hend := end_.isLt
  refine List.Nodup.map_on ?_ List.nodup_range'
  intro m hm n hn heq
  rw [List.mem_range'_1] at hm hn
  have htoNat := congrArg BitVec.toNat heq
  rw [BitVec.toNat_ofNat, BitVec.toNat_ofNat] at htoNat
  omega

theorem length_addrs (start end_ : BitVec 32) :
    (addrs start end_).length = end_.toNat + 1 - start.toNat := by
  rw [addrs, List.length_map, List.length_range']

namespace LeasePool

variable {p : LeasePool} {a c ip : Ipv4Addr} {now : Instant}

/-- The addresses that can be leased. -/
def Assignable (p : LeasePool) (a : Ipv4Addr) : Prop :=
  p.start ≤ a ∧ a ≤ p.end_ ∧ a ≠ p.serverIp

structure Valid (p : LeasePool) : Prop where
  start_pos : 0 < p.start.toNat
  cursor : p.start ≤ p.end_ → p.start ≤ p.cursor ∧ p.cursor ≤ p.end_
  leased : ∀ a, (p.leases.get a).isSome → p.Assignable a

/-- What no operation changes. -/
def limits (p : LeasePool) : BitVec 32 × BitVec 32 × BitVec 32 × Duration :=
  (p.start, p.end_, p.serverIp, p.ttl)

/-! Going round. -/

theorem span_eq (h0 : 0 < p.start.toNat) (h : p.start ≤ p.end_) :
    p.span = p.end_.toNat - p.start.toNat + 1 := by
  have hle := BitVec.le_def.1 h
  have hlt := p.end_.isLt
  have hone : (1 : BitVec 32).toNat = 1 := rfl
  rw [span, BitVec.toNat_add, BitVec.toNat_sub_of_le h, hone]
  omega

theorem next_toNat (hc : c ≤ p.end_) :
    (p.next c).toNat = if c.toNat = p.end_.toNat then p.start.toNat else c.toNat + 1 := by
  have hle := BitVec.le_def.1 hc
  have hlt := p.end_.isLt
  have hone : (1 : BitVec 32).toNat = 1 := rfl
  unfold next
  by_cases heq : c.toNat = p.end_.toNat
  · rw [if_pos heq, if_pos (BitVec.le_def.2 (by omega))]
  · rw [if_neg heq, if_neg, BitVec.toNat_add, hone]
    · omega
    · intro hge
      have hge' := BitVec.le_def.1 hge
      omega

/-- Within one round the cursor passes the end at most once. -/
theorem iterate_next (h : p.start ≤ p.end_) (hc : p.start ≤ c ∧ c ≤ p.end_) {k : ℕ}
    (hk : k ≤ p.end_.toNat - p.start.toNat + 1) :
    (p.next^[k] c).toNat = if c.toNat + k ≤ p.end_.toNat then c.toNat + k
      else c.toNat + k - (p.end_.toNat - p.start.toNat + 1) := by
  simp only [BitVec.le_def] at h hc
  induction k with
  | zero =>
    rw [if_pos (by omega)]
    rfl
  | succ k ih =>
    have hprev := ih (by omega)
    have hle : p.next^[k] c ≤ p.end_ := by
      rw [BitVec.le_def, hprev]
      split_ifs <;> omega
    rw [Function.iterate_succ_apply', next_toNat hle, hprev]
    split_ifs <;> omega

/-- A round ends where it began. -/
theorem iterate_next_span (h : p.start ≤ p.end_) (hc : p.start ≤ c ∧ c ≤ p.end_) :
    p.next^[p.end_.toNat - p.start.toNat + 1] c = c := by
  apply BitVec.eq_of_toNat_eq
  rw [iterate_next h hc (le_refl _)]
  simp only [BitVec.le_def] at h hc
  split_ifs <;> omega

/-- How many addresses the cursor passes before it comes to `a`. -/
def turns (p : LeasePool) (a : Ipv4Addr) : ℕ :=
  if p.cursor ≤ a then a.toNat - p.cursor.toNat
  else a.toNat + (p.end_.toNat - p.start.toNat + 1) - p.cursor.toNat

/-- A round passes every address of the range. -/
theorem iterate_next_turns (h : p.start ≤ p.end_) (hc : p.start ≤ p.cursor ∧ p.cursor ≤ p.end_)
    (ha : p.start ≤ a ∧ a ≤ p.end_) :
    p.turns a < p.end_.toNat - p.start.toNat + 1 ∧ p.next^[p.turns a] p.cursor = a := by
  have hboth := hc
  have hrange := ha
  simp only [BitVec.le_def] at hboth hrange
  have hlt : p.turns a < p.end_.toNat - p.start.toNat + 1 := by
    simp only [turns, BitVec.le_def]
    split_ifs <;> omega
  refine ⟨hlt, BitVec.eq_of_toNat_eq ?_⟩
  rw [iterate_next h hc (by omega)]
  simp only [turns, BitVec.le_def]
  split_ifs <;> omega

/-- No address is passed twice in a round. -/
theorem turns_iterate_next (h : p.start ≤ p.end_) (hc : p.start ≤ p.cursor ∧ p.cursor ≤ p.end_)
    {k : ℕ} (hk : k < p.end_.toNat - p.start.toNat + 1) : p.turns (p.next^[k] p.cursor) = k := by
  have hn := iterate_next h hc (Nat.le_of_lt hk)
  simp only [BitVec.le_def] at h hc
  simp only [turns, BitVec.le_def, hn]
  split_ifs <;> omega

/-! Allocation. -/

/-- Not the server's and not leased. -/
def Free (p : LeasePool) (a : Ipv4Addr) : Prop := a ≠ p.serverIp ∧ p.leases.get a = none

/-- The loop stops at the first free address, or passes `n` that are not. -/
theorem allocateLoop_cases (now : Instant) (n : ℕ) (p : LeasePool) :
    (allocateLoop now n p = ({ p with cursor := p.next^[n] p.cursor }, none) ∧
      ∀ k < n, ¬ p.Free (p.next^[k] p.cursor)) ∨
    ∃ k < n, p.Free (p.next^[k] p.cursor) ∧ (∀ j < k, ¬ p.Free (p.next^[j] p.cursor)) ∧
      allocateLoop now n p =
        ({ p with
            leases := p.leases.insert (p.next^[k] p.cursor) now
            cursor := p.next^[k + 1] p.cursor },
          some (p.next^[k] p.cursor)) := by
  induction n generalizing p with
  | zero => exact Or.inl ⟨rfl, by simp⟩
  | succ n ih =>
    rw [allocateLoop]
    dsimp only
    split_ifs with hskip
    · have hbusy : ¬ p.Free p.cursor := by
        rintro ⟨hne, hnone⟩
        rcases hskip with hs | hs
        · exact hne hs
        · rw [hnone] at hs
          cases hs
      -- the rest of the loop runs on the same pool, one address further
      have hmore : ∀ m, (∀ j < m, ¬ p.Free (p.next^[j] (p.next p.cursor))) →
          ∀ j < m + 1, ¬ p.Free (p.next^[j] p.cursor) := by
        intro m hall j hj
        cases j with
        | zero => exact hbusy
        | succ j => exact hall j (by omega)
      rcases ih { p with cursor := p.next p.cursor } with ⟨heq, hall⟩ | ⟨k, hk, hfree, hall, heq⟩
      · exact Or.inl ⟨heq, hmore n hall⟩
      · exact Or.inr ⟨k + 1, by omega, hfree, hmore k hall, heq⟩
    · rw [not_or, Option.not_isSome_iff_eq_none] at hskip
      exact Or.inr ⟨0, by omega, hskip, by simp, rfl⟩

/-- An allocation takes the first free address that the cursor comes to, or leaves the pool
alone because there is none. -/
theorem allocate_cases (h : p.Valid) (now : Instant) :
    (p.allocate now = (p, none) ∧ ∀ a, p.Assignable a → (p.leases.get a).isSome) ∨
    ∃ a c, p.Assignable a ∧ p.leases.get a = none ∧ (p.start ≤ c ∧ c ≤ p.end_) ∧
      (∀ b, p.Assignable b → p.turns b < p.turns a → (p.leases.get b).isSome) ∧
      p.allocate now = ({ p with leases := p.leases.insert a now, cursor := c }, some a) := by
  unfold allocate
  split_ifs with hempty
  · refine Or.inl ⟨rfl, ?_⟩
    intro a ha
    have h1 := BitVec.le_def.1 ha.1
    have h2 := BitVec.le_def.1 ha.2.1
    have h3 := BitVec.lt_def.1 hempty
    omega
  · have hrange : p.start ≤ p.end_ := BitVec.not_lt.1 hempty
    have hcur := h.cursor hrange
    have hspan := span_eq h.start_pos hrange
    -- of an assignable address, to be passed over is to be leased
    have hpassed : ∀ b, p.Assignable b → ¬ p.Free (p.next^[p.turns b] p.cursor) →
        (p.leases.get b).isSome := by
      intro b hb hbusy
      rw [(iterate_next_turns hrange hcur ⟨hb.1, hb.2.1⟩).2] at hbusy
      by_contra hnone
      exact hbusy ⟨hb.2.2, Option.not_isSome_iff_eq_none.1 hnone⟩
    rcases allocateLoop_cases now p.span p with ⟨heq, hall⟩ | ⟨k, hk, hfree, hall, heq⟩
    · left
      rw [hspan, iterate_next_span hrange hcur] at heq
      rw [hspan] at hall ⊢
      refine ⟨heq, ?_⟩
      intro a ha
      exact hpassed a ha (hall _ (iterate_next_turns hrange hcur ⟨ha.1, ha.2.1⟩).1)
    · right
      have hin : ∀ j ≤ p.span, p.start ≤ p.next^[j] p.cursor ∧ p.next^[j] p.cursor ≤ p.end_ := by
        intro j hj
        have hn := iterate_next hrange hcur (hspan ▸ hj)
        simp only [BitVec.le_def] at hcur hrange ⊢
        split_ifs at hn <;> omega
      obtain ⟨h1, h2⟩ := hin k (by omega)
      refine ⟨_, _, ⟨h1, h2, hfree.1⟩, hfree.2, hin (k + 1) (by omega), ?_, heq⟩
      intro b hb hlt
      rw [turns_iterate_next hrange hcur (hspan ▸ hk)] at hlt
      exact hpassed b hb (hall _ hlt)

theorem allocate_eq_some (h : p.Valid) {pool : LeasePool} (ha : p.allocate now = (pool, some a)) :
    p.Assignable a ∧ p.leases.get a = none ∧ ∃ c, (p.start ≤ c ∧ c ≤ p.end_) ∧
      pool = { p with leases := p.leases.insert a now, cursor := c } := by
  rcases allocate_cases h now with ⟨hnone, -⟩ | ⟨b, c, hb, hfree, hc, -, heq⟩
  · rw [hnone] at ha
    cases ha
  · rw [heq] at ha
    cases ha
    exact ⟨hb, hfree, c, hc, rfl⟩

theorem allocate_eq_none (h : p.Valid) {pool : LeasePool} (ha : p.allocate now = (pool, none)) :
    pool = p ∧ ∀ a, p.Assignable a → (p.leases.get a).isSome := by
  rcases allocate_cases h now with ⟨hnone, hall⟩ | ⟨b, c, -, -, -, -, heq⟩
  · rw [hnone] at ha
    cases ha
    exact ⟨rfl, hall⟩
  · rw [heq] at ha
    cases ha

/-- The address taken is the first free one that the cursor comes to. -/
theorem allocate_first (h : p.Valid) {pool : LeasePool} (ha : p.allocate now = (pool, some a)) :
    ∀ b, p.Assignable b → p.turns b < p.turns a → (p.leases.get b).isSome := by
  rcases allocate_cases h now with ⟨hnone, -⟩ | ⟨b, c, -, -, -, hfirst, heq⟩
  · rw [hnone] at ha
    cases ha
  · rw [heq] at ha
    cases ha
    exact hfirst

/-! Every operation keeps the pool valid. -/

theorem new_valid (serverIp netmask : Ipv4Addr) (ttl : Duration) :
    (new serverIp netmask ttl).Valid where
  start_pos := (hostRange_bounds serverIp netmask).1
  cursor := fun h => ⟨BitVec.le_refl _, h⟩
  leased := fun a h => by cases h

theorem Valid.of_leases (h : p.Valid) {m : HashMap Ipv4Addr Instant}
    (hm : ∀ a, (m.get a).isSome → (p.leases.get a).isSome) : ({ p with leases := m }).Valid :=
  ⟨h.start_pos, h.cursor, fun a ha => h.leased a (hm a ha)⟩

theorem Valid.allocated (h : p.Valid) (ha : p.Assignable a) (hc : p.start ≤ c ∧ c ≤ p.end_)
    (now : Instant) : ({ p with leases := p.leases.insert a now, cursor := c }).Valid where
  start_pos := h.start_pos
  cursor := fun _ => hc
  leased := by
    intro b hb
    rw [HashMap.get_insert] at hb
    split_ifs at hb with hba
    · rw [hba]
      exact ha
    · exact h.leased b hb

/-- A refresh dates the lease, if there is one. -/
theorem refresh_eq (p : LeasePool) (ip : Ipv4Addr) (now : Instant) :
    ∃ m, (p.refresh ip now).1 = { p with leases := m } ∧
      ∀ a, m.get a = if a = ip then (p.leases.get a).map fun _ => now else p.leases.get a := by
  unfold refresh
  cases hip : p.leases.get ip with
  | none =>
    refine ⟨p.leases, rfl, ?_⟩
    intro a
    split_ifs with ha
    · rw [ha, hip]
      rfl
    · rfl
  | some seen =>
    refine ⟨p.leases.insert ip now, rfl, ?_⟩
    intro a
    rw [HashMap.get_insert]
    split_ifs with ha
    · rw [ha, hip]
      rfl
    · rfl

theorem mem_reap (p : LeasePool) (order : IterOrder Ipv4Addr Instant) (now : Instant) (a : Ipv4Addr) :
    a ∈ (p.reap order now).2 ↔ ∃ seen, p.leases.get a = some seen ∧
      Instant.saturatingDurationSince now seen > p.ttl := by
  unfold reap
  dsimp only
  rw [List.mem_map]
  constructor
  · rintro ⟨⟨b, seen⟩, hmem, rfl⟩
    obtain ⟨hit, hold⟩ := List.mem_filter.1 hmem
    exact ⟨seen, order.mem_iter.1 hit, of_decide_eq_true hold⟩
  · rintro ⟨seen, hget, hold⟩
    exact ⟨⟨a, seen⟩, List.mem_filter.2 ⟨order.mem_iter.2 hget, decide_eq_true hold⟩, rfl⟩

/-- A reap takes away what it reports. -/
theorem reap_eq (p : LeasePool) (order : IterOrder Ipv4Addr Instant) (now : Instant) :
    ∃ m, (p.reap order now).1 = { p with leases := m } ∧
      ∀ a, m.get a = if a ∈ (p.reap order now).2 then none else p.leases.get a :=
  ⟨_, rfl, fun a => HashMap.get_foldl_erase _ _ a⟩

/-! The capacity. -/

/-- The addresses of the range, in order. -/
def range (p : LeasePool) : List Ipv4Addr :=
  (List.range' p.start.toNat (p.end_.toNat + 1 - p.start.toNat)).map (BitVec.ofNat 32)

/-- The assignable ones. -/
def addresses (p : LeasePool) : List Ipv4Addr := p.range.erase p.serverIp

theorem mem_range : a ∈ p.range ↔ p.start ≤ a ∧ a ≤ p.end_ := mem_addrs

theorem nodup_range (p : LeasePool) : p.range.Nodup := nodup_addrs p.start p.end_

theorem mem_addresses : a ∈ p.addresses ↔ p.Assignable a := by
  rw [addresses, p.nodup_range.mem_erase_iff, mem_range, and_comm, and_assoc]
  rfl

theorem nodup_addresses (p : LeasePool) : p.addresses.Nodup :=
  p.nodup_range.erase _

theorem length_addresses (h : p.Valid) : p.addresses.length = p.capacity := by
  have hlen : p.range.length = p.end_.toNat + 1 - p.start.toNat := length_addrs p.start p.end_
  rw [addresses, List.length_erase, hlen, capacity]
  simp only [mem_range]
  split_ifs with hin hempty
  · simp only [BitVec.le_def, BitVec.lt_def] at hin hempty
    omega
  · rw [span_eq h.start_pos (BitVec.not_lt.1 hempty)]
    simp only [BitVec.le_def] at hin
    omega
  · simp only [BitVec.lt_def] at *
    omega
  · have hrange := BitVec.not_lt.1 ‹_›
    rw [span_eq h.start_pos hrange]
    simp only [BitVec.le_def] at hrange
    omega

/-- The pool is full when there are as many leases as the capacity. -/
theorem full_iff (h : p.Valid) :
    p.leases.entries.length = p.capacity ↔ ∀ a, p.Assignable a → (p.leases.get a).isSome := by
  have hsub : p.leases.keys ⊆ p.addresses := fun a ha =>
    mem_addresses.2 (h.leased a (HashMap.mem_keys.1 ha))
  rw [← length_addresses h]
  constructor
  · intro hlen a ha
    have hperm : p.leases.keys.Perm p.addresses := by
      refine (List.subperm_of_subset p.leases.keys_nodup hsub).perm_of_length_le ?_
      rw [HashMap.length_keys, hlen]
    exact HashMap.mem_keys.1 (hperm.mem_iff.2 (mem_addresses.2 ha))
  · intro hall
    apply HashMap.length_entries_eq p.nodup_addresses
    intro a
    rw [mem_addresses]
    exact ⟨h.leased a, hall a⟩

theorem nodup_reap (p : LeasePool) (order : IterOrder Ipv4Addr Instant) (now : Instant) :
    (p.reap order now).2.Nodup :=
  (order.nodup_keys p.leases).sublist (List.filter_sublist.map _)

/-! What a call does. -/

inductive Steps (p : LeasePool) : PoolCall → LeasePool × PoolOut → Prop
  | granted {now : Instant} {a c : Ipv4Addr} (ha : p.Assignable a) (hfree : p.leases.get a = none)
      (hc : p.start ≤ c ∧ c ≤ p.end_)
      (hfirst : ∀ b, p.Assignable b → p.turns b < p.turns a → (p.leases.get b).isSome) :
      Steps p (.allocate now)
        ({ p with leases := p.leases.insert a now, cursor := c }, .allocated (some a))
  | exhausted {now : Instant} (hall : ∀ a, p.Assignable a → (p.leases.get a).isSome) :
      Steps p (.allocate now) (p, .allocated none)
  | refreshed {now : Instant} {ip : Ipv4Addr} {m : HashMap Ipv4Addr Instant} {known : Bool}
      (hm : ∀ a, m.get a = if a = ip then (p.leases.get a).map fun _ => now else p.leases.get a) :
      Steps p (.refresh ip now) ({ p with leases := m }, .refreshed known)
  | reaped {order : IterOrder Ipv4Addr Instant} {now : Instant} {m : HashMap Ipv4Addr Instant}
      (hm : ∀ a, m.get a = if a ∈ (p.reap order now).2 then none else p.leases.get a) :
      Steps p (.reap order now) ({ p with leases := m }, .reaped (p.reap order now).2)

theorem steps_of_step (h : p.Valid) {call : PoolCall} {post : LeasePool × PoolOut}
    (hs : p.step call = .ok post) : p.Steps call post := by
  cases call with
  | allocate now =>
    cases hs
    rcases allocate_cases h now with ⟨heq, hall⟩ | ⟨a, c, ha, hfree, hc, hfirst, heq⟩
    · rw [heq]
      exact .exhausted hall
    · rw [heq]
      exact .granted ha hfree hc hfirst
  | refresh ip now =>
    cases hs
    obtain ⟨m, heq, hm⟩ := refresh_eq p ip now
    rw [heq]
    exact .refreshed hm
  | reap order now =>
    cases hs
    obtain ⟨m, heq, hm⟩ := reap_eq p order now
    rw [heq]
    exact .reaped hm

theorem Valid.step (h : p.Valid) {call : PoolCall} {post : LeasePool × PoolOut}
    (hs : p.step call = .ok post) : post.1.Valid ∧ post.1.limits = p.limits := by
  cases steps_of_step h hs with
  | granted ha _ hc _ => exact ⟨h.allocated ha hc _, rfl⟩
  | exhausted _ => exact ⟨h, rfl⟩
  | refreshed hm =>
    refine ⟨h.of_leases ?_, rfl⟩
    intro a ha
    rw [hm] at ha
    split_ifs at ha
    · simpa using ha
    · exact ha
  | reaped hm =>
    refine ⟨h.of_leases ?_, rfl⟩
    intro a ha
    rw [hm] at ha
    split_ifs at ha
    · cases ha
    · exact ha

/-- The limits fix the capacity and what can be leased. -/
theorem capacity_congr {q : LeasePool} (h : q.limits = p.limits) : q.capacity = p.capacity := by
  simp only [limits, Prod.mk.injEq] at h
  simp only [capacity, span, h]

theorem reachable_valid {serverIp netmask : Ipv4Addr} {ttl : Duration}
    {es : List (Entry LeasePool PoolCall PoolOut)}
    (hr : Run LeasePool.step (new serverIp netmask ttl) es p) :
    p.Valid ∧ p.limits = (new serverIp netmask ttl).limits := by
  apply hr.invariant (I := fun p => p.Valid ∧ p.limits = (new serverIp netmask ttl).limits)
  · intro p call out p' hi hs
    obtain ⟨hvalid, hlim⟩ := hi.1.step hs
    exact ⟨hvalid, hlim.trans hi.2⟩
  · exact ⟨new_valid serverIp netmask ttl, rfl⟩

end LeasePool

end ShadowVpn
