import ShadowVpn.Sanity.Pick

/-! Each operation of the assigner does to its tables what the corresponding
operation of the book does, and leaves its settings alone. -/

namespace ShadowVpn

open Lib

/-! Books that agree. -/

namespace Book

variable {b : Book} {p : Policy} {n : NodeId} {want : Bool} {ip4 : Ipv4Addr}

theorem drop_drop (b : Book) (f g : NodeId → Bool) :
    (b.drop f).drop g = b.drop fun n => f n || g n := by
  ext1
  · funext m
    by_cases hf : f m <;> by_cases hg : g m <;> simp [drop, hf, hg]
  · funext q
    simp only [drop, Option.filter_filter]
    congr 1
    funext m
    cases f m <;> cases g m <;> rfl

/-- Dropping a node that holds nothing changes nothing: no endpoint is bound to it. -/
theorem drop_of_not_held (h : b.held n = none) : (b.drop fun m => m = n) = b := by
  ext1
  · funext m
    by_cases hm : m = n
    · simp [drop, hm, h]
    · simp [drop, hm]
  · funext q
    cases hq : b.bound q with
    | none => simp [drop, hq]
    | some m =>
      have hne : m ≠ n := by
        rintro rfl
        obtain ⟨l, hl, -⟩ := b.peer q m hq
        rw [h] at hl
        cases hl
      simp [drop, hq, hne]

theorem drop_nil (b : Book) : (b.drop fun _ => false) = b := by
  ext1
  · funext m
    simp [drop]
  · funext q
    cases hq : b.bound q <;> simp [drop, hq]

/-- Usability reads the held rows only. -/
theorem Usable.congr {b' : Book} (h : b.held = b'.held) :
    b.Usable p n want ip4 ↔ b'.Usable p n want ip4 := by
  constructor
  · intro hu
    exact ⟨hu.legal, h ▸ hu.free4, hu.server6, h ▸ hu.free6⟩
  · intro hu
    exact ⟨hu.legal, h ▸ hu.free4, hu.server6, h ▸ hu.free6⟩

/-- To a node without a lease, usable means free. -/
theorem Usable.free (hu : b.Usable p n want ip4) (hn : b.held n = none) :
    b.Free n ip4 (p.derive want ip4) := by
  refine ⟨hn, fun m l hm he => ?_, fun m l a hm hd ha => ?_⟩
  · have := hu.free4 m l hm he
    rw [this, hn] at hm
    cases hm
  · have := hu.free6 m l a hm hd ha
    rw [this, hn] at hm
    cases hm

/-- A new binding of `peer` hides what it was bound to before. -/
theorem unbind_bind {ip6 : Option Ipv6Addr} {peer : SocketAddr}
    (hf : (b.unbind peer).Free n ip4 ip6) (hf' : b.Free n ip4 ip6) (now : SystemTime) :
    (b.unbind peer).bind hf peer now = b.bind hf' peer now := by
  ext1
  · rfl
  · funext q
    by_cases hq : q = peer <;> simp [bind, unbind, hq]

theorem unbind_evict (b : Book) (peer : SocketAddr) (v : Lease) :
    (b.unbind peer).evict v = (b.evict v).unbind peer := by
  ext1
  · rfl
  · funext q
    by_cases hq : q = peer <;> simp [evict, drop, unbind, hq]

theorem expire_held (b : Book) (ttl : Duration) (now : SystemTime) (n : NodeId) :
    (b.expire ttl now).held n = (b.held n).filter fun l => !isExpired l.lastSeen now ttl := by
  cases h : b.held n with
  | none => simp [expire, drop, h]
  | some l =>
    by_cases he : isExpired l.lastSeen now ttl <;>
      simp [expire, drop, h, he, Option.filter_some]

theorem expire_held_some {ttl : Duration} {now : SystemTime} {l : Lease} :
    (b.expire ttl now).held n = some l ↔
      b.held n = some l ∧ isExpired l.lastSeen now ttl = false := by
  rw [expire_held, Option.filter_eq_some_iff]
  simp

theorem evict_held (b : Book) (v : Lease) (n : NodeId) :
    (b.evict v).held n = if n = v.nodeId then none else b.held n := by
  simp [evict, drop]

end Book

/-! New rows. -/

namespace Refines

variable {s : Assigner} {b : Book} {n : NodeId} {ip4 : Ipv4Addr} {ip6 : Option Ipv6Addr}

theorem free_node (hr : Refines s b) (hf : b.Free n ip4 ip6) : s.byNode.get n = none := by
  rw [hr.held]
  exact hf.node

theorem free_ip4 (hr : Refines s b) (hf : b.Free n ip4 ip6) : s.byIp4.get ip4 = none := by
  rw [hr.ip4.eq_none_iff, hr.held]
  intro m l hm he
  exact hf.ip4 m l hm (Option.some.inj he)

theorem free_ip6 (hr : Refines s b) (hf : b.Free n ip4 ip6) (a : Ipv6Addr) (ha : ip6 = some a) :
    s.byIp6.get a = none := by
  rw [hr.ip6.eq_none_iff, hr.held]
  exact fun m l hm => hf.ip6 m l a hm ha

/-- A row whose node and addresses are free goes into the three tables at once. -/
theorem add (hr : Refines s b) {l : Lease} (hf : b.Free l.nodeId l.ip4 l.ip6) :
    Refines { s with
      byNode := s.byNode.insert l.nodeId l
      byIp4 := s.byIp4.insert l.ip4 l.nodeId
      byIp6 := s.byIp6.insertOpt l.ip6 l.nodeId } (b.add l hf) := by
  have hn := hr.free_node hf
  refine ⟨?_, hr.bound, hr.ip4.insert hn ?_, hr.ip6.insert hn (hr.free_ip6 hf)⟩
  · funext m
    simp only [HashMap.get_insert, Book.add, hr.held]
  · rintro a ⟨⟩
    exact hr.free_ip4 hf

end Refines

/-! Settings that no allocation touches. -/

structure Frame (s s' : Assigner) : Prop where
  policy : s'.policy = s.policy
  path : s'.persistPath = s.persistPath

theorem Frame.refl (s : Assigner) : Frame s s := ⟨rfl, rfl⟩

theorem Frame.trans {s t u : Assigner} (h : Frame s t) (h' : Frame t u) : Frame s u :=
  ⟨h'.policy.trans h.policy, h'.path.trans h.path⟩

namespace Assigner

variable {s s' : Assigner} {b : Book}

theorem refines_empty (args : Args) (clock : SystemTime) : Refines (empty args clock) Book.empty :=
  ⟨rfl, rfl, isIndex_empty, isIndex_empty⟩

theorem setHostRange_refines (hr : Refines s b) (start end_ : BitVec 32) :
    Refines (s.setHostRange start end_) b :=
  ⟨hr.held, hr.bound, hr.ip4, hr.ip6⟩

theorem dropLease_frame (s : Assigner) (n : NodeId) : Frame s (s.dropLease n).1 := by
  unfold dropLease
  split
  · exact Frame.refl s
  · exact ⟨rfl, rfl⟩

theorem dropLease_refines (hr : Refines s b) (n : NodeId) :
    Refines (s.dropLease n).1 (b.drop fun m => m = n) ∧ (s.dropLease n).2 = b.held n := by
  have hget : s.byNode.get n = b.held n := by rw [hr.held]
  unfold dropLease
  cases h : b.held n with
  | none =>
    rw [hget, h, Book.drop_of_not_held h]
    exact ⟨hr, rfl⟩
  | some l =>
    rw [hget, h]
    refine ⟨⟨?_, ?_, hr.ip4.erase (hget.trans h), hr.ip6.erase (hget.trans h)⟩, rfl⟩
    · funext m
      simp only [HashMap.get_erase, Book.drop, ← hr.held, decide_eq_true_eq]
    · funext q
      simp only [HashMap.get_eraseBinding, Book.drop, hr.bound]
      cases hq : b.bound q with
      | none => simp
      | some m =>
        by_cases hm : m = n
        · subst hm
          obtain ⟨k, hk, hkq⟩ := b.peer q m hq
          rw [h] at hk
          cases hk
          simp [hkq, Option.filter_some]
        · simp [hm, Option.filter_some]

theorem dropAll_frame (s : Assigner) (ids : List NodeId) : Frame s (s.dropAll ids).1 := by
  induction ids generalizing s with
  | nil => exact Frame.refl s
  | cons id ids ih => exact (dropLease_frame s id).trans (ih _)

theorem dropAll_refines (hr : Refines s b) {ids : List NodeId} (hnd : ids.Nodup) :
    Refines (s.dropAll ids).1 (b.drop fun m => m ∈ ids) ∧
      (s.dropAll ids).2 = ids.filterMap b.held := by
  induction ids generalizing s b with
  | nil => simpa [dropAll, Book.drop_nil] using hr
  | cons id ids ih =>
    obtain ⟨hid, hnd⟩ := List.nodup_cons.1 hnd
    obtain ⟨hr1, hl⟩ := dropLease_refines hr id
    obtain ⟨hr2, hls⟩ := ih hr1 hnd
    refine ⟨?_, ?_⟩
    · rw [Book.drop_drop] at hr2
      simpa [dropAll] using hr2
    · -- the rows still to be dropped are untouched by the first drop
      have hsame : ids.filterMap (b.drop fun m => m = id).held = ids.filterMap b.held := by
        apply List.filterMap_congr
        intro m hm
        have hne : m ≠ id := fun h => hid (h ▸ hm)
        simp [Book.drop, hne]
      simp only [dropAll, hls, hl, hsame, List.filterMap_cons]
      cases b.held id <;> rfl

/-- The ids that `reap_inner` collects are the nodes with an expired lease, each once. -/
theorem reapInner_ids (hr : Refines s b) (order : IterOrder NodeId Lease) (now : SystemTime) :
    ∃ ids, s.reapInner order now = s.dropAll ids ∧ ids.Nodup ∧
      ∀ n, n ∈ ids ↔ ∃ l, b.held n = some l ∧ isExpired l.lastSeen now s.ttl := by
  refine ⟨_, rfl, ?_, fun n => ?_⟩
  · exact ((List.filter_sublist).map Sigma.fst).nodup (order.nodup_keys s.byNode)
  · simp only [List.mem_map, List.mem_filter]
    constructor
    · rintro ⟨⟨m, l⟩, ⟨hm, he⟩, rfl⟩
      exact ⟨l, by rw [← hr.held]; exact order.mem_iter.1 hm, he⟩
    · rintro ⟨l, hl, he⟩
      exact ⟨⟨n, l⟩, ⟨order.mem_iter.2 (by rw [hr.held]; exact hl), he⟩, rfl⟩

theorem reapInner_frame (s : Assigner) (order : IterOrder NodeId Lease) (now : SystemTime) :
    Frame s (s.reapInner order now).1 :=
  dropAll_frame s _

theorem reapInner_refines (hr : Refines s b) (order : IterOrder NodeId Lease)
    (now : SystemTime) :
    Refines (s.reapInner order now).1 (b.expire s.ttl now) ∧
      b.Expired s.ttl now (s.reapInner order now).2 := by
  obtain ⟨ids, heq, hnd, hmem⟩ := reapInner_ids hr order now
  obtain ⟨hr1, hls⟩ := dropAll_refines hr hnd
  have hgone : (fun n => decide (n ∈ ids)) =
      fun n => (b.held n).any fun l => isExpired l.lastSeen now s.ttl := by
    funext n
    rw [Bool.eq_iff_iff, decide_eq_true_eq, hmem n]
    cases b.held n <;> simp
  rw [heq, hls]
  refine ⟨?_, ?_, fun l => ?_⟩
  · rw [Book.expire, ← hgone]
    exact hr1
  · -- a row names its node, so distinct ids give distinct rows
    refine hnd.filterMap ?_
    intro n m l hn hm
    rw [← b.own n l hn, ← b.own m l hm]
  · rw [List.mem_filterMap]
    constructor
    · rintro ⟨n, hn, hl⟩
      obtain ⟨k, hk, he⟩ := (hmem n).1 hn
      rw [hl] at hk
      cases hk
      exact ⟨n, hl, he⟩
    · rintro ⟨n, hl, he⟩
      exact ⟨n, (hmem n).2 ⟨l, hl, he⟩, hl⟩

theorem minByKey_eq_none {α : Type} {key : α → ℤ} {as : List α} :
    minByKey key as = none ↔ as = [] := by
  cases as with
  | nil => simp [minByKey]
  | cons x xs =>
    unfold minByKey
    cases minByKey key xs with
    | none => simp
    | some m =>
      dsimp only
      split_ifs <;> simp

/-- A minimum is an element with no key below its own. -/
theorem minByKey_some {α : Type} {key : α → ℤ} {as : List α} {b : α}
    (h : minByKey key as = some b) : b ∈ as ∧ ∀ a ∈ as, key b ≤ key a := by
  induction as generalizing b with
  | nil => cases h
  | cons x xs ih =>
    unfold minByKey at h
    cases hm : minByKey key xs with
    | none =>
      rw [hm] at h
      obtain rfl : x = b := by simpa using h
      simp [minByKey_eq_none.1 hm]
    | some m =>
      rw [hm] at h
      dsimp only at h
      obtain ⟨hmem, hmin⟩ := ih hm
      split_ifs at h with hle
      · obtain rfl : x = b := by simpa using h
        refine ⟨List.mem_cons_self .., fun a ha => ?_⟩
        rcases List.mem_cons.1 ha with rfl | ha
        · exact Int.le_refl _
        · have := hmin a ha
          omega
      · obtain rfl : m = b := by simpa using h
        refine ⟨List.mem_cons_of_mem x hmem, fun a ha => ?_⟩
        rcases List.mem_cons.1 ha with rfl | ha
        · omega
        · exact hmin a ha

theorem reclaimOldest_frame (s : Assigner) (order : IterOrder NodeId Lease) :
    Frame s (s.reclaimOldest order).1 := by
  unfold reclaimOldest
  split
  · exact Frame.refl s
  · exact dropLease_frame s _

/-- The victim is a row of least `last_seen`; there is none only in an empty table. -/
theorem reclaimOldest_refines (hr : Refines s b) (order : IterOrder NodeId Lease) :
    ((s.reclaimOldest order).2 = none ∧ ∀ n, b.held n = none) ∨
      ∃ v, (s.reclaimOldest order).2 = some v ∧ b.Oldest v ∧
        Refines (s.reclaimOldest order).1 (b.evict v) := by
  unfold reclaimOldest
  cases hmin : minByKey (fun e => e.2.lastSeen.nanos) (order.iter s.byNode) with
  | none =>
    refine Or.inl ⟨rfl, fun n => ?_⟩
    have hnil := minByKey_eq_none.1 hmin
    rw [← hr.held, Option.eq_none_iff_forall_ne_some]
    intro l hl
    have := order.mem_iter.2 hl
    rw [hnil] at this
    cases this
  | some e =>
    obtain ⟨n, v⟩ := e
    obtain ⟨hmem, hle⟩ := minByKey_some hmin
    have hv : b.held n = some v := by
      rw [← hr.held]
      exact order.mem_iter.1 hmem
    have hown := b.own n v hv
    obtain ⟨hr1, hl⟩ := dropLease_refines hr n
    refine Or.inr ⟨v, hl.trans hv, ⟨hown ▸ hv, fun m l hm => ?_⟩, ?_⟩
    · exact hle ⟨m, l⟩ (order.mem_iter.2 (by rw [hr.held]; exact hm))
    · rw [Book.evict, hown]
      exact hr1

theorem persist_frame (s : Assigner) (io : Io) (now : SystemTime) :
    Frame s (s.persist io now).1 := by
  unfold persist
  split
  · exact Frame.refl s
  · split_ifs
    · exact ⟨rfl, rfl⟩
    · exact Frame.refl s

theorem persist_refines (hr : Refines s b) (io : Io) (now : SystemTime) :
    Refines (s.persist io now).1 b := by
  unfold persist
  split
  · exact hr
  · split_ifs
    · exact ⟨hr.held, hr.bound, hr.ip4, hr.ip6⟩
    · exact hr

theorem persistIf_frame (s : Assigner) (c : Bool) (io : Io) (now : SystemTime) :
    Frame s (s.persistIf c io now).1 := by
  unfold persistIf
  split_ifs
  · exact persist_frame s io now
  · exact Frame.refl s

theorem persistIf_refines (hr : Refines s b) (c : Bool) (io : Io) (now : SystemTime) :
    Refines (s.persistIf c io now).1 b := by
  unfold persistIf
  split_ifs
  · exact persist_refines hr io now
  · exact hr

/-- A reply is made from settings that a call does not touch. -/
theorem okReply_grants (hf : Frame s s') (ip4 : Ipv4Addr) (ip6 : Option Ipv6Addr) :
    s.policy.Grants (s'.okReply ip4 ip6) ip4 ip6 := by
  rw [← hf.policy]
  exact ⟨rfl, rfl, rfl, rfl⟩

end Assigner

end ShadowVpn
