import ShadowVpn.Sanity.Server

/-! The rows of the name table under each operation: which rows it touches, and what it
leaves in them. -/

namespace ShadowVpn

open Lib

namespace NameTable

variable {t : NameTable} {peer p : SocketAddr} {row : NameRow}

@[simp] theorem withdraw_get (t : NameTable) (peer p : SocketAddr) :
    (t.withdraw peer).1.byPeer.get p = if p = peer then none else t.byPeer.get p := by
  unfold withdraw
  split
  · rename_i hnone
    split_ifs with hp
    · rw [hp, hnone]
    · rfl
  · exact HashMap.get_erase _ _ _

@[simp] theorem grant_get (t : NameTable) (peer p : SocketAddr) (requested : Text) (ip4 : Ipv4Addr)
    (ip6 : Option Ipv6Addr) (nodeId : Option NodeId) (now : Instant) :
    (t.grant peer requested ip4 ip6 nodeId now).1.byPeer.get p =
      if p = peer then
        some ⟨requested, (t.withdraw peer).1.uniqueName requested nodeId ip4, ip4, ip6, now⟩
      else t.byPeer.get p := by
  unfold grant
  dsimp only
  rw [HashMap.get_insert, withdraw_get]
  split_ifs <;> rfl

theorem advertise_get_ne (hp : p ≠ peer) (t : NameTable) (raw : Text) (ip4 : Ipv4Addr)
    (ip6 : Option Ipv6Addr) (nodeId : Option NodeId) (now : Instant) :
    (t.advertise peer raw ip4 ip6 nodeId now).1.byPeer.get p = t.byPeer.get p := by
  unfold advertise
  dsimp only
  split_ifs
  · simp [hp]
  · split
    · split_ifs
      · simp [hp]
      · simp [hp]
    · simp [hp]

/-- An advert without a name withdraws the row. -/
theorem advertise_nil (t : NameTable) (peer : SocketAddr) (ip4 : Ipv4Addr) (ip6 : Option Ipv6Addr)
    (nodeId : Option NodeId) (now : Instant) :
    t.advertise peer [] ip4 ip6 nodeId now = t.withdraw peer := rfl

/-- An advert with a name writes the addresses it was sent with, whatever the row was. -/
theorem advertise_get {raw : Text} (hraw : raw ≠ []) (t : NameTable) (peer : SocketAddr)
    (ip4 : Ipv4Addr) (ip6 : Option Ipv6Addr) (nodeId : Option NodeId) (now : Instant) :
    ∃ row, (t.advertise peer raw ip4 ip6 nodeId now).1.byPeer.get peer = some row ∧
      row.ip4 = ip4 ∧ row.ip6 = ip6 := by
  have hne : ¬ raw.isEmpty = true := by simpa using hraw
  unfold advertise
  rw [if_neg hne]
  dsimp only
  split
  · split_ifs
    · exact ⟨_, by rw [HashMap.get_insert, if_pos rfl], rfl, rfl⟩
    · exact ⟨_, by rw [grant_get, if_pos rfl], rfl, rfl⟩
  · exact ⟨_, by rw [grant_get, if_pos rfl], rfl, rfl⟩

@[simp] theorem expire_get (t : NameTable) (order : IterOrder SocketAddr NameRow) (ttl : Duration)
    (now : Instant) (p : SocketAddr) :
    (t.expire order ttl now).1.byPeer.get p = (t.byPeer.get p).filter fun row =>
      decide (Instant.saturatingDurationSince now row.lastSeen ≤ ttl) :=
  HashMap.get_retain _ _ _

/-- A snapshot holds the server and rows of the table. -/
theorem mem_snapshot {order : IterOrder SocketAddr NameRow} {entry : PeerEntry}
    (h : entry ∈ t.snapshot order) : t.server = some entry ∨
      ∃ p row, t.byPeer.get p = some row ∧ entry = ⟨row.granted, row.ip4, row.ip6⟩ := by
  rcases List.mem_append.1 h with hserver | hrow
  · exact Or.inl (Option.mem_toList.1 hserver)
  · obtain ⟨⟨p, row⟩, hmem, rfl⟩ := List.mem_map.1 hrow
    exact Or.inr ⟨p, row, order.mem_iter.1 (List.mem_of_mem_take hmem), rfl⟩

/-! Labels. -/

/-- Whoever is filed under a label has been granted it. -/
def Bound (t : NameTable) : Prop :=
  IsBinding t.byName.get t.byPeer.get fun row => some row.granted

/-- Rows left, and with each its label if it was filed under it. -/
structure Drops (t t' : NameTable) : Prop where
  server : t'.server = t.server
  rows : ∀ p row, t'.byPeer.get p = some row → t.byPeer.get p = some row
  names : ∀ n p, t'.byName.get n = some p ↔ t.byName.get n = some p ∧ (t'.byPeer.get p).isSome

theorem Bound.granted (h : t.Bound) {n : Text} (hn : t.byName.get n = some p) :
    ∃ row, t.byPeer.get p = some row ∧ row.granted = n := by
  obtain ⟨row, hrow, hkey⟩ := h n p hn
  exact ⟨row, hrow, Option.some.inj hkey⟩

theorem Bound.drops (h : t.Bound) {t' : NameTable} (hd : Drops t t') : t'.Bound := by
  intro n p hn
  obtain ⟨hold, hsome⟩ := (hd.names n p).1 hn
  obtain ⟨row', hrow'⟩ := Option.isSome_iff_exists.1 hsome
  obtain ⟨row, hrow, hg⟩ := h.granted hold
  cases hrow.symm.trans (hd.rows p row' hrow')
  exact ⟨_, hrow', congrArg some hg⟩

theorem Bound.withdraw (h : t.Bound) (peer : SocketAddr) : Drops t (t.withdraw peer).1 where
  server := by
    unfold NameTable.withdraw
    split <;> rfl
  rows := by
    intro p row hrow
    rw [withdraw_get] at hrow
    split_ifs at hrow
    exact hrow
  names := by
    intro n p
    rw [withdraw_get]
    unfold NameTable.withdraw
    split
    · rename_i hnone
      constructor
      · intro hn
        obtain ⟨row, hrow, -⟩ := h.granted hn
        have hp : p ≠ peer := by
          rintro rfl
          rw [hnone] at hrow
          cases hrow
        rw [if_neg hp, hrow]
        exact ⟨hn, rfl⟩
      · exact And.left
    · rename_i row hrow
      dsimp only
      rw [HashMap.get_eraseBinding_eq_some]
      constructor
      · rintro ⟨hn, hkept⟩
        obtain ⟨row', hrow', hg⟩ := h.granted hn
        have hp : p ≠ peer := by
          rintro rfl
          cases hrow.symm.trans hrow'
          exact hkept hg rfl
        rw [if_neg hp, hrow']
        exact ⟨hn, rfl⟩
      · rintro ⟨hn, hsome⟩
        refine ⟨hn, ?_⟩
        rintro - rfl
        simp at hsome

theorem Bound.expire (h : t.Bound) (order : IterOrder SocketAddr NameRow) (ttl : Duration)
    (now : Instant) : Drops t (t.expire order ttl now).1 where
  server := rfl
  rows := by
    intro p row hrow
    rw [expire_get] at hrow
    exact (Option.filter_eq_some_iff.1 hrow).1
  names := by
    intro n p
    rw [expire_get]
    unfold NameTable.expire
    dsimp only
    rw [HashMap.get_foldl_eraseBinding (fun e : Σ _ : SocketAddr, NameRow => e.2.granted) Sigma.fst]
    constructor
    · rintro ⟨hn, hkept⟩
      obtain ⟨row, hrow, hg⟩ := h.granted hn
      refine ⟨hn, ?_⟩
      by_contra hdead
      rw [hrow, Option.filter_some] at hdead
      split_ifs at hdead with hlive
      · exact hdead rfl
      · refine hkept ⟨p, row⟩ (List.mem_filter.2 ⟨order.mem_iter.2 hrow, ?_⟩) hg rfl
        simpa using hlive
    · rintro ⟨hn, hsome⟩
      refine ⟨hn, ?_⟩
      rintro ⟨q, row⟩ hmem - rfl
      obtain ⟨hit, hdead⟩ := List.mem_filter.1 hmem
      rw [order.mem_iter.1 hit, Option.filter_some] at hsome
      split_ifs at hsome with hlive
      · simp [hlive] at hdead
      · cases hsome

/-! The choice of a label. -/

/-- The label with the tag of the peer. -/
def tagged (wanted : Text) (nodeId : Option NodeId) (ip4 : Ipv4Addr) : Text :=
  fitLabel wanted ('-' :: collisionSuffix nodeId ip4)

/-- The labels that are tried, in order. -/
def candidates (wanted : Text) (nodeId : Option NodeId) (ip4 : Ipv4Addr) : List Text :=
  wanted :: tagged wanted nodeId ip4 :: (List.range' 2 254).map fun n =>
    fitLabel wanted ('-' :: collisionSuffix nodeId ip4 ++ '-' :: Nat.toDigits 10 n)

theorem uniqueName_eq (t : NameTable) (wanted : Text) (nodeId : Option NodeId) (ip4 : Ipv4Addr) :
    t.uniqueName wanted nodeId ip4 =
      ((candidates wanted nodeId ip4).find? fun c => !t.nameTaken c).getD
        (tagged wanted nodeId ip4) := by
  unfold uniqueName candidates
  rw [List.find?_cons, List.find?_cons]
  dsimp only
  split_ifs with h1 h2
  · rw [h1]
    rfl
  · rw [Bool.not_eq_true] at h1
    rw [h1, show (!t.nameTaken (tagged wanted nodeId ip4)) = true from h2]
    rfl
  · rw [Bool.not_eq_true] at h1 h2
    rw [h1, show (!t.nameTaken (tagged wanted nodeId ip4)) = false from h2]
    rfl

theorem tagged_mem_candidates (wanted : Text) (nodeId : Option NodeId) (ip4 : Ipv4Addr) :
    tagged wanted nodeId ip4 ∈ candidates wanted nodeId ip4 :=
  List.mem_cons_of_mem _ List.mem_cons_self

/-- The label chosen is a free one, if any that is tried is free. -/
theorem uniqueName_taken_iff (t : NameTable) (wanted : Text) (nodeId : Option NodeId)
    (ip4 : Ipv4Addr) : t.nameTaken (t.uniqueName wanted nodeId ip4) = true ↔
      ∀ c ∈ candidates wanted nodeId ip4, t.nameTaken c = true := by
  rw [uniqueName_eq]
  cases hfind : (candidates wanted nodeId ip4).find? fun c => !t.nameTaken c with
  | none =>
    have hall : ∀ c ∈ candidates wanted nodeId ip4, t.nameTaken c = true := by
      intro c hc
      simpa using List.find?_eq_none.1 hfind c hc
    exact iff_of_true (hall _ (tagged_mem_candidates _ _ _)) hall
  | some c =>
    have hfree : t.nameTaken c = false := by simpa using List.find?_some hfind
    refine iff_of_false (by simp [hfree]) ?_
    intro hall
    rw [hall c (List.mem_of_find?_eq_some hfind)] at hfree
    cases hfree

/-- The label that was asked for, while it is free. -/
theorem uniqueName_of_free {wanted : Text} (h : t.nameTaken wanted = false)
    (nodeId : Option NodeId) (ip4 : Ipv4Addr) : t.uniqueName wanted nodeId ip4 = wanted := by
  rw [uniqueName_eq, candidates, List.find?_cons, h]
  rfl

/-- A label that the server has, or the row of another peer. -/
def Taken (t : NameTable) (peer : SocketAddr) (n : Text) : Prop :=
  (∃ s, t.server = some s ∧ s.name = n) ∨
    ∃ q row, q ≠ peer ∧ t.byPeer.get q = some row ∧ row.granted = n

theorem nameTaken_iff (t : NameTable) (n : Text) :
    t.nameTaken n = true ↔ (∃ s, t.server = some s ∧ s.name = n) ∨ ∃ q, t.byName.get n = some q := by
  unfold nameTaken
  rw [Bool.or_eq_true, Option.isSome_iff_exists]
  cases t.server with
  | none => simp
  | some s => simp

/-- Once a peer's row is gone, a label is filed only if somebody else has it. -/
theorem Bound.taken_of_nameTaken (h : t.Bound) {n : Text}
    (hn : (t.withdraw peer).1.nameTaken n = true) : t.Taken peer n := by
  have hd := h.withdraw peer
  rw [nameTaken_iff, hd.server] at hn
  rcases hn with hserver | ⟨q, hq⟩
  · exact Or.inl hserver
  · obtain ⟨row, hrow, hg⟩ := (h.drops hd).granted hq
    rw [withdraw_get] at hrow
    split_ifs at hrow with hqp
    exact Or.inr ⟨q, row, hqp, hrow, hg⟩

/-! Calls. -/

/-- The effect of a call, one case for each of its outcomes. -/
inductive Steps (t : NameTable) : Event → NameTable → Prop
  | dropped {event : Event} {t' : NameTable} (hd : t.Bound → Drops t t')
      (hno : ∀ peer raw ip4 ip6 nodeId now, event = .advertise peer raw ip4 ip6 nodeId now → raw = []) :
      Steps t event t'
  | refreshed {peer : SocketAddr} {raw : Text} {ip4 : Ipv4Addr} {ip6 : Option Ipv6Addr}
      {nodeId : Option NodeId} {now : Instant} {row : NameRow} (hraw : raw ≠ [])
      (hrow : t.byPeer.get peer = some row) (hsame : row.requested = sanitizeHostname raw) :
      Steps t (.advertise peer raw ip4 ip6 nodeId now)
        { t with byPeer := t.byPeer.insert peer { row with ip4 := ip4, ip6 := ip6, lastSeen := now } }
  | granted {peer : SocketAddr} {raw : Text} {ip4 : Ipv4Addr} {ip6 : Option Ipv6Addr}
      {nodeId : Option NodeId} {now : Instant} (hraw : raw ≠ [])
      (hnew : ∀ row, t.byPeer.get peer = some row → row.requested ≠ sanitizeHostname raw) :
      Steps t (.advertise peer raw ip4 ip6 nodeId now)
        (t.grant peer (sanitizeHostname raw) ip4 ip6 nodeId now).1

theorem steps_advertise (t : NameTable) (peer : SocketAddr) (raw : Text) (ip4 : Ipv4Addr)
    (ip6 : Option Ipv6Addr) (nodeId : Option NodeId) (now : Instant) :
    Steps t (.advertise peer raw ip4 ip6 nodeId now)
      (t.advertise peer raw ip4 ip6 nodeId now).1 := by
  unfold advertise
  split_ifs with hempty
  · obtain rfl := List.isEmpty_iff.1 hempty
    refine .dropped (fun h => h.withdraw peer) ?_
    rintro _ _ _ _ _ _ heq
    cases heq
    rfl
  · have hraw : raw ≠ [] := by simpa using hempty
    dsimp only
    split
    · rename_i row hrow
      split_ifs with hsame
      · exact .refreshed hraw hrow hsame
      · refine .granted hraw ?_
        intro row' hrow'
        cases hrow.symm.trans hrow'
        exact hsame
    · rename_i hnone
      refine .granted hraw ?_
      intro row hrow
      rw [hnone] at hrow
      cases hrow

theorem steps_of_step {event : Event} {t' : NameTable} {out : Out}
    (h : step t event = .ok (t', out)) : Steps t event t' := by
  cases event with
  | advertise peer raw ip4 ip6 nodeId now =>
    cases h
    exact steps_advertise t peer raw ip4 ip6 nodeId now
  | withdraw peer =>
    cases h
    exact .dropped (fun h => h.withdraw peer) (by simp)
  | expire order ttl now =>
    cases h
    exact .dropped (fun h => h.expire order ttl now) (by simp)

end NameTable

/-- Dropping leases withdraws the rows of their last endpoints, whoever has these now. -/
theorem unlearnDropped_names (l : Learned) (names : NameTable) (dropped : List Lease)
    (now : Instant) (ttl : Duration) (p : SocketAddr) :
    (unlearnDropped l names dropped now ttl).2.byPeer.get p =
      if ∃ d ∈ dropped, d.lastPeer = some p then none else names.byPeer.get p := by
  have hfold : ∀ acc : Learned × NameTable,
      (dropped.foldl (unlearnLease now ttl) acc).2.byPeer.get p =
        if ∃ d ∈ dropped, d.lastPeer = some p then none else acc.2.byPeer.get p := by
    induction dropped with
    | nil => simp
    | cons d dropped ih =>
      intro acc
      rw [List.foldl_cons, ih]
      have hone : (unlearnLease now ttl acc d).2.byPeer.get p =
          if d.lastPeer = some p then none else acc.2.byPeer.get p := by
        unfold unlearnLease
        cases d.lastPeer with
        | none => simp
        | some q => simp [eq_comm]
      rw [hone]
      by_cases hd : d.lastPeer = some p
      · simp [hd]
      · simp [hd]
  exact hfold (l, names)

end ShadowVpn
