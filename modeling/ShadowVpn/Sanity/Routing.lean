import ShadowVpn.Spec.Server
import ShadowVpn.Sanity.Effects

/-! Learned routes next to the lease book. Every event either forgets routes or learns
one for an endpoint that may have it, so an address that is leased is only ever routed
to the endpoint that its lease was last heard from. -/

namespace ShadowVpn

open Lib

/-- The lease is for this address. -/
def Lease.Owns (l : Lease) (ip : IpAddr) : Prop :=
  ip = .v4 l.ip4 ∨ ∃ a, l.ip6 = some a ∧ ip = .v6 a

theorem nodeForIp_iff {s : Assigner} {b : Book} (hr : Refines s b) {ip : IpAddr} {n : NodeId} :
    s.nodeForIp ip = some n ↔ ∃ l, b.held n = some l ∧ l.Owns ip := by
  cases ip with
  | v4 a =>
    have h := hr.ip4 a n
    rw [hr.held] at h
    simpa [Assigner.nodeForIp, Assigner.nodeForIp4, Lease.Owns, eq_comm] using h
  | v6 a =>
    have h := hr.ip6 a n
    rw [hr.held] at h
    simpa [Assigner.nodeForIp, Assigner.nodeForIp6, Lease.Owns, eq_comm] using h

/-- An address belongs to one node. -/
theorem Book.owner_unique (b : Book) {n m : NodeId} {l k : Lease} {ip : IpAddr}
    (hl : b.held n = some l) (hk : b.held m = some k) (hol : l.Owns ip) (hok : k.Owns ip) :
    n = m := by
  rcases hol with rfl | ⟨a, ha, rfl⟩
  · rcases hok with h4 | ⟨a, -, h4⟩
    · exact b.ip4_inj n m l k hl hk (by simpa using h4)
    · cases h4
  · rcases hok with h6 | ⟨a', ha', h6⟩
    · cases h6
    · obtain rfl : a = a' := by simpa using h6
      exact b.ip6_inj n m l k a hl hk ha ha'

/-! The learned map. -/

namespace Learned

variable {l l' : Learned} {ip src : IpAddr} {peer : SocketAddr} {now : Instant} {ttl : Duration}

theorem learn_clients (l : Learned) (src : IpAddr) (peer : SocketAddr) (now : Instant)
    (ip : IpAddr) :
    (l.learn src peer now).clients.get ip =
      if ip = src then some ⟨peer, now⟩ else l.clients.get ip := by
  unfold learn
  cases h : l.clients.get src with
  | none => simp
  | some entry =>
    by_cases hp : entry.peer = peer
    · simp [hp]
    · simp [hp]

/-! Only adverts and the sweeper touch the subnet routes. -/

@[simp] theorem learn_subnets (l : Learned) (src : IpAddr) (peer : SocketAddr) (now : Instant) :
    (l.learn src peer now).subnets = l.subnets := by
  unfold learn
  split
  · split_ifs <;> rfl
  · rfl

@[simp] theorem expireClients_subnets (l : Learned) (ttl : Duration) (now : Instant) :
    (l.expireClients ttl now).subnets = l.subnets := rfl

@[simp] theorem unlearn_subnets (l : Learned) (ip : IpAddr) (lastPeer : Option SocketAddr)
    (now : Instant) (ttl : Duration) : (l.unlearn ip lastPeer now ttl).subnets = l.subnets := by
  unfold unlearn
  split
  · rfl
  · split_ifs <;> rfl

/-- Whatever `l'` routes, `l` routes the same way. -/
def Forgets (l l' : Learned) : Prop :=
  ∀ ip entry, l'.clients.get ip = some entry → l.clients.get ip = some entry

theorem Forgets.refl (l : Learned) : l.Forgets l := fun _ _ h => h

theorem Forgets.trans {a b c : Learned} (h : a.Forgets b) (h' : b.Forgets c) : a.Forgets c :=
  fun ip entry he => h ip entry (h' ip entry he)

theorem expireClients_forgets (l : Learned) (ttl : Duration) (now : Instant) :
    l.Forgets (l.expireClients ttl now) := by
  intro ip entry h
  rw [expireClients, HashMap.get_retain] at h
  exact (Option.filter_eq_some_iff.1 h).1

theorem unlearn_forgets (l : Learned) (ip : IpAddr) (lastPeer : Option SocketAddr)
    (now : Instant) (ttl : Duration) : l.Forgets (l.unlearn ip lastPeer now ttl) := by
  intro x entry h
  unfold unlearn at h
  cases hip : l.clients.get ip with
  | none =>
    rw [hip] at h
    exact h
  | some e =>
    rw [hip] at h
    dsimp only at h
    split_ifs at h with hc
    · rw [HashMap.get_erase] at h
      split_ifs at h
      exact h
    · exact h

theorem unlearn_get_ne {l : Learned} {ip x : IpAddr} (h : x ≠ ip)
    (lastPeer : Option SocketAddr) (now : Instant) (ttl : Duration) :
    (l.unlearn ip lastPeer now ttl).clients.get x = l.clients.get x := by
  unfold unlearn
  split
  · rfl
  · split_ifs
    · rw [HashMap.get_erase, if_neg h]
    · rfl

/-- What survives its own unlearning points elsewhere. -/
theorem unlearn_self {lastPeer : Option SocketAddr} {entry : ClientEntry}
    (h : (l.unlearn ip lastPeer now ttl).clients.get ip = some entry) :
    lastPeer ≠ some entry.peer := by
  unfold unlearn at h
  cases hip : l.clients.get ip with
  | none =>
    rw [hip] at h
    dsimp only at h
    rw [hip] at h
    cases h
  | some e =>
    rw [hip] at h
    dsimp only at h
    split_ifs at h with hc
    · simp at h
    · rw [hip] at h
      cases h
      exact fun hp => hc (Or.inl hp)

end Learned

section Dropped

variable {l : Learned} {names : NameTable} {now : Instant} {ttl : Duration}

theorem unlearnLease_forgets (acc : Learned × NameTable) (lease : Lease) :
    acc.1.Forgets (unlearnLease now ttl acc lease).1 := by
  have h4 := acc.1.unlearn_forgets (.v4 lease.ip4) lease.lastPeer now ttl
  unfold unlearnLease
  cases lease.ip6 with
  | none => exact h4
  | some a => exact h4.trans (Learned.unlearn_forgets _ _ _ _ _)

theorem unlearnLease_gone {acc : Learned × NameTable} {lease : Lease} {ip : IpAddr}
    {entry : ClientEntry} (ho : lease.Owns ip)
    (h : (unlearnLease now ttl acc lease).1.clients.get ip = some entry) :
    lease.lastPeer ≠ some entry.peer := by
  unfold unlearnLease at h
  rcases ho with rfl | ⟨a, ha, rfl⟩
  · cases h6 : lease.ip6 with
    | none =>
      rw [h6] at h
      exact Learned.unlearn_self h
    | some a =>
      rw [h6] at h
      exact Learned.unlearn_self (Learned.unlearn_forgets _ _ _ _ _ _ _ h)
  · rw [ha] at h
    exact Learned.unlearn_self h

theorem unlearnDropped_forgets (dropped : List Lease) (acc : Learned × NameTable) :
    acc.1.Forgets (dropped.foldl (unlearnLease now ttl) acc).1 := by
  induction dropped generalizing acc with
  | nil => exact Learned.Forgets.refl acc.1
  | cons lease dropped ih => exact (unlearnLease_forgets acc lease).trans (ih _)

/-- After the loop no dropped address is routed to its lease's endpoint. -/
theorem unlearnDropped_gone {dropped : List Lease} {acc : Learned × NameTable} {lease : Lease}
    (hmem : lease ∈ dropped) {ip : IpAddr} {entry : ClientEntry} (ho : lease.Owns ip)
    (h : (dropped.foldl (unlearnLease now ttl) acc).1.clients.get ip = some entry) :
    lease.lastPeer ≠ some entry.peer := by
  induction dropped generalizing acc with
  | nil => cases hmem
  | cons d dropped ih =>
    rcases List.mem_cons.1 hmem with rfl | hmem
    · exact unlearnLease_gone ho (unlearnDropped_forgets dropped _ ip entry h)
    · exact ih hmem h

end Dropped

/-- A route stays unless one of the leases has its address. -/
theorem unlearnDropped_get {dropped : List Lease} {ip : IpAddr} (h : ∀ d ∈ dropped, ¬ d.Owns ip)
    (l : Learned) (names : NameTable) (now : Instant) (ttl : Duration) :
    (unlearnDropped l names dropped now ttl).1.clients.get ip = l.clients.get ip := by
  refine foldl_frame (f := unlearnLease now ttl) (fun acc => acc.1.clients.get ip) ?_ (l, names)
  intro acc d hd
  have h4 : ip ≠ .v4 d.ip4 := fun heq => h d hd (Or.inl heq)
  unfold unlearnLease
  cases h6 : d.ip6 with
  | none => exact Learned.unlearn_get_ne h4 _ _ _
  | some a =>
    have hne : ip ≠ .v6 a := fun heq => h d hd (Or.inr ⟨a, h6, heq⟩)
    exact (Learned.unlearn_get_ne hne _ _ _).trans (Learned.unlearn_get_ne h4 _ _ _)

@[simp] theorem unlearnDropped_subnets (l : Learned) (names : NameTable) (dropped : List Lease)
    (now : Instant) (ttl : Duration) :
    (unlearnDropped l names dropped now ttl).1.subnets = l.subnets := by
  refine foldl_frame (f := unlearnLease now ttl) (fun acc => acc.1.subnets) ?_ (l, names)
  intro acc lease _
  unfold unlearnLease
  cases lease.ip6 with
  | none => simp
  | some a => simp

/-! Routes and leases. -/

/-- A leased address is routed to the endpoint its lease was last heard from, if at all. -/
def RoutedBy (b : Book) (l : Learned) : Prop :=
  ∀ n k ip entry, b.held n = some k → k.Owns ip → l.clients.get ip = some entry →
    k.lastPeer = some entry.peer

section Routed

variable {s : Assigner} {b b' : Book} {l l' : Learned}

theorem RoutedBy.forget (h : RoutedBy b l) (hf : l.Forgets l') : RoutedBy b l' :=
  fun n k ip entry hk ho he => h n k ip entry hk ho (hf ip entry he)

/-- `maybe_learn` lets an endpoint have a leased address only if it speaks for the holder. -/
theorem maybeLearn_routedBy (hr : Refines s b) (h : RoutedBy b l) (src : IpAddr)
    (peer : SocketAddr) (now : Instant) : RoutedBy b (maybeLearn l s src peer now) := by
  -- learning is harmless when every holder of `src` was last heard from `peer`
  have hlearn : (∀ n k, b.held n = some k → k.Owns src → k.lastPeer = some peer) →
      RoutedBy b (l.learn src peer now) := by
    intro hsrc n k ip entry hk ho he
    rw [Learned.learn_clients] at he
    split_ifs at he with hip
    · cases he
      exact hsrc n k hk (hip ▸ ho)
    · exact h n k ip entry hk ho he
  unfold maybeLearn
  cases hown : s.nodeForIp src with
  | none =>
    refine hlearn fun n k hk ho => ?_
    rw [(nodeForIp_iff hr).2 ⟨k, hk, ho⟩] at hown
    cases hown
  | some owner =>
    dsimp only
    split_ifs with hpeer
    · exact h
    · refine hlearn fun n k hk ho => ?_
      obtain rfl : n = owner := by
        have := (nodeForIp_iff hr).2 ⟨k, hk, ho⟩
        rw [hown] at this
        exact (Option.some.inj this).symm
      rw [Assigner.nodeForPeer, hr.bound] at hpeer
      obtain ⟨k', hk', hp⟩ := b.peer peer n (not_not.1 hpeer)
      rw [hk] at hk'
      cases hk'
      exact hp

theorem maybeLearnBoth_routedBy (hr : Refines s b) (h : RoutedBy b l) (ip4 : Ipv4Addr)
    (ip6 : Option Ipv6Addr) (peer : SocketAddr) (clock : ℕ → Instant) :
    RoutedBy b (maybeLearnBoth l s ip4 ip6 peer clock) := by
  have h4 := maybeLearn_routedBy hr h (.v4 ip4) peer (clock 0)
  unfold maybeLearnBoth
  cases ip6 with
  | none => exact h4
  | some a => exact maybeLearn_routedBy hr h4 (.v6 a) peer (clock 1)

end Routed

/-! Replies. -/

/-- The reply carries this address. -/
def Assign.Carries (reply : Assign) (ip : IpAddr) : Prop :=
  ip = .v4 reply.tunIp ∨ ∃ a, reply.tunIp6 = some a ∧ ip = .v6 a

/-- After an `Ok` reply its addresses are routed to the requester, and the rest stays. -/
theorem learnReply_get {l : Learned} {reply : Assign} {peer : SocketAddr} {clock : ℕ → Instant}
    {ip : IpAddr} {entry : ClientEntry}
    (h : (LearnState.learnReply l reply peer clock).clients.get ip = some entry) :
    (reply.status = .ok ∧ reply.Carries ip ∧ entry.peer = peer) ∨
      (¬ (reply.status = .ok ∧ reply.Carries ip) ∧ l.clients.get ip = some entry) := by
  unfold LearnState.learnReply at h
  split_ifs at h with hok
  swap
  · exact Or.inr ⟨fun hc => hok hc.1, h⟩
  have h4 : ∀ {e : ClientEntry}, (l.learn (.v4 reply.tunIp) peer (clock 0)).clients.get ip = some e →
      (ip = .v4 reply.tunIp ∧ e.peer = peer) ∨ (ip ≠ .v4 reply.tunIp ∧ l.clients.get ip = some e) := by
    intro e he
    rw [Learned.learn_clients] at he
    split_ifs at he with hip
    · cases he
      exact Or.inl ⟨hip, rfl⟩
    · exact Or.inr ⟨hip, he⟩
  cases h6 : reply.tunIp6 with
  | none =>
    rw [h6] at h
    rcases h4 h with ⟨hip, hp⟩ | ⟨hip, he⟩
    · exact Or.inl ⟨hok, Or.inl hip, hp⟩
    · refine Or.inr ⟨?_, he⟩
      rintro ⟨-, hip' | ⟨a, ha, -⟩⟩
      · exact hip hip'
      · rw [h6] at ha
        cases ha
  | some a =>
    rw [h6] at h
    dsimp only at h
    rw [Learned.learn_clients] at h
    split_ifs at h with hip6
    · cases h
      exact Or.inl ⟨hok, Or.inr ⟨a, h6, hip6⟩, rfl⟩
    · rcases h4 h with ⟨hip, hp⟩ | ⟨hip, he⟩
      · exact Or.inl ⟨hok, Or.inl hip, hp⟩
      · refine Or.inr ⟨?_, he⟩
        rintro ⟨-, hip' | ⟨a', ha', hip'⟩⟩
        · exact hip hip'
        · rw [h6] at ha'
          cases ha'
          exact hip6 hip'

/-- Stored IPv6 addresses are shown: the server has a prefix. -/
def Shown (p : Policy) (b : Book) : Prop :=
  ∀ n l, b.held n = some l → l.ip6.isSome → p.serverIp6.isSome

/-- A grant carries no address but those of its lease. -/
theorem Policy.Grants.owns_of_carries {p : Policy} {reply : Assign} {l : Lease}
    (hg : p.Grants reply l.ip4 l.ip6) {ip : IpAddr} (h : reply.Carries ip) : l.Owns ip := by
  rcases h with rfl | ⟨a, ha, rfl⟩
  · exact Or.inl (by rw [hg.tunIp])
  · refine Or.inr ⟨a, ?_, rfl⟩
    rw [hg.tunIp6] at ha
    unfold Policy.shown at ha
    split at ha
    · rename_i hl _
      rw [hl]
      exact ha
    · cases ha

/-- A grant carries exactly the addresses of its lease. -/
theorem Policy.Grants.carries_iff {p : Policy} {reply : Assign} {l : Lease}
    (hg : p.Grants reply l.ip4 l.ip6) (hs : l.ip6.isSome → p.serverIp6.isSome) {ip : IpAddr} :
    reply.Carries ip ↔ l.Owns ip := by
  have h6 : reply.tunIp6 = l.ip6 := by
    rw [hg.tunIp6]
    cases hl : l.ip6 with
    | none => rfl
    | some a =>
      obtain ⟨net, hnet⟩ := Option.isSome_iff_exists.1 (hs (by simp [hl]))
      simp [Policy.shown, hnet]
  rw [Assign.Carries, Lease.Owns, hg.tunIp, h6]

section Allocation

variable {p : Policy} {b b' : Book} {req : AssignReq} {peer : SocketAddr} {now : SystemTime}
  {reply : Assign} {gone : List Lease}

theorem Shown.allocates (hs : Shown p b) (h : b.Allocates p req peer now reply gone b') :
    Shown p b' := by
  intro n l hl h6
  rcases h.origin hl with ⟨k, hk, -, hk6⟩ | ⟨-, hd⟩
  · exact hs n k hk (hk6 ▸ h6)
  · -- a derived address comes from the prefix
    rw [hd, Policy.derive, Policy.embedNet] at h6
    cases hnet : p.serverIp6 with
    | none => simp [hnet] at h6
    | some net => rfl

/-- An allocation, with its reply learned, leaves leased addresses rightly routed. -/
theorem RoutedBy.allocates {l : Learned} (hr : RoutedBy b l) (hs : Shown p b)
    (h : b.Allocates p req peer now reply gone b') (clock : ℕ → Instant) :
    RoutedBy b' (LearnState.learnReply l reply peer clock) := by
  intro n k ip entry hk ho he
  have hs' := hs.allocates h
  rcases learnReply_get he with ⟨hok, hc, rfl⟩ | ⟨hno, he⟩
  · -- an address of the reply belongs to the requester's row
    obtain ⟨row, hrow, -, hpeer, hg⟩ := h.granted hok
    have hown := (hg.carries_iff (hs' _ _ hrow)).1 hc
    obtain rfl := b'.owner_unique hk hrow ho hown
    rw [hrow] at hk
    cases hk
    exact hpeer
  · by_cases hn : n = req.nodeId
    · subst hn
      by_cases hok : reply.status = .ok
      · obtain ⟨row, hrow, -, -, hg⟩ := h.granted hok
        rw [hrow] at hk
        cases hk
        exact absurd ⟨hok, (hg.carries_iff (hs' _ _ hrow)).2 ho⟩ hno
      · rw [(h.refused hok).1] at hk
        cases hk
    · exact hr n k ip entry (h.others hn hk).1 ho he

end Allocation

end ShadowVpn
