import ShadowVpn.Lib.Index
import ShadowVpn.Sanity.Pool
import ShadowVpn.Sanity.Rewrite

/-! The translator's state: what each call does to it, and the invariant that ties the
two maps of sessions to the leases of the pool. -/

namespace ShadowVpn

open Lib

namespace NatState

/-! What a call does. -/

/-- The state with the lease of `ip` dated `now`. -/
def refreshed (s : NatState) (ip : Ipv4Addr) (now : Instant) : NatState :=
  { s with pool := (s.pool.refresh ip now).1 }

/-- The effect of a call, one case for each of its outcomes. -/
inductive Steps (s : NatState) : Event → NatState → Out → Prop
  | invalid {peer : SocketAddr} {pkt : Bytes} {now : Instant} (h : ¬ WellFormed pkt) :
      Steps s (.ingress peer pkt now) s (.ingress .invalid pkt)
  | known {peer : SocketAddr} {pkt : Bytes} {now : Instant} {session : Session} (h : WellFormed pkt)
      (hs : s.byPeer.get peer = some session) :
      Steps s (.ingress peer pkt now) (s.refreshed session.internal now)
        (.ingress (.rewritten session.internal) (rewriteAddr pkt SRC_OFFSET session.internal))
  | fresh {peer : SocketAddr} {pkt : Bytes} {now : Instant} {src a : Ipv4Addr} {pool : LeasePool}
      (h : parseSrc pkt = some src) (hs : s.byPeer.get peer = none)
      (ha : s.pool.allocate now = (pool, some a)) :
      Steps s (.ingress peer pkt now)
        ⟨pool, s.byPeer.insert peer ⟨a, src⟩, s.byInternal.insert a peer⟩
        (.ingress (.rewritten a) (rewriteAddr pkt SRC_OFFSET a))
  | exhausted {peer : SocketAddr} {pkt : Bytes} {now : Instant} {pool : LeasePool}
      (h : WellFormed pkt) (hs : s.byPeer.get peer = none)
      (ha : s.pool.allocate now = (pool, none)) :
      Steps s (.ingress peer pkt now) { s with pool := pool } (.ingress .exhausted pkt)
  | touched {peer : SocketAddr} {now : Instant} {session : Session}
      (hs : s.byPeer.get peer = some session) :
      Steps s (.touch peer now) (s.refreshed session.internal now) .touch
  | untouched {peer : SocketAddr} {now : Instant} (hs : s.byPeer.get peer = none) :
      Steps s (.touch peer now) s .touch
  | delivered {pkt : Bytes} {now : Instant} {dst : Ipv4Addr} {peer : SocketAddr} {session : Session}
      (h : parseDst pkt = some dst) (hi : s.byInternal.get dst = some peer)
      (hs : s.byPeer.get peer = some session) :
      Steps s (.egress pkt now) (s.refreshed dst now)
        (.egress (some peer) (rewriteAddr pkt DST_OFFSET session.clientIp))
  | undelivered {pkt : Bytes} {now : Instant}
      (h : ∀ dst peer session, parseDst pkt = some dst →
        s.byInternal.get dst = some peer → s.byPeer.get peer ≠ some session) :
      Steps s (.egress pkt now) s (.egress none pkt)
  | reaped {order : IterOrder Ipv4Addr Instant} {now : Instant} :
      Steps s (.reap order now) (s.reap order now).1 (.reap (s.reap order now).2)

variable {s s' : NatState} {event : Event} {out : Out} {peer p q : SocketAddr} {pkt : Bytes}
  {now : Instant} {session : Session} {ip a i : Ipv4Addr}

theorem steps_of_step (h : step s event = .ok (s', out)) : Steps s event s' out := by
  cases event with
  | ingress peer pkt now =>
    simp only [step, ingress] at h
    split at h
    · rename_i hnone
      cases h
      exact .invalid (addrAt_eq_none.1 hnone)
    · rename_i src hsrc
      have hw := (addrAt_eq_some.1 hsrc).1
      split at h
      · cases h
        exact .known hw ‹_›
      · split at h
        · cases h
          exact .exhausted hw ‹_› ‹_›
        · cases h
          exact .fresh hsrc ‹_› ‹_›
  | touch peer now =>
    simp only [step, touch] at h
    split at h
    · cases h
      exact .touched ‹_›
    · cases h
      exact .untouched ‹_›
  | egress pkt now =>
    simp only [step, egress] at h
    split at h
    · rename_i hnone
      cases h
      refine .undelivered fun dst peer session hdst => ?_
      rw [hnone] at hdst
      cases hdst
    · rename_i dst hdst
      split at h
      · rename_i hnone
        cases h
        refine .undelivered fun dst' peer session hdst' hpeer => ?_
        rw [hdst] at hdst'
        cases hdst'
        rw [hnone] at hpeer
        cases hpeer
      · rename_i peer hpeer
        split at h
        · rename_i hnone
          cases h
          refine .undelivered fun dst' peer' session hdst' hpeer' => ?_
          rw [hdst] at hdst'
          cases hdst'
          rw [hpeer] at hpeer'
          cases hpeer'
          simp [hnone]
        · cases h
          exact .delivered hdst hpeer ‹_›
  | reap order now =>
    cases h
    exact .reaped

/-! The invariant. -/

/-- The maps of sessions are inverse to each other, and the pool has leased the internal
addresses in them. -/
structure Inv (s : NatState) : Prop where
  pool : s.pool.Valid
  index : IsIndex s.byInternal.get s.byPeer.get fun session => some session.internal
  leased : ∀ i, (s.pool.leases.get i).isSome = (s.byInternal.get i).isSome

theorem new_inv (serverIp netmask : Ipv4Addr) (ttl : Duration) : (new serverIp netmask ttl).Inv where
  pool := LeasePool.new_valid serverIp netmask ttl
  index := isIndex_empty
  leased := fun _ => rfl

theorem Inv.internal (h : s.Inv) (hs : s.byPeer.get p = some session) :
    s.byInternal.get session.internal = some p :=
  (h.index _ _).2 ⟨session, hs, rfl⟩

theorem refreshed_leases (s : NatState) (ip : Ipv4Addr) (now : Instant) (a : Ipv4Addr) :
    (s.refreshed ip now).pool.leases.get a =
      if a = ip then (s.pool.leases.get a).map fun _ => now else s.pool.leases.get a := by
  obtain ⟨m, heq, hm⟩ := s.pool.refresh_eq ip now
  rw [refreshed, heq, hm]

theorem Inv.refreshed (h : s.Inv) (ip : Ipv4Addr) (now : Instant) : (s.refreshed ip now).Inv := by
  have hsame : ∀ a, ((s.refreshed ip now).pool.leases.get a).isSome = (s.pool.leases.get a).isSome := by
    intro a
    rw [refreshed_leases]
    split_ifs
    · exact Option.isSome_map
    · rfl
  refine ⟨?_, h.index, fun i => (hsame i).trans (h.leased i)⟩
  obtain ⟨m, heq, hm⟩ := s.pool.refresh_eq ip now
  rw [NatState.refreshed, heq] at hsame ⊢
  exact h.pool.of_leases fun a ha => by rw [← hsame]; exact ha

/-- A session under an address that the pool has just leased. -/
theorem Inv.fresh (h : s.Inv) {pool : LeasePool} (hs : s.byPeer.get peer = none)
    (ha : s.pool.allocate now = (pool, some a)) (src : Ipv4Addr) :
    (⟨pool, s.byPeer.insert peer ⟨a, src⟩, s.byInternal.insert a peer⟩ : NatState).Inv := by
  obtain ⟨hassign, hfree, c, hc, rfl⟩ := LeasePool.allocate_eq_some h.pool ha
  refine ⟨h.pool.allocated hassign hc now, ?_, ?_⟩
  · refine h.index.insert (v := ⟨a, src⟩) hs ?_
    intro i hi
    cases hi
    have hleased := h.leased a
    rw [hfree] at hleased
    exact Option.isNone_iff_eq_none.1 (by simpa using hleased)
  · intro i
    rw [HashMap.get_insert, HashMap.get_insert]
    split_ifs
    · rfl
    · exact h.leased i

/-! Reaping. -/

theorem dropSession_spec
    (h : IsIndex s.byInternal.get s.byPeer.get fun session => some session.internal)
    (ip : Ipv4Addr) :
    (s.dropSession ip).pool = s.pool ∧
    IsIndex (s.dropSession ip).byInternal.get (s.dropSession ip).byPeer.get
      (fun session => some session.internal) ∧
    (∀ i, (s.dropSession ip).byInternal.get i = if i = ip then none else s.byInternal.get i) ∧
    ∀ q session, (s.dropSession ip).byPeer.get q = some session ↔
      s.byPeer.get q = some session ∧ session.internal ≠ ip := by
  unfold dropSession
  split
  · rename_i peer hpeer
    obtain ⟨v, hv, hkey⟩ := (h ip peer).1 hpeer
    cases hkey
    refine ⟨rfl, h.erase hv, fun i => HashMap.get_erase _ _ _, ?_⟩
    intro q session
    dsimp only
    rw [HashMap.get_erase]
    split_ifs with hq
    · rw [hq, hv]
      refine iff_of_false (by simp) ?_
      rintro ⟨hsome, hne⟩
      cases hsome
      exact hne rfl
    · rw [iff_self_and]
      intro hs heq
      exact hq (h.unique hs hv rfl (congrArg some heq.symm))
  · rename_i hnone
    refine ⟨rfl, h, ?_, ?_⟩
    · intro i
      split_ifs with hi
      · rw [hi, hnone]
      · rfl
    · intro q session
      rw [iff_self_and]
      intro hs heq
      have hidx := (h session.internal q).2 ⟨session, hs, rfl⟩
      rw [heq, hnone] at hidx
      cases hidx

theorem foldl_dropSession (l : List Ipv4Addr)
    (h : IsIndex s.byInternal.get s.byPeer.get fun session => some session.internal) :
    (l.foldl dropSession s).pool = s.pool ∧
    IsIndex (l.foldl dropSession s).byInternal.get (l.foldl dropSession s).byPeer.get
      (fun session => some session.internal) ∧
    (∀ i, (l.foldl dropSession s).byInternal.get i = if i ∈ l then none else s.byInternal.get i) ∧
    ∀ q session, (l.foldl dropSession s).byPeer.get q = some session ↔
      s.byPeer.get q = some session ∧ session.internal ∉ l := by
  induction l generalizing s with
  | nil => exact ⟨rfl, h, fun i => by simp, fun q session => by simp⟩
  | cons ip l ih =>
    obtain ⟨hpool, hidx, hint, hsess⟩ := dropSession_spec h ip
    obtain ⟨hpool', hidx', hint', hsess'⟩ := ih hidx
    refine ⟨hpool'.trans hpool, hidx', ?_, ?_⟩
    · intro i
      rw [List.foldl_cons, hint', hint]
      by_cases hi : i = ip
      · simp [hi]
      · simp [hi]
    · intro q session
      rw [List.foldl_cons, hsess', hsess, List.mem_cons, not_or, and_assoc]

/-- A reap ends the sessions whose leases it takes away, and no others. -/
theorem reap_spec (h : s.Inv) (order : IterOrder Ipv4Addr Instant) (now : Instant) :
    (s.reap order now).1.Inv ∧
    (∀ i, (s.reap order now).1.pool.leases.get i =
      if i ∈ (s.pool.reap order now).2 then none else s.pool.leases.get i) ∧
    ∀ q session, (s.reap order now).1.byPeer.get q = some session ↔
      s.byPeer.get q = some session ∧ session.internal ∉ (s.pool.reap order now).2 := by
  obtain ⟨m, hpool, hm⟩ := s.pool.reap_eq order now
  obtain ⟨hp, hidx, hint, hsess⟩ := foldl_dropSession (s.pool.reap order now).2
    (show IsIndex ({ s with pool := (s.pool.reap order now).1 } : NatState).byInternal.get _ _ from h.index)
  have hleases : ∀ i, (s.reap order now).1.pool.leases.get i =
      if i ∈ (s.pool.reap order now).2 then none else s.pool.leases.get i := by
    intro i
    rw [reap, hp, hpool]
    exact hm i
  refine ⟨⟨?_, hidx, ?_⟩, hleases, hsess⟩
  · rw [reap, hp, hpool]
    refine h.pool.of_leases fun a ha => ?_
    rw [hm] at ha
    split_ifs at ha
    · cases ha
    · exact ha
  · intro i
    rw [hleases, reap, hint]
    split_ifs
    · rfl
    · exact h.leased i

/-! Runs. -/

theorem Inv.step (h : s.Inv) (hs : step s event = .ok (s', out)) : s'.Inv := by
  cases steps_of_step hs with
  | invalid _ => exact h
  | known _ _ => exact h.refreshed _ _
  | fresh _ hnone ha => exact h.fresh hnone ha _
  | exhausted _ _ ha =>
    obtain ⟨rfl, -⟩ := LeasePool.allocate_eq_none h.pool ha
    exact h
  | touched _ => exact h.refreshed _ _
  | untouched _ => exact h
  | delivered _ _ _ => exact h.refreshed _ _
  | undelivered _ => exact h
  | reaped => exact (reap_spec h _ _).1

theorem refreshed_limits (s : NatState) (ip : Ipv4Addr) (now : Instant) :
    (s.refreshed ip now).pool.limits = s.pool.limits := by
  obtain ⟨m, heq, -⟩ := s.pool.refresh_eq ip now
  rw [refreshed, heq]
  rfl

theorem step_limits (h : s.Inv) (hs : NatState.step s event = .ok (s', out)) :
    s'.pool.limits = s.pool.limits := by
  cases steps_of_step hs with
  | invalid _ => rfl
  | known _ _ => exact refreshed_limits _ _ _
  | fresh _ _ ha =>
    obtain ⟨-, -, c, -, rfl⟩ := LeasePool.allocate_eq_some h.pool ha
    rfl
  | exhausted _ _ ha =>
    obtain ⟨rfl, -⟩ := LeasePool.allocate_eq_none h.pool ha
    rfl
  | touched _ => exact refreshed_limits _ _ _
  | untouched _ => rfl
  | delivered _ _ _ => exact refreshed_limits _ _ _
  | undelivered _ => rfl
  | @reaped order now =>
    obtain ⟨m, hpool, -⟩ := s.pool.reap_eq order now
    have hp := (foldl_dropSession (s.pool.reap order now).2 (show IsIndex
      ({ s with pool := (s.pool.reap order now).1 } : NatState).byInternal.get _ _ from h.index)).1
    rw [reap, hp, hpool]
    rfl

theorem run_inv {serverIp netmask : Ipv4Addr} {ttl : Duration} {es : List (Entry NatState Event Out)}
    (h : Run NatState.step (new serverIp netmask ttl) es s) :
    s.Inv ∧ s.pool.limits = (LeasePool.new serverIp netmask ttl).limits := by
  apply h.invariant (I := fun s => s.Inv ∧ s.pool.limits = (LeasePool.new serverIp netmask ttl).limits)
  · rintro s event out s' ⟨hi, hl⟩ hs
    exact ⟨hi.step hs, (step_limits hi hs).trans hl⟩
  · exact ⟨new_inv _ _ _, rfl⟩

end NatState

end ShadowVpn
