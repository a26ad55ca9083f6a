import ShadowVpn.Proofs.Leases
import ShadowVpn.Proofs.Rewrite
import ShadowVpn.Sanity.Nat

/-! Address translation over whole runs: sessions and leases correspond, a session goes
both ways for as long as it is kept up, and a call that fails changes nothing. -/

namespace ShadowVpn

open Lib

def Sample.answer : Bytes :=
  [0x45, 0x00, 0x00, 0x14, 0x00, 0x00, 0x00, 0x00, 0x40, 0x01, 0x60, 0xCF, 0x08, 0x08, 0x08, 0x08,
    0x0A, 0x09, 0x00, 0x02]

namespace NatState

variable {serverIp netmask : Ipv4Addr} {ttl : Duration} {es fs : List (Entry NatState Event Out)}
  {s s' : NatState} {event : Event} {out : Out} {p q : SocketAddr} {pkt : Bytes} {now t : Instant}
  {i src : Ipv4Addr}

/-! Sessions and leases. -/

/-- After any run the two maps are inverse to each other, their internal addresses are the
leased ones, each of them a host of the subnet other than the server. So no two peers share
one, and what egress returns is a peer with a session. -/
theorem sessions_match_leases (h : Run step (new serverIp netmask ttl) es s) :
    (∀ p i, (∃ session, s.byPeer.get p = some session ∧ session.internal = i) ↔
      s.byInternal.get i = some p) ∧
    (∀ i, (s.pool.leases.get i).isSome ↔
      ∃ p session, s.byPeer.get p = some session ∧ session.internal = i) ∧
    (∀ p session, s.byPeer.get p = some session →
      (hostRange serverIp netmask).1 ≤ session.internal ∧
        session.internal ≤ (hostRange serverIp netmask).2 ∧ session.internal ≠ serverIp) ∧
    (∀ p q sp sq, s.byPeer.get p = some sp → s.byPeer.get q = some sq →
      sp.internal = sq.internal → p = q) ∧
    ∀ pkt now p, (s.egress pkt now).2.2 = some p → (s.byPeer.get p).isSome := by
  obtain ⟨hi, hl⟩ := run_inv h
  have hidx : ∀ p i, (∃ session, s.byPeer.get p = some session ∧ session.internal = i) ↔
      s.byInternal.get i = some p := by
    intro p i
    rw [hi.index i p]
    simp only [Option.some.injEq]
  have hleased : ∀ i, (s.pool.leases.get i).isSome ↔
      ∃ p session, s.byPeer.get p = some session ∧ session.internal = i := by
    intro i
    rw [hi.leased i, Option.isSome_iff_exists]
    exact exists_congr fun p => (hidx p i).symm
  refine ⟨hidx, hleased, ?_, ?_, ?_⟩
  · intro p session hs
    have ha := hi.pool.leased _ ((hleased session.internal).2 ⟨p, session, hs, rfl⟩)
    simp only [LeasePool.limits, Prod.mk.injEq] at hl
    rw [LeasePool.Assignable, hl.1, hl.2.1, hl.2.2.1] at ha
    exact ha
  · intro p q sp sq hp hq heq
    exact hi.index.unique hp hq rfl (congrArg some heq.symm)
  · intro pkt now p hp
    generalize hr : s.egress pkt now = r at hp
    obtain ⟨s', pkt', peer⟩ := r
    dsimp only at hp
    subst hp
    have hs : step s (.egress pkt now) = .ok (s', .egress (some p) pkt') := by rw [step, hr]
    cases steps_of_step hs with
    | delivered _ _ hsess =>
      rw [hsess]
      rfl

theorem sessions_match_leases_two : ∃ es s,
    Run step (new (Sample.addr 1) 0xFFFFFF00 8000000000) es s ∧
    s.byPeer.get (Sample.endpoint 1) = some ⟨Sample.addr 2, Sample.addr 2⟩ ∧
    s.byPeer.get (Sample.endpoint 2) = some ⟨Sample.addr 3, Sample.addr 2⟩ ∧
    s.byInternal.get (Sample.addr 3) = some (Sample.endpoint 2) := by
  have hrun : ∃ es s,
      exec step (new (Sample.addr 1) 0xFFFFFF00 8000000000)
        [.ingress (Sample.endpoint 1) Sample.datagram 1,
          .ingress (Sample.endpoint 2) Sample.datagram 2] = .ok (es, s) ∧
      s.byPeer.get (Sample.endpoint 1) = some ⟨Sample.addr 2, Sample.addr 2⟩ ∧
      s.byPeer.get (Sample.endpoint 2) = some ⟨Sample.addr 3, Sample.addr 2⟩ :=
    ⟨_, _, rfl, by decide +kernel, by decide +kernel⟩
  obtain ⟨es, s, hexec, h1, h2⟩ := hrun
  exact ⟨es, s, exec_run hexec, h1, h2,
    ((sessions_match_leases (exec_run hexec)).1 _ _).1 ⟨_, h2, rfl⟩⟩

/-! Sessions over time. -/

/-- When a call refreshes the session of `p` with internal address `i`. -/
def refreshTime (p : SocketAddr) (i : Ipv4Addr) (e : Entry NatState Event Out) : Option Instant :=
  match e.input, e.out with
  | .ingress q _ now, .ingress (.rewritten _) _ => if q = p then some now else none
  | .touch q now, _ => if q = p then some now else none
  | .egress pkt now, _ => if parseDst pkt = some i then some now else none
  | _, _ => none

/-- The time of the latest refresh in a history that begins with one at `t`. -/
def lastRefresh (p : SocketAddr) (i : Ipv4Addr) (t : Instant) (es : List (Entry NatState Event Out)) :
    Instant :=
  es.foldl (fun t e => (refreshTime p i e).getD t) t

/-- `p` has the session, last refreshed at `t`. -/
structure Holds (s : NatState) (p : SocketAddr) (i src : Ipv4Addr) (t : Instant) : Prop where
  session : s.byPeer.get p = some ⟨i, src⟩
  seen : s.pool.leases.get i = some t

theorem Holds.refreshed_ne (h : s.Holds p i src t) {ip : Ipv4Addr} (hip : ip ≠ i) (now : Instant) :
    (s.refreshed ip now).Holds p i src t :=
  ⟨h.session, by rw [refreshed_leases, if_neg hip.symm]; exact h.seen⟩

theorem Holds.refreshed (h : s.Holds p i src t) (now : Instant) :
    (s.refreshed i now).Holds p i src now :=
  ⟨h.session, by rw [refreshed_leases, if_pos rfl, h.seen]; rfl⟩

theorem Holds.internal_ne (h : s.Holds p i src t) (hi : s.Inv) {session : Session}
    (hs : s.byPeer.get q = some session) (hq : q ≠ p) : session.internal ≠ i := by
  intro heq
  exact hq (hi.index.unique hs h.session rfl (congrArg some heq.symm))

theorem Holds.refreshed_by (h : s.Holds p i src t) (hi : s.Inv) {session : Session}
    (hs : s.byPeer.get q = some session) (now : Instant) :
    (s.refreshed session.internal now).Holds p i src (if q = p then now else t) := by
  split_ifs with hqp
  · subst hqp
    cases hs.symm.trans h.session
    exact h.refreshed now
  · exact h.refreshed_ne (h.internal_ne hi hs hqp) now

theorem Holds.step (h : s.Holds p i src t) (hi : s.Inv) (hs : step s event = .ok (s', out))
    (hlive : ∀ order now, event = .reap order now →
      Instant.saturatingDurationSince now t ≤ s.pool.ttl) :
    s'.Holds p i src ((refreshTime p i ⟨s, event, out, s'⟩).getD t) := by
  cases steps_of_step hs with
  | invalid _ => exact h
  | @known q _ now session _ hq =>
    simpa only [refreshTime, apply_ite (fun o => Option.getD o t), Option.getD_some, Option.getD_none]
      using h.refreshed_by hi hq now
  | @fresh q _ now src' a pool _ hnone ha =>
    have hqp : q ≠ p := by
      rintro rfl
      rw [h.session] at hnone
      cases hnone
    obtain ⟨-, hfree, c, -, rfl⟩ := LeasePool.allocate_eq_some hi.pool ha
    have hai : i ≠ a := by
      rintro rfl
      rw [h.seen] at hfree
      cases hfree
    simp only [refreshTime, if_neg hqp, Option.getD_none]
    exact ⟨by rw [HashMap.get_insert, if_neg hqp.symm]; exact h.session,
      by rw [HashMap.get_insert, if_neg hai]; exact h.seen⟩
  | exhausted _ _ ha =>
    obtain ⟨rfl, -⟩ := LeasePool.allocate_eq_none hi.pool ha
    exact h
  | @touched q now session hq =>
    simpa only [refreshTime, apply_ite (fun o => Option.getD o t), Option.getD_some, Option.getD_none]
      using h.refreshed_by hi hq now
  | @untouched q now hnone =>
    have hqp : q ≠ p := by
      rintro rfl
      rw [h.session] at hnone
      cases hnone
    simpa [refreshTime, hqp] using h
  | @delivered pkt now dst _ _ hdst _ _ =>
    by_cases hdi : dst = i
    · subst hdi
      simpa [refreshTime, hdst] using h.refreshed now
    · simpa [refreshTime, hdst, hdi] using h.refreshed_ne hdi now
  | @undelivered pkt now hno =>
    have hdst : parseDst pkt ≠ some i := by
      intro hdst
      exact hno i p _ hdst (hi.internal h.session) h.session
    simpa [refreshTime, hdst] using h
  | @reaped order now =>
    obtain ⟨-, hleases, hsess⟩ := reap_spec hi order now
    have hkept : i ∉ (s.pool.reap order now).2 := by
      rw [LeasePool.mem_reap]
      rintro ⟨seen, hseen, hover⟩
      cases hseen.symm.trans h.seen
      exact absurd hover (Nat.not_lt.2 (hlive order now rfl))
    exact ⟨(hsess p _).2 ⟨h.session, hkept⟩, by rw [hleases, if_neg hkept]; exact h.seen⟩

theorem lastRefresh_append (p : SocketAddr) (i : Ipv4Addr) (t : Instant)
    (es : List (Entry NatState Event Out)) (e : Entry NatState Event Out) :
    lastRefresh p i t (es ++ [e]) = (refreshTime p i e).getD (lastRefresh p i t es) := by
  simp [lastRefresh]

/-- No reap in `fs` came more than `ttl` after the latest refresh before it. -/
def KeptUp (p : SocketAddr) (i : Ipv4Addr) (ttl : Duration) (t : Instant)
    (fs : List (Entry NatState Event Out)) : Prop :=
  ∀ before e after order now, fs = before ++ e :: after → e.input = .reap order now →
    Instant.saturatingDurationSince now (lastRefresh p i t before) ≤ ttl

theorem keptUp_append {e : Entry NatState Event Out} :
    KeptUp p i ttl t (fs ++ [e]) ↔ KeptUp p i ttl t fs ∧ ∀ order now, e.input = .reap order now →
      Instant.saturatingDurationSince now (lastRefresh p i t fs) ≤ ttl := by
  constructor
  · intro h
    refine ⟨?_, fun order now hin => h fs e [] order now rfl hin⟩
    rintro before g after order now rfl hin
    exact h before g (after ++ [e]) order now (by simp) hin
  · rintro ⟨h, hlast⟩ before g after order now heq hin
    rcases List.eq_nil_or_concat after with rfl | ⟨init, f, rfl⟩
    · obtain ⟨rfl, hge⟩ := List.append_inj' heq rfl
      cases hge
      exact hlast order now hin
    · rw [List.concat_eq_append, ← List.cons_append, ← List.append_assoc] at heq
      obtain ⟨rfl, -⟩ := List.append_inj' heq rfl
      exact h before g init order now rfl hin

theorem Holds.run (h : s.Holds p i src t) (hi : s.Inv) (hr : Run NatState.step s fs s')
    (hlive : KeptUp p i s.pool.ttl t fs) :
    s'.Inv ∧ s'.pool.ttl = s.pool.ttl ∧ s'.Holds p i src (lastRefresh p i t fs) := by
  induction hr with
  | nil => exact ⟨hi, rfl, h⟩
  | @snoc gs m m' event out _ hs ih =>
    obtain ⟨hbefore, hlast⟩ := keptUp_append.1 hlive
    obtain ⟨him, httl, hm⟩ := ih hbefore
    have hlim := step_limits him hs
    simp only [LeasePool.limits, Prod.mk.injEq] at hlim
    refine ⟨him.step hs, hlim.2.2.2.trans httl, ?_⟩
    rw [lastRefresh_append]
    refine hm.step him hs ?_
    intro order now hin
    rw [httl]
    exact hlast order now hin

theorem holds_of_created (hi : s.Inv) {pkt' : Bytes} (hnew : s.byPeer.get p = none)
    (hsrc : parseSrc pkt = some src)
    (hs : NatState.step s (.ingress p pkt now) = .ok (s', .ingress (.rewritten i) pkt')) :
    s'.Holds p i src now := by
  cases steps_of_step hs with
  | known _ hold =>
    rw [hnew] at hold
    cases hold
  | fresh hsrc' _ ha =>
    cases hsrc.symm.trans hsrc'
    obtain ⟨-, -, c, -, rfl⟩ := LeasePool.allocate_eq_some hi.pool ha
    exact ⟨by rw [HashMap.get_insert, if_pos rfl], by rw [HashMap.get_insert, if_pos rfl]⟩

/-- From the ingress that creates a session on, and until a reap more than `ttl` after the
latest refresh, packets from the peer leave from its internal address, packets to this
address go back to the peer under its own, and no other peer gets the address. -/
theorem session_round_trip {e : Entry NatState Event Out} {pkt' : Bytes}
    (h : Run NatState.step (new serverIp netmask ttl) (es ++ e :: fs) s)
    (hin : e.input = .ingress p pkt now) (hsrc : parseSrc pkt = some src)
    (hnew : e.pre.byPeer.get p = none) (hout : e.out = .ingress (.rewritten i) pkt')
    (hlive : KeptUp p i ttl now fs) (hs : NatState.step s event = .ok (s', out)) :
    (∀ pkt t, event = .ingress p pkt t → WellFormed pkt →
      out = .ingress (.rewritten i) (rewriteAddr pkt SRC_OFFSET i) ∧
        parseSrc (rewriteAddr pkt SRC_OFFSET i) = some i) ∧
    (∀ pkt t, event = .egress pkt t → parseDst pkt = some i →
      out = .egress (some p) (rewriteAddr pkt DST_OFFSET src) ∧
        parseDst (rewriteAddr pkt DST_OFFSET src) = some src) ∧
    ∀ q pkt t pkt', event = .ingress q pkt t → out = .ingress (.rewritten i) pkt' → q = p := by
  obtain ⟨m, hes, hrest⟩ := h.split
  obtain ⟨hpre, hcreate, hfs⟩ := hrest.cons_inv
  obtain ⟨him, hlim⟩ := run_inv hes
  rw [hin, hout] at hcreate
  rw [hpre] at hnew
  have hlim' := (step_limits him hcreate).trans hlim
  simp only [LeasePool.limits, Prod.mk.injEq] at hlim'
  have httl : e.post.pool.ttl = ttl := hlim'.2.2.2
  obtain ⟨hi, -, hold⟩ := (holds_of_created him hnew hsrc hcreate).run (him.step hcreate) hfs
    (httl ▸ hlive)
  refine ⟨?_, ?_, ?_⟩
  · rintro pkt t rfl hw
    refine ⟨?_, addrAt_rewriteAddr hw (Or.inl rfl) i⟩
    cases steps_of_step hs with
    | invalid hbad => exact absurd hw hbad
    | known _ hsess =>
      cases hsess.symm.trans hold.session
      rfl
    | fresh _ hnone _ => cases hnone.symm.trans hold.session
    | exhausted _ hnone _ => cases hnone.symm.trans hold.session
  · rintro pkt t rfl hdst
    refine ⟨?_, addrAt_rewriteAddr (addrAt_eq_some.1 hdst).1 (Or.inr rfl) src⟩
    have hidx := hi.internal hold.session
    cases steps_of_step hs with
    | delivered hdst' hpeer hsess =>
      cases hdst.symm.trans hdst'
      cases hpeer.symm.trans hidx
      cases hsess.symm.trans hold.session
      rfl
    | undelivered hno => exact absurd hold.session (hno i p _ hdst hidx)
  · rintro q pkt t pkt' rfl rfl
    by_contra hqp
    cases steps_of_step hs with
    | known _ hsess => exact hold.internal_ne hi hsess hqp rfl
    | fresh _ _ ha =>
      obtain ⟨-, hfree, -⟩ := LeasePool.allocate_eq_some hi.pool ha
      cases hfree.symm.trans hold.seen

theorem session_round_trip_two : ∃ es s s' out,
    Run NatState.step (new (Sample.addr 1) 0xFFFFFF00 8000000000) es s ∧
    NatState.step s (.egress Sample.answer 9000000000) = .ok (s', out) ∧
    out = .egress (some (Sample.endpoint 1)) (rewriteAddr Sample.answer DST_OFFSET (Sample.addr 2)) := by
  have hrun : ∃ e f g s s' out pkt',
      exec NatState.step (new (Sample.addr 1) 0xFFFFFF00 8000000000)
        [.ingress (Sample.endpoint 1) Sample.datagram 1000000000,
          .ingress (Sample.endpoint 2) Sample.datagram 2000000000,
          .reap .stored 9000000000] = .ok ([e, f, g], s) ∧
      NatState.step s (.egress Sample.answer 9000000000) = .ok (s', out) ∧
      e.input = .ingress (Sample.endpoint 1) Sample.datagram 1000000000 ∧
      e.pre.byPeer.get (Sample.endpoint 1) = none ∧
      e.out = .ingress (.rewritten (Sample.addr 2)) pkt' ∧
      f.input = .ingress (Sample.endpoint 2) Sample.datagram 2000000000 ∧
      g.input = .reap .stored 9000000000 ∧
      Instant.saturatingDurationSince 9000000000
        (lastRefresh (Sample.endpoint 1) (Sample.addr 2) 1000000000 [f]) ≤ 8000000000 :=
    ⟨_, _, _, _, _, _, _, rfl, rfl, rfl, rfl, rfl, rfl, rfl, by decide +kernel⟩
  obtain ⟨e, f, g, s, s', out, pkt', hexec, hs, hin, hnew, hout, hf, hg, hlive⟩ := hrun
  have hsrc : parseSrc Sample.datagram = some (Sample.addr 2) := by decide
  have hdst : parseDst Sample.answer = some (Sample.addr 2) := by decide
  have hkept : KeptUp (Sample.endpoint 1) (Sample.addr 2) 8000000000 1000000000 ([] ++ [f] ++ [g]) := by
    refine keptUp_append.2 ⟨keptUp_append.2 ⟨by simp [KeptUp], ?_⟩, ?_⟩
    · intro order now hreap
      rw [hf] at hreap
      cases hreap
    · intro order now hreap
      rw [hg] at hreap
      cases hreap
      exact hlive
  have hrun : Run NatState.step (new (Sample.addr 1) 0xFFFFFF00 8000000000) ([] ++ e :: [f, g]) s :=
    exec_run hexec
  have htrip := session_round_trip hrun hin hsrc hnew hout hkept hs
  exact ⟨_, s, s', out, exec_run hexec, hs, (htrip.2.1 _ _ rfl hdst).1⟩

/-! Failures. -/

/-- An ingress that fails, or an egress that finds nobody, changes neither the packet nor
the state. An ingress runs out of addresses exactly if the packet is well formed, the peer
is new and every one of the pool's addresses is leased. -/
theorem failures_change_nothing (h : Run NatState.step (new serverIp netmask ttl) es s)
    (p : SocketAddr) (pkt : Bytes) (now : Instant) :
    ((s.ingress p pkt now).2.2 = .invalid ∨ (s.ingress p pkt now).2.2 = .exhausted →
      (s.ingress p pkt now).1 = s ∧ (s.ingress p pkt now).2.1 = pkt) ∧
    ((s.egress pkt now).2.2 = none → (s.egress pkt now).1 = s ∧ (s.egress pkt now).2.1 = pkt) ∧
    ((s.ingress p pkt now).2.2 = .exhausted ↔ (parseSrc pkt).isSome ∧ s.byPeer.get p = none ∧
      ∀ a ∈ s.pool.addresses, (s.pool.leases.get a).isSome) ∧
    s.pool.addresses.Nodup ∧ s.pool.addresses.length = s.pool.capacity := by
  obtain ⟨hi, -⟩ := run_inv h
  have hin : NatState.step s (.ingress p pkt now) =
      .ok ((s.ingress p pkt now).1, .ingress (s.ingress p pkt now).2.2 (s.ingress p pkt now).2.1) := rfl
  have hout : NatState.step s (.egress pkt now) =
      .ok ((s.egress pkt now).1, .egress (s.egress pkt now).2.2 (s.egress pkt now).2.1) := rfl
  generalize s.ingress p pkt now = r at hin ⊢
  generalize s.egress pkt now = r' at hout ⊢
  obtain ⟨s', pkt', result⟩ := r
  obtain ⟨s'', pkt'', peer⟩ := r'
  dsimp only at hin hout ⊢
  refine ⟨?_, ?_, ?_, s.pool.nodup_addresses, LeasePool.length_addresses hi.pool⟩
  · intro hfail
    cases steps_of_step hin with
    | invalid _ => exact ⟨rfl, rfl⟩
    | known _ _ => simp at hfail
    | fresh _ _ _ => simp at hfail
    | exhausted _ _ ha =>
      obtain ⟨rfl, -⟩ := LeasePool.allocate_eq_none hi.pool ha
      exact ⟨rfl, rfl⟩
  · rintro rfl
    cases steps_of_step hout with
    | undelivered _ => exact ⟨rfl, rfl⟩
  · have hwell : (parseSrc pkt).isSome ↔ WellFormed pkt := by
      rw [← not_iff_not, Option.not_isSome_iff_eq_none]
      exact addrAt_eq_none
    simp only [hwell, LeasePool.mem_addresses]
    cases steps_of_step hin with
    | invalid hbad => simp [hbad]
    | known _ hsess => simp [hsess]
    | fresh _ hnone ha =>
      -- the address that was taken had not been leased
      obtain ⟨hassign, hfree, -⟩ := LeasePool.allocate_eq_some hi.pool ha
      refine iff_of_false (by simp) ?_
      rintro ⟨-, -, hall⟩
      have hleased := hall _ hassign
      rw [hfree] at hleased
      cases hleased
    | exhausted hw hnone ha =>
      exact iff_of_true rfl ⟨hw, hnone, (LeasePool.allocate_eq_none hi.pool ha).2⟩

theorem failures_change_nothing_full : ∃ es s,
    Run NatState.step (new (Sample.addr 1) 0xFFFFFFFC 8000000000) es s ∧ s.pool.capacity = 1 ∧
    (s.ingress (Sample.endpoint 2) Sample.datagram 2).2.2 = .exhausted ∧
    (s.ingress (Sample.endpoint 2) Sample.datagram 2).1 = s := by
  have hrun : ∃ es s,
      exec NatState.step (new (Sample.addr 1) 0xFFFFFFFC 8000000000)
        [.ingress (Sample.endpoint 1) Sample.datagram 1] = .ok (es, s) ∧ s.pool.capacity = 1 ∧
      (s.ingress (Sample.endpoint 2) Sample.datagram 2).2.2 = .exhausted :=
    ⟨_, _, rfl, by decide +kernel, by decide +kernel⟩
  obtain ⟨es, s, hexec, hcap, hfull⟩ := hrun
  exact ⟨es, s, exec_run hexec, hcap, hfull,
    ((failures_change_nothing (exec_run hexec) _ _ _).1 (Or.inr hfull)).1⟩

end NatState

end ShadowVpn
