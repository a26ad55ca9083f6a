import ShadowVpn.Proofs.Client
import ShadowVpn.Sanity.Relay
import ShadowVpn.Spec.Node

/-! The client step by step: what a reply does to the variables of `run`, and the ways in which a
job or a turn can go. -/

namespace ShadowVpn

open Lib

/-! Replies. -/

namespace ClientRun

variable {serverIp directSrc : IpAddr} {o : Outside} {s s' : ClientRun} {reply : Assign}
  {out : List Control}

/-- The configuration and the flags stay. -/
structure Steady (s s' : ClientRun) : Prop where
  cfg : s'.cfg = s.cfg
  gotOk : s'.gotOk = s.gotOk
  assignedOk : s'.assignedOk = s.assignedOk
  assignRetry : s'.assignRetry = s.assignRetry
  keepTick : s'.keepTick = s.keepTick

namespace Steady

theorem refl (s : ClientRun) : Steady s s := ⟨rfl, rfl, rfl, rfl, rfl⟩

theorem trans {a b c : ClientRun} (h : Steady a b) (h' : Steady b c) : Steady a c :=
  ⟨h'.cfg.trans h.cfg, h'.gotOk.trans h.gotOk, h'.assignedOk.trans h.assignedOk,
    h'.assignRetry.trans h.assignRetry, h'.keepTick.trans h.keepTick⟩

end Steady

theorem startPolicyAndInstaller_steady
    (h : s.startPolicyAndInstaller serverIp directSrc o = .ok s') : Steady s s' := by
  obtain ⟨t, ht, h⟩ := bind_eq_ok.1 h
  have hpolicy : Steady s t := by
    unfold startPolicy at ht
    split_ifs at ht
    · split at ht
      · cases ht
      · cases ht
        exact ⟨rfl, rfl, rfl, rfl, rfl⟩
    · cases ht
      exact .refl s
  refine hpolicy.trans ?_
  unfold startInstaller at h
  split_ifs at h
  · split at h
    · cases h
    · cases h
      exact ⟨rfl, rfl, rfl, rfl, rfl⟩
  · cases h
    exact .refl _

theorem newGuard_steady {message : String} {tunIp netmask : Ipv4Addr} {ip6 : Option Ipv6Network}
    (h : s.newGuard o message tunIp netmask ip6 = .ok s') : Steady s s' := by
  unfold newGuard at h
  split at h
  · cases h
  · unfold applyGuard at h
    dsimp only at h
    split_ifs at h
    cases h
    exact ⟨rfl, rfl, rfl, rfl, rfl⟩

theorem refreshGuard_steady {tunIp netmask : Ipv4Addr} {ip6 : Option Ipv6Network}
    (h : s.refreshGuard o tunIp netmask ip6 = .ok s') : Steady s s' := by
  unfold refreshGuard at h
  split at h
  · unfold applyGuard at h
    dsimp only at h
    split_ifs at h
    cases h
    exact ⟨rfl, rfl, rfl, rfl, rfl⟩
  · exact newGuard_steady h

theorem stopOld_steady (o : Outside) (ipv4Changed : Bool) (s : ClientRun) :
    Steady s (s.stopOld o ipv4Changed) := by
  have hpolicy : Steady s (s.shutdownPolicy o) := by
    unfold shutdownPolicy
    split
    · exact ⟨rfl, rfl, rfl, rfl, rfl⟩
    · exact ⟨rfl, rfl, rfl, rfl, rfl⟩
  unfold stopOld
  split_ifs
  · refine hpolicy.trans ?_
    unfold shutdownInstaller
    split_ifs
    · split
      · exact .refl _
      · exact ⟨rfl, rfl, rfl, rfl, rfl⟩
    · exact .refl _
  · exact .refl s

theorem hint_steady (s : ClientRun) : Steady s s.hint := by
  unfold hint
  split_ifs
  · exact ⟨rfl, rfl, rfl, rfl, rfl⟩
  · exact .refl s

/-- What a reply leaves: a client that is assigned, with the address that it had been assigned or
with that of the reply. -/
structure Replied (s : ClientRun) (reply : Assign) (s' : ClientRun) (out : List Control) :
    Prop where
  gotOk : s'.gotOk = true
  assignedOk : s.assignedOk = s.gotOk → s'.assignedOk = true
  address : (s.gotOk = true ∧ s'.cfg = s.cfg) ∨ (reply.status = .ok ∧ s'.cfg.tun.ip = reply.tunIp)
  cfg : s'.cfg = { s.cfg with tun := s'.cfg.tun }
  adverts : ∀ c ∈ out, c ∈ s'.cfg.adverts

theorem Replied.autoTun (h : Replied s reply s' out) : s'.cfg.autoTun = s.cfg.autoTun := by
  rw [h.cfg]

theorem mem_adverts {cfg : ClientConfig} {c : Control} (h : c ∈ cfg.adverts) :
    c = .routeAdvert cfg.routeAdvert ∨ cfg.magicDns = true ∧ c = .nameAdvert cfg.nameAdvert := by
  unfold ClientConfig.adverts at h
  rcases List.mem_append.1 h with h | h
  · split_ifs at h
    · exact Or.inl (List.mem_singleton.1 h)
    · cases h
  · split_ifs at h with hmagic
    · exact Or.inr ⟨hmagic, List.mem_singleton.1 h⟩
    · cases h

/-- The adverts are those of the configuration that the reply leaves. -/
theorem adopt_adverts {ip6 : Option Ipv6Network} {c : Control}
    (h : s.adopt serverIp directSrc o reply ip6 = .ok (s', out)) (hc : c ∈ out) :
    c ∈ s'.cfg.adverts := by
  unfold adopt at h
  dsimp only at h
  split at h
  · cases h
  obtain ⟨t, -, h⟩ := bind_eq_ok.1 h
  obtain ⟨u, -, h⟩ := bind_eq_ok.1 h
  by_cases hfirst : (!s.gotOk ||
      (s.cfg.tun.ip ≠ UNSPECIFIED && s.cfg.tun.ip ≠ reply.tunIp)) = true
  · rw [if_pos hfirst] at h
    split_ifs at h
    cases h
    exact hc
  · rw [if_neg hfirst] at h
    cases h
    cases hc

theorem adopt_replied {ip6 : Option Ipv6Network} (hok : reply.status = .ok)
    (h : s.adopt serverIp directSrc o reply ip6 = .ok (s', out)) : Replied s reply s' out := by
  obtain ⟨t, u, ht, hu, heq⟩ := adopt_eq_ok h
  have hsteady := ((refreshGuard_steady ht).trans (stopOld_steady o _ t)).trans
    (startPolicyAndInstaller_steady hu)
  have hsaved : Steady u (u.persistAssignment o reply ip6) := by
    unfold persistAssignment
    split_ifs
    · exact ⟨rfl, rfl, rfl, rfl, rfl⟩
    · exact .refl u
  have hv := hsteady.trans hsaved
  generalize u.persistAssignment o reply ip6 = v at hv heq
  have hlast := hint_steady (v.markOk (!s.gotOk))
  rw [← heq, markOk_eq] at hlast
  have hgot : v.gotOk = s.gotOk := hv.gotOk
  have hcfg : s'.cfg = s.cfg.overlayCachedAssignment reply.tunIp reply.netmask reply.peerIp ip6 :=
    hlast.cfg.trans hv.cfg
  refine ⟨?_, ?_, Or.inr ⟨hok, ?_⟩, ?_, ?_⟩
  · rw [hlast.gotOk, hgot, Bool.not_or_self]
  · intro hflags
    have hassigned : v.assignedOk = s.assignedOk := hv.assignedOk
    rw [hlast.assignedOk, hassigned, hflags, Bool.not_or_self]
  · rw [hcfg]
    rfl
  · rw [hcfg, ClientConfig.overlayCachedAssignment]
  · intro c hc
    exact adopt_adverts h hc

theorem handleAssignReply_replied
    (h : s.handleAssignReply serverIp directSrc o reply = .ok (s', out)) :
    Replied s reply s' out := by
  have hkept : s.gotOk = true → (s, ([] : List Control)) = (s', out) → Replied s reply s' out := by
    intro hgot heq
    cases heq
    exact ⟨hgot, fun hflags => hflags.trans hgot, Or.inl ⟨hgot, rfl⟩, rfl, fun c hc => by cases hc⟩
  unfold handleAssignReply at h
  cases hstatus : reply.status with
  | exhausted =>
    rw [hstatus] at h
    dsimp only at h
    split_ifs at h with hgot
    exact hkept hgot (Except.ok.inj h)
  | natMode =>
    rw [hstatus] at h
    dsimp only at h
    split_ifs at h with hgot
    exact hkept hgot (Except.ok.inj h)
  | ok =>
    rw [hstatus] at h
    dsimp only at h
    generalize replyIp6 s.cfg.wantIp6 reply
      (if s.cfg.wantIp6 then none else s.cfg.tun.ip6) = ip6 at h
    split_ifs at h with hsame
    · exact hkept hsame.1 (Except.ok.inj h)
    · exact adopt_replied hstatus h

/-- The installer is the one from before, or a new one. -/
def Rebuilt (serverIp : IpAddr) (s s' : ClientRun) : Prop :=
  ∀ ri, s'.installer = some ri →
    s.installer = some ri ∨ ∃ ifindex tunIp, ri = .new ifindex tunIp serverIp

namespace Rebuilt

theorem of_eq (h : s'.installer = s.installer) : Rebuilt serverIp s s' :=
  fun _ hri => Or.inl (h ▸ hri)

theorem of_none (h : s'.installer = none) : Rebuilt serverIp s s' := by
  intro ri hri
  rw [h] at hri
  cases hri

theorem trans {a b c : ClientRun} (h : Rebuilt serverIp a b) (h' : Rebuilt serverIp b c) :
    Rebuilt serverIp a c := by
  intro ri hri
  rcases h' ri hri with hold | hnew
  · exact h ri hold
  · exact Or.inr hnew

end Rebuilt

theorem startPolicyAndInstaller_rebuilt
    (h : s.startPolicyAndInstaller serverIp directSrc o = .ok s') : Rebuilt serverIp s s' := by
  obtain ⟨t, ht, h⟩ := bind_eq_ok.1 h
  have hpolicy : t.installer = s.installer := by
    unfold startPolicy at ht
    split_ifs at ht
    · split at ht
      · cases ht
      · cases ht
        rfl
    · cases ht
      rfl
  refine (Rebuilt.of_eq hpolicy).trans ?_
  unfold startInstaller at h
  split_ifs at h
  · split at h
    · cases h
    · cases h
      intro ri hri
      cases hri
      exact Or.inr ⟨_, _, rfl⟩
  · cases h
    exact .of_eq rfl

theorem stopOld_rebuilt (o : Outside) (ipv4Changed : Bool) (s : ClientRun) :
    Rebuilt serverIp s (s.stopOld o ipv4Changed) := by
  unfold stopOld
  split_ifs
  · refine (Rebuilt.of_eq (shutdownPolicy_spec o s).2.2).trans ?_
    unfold shutdownInstaller
    split_ifs
    · split
      · exact .of_eq rfl
      · exact .of_none rfl
    · exact .of_eq rfl
  · exact .of_eq rfl

theorem adopt_rebuilt {ip6 : Option Ipv6Network}
    (h : s.adopt serverIp directSrc o reply ip6 = .ok (s', out)) : Rebuilt serverIp s s' := by
  obtain ⟨t, u, ht, hu, rfl⟩ := adopt_eq_ok h
  have hguarded : Guarded _ t { s.cfg.tun with
      ip := reply.tunIp, netmask := reply.netmask, ip6 := ip6 } := refreshGuard_spec ht
  have hlast : ((u.persistAssignment o reply ip6).markOk (!s.gotOk)).hint.installer =
      u.installer := by
    rw [(hint_spec _).2.2, markOk_eq]
    exact (persistAssignment_spec o reply ip6 u).2.2
  exact (((Rebuilt.of_eq hguarded.installer).trans (stopOld_rebuilt o _ t)).trans
    (startPolicyAndInstaller_rebuilt hu)).trans (.of_eq hlast)

theorem handleAssignReply_rebuilt
    (h : s.handleAssignReply serverIp directSrc o reply = .ok (s', out)) :
    Rebuilt serverIp s s' := by
  unfold handleAssignReply at h
  split at h
  · split_ifs at h
    cases h
    exact .of_eq rfl
  · split_ifs at h
    cases h
    exact .of_eq rfl
  · dsimp only at h
    generalize replyIp6 s.cfg.wantIp6 reply _ = ip6 at h
    split_ifs at h
    · cases h
      exact .of_eq rfl
    · exact adopt_rebuilt h

/-- Pushes and answers change routes only. -/
theorem step_push_steady {kernel : RouteCall → Bool} {order : IterOrder IpNetwork Unit}
    {routes : List IpNetwork}
    (h : s.step serverIp directSrc (.push kernel order routes) = .ok (s', out)) :
    Steady s s' ∧ s'.dnsSlot = s.dnsSlot := by
  simp only [step] at h
  split at h
  · cases h
    exact ⟨.refl s, rfl⟩
  · cases h
    exact ⟨⟨rfl, rfl, rfl, rfl, rfl⟩, rfl⟩

theorem step_resolved_steady {kernel : RouteCall → Bool} {ip : Ipv4Addr}
    (h : s.step serverIp directSrc (.resolved kernel ip) = .ok (s', out)) :
    Steady s s' ∧ s'.dnsSlot = s.dnsSlot ∧ s'.installer = s.installer := by
  simp only [step] at h
  split at h
  · cases h
    exact ⟨.refl s, rfl, rfl⟩
  · cases h
    exact ⟨⟨rfl, rfl, rfl, rfl, rfl⟩, rfl, rfl⟩

/-- How a client in auto mode enters its loop. -/
theorem start_waiting {cfg : ClientConfig} {last : Option LastAssign}
    (h : start serverIp directSrc o cfg last = .ok s) :
    s.cfg = cfg.withCached last ∧ s.gotOk = false ∧ s.assignedOk = false ∧ s.keepTick = false := by
  unfold start at h
  generalize cfg.withCached last = cfg at h
  dsimp only at h
  split_ifs at h
  · cases h
    exact ⟨rfl, rfl, rfl, rfl⟩
  · obtain ⟨t, ht, h⟩ := bind_eq_ok.1 h
    obtain ⟨u, hu, h⟩ := bind_eq_ok.1 h
    cases h
    have hsteady := ((startPolicyAndInstaller_steady ht).trans (newGuard_steady hu)).trans
      (hint_steady u)
    exact ⟨hsteady.cfg, hsteady.gotOk, hsteady.assignedOk, hsteady.keepTick⟩

theorem start_rebuilt {cfg : ClientConfig} {last : Option LastAssign}
    (h : start serverIp directSrc o cfg last = .ok s) {ri : RouteInstaller}
    (hri : s.installer = some ri) : ∃ ifindex tunIp, ri = .new ifindex tunIp serverIp := by
  unfold start at h
  generalize cfg.withCached last = cfg at h
  dsimp only at h
  split_ifs at h
  · cases h
    cases hri
  · obtain ⟨t, ht, h⟩ := bind_eq_ok.1 h
    obtain ⟨u, hu, h⟩ := bind_eq_ok.1 h
    cases h
    have hguarded : Guarded t u cfg.tun := newGuard_spec hu
    rw [(hint_spec u).2.2, hguarded.installer] at hri
    rcases startPolicyAndInstaller_rebuilt ht ri hri with hold | hnew
    · cases hold
    · exact hnew

/-- How a static client enters its loop. -/
theorem startStatic_spec {cfg : ClientConfig}
    (h : startStatic serverIp directSrc o cfg = .ok s) :
    s.cfg = cfg ∧ s.keepTick = false ∧
      ∀ ri, s.installer = some ri → ∃ ifindex tunIp, ri = .new ifindex tunIp serverIp := by
  unfold startStatic at h
  dsimp only at h
  split_ifs at h
  · cases h
    exact ⟨rfl, rfl, fun ri hri => by cases hri⟩
  · obtain ⟨t, ht, h⟩ := bind_eq_ok.1 h
    cases h
    have hsteady := (startPolicyAndInstaller_steady ht).trans (hint_steady t)
    refine ⟨hsteady.cfg, hsteady.keepTick, ?_⟩
    intro ri hri
    rw [(hint_spec t).2.2] at hri
    rcases startPolicyAndInstaller_rebuilt ht ri hri with hold | hnew
    · cases hold
    · exact hnew

end ClientRun

/-! Jobs and turns. -/

namespace ClientFault

theorem ofPanic_eq_ok {α : Type} {x : Except Panic α} {a : α} : ofPanic x = .ok a ↔ x = .ok a := by
  cases x with
  | error p => simp [ofPanic]
  | ok b => simp [ofPanic]

theorem ofError_eq_ok {α : Type} {x : Except ClientError α} {a : α} :
    ofError x = .ok a ↔ x = .ok a := by
  cases x with
  | error e => simp [ofError]
  | ok b => simp [ofError]

end ClientFault

namespace ClientNode

variable {L : Primitives} {P : Platform} {site : ClientSite} {cfg : ClientConfig}
  {o : Option Obfuscator} {s s' : ClientNode} {env : ClientEnv} {job : Job} {e : Option Emit}

/-- What becomes of a job, one case for each way it can go. -/
inductive Works (L : Primitives) (P : Platform) (site : ClientSite) (cfg : ClientConfig)
    (o : Option Obfuscator) (s : ClientNode) (env : ClientEnv) :
    Job → ClientNode → Option Emit → Prop
  | forwarded {pkt : Bytes} (h : ∀ query, (classify pkt).run = .ok (some query) →
      s.run.dnsSlot = none ∨ env.owned query.srcPort = true) :
      Works L P site cfg o s env (.packet pkt) s (some (.send site.server pkt))
  | asked {pkt : Bytes} {query : DnsQuery} (h : (classify pkt).run = .ok (some query)) :
      Works L P site cfg o s env (.packet pkt) { s with asking := s.asking ++ [query] } none
  | noise {peer : SocketAddr} {pkt : Bytes}
      (h : ∀ payload, ¬ Opens L P cfg.cipher cfg.masterKey o pkt payload) :
      Works L P site cfg o s env (.datagram peer pkt) s none
  | pushed {peer : SocketAddr} {pkt payload : Bytes} {push : RoutePush} {run : ClientRun}
      {out : List Control} (hopen : Opens L P cfg.cipher cfg.masterKey o pkt payload)
      (hparse : parseControl payload = some (.routePush push))
      (hstep : s.run.step site.server.ip site.directSrc
        (.push env.kernel env.order push.routes) = .ok (run, out)) :
      Works L P site cfg o s env (.datagram peer pkt) { s with run := run } none
  | offered {peer : SocketAddr} {pkt payload : Bytes} {reply : Assign}
      (hauto : s.run.cfg.autoTun = true)
      (hopen : Opens L P cfg.cipher cfg.masterKey o pkt payload)
      (hparse : parseControl payload = some (.assign reply)) :
      Works L P site cfg o s env (.datagram peer pkt)
        { s with assigns := s.assigns ++ [reply] } none
  | named {peer : SocketAddr} {pkt payload : Bytes} {push : PeerPush}
      (hopen : Opens L P cfg.cipher cfg.masterKey o pkt payload)
      (hparse : parseControl payload = some (.peerPush push)) :
      Works L P site cfg o s env (.datagram peer pkt)
        { s with peers := PeerTable.replace push.peers s.run.cfg.magicDnsSuffix } none
  | dropped {peer : SocketAddr} {pkt payload : Bytes}
      (hopen : Opens L P cfg.cipher cfg.masterKey o pkt payload) :
      Works L P site cfg o s env (.datagram peer pkt) s none
  | written {peer : SocketAddr} {pkt payload : Bytes}
      (hopen : Opens L P cfg.cipher cfg.masterKey o pkt payload) (hp : Forwardable payload) :
      Works L P site cfg o s env (.datagram peer pkt) s (some (.tun payload))

theorem works_of_forward {pkt : Bytes} (h : s.forward site pkt env = .ok (s', e)) :
    Works L P site cfg o s env (.packet pkt) s' e := by
  unfold forward at h
  obtain ⟨found, hfound, h⟩ := bind_eq_ok.1 h
  rw [ClientFault.ofPanic_eq_ok] at hfound
  cases found with
  | none =>
    cases h
    refine .forwarded fun query hquery => ?_
    rw [hfound] at hquery
    cases hquery
  | some query =>
    dsimp only at h
    split_ifs at h with hask
    · cases h
      exact .asked hfound
    · cases h
      refine .forwarded fun query' hquery => ?_
      rw [hfound] at hquery
      cases hquery
      cases hslot : s.run.dnsSlot with
      | none => exact Or.inl rfl
      | some _ => exact Or.inr (by simpa [hslot] using hask)

theorem works_of_receive {peer : SocketAddr} {pkt payload : Bytes}
    (hopen : Opens L P cfg.cipher cfg.masterKey o pkt payload)
    (h : s.receive site payload env = .ok (s', e)) :
    Works L P site cfg o s env (.datagram peer pkt) s' e := by
  unfold receive at h
  split_ifs at h with hc hlen
  · obtain ⟨t, ht, h⟩ := bind_eq_ok.1 h
    cases h
    unfold handleControl at ht
    split at ht
    · rename_i push hparse
      obtain ⟨⟨run, out⟩, hstep, ht⟩ := bind_eq_ok.1 ht
      cases ht
      exact .pushed hopen hparse (ClientFault.ofError_eq_ok.1 hstep)
    · rename_i reply hparse
      split_ifs at ht with hroom
      · cases ht
        exact .offered (Bool.and_eq_true_iff.1 hroom).1 hopen hparse
      · cases ht
        exact .dropped hopen
    · rename_i push hparse
      cases ht
      exact .named hopen hparse
    · cases ht
      exact .dropped hopen
  · cases h
    exact .dropped hopen
  · cases h
    exact .written hopen ⟨by simpa using hc, by omega⟩

theorem works_of_work (h : work L P site cfg o s job env = .ok (s', e)) :
    Works L P site cfg o s env job s' e := by
  cases job with
  | packet pkt => exact works_of_forward h
  | datagram peer pkt =>
    obtain ⟨received, hreceived⟩ := receivePacket_total L P cfg.cipher cfg.masterKey o pkt
    simp only [work, hreceived, ClientFault.ofPanic] at h
    cases received with
    | notObfs =>
      cases h
      exact .noise fun payload hopen => by cases hreceived.symm.trans hopen
    | undecryptable e =>
      cases h
      exact .noise fun payload hopen => by cases hreceived.symm.trans hopen
    | packet payload => exact works_of_receive hreceived h

/-- What a turn does, one case for each way it can go. -/
inductive Ticks (P : Platform) (site : ClientSite) (s : ClientNode) :
    ClientTick → ClientNode → List Emit → Prop
  | idle {tick : ClientTick} : Ticks P site s tick s []
  | replied {outside : Outside} {reply : Assign} {rest : List Assign} {run : ClientRun}
      {adverts : List Control} (hassigns : s.assigns = reply :: rest)
      (h : s.run.Replied reply run adverts) (hi : s.run.Rebuilt site.server.ip run) :
      Ticks P site s (.reply outside) { s with run := run, assigns := rest }
        (adverts.map fun advert => .send site.server (encodeAdvert advert))
  | retry (h : s.run.gotOk = false) :
      Ticks P site s (.retry false) s [.send site.server (s.run.cfg.assignRequest site.nodeId)]
  | keep (h : s.run.keepTick = true) :
      Ticks P site s .keep s ((s.run.cfg.autoTickPayloads site.nodeId).map (.send site.server ·))
  | periodic (h : s.run.cfg.autoTun = false) :
      Ticks P site s .periodic s (s.run.cfg.periodic.map (.send site.server ·))
  | answered {query : DnsQuery} {response : Option Bytes} {out : List Emit} (h : query ∈ s.asking)
      (hout : ∀ o ∈ out, ∃ answer packet, buildReply P query answer = .ok packet ∧
        o = .tun packet) :
      Ticks P site s (.answer query response) { s with asking := s.asking.erase query } out
  | resolved {kernel : RouteCall → Bool} {ip : Ipv4Addr} {run : ClientRun}
      (h : ClientRun.Steady s.run run) (hi : run.installer = s.run.installer) :
      Ticks P site s (.resolved kernel ip) { s with run := run } []

theorem ticks_of_tick {t : ClientTick} {out : List Emit} (h : tick site P s t = .ok (s', out)) :
    Ticks P site s t s' out := by
  cases t with
  | reply outside =>
    simp only [tick] at h
    split at h
    · cases h
      exact .idle
    · rename_i reply rest hassigns
      obtain ⟨⟨run, adverts⟩, hstep, h⟩ := bind_eq_ok.1 h
      cases h
      have hreply := ClientFault.ofError_eq_ok.1 hstep
      exact .replied hassigns (ClientRun.handleAssignReply_replied hreply)
        (ClientRun.handleAssignReply_rebuilt hreply)
  | retry late =>
    simp only [tick] at h
    split_ifs at h with hwait hlate
    · cases h
      rw [Bool.and_eq_true, Bool.not_eq_true'] at hwait
      rw [Bool.not_eq_true] at hlate
      subst hlate
      exact .retry hwait.2
    · cases h
      exact .idle
  | keep =>
    simp only [tick] at h
    split_ifs at h with hkeep
    · cases h
      exact .keep hkeep
    · cases h
      exact .idle
  | periodic =>
    simp only [tick] at h
    split_ifs at h with hauto
    · cases h
      exact .idle
    · cases h
      exact .periodic (by simpa using hauto)
  | answer query response =>
    simp only [tick] at h
    split_ifs at h with hasked
    · cases response with
      | none =>
        cases h
        exact .answered hasked (List.forall_mem_nil _)
      | some response =>
        obtain ⟨packet, hbuild, h⟩ := bind_eq_ok.1 h
        cases h
        refine .answered hasked ?_
        rw [List.forall_mem_singleton]
        exact ⟨response, packet, ClientFault.ofPanic_eq_ok.1 hbuild, rfl⟩
    · cases h
      exact .idle
  | resolved kernel ip =>
    obtain ⟨⟨run, out⟩, hstep, h⟩ := bind_eq_ok.1 h
    cases h
    obtain ⟨hsteady, -, hinstaller⟩ :=
      ClientRun.step_resolved_steady (ClientFault.ofError_eq_ok.1 hstep)
    exact .resolved hsteady hinstaller

/-- How a client enters its loop. -/
theorem start_unassigned {outside : Outside} {last : Option LastAssign}
    (h : start site outside cfg last = .ok s) :
    s.assigns = [] ∧ s.asking = [] ∧ s.run.cfg.autoTun = cfg.autoTun ∧
      (cfg.autoTun = true → s.run.gotOk = false) := by
  unfold start at h
  by_cases hauto : cfg.autoTun = true
  · rw [if_pos hauto] at h
    obtain ⟨run, hrun, h⟩ := bind_eq_ok.1 h
    cases h
    obtain ⟨hcfg, hgot, -⟩ := ClientRun.start_waiting hrun
    refine ⟨rfl, rfl, ?_, fun _ => hgot⟩
    rw [hcfg]
    cases last with
    | none => rfl
    | some _ => rfl
  · rw [if_neg hauto] at h
    obtain ⟨run, hrun, h⟩ := bind_eq_ok.1 h
    cases h
    have hcfg := (ClientRun.startStatic_spec hrun).1
    exact ⟨rfl, rfl, congrArg ClientConfig.autoTun hcfg, fun hyes => absurd hyes hauto⟩

/-- A client enters its loop with no peers and without a route of theirs. -/
theorem start_fresh {outside : Outside} {last : Option LastAssign}
    (h : start site outside cfg last = .ok s) :
    s.peers = PeerTable.new ∧ s.run.keepTick = false ∧
      s.run.cfg = { cfg with tun := s.run.cfg.tun } ∧ (cfg.autoTun = false → s.run.cfg = cfg) ∧
      ∀ ri, s.run.installer = some ri →
        ∃ ifindex tunIp, ri = .new ifindex tunIp site.server.ip := by
  unfold start at h
  by_cases hauto : cfg.autoTun = true
  · rw [if_pos hauto] at h
    obtain ⟨run, hrun, h⟩ := bind_eq_ok.1 h
    cases h
    obtain ⟨hcfg, -, -, hkeep⟩ := ClientRun.start_waiting hrun
    refine ⟨rfl, hkeep, ?_, fun hno => absurd hauto (by simp [hno]),
      fun ri hri => ClientRun.start_rebuilt hrun hri⟩
    rw [hcfg]
    cases last with
    | none => rfl
    | some _ => rfl
  · rw [if_neg hauto] at h
    obtain ⟨run, hrun, h⟩ := bind_eq_ok.1 h
    cases h
    obtain ⟨hcfg, hkeep, hinstaller⟩ := ClientRun.startStatic_spec hrun
    exact ⟨rfl, hkeep, by rw [hcfg], fun _ => hcfg, hinstaller⟩

end ClientNode

end ShadowVpn
