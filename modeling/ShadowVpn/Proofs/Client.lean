import ShadowVpn.Sanity.Client

/-! The client's assignment over whole runs: what is built with the address, what the guard tracks
and whether the client is assigned agree with the configuration after every reply. -/

namespace ShadowVpn

open Lib

namespace ClientRun

variable {s s' : ClientRun} {o : Outside} {serverIp directSrc : IpAddr} {reply : Assign}
  {ip6 : Option Ipv6Network} {out : List Control}

structure Consistent (s : ClientRun) : Prop where
  policy : ∀ h, s.policyHandle = some h → h.BuiltWith s.cfg.tun.ip
  installer : ∀ i, s.installer = some i → i.tunIp = s.cfg.tun.ip
  guard : ∀ g, s.subnetGuard = some g → g.Tracks s.cfg.tun

/-- What also holds between replies: nothing is built before there is an address, no installer
without its setting, and the two flags say the same. -/
structure Settled (s : ClientRun) : Prop where
  built : s.BuiltWith s.cfg.tun.ip
  guard : ∀ g, s.subnetGuard = some g → g.Tracks s.cfg.tun
  idle : s.cfg.tun.ip = UNSPECIFIED → s.policyHandle = none ∧ s.installer = none
  accepts : s.installer.isSome = true → s.cfg.acceptRoutes = true
  flags : s.assignedOk = s.gotOk

theorem Settled.consistent (h : s.Settled) : s.Consistent :=
  ⟨h.built.policy, h.built.installer, h.guard⟩

theorem Settled.of_frame (h : s.Settled) (hf : Frame s s') (hp : s'.policyHandle = s.policyHandle)
    (hi : s'.installer = s.installer) : s'.Settled where
  built := by
    rw [hf.cfg]
    exact h.built.of_eq hp hi
  guard := by
    rw [hf.cfg, hf.guard]
    exact h.guard
  idle := by
    rw [hf.cfg, hp, hi]
    exact h.idle
  accepts := by
    rw [hf.cfg, hi]
    exact h.accepts
  flags := by rw [hf.assignedOk, hf.gotOk, h.flags]

theorem Settled.markOk (h : s.Settled) (firstOk : Bool) : (s.markOk firstOk).Settled := by
  rw [markOk_eq]
  exact ⟨h.built.of_eq rfl rfl, h.guard, h.idle, h.accepts, congrArg (firstOk || ·) h.flags⟩

/-! The start. -/

theorem settled_start {cfg : ClientConfig} {last : Option LastAssign}
    (h : start serverIp directSrc o cfg last = .ok s) : s.Settled ∧ s.gotOk = false := by
  unfold start at h
  generalize cfg.withCached last = cfg at h
  dsimp only at h
  split_ifs at h with _ hip
  · cases h
    refine ⟨⟨builtWith_of_none rfl rfl, ?_, fun _ => ⟨rfl, rfl⟩, ?_, rfl⟩, rfl⟩
    · rintro g ⟨⟩
    · rintro ⟨⟩
  · obtain ⟨t, ht, h⟩ := bind_eq_ok.1 h
    obtain ⟨u, hu, h⟩ := bind_eq_ok.1 h
    cases h
    obtain ⟨hframe, hbuilt, haccepts⟩ :=
      startPolicyAndInstaller_spec ht (builtWith_of_none rfl rfl) (by rintro ⟨⟩)
    have hguarded := newGuard_spec hu
    obtain ⟨g, hg, htracks⟩ := hguarded.guard
    have hcfg : u.cfg = cfg := hguarded.cfg.trans hframe.cfg
    have hsettled : u.Settled := by
      refine ⟨?_, ?_, ?_, ?_, ?_⟩
      · rw [hcfg]
        exact hbuilt.of_eq hguarded.policyHandle hguarded.installer
      · rintro g' hg'
        cases hg.symm.trans hg'
        rwa [hcfg]
      · rw [hcfg]
        exact fun hzero => absurd hzero hip
      · rw [hcfg, hguarded.installer]
        exact haccepts
      · rw [hguarded.assignedOk, hguarded.gotOk, hframe.assignedOk, hframe.gotOk]
    obtain ⟨hlast, hp, hi⟩ := hint_spec u
    refine ⟨hsettled.of_frame hlast hp hi, ?_⟩
    rw [hlast.gotOk, hguarded.gotOk, hframe.gotOk]

/-! Replies. -/

theorem stopOld_spec (o : Outside) (ipv4Changed : Bool)
    (ha : s.installer.isSome = true → s.cfg.acceptRoutes = true) :
    Frame s (s.stopOld o ipv4Changed) ∧
      (ipv4Changed = true → (s.stopOld o ipv4Changed).policyHandle = none ∧
        (s.stopOld o ipv4Changed).installer = none) ∧
      (ipv4Changed = false → s.stopOld o ipv4Changed = s) := by
  cases ipv4Changed with
  | false => exact ⟨.refl s, by rintro ⟨⟩, fun _ => rfl⟩
  | true =>
    obtain ⟨hframe, hpolicy, hinstaller⟩ := shutdownPolicy_spec o s
    have ha' : (s.shutdownPolicy o).installer.isSome = true →
        (s.shutdownPolicy o).cfg.acceptRoutes = true := by
      rw [hinstaller, hframe.cfg]
      exact ha
    obtain ⟨hframe', hpolicy', hinstaller'⟩ := shutdownInstaller_spec o ha'
    exact ⟨hframe.trans hframe', fun _ => ⟨hpolicy'.trans hpolicy, hinstaller'⟩, by rintro ⟨⟩⟩

theorem adopt_eq_ok (hs : s.adopt serverIp directSrc o reply ip6 = .ok (s', out)) :
    ∃ t u, ({ s with cfg := s.cfg.overlayCachedAssignment reply.tunIp reply.netmask reply.peerIp ip6 } :
        ClientRun).refreshGuard o reply.tunIp reply.netmask ip6 = .ok t ∧
      (t.stopOld o (s.cfg.tun.ip ≠ UNSPECIFIED && s.cfg.tun.ip ≠ reply.tunIp)).startPolicyAndInstaller
        serverIp directSrc o = .ok u ∧
      s' = ((u.persistAssignment o reply ip6).markOk (!s.gotOk)).hint := by
  unfold adopt at hs
  dsimp only at hs
  split at hs
  · cases hs
  obtain ⟨t, ht, hs⟩ := bind_eq_ok.1 hs
  obtain ⟨u, hu, hs⟩ := bind_eq_ok.1 hs
  refine ⟨t, u, ht, hu, ?_⟩
  generalize (if (!s.gotOk || _) = true then _ else []) = adverts at hs
  split_ifs at hs
  cases hs
  rfl

/-- Before a part is started again, none is left that was built with another address. -/
theorem Settled.stopOld (h : s.Settled) {t : ClientRun} {tunIp : Ipv4Addr}
    (hp : t.policyHandle = s.policyHandle) (hi : t.installer = s.installer)
    (ha : t.cfg.acceptRoutes = s.cfg.acceptRoutes) {t' : ClientRun}
    (ht : t.stopOld o (s.cfg.tun.ip ≠ UNSPECIFIED && s.cfg.tun.ip ≠ tunIp) = t') :
    Frame t t' ∧ t'.BuiltWith tunIp ∧ (t'.installer.isSome = true → t'.cfg.acceptRoutes = true) := by
  have haccepts : t.installer.isSome = true → t.cfg.acceptRoutes = true := by
    rw [hi, ha]
    exact h.accepts
  obtain ⟨hframe, hchanged, hsame⟩ := stopOld_spec o
    (s.cfg.tun.ip ≠ UNSPECIFIED && s.cfg.tun.ip ≠ tunIp) haccepts
  rw [ht] at hframe hchanged hsame
  cases hcond : (decide (s.cfg.tun.ip ≠ UNSPECIFIED) && decide (s.cfg.tun.ip ≠ tunIp)) with
  | true =>
    obtain ⟨hpolicy, hinstaller⟩ := hchanged hcond
    refine ⟨hframe, builtWith_of_none hpolicy hinstaller, ?_⟩
    rw [hinstaller]
    rintro ⟨⟩
  | false =>
    obtain rfl := hsame hcond
    refine ⟨hframe, ?_, haccepts⟩
    by_cases hzero : s.cfg.tun.ip = UNSPECIFIED
    · obtain ⟨hpolicy, hinstaller⟩ := h.idle hzero
      exact builtWith_of_none (hp.trans hpolicy) (hi.trans hinstaller)
    · have heq : s.cfg.tun.ip = tunIp := by simpa [hzero] using hcond
      exact heq ▸ h.built.of_eq hp hi

theorem Settled.adopt (h : s.Settled) (hip : reply.tunIp ≠ UNSPECIFIED)
    (hip6 : (if s.cfg.wantIp6 then ip6 else s.cfg.tun.ip6) = ip6)
    (hs : s.adopt serverIp directSrc o reply ip6 = .ok (s', out)) :
    s'.Settled ∧ s'.gotOk = true := by
  obtain ⟨t, u, ht, hu, rfl⟩ := adopt_eq_ok hs
  set cfg := s.cfg.overlayCachedAssignment reply.tunIp reply.netmask reply.peerIp ip6 with hcfg
  have htun6 : cfg.tun.ip6 = ip6 := hip6
  have hguarded : Guarded { s with cfg := cfg } t cfg.tun := by
    refine refreshGuard_spec (o := o) ?_
    rw [htun6]
    exact ht
  generalize hold : t.stopOld o _ = t' at hu
  have htcfg : t.cfg = cfg := hguarded.cfg
  obtain ⟨hstop, hbuilt, haccepts⟩ := h.stopOld hguarded.policyHandle hguarded.installer
    (by rw [htcfg, hcfg]; rfl) hold
  obtain ⟨hstart, hbuilt, haccepts⟩ := startPolicyAndInstaller_spec hu
    (by rw [hstop.cfg, htcfg]; exact hbuilt) haccepts
  obtain ⟨hsaved, hpolicy, hinstaller⟩ := persistAssignment_spec o reply ip6 u
  generalize u.persistAssignment o reply ip6 = v at hsaved hpolicy hinstaller ⊢
  have hframe : Frame t v := (hstop.trans hstart).trans hsaved
  have hvcfg : v.cfg = cfg := hframe.cfg.trans htcfg
  have hgot : v.gotOk = s.gotOk := hframe.gotOk.trans hguarded.gotOk
  obtain ⟨g, hg, htracks⟩ := hguarded.guard
  have hsettled : v.Settled := by
    refine ⟨?_, ?_, ?_, ?_, ?_⟩
    · rw [hframe.cfg, ← hstop.cfg]
      exact hbuilt.of_eq hpolicy hinstaller
    · intro g' hg'
      rw [hframe.guard, hg] at hg'
      cases hg'
      rwa [hvcfg]
    · rw [hvcfg]
      exact fun hzero => absurd hzero hip
    · rw [hinstaller, hframe.cfg, ← hstop.cfg]
      exact haccepts
    · rw [hgot, hframe.assignedOk, hguarded.assignedOk]
      exact h.flags
  obtain ⟨hlast, hp, hi⟩ := hint_spec (v.markOk (!s.gotOk))
  refine ⟨(hsettled.markOk _).of_frame hlast hp hi, ?_⟩
  rw [hlast.gotOk, markOk_eq, hgot, Bool.not_or_self]

theorem Settled.handleAssignReply (h : s.Settled)
    (hip : reply.status = .ok → reply.tunIp ≠ UNSPECIFIED)
    (hs : s.handleAssignReply serverIp directSrc o reply = .ok (s', out)) :
    s'.Settled ∧ (s'.gotOk = true ↔ s.gotOk = true ∨ reply.status = .ok) := by
  unfold ClientRun.handleAssignReply at hs
  cases hstatus : reply.status with
  | exhausted =>
    rw [hstatus] at hs
    dsimp only at hs
    split_ifs at hs with hgot
    cases hs
    simp [h, hgot]
  | natMode =>
    rw [hstatus] at hs
    dsimp only at hs
    split_ifs at hs with hgot
    cases hs
    simp [h, hgot]
  | ok =>
    rw [hstatus] at hs
    dsimp only at hs
    have hip6 : (if s.cfg.wantIp6 then replyIp6 s.cfg.wantIp6 reply
        (if s.cfg.wantIp6 then none else s.cfg.tun.ip6) else s.cfg.tun.ip6) =
        replyIp6 s.cfg.wantIp6 reply (if s.cfg.wantIp6 then none else s.cfg.tun.ip6) := by
      unfold replyIp6
      split_ifs <;> rfl
    generalize replyIp6 s.cfg.wantIp6 reply (if s.cfg.wantIp6 then none else s.cfg.tun.ip6) = ip6
      at hs hip6
    split_ifs at hs with hsame
    · cases hs
      simp [h, hsame.1]
    · obtain ⟨hsettled, hgot⟩ := h.adopt (hip hstatus) hip6 hs
      simp [hsettled, hgot]

/-! Runs. -/

def Event.IsOk : Event → Prop
  | .reply _ reply => reply.status = .ok
  | _ => False

/-- No reply assigns `0.0.0.0`. -/
def Event.Addressed : Event → Prop
  | .reply _ reply => reply.status = .ok → reply.tunIp ≠ UNSPECIFIED
  | _ => True

theorem Settled.push (h : s.Settled) {installer installer' : RouteInstaller}
    (hinstaller : s.installer = some installer) (hip : installer'.tunIp = installer.tunIp)
    (table : RouteTable) : { s with installer := some installer', table := table : ClientRun }.Settled := by
  refine ⟨⟨h.built.policy, ?_⟩, h.guard, ?_, fun _ => h.accepts (by rw [hinstaller]; rfl), h.flags⟩
  · rintro i ⟨⟩
    exact hip.trans (h.built.installer installer hinstaller)
  · intro hzero
    rw [(h.idle hzero).2] at hinstaller
    cases hinstaller

theorem Settled.resolved (h : s.Settled) {handle : PolicyHandle} {router : TunRouter}
    (hhandle : s.policyHandle = some handle) (hip : router.tunIp = handle.router.tunIp)
    (table : RouteTable) :
    { s with policyHandle := some { handle with router := router }, table := table : ClientRun }.Settled := by
  refine ⟨⟨?_, h.built.installer⟩, h.guard, ?_, h.accepts, h.flags⟩
  · rintro i ⟨⟩
    have hbuilt := h.built.policy handle hhandle
    exact ⟨hip.trans hbuilt.router, hbuilt.resolver⟩
  · intro hzero
    rw [(h.idle hzero).1] at hhandle
    cases hhandle

theorem Settled.step (h : s.Settled) {event : Event} (haddr : event.Addressed)
    (hs : s.step serverIp directSrc event = .ok (s', out)) :
    s'.Settled ∧ (s'.gotOk = true ↔ s.gotOk = true ∨ event.IsOk) := by
  cases event with
  | reply o reply => exact h.handleAssignReply haddr hs
  | push kernel order routes =>
    simp only [ClientRun.step] at hs
    split at hs
    · cases hs
      simp [h, Event.IsOk]
    · rename_i installer hinstaller
      cases hs
      refine ⟨h.push hinstaller (installing_apply_tunIp kernel order _ routes) _, ?_⟩
      simp [Event.IsOk]
  | resolved kernel ip =>
    simp only [ClientRun.step] at hs
    split at hs
    · cases hs
      simp [h, Event.IsOk]
    · rename_i handle hhandle
      cases hs
      refine ⟨h.resolved hhandle (addRoute_tunIp kernel _ ip) _, ?_⟩
      simp [Event.IsOk]

theorem Settled.run {es : List (Entry ClientRun Event (List Control))} (h : s.Settled)
    (hgot : s.gotOk = false) (hrun : Run (ClientRun.step serverIp directSrc) s es s')
    (haddr : ∀ e ∈ es, e.input.Addressed) :
    s'.Settled ∧ (s'.gotOk = true ↔ ∃ e ∈ es, e.input.IsOk) := by
  induction hrun with
  | nil => simp [h, hgot]
  | snoc _ hs ih =>
    obtain ⟨hpre, hlast⟩ := List.forall_mem_append.1 haddr
    obtain ⟨hsettled, hok⟩ := ih hpre
    obtain ⟨hsettled', hok'⟩ := hsettled.step (hlast _ (List.mem_singleton.2 rfl)) hs
    refine ⟨hsettled', ?_⟩
    rw [hok', hok]
    simp only [List.mem_append, List.mem_singleton, or_and_right, exists_or, exists_eq_left]

/-- After every reply, whatever was cached: what runs is built with the configured address, the
guard tracks the configured networks, and the client is assigned just if a reply has assigned it
one; from then on a refusal returns and changes nothing. -/
theorem assignment_consistent {cfg : ClientConfig} {last : Option LastAssign} {s₀ : ClientRun}
    {es : List (Entry ClientRun Event (List Control))}
    (hstart : start serverIp directSrc o cfg last = .ok s₀)
    (hrun : Run (ClientRun.step serverIp directSrc) s₀ es s)
    (haddr : ∀ e ∈ es, e.input.Addressed) :
    s.Consistent ∧ (s.assignedOk = true ↔ ∃ e ∈ es, e.input.IsOk) ∧
    ((∃ e ∈ es, e.input.IsOk) → ∀ o reply, reply.status ≠ .ok →
      s.step serverIp directSrc (.reply o reply) = .ok (s, [])) := by
  obtain ⟨hsettled, hgot⟩ := settled_start hstart
  obtain ⟨hsettled, hok⟩ := hsettled.run hgot hrun haddr
  refine ⟨hsettled.consistent, by rw [hsettled.flags, hok], ?_⟩
  intro hfirst o reply hstatus
  have hgot := hok.2 hfirst
  simp only [ClientRun.step, ClientRun.handleAssignReply]
  cases hreply : reply.status with
  | ok => exact absurd hreply hstatus
  | exhausted => simp [hgot]
  | natMode => simp [hgot]

end ClientRun

namespace Sample

def outside : Outside :=
  ⟨true, true, some 7, some 7, some 7, fun _ => true, .stored, .stored, true, [], true, fun _ => true,
    true, 0⟩

/-- A client with magic DNS that accepts routes, and that asks for both addresses. -/
def clientConfig : ClientConfig where
  server := "h:1".toList
  cipher := .chaCha20Poly1305
  masterKey := []
  tun := ⟨none, UNSPECIFIED, 0xFFFFFF00, UNSPECIFIED, none, 1400⟩
  autoTun := true
  wantIp6 := true
  stateFile := none
  policy :=
    { mode := .full
      dnsListen := .v4 0x7F000001 53
      dnsLocal := .v4 0x01010101 53
      dnsRemote := .v4 0x08080808 53
      gfwlist := none
      chnroute := none
      geoip := none
      geoipCountry := []
      prewarm := []
      cacheFile := none
      dnsTimeout := 0
      magicDns := true
      magicDnsSuffix := [] }
  obfs := none
  keepalive := 0
  advertiseRoutes := []
  acceptRoutes := true
  hostname := ['a']
  magicDns := true
  magicDnsSuffix := []

def assigned (host : UInt8) : Assign :=
  ⟨.ok, BitVec.ofNat 32 (0x0A090000 + host.toNat), 0xFFFFFF00, 0x0A090001, none, 0, 0, 60⟩

end Sample

namespace ClientRun

/-- The cached address is confirmed and then another one is assigned. -/
theorem assignment_consistent_moved : ∃ s₀ es s,
    start (.v4 0xC0000201) (.v4 0xC0000202) Sample.outside Sample.clientConfig
      (some ⟨0x0A090002, 0xFFFFFF00, 0x0A090001, none, 0⟩) = .ok s₀ ∧
    Run (ClientRun.step (.v4 0xC0000201) (.v4 0xC0000202)) s₀ es s ∧ es.length = 2 ∧
    s.cfg.tun.ip = 0x0A090003 ∧ s.policyHandle.isSome = true ∧ s.Consistent := by
  have hsteps : ∃ s₀ s₁ s₂ out₁ out₂,
      start (.v4 0xC0000201) (.v4 0xC0000202) Sample.outside Sample.clientConfig
        (some ⟨0x0A090002, 0xFFFFFF00, 0x0A090001, none, 0⟩) = .ok s₀ ∧
      s₀.step (.v4 0xC0000201) (.v4 0xC0000202) (.reply Sample.outside (Sample.assigned 2)) =
        .ok (s₁, out₁) ∧
      s₁.step (.v4 0xC0000201) (.v4 0xC0000202) (.reply Sample.outside (Sample.assigned 3)) =
        .ok (s₂, out₂) ∧
      s₂.cfg.tun.ip = 0x0A090003 ∧ s₂.policyHandle.isSome = true :=
    ⟨_, _, _, _, _, rfl, rfl, rfl, rfl, rfl⟩
  obtain ⟨s₀, s₁, s₂, out₁, out₂, h0, h1, h2, hip, hpolicy⟩ := hsteps
  have hrun := (Run.single h1).snoc h2
  refine ⟨s₀, _, s₂, h0, hrun, rfl, hip, hpolicy, (assignment_consistent h0 hrun ?_).1⟩
  simp only [List.forall_mem_append, List.forall_mem_singleton]
  exact ⟨fun _ => by decide, fun _ => by decide⟩

end ClientRun

end ShadowVpn
