import ShadowVpn.Sanity.Kernel
import ShadowVpn.Spec.Client

/-! What each part of the client's handling of an assignment leaves: the address that the proxy
and the installer are built with, the prefixes of the guard, and the flags. -/

namespace ShadowVpn

open Lib

/-! The address inside the parts. -/

@[simp] theorem addRoute_tunIp (kernel : RouteCall → Bool) (s : Tunnelling) (ip : Ipv4Addr) :
    (s.addRoute kernel ip).1.router.tunIp = s.router.tunIp := by
  unfold Tunnelling.addRoute TunRouter.record
  split_ifs <;> rfl

theorem routeUpstream_tunIp {kernel : RouteCall → Bool} {cfg : PolicyConfig} {s s' : Tunnelling}
    (h : routeUpstream kernel cfg s = some s') : s'.router.tunIp = s.router.tunIp := by
  unfold routeUpstream at h
  split_ifs at h
  · split at h
    · dsimp only at h
      split_ifs at h
      cases h
      exact addRoute_tunIp kernel s _
    · cases h
      rfl
  · cases h
    rfl

/-- A proxy that routes and asks from the address. -/
structure PolicyHandle.BuiltWith (h : PolicyHandle) (tunIp : Ipv4Addr) : Prop where
  router : h.router.tunIp = tunIp
  resolver : h.resolver.tunnelSrc = .v4 tunIp

theorem spawn_builtWith {o : Outside} {cfg : PolicyConfig} {tunIp : Ipv4Addr}
    {serverIp directSrc : IpAddr} {table table' : RouteTable} {h : PolicyHandle}
    (hspawn : spawn o cfg tunIp serverIp directSrc table = some (h, table')) :
    h.BuiltWith tunIp := by
  unfold spawn at hspawn
  split at hspawn
  · cases hspawn
  split at hspawn
  · cases hspawn
  split at hspawn
  · cases hspawn
  dsimp only at hspawn
  split at hspawn
  · cases hspawn
  rename_i s hroute
  split_ifs at hspawn
  cases hspawn
  refine ⟨?_, rfl⟩
  have hloop : (o.attract.foldl (fun s ip => (s.addRoute o.kernel ip).1) s).router.tunIp =
      s.router.tunIp :=
    foldl_frame (fun s : Tunnelling => s.router.tunIp) (fun s ip _ => addRoute_tunIp _ s ip) s
  rw [hloop, routeUpstream_tunIp hroute]
  cases serverIp <;> rfl

theorem RouteInstaller.install_tunIp (kernel : RouteCall → Bool) (ri : RouteInstaller)
    (net : IpNetwork) : (ri.install kernel net).tunIp = ri.tunIp := by
  unfold RouteInstaller.install
  split_ifs <;> rfl

theorem installing_apply_tunIp (kernel : RouteCall → Bool) (order : IterOrder IpNetwork Unit)
    (s : Installing) (pushed : List IpNetwork) :
    (s.apply kernel order pushed).installer.tunIp = s.installer.tunIp := by
  have hinstall : ∀ (s : Installing) (net : IpNetwork),
      (s.install kernel net).installer.tunIp = s.installer.tunIp := by
    intro s net
    unfold Installing.install
    split_ifs
    · rfl
    · exact RouteInstaller.install_tunIp kernel s.installer net
  unfold Installing.apply
  dsimp only
  rw [foldl_frame (f := Installing.uninstall kernel) (fun s : Installing => s.installer.tunIp)
      (fun _ _ _ => rfl),
    foldl_frame (f := Installing.install kernel) (fun s : Installing => s.installer.tunIp)
      (fun s net _ => hinstall s net)]

/-- The guard tracks the networks of the tunnel and nothing else. -/
structure SubnetRouteGuard.Tracks (g : SubnetRouteGuard) (tun : TunConfig) : Prop where
  v4 : ∃ net, Cidr.withMask tun.ip tun.netmask = some net ∧
    g.v4 = some ⟨.v4 net.network, net.prefixLen⟩
  v6 : g.v6 = tun.ip6.map fun net => ⟨.v6 net.network, net.prefixLen⟩

namespace ClientRun

variable {s s' : ClientRun} {o : Outside} {serverIp directSrc : IpAddr} {ip : Ipv4Addr}

/-! What is built. -/

/-- The proxy and the installer, if they run, are built with the address. -/
structure BuiltWith (s : ClientRun) (ip : Ipv4Addr) : Prop where
  policy : ∀ h, s.policyHandle = some h → h.BuiltWith ip
  installer : ∀ i, s.installer = some i → i.tunIp = ip

theorem BuiltWith.of_eq (h : s.BuiltWith ip) (hp : s'.policyHandle = s.policyHandle)
    (hi : s'.installer = s.installer) : s'.BuiltWith ip :=
  ⟨fun handle hh => h.policy handle (hp ▸ hh), fun i hh => h.installer i (hi ▸ hh)⟩

theorem builtWith_of_none (hp : s.policyHandle = none) (hi : s.installer = none) :
    s.BuiltWith ip := by
  refine ⟨?_, ?_⟩
  · intro h hh
    rw [hp] at hh
    cases hh
  · intro i hh
    rw [hi] at hh
    cases hh

/-- What starting, stopping and saving leave alone. -/
structure Frame (s s' : ClientRun) : Prop where
  cfg : s'.cfg = s.cfg
  guard : s'.subnetGuard = s.subnetGuard
  assignedOk : s'.assignedOk = s.assignedOk
  gotOk : s'.gotOk = s.gotOk

theorem Frame.refl (s : ClientRun) : Frame s s := ⟨rfl, rfl, rfl, rfl⟩

theorem Frame.trans {a b c : ClientRun} (h : Frame a b) (h' : Frame b c) : Frame a c :=
  ⟨h'.cfg.trans h.cfg, h'.guard.trans h.guard, h'.assignedOk.trans h.assignedOk,
    h'.gotOk.trans h.gotOk⟩

theorem startPolicy_spec (h : s.startPolicy serverIp directSrc o = .ok s')
    (hb : s.BuiltWith s.cfg.tun.ip) :
    Frame s s' ∧ s'.installer = s.installer ∧ s'.BuiltWith s.cfg.tun.ip := by
  unfold startPolicy at h
  split_ifs at h
  · split at h
    · cases h
    · rename_i handle table hspawn
      cases h
      refine ⟨⟨rfl, rfl, rfl, rfl⟩, rfl, ?_, hb.installer⟩
      rintro h ⟨⟩
      exact spawn_builtWith hspawn
  · cases h
    exact ⟨.refl s, rfl, hb⟩

theorem startInstaller_spec (h : s.startInstaller serverIp o = .ok s')
    (hb : s.BuiltWith s.cfg.tun.ip) (ha : s.installer.isSome = true → s.cfg.acceptRoutes = true) :
    Frame s s' ∧ s'.BuiltWith s.cfg.tun.ip ∧
      (s'.installer.isSome = true → s.cfg.acceptRoutes = true) := by
  unfold startInstaller at h
  split_ifs at h with haccept
  · split at h
    · cases h
    · cases h
      refine ⟨⟨rfl, rfl, rfl, rfl⟩, ⟨hb.policy, ?_⟩, fun _ => (Bool.and_eq_true_iff.1 haccept).1⟩
      rintro i ⟨⟩
      rfl
  · cases h
    exact ⟨.refl s, hb, ha⟩

theorem startPolicyAndInstaller_spec (h : s.startPolicyAndInstaller serverIp directSrc o = .ok s')
    (hb : s.BuiltWith s.cfg.tun.ip) (ha : s.installer.isSome = true → s.cfg.acceptRoutes = true) :
    Frame s s' ∧ s'.BuiltWith s.cfg.tun.ip ∧
      (s'.installer.isSome = true → s.cfg.acceptRoutes = true) := by
  obtain ⟨t, ht, h⟩ := bind_eq_ok.1 h
  obtain ⟨hframe, hsame, hbt⟩ := startPolicy_spec ht hb
  rw [← hframe.cfg] at hbt
  rw [← hsame, ← hframe.cfg] at ha
  obtain ⟨hframe', hb', ha'⟩ := startInstaller_spec h hbt ha
  rw [hframe.cfg] at hb' ha'
  exact ⟨hframe.trans hframe', hb', ha'⟩

/-! What is stopped. -/

theorem shutdownPolicy_spec (o : Outside) (s : ClientRun) :
    Frame s (s.shutdownPolicy o) ∧ (s.shutdownPolicy o).policyHandle = none ∧
      (s.shutdownPolicy o).installer = s.installer := by
  unfold shutdownPolicy
  cases s.policyHandle with
  | none => exact ⟨⟨rfl, rfl, rfl, rfl⟩, rfl, rfl⟩
  | some old => exact ⟨⟨rfl, rfl, rfl, rfl⟩, rfl, rfl⟩

theorem shutdownInstaller_spec (o : Outside)
    (ha : s.installer.isSome = true → s.cfg.acceptRoutes = true) :
    Frame s (s.shutdownInstaller o) ∧ (s.shutdownInstaller o).policyHandle = s.policyHandle ∧
      (s.shutdownInstaller o).installer = none := by
  unfold shutdownInstaller
  split_ifs with haccept
  · cases hold : s.installer with
    | none => exact ⟨.refl s, rfl, hold⟩
    | some old => exact ⟨⟨rfl, rfl, rfl, rfl⟩, rfl, rfl⟩
  · refine ⟨.refl s, rfl, ?_⟩
    cases hold : s.installer with
    | none => rfl
    | some old => exact absurd (ha (by rw [hold]; rfl)) haccept

/-! What is kept in step. -/

/-- The guard with the prefixes of an assignment. -/
structure Guarded (s s' : ClientRun) (tun : TunConfig) : Prop where
  cfg : s'.cfg = s.cfg
  policyHandle : s'.policyHandle = s.policyHandle
  installer : s'.installer = s.installer
  assignedOk : s'.assignedOk = s.assignedOk
  gotOk : s'.gotOk = s.gotOk
  guard : ∃ g, s'.subnetGuard = some g ∧ g.Tracks tun

theorem applyGuard_spec {message : String} {tun : TunConfig} {g : SubnetRouteGuard}
    (h : s.applyGuard o message tun.ip tun.netmask tun.ip6 g = .ok s') : Guarded s s' tun := by
  unfold applyGuard at h
  dsimp only at h
  split_ifs at h with hok
  cases h
  obtain ⟨⟨next, hnext, hv4⟩, hv6⟩ := Guarding.apply_tracks hok
  obtain ⟨net, hnet, rfl⟩ := Option.map_eq_some_iff.1 hnext
  exact ⟨rfl, rfl, rfl, rfl, rfl, _, rfl, ⟨net, hnet, hv4⟩, hv6⟩

theorem newGuard_spec {message : String} {tun : TunConfig}
    (h : s.newGuard o message tun.ip tun.netmask tun.ip6 = .ok s') : Guarded s s' tun := by
  unfold newGuard at h
  split at h
  · cases h
  · exact applyGuard_spec h

theorem refreshGuard_spec {tun : TunConfig}
    (h : s.refreshGuard o tun.ip tun.netmask tun.ip6 = .ok s') : Guarded s s' tun := by
  unfold refreshGuard at h
  split at h
  · exact applyGuard_spec h
  · exact newGuard_spec h

theorem persistAssignment_spec (o : Outside) (reply : Assign) (ip6 : Option Ipv6Network)
    (s : ClientRun) : Frame s (s.persistAssignment o reply ip6) ∧
      (s.persistAssignment o reply ip6).policyHandle = s.policyHandle ∧
      (s.persistAssignment o reply ip6).installer = s.installer := by
  unfold persistAssignment
  split_ifs
  · exact ⟨⟨rfl, rfl, rfl, rfl⟩, rfl, rfl⟩
  · exact ⟨.refl s, rfl, rfl⟩

theorem markOk_eq (firstOk : Bool) (s : ClientRun) : s.markOk firstOk =
    { s with
      assignedOk := firstOk || s.assignedOk
      gotOk := firstOk || s.gotOk
      assignRetry := !firstOk && s.assignRetry
      keepTick := firstOk || s.keepTick } := by
  cases firstOk <;> rfl

theorem hint_spec (s : ClientRun) : Frame s s.hint ∧ s.hint.policyHandle = s.policyHandle ∧
    s.hint.installer = s.installer := by
  unfold hint
  split_ifs
  · exact ⟨⟨rfl, rfl, rfl, rfl⟩, rfl, rfl⟩
  · exact ⟨.refl s, rfl, rfl⟩

end ClientRun

end ShadowVpn
