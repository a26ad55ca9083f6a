import ShadowVpn.Proofs.Mesh
import ShadowVpn.Sanity.Kernel

/-! The client's trackers against the kernel's route table, over whole runs: what the
installer of pushed subnets, the guard of the tunnel's subnet and the router of single
addresses remember of the routes that they put there. -/

namespace ShadowVpn

open Lib

/-! Pushed subnets. -/

namespace Installing

variable {serverIp : IpAddr} {s : Installing} {order : IterOrder IpNetwork Unit}
  {pushed : List IpNetwork} {kernel : RouteCall → Bool}

/-- What pushes keep, whatever the kernel refuses. -/
structure Sound (serverIp : IpAddr) (s : Installing) : Prop where
  server : s.installer.serverIp = serverIp
  canonical : ∀ net, s.installer.installed.get net = some () → canonical net = net
  safe : s.installer.Safe
  present : ∀ net, s.installer.installed.get net = some () →
    s.table.get (s.installer.key net) = some ()

theorem sound_new (ifindex : UInt32) (tunIp : Ipv4Addr) (serverIp : IpAddr) :
    Sound serverIp (new ifindex tunIp serverIp) := by
  refine ⟨rfl, ?_, ?_, ?_⟩ <;>
  · intro net hnet
    cases hnet

theorem Sound.apply (h : Sound serverIp s) : Sound serverIp (s.apply kernel order pushed) := by
  have hcanon : ∀ net ∈ pushed.map ShadowVpn.canonical, ShadowVpn.canonical net = net := by
    intro net hnet
    obtain ⟨n, -, rfl⟩ := List.mem_map.1 hnet
    exact canonical_idem n
  refine ⟨?_, ?_, ?_, ?_⟩
  · rw [apply_installer, RouteInstaller.apply_serverIp]
    exact h.server
  · intro net hnet
    rw [apply_installer, RouteInstaller.apply_get] at hnet
    exact hcanon net hnet.1
  · rw [apply_installer]
    exact h.safe.step (.apply kernel order pushed)
  · intro net hnet
    rw [apply_installer, RouteInstaller.apply_get] at hnet
    obtain ⟨hmem, hwhy⟩ := hnet
    rw [apply_installer, RouteInstaller.apply_key, apply_table]
    refine ⟨?_, ?_⟩
    · by_cases hold : s.installer.installed.get net = some ()
      · exact Or.inl (h.present net hold)
      · obtain ⟨hsafe, hkernel⟩ := hwhy.resolve_left hold
        exact Or.inr ⟨net, hmem, hold, hsafe, hkernel, rfl⟩
    · -- a withdrawn network has a route of its own
      intro m hm hgone _ hkey
      exact hgone (RouteInstaller.key_injective (h.canonical m hm) (hcanon net hmem) hkey ▸ hmem)

theorem Sound.removeAll (h : Sound serverIp s) : Sound serverIp (s.removeAll kernel order) := by
  refine ⟨?_, ?_, ?_, ?_⟩
  · rw [removeAll_installer]
    exact h.server
  all_goals
    intro net hnet
    rw [removeAll_installer] at hnet
    cases hnet

theorem Sound.clear (h : Sound serverIp s) : Sound serverIp { s with calls := [] } :=
  ⟨h.server, h.canonical, h.safe, h.present⟩

theorem Sound.step (h : Sound serverIp s) {e : Event} {s' : Installing} {calls : List RouteCall}
    (hs : s.step e = .ok (s', calls)) : Sound serverIp s' := by
  cases e with
  | apply kernel order pushed =>
    cases hs
    exact h.clear.apply
  | removeAll kernel order =>
    cases hs
    exact h.clear.removeAll

theorem Sound.step_calls (h : Sound serverIp s) {e : Event} {s' : Installing}
    {calls : List RouteCall} (hs : s.step e = .ok (s', calls)) {c : RouteCall} (hc : c ∈ calls)
    (hadd : c.add = true) :
    ∃ net, ShadowVpn.canonical net = net ∧ c = s.installer.routeCall true net ∧
      SubnetTable.contains net serverIp = false := by
  cases e with
  | apply kernel order pushed =>
    cases hs
    rcases apply_calls _ |>.1 hc with hnil | ⟨net, hmem, -, hsafe, rfl⟩ | ⟨net, -, -, rfl⟩
    · cases hnil
    · obtain ⟨n, -, rfl⟩ := List.mem_map.1 hmem
      exact ⟨_, canonical_idem n, rfl, h.server ▸ hsafe⟩
    · rw [RouteInstaller.routeCall_add] at hadd
      cases hadd
  | removeAll kernel order =>
    cases hs
    rcases removeAll_calls _ |>.1 hc with hnil | ⟨net, -, rfl⟩
    · cases hnil
    · rw [RouteInstaller.routeCall_add] at hadd
      cases hadd

/-- A push that the kernel takes in full leaves exactly its networks, without those that
cover the server. -/
theorem Sound.apply_taken (h : Sound serverIp s)
    (hall : ∀ c ∈ (s.apply kernel order pushed).calls, kernel c = true) (net : IpNetwork) :
    (s.apply kernel order pushed).installer.installed.get net = some () ↔
      net ∈ pushed.map ShadowVpn.canonical ∧ SubnetTable.contains net serverIp = false := by
  rw [apply_installer, RouteInstaller.apply_get]
  refine and_congr_right fun hmem => ?_
  by_cases hold : s.installer.installed.get net = some ()
  · have hsafe : SubnetTable.contains net serverIp = false := h.server ▸ h.safe net hold
    simp only [hold, hsafe, true_or]
  · simp only [hold, false_or, h.server]
    refine ⟨And.left, ?_⟩
    intro hsafe
    refine ⟨hsafe, hall _ ((apply_calls s).2 (Or.inr (Or.inl ⟨net, hmem, hold, ?_, rfl⟩)))⟩
    rw [h.server]
    exact hsafe

theorem apply_calls_nil (hserver : s.installer.serverIp = serverIp) (hcalls : s.calls = [])
    (hinst : ∀ net, s.installer.installed.get net = some () ↔
      net ∈ pushed.map ShadowVpn.canonical ∧ SubnetTable.contains net serverIp = false) :
    (s.apply kernel order pushed).calls = [] := by
  refine List.eq_nil_iff_forall_not_mem.2 ?_
  intro c hc
  rcases (apply_calls s).1 hc with hnil | ⟨net, hmem, hnot, hsafe, -⟩ | ⟨net, hold, hgone, -⟩
  · rw [hcalls] at hnil
    cases hnil
  · exact hnot ((hinst net).2 ⟨hmem, hserver ▸ hsafe⟩)
  · exact hgone ((hinst net).1 hold).1

end Installing

/-- Over every sequence of pushes and every pattern of failures, nothing installed or added
covers the server and what is installed is in the kernel. A push that the kernel takes in
full leaves exactly its networks, and repeating it asks the kernel for nothing. -/
theorem installer_safe_and_idempotent (ifindex : UInt32) (tunIp : Ipv4Addr) (serverIp : IpAddr)
    {es : List (Entry Installing Installing.Event (List RouteCall))} {s : Installing}
    (hrun : Run Installing.step (.new ifindex tunIp serverIp) es s) :
    (∀ net, s.installer.installed.get net = some () →
      SubnetTable.contains net serverIp = false ∧ s.table.get (s.installer.key net) = some ()) ∧
    (∀ e ∈ es, ∀ c ∈ e.out, c.add = true → ∃ net, canonical net = net ∧
      c = e.pre.installer.routeCall true net ∧ SubnetTable.contains net serverIp = false) ∧
    ∀ kernel order pushed s' calls, s.step (.apply kernel order pushed) = .ok (s', calls) →
      (∀ c ∈ calls, kernel c = true) →
        (∀ net, s'.installer.installed.get net = some () ↔
          ∃ n ∈ pushed, canonical n = net ∧ SubnetTable.contains n serverIp = false) ∧
        ∀ kernel' order', ∃ s'', s'.step (.apply kernel' order' pushed) = .ok (s'', []) := by
  have hsound : ∀ {fs t}, Run Installing.step (.new ifindex tunIp serverIp) fs t →
      Installing.Sound serverIp t := fun hr =>
    hr.invariant (fun _ _ _ _ h hs => h.step hs) (Installing.sound_new ifindex tunIp serverIp)
  refine ⟨?_, ?_, ?_⟩
  · intro net hnet
    exact ⟨(hsound hrun).server ▸ (hsound hrun).safe net hnet, (hsound hrun).present net hnet⟩
  · intro e he c hc hadd
    obtain ⟨⟨fs, hr⟩, hs⟩ := hrun.entry he
    exact (hsound hr).step_calls hs hc hadd
  · intro kernel order pushed s' calls hs hall
    have hs' := (hsound hrun).step hs
    cases hs
    have hinst := (hsound hrun).clear.apply_taken hall
    refine ⟨?_, ?_⟩
    · intro net
      rw [hinst, List.mem_map]
      refine ⟨?_, ?_⟩
      · rintro ⟨⟨n, hn, rfl⟩, hsafe⟩
        exact ⟨n, hn, rfl, contains_canonical n serverIp ▸ hsafe⟩
      · rintro ⟨n, hn, rfl, hsafe⟩
        exact ⟨⟨n, hn, rfl⟩, (contains_canonical n serverIp).trans hsafe⟩
    · intro kernel' order'
      refine ⟨_, congrArg (fun calls => Except.ok (_, calls)) ?_⟩
      exact Installing.apply_calls_nil hs'.server rfl hinst

namespace Sample

def serverIp : IpAddr := .v4 0xC6336401#32

def everything : IpNetwork := .v4 ⟨0#32, 0, by decide⟩

end Sample

/-- A push with a network written twice and with one that covers the server. -/
theorem installer_safe_and_idempotent_pushed : ∃ es s,
    Run Installing.step (.new 7 (Sample.addr 12) Sample.serverIp) es s ∧
    s.installer.installed.get (Sample.lan 1 1) = some () ∧
    s.table.get (s.installer.key (Sample.lan 1 1)) = some () ∧
    ∀ kernel' order', ∃ s' s'',
      s.step (.apply (fun _ => true) .stored [Sample.lan 2 2, Sample.everything]) =
        .ok (s', [s.installer.routeCall true (Sample.lan 2 2),
          s.installer.routeCall false (Sample.lan 1 1)]) ∧
      s'.step (.apply kernel' order' [Sample.lan 2 2, Sample.everything]) = .ok (s'', []) := by
  have hsteps : ∃ s calls s',
      (Installing.new 7 (Sample.addr 12) Sample.serverIp).step (.apply (fun _ => true) .stored
        [Sample.lan 1 1, Sample.everything]) = .ok (s, calls) ∧
      s.installer.installed.get (Sample.lan 1 1) = some () ∧
      s.step (.apply (fun _ => true) .stored [Sample.lan 2 2, Sample.everything]) =
        .ok (s', [s.installer.routeCall true (Sample.lan 2 2),
          s.installer.routeCall false (Sample.lan 1 1)]) :=
    ⟨_, _, _, rfl, by decide +kernel, rfl⟩
  obtain ⟨s, calls, s', h1, hinst, h2⟩ := hsteps
  obtain ⟨hpresent, -, hnext⟩ := installer_safe_and_idempotent 7 (Sample.addr 12) Sample.serverIp
    (Run.single h1)
  refine ⟨_, s, Run.single h1, hinst, (hpresent _ hinst).2, ?_⟩
  intro kernel' order'
  obtain ⟨s'', h3⟩ := (hnext _ _ _ s' _ h2 (fun _ _ => rfl)).2 kernel' order'
  exact ⟨s', s'', h2, h3⟩

namespace Installing

variable {serverIp : IpAddr} {s : Installing}

def Remembers (s : Installing) : Prop :=
  ∀ net, canonical net = net → s.table.get (s.installer.key net) = some () →
    s.installer.installed.get net = some ()

def RemovalFails (s : Installing) : Event → Prop
  | .apply kernel _ pushed => ∃ net, s.installer.installed.get net = some () ∧
      net ∉ pushed.map canonical ∧ kernel (s.installer.routeCall false net) = false
  | .removeAll kernel _ => ∃ net, s.installer.installed.get net = some () ∧
      kernel (s.installer.routeCall false net) = false

theorem Sound.remembers_apply_iff (h : Sound serverIp s) (hrem : s.Remembers)
    {kernel : RouteCall → Bool} {order : IterOrder IpNetwork Unit} {pushed : List IpNetwork} :
    (s.apply kernel order pushed).Remembers ↔ ¬ s.RemovalFails (.apply kernel order pushed) := by
  simp only [Remembers, apply_installer, RouteInstaller.apply_key, apply_table,
    RouteInstaller.apply_get]
  refine ⟨?_, ?_⟩
  · rintro hall ⟨net, hold, hgone, hfail⟩
    refine hgone (hall net (h.canonical net hold) ⟨Or.inl (h.present net hold), ?_⟩).1
    intro m hm _ htaken hkey
    cases RouteInstaller.key_injective (h.canonical m hm) (h.canonical net hold) hkey
    rw [hfail] at htaken
    cases htaken
  · rintro hno net hcanon ⟨hroute, hkept⟩
    rcases hroute with hroute | ⟨m, hm, -, hsafe, htaken, hkey⟩
    · have hold := hrem net hcanon hroute
      refine ⟨?_, Or.inl hold⟩
      by_contra hgone
      have hfail : kernel (s.installer.routeCall false net) = false := by
        by_contra htaken
        exact hkept net hold hgone (Bool.not_eq_false _ ▸ htaken) rfl
      exact hno ⟨net, hold, hgone, hfail⟩
    · obtain ⟨n, -, rfl⟩ := List.mem_map.1 hm
      cases RouteInstaller.key_injective (canonical_idem n) hcanon hkey
      exact ⟨hm, Or.inr ⟨hsafe, htaken⟩⟩

theorem Sound.remembers_removeAll_iff (h : Sound serverIp s) (hrem : s.Remembers)
    {kernel : RouteCall → Bool} {order : IterOrder IpNetwork Unit} :
    (s.removeAll kernel order).Remembers ↔ ¬ s.RemovalFails (.removeAll kernel order) := by
  have hkey : ∀ net, s.installer.removeAll.key net = s.installer.key net := by
    intro net
    cases net <;> rfl
  simp only [Remembers, removeAll_installer, hkey, removeAll_table]
  refine ⟨?_, ?_⟩
  · rintro hall ⟨net, hold, hfail⟩
    have hkept : ∀ m, s.installer.installed.get m = some () →
        kernel (s.installer.routeCall false m) = true → s.installer.key m ≠ s.installer.key net := by
      intro m hm htaken hkey
      cases RouteInstaller.key_injective (h.canonical m hm) (h.canonical net hold) hkey
      rw [hfail] at htaken
      cases htaken
    cases hall net (h.canonical net hold) ⟨h.present net hold, hkept⟩
  · rintro hno net hcanon ⟨hroute, hkept⟩
    have hold := hrem net hcanon hroute
    refine absurd ⟨net, hold, ?_⟩ hno
    by_contra htaken
    exact hkept net hold (Bool.not_eq_false _ ▸ htaken) rfl

theorem Sound.remembers_step_iff (h : Sound serverIp s) (hrem : s.Remembers) {e : Event}
    {s' : Installing} {calls : List RouteCall} (hs : s.step e = .ok (s', calls)) :
    s'.Remembers ↔ ¬ s.RemovalFails e := by
  cases e with
  | apply kernel order pushed =>
    cases hs
    exact h.clear.remembers_apply_iff hrem
  | removeAll kernel order =>
    cases hs
    exact h.clear.remembers_removeAll_iff hrem

end Installing

/-- Every route of the installer in the kernel stays in its installed set, all along, exactly
when the kernel takes every removal. -/
theorem installer_remembers_iff (ifindex : UInt32) (tunIp : Ipv4Addr) (serverIp : IpAddr)
    {es : List (Entry Installing Installing.Event (List RouteCall))} {s : Installing}
    (hrun : Run Installing.step (.new ifindex tunIp serverIp) es s) :
    (∀ e ∈ es, ¬ e.pre.RemovalFails e.input) ↔ ∀ e ∈ es, e.post.Remembers := by
  refine hrun.forall_iff (I := Installing.Sound serverIp) (fun _ _ _ _ h hs => h.step hs)
    (fun _ _ _ _ h hrem hs => h.remembers_step_iff hrem hs)
    (Installing.sound_new ifindex tunIp serverIp) ?_
  intro net _ hnet
  cases hnet

theorem installer_remembers_iff_withdrawn : ∃ es s,
    Run Installing.step (.new 7 (Sample.addr 12) Sample.serverIp) es s ∧ es.length = 2 ∧
      ∀ e ∈ es, e.post.Remembers := by
  have hsteps : ∃ s calls s' calls',
      (Installing.new 7 (Sample.addr 12) Sample.serverIp).step (.apply (fun _ => true) .stored
        [Sample.lan 1 1]) = .ok (s, calls) ∧
      s.step (.apply (fun _ => true) .stored []) = .ok (s', calls') :=
    ⟨_, _, _, _, rfl, rfl⟩
  obtain ⟨s, calls, s', calls', h1, h2⟩ := hsteps
  have hrun := (Run.single h1).snoc h2
  refine ⟨_, s', hrun, rfl, (installer_remembers_iff 7 (Sample.addr 12) Sample.serverIp hrun).1 ?_⟩
  simp only [List.forall_mem_append, List.forall_mem_singleton]
  refine ⟨?_, ?_⟩
  · rintro ⟨net, -, -, hfail⟩
    cases hfail
  · rintro ⟨net, -, -, hfail⟩
    cases hfail

/-- A network is withdrawn and the kernel refuses to remove its route. -/
theorem installer_forgets : ∃ es s,
    Run Installing.step (.new 7 (Sample.addr 12) Sample.serverIp) es s ∧
      s.table.get (s.installer.key (Sample.lan 1 1)) = some () ∧
      s.installer.installed.get (Sample.lan 1 1) = none := by
  have hsteps : ∃ s calls s' calls',
      (Installing.new 7 (Sample.addr 12) Sample.serverIp).step (.apply (fun _ => true) .stored
        [Sample.lan 1 1]) = .ok (s, calls) ∧
      s.step (.apply RouteCall.add .stored []) = .ok (s', calls') ∧
      s'.table.get (s'.installer.key (Sample.lan 1 1)) = some () ∧
      s'.installer.installed.get (Sample.lan 1 1) = none :=
    ⟨_, _, _, _, rfl, rfl, by decide +kernel, by decide +kernel⟩
  obtain ⟨s, calls, s', calls', h1, h2, hroute, hgone⟩ := hsteps
  exact ⟨_, s', (Run.single h1).snoc h2, hroute, hgone⟩

/-! The tunnel's own subnet. -/

namespace TunRoutes

variable {s : TunRoutes}

def Connected (s : TunRoutes) : Prop :=
  ∀ p, s.guard.v4 = some p ∨ s.guard.v6 = some p → s.table.get (s.guard.key p) = some ()

/-- A push withdraws an installed network whose route is that of a tracked prefix, and the
kernel removes it. -/
def WithdrawsTracked (s : TunRoutes) : Event → Prop
  | .assign _ _ _ _ => False
  | .push kernel _ pushed => ∃ p net, (s.guard.v4 = some p ∨ s.guard.v6 = some p) ∧
      s.installer.installed.get net = some () ∧ net ∉ pushed.map canonical ∧
      kernel (s.installer.routeCall false net) = true ∧ s.installer.key net = s.guard.key p

theorem connected_iff_present : s.Connected ↔ (⟨s.guard, s.table⟩ : Guarding).Present := by
  refine ⟨?_, ?_⟩
  · intro h b p hp
    cases b with
    | true => exact h p (Or.inl hp)
    | false => exact h p (Or.inr hp)
  · rintro h p (hp | hp)
    · exact h true p hp
    · exact h false p hp

theorem byFamily_step (h : s.guard.ByFamily) {e : Event} {s' : TunRoutes} {ok : Bool}
    (hs : s.step e = .ok (s', ok)) : s'.guard.ByFamily := by
  cases e with
  | assign kernel assignedIp netmask ip6 =>
    cases hs
    exact (Guarding.apply_kept ⟨s.guard, s.table⟩ assignedIp netmask ip6 h).1
  | push kernel order pushed =>
    cases hs
    exact h

theorem connected_step_iff (h : s.guard.ByFamily) (hconn : s.Connected) {e : Event}
    {s' : TunRoutes} {ok : Bool} (hs : s.step e = .ok (s', ok)) :
    s'.Connected ↔ ¬ s.WithdrawsTracked e := by
  cases e with
  | assign kernel assignedIp netmask ip6 =>
    cases hs
    refine iff_of_true ?_ id
    exact connected_iff_present.2 ((Guarding.apply_kept ⟨s.guard, s.table⟩ assignedIp netmask ip6 h).2
      (connected_iff_present.1 hconn))
  | push kernel order pushed =>
    cases hs
    simp only [Connected, WithdrawsTracked, Installing.apply_table]
    refine ⟨?_, ?_⟩
    · rintro hall ⟨p, net, hp, hold, hgone, htaken, hkey⟩
      exact (hall p hp).2 net hold hgone htaken hkey
    · intro hno p hp
      refine ⟨Or.inl (hconn p hp), ?_⟩
      intro net hold hgone htaken hkey
      exact hno ⟨p, net, hp, hold, hgone, htaken, hkey⟩

end TunRoutes

/-- The routes of the guard's prefixes are in the kernel all along exactly when no push
withdraws an installed network that is one of them. -/
theorem subnet_route_kept_iff (ifindex : UInt32) (tunIp : Ipv4Addr) (serverIp : IpAddr)
    {es : List (Entry TunRoutes TunRoutes.Event Bool)} {s : TunRoutes}
    (hrun : Run TunRoutes.step (.new ifindex tunIp serverIp) es s) :
    (∀ e ∈ es, ¬ e.pre.WithdrawsTracked e.input) ↔ ∀ e ∈ es, e.post.Connected := by
  refine hrun.forall_iff (I := fun s => s.guard.ByFamily)
    (fun _ _ _ _ h hs => TunRoutes.byFamily_step h hs)
    (fun _ _ _ _ h hconn hs => TunRoutes.connected_step_iff h hconn hs) ?_ ?_
  · intro b p hp
    cases b <;> cases hp
  · rintro p (hp | hp) <;> cases hp

theorem subnet_route_kept_iff_other : ∃ es s,
    Run TunRoutes.step (.new 7 (Sample.addr 12) Sample.serverIp) es s ∧ es.length = 3 ∧
      s.guard.v4 = some ⟨.v4 0x0A090000#32, 24⟩ ∧ ∀ e ∈ es, e.post.Connected := by
  have hsteps : ∃ s₁ s₂ s₃,
      (TunRoutes.new 7 (Sample.addr 12) Sample.serverIp).step (.assign (fun _ => true) 0x0A090002#32
        0xFFFFFF00#32 none) = .ok (s₁, true) ∧
      s₁.step (.push (fun _ => true) .stored [Sample.lan 1 1]) = .ok (s₂, true) ∧
      s₂.step (.push (fun _ => true) .stored []) = .ok (s₃, true) ∧
      s₃.guard.v4 = some ⟨.v4 0x0A090000#32, 24⟩ ∧ s₂.guard = s₃.guard ∧ s₃.guard.v6 = none ∧
      s₁.installer.installed = ∅ ∧
      s₂.installer.installed = (∅ : HashSet IpNetwork).insert (Sample.lan 1 1) () ∧
      s₂.installer.key (Sample.lan 1 1) ≠ s₃.guard.key ⟨.v4 0x0A090000#32, 24⟩ :=
    ⟨_, _, _, rfl, rfl, rfl, by decide +kernel, rfl, by decide +kernel, rfl, rfl, by decide +kernel⟩
  obtain ⟨s₁, s₂, s₃, h1, h2, h3, hv4, hguard, hv6, hnone, hone, hkey⟩ := hsteps
  have hrun := ((Run.single h1).snoc h2).snoc h3
  refine ⟨_, s₃, hrun, rfl, hv4, (subnet_route_kept_iff 7 (Sample.addr 12) Sample.serverIp hrun).1 ?_⟩
  simp only [List.forall_mem_append, List.forall_mem_singleton]
  refine ⟨⟨id, ?_⟩, ?_⟩
  · rintro ⟨p, net, -, hold, -⟩
    rw [hnone] at hold
    cases hold
  · rintro ⟨p, net, hp, hold, -, -, heq⟩
    rw [hone, get_insert_unit] at hold
    rw [hguard, hv4, hv6] at hp
    rcases hold with rfl | hold
    · rcases hp with hp | hp
      · cases hp
        exact hkey (hguard ▸ heq)
      · cases hp
    · cases hold

/-- The tunnel's own subnet is pushed and withdrawn. -/
theorem subnet_route_lost : ∃ es s,
    Run TunRoutes.step (.new 7 (Sample.addr 12) Sample.serverIp) es s ∧
      s.guard.v4 = some ⟨.v4 0x0A090000#32, 24⟩ ∧
      s.table.get (s.guard.key ⟨.v4 0x0A090000#32, 24⟩) = none := by
  have hsteps : ∃ s₁ s₂ s₃,
      (TunRoutes.new 7 (Sample.addr 12) Sample.serverIp).step (.assign (fun _ => true) 0x0A090002#32
        0xFFFFFF00#32 none) = .ok (s₁, true) ∧
      s₁.step (.push (fun _ => true) .stored [Sample.lan 9 0]) = .ok (s₂, true) ∧
      s₂.step (.push (fun _ => true) .stored []) = .ok (s₃, true) ∧
      s₃.guard.v4 = some ⟨.v4 0x0A090000#32, 24⟩ ∧
      s₃.table.get (s₃.guard.key ⟨.v4 0x0A090000#32, 24⟩) = none :=
    ⟨_, _, _, rfl, rfl, rfl, by decide +kernel, by decide +kernel⟩
  obtain ⟨s₁, s₂, s₃, h1, h2, h3, hv4, hlost⟩ := hsteps
  exact ⟨_, s₃, ((Run.single h1).snoc h2).snoc h3, hv4, hlost⟩

namespace Guarding

def new (ifindex : UInt32) : Guarding := ⟨.new ifindex, ∅⟩

/-- What every state of a guard is: its fields hold prefixes of their families, whose routes are
there. -/
structure Sound (s : Guarding) : Prop where
  byFamily : s.guard.ByFamily
  present : s.Present

theorem sound_new (ifindex : UInt32) : (new ifindex).Sound := by
  refine ⟨?_, ?_⟩ <;>
  · intro b p hp
    cases b <;> cases hp

variable {s s' : Guarding} {a : Assign} {ok : Bool}

theorem apply_of_step (hs : s.step a = .ok (s', ok)) :
    (s.apply a.kernel a.assignedIp a.netmask a.ip6).1 = s' :=
  congrArg Prod.fst (Except.ok.inj hs)

theorem Sound.step (h : s.Sound) (hs : s.step a = .ok (s', ok)) : s'.Sound := by
  obtain rfl := apply_of_step hs
  obtain ⟨hfam, hpresent⟩ := apply_kept s a.assignedIp a.netmask a.ip6 h.byFamily
  exact ⟨hfam, hpresent h.present⟩

theorem Sound.releases_step_iff (h : s.Sound) (hreleases : s.Releases)
    (hs : s.step a = .ok (s', ok)) : s'.Releases ↔ ¬ (s.moved a.assignedIp).Abandons a := by
  have hsound := h.step hs
  obtain rfl := apply_of_step hs
  rw [releases_iff hsound.byFamily]
  exact (applied_apply a.kernel s a.assignedIp a.netmask a.ip6).tracked_iff h.byFamily h.present
    ((releases_iff h.byFamily).1 hreleases)

theorem releases_new (ifindex : UInt32) : (new ifindex).Releases := by
  intro p hp
  cases hp

end Guarding

/-- The guard could be dropped at any time of a run, without leaving a route behind, exactly when
no assignment gives up a prefix whose route the kernel does not delete. -/
theorem guard_releases_iff (ifindex : UInt32) {es : List (Entry Guarding Guarding.Assign Bool)}
    {s : Guarding} (hrun : Run Guarding.step (.new ifindex) es s) :
    ((∀ e ∈ es, ¬ (e.pre.moved e.input.assignedIp).Abandons e.input) ↔ ∀ e ∈ es, e.post.Releases) ∧
    ((∀ e ∈ es, ¬ (e.pre.moved e.input.assignedIp).Abandons e.input) → s.Releases) := by
  refine ⟨?_, ?_⟩
  · exact hrun.forall_iff (I := Guarding.Sound) (fun _ _ _ _ h hs => h.step hs)
      (fun _ _ _ _ h hreleases hs => h.releases_step_iff hreleases hs) (Guarding.sound_new ifindex)
      (Guarding.releases_new ifindex)
  · intro hno
    have hstep : ∀ (t : Guarding) (a : Guarding.Assign) ok t', t.Sound ∧ t.Releases → t.step a = .ok (t', ok) →
        ¬ (t.moved a.assignedIp).Abandons a → t'.Sound ∧ t'.Releases :=
      fun t a ok t' h hs hkept => ⟨h.1.step hs, (h.1.releases_step_iff h.2 hs).2 hkept⟩
    exact (hrun.forall_pre hstep ⟨Guarding.sound_new ifindex, Guarding.releases_new ifindex⟩ hno).2.2

theorem guard_releases_iff_moved : ∃ es s,
    Run Guarding.step (.new 7) es s ∧ es.length = 2 ∧ s.Releases ∧
      s.Live ⟨.v4 0x0A080000#32, 24⟩ ∧ ¬ s.Live ⟨.v4 0x0A090000#32, 24⟩ := by
  have hsteps : ∃ s₁ s₂,
      (Guarding.new 7).step ⟨fun _ => true, 0x0A090002#32, 0xFFFFFF00#32, none⟩ = .ok (s₁, true) ∧
      s₁.step ⟨fun _ => true, 0x0A080002#32, 0xFFFFFF00#32, none⟩ = .ok (s₂, true) ∧
      s₂.table.get (s₂.guard.key ⟨.v4 0x0A080000#32, 24⟩) = some () ∧
      s₂.table.get (s₂.guard.key ⟨.v4 0x0A090000#32, 24⟩) = none :=
    ⟨_, _, rfl, rfl, by decide +kernel, by decide +kernel⟩
  obtain ⟨s₁, s₂, h1, h2, hlive, hgone⟩ := hsteps
  have hrun := (Run.single h1).snoc h2
  refine ⟨_, s₂, hrun, rfl, (guard_releases_iff 7 hrun).2 ?_, hlive, get_eq_none_iff.1 hgone⟩
  have htaken : ∀ (t : Guarding) (a : Guarding.Assign), a.kernel = (fun _ => true) → ¬ t.Abandons a := by
    rintro t a ha ⟨next, -, ⟨old, -, -, hcall⟩ | ⟨-, old, -, -, hcall⟩⟩
    all_goals
      rw [ha] at hcall
      cases hcall
  simp only [List.forall_mem_append, List.forall_mem_singleton]
  exact ⟨htaken _ _ rfl, htaken _ _ rfl⟩

/-- The tunnel moves, and the kernel does not delete the old route. The guard reports success and
does not know of the route any more. -/
theorem guard_abandons : ∃ es s,
    Run Guarding.step (.new 7) es s ∧ (∀ e ∈ es, e.out = true) ∧
      s.Live ⟨.v4 0x0A090000#32, 24⟩ ∧ s.guard.v4 = some ⟨.v4 0x0A080000#32, 24⟩ ∧
      s.guard.v6 = none ∧ ∀ kernel, ∀ c ∈ (s.drop kernel).2, c.dst ≠ .v4 0x0A090000#32 := by
  have hsteps : ∃ s₁ s₂,
      (Guarding.new 7).step ⟨fun _ => true, 0x0A090002#32, 0xFFFFFF00#32, none⟩ = .ok (s₁, true) ∧
      s₁.step ⟨fun c => c.add, 0x0A080002#32, 0xFFFFFF00#32, none⟩ = .ok (s₂, true) ∧
      s₂.table.get (s₂.guard.key ⟨.v4 0x0A090000#32, 24⟩) = some () ∧
      s₂.guard.v4 = some ⟨.v4 0x0A080000#32, 24⟩ ∧ s₂.guard.v6 = none ∧
      ∀ kernel, (s₂.drop kernel).2.map RouteCall.dst = [.v4 0x0A080000#32] :=
    ⟨_, _, rfl, rfl, by decide +kernel, by decide +kernel, by decide +kernel, fun kernel => rfl⟩
  obtain ⟨s₁, s₂, h1, h2, hlive, hv4, hv6, hcalls⟩ := hsteps
  refine ⟨_, s₂, (Run.single h1).snoc h2, ?_, hlive, hv4, hv6, ?_⟩
  · simp
  · intro kernel c hc hdst
    have hmem := List.mem_map_of_mem (f := RouteCall.dst) hc
    rw [hcalls kernel, hdst] at hmem
    exact absurd hmem (by decide)

/-! Single addresses. -/

namespace Tunnelling

variable {s s' : Tunnelling} {e : Event} {o : Out}

def new (ifindex : UInt32) (tunIp : Ipv4Addr) (excluded : List Ipv4Addr) : Tunnelling :=
  ⟨excluded.foldl TunRouter.exclude (.new ifindex tunIp), ∅⟩

inductive Adds (s : Tunnelling) (e : Event) : Tunnelling → Out → Prop
  | excluded (hx : s.router.excluded.get e.ip = some ()) : Adds s e s ⟨true, []⟩
  | known (ha : s.router.added.get e.ip = some ()) : Adds s e s ⟨true, []⟩
  | call (hx : s.router.excluded.get e.ip = none) (ha : s.router.added.get e.ip = none) :
      Adds s e ⟨{ s.router with added := s.router.added.insert e.ip () },
          s.table.modify e.kernel (s.router.routeCall true e.ip)⟩
        ⟨e.kernel (s.router.routeCall true e.ip), [s.router.routeCall true e.ip]⟩

theorem adds_of_step (hs : s.step e = .ok (s', o)) : Adds s e s' o := by
  unfold step addRoute at hs
  cases hr : s.router.record e.ip with
  | none =>
    rw [hr] at hs
    cases hs
    rcases TunRouter.record_eq_none.1 hr with hx | ha
    · exact .excluded hx
    · exact .known ha
  | some router =>
    rw [hr] at hs
    obtain ⟨hx, ha, rfl⟩ := TunRouter.record_eq_some.1 hr
    cases hs
    exact .call hx ha

theorem step_excluded (hs : s.step e = .ok (s', o)) : s'.router.excluded = s.router.excluded := by
  cases adds_of_step hs with
  | excluded hx => rfl
  | known ha => rfl
  | call hx ha => rfl

/-- The address is recorded, and its route is not there. -/
def Stranded (s : Tunnelling) (ip : Ipv4Addr) : Prop :=
  s.router.excluded.get ip = none ∧ s.router.added.get ip = some () ∧
    s.table.get (s.router.key ip) = none

theorem step_honest_iff (hs : s.step e = .ok (s', o)) :
    (o.ok = true → s.router.excluded.get e.ip = none →
      s'.table.get (s'.router.key e.ip) = some ()) ↔ ¬ s.Stranded e.ip := by
  cases adds_of_step hs with
  | excluded hx => simp [Stranded, hx]
  | known ha =>
    simp only [Stranded, ha, true_and, forall_const, get_eq_none_iff, not_and, not_not]
  | call hx ha =>
    refine iff_of_true ?_ ?_
    · intro hok _
      exact (RouteTable.get_modify_add rfl).2 (Or.inr ⟨hok, rfl⟩)
    · rintro ⟨-, hadded, -⟩
      rw [ha] at hadded
      cases hadded

theorem step_calls (hs : s.step e = .ok (s', o)) {ip : Ipv4Addr}
    (hx : s.router.excluded.get ip = some ()) : ∀ c ∈ o.calls, c.dst ≠ .v4 ip := by
  cases adds_of_step hs with
  | excluded hx => simp
  | known ha => simp
  | call hnot ha =>
    rw [List.forall_mem_singleton]
    intro hdst
    cases IpAddr.v4.inj hdst
    rw [hx] at hnot
    cases hnot

end Tunnelling

/-- No call of the kernel is for an excluded address. A call of `add_route` returns `Ok` for
another address only with its route in the kernel, all along, exactly when none is made for
an address that is recorded without its route. -/
theorem added_route_installed_iff (ifindex : UInt32) (tunIp : Ipv4Addr) (excluded : List Ipv4Addr)
    {es : List (Entry Tunnelling Tunnelling.Event Tunnelling.Out)} {s : Tunnelling}
    (hrun : Run Tunnelling.step (.new ifindex tunIp excluded) es s) :
    (∀ e ∈ es, ∀ c ∈ e.out.calls, ∀ ip ∈ excluded, c.dst ≠ .v4 ip) ∧
    ((∀ e ∈ es, e.out.ok = true → e.input.ip ∉ excluded →
        e.post.table.get (e.post.router.key e.input.ip) = some ()) ↔
      ∀ e ∈ es, ¬ e.pre.Stranded e.input.ip) := by
  have hexcl : ∀ {fs t}, Run Tunnelling.step (.new ifindex tunIp excluded) fs t → ∀ ip,
      t.router.excluded.get ip = some () ↔ ip ∈ excluded := by
    intro fs t hr ip
    have hsame : t.router.excluded = (Tunnelling.new ifindex tunIp excluded).router.excluded :=
      hr.invariant (I := fun t => t.router.excluded =
          (Tunnelling.new ifindex tunIp excluded).router.excluded)
        (fun _ _ _ _ h hs => (Tunnelling.step_excluded hs).trans h) rfl
    rw [hsame]
    exact (TunRouter.foldl_exclude_get excluded _).trans (by simp [TunRouter.new])
  refine ⟨?_, forall₂_congr fun e he => ?_⟩
  · intro e he c hc ip hip
    obtain ⟨⟨fs, hr⟩, hs⟩ := hrun.entry he
    exact Tunnelling.step_calls hs ((hexcl hr ip).2 hip) c hc
  · obtain ⟨⟨fs, hr⟩, hs⟩ := hrun.entry he
    rw [← Tunnelling.step_honest_iff hs, ← hexcl hr, get_eq_none_iff]

theorem added_route_installed_iff_two : ∃ es s,
    Run Tunnelling.step (.new 7 (Sample.addr 12) [0xC6336401#32]) es s ∧ es.length = 2 ∧
      (∀ e ∈ es, ∀ c ∈ e.out.calls, c.dst ≠ .v4 0xC6336401#32) ∧
      ∀ e ∈ es, ¬ e.pre.Stranded e.input.ip := by
  have hsteps : ∃ s₁ s₂ o₁ o₂,
      (Tunnelling.new 7 (Sample.addr 12) [0xC6336401#32]).step ⟨fun _ => true, 0xC6336401#32⟩ =
        .ok (s₁, o₁) ∧
      s₁.step ⟨fun _ => true, 0x08080808#32⟩ = .ok (s₂, o₂) ∧ o₂.ok = true ∧
      s₁.router.excluded.get 0xC6336401#32 = some () ∧
      s₂.table.get (s₂.router.key 0x08080808#32) = some () :=
    ⟨_, _, _, _, rfl, rfl, rfl, by decide +kernel, by decide +kernel⟩
  obtain ⟨s₁, s₂, o₁, o₂, h1, h2, hok, hx, hroute⟩ := hsteps
  have hrun := (Run.single h1).snoc h2
  obtain ⟨hcalls, hiff⟩ := added_route_installed_iff 7 (Sample.addr 12) [0xC6336401#32] hrun
  refine ⟨_, s₂, hrun, rfl, fun e he c hc => hcalls e he c hc _ (by simp), hiff.1 ?_⟩
  simp only [List.forall_mem_append, List.forall_mem_singleton]
  exact ⟨fun _ hnot => absurd (List.mem_singleton_self _) hnot, fun _ _ => hroute⟩

/-- The kernel refuses a route, and the second call for it returns `Ok`. -/
theorem added_route_missing : ∃ es s s',
    Run Tunnelling.step (.new 7 (Sample.addr 12) []) es s ∧
      s.step ⟨fun _ => true, 0x08080808#32⟩ = .ok (s', ⟨true, []⟩) ∧
      s'.table.get (s'.router.key 0x08080808#32) = none := by
  have hsteps : ∃ s₁ s₂ o₁,
      (Tunnelling.new 7 (Sample.addr 12) []).step ⟨fun _ => false, 0x08080808#32⟩ = .ok (s₁, o₁) ∧
      s₁.step ⟨fun _ => true, 0x08080808#32⟩ = .ok (s₂, ⟨true, []⟩) ∧
      s₂.table.get (s₂.router.key 0x08080808#32) = none :=
    ⟨_, _, _, rfl, rfl, by decide +kernel⟩
  obtain ⟨s₁, s₂, o₁, h1, h2, hnone⟩ := hsteps
  exact ⟨_, s₁, s₂, Run.single h1, h2, hnone⟩

namespace Teardown

variable {s s' : Teardown} {e : Event} {u : Unit}

def Doomed (s : Teardown) (ip : Ipv4Addr) : Prop := ∃ ips, s.drained = some ips ∧ ip ∈ ips

/-- Every route in the kernel is recorded or about to be deleted. -/
def Accounted (s : Teardown) : Prop :=
  ∀ ip, s.table.get (s.router.key ip) = some () → s.router.added.get ip = some () ∨ s.Doomed ip

/-- A route goes in that is no longer recorded and that `delete_all` is done with. -/
def Late (s : Teardown) : Event → Prop
  | .install ip => ¬ s.router.added.get ip = some () ∧ ¬ s.Doomed ip
  | _ => False

def Finished (s : Teardown) : Prop := s.pending = [] ∧ s.drained = some []

inductive Steps (s : Teardown) : Event → Teardown → Prop
  | skip (ip : Ipv4Addr) : Steps s (.record ip) s
  | record (ip : Ipv4Addr) : Steps s (.record ip)
      { s with router := { s.router with added := s.router.added.insert ip () },
               pending := ip :: s.pending }
  | install (ip : Ipv4Addr) : Steps s (.install ip)
      { s with table := s.table.modify (fun _ => true) (s.router.routeCall true ip),
               pending := s.pending.erase ip }
  | drain (order : IterOrder Ipv4Addr Unit) (hnot : s.drained = none) : Steps s (.drain order)
      { s with router := { s.router with added := ∅ }, drained := some (keysIn order s.router.added) }
  | delete {ip : Ipv4Addr} {rest : List Ipv4Addr} (hnext : s.drained = some (ip :: rest)) :
      Steps s .delete
        { s with table := s.table.modify (fun _ => true) (s.router.routeCall false ip),
                 drained := some rest }

theorem steps_of_step (hs : s.step e = .ok (s', u)) : Steps s e s' := by
  cases e with
  | record ip =>
    cases hr : s.router.record ip with
    | none =>
      simp only [step, hr] at hs
      cases hs
      exact .skip ip
    | some router =>
      simp only [step, hr] at hs
      obtain ⟨-, -, rfl⟩ := TunRouter.record_eq_some.1 hr
      cases hs
      exact .record ip
  | install ip =>
    simp only [step] at hs
    split_ifs at hs
    cases hs
    exact .install ip
  | drain order =>
    cases hd : s.drained with
    | some ips =>
      simp only [step, hd] at hs
      cases hs
    | none =>
      simp only [step, hd] at hs
      cases hs
      exact .drain order hd
  | delete =>
    cases hd : s.drained with
    | none =>
      simp only [step, hd] at hs
      cases hs
    | some ips =>
      cases ips with
      | nil =>
        simp only [step, hd] at hs
        cases hs
      | cons ip rest =>
        simp only [step, hd] at hs
        cases hs
        exact .delete hd

theorem accounted_step_iff (h : s.Accounted) (hs : s.step e = .ok (s', u)) :
    s'.Accounted ↔ ¬ s.Late e := by
  cases steps_of_step hs with
  | skip ip => exact iff_of_true h id
  | record ip =>
    refine iff_of_true ?_ id
    intro a ha
    rcases h a ha with hadded | hdoomed
    · exact Or.inl (get_insert_unit.2 (Or.inr hadded))
    · exact Or.inr hdoomed
  | install ip =>
    simp only [Accounted, Late]
    refine ⟨?_, ?_⟩
    · rintro hall ⟨hnot, hdone⟩
      rcases hall ip ((RouteTable.get_modify_add rfl).2 (Or.inr ⟨rfl, rfl⟩)) with hadded | hdoomed
      · exact hnot hadded
      · exact hdone hdoomed
    · intro hno a ha
      rcases (RouteTable.get_modify_add rfl).1 ha with hold | ⟨-, hkey⟩
      · exact h a hold
      · cases TunRouter.key_injective (r := s.router) hkey
        by_contra hneither
        exact hno (not_or.1 hneither)
  | drain order hnot =>
    refine iff_of_true ?_ id
    intro a ha
    rcases h a ha with hadded | ⟨ips, hsome, -⟩
    · exact Or.inr ⟨_, rfl, mem_keysIn.2 hadded⟩
    · rw [hnot] at hsome
      cases hsome
  | @delete ip rest hnext =>
    refine iff_of_true ?_ id
    intro a ha
    obtain ⟨hold, hother⟩ := (RouteTable.get_modify_remove rfl).1 ha
    rcases h a hold with hadded | ⟨ips, hsome, hmem⟩
    · exact Or.inl hadded
    · rw [hnext] at hsome
      cases hsome
      rcases List.mem_cons.1 hmem with rfl | hrest
      · exact absurd ⟨rfl, rfl⟩ hother
      · exact Or.inr ⟨rest, rfl, hrest⟩

/-- Taken together, the two halves are `add_route`. -/
theorem record_install {ip : Ipv4Addr} {s'' : Teardown} (hnew : ip ∉ s.pending)
    (hrec : s.step (.record ip) = .ok (s', u)) (hinst : s'.step (.install ip) = .ok (s'', u)) :
    (⟨s''.router, s''.table⟩ : Tunnelling) =
      (Tunnelling.addRoute (fun _ => true) ⟨s.router, s.table⟩ ip).1 := by
  cases hr : s.router.record ip with
  | none =>
    simp only [step, hr] at hrec
    cases hrec
    simp only [step, if_neg hnew] at hinst
    cases hinst
  | some router =>
    simp only [step, hr] at hrec
    cases hrec
    simp only [step, List.mem_cons_self, if_true] at hinst
    cases hinst
    simp only [Tunnelling.addRoute, hr]

end Teardown

/-- Every route in the kernel is recorded or about to be deleted, all along, exactly when no
`add_route` installs an address that `delete_all` has drained and deleted since it was
recorded. Once all calls have returned, every route is then recorded. -/
theorem teardown_recorded_iff (router : TunRouter)
    {es : List (Entry Teardown Teardown.Event Unit)} {s : Teardown}
    (hrun : Run Teardown.step (.new router) es s) :
    ((∀ e ∈ es, ¬ e.pre.Late e.input) ↔ ∀ e ∈ es, e.post.Accounted) ∧
    ((∀ e ∈ es, ¬ e.pre.Late e.input) → s.Finished →
      ∀ ip, s.table.get (s.router.key ip) = some () → s.router.added.get ip = some ()) := by
  have hnew : (Teardown.new router).Accounted := by
    intro ip hip
    cases hip
  have hiff := hrun.forall_iff (I := fun _ => True) (fun _ _ _ _ _ _ => trivial)
    (fun _ _ _ _ _ h hs => Teardown.accounted_step_iff h hs) trivial hnew
  refine ⟨hiff, ?_⟩
  rintro hlate ⟨-, hdone⟩ ip hip
  have hacc : s.Accounted := by
    cases hrun with
    | nil => exact hnew
    | snoc _ _ => exact hiff.1 hlate _ (List.mem_append_right _ (List.mem_singleton_self _))
  rcases hacc ip hip with hadded | ⟨ips, hsome, hmem⟩
  · exact hadded
  · rw [hdone] at hsome
    cases hsome
    cases hmem

/-- One call returns before `delete_all` begins and one begins after it. -/
theorem teardown_recorded_iff_apart : ∃ es s,
    Run Teardown.step (.new (.new 7 (Sample.addr 12))) es s ∧ es.length = 6 ∧ s.Finished ∧
      s.table.get (s.router.key 0x08080404#32) = some () ∧
      s.router.added.get 0x08080404#32 = some () := by
  have hexec : ∃ es s, exec Teardown.step (.new (.new 7 (Sample.addr 12)))
      [.record 0x08080808#32, .install 0x08080808#32, .drain .stored, .delete,
        .record 0x08080404#32, .install 0x08080404#32] = .ok (es, s) ∧ es.length = 6 ∧
      (∀ e ∈ es, ¬ e.pre.Late e.input) ∧ s.Finished ∧
      s.table.get (s.router.key 0x08080404#32) = some () := by
    refine ⟨_, _, rfl, rfl, ?_, ⟨rfl, rfl⟩, by decide +kernel⟩
    simp only [List.forall_mem_cons]
    refine ⟨id, fun h => h.1 ?_, id, id, id, fun h => h.1 ?_, List.forall_mem_nil _⟩
    · decide +kernel
    · decide +kernel
  obtain ⟨es, s, hexec, hlen, hlate, hfin, hroute⟩ := hexec
  have hrun := exec_run hexec
  exact ⟨es, s, hrun, hlen, hfin, hroute, (teardown_recorded_iff _ hrun).2 hlate hfin _ hroute⟩

/-- `delete_all` runs between the two halves of an `add_route`. -/
theorem teardown_leaves_route : ∃ es s,
    Run Teardown.step (.new (.new 7 (Sample.addr 12))) es s ∧ s.Finished ∧
      s.table.get (s.router.key 0x08080808#32) = some () ∧
      s.router.added.get 0x08080808#32 = none := by
  have hexec : ∃ es s, exec Teardown.step (.new (.new 7 (Sample.addr 12)))
      [.record 0x08080808#32, .drain .stored, .delete, .install 0x08080808#32] = .ok (es, s) ∧
      s.Finished ∧ s.table.get (s.router.key 0x08080808#32) = some () ∧
      s.router.added.get 0x08080808#32 = none :=
    ⟨_, _, rfl, ⟨rfl, rfl⟩, by decide +kernel, by decide +kernel⟩
  obtain ⟨es, s, hexec, hrest⟩ := hexec
  exact ⟨es, s, exec_run hexec, hrest⟩

end ShadowVpn
