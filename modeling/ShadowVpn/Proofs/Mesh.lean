import ShadowVpn.Proofs.Leases
import ShadowVpn.Sanity.Kernel
import ShadowVpn.Sanity.Subnets

/-! Subnet routes over whole runs: adverts reconcile the server's table, lookups take the
longest approved match, and a push brings a client's installed routes to the table's. -/

namespace ShadowVpn

open Lib

/-! Reconciliation. -/

/-- In every table that adverts and expiry build, networks are canonical and distinct, and
the next advert reports exactly what it changes. -/
theorem subnet_reconciliation (P : Platform) (ops : List SubnetTable.Op) :
    (SubnetTable.run P ops).Valid ∧ ∀ peer nets approval now,
      (SubnetTable.run P ops).Reconciled P peer nets approval now
        ((SubnetTable.run P ops).advertise P peer nets approval now).1
        ((SubnetTable.run P ops).advertise P peer nets approval now).2 := by
  have hvalid := SubnetTable.valid_run P ops
  refine ⟨hvalid, ?_⟩
  intro peer nets approval now
  exact SubnetTable.reconciled_advertise hvalid

/-! Lookups. -/

namespace Learned

structure RoutesLongest (l : Learned) (dst : IpAddr) (now : Instant) (ttl : Duration) : Prop where
  client : ∀ e, l.clients.get dst = some e → now - e.lastSeen ≤ ttl →
    l.lookup dst now ttl = some e.peer
  subnet : (∀ e, l.clients.get dst = some e → ttl < now - e.lastSeen) →
    ∀ p, l.lookup dst now ttl = some p ↔ ∃ r, SubnetTable.Best dst l.subnets r ∧ r.peer = p
  unrouted : (∀ e, l.clients.get dst = some e → ttl < now - e.lastSeen) →
    (l.lookup dst now ttl = none ↔ ∀ r, ¬ SubnetTable.Matches dst l.subnets r)
  unique : (∃ r, SubnetTable.Matches dst l.subnets r) → ∃! r, SubnetTable.Best dst l.subnets r
  order : ∀ routes, routes.Perm l.subnets.routes →
    Learned.lookup { l with subnets := ⟨routes⟩ } dst now ttl = l.lookup dst now ttl
  unapproved : Learned.lookup { l with subnets := ⟨l.subnets.routes.filter SubnetRoute.approved⟩ }
    dst now ttl = l.lookup dst now ttl

theorem lookup_client {l : Learned} {dst : IpAddr} {now : Instant} {ttl : Duration}
    {e : ClientEntry} (he : l.clients.get dst = some e) (hlive : now - e.lastSeen ≤ ttl) :
    l.lookup dst now ttl = some e.peer := by
  have hl : live e now ttl = true := decide_eq_true hlive
  simp [lookup, he, hl]

theorem lookup_subnet {l : Learned} {dst : IpAddr} {now : Instant} {ttl : Duration}
    (hdead : ∀ e, l.clients.get dst = some e → ttl < now - e.lastSeen) :
    l.lookup dst now ttl = l.subnets.lookup dst := by
  unfold lookup
  cases he : l.clients.get dst with
  | none => rfl
  | some e =>
    have hl : ¬ live e now ttl = true := by
      intro hlive
      exact absurd (of_decide_eq_true hlive) (Nat.not_le.2 (hdead e he))
    simp [hl]

theorem routesLongest {l : Learned} (h : l.subnets.Valid) (dst : IpAddr) (now : Instant)
    (ttl : Duration) : RoutesLongest l dst now ttl := by
  refine ⟨fun e he hlive => lookup_client he hlive, ?_, ?_, ?_, ?_, ?_⟩
  · intro hdead p
    rw [lookup_subnet hdead]
    exact h.lookup_eq_some
  · intro hdead
    rw [lookup_subnet hdead]
    exact h.lookup_eq_none
  · intro hex
    obtain ⟨r, hr⟩ := SubnetTable.exists_best hex
    refine ⟨r, hr, ?_⟩
    intro r' hr'
    have hle := hr.longest r' hr'.toMatches
    have hge := hr'.longest r hr.toMatches
    exact h.best_unique hr hr'.toMatches (by omega)
  · intro routes hperm
    unfold lookup
    simp only [h.lookup_perm hperm]
  · unfold lookup
    simp only [SubnetTable.lookup_approved]

end Learned

/-- Longest-prefix routing in every state that the calls on the learned state build, and
the split-horizon set of each peer. -/
theorem longest_prefix_routing (P : Platform) (ops : List Learned.Op) :
    (∀ dst now ttl, (Learned.run P ops).RoutesLongest dst now ttl) ∧
      ∀ p, ((Learned.run P ops).subnets.routesFor p).Nodup ∧
        (∀ net, net ∈ (Learned.run P ops).subnets.routesFor p ↔
          ∃ r ∈ (Learned.run P ops).subnets.routes, r.net = net ∧ r.approved = true ∧ r.peer ≠ p) ∧
        ∀ r ∈ (Learned.run P ops).subnets.routes, r.approved = false →
          r.net ∉ (Learned.run P ops).subnets.routesFor p := by
  have hvalid := Learned.valid_run P ops
  refine ⟨fun dst now ttl => Learned.routesLongest hvalid dst now ttl, ?_⟩
  intro p
  refine ⟨hvalid.nodup_routesFor p, fun net => SubnetTable.mem_routesFor, ?_⟩
  intro r hr hun hmem
  obtain ⟨r', hr', hnet, happ, -⟩ := SubnetTable.mem_routesFor.1 hmem
  rw [hvalid.eq_of_net_eq hr' hr hnet, hun] at happ
  cases happ

/-! From one client's advert to another's routes. -/

theorem SubnetTable.Valid.map_canonical {t : SubnetTable} (h : t.Valid) (p : SocketAddr) (k : ℕ) :
    ((t.routesFor p).take k).map ShadowVpn.canonical = (t.routesFor p).take k := by
  have hid : ∀ n ∈ (t.routesFor p).take k, ShadowVpn.canonical n = n := by
    intro n hn
    obtain ⟨r, hr, rfl, -, -⟩ := SubnetTable.mem_routesFor.1 (List.mem_of_mem_take hn)
    exact h.canonical r hr
  calc ((t.routesFor p).take k).map ShadowVpn.canonical
      = ((t.routesFor p).take k).map id := List.map_congr_left hid
    _ = (t.routesFor p).take k := List.map_id _

theorem parseControl_push {t : SubnetTable} (h : t.Valid) (p : SocketAddr) :
    parseControl (RoutePush.encode ⟨t.routesFor p⟩) =
      some (.routePush ⟨(t.routesFor p).take MAX_ROUTES⟩) := by
  obtain ⟨body, heq, hbody⟩ := RoutePush.encode_body ⟨t.routesFor p⟩
  rw [RoutePush.normalise, h.map_canonical] at hbody
  rw [heq]
  exact parseControl_eq_some.2 (Spells.routePush hbody)

theorem mem_installed {t : SubnetTable} (h : t.Valid) {ri : RouteInstaller} (hri : ri.Safe)
    (order : IterOrder IpNetwork Unit) (p : SocketAddr) (net : IpNetwork) :
    (ri.apply (fun _ => true) order ((t.routesFor p).take MAX_ROUTES)).installed.get net = some () ↔
      net ∈ (t.routesFor p).take MAX_ROUTES ∧ SubnetTable.contains net ri.serverIp = false := by
  rw [hri.apply_all, h.map_canonical]

/-- A push leaves exactly the first 64 routes of the other peers installed, without those
that cover the server: all of them if there are no more than 64. -/
theorem mesh_convergence (P : Platform) (ops : List SubnetTable.Op) (p : SocketAddr)
    (ifindex : UInt32) (tunIp : Ipv4Addr) (serverIp : IpAddr) (past : List RouteInstaller.Op)
    (order : IterOrder IpNetwork Unit) :
    ∃ push,
      parseControl (RoutePush.encode ⟨(SubnetTable.run P ops).routesFor p⟩) =
        some (.routePush push) ∧
      (∀ net, (((RouteInstaller.new ifindex tunIp serverIp).run past).apply (fun _ => true) order
          push.routes).installed.get net = some () ↔
        net ∈ ((SubnetTable.run P ops).routesFor p).take MAX_ROUTES ∧
          SubnetTable.contains net serverIp = false) ∧
      (((SubnetTable.run P ops).routesFor p).length ≤ MAX_ROUTES → ∀ net,
        (((RouteInstaller.new ifindex tunIp serverIp).run past).apply (fun _ => true) order
          push.routes).installed.get net = some () ↔
        (∃ r ∈ (SubnetTable.run P ops).routes, r.net = net ∧ r.approved = true ∧ r.peer ≠ p) ∧
          SubnetTable.contains net serverIp = false) := by
  have hvalid := SubnetTable.valid_run P ops
  obtain ⟨hsafe, hserver⟩ := RouteInstaller.run_safe ifindex tunIp serverIp past
  refine ⟨_, parseControl_push hvalid p, ?_, ?_⟩
  · intro net
    rw [mem_installed hvalid hsafe, hserver]
  · intro hlen net
    rw [mem_installed hvalid hsafe, hserver, List.take_of_length_le hlen,
      SubnetTable.mem_routesFor]

namespace Sample

def lan (k i : ℕ) : IpNetwork :=
  .v4 ⟨BitVec.ofNat 32 (0x0a000000 + k * 65536 + i * 256), 24, by decide⟩

/-- Two clients advertise 33 and 32 networks to a server that approves every route. -/
def adverts : List SubnetTable.Op :=
  [.advertise (endpoint 1) ((List.range 33).map (lan 1)) ⟨true, []⟩ 0,
    .advertise (endpoint 2) ((List.range 32).map (lan 2)) ⟨true, []⟩ 0]

end Sample

/-- The 65th route never reaches the third client. -/
theorem push_leaves_out_65th :
    (∃ r ∈ (SubnetTable.run Sample.platform Sample.adverts).routes,
      r.net = Sample.lan 2 31 ∧ r.approved = true ∧ r.peer ≠ Sample.endpoint 3) ∧
    SubnetTable.contains (Sample.lan 2 31) (.v4 0xC6336401#32) = false ∧
    ∃ push,
      parseControl (RoutePush.encode
        ⟨(SubnetTable.run Sample.platform Sample.adverts).routesFor (Sample.endpoint 3)⟩) =
          some (.routePush push) ∧
      ((RouteInstaller.new 7 (Sample.addr 12) (.v4 0xC6336401#32)).apply (fun _ => true) .stored
        push.routes).installed.get (Sample.lan 2 31) ≠ some () := by
  have hvalid := SubnetTable.valid_run Sample.platform Sample.adverts
  have hfor : (SubnetTable.run Sample.platform Sample.adverts).routesFor (Sample.endpoint 3) =
      (List.range 33).map (Sample.lan 1) ++ (List.range 32).map (Sample.lan 2) := by
    decide +kernel
  refine ⟨SubnetTable.mem_routesFor.1 ?_, by decide +kernel, _, parseControl_push hvalid _, ?_⟩
  · rw [hfor]
    decide +kernel
  · have hsafe := (RouteInstaller.run_safe 7 (Sample.addr 12) (.v4 0xC6336401#32) []).1
    intro hnet
    have hmem := ((mem_installed hvalid hsafe .stored _ _).1 hnet).1
    rw [hfor] at hmem
    exact absurd hmem (by decide +kernel)

end ShadowVpn
