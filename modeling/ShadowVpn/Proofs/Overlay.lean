import ShadowVpn.Proofs.Mesh
import ShadowVpn.Sanity.Overlay

/-! The mesh over a network: whose subnets a client routes into the tunnel, and where a name leads
that it looks up. -/

namespace ShadowVpn

open Lib

namespace Deployment

variable {κ : Type}

def entry (D : Deployment κ) : PeerEntry :=
  ⟨sanitizeHostname D.server.hostname, D.server.tun.ip, D.server.tun.ip6.map Cidr.ip⟩

def Offers (D : Deployment κ) (k : κ) (net : IpNetwork) : Prop :=
  net ∈ (D.client k).advertiseRoutes.map canonical

section

variable (L : Primitives) (P : Platform) (D : Deployment κ)

/-- The server is at work on an advert of `net` from the endpoint `p`. -/
def Advertises (p : SocketAddr) (net : IpNetwork) (event : Event κ) : Prop :=
  ∃ loop pkt env payload advert, event = .hub (.job loop (.datagram p pkt) env) ∧
    Opens L P D.server.cipher D.server.masterKey D.serverObfs pkt payload ∧
    parseControl payload = some (.routeAdvert advert) ∧ net ∈ advert.routes.map canonical

/-- The server is at work on a datagram from the endpoint `a`, and answers it with `payload`. -/
def Answers (a : SocketAddr) (payload : Bytes) (t : Turn κ) : Prop :=
  ∃ loop pkt env request said, t.event = .hub (.job loop (.datagram a pkt) env) ∧
    Opens L P D.server.cipher D.server.masterKey D.serverObfs pkt request ∧
    t.pre.handleControl P D.server.routeApproval a request env = .ok (t.post, some said) ∧
    payload = encodeControl said

/-- The client is at work on a datagram that brings `payload`. -/
def Hears (k : κ) (payload : Bytes) (event : Event κ) : Prop :=
  ∃ loop peer pkt env, event = .spoke k (.job loop (.datagram peer pkt) env) ∧
    Opens L P (D.client k).cipher (D.client k).masterKey (D.clientObfs k) pkt payload

/-- How a client comes to know of a subnet that the operator has approved: it was advertised from
an endpoint of a client that is set up to offer it, after that the server pushed it to another
endpoint, one of this client, and after that the client was at work on this push. -/
structure Reaches (ts : List (Turn κ)) (k : κ) (net : IpNetwork) : Prop where
  approved : D.server.routeApproval.approves P net = true
  chain : ∃ f g e, [f, g, e].Sublist ts ∧ ∃ p a payload push, p ≠ a ∧
    (Advertises L P D p net f.event ∧ D.Offers (D.owner p) net) ∧
    (Answers L P D a payload g ∧ D.owner a = k) ∧ Hears L P D k payload e.event ∧
    parseControl payload = some (.routePush push) ∧ net ∈ push.routes.map canonical

end

section

variable (L : Primitives) (P : Platform) (D : Deployment κ) (es : List (Step κ))

structure HasAddress (k : κ) (ip : Ipv4Addr) : Prop where
  static : (D.client k).autoTun = false → ip = (D.client k).tun.ip
  auto : (D.client k).autoTun = true → ∃ e ∈ es, Granted L P D k ip e.input e.post.hub

/-- The name that a client may go by, with an address that it has. -/
structure GoesBy (k : κ) (raw : Text) (ip : Ipv4Addr) : Prop where
  magic : (D.client k).magicDns = true
  raw : raw = cutName (D.client k).hostname
  address : HasAddress L P D es k ip

/-- A client offers the subnet, and has advertised it from the endpoint. -/
def Told (p : SocketAddr) (net : IpNetwork) : Prop :=
  D.Offers (D.owner p) net ∧ ∃ f ∈ es, Advertises L P D p net f.input

/-- It did so before the server answered `peer` with `payload`. -/
def PassedOn (peer : SocketAddr) (payload : Bytes) (p : SocketAddr) (net : IpNetwork) : Prop :=
  D.Offers (D.owner p) net ∧ ∃ f g, [f, g].Sublist (es.map TaskStar.turnOf) ∧
    Advertises L P D p net f.event ∧ Answers L P D peer payload g

abbrev Stands : Text → Ipv4Addr → Prop := Bears D.entry fun p => GoesBy L P D es (D.owner p)

structure ClientKnows (k : κ) (n : ClientNode) : Prop where
  cfg : n.run.cfg = { D.client k with tun := n.run.cfg.tun }
  fixed : (D.client k).autoTun = false → n.run.cfg.tun = (D.client k).tun ∧ n.assigns = []
  ready : n.run.keepTick = true → n.run.gotOk = true
  routes : ∀ ri, n.run.installer = some ri → ri.serverIp = (D.site k).server.ip ∧ ri.Safe ∧
    ∀ net, ri.installed.get net = some () → Reaches L P D (es.map TaskStar.turnOf) k net
  names : ∀ name addrs, n.peers.lookup name = some addrs →
    ∃ label, Spelled (D.client k).magicDnsSuffix label name ∧ Stands L P D es label addrs.ip4

def ServerKnows (r : Routing) : Prop :=
  ∃ st, r = .learn st ∧ st.Overlay P D.server.routeApproval D.entry (Told L P D es)
    fun p => GoesBy L P D es (D.owner p)

abbrev ClientTells (k : κ) (payload : Bytes) : Prop :=
  Tells (D.Offers k) (GoesBy L P D es k) payload

abbrev ServerTells (peer : SocketAddr) (payload : Bytes) : Prop :=
  Announces P D.server.routeApproval D.entry (PassedOn L P D es peer payload)
    (fun p => GoesBy L P D es (D.owner p)) peer payload

end

variable {L : Primitives} {P : Platform} {D : Deployment κ} {es : List (Step κ)} {k : κ}
  {payload : Bytes} {n n' : ClientNode} {r₀ : Routing} {s s' : State κ}

/-! Nothing that is known is taken back. -/

theorem GoesBy.snoc {raw : Text} {ip : Ipv4Addr} (h : GoesBy L P D es k raw ip) (e : Step κ) :
    GoesBy L P D (es ++ [e]) k raw ip :=
  ⟨h.magic, h.raw, h.address.static, fun hauto => exists_mem_snoc e (h.address.auto hauto)⟩

theorem Stands.snoc {label : Text} {ip : Ipv4Addr} (h : Stands L P D es label ip) (e : Step κ) :
    Stands L P D (es ++ [e]) label ip := by
  cases h with
  | server => exact .server
  | endpoint hname hlabel => exact .endpoint (hname.snoc e) hlabel

theorem Told.snoc {p : SocketAddr} {net : IpNetwork} (h : Told L P D es p net) (e : Step κ) :
    Told L P D (es ++ [e]) p net :=
  ⟨h.1, exists_mem_snoc e h.2⟩

theorem sublist_snoc {ts : List (Turn κ)} (h : ts.Sublist (es.map TaskStar.turnOf)) (e : Step κ) :
    ts.Sublist ((es ++ [e]).map TaskStar.turnOf) := by
  rw [List.map_append]
  exact h.trans (List.sublist_append_left _ _)

theorem sublist_last {ts : List (Turn κ)} (h : ts.Sublist (es.map TaskStar.turnOf)) (e : Step κ) :
    (ts ++ [TaskStar.turnOf e]).Sublist ((es ++ [e]).map TaskStar.turnOf) := by
  rw [List.map_append]
  exact h.append (List.Sublist.refl _)

theorem PassedOn.snoc {peer p : SocketAddr} {net : IpNetwork}
    (h : PassedOn L P D es peer payload p net) (e : Step κ) :
    PassedOn L P D (es ++ [e]) peer payload p net := by
  obtain ⟨hoffers, f, g, hsub, hchain⟩ := h
  exact ⟨hoffers, f, g, sublist_snoc hsub e, hchain⟩

theorem Reaches.snoc {net : IpNetwork} (h : Reaches L P D (es.map TaskStar.turnOf) k net)
    (e : Step κ) : Reaches L P D ((es ++ [e]).map TaskStar.turnOf) k net := by
  obtain ⟨f, g, e', hsub, hchain⟩ := h.chain
  exact ⟨h.approved, f, g, e', sublist_snoc hsub e, hchain⟩

theorem ClientKnows.snoc (h : ClientKnows L P D es k n) (e : Step κ) :
    ClientKnows L P D (es ++ [e]) k n := by
  refine ⟨h.cfg, h.fixed, h.ready, ?_, ?_⟩
  · intro ri hri
    obtain ⟨hserver, hsafe, hreaches⟩ := h.routes ri hri
    exact ⟨hserver, hsafe, fun net hnet => (hreaches net hnet).snoc e⟩
  · intro name addrs hname
    obtain ⟨label, hspelled, hstands⟩ := h.names name addrs hname
    exact ⟨label, hspelled, hstands.snoc e⟩

def meshContract [DecidableEq κ] (L : Primitives) (P : Platform) (D : Deployment κ) :
    (D.network L P).serial.Contract where
  hub es r := ServerKnows L P D es r
  spoke es k n := ClientKnows L P D es k n
  asks es k payload := ClientTells L P D es k payload
  answers es peer payload := ServerTells L P D es peer payload
  hub_mono e h := by
    obtain ⟨st, hst, hoverlay⟩ := h
    exact ⟨st, hst, hoverlay.mono (fun _ _ htold => htold.snoc e) fun _ _ _ hname => hname.snoc e⟩
  spoke_mono e h := h.snoc e
  asks_mono e h := ⟨h.subnets, fun advert hp => (h.names advert hp).snoc e⟩
  answers_mono e h := by
    have hold := h.imp fun _ _ _ hpassed => hpassed.snoc e
    exact ⟨hold.subnets, fun push hp p hmem => Stands.snoc (h.names push hp p hmem) e⟩

/-! What clients tell. -/

theorem tells_of_other {read : Option Control} (hparse : parseControl payload = read)
    (hroute : ∀ advert, read ≠ some (.routeAdvert advert))
    (hname : ∀ advert, read ≠ some (.nameAdvert advert)) : ClientTells L P D es k payload :=
  ⟨fun advert h => absurd (hparse.symm.trans h) (hroute advert),
    fun advert h => absurd (hparse.symm.trans h) (hname advert)⟩

theorem tells_packet (h : isControl payload = false) : ClientTells L P D es k payload :=
  tells_of_other (parseControl_of_notControl h) (by simp) (by simp)

theorem tells_assignRequest (cfg : ClientConfig) (id : NodeId) :
    ClientTells L P D es k (cfg.assignRequest id) := by
  obtain ⟨body, heq, hbody⟩ := (cfg.assignReq id).encode_body
  have hparse : parseControl (cfg.assignRequest id) =
      some (.assignReq (cfg.assignReq id).normalise) := by
    rw [ClientConfig.assignRequest, heq]
    exact parseControl_eq_some.2 (.assignReq hbody)
  exact tells_of_other hparse (by simp) (by simp)

theorem tells_keepalive (ip : Ipv4Addr) : ClientTells L P D es k (keepalivePayload ip) :=
  tells_of_other (parseControl_keepalive ip) (by simp) (by simp)

variable {cfg : ClientConfig}

theorem tells_routeAdvert (hcfg : cfg = { D.client k with tun := cfg.tun }) :
    ClientTells L P D es k cfg.routeAdvert.encode := by
  obtain ⟨body, heq, hbody⟩ := cfg.routeAdvert.encode_body
  have hparse : parseControl cfg.routeAdvert.encode =
      some (.routeAdvert cfg.routeAdvert.normalise) := by
    rw [heq]
    exact parseControl_eq_some.2 (.routeAdvert hbody)
  have hroutes : cfg.advertiseRoutes = (D.client k).advertiseRoutes := by rw [hcfg]
  refine ⟨?_, ?_⟩
  · intro advert hp net hnet
    cases hparse.symm.trans hp
    obtain ⟨m, hm, rfl⟩ := List.mem_map.1 hnet
    obtain ⟨r, hr, rfl⟩ := List.mem_map.1 hm
    rw [canonical_idem]
    have hmem : r ∈ cfg.advertiseRoutes := List.mem_of_mem_take hr
    rw [hroutes] at hmem
    exact List.mem_map_of_mem hmem
  · intro advert hp
    cases hparse.symm.trans hp

theorem tells_nameAdvert (hcfg : cfg = { D.client k with tun := cfg.tun })
    (hmagic : cfg.magicDns = true) (haddr : HasAddress L P D es k cfg.tun.ip) :
    ClientTells L P D es k cfg.nameAdvert.encode := by
  refine ⟨?_, ?_⟩
  · intro advert hp
    cases (cfg.nameAdvert.parseControl_encode.1 hp).2
  · intro advert hp
    cases (cfg.nameAdvert.parseControl_encode.1 hp).2
    refine ⟨?_, ?_, haddr⟩
    · rw [hcfg] at hmagic
      exact hmagic
    · have hhost : cfg.hostname = (D.client k).hostname := by rw [hcfg]
      exact congrArg cutName hhost

/-- A client's adverts are about its own subnets and its own name, at the address that it has. -/
theorem tells_static (hcfg : cfg = { D.client k with tun := cfg.tun })
    (haddr : HasAddress L P D es k cfg.tun.ip) (h : payload ∈ cfg.staticTickPayloads) :
    ClientTells L P D es k payload := by
  unfold ClientConfig.staticTickPayloads at h
  rcases List.mem_append.1 h with h | h
  · split_ifs at h
    · rw [List.mem_singleton.1 h]
      exact tells_routeAdvert hcfg
    · cases h
  · split_ifs at h with hmagic
    · rw [List.mem_singleton.1 h]
      exact tells_nameAdvert hcfg hmagic haddr
    · cases h

theorem tells_periodic (hcfg : cfg = { D.client k with tun := cfg.tun })
    (haddr : HasAddress L P D es k cfg.tun.ip) (h : payload ∈ cfg.periodic) :
    ClientTells L P D es k payload := by
  unfold ClientConfig.periodic at h
  split_ifs at h
  · rw [List.mem_singleton.1 h]
    exact tells_keepalive _
  · exact tells_static hcfg haddr h

theorem tells_auto {id : NodeId} (hcfg : cfg = { D.client k with tun := cfg.tun })
    (haddr : HasAddress L P D es k cfg.tun.ip) (h : payload ∈ cfg.autoTickPayloads id) :
    ClientTells L P D es k payload := by
  rcases List.mem_cons.1 h with rfl | h
  · exact tells_assignRequest cfg id
  · have hstatic : payload ∈ cfg.staticTickPayloads := h
    exact tells_static hcfg haddr hstatic

/-- The address that an assigned client is set to is its own. -/
theorem ClientKnows.address (h : ClientKnows L P D es k n) (hh : ClientHolds L P D es k n)
    (hgot : (D.client k).autoTun = true → n.run.gotOk = true) :
    HasAddress L P D es k n.run.cfg.tun.ip := by
  refine ⟨?_, fun hauto => hh.address hauto (hgot hauto)⟩
  intro hstatic
  rw [(h.fixed hstatic).1]

/-! Clients. -/

theorem reaches_new (ifindex : UInt32) (tunIp : Ipv4Addr) (serverIp : IpAddr) :
    (RouteInstaller.new ifindex tunIp serverIp).serverIp = serverIp ∧
      (RouteInstaller.new ifindex tunIp serverIp).Safe ∧
      ∀ net, (RouteInstaller.new ifindex tunIp serverIp).installed.get net = some () →
        Reaches L P D (es.map TaskStar.turnOf) k net := by
  refine ⟨rfl, ?_, ?_⟩
  · intro net hnet
    cases hnet
  · intro net hnet
    cases hnet

theorem ClientKnows.steady (h : ClientKnows L P D es k n) {run : ClientRun}
    (hs : ClientRun.Steady n.run run)
    (hroutes : ∀ ri, run.installer = some ri → ri.serverIp = (D.site k).server.ip ∧ ri.Safe ∧
      ∀ net, ri.installed.get net = some () → Reaches L P D (es.map TaskStar.turnOf) k net) :
    ClientKnows L P D es k { n with run := run } := by
  refine ⟨?_, ?_, ?_, hroutes, h.names⟩
  · simp only [hs.cfg]
    exact h.cfg
  · simp only [hs.cfg]
    exact h.fixed
  · simp only [hs.keepTick, hs.gotOk]
    exact h.ready

theorem ClientKnows.pushed (h : ClientKnows L P D es k n) {run : ClientRun} {out : List Control}
    {kernel : RouteCall → Bool} {order : IterOrder IpNetwork Unit} {push : RoutePush} {e : Step κ}
    (hstep : n.run.step (D.site k).server.ip (D.site k).directSrc
      (.push kernel order push.routes) = .ok (run, out))
    (hparse : parseControl payload = some (.routePush push)) {a : SocketAddr} (ha : D.owner a = k)
    (htold : ServerTells L P D es a payload) (he : Hears L P D k payload e.input) :
    ClientKnows L P D (es ++ [e]) k { n with run := run } := by
  refine (h.snoc e).steady (ClientRun.step_push_steady hstep).1 ?_
  intro ri hri
  obtain ⟨old, hold, rfl⟩ := ClientRun.step_push_installer hstep hri
  obtain ⟨hserver, hsafe, -⟩ := h.routes old hold
  refine ⟨(RouteInstaller.apply_serverIp old).trans hserver, hsafe.step (.apply _ _ _), ?_⟩
  intro net hnet
  obtain ⟨hmem, -⟩ := (RouteInstaller.apply_get old).1 hnet
  obtain ⟨happroved, p, hne, hoffers, f, g, hsub, hadvert, hanswer⟩ :=
    htold.subnets push hparse net hmem
  exact ⟨happroved, f, g, TaskStar.turnOf e, sublist_last hsub e, p, a, payload, push, hne,
    ⟨hadvert, hoffers⟩, ⟨hanswer, ha⟩, he, hparse, hmem⟩

theorem works_knows {loop : ClientLoop} {job : Job} {env : ClientEnv} {o : Option Emit}
    (h : ClientKnows L P D es k n)
    (hw : ClientNode.Works L P (D.site k) (D.client k) (D.clientObfs k) n env job n' o)
    (hsound : sound job)
    (htold : ∀ m, D.told L P k job m → ∃ a, D.owner a = k ∧ ServerTells L P D es a m) :
    ClientKnows L P D (es ++ [⟨s, .spoke k (.job loop job env), o.toList, s'⟩]) k n' ∧
      ∀ x ∈ o.toList.filterMap Emit.mail,
        ClientTells L P D (es ++ [⟨s, .spoke k (.job loop job env), o.toList, s'⟩]) k x.2 := by
  cases hw with
  | forwarded _ =>
    refine ⟨h.snoc _, ?_⟩
    intro x hx
    obtain rfl := List.mem_singleton.1 hx
    exact tells_packet hsound
  | asked _ =>
    exact ⟨⟨h.cfg, h.fixed, h.ready, (h.snoc _).routes, (h.snoc _).names⟩, List.forall_mem_nil _⟩
  | noise _ => exact ⟨h.snoc _, List.forall_mem_nil _⟩
  | @pushed _ _ payload _ _ _ hopen hparse hstep =>
    obtain ⟨a, ha, htells⟩ := htold payload hopen
    exact ⟨h.pushed hstep hparse ha htells ⟨_, _, _, _, rfl, hopen⟩, List.forall_mem_nil _⟩
  | offered hauto _ _ =>
    refine ⟨⟨h.cfg, ?_, h.ready, (h.snoc _).routes, (h.snoc _).names⟩, List.forall_mem_nil _⟩
    intro hstatic
    rw [h.cfg] at hauto
    cases hstatic.symm.trans hauto
  | @named _ _ payload push hopen hparse =>
    refine ⟨⟨h.cfg, h.fixed, h.ready, (h.snoc _).routes, ?_⟩, List.forall_mem_nil _⟩
    intro name addrs hname
    obtain ⟨p, hp, hspelled, rfl⟩ := PeerTable.lookup_replace hname
    obtain ⟨a, -, htells⟩ := htold payload hopen
    refine ⟨p.name, ?_, Stands.snoc (htells.names push hparse p hp) _⟩
    rw [h.cfg] at hspelled
    exact hspelled
  | dropped _ => exact ⟨h.snoc _, List.forall_mem_nil _⟩
  | written _ _ => exact ⟨h.snoc _, List.forall_mem_nil _⟩

theorem tells_sends {server : SocketAddr} {payloads : List Bytes}
    (h : ∀ payload ∈ payloads, ClientTells L P D es k payload) :
    ∀ x ∈ (payloads.map (Emit.send server ·)).filterMap Emit.mail,
      ClientTells L P D es k x.2 := by
  intro x hx
  obtain ⟨o, ho, hmail⟩ := List.mem_filterMap.1 hx
  obtain ⟨payload, hp, rfl⟩ := List.mem_map.1 ho
  cases hmail
  exact h payload hp

theorem ClientKnows.replied (h : ClientKnows L P D es k n) {reply : Assign} {rest : List Assign}
    {run : ClientRun} {adverts : List Control} (hassigns : n.assigns = reply :: rest)
    (hr : n.run.Replied reply run adverts) (hi : n.run.Rebuilt (D.site k).server.ip run) :
    ClientKnows L P D es k { n with run := run, assigns := rest } := by
  refine ⟨?_, ?_, fun _ => hr.gotOk, ?_, h.names⟩
  · have hcfg := hr.cfg
    rw [h.cfg] at hcfg
    exact hcfg
  · intro hstatic
    rw [(h.fixed hstatic).2] at hassigns
    cases hassigns
  · intro ri hri
    rcases hi ri hri with hold | ⟨ifindex, tunIp, rfl⟩
    · exact h.routes ri hold
    · exact reaches_new ifindex tunIp _

theorem ticks_knows {t : ClientTick} {out : List Emit} (hh : ClientHolds L P D es k n)
    (h : ClientKnows L P D es k n) (ht : ClientNode.Ticks P (D.site k) n t n' out) :
    ClientKnows L P D (es ++ [⟨s, .spoke k (.other t), out, s'⟩]) k n' ∧
      ∀ x ∈ out.filterMap Emit.mail,
        ClientTells L P D (es ++ [⟨s, .spoke k (.other t), out, s'⟩]) k x.2 := by
  have hafter : ClientHolds L P D (es ++ [⟨s, .spoke k (.other t), out, s'⟩]) k n' :=
    (ticks_holds hh ht).1
  have hholds := hh.snoc ⟨s, .spoke k (.other t), out, s'⟩
  have hk := h.snoc ⟨s, .spoke k (.other t), out, s'⟩
  cases ht with
  | idle => exact ⟨hk, List.forall_mem_nil _⟩
  | @replied _ reply rest run adverts hassigns hr hi =>
    have hreplied := hk.replied hassigns hr hi
    refine ⟨hreplied, ?_⟩
    intro x hx
    obtain ⟨o, ho, hmail⟩ := List.mem_filterMap.1 hx
    obtain ⟨advert, hadvert, rfl⟩ := List.mem_map.1 ho
    cases hmail
    rcases ClientRun.mem_adverts (hr.adverts advert hadvert) with rfl | ⟨hmagic, rfl⟩
    · exact tells_routeAdvert hreplied.cfg
    · exact tells_nameAdvert hreplied.cfg hmagic (hreplied.address hafter fun _ => hr.gotOk)
  | retry _ =>
    refine ⟨hk, ?_⟩
    intro x hx
    obtain rfl := List.mem_singleton.1 hx
    exact tells_assignRequest _ _
  | keep hkeep =>
    have haddr := hk.address hholds fun _ => h.ready hkeep
    exact ⟨hk, tells_sends fun _ hp => tells_auto h.cfg haddr hp⟩
  | periodic hstatic =>
    have haddr := hk.address hholds fun hauto => by
      rw [h.cfg] at hstatic
      cases hstatic.symm.trans hauto
    exact ⟨hk, tells_sends fun _ hp => tells_periodic h.cfg haddr hp⟩
  | answered _ hout =>
    refine ⟨⟨hk.cfg, hk.fixed, hk.ready, hk.routes, hk.names⟩, ?_⟩
    intro x hx
    obtain ⟨o, ho, hmail⟩ := List.mem_filterMap.1 hx
    obtain ⟨_, packet, -, rfl⟩ := hout o ho
    cases hmail
  | resolved hs hi => exact ⟨hk.steady hs (by rw [hi]; exact hk.routes), List.forall_mem_nil _⟩

/-! The server. -/

theorem works_serverKnows {loop : Loop} {r r' : Routing} {env : RelayEnv} {job : Job}
    {o : Option Emit} {out : List Emit} (h : ServerKnows L P D es r)
    (hw : Routing.Works L P D.server D.serverObfs r env job r' o)
    (hears : ∀ a m, D.hears L P job a m → ClientTells L P D es (D.owner a) m) :
    ServerKnows L P D (es ++ [⟨s, .hub (.job loop job env), out, s'⟩]) r' := by
  obtain ⟨st, rfl, hold⟩ := h
  have hoverlay := hold.mono
    (fun _ _ htold => htold.snoc ⟨s, .hub (.job loop job env), out, s'⟩)
    (fun _ _ _ hname => hname.snoc ⟨s, .hub (.job loop job env), out, s'⟩)
  cases hw with
  | noise _ => exact ⟨st, rfl, hoverlay⟩
  | short _ _ _ => exact ⟨st, rfl, hoverlay⟩
  | @control peer pkt payload _ _ hopen _ hc =>
    obtain ⟨st', eventOut, hs, rfl, -⟩ := Routing.handleControl_learn hc
    have hstep : LearnState.step P D.server.routeApproval st (.control peer payload env.toEnv) =
        .ok (st', eventOut) := hs
    refine ⟨st', rfl, hoverlay.step ?_ hstep⟩
    rintro _ _ _ ⟨⟩
    have htells := hears peer payload ⟨rfl, hopen⟩
    refine ⟨?_, fun advert hparse => (htells.names advert hparse).snoc _⟩
    intro advert hparse net hnet
    exact ⟨htells.subnets advert hparse net hnet,
      exists_mem_last ⟨loop, pkt, env, payload, advert, rfl, hopen, hparse, hnet⟩⟩
  | @routed peer pkt payload _ _ _ =>
    have hstep : LearnState.step P D.server.routeApproval st (.packet peer payload env.toEnv) =
        .ok ((st.routePacket peer payload env.toEnv).1, .plain none) := rfl
    exact ⟨_, rfl, hoverlay.step (fun _ _ _ h => by cases h) hstep⟩
  | resolved => exact ⟨st, rfl, hoverlay⟩

/-- An advert from another endpoint than the one that is answered came before the answer. -/
theorem passedOn_of_told {loop : Loop} {env : RelayEnv} {out : List Emit} {request : Bytes}
    {said : Control} {peer p : SocketAddr} {pkt : Bytes} {net : IpNetwork}
    (hopen : Opens L P D.server.cipher D.server.masterKey D.serverObfs pkt request)
    (hsaid : s.hub.handleControl P D.server.routeApproval peer request env =
      .ok (s'.hub, some said)) (hne : p ≠ peer)
    (h : Told L P D (es ++ [⟨s, .hub (.job loop (.datagram peer pkt) env), out, s'⟩]) p net) :
    PassedOn L P D (es ++ [⟨s, .hub (.job loop (.datagram peer pkt) env), out, s'⟩]) peer
      (encodeControl said) p net := by
  obtain ⟨hoffers, f, hf, hadvert⟩ := h
  rcases List.mem_append.1 hf with hf | hf
  · have hsub := List.singleton_sublist.2 (List.mem_map_of_mem (f := TaskStar.turnOf) hf)
    exact ⟨hoffers, TaskStar.turnOf f, _, sublist_last hsub _, hadvert, loop, pkt, env, request,
      said, rfl, hopen, hsaid, rfl⟩
  · rw [List.mem_singleton.1 hf] at hadvert
    obtain ⟨_, _, _, _, _, hevent, -⟩ := hadvert
    cases hevent
    exact absurd rfl hne

theorem works_tells {loop : Loop} {env : RelayEnv} {job : Job} {out : Emit}
    {x : SocketAddr × Bytes}
    (h : ServerKnows L P D (es ++ [⟨s, .hub (.job loop job env), [out], s'⟩]) s'.hub)
    (hl : s'.hub.Labelled) (hlearn : ∃ st, s.hub = .learn st)
    (hw : Routing.Works L P D.server D.serverObfs s.hub env job s'.hub (some out))
    (hsound : sound job) (hx : out.mail = some x) :
    ServerTells L P D (es ++ [⟨s, .hub (.job loop job env), [out], s'⟩]) x.1 x.2 := by
  obtain ⟨st, hst⟩ := hlearn
  obtain ⟨st', hst', hoverlay⟩ := h
  generalize hpre : s.hub = r at hw
  generalize hpost : s'.hub = r' at hw
  generalize ho : some out = o at hw
  obtain rfl := hpre.symm.trans hst
  cases hw with
  | noise _ => cases ho
  | short _ _ _ => cases ho
  | @control peer pkt payload _ reply hopen _ hc =>
    obtain ⟨said, rfl, rfl⟩ := Option.map_eq_some_iff.1 ho.symm
    cases hx
    have hsaid := hc
    rw [← hst, ← hpost] at hsaid
    obtain ⟨st₁, eventOut, hs, rfl, hreply⟩ := Routing.handleControl_learn hc
    cases hpost.symm.trans hst'
    rw [hst'] at hl
    exact (hoverlay.announces hl hs hreply.symm).imp fun p net hne htold =>
      passedOn_of_told hopen hsaid hne htold
  | @routed peer pkt payload _ hc _ =>
    obtain ⟨action, -, hout⟩ := Option.bind_eq_some_iff.1 ho.symm
    cases action with
    | tun =>
      cases hout
      cases hx
    | bounce => cases hout
    | relay next =>
      cases hout
      cases hx
      exact announces_packet hc
  | resolved =>
    obtain ⟨peer, -, hout⟩ := Option.map_eq_some_iff.1 ho.symm
    cases hout
    cases hx
    exact announces_packet hsound

theorem sweep_serverKnows {r : Routing} (h : ServerKnows L P D es r) (env : RelayEnv) :
    ServerKnows L P D es (r.sweep env) := by
  obtain ⟨st, rfl, hoverlay⟩ := h
  have hstep : LearnState.step P D.server.routeApproval st (.sweep env.toEnv) =
      .ok (st.sweep env.toEnv) := rfl
  exact ⟨_, rfl, hoverlay.step (fun _ _ _ h => by cases h) hstep⟩

/-! Runs. -/

theorem serverKnows_start {clock now : SystemTime} {io : Io} {disk : LeaseFile}
    (h : D.server.routing clock now io disk = .ok r₀) (hnat : D.server.nat = false) :
    ServerKnows L P D [] r₀ := by
  unfold ServerConfig.routing at h
  rw [hnat, if_neg Bool.false_ne_true] at h
  obtain ⟨assigner, -, h⟩ := bind_eq_ok.1 h
  cases h
  refine ⟨_, rfl, .empty, List.forall_mem_nil _, rfl, ?_⟩
  intro p row hrow
  cases hrow

theorem clientKnows_start (h : ∃ outside last,
    ClientNode.start (D.site k) outside (D.client k) last = .ok n) : ClientKnows L P D [] k n := by
  obtain ⟨outside, last, h⟩ := h
  obtain ⟨hassigns, -, -, -⟩ := ClientNode.start_unassigned h
  obtain ⟨hpeers, hkeep, hcfg, hstatic, hinstaller⟩ := ClientNode.start_fresh h
  refine ⟨hcfg, fun hno => ⟨by rw [hstatic hno], hassigns⟩, ?_, ?_, ?_⟩
  · intro hyes
    cases hkeep.symm.trans hyes
  · intro ri hri
    obtain ⟨ifindex, tunIp, rfl⟩ := hinstaller ri hri
    exact reaches_new ifindex tunIp _
  · intro name addrs hname
    rw [hpeers] at hname
    cases hname

variable [DecidableEq κ] {nodes : κ → ClientNode}

theorem run_mesh (hstart : D.Starts r₀ nodes) (hnat : D.server.nat = false)
    (h : Run (D.network L P).serial.step (.start r₀ nodes) es s)
    (hes : ∀ e ∈ es, (D.network L P).serial.Honest e.pre e.input) :
    (meshContract L P D).Kept es s := by
  obtain ⟨clock, now, io, disk, hrouting⟩ := hstart.server
  have hinit := ServerConfig.routing_initial hrouting
  refine Star.Contract.run_kept _ ?_ ?_ h ⟨serverKnows_start hrouting hnat,
    fun k => clientKnows_start (hstart.clients k), List.forall_mem_nil _, List.forall_mem_nil _⟩ hes
  · intro es s input out s' hrun hhonest hstep hsound hknows hears
    have hev := (run_kept hstart hnat hrun hhonest).hub
    cases input with
    | other env =>
      obtain ⟨hpost, rfl⟩ := Prod.mk.inj (Except.ok.inj hstep)
      refine ⟨?_, List.forall_mem_nil _⟩
      rw [← hpost]
      exact (meshContract L P D).hub_mono _ (sweep_serverKnows hknows env)
    | job loop job env =>
      obtain ⟨e, hwork, rfl⟩ := (Pipeline.serial_job_eq_ok (k := loop)).1 hstep
      have hw := Routing.works_of_work hwork
      have hafter : ServerKnows L P D (es ++ [⟨s, .hub (.job loop job env), e.toList, s'⟩]) s'.hub :=
        works_serverKnows hknows hw hears
      refine ⟨hafter, ?_⟩
      cases e with
      | none => exact List.forall_mem_nil _
      | some out =>
        intro x hx
        obtain ⟨o, ho, hmail⟩ := List.mem_filterMap.1 hx
        obtain rfl := List.mem_singleton.1 ho
        obtain ⟨st, hst, -⟩ := hknows
        exact works_tells hafter (hinit.labelled (hev.trans hw.evolves)) ⟨st, hst⟩ hw hsound hmail
  · intro es s k input out s' hrun hhonest hstep hsound hknows htold
    cases input with
    | job loop job env =>
      obtain ⟨o, hwork, rfl⟩ := (Pipeline.serial_job_eq_ok (k := loop)).1 hstep
      exact works_knows hknows (ClientNode.works_of_work hwork) hsound htold
    | other t =>
      exact ticks_knows ((run_kept hstart hnat hrun hhonest).spokes k) hknows
        (ClientNode.ticks_of_tick hstep)

/-- A label and an address that a client finds under it: the server's own, or a label for the name
of a client with magic DNS, at the address that this client is set up with or was leased in some
turn. -/
inductive LeadsTo (L : Primitives) (P : Platform) (D : Deployment κ) (ts : List (Turn κ)) :
    Text → Ipv4Addr → Prop
  | server : LeadsTo L P D ts (sanitizeHostname D.server.hostname) D.server.tun.ip
  | client {j : κ} {label : Text} {ip : Ipv4Addr} (hmagic : (D.client j).magicDns = true)
      (hlabel : MayGrant (sanitizeHostname (cutName (D.client j).hostname)) label)
      (hstatic : (D.client j).autoTun = false → ip = (D.client j).tun.ip)
      (hauto : (D.client j).autoTun = true → ∃ t ∈ ts, Granted L P D j ip t.event t.post) :
      LeadsTo L P D ts label ip

end Deployment

namespace Sample

/-- Two clients that accept routes and names, of which the first has a subnet behind it. -/
def meshConfig (k : Bool) : ClientConfig :=
  { leafConfig with
    advertiseRoutes := if k then [] else [lan 1 0]
    hostname := if k then ['b'] else ['a'] }

def mesh : Deployment Bool :=
  { hub with server := { hubServer with routeApproval := ⟨true, []⟩ }, client := meshConfig }

def meshLast (k : Bool) : LastAssign :=
  ⟨addr (if k then 10 else 9), 0xFFFFFF00, addr 1, none, 0⟩

def meshStart (k : Bool) : Except ClientError ClientNode :=
  ClientNode.start (mesh.site k) outside (meshConfig k) (some (meshLast k))

def hears (env : RelayEnv) (k : Bool) (payload : Bytes) : List HubTask :=
  served .udpToTun (.datagram (endpoint (if k then 2 else 1)) (sealed payload)) env

/-- A client is given the address that it has had, and tells of its subnets and its name. -/
def meshJoins (env : RelayEnv) (k : Bool) : List HubTask :=
  let cfg := (meshConfig k).withCached (some (meshLast k))
  .spoke k (.other (.retry false)) ::
    (hears env k (cfg.assignRequest (mesh.site k).nodeId) ++
      delivered k (Assign.encode ⟨.ok, (meshLast k).tunIp, 0xFFFFFF00, addr 1, none, 0, 0, 8⟩) ++
      [.spoke k (.other (.reply outside))] ++
      cfg.adverts.flatMap fun c => hears env k (encodeAdvert c))

def meshTasks (env : RelayEnv) : List HubTask :=
  meshJoins env false ++ meshJoins env true ++ delivered true (RoutePush.encode ⟨[lan 1 0]⟩) ++
    delivered true (PeerPush.encode
      ⟨[⟨['h'], addr 1, none⟩, ⟨['b'], addr 10, none⟩, ⟨['a'], addr 9, none⟩]⟩)

def meshCheck (r : List (Deployment.TaskStep Bool) × Deployment.TaskState Bool) : Bool :=
  r.1.all (fun e => mesh.honestly primitives platform e.pre e.input) &&
    ((r.2.spokes true).shared.run.installer.any fun ri =>
      decide (ri.installed.get (lan 1 0) = some ())) &&
    decide ((r.2.spokes true).shared.peers.lookup ['a'] = some ⟨addr 9, none⟩)

theorem mesh_runs : ∃ nodes es s, mesh.Runs primitives platform (hubStart (time 0)) nodes es s ∧
    (∃ ri, (s.spokes true).shared.run.installer = some ri ∧
      ri.installed.get (lan 1 0) = some ()) ∧
    (s.spokes true).shared.peers.lookup ['a'] = some ⟨addr 9, none⟩ := by
  have hcheck : (meshStart false).toOption.any (fun a => (meshStart true).toOption.any fun b =>
      (exec (mesh.network primitives platform).tasks.step
        (.start (.start (hubStart (time 0))) fun k => .start (if k then b else a))
        (meshTasks (relayEnv 0))).toOption.any meshCheck) = true := by
    decide +kernel
  obtain ⟨a, ha, hcheck⟩ := ok_of_toOption_any hcheck
  obtain ⟨b, hb, hcheck⟩ := ok_of_toOption_any hcheck
  obtain ⟨es, s, hrun, hcheck⟩ := exec_check hcheck
  simp only [meshCheck, Bool.and_eq_true, List.all_eq_true, Option.any_eq_true,
    decide_eq_true_eq] at hcheck
  obtain ⟨⟨hhonest, hroute⟩, hname⟩ := hcheck
  refine ⟨fun k => if k then b else a, es, s,
    ⟨⟨⟨time 0, time 0, io, .notFound, rfl⟩, ?_⟩, hrun, ?_⟩, hroute, hname⟩
  · intro k
    cases k with
    | false => exact ⟨outside, some (meshLast false), ha⟩
    | true => exact ⟨outside, some (meshLast true), hb⟩
  · exact fun e he => Deployment.honest_of_honestly (hhonest e he)

end Sample

namespace Deployment

variable {κ : Type} [DecidableEq κ] {L : Primitives} {P : Platform} {D : Deployment κ}
  {r₀ : Routing} {nodes : κ → ClientNode} {es : List (TaskStep κ)} {s : TaskState κ} {k : κ}

/-- A subnet that a client routes into the tunnel is one that the operator has approved. A client
that is set up to offer it had advertised it, from another endpoint than the one of this client
that the server then pushed it to, before the client was at work on that push; and the client's
server is not in it. -/
theorem installed_subnet_offered (h : Runs L P D r₀ nodes es s) (hnat : D.server.nat = false)
    {ri : RouteInstaller} (hri : (s.spokes k).shared.run.installer = some ri) {net : IpNetwork}
    (hnet : ri.installed.get net = some ()) :
    Reaches L P D (TaskStar.turns es) k net ∧
      SubnetTable.contains net (D.site k).server.ip = false := by
  obtain ⟨fs, S, hfs⟩ := TaskStar.run_follows h.run h.honest
  rw [← hfs.spokes k] at hri
  obtain ⟨hserver, hsafe, hreaches⟩ :=
    ((run_mesh h.starts hnat hfs.run hfs.honest).spokes k).routes ri hri
  rw [hfs.events, ← hserver]
  exact ⟨hreaches net hnet, hsafe net hnet⟩

theorem installed_subnet_offered_lan : ∃ nodes es s,
    Sample.mesh.Runs Sample.primitives Sample.platform (Sample.hubStart (Sample.time 0)) nodes es
      s ∧
    Reaches Sample.primitives Sample.platform Sample.mesh (TaskStar.turns es) true
      (Sample.lan 1 0) ∧
    SubnetTable.contains (Sample.lan 1 0) (Sample.mesh.site true).server.ip = false := by
  obtain ⟨nodes, es, s, hruns, ⟨ri, hri, hnet⟩, -⟩ := Sample.mesh_runs
  exact ⟨nodes, es, s, hruns, installed_subnet_offered hruns rfl hri hnet⟩

/-- A name that a client looks up leads to the server, or to the address of a client that goes by
the name: the one that it is set up with, or one that the server has leased to it. -/
theorem name_leads_to_bearer (h : Runs L P D r₀ nodes es s) (hnat : D.server.nat = false)
    {name : Text} {addrs : PeerAddrs} (hname : (s.spokes k).shared.peers.lookup name = some addrs) :
    ∃ label, Spelled (D.client k).magicDnsSuffix label name ∧
      LeadsTo L P D (TaskStar.turns es) label addrs.ip4 := by
  obtain ⟨fs, S, hfs⟩ := TaskStar.run_follows h.run h.honest
  rw [← hfs.spokes k] at hname
  obtain ⟨label, hspelled, hstands⟩ :=
    ((run_mesh h.starts hnat hfs.run hfs.honest).spokes k).names name addrs hname
  refine ⟨label, hspelled, ?_⟩
  generalize addrs.ip4 = ip at hstands
  cases hstands with
  | server => exact .server
  | endpoint hgoes hlabel =>
    rw [hgoes.raw] at hlabel
    refine .client hgoes.magic hlabel hgoes.address.static ?_
    intro hauto
    obtain ⟨f, hf, hgranted⟩ := hgoes.address.auto hauto
    exact ⟨TaskStar.turnOf f, hfs.mem_turns hf, hgranted⟩

theorem name_leads_to_bearer_leased : ∃ nodes es s,
    Sample.mesh.Runs Sample.primitives Sample.platform (Sample.hubStart (Sample.time 0)) nodes es
      s ∧
    ∃ label, Spelled [] label ['a'] ∧
      LeadsTo Sample.primitives Sample.platform Sample.mesh (TaskStar.turns es) label
        (Sample.addr 9) := by
  obtain ⟨nodes, es, s, hruns, -, hname⟩ := Sample.mesh_runs
  exact ⟨nodes, es, s, hruns, name_leads_to_bearer hruns rfl hname⟩

end Deployment

end ShadowVpn
