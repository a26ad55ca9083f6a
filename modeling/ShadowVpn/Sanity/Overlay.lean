import ShadowVpn.Proofs.Network
import ShadowVpn.Sanity.DnsReplies
import ShadowVpn.Sanity.Subnets

/-! What the parties of a network tell each other of their subnets and names: the tables of a
server that hears adverts, and what a client makes of a push. -/

namespace ShadowVpn

open Lib

/-! Names. -/

/-- A label that a table may grant for the one that was asked for. -/
def MayGrant (requested granted : Text) : Prop :=
  ∃ nodeId ip4, granted ∈ NameTable.candidates requested nodeId ip4

theorem mayGrant_uniqueName (t : NameTable) (wanted : Text) (nodeId : Option NodeId)
    (ip4 : Ipv4Addr) : MayGrant wanted (t.uniqueName wanted nodeId ip4) := by
  refine ⟨nodeId, ip4, ?_⟩
  rw [NameTable.uniqueName_eq]
  cases hfind : (NameTable.candidates wanted nodeId ip4).find? fun c => !t.nameTaken c with
  | none => exact NameTable.tagged_mem_candidates wanted nodeId ip4
  | some c => exact List.mem_of_find?_eq_some hfind

/-- The row asks for a name at an address, and has a label that may be granted for it. -/
structure NameRow.Claims (row : NameRow) (raw : Text) (ip4 : Ipv4Addr) : Prop where
  requested : row.requested = sanitizeHostname raw
  granted : MayGrant (sanitizeHostname raw) row.granted
  ip4 : row.ip4 = ip4

namespace NameTable

variable {t : NameTable} {peer : SocketAddr} {row : NameRow}

@[simp] theorem withdraw_server (t : NameTable) (peer : SocketAddr) :
    (t.withdraw peer).1.server = t.server := by
  unfold withdraw
  split <;> rfl

theorem advertise_keeps_server (t : NameTable) (peer : SocketAddr) (raw : Text) (ip4 : Ipv4Addr)
    (ip6 : Option Ipv6Addr) (nodeId : Option NodeId) (now : Instant) :
    (t.advertise peer raw ip4 ip6 nodeId now).1.server = t.server := by
  have hsteps := steps_advertise t peer raw ip4 ip6 nodeId now
  have hnil := advertise_nil t peer ip4 ip6 nodeId now
  generalize hafter : (t.advertise peer raw ip4 ip6 nodeId now).1 = t' at hsteps ⊢
  cases hsteps with
  | dropped _ hno =>
    obtain rfl := hno _ _ _ _ _ _ rfl
    rw [← hafter, hnil, withdraw_server]
  | refreshed _ _ _ => rfl
  | granted _ _ => exact withdraw_server t peer

theorem unlearnDropped_server (l : Learned) (t : NameTable) (dropped : List Lease) (now : Instant)
    (ttl : Duration) : (unlearnDropped l t dropped now ttl).2.server = t.server := by
  refine foldl_frame (fun acc : Learned × NameTable => acc.2.server) ?_ (l, t)
  intro acc lease _
  unfold unlearnLease
  cases lease.lastPeer with
  | none => rfl
  | some p => exact withdraw_server acc.2 p

/-- The row that an advert leaves asks for what the advert says, if every row before it asks for
what its advert said. -/
theorem advertise_row {raw : Text} {ip4 : Ipv4Addr} {ip6 : Option Ipv6Addr}
    {nodeId : Option NodeId} {now : Instant}
    (hold : ∀ row, t.byPeer.get peer = some row → ∃ raw ip4, row.Claims raw ip4)
    (h : (t.advertise peer raw ip4 ip6 nodeId now).1.byPeer.get peer = some row) :
    raw ≠ [] ∧ row.Claims raw ip4 := by
  have hsteps := steps_advertise t peer raw ip4 ip6 nodeId now
  have hnil := advertise_nil t peer ip4 ip6 nodeId now
  generalize hafter : (t.advertise peer raw ip4 ip6 nodeId now).1 = t' at h hsteps
  cases hsteps with
  | dropped _ hno =>
    obtain rfl := hno _ _ _ _ _ _ rfl
    rw [← hafter, hnil, withdraw_get, if_pos rfl] at h
    cases h
  | @refreshed _ _ _ _ _ _ old hraw hrow hsame =>
    rw [HashMap.get_insert, if_pos rfl] at h
    cases h
    obtain ⟨raw', ip4', hclaims⟩ := hold old hrow
    have hgranted := hclaims.granted
    rw [← hclaims.requested, hsame] at hgranted
    exact ⟨hraw, hsame, hgranted, rfl⟩
  | granted hraw _ =>
    rw [grant_get, if_pos rfl] at h
    cases h
    exact ⟨hraw, rfl, mayGrant_uniqueName _ _ _ _, rfl⟩

end NameTable

/-! The server's tables. -/

/-- What a message says of its sender: the subnets behind it, and its name with its address. -/
structure Tells (subnet : IpNetwork → Prop) (name : Text → Ipv4Addr → Prop) (payload : Bytes) :
    Prop where
  subnets : ∀ advert, parseControl payload = some (.routeAdvert advert) →
    ∀ net ∈ advert.routes.map canonical, subnet net
  names : ∀ advert, parseControl payload = some (.nameAdvert advert) →
    name advert.name advert.tunnelIp

namespace LearnState

variable {P : Platform} {approval : RouteApproval} {server : PeerEntry}
  {subnet subnet' : SocketAddr → IpNetwork → Prop}
  {name name' : SocketAddr → Text → Ipv4Addr → Prop} {st st' : LearnState}
  {event : Event} {out : EventOut} {peer : SocketAddr} {payload : Bytes} {env : Env}

/-- The tables hold what endpoints have said of themselves. -/
structure Overlay (P : Platform) (approval : RouteApproval) (server : PeerEntry)
    (subnet : SocketAddr → IpNetwork → Prop) (name : SocketAddr → Text → Ipv4Addr → Prop)
    (st : LearnState) : Prop where
  valid : st.learned.subnets.Valid
  routes : ∀ r ∈ st.learned.subnets.routes,
    subnet r.peer r.net ∧ r.approved = approval.approves P r.net
  server : st.names.server = some server
  rows : ∀ p row, st.names.byPeer.get p = some row →
    ∃ raw ip4, name p raw ip4 ∧ row.Claims raw ip4

namespace Overlay

theorem mono (h : Overlay P approval server subnet name st)
    (hs : ∀ p net, subnet p net → subnet' p net)
    (hn : ∀ p raw ip4, name p raw ip4 → name' p raw ip4) :
    Overlay P approval server subnet' name' st := by
  refine ⟨h.valid, fun r hr => ⟨hs _ _ (h.routes r hr).1, (h.routes r hr).2⟩, h.server, ?_⟩
  intro p row hrow
  obtain ⟨raw, ip4, hname, hclaims⟩ := h.rows p row hrow
  exact ⟨raw, ip4, hn p raw ip4 hname, hclaims⟩

/-- Rows and routes may go. -/
theorem of_fewer (h : Overlay P approval server subnet name st)
    (hvalid : st'.learned.subnets.Valid)
    (hroutes : ∀ r ∈ st'.learned.subnets.routes, r ∈ st.learned.subnets.routes)
    (hserver : st'.names.server = st.names.server)
    (hrows : ∀ p row, st'.names.byPeer.get p = some row → st.names.byPeer.get p = some row) :
    Overlay P approval server subnet name st' :=
  ⟨hvalid, fun r hr => h.routes r (hroutes r hr), hserver.trans h.server,
    fun p row hrow => h.rows p row (hrows p row hrow)⟩

theorem of_dropped (h : Overlay P approval server subnet name st) {l : Learned}
    {dropped : List Lease} {now : Instant} {ttl : Duration}
    (hsubnets : st'.learned.subnets = st.learned.subnets)
    (hnames : st'.names = (unlearnDropped l st.names dropped now ttl).2) :
    Overlay P approval server subnet name st' := by
  refine h.of_fewer (by rw [hsubnets]; exact h.valid) (by rw [hsubnets]; exact fun _ hr => hr) ?_ ?_
  · rw [hnames, NameTable.unlearnDropped_server]
  · intro p row hrow
    rw [hnames, unlearnDropped_names] at hrow
    split_ifs at hrow
    exact hrow

theorem routeAdvert (h : Overlay P approval server subnet name st) {advert : RouteAdvert}
    (htells : ∀ net ∈ advert.routes.map canonical, subnet peer net) :
    Overlay P approval server subnet name (st.handleRouteAdvert P approval peer advert env).1 := by
  have hsubnets : (st.handleRouteAdvert P approval peer advert env).1.learned.subnets =
      (st.learned.subnets.advertise P peer advert.routes approval env.now).1 := by
    simp only [handleRouteAdvert, maybeLearnBoth_subnets]
  refine ⟨by rw [hsubnets]; exact h.valid.advertise, ?_, h.server, h.rows⟩
  intro r hr
  rw [hsubnets, SubnetTable.mem_routes_advertise h.valid] at hr
  rcases hr with ⟨hnet, hwritten⟩ | ⟨-, hold, -⟩
  · rw [hwritten]
    exact ⟨htells r.net hnet, rfl⟩
  · exact h.routes r hold

theorem nameAdvert (h : Overlay P approval server subnet name st) {advert : NameAdvert}
    (htells : name peer advert.name advert.tunnelIp) :
    Overlay P approval server subnet name (st.handleNameAdvert peer advert env).1 := by
  have hsubnets : (st.handleNameAdvert peer advert env).1.learned.subnets =
      st.learned.subnets := by
    simp only [handleNameAdvert, maybeLearnBoth_subnets]
  refine ⟨by rw [hsubnets]; exact h.valid, by rw [hsubnets]; exact h.routes, ?_, ?_⟩
  · exact (NameTable.advertise_keeps_server _ _ _ _ _ _ _).trans h.server
  · intro p row hrow
    by_cases hp : p = peer
    · subst hp
      have hold : ∀ row, st.names.byPeer.get p = some row → ∃ raw ip4, row.Claims raw ip4 := by
        intro row hrow
        obtain ⟨raw, ip4, -, hclaims⟩ := h.rows p row hrow
        exact ⟨raw, ip4, hclaims⟩
      exact ⟨_, _, htells, (NameTable.advertise_row hold hrow).2⟩
    · refine h.rows p row ?_
      rw [← hrow]
      exact (NameTable.advertise_get_ne hp _ _ _ _ _ _).symm

/-- The tables stay so as long as endpoints say what they may. -/
theorem step (h : Overlay P approval server subnet name st)
    (htells : ∀ peer payload env, event = .control peer payload env →
      Tells (subnet peer) (name peer) payload)
    (hs : LearnState.step P approval st event = .ok (st', out)) :
    Overlay P approval server subnet name st' := by
  cases steps_of_step hs with
  | ignored _ => exact h
  | keepalive _ =>
    exact h.of_fewer (by simpa using h.valid) (by simp) rfl fun _ _ hrow => hrow
  | routeAdvert hparse => exact h.routeAdvert ((htells _ _ _ rfl).subnets _ hparse)
  | nameAdvert hparse => exact h.nameAdvert ((htells _ _ _ rfl).names _ hparse)
  | @packet peer plaintext env =>
    have hsubnets : (st.routePacket peer plaintext env).1.learned.subnets =
        st.learned.subnets := by
      rw [routePacket_state]
      dsimp only
      split_ifs
      · rfl
      · cases ipSrc plaintext with
        | none => rfl
        | some src => exact maybeLearn_subnets _ _
    have hnames : (st.routePacket peer plaintext env).1.names = st.names := by
      rw [routePacket_state]
    refine ⟨by rw [hsubnets]; exact h.valid, by rw [hsubnets]; exact h.routes,
      by rw [hnames]; exact h.server, by rw [hnames]; exact h.rows⟩
  | assignReq _ hreq =>
    unfold handleAssignReq at hreq
    obtain ⟨⟨assigner, call⟩, -, hreq⟩ := bind_eq_ok.1 hreq
    cases hreq
    refine h.of_dropped ?_ rfl
    cases call.reply with
    | none => exact unlearnDropped_subnets _ _ _ _ _
    | some reply => exact (learnReply_subnets _ reply _).trans (unlearnDropped_subnets _ _ _ _ _)
  | @sweep env =>
    have hsubnets : (st.sweep env).1.learned.subnets =
        (st.learned.subnets.expire st.leaseTtl env.now).1 := by
      simp [sweep]
    refine h.of_fewer ?_ ?_ ?_ ?_
    · rw [hsubnets]
      exact h.valid.expire _
    · intro r hr
      rw [hsubnets] at hr
      exact List.mem_of_mem_filter hr
    · exact NameTable.unlearnDropped_server _ _ _ _ _
    · intro p row hrow
      rw [sweep_names] at hrow
      split_ifs at hrow
      exact (Option.filter_eq_some_iff.1 hrow).1

end Overlay

end LearnState

/-! What a push says. -/

/-- A label and the address that it stands for: those of the server, or a label that was granted
to the name of an endpoint. -/
inductive Bears (server : PeerEntry) (name : SocketAddr → Text → Ipv4Addr → Prop) :
    Text → Ipv4Addr → Prop
  | server : Bears server name server.name server.ip4
  | endpoint {p : SocketAddr} {raw label : Text} {ip4 : Ipv4Addr} (hname : name p raw ip4)
      (hlabel : MayGrant (sanitizeHostname raw) label) : Bears server name label ip4

/-- A push to an endpoint has approved subnets behind other endpoints, and names. -/
structure Announces (P : Platform) (approval : RouteApproval) (server : PeerEntry)
    (subnet : SocketAddr → IpNetwork → Prop) (name : SocketAddr → Text → Ipv4Addr → Prop)
    (peer : SocketAddr) (payload : Bytes) : Prop where
  subnets : ∀ push, parseControl payload = some (.routePush push) →
    ∀ net ∈ push.routes.map canonical,
      approval.approves P net = true ∧ ∃ p, p ≠ peer ∧ subnet p net
  names : ∀ push, parseControl payload = some (.peerPush push) → ∀ e ∈ push.peers,
    Bears server name e.name e.ip4

section

variable {P : Platform} {approval : RouteApproval} {server : PeerEntry}
  {subnet subnet' : SocketAddr → IpNetwork → Prop} {name : SocketAddr → Text → Ipv4Addr → Prop}
  {st st' : LearnState} {out : EventOut} {peer : SocketAddr} {payload : Bytes} {env : Env}

theorem Announces.imp (h : Announces P approval server subnet name peer payload)
    (hs : ∀ p net, p ≠ peer → subnet p net → subnet' p net) :
    Announces P approval server subnet' name peer payload := by
  refine ⟨?_, h.names⟩
  intro push hpush net hnet
  obtain ⟨happroved, p, hne, hsubnet⟩ := h.subnets push hpush net hnet
  exact ⟨happroved, p, hne, hs p net hne hsubnet⟩

/-- A message that is no push announces nothing. -/
theorem announces_of_other {read : Option Control} (hparse : parseControl payload = read)
    (hroute : ∀ push, read ≠ some (.routePush push))
    (hname : ∀ push, read ≠ some (.peerPush push)) :
    Announces P approval server subnet name peer payload :=
  ⟨fun push h => absurd (hparse.symm.trans h) (hroute push),
    fun push h => absurd (hparse.symm.trans h) (hname push)⟩

theorem announces_packet (h : isControl payload = false) :
    Announces P approval server subnet name peer payload :=
  announces_of_other (parseControl_of_notControl h) (by simp) (by simp)

theorem LearnState.Overlay.pushed (h : Overlay P approval server subnet name st)
    (peer : SocketAddr) : Announces P approval server subnet name peer
      (RoutePush.encode ⟨st.learned.subnets.routesFor peer⟩) := by
  obtain ⟨⟨heard, hparse, hheard⟩, -⟩ := carries_routePush ⟨st.learned.subnets.routesFor peer⟩
  cases hheard
  refine ⟨?_, ?_⟩
  · intro push hpush net hnet
    cases hparse.symm.trans hpush
    obtain ⟨m, hm, rfl⟩ := List.mem_map.1 hnet
    obtain ⟨n, hn, rfl⟩ := List.mem_map.1 hm
    obtain ⟨r, hr, rfl, happroved, hne⟩ := SubnetTable.mem_routesFor.1 (List.mem_of_mem_take hn)
    obtain ⟨htells, heq⟩ := h.routes r hr
    rw [canonical_idem, h.valid.canonical r hr, ← heq]
    exact ⟨happroved, r.peer, hne, htells⟩
  · intro push hpush
    cases hparse.symm.trans hpush

theorem LearnState.Overlay.listed (h : Overlay P approval server subnet name st)
    (hl : st.names.Labelled) (peer : SocketAddr) (order : IterOrder SocketAddr NameRow) :
    Announces P approval server subnet name peer
      (PeerPush.encode ⟨st.names.snapshot order⟩) := by
  have hlabels := hl.snapshot order
  obtain ⟨⟨heard, hparse, hheard⟩, -⟩ := carries_peerPush hlabels
  cases hheard
  refine ⟨?_, ?_⟩
  · intro push hpush
    cases hparse.symm.trans hpush
  · intro push hpush e he
    cases hparse.symm.trans hpush
    obtain ⟨p, hp, rfl⟩ := List.mem_map.1 he
    have hmem := List.mem_of_mem_take hp
    have hcut : p.normalise.name = p.name :=
      cutName_of_le ((length_asBytes p.name).trans_le (hlabels p hmem).short)
    rw [hcut]
    rcases NameTable.mem_snapshot hmem with hserver | ⟨q, row, hrow, rfl⟩
    · cases h.server.symm.trans hserver
      exact .server
    · obtain ⟨raw, ip4, hname, hclaims⟩ := h.rows q row hrow
      obtain rfl := hclaims.ip4
      exact .endpoint hname hclaims.granted

theorem announces_assign (reply : Assign) :
    Announces P approval server subnet name peer reply.encode := by
  obtain ⟨⟨heard, hparse, hheard⟩, -⟩ := carries_assign reply
  cases hheard
  exact announces_of_other hparse (by simp) (by simp)

/-- The answers of a server whose tables hold what endpoints have said. -/
theorem LearnState.Overlay.announces {said : Control}
    (h : Overlay P approval server subnet name st') (hl : st'.names.Labelled)
    (hs : st.handleControl P approval peer payload env = .ok (st', out))
    (hreply : out.reply = some said) :
    Announces P approval server subnet name peer (encodeControl said) := by
  have hstep : LearnState.step P approval st (.control peer payload env) = .ok (st', out) := hs
  cases LearnState.steps_of_step hstep with
  | ignored _ => cases hreply
  | keepalive _ => cases hreply
  | routeAdvert _ =>
    have hpushed := h.pushed peer
    simp only [LearnState.handleRouteAdvert, EventOut.plain] at hreply hpushed
    split_ifs at hreply
    cases hreply
    exact hpushed
  | nameAdvert _ =>
    have hlisted := h.listed hl peer env.names
    simp only [LearnState.handleNameAdvert, EventOut.plain] at hreply hlisted
    split_ifs at hreply
    cases hreply
    exact hlisted
  | assignReq _ hreq =>
    unfold LearnState.handleAssignReq at hreq
    obtain ⟨⟨assigner, call⟩, -, hreq⟩ := bind_eq_ok.1 hreq
    cases hreq
    obtain ⟨reply, -, rfl⟩ := Option.map_eq_some_iff.1 hreply
    exact announces_assign reply

end

/-! What a client makes of a push. -/

/-- A label as a client looks it up: alone, or in the client's zone. -/
def Spelled (suffix label name : Text) : Prop :=
  name = label.map Char.toLower ∨ name = label.map Char.toLower ++ '.' :: suffix

theorem PeerTable.insertPeer_get {suffix name : Text} {map : HashMap Text PeerAddrs}
    {p : PeerEntry} {addrs : PeerAddrs} (h : (insertPeer suffix map p).get name = some addrs) :
    map.get name = some addrs ∨ Spelled suffix p.name name ∧ addrs = ⟨p.ip4, p.ip6⟩ := by
  unfold insertPeer at h
  dsimp only at h
  split_ifs at h
  · exact Or.inl h
  · rw [HashMap.get_insert] at h
    split_ifs at h with hname
    · exact Or.inr ⟨Or.inl hname, (Option.some.inj h).symm⟩
    · exact Or.inl h
  · rw [HashMap.get_insert, HashMap.get_insert] at h
    split_ifs at h with hname hzone
    · exact Or.inr ⟨Or.inl hname, (Option.some.inj h).symm⟩
    · exact Or.inr ⟨Or.inr hzone, (Option.some.inj h).symm⟩
    · exact Or.inl h

/-- What a client finds under a name is an entry of the push. -/
theorem PeerTable.lookup_replace {peers : List PeerEntry} {suffix name : Text} {addrs : PeerAddrs}
    (h : (PeerTable.replace peers suffix).lookup name = some addrs) :
    ∃ p ∈ peers, Spelled suffix p.name name ∧ addrs = ⟨p.ip4, p.ip6⟩ := by
  unfold PeerTable.replace PeerTable.lookup at h
  induction peers using List.reverseRecOn with
  | nil => cases h
  | append_singleton peers p ih =>
    rw [List.foldl_append, List.foldl_cons, List.foldl_nil] at h
    rcases insertPeer_get h with hold | hnew
    · obtain ⟨q, hq, hspelled⟩ := ih hold
      exact ⟨q, List.mem_append_left _ hq, hspelled⟩
    · exact ⟨p, List.mem_append_right _ List.mem_cons_self, hnew⟩

theorem ClientRun.step_push_installer {serverIp directSrc : IpAddr} {s s' : ClientRun}
    {kernel : RouteCall → Bool} {order : IterOrder IpNetwork Unit} {routes : List IpNetwork}
    {out : List Control} {ri : RouteInstaller}
    (h : s.step serverIp directSrc (.push kernel order routes) = .ok (s', out))
    (hri : s'.installer = some ri) :
    ∃ old, s.installer = some old ∧ ri = old.apply kernel order routes := by
  simp only [step] at h
  split at h
  · rename_i hnone
    cases h
    rw [hnone] at hri
    cases hri
  · rename_i old hold
    cases h
    refine ⟨old, hold, ?_⟩
    rw [← Option.some.inj hri, Installing.apply_installer]

end ShadowVpn
