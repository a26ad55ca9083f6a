import ShadowVpn.Proofs.Routing
import ShadowVpn.Sanity.Subnets

/-! To whom the server delivers: what an address request does to the routes of the other
nodes, and how the server's own tunnel address can be taken away from it. -/

namespace ShadowVpn

open Lib

def Sample.packet (src dst : UInt8) : List UInt8 :=
  0x45 :: List.replicate 11 0 ++ [10, 9, 0, src] ++ [10, 9, 0, dst]

/-! Addresses without a route. -/

structure Learned.Unrouted (l : Learned) (ip : IpAddr) : Prop where
  client : l.clients.get ip = none
  subnet : ∀ r, ¬ SubnetTable.Matches ip l.subnets r

namespace Learned.Unrouted

variable {l l' : Learned} {ip : IpAddr}

theorem lookup_eq_none (h : l.Unrouted ip) (now : Instant) (ttl : Duration) :
    l.lookup ip now ttl = none := by
  rw [lookup, h.client]
  exact SubnetTable.lookup_of_no_match h.subnet

/-- A client entry is live at least at the time it was last seen. -/
theorem iff_lookup (hv : l.subnets.Valid) (ttl : Duration) :
    l.Unrouted ip ↔ ∀ now, l.lookup ip now ttl = none := by
  refine ⟨fun h now => h.lookup_eq_none now ttl, ?_⟩
  intro h
  have hclient : l.clients.get ip = none := by
    cases he : l.clients.get ip with
    | none => rfl
    | some entry =>
      have hnow := h entry.lastSeen
      have hlive : live entry entry.lastSeen ttl = true := by
        simp [live, Instant.saturatingDurationSince]
      rw [lookup, he] at hnow
      dsimp only at hnow
      rw [if_pos hlive] at hnow
      cases hnow
  refine ⟨hclient, ?_⟩
  have hsub := h 0
  rw [lookup, hclient] at hsub
  exact hv.lookup_eq_none.1 hsub

theorem iff_of_client (h : l.Unrouted ip) {C : Prop} (hs : l'.subnets = l.subnets)
    (hc : l'.clients.get ip = none ↔ l.clients.get ip = none ∧ ¬ C) : l'.Unrouted ip ↔ ¬ C := by
  refine ⟨fun h' => (hc.1 h'.client).2, fun hno => ⟨hc.2 ⟨h.client, hno⟩, ?_⟩⟩
  rw [hs]
  exact h.subnet

end Learned.Unrouted

theorem Book.Allocates.grants_server {p : Policy} {b b' : Book} {req : AssignReq}
    {peer : SocketAddr} {now : SystemTime} {reply : Assign} {gone : List Lease}
    (h : b.Allocates p req peer now reply gone b') :
    (reply.status = .ok ∧ reply.Carries (.v4 p.serverIp)) ↔
      ∃ l, b.held req.nodeId = some l ∧ isExpired l.lastSeen now p.ttl = false ∧
        l.ip4 = p.serverIp := by
  have hcarries : reply.Carries (.v4 p.serverIp) ↔ reply.tunIp = p.serverIp := by
    simp [Assign.Carries, eq_comm]
  rw [hcarries]
  -- a node that gets a new lease has none that is unexpired
  have hnone : (b.expire p.ttl now).held req.nodeId = none → ¬ ∃ l, b.held req.nodeId = some l ∧
      isExpired l.lastSeen now p.ttl = false ∧ l.ip4 = p.serverIp := by
    rintro hn ⟨l, hl, he, -⟩
    rw [expire_held_some.2 ⟨hl, he⟩] at hn
    cases hn
  cases h with
  | @refresh l _ _ _ hl hg =>
    rw [hg.tunIp]
    obtain ⟨hheld, he⟩ := expire_held_some.1 hl
    constructor
    · rintro ⟨-, hip⟩
      exact ⟨l, hheld, he, hip⟩
    · rintro ⟨k, hk, -, hip⟩
      rw [hheld] at hk
      cases hk
      exact ⟨hg.status, hip⟩
  | fresh _ hu hf hg =>
    rw [hg.tunIp]
    exact iff_of_false (fun hip => hu.legal.ne_server hip.2) (hnone hf.node)
  | reclaim _ hn _ _ hu _ hg =>
    rw [hg.tunIp]
    exact iff_of_false (fun hip => hu.legal.ne_server hip.2) (hnone hn)
  | wasted _ hn _ _ _ => exact iff_of_false (fun hok => by cases hok.1) (hnone hn)
  | exhausted _ _ hall => exact iff_of_false (fun hok => by cases hok.1) (hnone (hall _))

namespace LearnState

variable {P : Platform} {approval : RouteApproval} {args : Assigner.Args}
  {es : List (Entry LearnState Event EventOut)} {st st' : LearnState} {b b' : Book}
  {event : Event} {out : EventOut} {peer : SocketAddr} {env : Env} {req : AssignReq}
  {reply : Assign} {ip : IpAddr}

theorem AssignEffect.lookup_eq (h : AssignEffect st peer req env b st' out reply b') {m : NodeId}
    {l : Lease} (hm : m ≠ req.nodeId) (hl : b'.held m = some l) (ho : l.Owns ip) (now : Instant)
    (ttl : Duration) : st'.learned.lookup ip now ttl = st.learned.lookup ip now ttl := by
  obtain ⟨hold, hstay⟩ := h.allocates.others hm hl
  obtain ⟨expired, victim, hleave⟩ := h.allocates.leavers
  have hdropped : ∀ d ∈ out.dropped, ¬ d.Owns ip := by
    intro d hd hod
    have hheld := hleave.held hd
    obtain rfl := b.owner_unique hheld hold hod ho
    rw [hheld] at hold
    exact hstay (Option.some.inj hold ▸ hd)
  have hreply : ¬ (reply.status = .ok ∧ reply.Carries ip) := by
    rintro ⟨hok, hc⟩
    obtain ⟨row, hrow, -, -, hg⟩ := h.allocates.granted hok
    exact hm (b'.owner_unique hl hrow ho (hg.owns_of_carries hc))
  have hget : st'.learned.clients.get ip = st.learned.clients.get ip := by
    rw [h.learned, learnReply_get_of_not hreply, unlearnDropped_get hdropped]
  have hsub : st'.learned.subnets = st.learned.subnets := by
    rw [h.learned, learnReply_subnets, unlearnDropped_subnets]
  unfold Learned.lookup
  rw [hget, hsub]

/-- After an `AssignReq` from `peer` no address that is leased to another node is routed to `peer`
exactly if, before it, none in a lease of another node was that the call does not drop. -/
theorem assign_no_cross_delivery_iff (h : Serves P approval args es st) {payload : List UInt8}
    (hp : parseControl payload = some (.assignReq req))
    (hs : st.handleControl P approval peer payload env = .ok (st', out)) :
    (∀ ip m, st'.assigner.nodeForIp ip = some m → m ≠ req.nodeId →
      ∀ now, st'.learned.lookup ip now st'.leaseTtl ≠ some peer) ↔
    ∀ m l ip, st.assigner.byNode.get m = some l → m ≠ req.nodeId → l ∉ out.dropped → l.Owns ip →
      ∀ now, st.learned.lookup ip now st.leaseTtl ≠ some peer := by
  obtain ⟨b, hr⟩ := serves_refines h
  rw [handleControl_assignReq hp] at hs
  obtain ⟨reply, b', he⟩ := handleAssignReq_effect hr hs
  constructor
  · intro hafter m l ip hl hm hno ho now
    rw [hr.held] at hl
    -- the lease that is there afterwards is the same
    obtain ⟨l', hl', -, -⟩ := he.allocates.stays hl hno
    cases hl.symm.trans (he.allocates.others hm hl').1
    rw [← he.lookup_eq hm hl' ho, ← he.leaseTtl]
    exact hafter ip m ((nodeForIp_iff he.refines).2 ⟨l, hl', ho⟩) hm now
  · intro hclear ip m hown hm now
    obtain ⟨l, hl, ho⟩ := (nodeForIp_iff he.refines).1 hown
    obtain ⟨hold, hstay⟩ := he.allocates.others hm hl
    rw [he.lookup_eq hm hl ho, he.leaseTtl]
    rw [← hr.held] at hold
    exact hclear m l ip hold hm hstay ho now

theorem assign_no_cross_delivery_iff_two : ∃ es st st' out, Serves Sample.platform Sample.approval
    Sample.args es st ∧
    st.handleControl Sample.platform Sample.approval (Sample.endpoint 2) (Sample.assignReq 2 11)
      (Sample.env 2) = .ok (st', out) ∧
    st'.assigner.nodeForIp (.v4 (Sample.addr 10)) = some (Sample.node 1) ∧
    ∀ now, st'.learned.lookup (.v4 (Sample.addr 10)) now st'.leaseTtl ≠
      some (Sample.endpoint 2) := by
  have hrun : ∃ started es st st' out l,
      Assigner.new Sample.args (Sample.time 1) (Sample.time 1) Sample.io .notFound = .ok started ∧
      exec (step Sample.platform Sample.approval)
        (start (started.assigner.configured none) ['h'] 300000000000)
        [.control (Sample.endpoint 1) (Sample.assignReq 1 10) (Sample.env 1)] = .ok (es, st) ∧
      st.handleControl Sample.platform Sample.approval (Sample.endpoint 2) (Sample.assignReq 2 11)
        (Sample.env 2) = .ok (st', out) ∧
      st.assigner.byNode = (∅ : HashMap NodeId Lease).insert (Sample.node 1) l ∧
      l.ip4 = Sample.addr 10 ∧ l.ip6 = none ∧
      st.learned = Learned.empty.learn (.v4 (Sample.addr 10)) (Sample.endpoint 1)
        ((Sample.env 1).clock 0) ∧
      st'.assigner.nodeForIp (.v4 (Sample.addr 10)) = some (Sample.node 1) :=
    ⟨_, _, _, _, _, _, rfl, rfl, rfl, rfl, rfl, rfl, rfl, by decide +kernel⟩
  obtain ⟨started, es, st, st', out, l, hnew, hexec, hs, hrows, h4, h6, hlearned, hown⟩ := hrun
  have hserves : Serves Sample.platform Sample.approval Sample.args es st :=
    ⟨_, _, _, _, started, none, _, _, hnew, exec_run hexec⟩
  have hparse : parseControl (Sample.assignReq 2 11) = some (.assignReq (Sample.req 2 11)) := rfl
  refine ⟨es, st, st', out, hserves, hs, hown,
    (assign_no_cross_delivery_iff hserves hparse hs).2 ?_ _ _ hown (by decide)⟩
  -- the only address leased so far is routed to the other endpoint, if at all
  intro m k ip hk hm _ ho now
  rw [hrows, HashMap.get_insert] at hk
  split_ifs at hk
  · cases hk
    obtain rfl : ip = .v4 (Sample.addr 10) := by
      rcases ho with rfl | ⟨a, ha, -⟩
      · rw [h4]
      · rw [h6] at ha
        cases ha
    rw [hlearned, Learned.lookup, Learned.learn_clients, if_pos rfl]
    dsimp only
    split_ifs
    · decide
    · rw [Learned.learn_subnets]
      decide
  · cases hk

/-- The second node behind one endpoint receives what is sent to the first one's address. -/
theorem taken_endpoint_keeps_route : ∃ es st st' out reply,
    Serves Sample.platform Sample.approval Sample.args es st ∧
    parseControl (Sample.assignReq 2 11) = some (.assignReq (Sample.req 2 11)) ∧
    st.handleControl Sample.platform Sample.approval (Sample.endpoint 1) (Sample.assignReq 2 11)
      (Sample.env 2) = .ok (st', out) ∧
    out.reply = some (.assign reply) ∧ reply.status = .ok ∧
    st'.assigner.nodeForPeer (Sample.endpoint 1) = some (Sample.node 2) ∧
    st'.assigner.nodeForIp (.v4 (Sample.addr 10)) = some (Sample.node 1) ∧
    st'.learned.lookup (.v4 (Sample.addr 10)) (Sample.env 2).now st'.leaseTtl =
      some (Sample.endpoint 1) := by
  have hrun : ∃ started es st st' out reply,
      Assigner.new Sample.args (Sample.time 1) (Sample.time 1) Sample.io .notFound = .ok started ∧
      exec (step Sample.platform Sample.approval)
        (start (started.assigner.configured none) ['h'] 300000000000)
        [.control (Sample.endpoint 1) (Sample.assignReq 1 10) (Sample.env 1)] = .ok (es, st) ∧
      st.handleControl Sample.platform Sample.approval (Sample.endpoint 1) (Sample.assignReq 2 11)
        (Sample.env 2) = .ok (st', out) ∧
      out.reply = some (.assign reply) ∧ reply.status = .ok ∧
      st'.assigner.nodeForPeer (Sample.endpoint 1) = some (Sample.node 2) ∧
      st'.assigner.nodeForIp (.v4 (Sample.addr 10)) = some (Sample.node 1) ∧
      st'.learned.lookup (.v4 (Sample.addr 10)) (Sample.env 2).now st'.leaseTtl =
        some (Sample.endpoint 1) :=
    ⟨_, _, _, _, _, _, rfl, rfl, rfl, rfl, rfl, rfl, by decide +kernel, by decide +kernel⟩
  obtain ⟨started, es, st, st', out, reply, hnew, hexec, hs, hrest⟩ := hrun
  have hserves : Serves Sample.platform Sample.approval Sample.args es st :=
    ⟨_, _, _, _, started, none, _, _, hnew, exec_run hexec⟩
  exact ⟨es, st, st', out, reply, hserves, rfl, hs, hrest⟩

/-! The server's own address. -/

/-- The control messages that route `ip` to a client: one that claims the address, an
approved route that contains it, and the renewal of a lease of it. -/
def ControlCaptures (P : Platform) (approval : RouteApproval) (st : LearnState) (peer : SocketAddr)
    (env : Env) (ip : Ipv4Addr) : Option Control → Prop
  | some (.keepalive (some src)) => src = ip ∧ st.assigner.MayHave peer (.v4 src)
  | some (.routeAdvert advert) =>
    (advert.tunnelIp = ip ∧ st.assigner.MayHave peer (.v4 advert.tunnelIp)) ∨
      ∃ net ∈ advert.routes.map canonical, approval.approves P net = true ∧
        SubnetTable.contains net (.v4 ip) = true
  | some (.nameAdvert advert) =>
    advert.tunnelIp = ip ∧ st.assigner.MayHave peer (.v4 advert.tunnelIp)
  | some (.assignReq req) => ∃ l, st.assigner.byNode.get req.nodeId = some l ∧
      isExpired l.lastSeen env.systemNow st.assigner.ttl = false ∧ l.ip4 = ip
  | _ => False

def Captures (P : Platform) (approval : RouteApproval) (ip : Ipv4Addr) (st : LearnState) :
    Event → Prop
  | .control peer payload env => ControlCaptures P approval st peer env ip (parseControl payload)
  | .packet peer plaintext _ => 20 ≤ plaintext.length ∧ ipSrc plaintext = some (.v4 ip) ∧
      st.assigner.MayHave peer (.v4 ip)
  | .sweep _ => False

theorem step_valid (hr : Refines st.assigner b) (hv : st.learned.subnets.Valid)
    (hs : step P approval st event = .ok (st', out)) : st'.learned.subnets.Valid := by
  cases steps_of_step hs with
  | ignored _ => exact hv
  | keepalive _ => simpa using hv
  | routeAdvert _ =>
    apply SubnetTable.Valid.advertise
    simpa using hv
  | nameAdvert _ => simpa [handleNameAdvert] using hv
  | assignReq _ h =>
    obtain ⟨reply, b', he⟩ := handleAssignReq_effect hr h
    rw [he.learned]
    simpa using hv
  | packet =>
    rw [routePacket_state]
    dsimp only
    split_ifs
    · exact hv
    · split
      · simpa using hv
      · exact hv
  | sweep =>
    simp only [sweep, unlearnDropped_subnets, Learned.expireClients_subnets]
    exact hv.expire _

theorem unrouted_advertise {t : SubnetTable} (hv : t.Valid)
    (hu : ∀ r, ¬ SubnetTable.Matches ip t r) (nets : List IpNetwork) (now : Instant) :
    (∀ r, ¬ SubnetTable.Matches ip (t.advertise P peer nets approval now).1 r) ↔
      ¬ ∃ net ∈ nets.map canonical, approval.approves P net = true ∧
        SubnetTable.contains net ip = true := by
  rw [not_exists]
  constructor
  · rintro h net ⟨hnet, happ, hc⟩
    apply h (SubnetTable.written P approval peer now net)
    exact ⟨(SubnetTable.mem_routes_advertise hv).2 (Or.inl ⟨hnet, rfl⟩), happ, hc⟩
  · rintro h r ⟨hmem, happ, hc⟩
    rcases (SubnetTable.mem_routes_advertise hv).1 hmem with ⟨hnet, hr⟩ | ⟨-, hold, -⟩
    · rw [hr] at happ
      exact h r.net ⟨hnet, happ, hc⟩
    · exact hu r ⟨hold, happ, hc⟩

theorem Ignored.not_captures {control : Option Control} (h : Ignored control) {ip : Ipv4Addr} :
    ¬ ControlCaptures P approval st peer env ip control := by
  intro hc
  cases h with
  | malformed => exact hc
  | keepalive => exact hc
  | routePush _ => exact hc
  | assign _ => exact hc
  | peerPush _ => exact hc

theorem routePacket_unrouted {ip : Ipv4Addr} (hu : st.learned.Unrouted (.v4 ip))
    (plaintext : List UInt8) :
    (st.routePacket peer plaintext env).1.learned.Unrouted (.v4 ip) ↔
      ¬ (20 ≤ plaintext.length ∧ ipSrc plaintext = some (.v4 ip) ∧
        st.assigner.MayHave peer (.v4 ip)) := by
  rw [routePacket_state]
  dsimp only
  split_ifs with hlen
  · exact iff_of_true hu fun h => Nat.not_le.2 hlen h.1
  · cases hsrc : ipSrc plaintext with
    | none => exact iff_of_true hu fun h => by cases h.2.1
    | some src =>
      apply hu.iff_of_client (maybeLearn_subnets _ _)
      rw [maybeLearn_unrouted, Option.some.injEq]
      refine and_congr_right fun _ => not_congr ⟨?_, ?_⟩
      · rintro ⟨rfl, hmay⟩
        exact ⟨Nat.not_lt.1 hlen, rfl, hmay⟩
      · rintro ⟨-, rfl, hmay⟩
        exact ⟨rfl, hmay⟩

theorem sweep_unrouted (hu : st.learned.Unrouted ip) (env : Env) :
    (st.sweep env).1.learned.Unrouted ip := by
  constructor
  · apply unlearnDropped_unrouted
    rw [Option.eq_none_iff_forall_ne_some]
    intro entry he
    have hold := Learned.expireClients_forgets _ _ _ ip entry he
    rw [hu.client] at hold
    cases hold
  · intro r hr
    simp only [sweep, unlearnDropped_subnets, Learned.expireClients_subnets] at hr
    exact hu.subnet r ⟨List.mem_of_mem_filter hr.mem, hr.approved, hr.contains⟩

theorem step_unrouted (hr : Refines st.assigner b) (hv : st.learned.subnets.Valid)
    (hu : st.learned.Unrouted (.v4 st.assigner.serverIp))
    (hs : step P approval st event = .ok (st', out)) :
    st'.learned.Unrouted (.v4 st.assigner.serverIp) ↔
      ¬ Captures P approval st.assigner.serverIp st event := by
  cases steps_of_step hs with
  | ignored h => exact iff_of_true hu h.not_captures
  | keepalive h =>
    rw [Captures, h, ControlCaptures]
    apply hu.iff_of_client (maybeLearn_subnets _ _)
    rw [maybeLearn_unrouted, IpAddr.v4.injEq]
  | @routeAdvert peer _ env advert h =>
    rw [Captures, h, ControlCaptures, not_or]
    have hsub : (maybeLearnBoth st.learned st.assigner advert.tunnelIp advert.tunnelIp6 peer
        env.clock).subnets = st.learned.subnets := maybeLearnBoth_subnets _ _ _ _
    have hclient : (maybeLearnBoth st.learned st.assigner advert.tunnelIp advert.tunnelIp6 peer
        env.clock).clients.get (.v4 st.assigner.serverIp) = none ↔ _ :=
      (maybeLearnBoth_unrouted _ _ _ _ _).trans (and_iff_right hu.client)
    rw [← hclient, ← unrouted_advertise (hsub ▸ hv) (hsub ▸ hu.subnet) advert.routes env.now]
    exact ⟨fun h => ⟨h.client, h.subnet⟩, fun h => ⟨h.1, h.2⟩⟩
  | @nameAdvert peer _ env advert h =>
    rw [Captures, h, ControlCaptures]
    apply hu.iff_of_client (maybeLearnBoth_subnets _ _ _ _)
    exact maybeLearnBoth_unrouted _ _ _ _ _
  | @assignReq peer _ env req _ _ h hreq =>
    obtain ⟨reply, b', he⟩ := handleAssignReq_effect hr hreq
    rw [Captures, h, ControlCaptures, hr.held]
    refine Iff.trans ?_ (not_congr he.allocates.grants_server)
    apply hu.iff_of_client
    · rw [he.learned, learnReply_subnets, unlearnDropped_subnets]
    · rw [he.learned, learnReply_unrouted]
      exact and_congr_left fun _ =>
        iff_of_true (unlearnDropped_unrouted hu.client _ _ _ _) hu.client
  | packet => exact routePacket_unrouted hu _
  | sweep => exact iff_of_true (sweep_unrouted hu _) id

theorem routePacket_tun {plaintext : List UInt8} (hlen : 20 ≤ plaintext.length)
    (hdst : ipDst plaintext = some ip)
    (hu : (st.routePacket peer plaintext env).1.learned.Unrouted ip) :
    (st.routePacket peer plaintext env).2 = some .tun := by
  have hstate := routePacket_state st peer plaintext env
  rw [if_neg (Nat.not_lt.2 hlen)] at hstate
  rw [hstate] at hu
  unfold routePacket
  rw [if_neg (Nat.not_lt.2 hlen), hdst]
  cases hsrc : ipSrc plaintext with
  | none =>
    rw [hsrc] at hu
    have hno := hu.lookup_eq_none env.now st.leaseTtl
    dsimp only [Option.bind_some] at hno ⊢
    rw [hno]
  | some src =>
    rw [hsrc] at hu
    have hno := hu.lookup_eq_none env.now st.leaseTtl
    dsimp only [Option.bind_some] at hno ⊢
    rw [hno]

/-- The server's address is unrouted, and packets for it reach the TUN device, all along a
run exactly if no event of the run captures it. -/
theorem server_ip_unrouted_iff (h : Serves P approval args es st) :
    (∀ e ∈ es, ¬ Captures P approval args.serverIp e.pre e.input) ↔
      ∀ e ∈ es, (∀ now, e.post.learned.lookup (.v4 args.serverIp) now e.post.leaseTtl = none) ∧
        ∀ peer plaintext env, e.input = .packet peer plaintext env → 20 ≤ plaintext.length →
          ipDst plaintext = some (.v4 args.serverIp) →
            (e.pre.routePacket peer plaintext env).2 = some .tun := by
  obtain ⟨s₀, hfresh, hrun⟩ := h.run
  -- what every event keeps, captured or not
  let I : LearnState → Prop := fun st => (∃ b, Refines st.assigner b) ∧
    st.assigner.serverIp = args.serverIp ∧ st.learned.subnets.Valid
  have hI : ∀ s i o s', I s → step P approval s i = .ok (s', o) → I s' := by
    rintro s i o s' ⟨⟨b, hr⟩, hip, hv⟩ hs
    obtain ⟨hr', hpol⟩ := step_refines hr hs
    exact ⟨hr', (congrArg Policy.serverIp hpol).trans hip, step_valid hr hv hs⟩
  have hI₀ : I s₀ := ⟨hfresh.refines, hfresh.serverIp, hfresh.learned ▸ SubnetTable.Valid.empty⟩
  have hG₀ : s₀.learned.Unrouted (.v4 args.serverIp) := by
    rw [hfresh.learned]
    exact ⟨rfl, fun r hr => by cases hr.mem⟩
  rw [hrun.forall_iff (G := fun st => st.learned.Unrouted (.v4 args.serverIp)) hI ?_ hI₀ hG₀]
  · refine forall₂_congr fun e he => ?_
    obtain ⟨⟨fs, hpre⟩, hs⟩ := hrun.entry he
    have hpost : I e.post := hI _ _ _ _ (hpre.invariant hI hI₀) hs
    rw [Learned.Unrouted.iff_lookup hpost.2.2 e.post.leaseTtl]
    refine ⟨fun hno => ⟨hno, ?_⟩, And.left⟩
    intro peer plaintext env hin hlen hdst
    have hu := (Learned.Unrouted.iff_lookup hpost.2.2 e.post.leaseTtl).2 hno
    rw [hin] at hs
    have hstate : (e.pre.routePacket peer plaintext env).1 = e.post :=
      congrArg Prod.fst (Except.ok.inj hs)
    exact routePacket_tun hlen hdst (hstate ▸ hu)
  · rintro s i o s' ⟨⟨b, hr⟩, hip, hv⟩ hu hs
    rw [← hip] at hu ⊢
    exact step_unrouted hr hv hu hs

/-- A client with a lease, and a packet of another one for the server. -/
theorem server_ip_unrouted_iff_quiet : ∃ es st e,
    Serves Sample.platform Sample.approval Sample.args es st ∧ e ∈ es ∧
    e.input = .packet (Sample.endpoint 2) (Sample.packet 50 1) (Sample.env 2) ∧
    (e.pre.routePacket (Sample.endpoint 2) (Sample.packet 50 1) (Sample.env 2)).2 = some .tun := by
  have hrun : ∃ started o₁ o₂ s₁ s₂,
      Assigner.new Sample.args (Sample.time 1) (Sample.time 1) Sample.io .notFound = .ok started ∧
      step Sample.platform Sample.approval
        (start (started.assigner.configured none) ['h'] 300000000000)
        (.control (Sample.endpoint 1) (Sample.assignReq 1 10) (Sample.env 1)) = .ok (s₁, o₁) ∧
      step Sample.platform Sample.approval s₁
        (.packet (Sample.endpoint 2) (Sample.packet 50 1) (Sample.env 2)) = .ok (s₂, o₂) ∧
      (start (started.assigner.configured none) ['h'] 300000000000).assigner.byNode.get
        (Sample.node 1) = none :=
    ⟨_, _, _, _, _, rfl, rfl, rfl, rfl⟩
  obtain ⟨started, o₁, o₂, s₁, s₂, hnew, h₁, h₂, hfree⟩ := hrun
  have hserves : Serves Sample.platform Sample.approval Sample.args _ s₂ :=
    ⟨_, _, _, _, started, none, _, _, hnew, (Run.single h₁).snoc h₂⟩
  have hparse : parseControl (Sample.assignReq 1 10) = some (.assignReq (Sample.req 1 10)) := rfl
  have hquiet := (server_ip_unrouted_iff hserves).1 ?_
  · refine ⟨_, s₂, _, hserves, List.mem_append_right _ (List.mem_singleton_self _), rfl, ?_⟩
    exact (hquiet _ (List.mem_append_right _ (List.mem_singleton_self _))).2 _ _ _ rfl (by decide)
      (by decide)
  · rw [List.forall_mem_append, List.forall_mem_singleton, List.forall_mem_singleton]
    refine ⟨?_, fun hc => absurd hc.2.1 (by decide)⟩
    rw [Captures, hparse]
    rintro ⟨l, hl, -⟩
    exact absurd hl (hfree ▸ nofun)

/-- A keepalive for the server's address diverts the packets for it. -/
theorem keepalive_captures_server : ∃ es st,
    Serves Sample.platform Sample.approval Sample.args es st ∧
    ipDst (Sample.packet 50 1) = some (.v4 Sample.args.serverIp) ∧
    st.learned.lookup (.v4 Sample.args.serverIp) (Sample.env 2).now st.leaseTtl =
      some (Sample.endpoint 1) ∧
    (st.routePacket (Sample.endpoint 2) (Sample.packet 50 1) (Sample.env 2)).2 =
      some (.relay (Sample.endpoint 1)) := by
  have hrun : ∃ started es st,
      Assigner.new Sample.args (Sample.time 1) (Sample.time 1) Sample.io .notFound = .ok started ∧
      exec (step Sample.platform Sample.approval)
        (start (started.assigner.configured none) ['h'] 300000000000)
        [.control (Sample.endpoint 1) (Sample.keepalive 1) (Sample.env 1)] = .ok (es, st) ∧
      st.learned.lookup (.v4 Sample.args.serverIp) (Sample.env 2).now st.leaseTtl =
        some (Sample.endpoint 1) ∧
      (st.routePacket (Sample.endpoint 2) (Sample.packet 50 1) (Sample.env 2)).2 =
        some (.relay (Sample.endpoint 1)) :=
    ⟨_, _, _, rfl, rfl, by decide +kernel, by decide +kernel⟩
  obtain ⟨started, es, st, hnew, hexec, hrest⟩ := hrun
  exact ⟨es, st, ⟨_, _, _, _, started, none, _, _, hnew, exec_run hexec⟩, by decide, hrest⟩

end LearnState

end ShadowVpn
