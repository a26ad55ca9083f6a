import ShadowVpn.Proofs.Nat
import ShadowVpn.Proofs.Routing
import ShadowVpn.Sanity.Relay

/-! The relay as a whole: five tasks do what one would, whatever is sent is read as it was meant,
and a translating server keeps its clients apart. -/

namespace ShadowVpn

open Lib

variable {L : Primitives} {P : Platform} {cfg : ServerConfig} {o : Option Obfuscator}
  {clock now : SystemTime} {io : Io} {disk : LeaseFile} {r₀ r : Routing}

/-! Tasks. -/

theorem Routing.Initial.evolves_nat (h : Routing.Initial cfg r₀) (hnat : cfg.nat = true)
    (he : Routing.Evolves P cfg.routeApproval r₀ r) :
    ∃ s gs, r = .nat s ∧
      Run NatState.step (NatState.new cfg.tun.ip cfg.tun.netmask cfg.leaseTtl) gs s := by
  cases h with
  | learn hlearn _ =>
    rw [hnat] at hlearn
    cases hlearn
  | nat _ =>
    cases he with
    | nat hrun => exact ⟨_, _, rfl, hrun⟩

theorem Routing.Initial.evolves_learn (h : Routing.Initial cfg r₀) (hnat : cfg.nat = false)
    (he : Routing.Evolves P cfg.routeApproval r₀ r) :
    ∃ st gs, r = .learn st ∧ LearnState.Serves P cfg.routeApproval cfg.assignArgs gs st := by
  cases h with
  | nat hyes =>
    rw [hnat] at hyes
    cases hyes
  | @learn clock now io disk started _ hnew =>
    cases he with
    | learn hrun =>
      exact ⟨_, _, rfl, clock, now, io, disk, started, _, cfg.hostname, cfg.leaseTtl, hnew, hrun⟩

/-- However the readers, the processors and the sweeper take turns, the routing state is that of a
server that handles the datagrams and packets one by one, each loop in the order in which they
came: none is lost, doubled or overtaken on the way, and each loop emits, in that order, what
came of them. So what holds of every state of the two modes holds whatever the tasks do. -/
theorem server_tasks_serialise (h₀ : cfg.routing clock now io disk = .ok r₀)
    {es : List (Entry (Pipeline.State Loop Job Routing Emit)
      (Pipeline.Task Loop Job RelayEnv RelayEnv) (List Emit))}
    {s : Pipeline.State Loop Job Routing Emit}
    (h : Run (serverTasks L P cfg o).step (.start r₀) es s) :
    (∃ fs, (serverTasks L P cfg o).Follows r₀ es s fs) ∧
    (cfg.nat = true → ∃ n gs, s.shared = .nat n ∧
      Run NatState.step (NatState.new cfg.tun.ip cfg.tun.netmask cfg.leaseTtl) gs n) ∧
    (cfg.nat = false → ∃ st gs, s.shared = .learn st ∧
      LearnState.Serves P cfg.routeApproval cfg.assignArgs gs st) := by
  have hinit := ServerConfig.routing_initial h₀
  obtain ⟨fs, hfs⟩ := Pipeline.run_follows h
  have hevolves : Routing.Evolves P cfg.routeApproval r₀ s.shared :=
    Routing.run_evolves (L := L) (o := o) hfs.run
  exact ⟨⟨fs, hfs⟩, fun hnat => hinit.evolves_nat hnat hevolves,
    fun hnat => hinit.evolves_learn hnat hevolves⟩

namespace Sample

def natServer : ServerConfig where
  listen := []
  cipher := .aes128Gcm
  masterKey := []
  tun := ⟨none, addr 1, 0xFFFFFF00, addr 2, none, 1400⟩
  obfs := none
  nat := true
  leaseTtl := 8000000000
  routeApproval := approval
  assignPool := none
  reservedIps := []
  assignTtl := 8000000000
  leaseFile := none
  hostname := ['h']

def relayEnv (secs : Fin 1000000) : RelayEnv := { env secs with leases := .stored }

def sealed (payload : Bytes) : Bytes :=
  List.replicate 16 7 ++ payload ++ List.replicate 16 0xAA

def natStart : Routing := .nat (NatState.new (addr 1) 0xFFFFFF00 8000000000)

def interleaved : List (Pipeline.Task Loop Job RelayEnv RelayEnv) :=
  [.read .udpToTun (.datagram (endpoint 1) (sealed datagram)), .read .tunToUdp (.packet answer),
    .push .udpToTun, .push .tunToUdp, .take .udpToTun, .take .tunToUdp,
    .work .udpToTun (relayEnv 1), .work .tunToUdp (relayEnv 1), .emit .tunToUdp]

end Sample

theorem Sample.interleaved_run : ∃ es s,
    Run (serverTasks primitives platform natServer none).step (.start natStart) es s ∧
    Pipeline.emittedAll .tunToUdp es =
      [.send (endpoint 1) (rewriteAddr answer DST_OFFSET (addr 2))] ∧
    (s.lanes .udpToTun).pending = [.tun (rewriteAddr datagram SRC_OFFSET (addr 2))] := by
  have hrun : ∃ es s, exec (serverTasks primitives platform natServer none).step (.start natStart)
        interleaved = .ok (es, s) ∧
      Pipeline.emittedAll .tunToUdp es =
        [.send (endpoint 1) (rewriteAddr answer DST_OFFSET (addr 2))] ∧
      (s.lanes .udpToTun).pending = [.tun (rewriteAddr datagram SRC_OFFSET (addr 2))] :=
    ⟨_, _, rfl, by decide +kernel, by decide +kernel⟩
  obtain ⟨es, s, hexec, hout, hpending⟩ := hrun
  exact ⟨es, s, exec_run hexec, hout, hpending⟩

theorem server_tasks_serialise_interleaved : ∃ es s fs,
    Run (serverTasks Sample.primitives Sample.platform Sample.natServer none).step
      (.start Sample.natStart) es s ∧
    (serverTasks Sample.primitives Sample.platform Sample.natServer none).Follows Sample.natStart es
      s fs := by
  obtain ⟨es, s, hrun, -, -⟩ := Sample.interleaved_run
  have h₀ : Sample.natServer.routing (Sample.time 0) (Sample.time 0) Sample.io .notFound =
      .ok Sample.natStart := rfl
  obtain ⟨⟨fs, hfs⟩, -⟩ := server_tasks_serialise h₀ hrun
  exact ⟨es, s, fs, hrun, hfs⟩

/-! Payloads. -/

def Job.sender : Job → Option SocketAddr
  | .datagram peer _ => some peer
  | .packet _ => none

/-- What the worker makes of a job in the state `r`: for the device what no end takes for a control
message, a packet with a destination for someone other than the sender, or what
`handle_control` answers the sender, which is heard as it was said. -/
inductive Legible (L : Primitives) (P : Platform) (cfg : ServerConfig) (o : Option Obfuscator)
    (r : Routing) (env : RelayEnv) (r' : Routing) : Job → Emit → Prop
  | device {peer : SocketAddr} {pkt payload packet : Bytes}
      (hopen : Opens L P cfg.cipher cfg.masterKey o pkt payload) (hp : Forwardable packet)
      (hfrom : packet = payload ∨ ∃ ip, packet = rewriteAddr payload SRC_OFFSET ip) :
      Legible L P cfg o r env r' (.datagram peer pkt) (.tun packet)
  | forwarded {job : Job} {peer : SocketAddr} {packet : Bytes} {dst : IpAddr}
      (hne : job.sender ≠ some peer) (hp : Forwardable packet) (hdst : ipDst packet = some dst) :
      Legible L P cfg o r env r' job (.send peer packet)
  | answered {peer : SocketAddr} {pkt payload : Bytes} {said : Control}
      (hopen : Opens L P cfg.cipher cfg.masterKey o pkt payload)
      (hsaid : r.handleControl P cfg.routeApproval peer payload env = .ok (r', some said))
      (hcarries : Carries (encodeControl said) said) :
      Legible L P cfg o r env r' (.datagram peer pkt) (.send peer (encodeControl said))

theorem LearnState.routePacket_relay {st : LearnState} {peer next : SocketAddr} {payload : Bytes}
    {env : Env} (h : (st.routePacket peer payload env).2 = some (.relay next)) :
    next ≠ peer ∧ ∃ dst, ipDst payload = some dst := by
  unfold LearnState.routePacket at h
  split at h
  · cases h
  · dsimp only at h
    split at h
    · rename_i hlookup
      obtain ⟨dst, hdst, -⟩ := Option.bind_eq_some_iff.1 hlookup
      split_ifs at h with hne
      · cases h
        exact ⟨hne, dst, hdst⟩
      · cases h
    · cases h

namespace Routing

variable {r' : Routing} {job : Job} {env : RelayEnv} {e : Option Emit} {out : Emit}

def Labelled : Routing → Prop
  | .learn st => st.names.Labelled
  | .nat _ => True

theorem Initial.labelled (h : Initial cfg r) (he : Evolves P cfg.routeApproval r r') :
    r'.Labelled := by
  cases he with
  | nat _ => trivial
  | learn hrun =>
    cases h with
    | @learn clock now io disk started hlearn hnew =>
      obtain ⟨st, gs, heq, hserves⟩ := (Initial.learn hlearn hnew).evolves_learn hlearn (.learn hrun)
      cases heq
      exact (LearnState.serves_names hserves).labelled

theorem learn_route_legible {st : LearnState} {peer : SocketAddr} {pkt payload : Bytes}
    (hopen : Opens L P cfg.cipher cfg.masterKey o pkt payload) (hp : Forwardable payload)
    (h : ((Routing.learn st).route peer payload env).2 = some out) :
    Legible L P cfg o r env r' (.datagram peer pkt) out := by
  obtain ⟨action, haction, hout⟩ := Option.bind_eq_some_iff.1 h
  cases action with
  | tun =>
    cases hout
    exact .device hopen hp (Or.inl rfl)
  | bounce => cases hout
  | relay next =>
    cases hout
    obtain ⟨hne, dst, hdst⟩ := LearnState.routePacket_relay haction
    exact .forwarded (fun heq => hne (Option.some.inj heq).symm) hp hdst

end Routing

/-! Translation. -/

namespace NatState

variable {s : NatState} {peer : SocketAddr} {pkt : Bytes} {env : RelayEnv} {out : Emit}

theorem route_emit (h : ((Routing.nat s).route peer pkt env).2 = some out) :
    ∃ s' session, ((Routing.nat s).route peer pkt env).1 = .nat s' ∧
      s'.byPeer.get peer = some session ∧ WellFormed pkt ∧
      out = .tun (rewriteAddr pkt SRC_OFFSET session.internal) := by
  generalize hr : s.ingress peer pkt env.now = res
  obtain ⟨s', packet, result⟩ := res
  have hstep : step s (.ingress peer pkt env.now) = .ok (s', .ingress result packet) := by
    simp only [step, hr]
  simp only [Routing.route, hr] at h ⊢
  cases steps_of_step hstep with
  | invalid _ => cases h
  | exhausted _ _ _ => cases h
  | known hw hs =>
    cases h
    exact ⟨_, _, rfl, hs, hw, rfl⟩
  | @fresh _ _ _ src a pool hsrc _ _ =>
    cases h
    refine ⟨_, ⟨a, src⟩, rfl, ?_, (addrAt_eq_some.1 hsrc).1, rfl⟩
    rw [HashMap.get_insert, if_pos rfl]

theorem resolve_emit (hi : s.Inv) (h : ((Routing.nat s).resolve pkt env).2 = some out) :
    ∃ peer session, s.byPeer.get peer = some session ∧ parseDst pkt = some session.internal ∧
      out = .send peer (rewriteAddr pkt DST_OFFSET session.clientIp) := by
  generalize hr : s.egress pkt env.now = res
  obtain ⟨s', packet, target⟩ := res
  have hstep : step s (.egress pkt env.now) = .ok (s', .egress target packet) := by
    simp only [step, hr]
  simp only [Routing.resolve, hr] at h
  cases steps_of_step hstep with
  | undelivered _ => cases h
  | @delivered _ _ dst peer session hdst hpeer hs =>
    cases h
    obtain ⟨session', hs', hkey⟩ := (hi.index dst peer).1 hpeer
    cases hs.symm.trans hs'
    rw [← Option.some.inj hkey] at hdst
    exact ⟨peer, session, hs, hdst, rfl⟩

end NatState

namespace Routing

variable {r' : Routing} {job : Job} {env : RelayEnv} {e : Option Emit} {out : Emit}

def Sound : Routing → Prop
  | .learn _ => True
  | .nat s => s.Inv

theorem Sound.evolves {approval : RouteApproval} (h : r.Sound) (he : Evolves P approval r r') :
    r'.Sound := by
  cases he with
  | learn _ => trivial
  | nat hrun => exact hrun.invariant (I := NatState.Inv) (fun _ _ _ _ h hs => h.step hs) h

theorem Initial.sound (h : Initial cfg r) : r.Sound := by
  cases h with
  | nat _ => exact NatState.new_inv _ _ _
  | learn _ _ => trivial

theorem Works.legible (h : Works L P cfg o r env job r' e) (hl : r'.Labelled) (hs : r.Sound)
    (he : e = some out) : Legible L P cfg o r env r' job out := by
  cases h with
  | noise _ => cases he
  | short _ _ _ => cases he
  | control hopen _ h =>
    obtain ⟨said, rfl, rfl⟩ := Option.map_eq_some_iff.1 he
    refine .answered hopen h ?_
    cases r with
    | learn st =>
      obtain ⟨st', out, hcontrol, rfl, hreply⟩ := handleControl_learn h
      exact LearnState.handleControl_carries hl hcontrol hreply.symm
    | nat s =>
      obtain ⟨rfl, -⟩ := (handleControl_nat h).2 said rfl
      exact carries_assign natModeAssign
  | routed hopen hc hlen =>
    cases r with
    | learn st => exact learn_route_legible hopen ⟨hc, hlen⟩ he
    | nat s =>
      obtain ⟨s', session, -, -, hw, rfl⟩ := NatState.route_emit he
      exact .device hopen (forwardable_of_wellFormed (hw.rewriteAddr (Or.inl rfl) _))
        (Or.inr ⟨_, rfl⟩)
  | resolved =>
    cases r with
    | learn st =>
      obtain ⟨peer, hpeer, rfl⟩ := Option.map_eq_some_iff.1 he
      obtain ⟨dst, hdst, -⟩ := Option.bind_eq_some_iff.1 hpeer
      exact .forwarded nofun (forwardable_of_ipAt hdst) hdst
    | nat s =>
      obtain ⟨peer, session, -, hdst, rfl⟩ := NatState.resolve_emit hs he
      have hw := (addrAt_eq_some.1 hdst).1.rewriteAddr (Or.inr rfl) session.clientIp
      exact .forwarded nofun (forwardable_of_wellFormed hw) (ipDst_of_wellFormed hw)

end Routing

section

variable {es : List (Entry (Pipeline.State Loop Job Routing Emit)
      (Pipeline.Task Loop Job RelayEnv RelayEnv) (List Emit))}
  {s : Pipeline.State Loop Job Routing Emit} {loop : Loop} {out : Emit}

theorem evolves_pre (h : Run (serverTasks L P cfg o).step (.start r₀) es s)
    {e : Entry (Pipeline.State Loop Job Routing Emit)
      (Pipeline.Task Loop Job RelayEnv RelayEnv) (List Emit)} (he : e ∈ es) :
    Routing.Evolves P cfg.routeApproval r₀ e.pre.shared := by
  obtain ⟨⟨before, hpre⟩, -⟩ := h.entry he
  obtain ⟨fs, hfs⟩ := Pipeline.run_follows hpre
  exact Routing.run_evolves (L := L) (o := o) hfs.run

/-- Whatever the server emits is read as it was meant. It comes of one turn of a worker, on a job
that was read before. What goes to the device or on to another client no end takes for a control
message, and what goes on to a client has a destination and is not sent back to where it came
from; an answer is what `handle_control` answered in that turn, goes to whoever asked, is heard
as it was said up to the room of a push, and fits the tunnel. -/
theorem server_emits_legible (h₀ : cfg.routing clock now io disk = .ok r₀)
    (h : Run (serverTasks L P cfg o).step (.start r₀) es s)
    (hout : out ∈ Pipeline.emittedAll loop es) :
    ∃ e job env, (serverTasks L P cfg o).Made es loop out e job env ∧
      Legible L P cfg o e.pre.shared env e.post.shared job out := by
  have hinit := ServerConfig.routing_initial h₀
  obtain ⟨e, job, env, hmade⟩ := Pipeline.made_of_emitted h hout
  have hworks : Routing.Works L P cfg o e.pre.shared env job e.post.shared (some out) :=
    Routing.works_of_work hmade.work
  have hevolves := evolves_pre h hmade.mem
  exact ⟨e, job, env, hmade, hworks.legible (hinit.labelled (hevolves.trans hworks.evolves))
    (hinit.sound.evolves hevolves) rfl⟩

theorem server_emits_legible_answer : ∃ es s peer packet dst,
    Run (serverTasks Sample.primitives Sample.platform Sample.natServer none).step
      (.start Sample.natStart) es s ∧
    Emit.send peer packet ∈ Pipeline.emittedAll .tunToUdp es ∧ Forwardable packet ∧
      ipDst packet = some dst := by
  obtain ⟨es, s, hrun, hout, -⟩ := Sample.interleaved_run
  have h₀ : Sample.natServer.routing (Sample.time 0) (Sample.time 0) Sample.io .notFound =
      .ok Sample.natStart := rfl
  have hmem : Emit.send (Sample.endpoint 1) (rewriteAddr Sample.answer DST_OFFSET (Sample.addr 2)) ∈
      Pipeline.emittedAll .tunToUdp es := by
    rw [hout]
    exact List.mem_singleton_self _
  obtain ⟨e, job, env, -, hlegible⟩ := server_emits_legible h₀ hrun hmem
  generalize hpacket : rewriteAddr Sample.answer DST_OFFSET (Sample.addr 2) = packet at hlegible hmem
  refine ⟨es, s, Sample.endpoint 1, packet, ?_⟩
  cases hlegible with
  | forwarded _ hp hdst => exact ⟨_, hrun, hmem, hp, hdst⟩
  | answered _ _ hcarries =>
    obtain ⟨⟨heard, hparse, -⟩, -⟩ := hcarries
    have hnone : parseControl (rewriteAddr Sample.answer DST_OFFSET (Sample.addr 2)) = none := by
      decide +kernel
    rw [hpacket, hparse] at hnone
    cases hnone

/-- The session that a peer holds in a state of the server: a host of the tunnel's subnet other than
the server, and nobody else's. -/
structure OwnSession (cfg : ServerConfig) (r : Routing) (peer : SocketAddr) (session : Session) :
    Prop where
  held : ∃ s, r = .nat s ∧ s.byPeer.get peer = some session ∧
    ∀ q other, s.byPeer.get q = some other → other.internal = session.internal → q = peer
  host : (hostRange cfg.tun.ip cfg.tun.netmask).1 ≤ session.internal ∧
    session.internal ≤ (hostRange cfg.tun.ip cfg.tun.netmask).2 ∧ session.internal ≠ cfg.tun.ip

theorem ownSession {s : NatState} {gs : List (Entry NatState NatState.Event NatState.Out)}
    {peer : SocketAddr} {session : Session}
    (h : Run NatState.step (NatState.new cfg.tun.ip cfg.tun.netmask cfg.leaseTtl) gs s)
    (hs : s.byPeer.get peer = some session) : OwnSession cfg (.nat s) peer session := by
  obtain ⟨hi, hl⟩ := NatState.run_inv h
  refine ⟨⟨s, rfl, hs, ?_⟩, ?_⟩
  · intro q other hq heq
    exact hi.index.unique hq hs rfl (congrArg some heq.symm)
  · have hleased : (s.pool.leases.get session.internal).isSome := by
      rw [hi.leased, hi.internal hs]
      rfl
    have ha := hi.pool.leased _ hleased
    simp only [LeasePool.limits, Prod.mk.injEq] at hl
    rw [LeasePool.Assignable, hl.1, hl.2.1, hl.2.2.1] at ha
    exact ha

/-- What the worker of a translating server makes of a job, with the states of the server before
and after. -/
inductive NatEmits (L : Primitives) (P : Platform) (cfg : ServerConfig) (o : Option Obfuscator)
    (r r' : Routing) : Job → Emit → Prop
  /-- The packet of a client, from the address of the session that it then has. -/
  | tun {peer : SocketAddr} {pkt payload : Bytes} {session : Session}
      (hopen : Opens L P cfg.cipher cfg.masterKey o pkt payload)
      (hown : OwnSession cfg r' peer session)
      (hsrc : parseSrc (rewriteAddr payload SRC_OFFSET session.internal) = some session.internal) :
      NatEmits L P cfg o r r' (.datagram peer pkt)
        (.tun (rewriteAddr payload SRC_OFFSET session.internal))
  /-- The word that there is nothing to assign, to whoever asked. -/
  | refusal {peer : SocketAddr} {pkt payload : Bytes} {req : AssignReq}
      (hopen : Opens L P cfg.cipher cfg.masterKey o pkt payload)
      (hreq : parseControl payload = some (.assignReq req)) :
      NatEmits L P cfg o r r' (.datagram peer pkt) (.send peer natModeAssign.encode)
  /-- A packet for the address of the session that a client has, under the address it uses. -/
  | send {peer : SocketAddr} {pkt : Bytes} {session : Session}
      (hown : OwnSession cfg r peer session) (hdst : parseDst pkt = some session.internal)
      (hback : parseDst (rewriteAddr pkt DST_OFFSET session.clientIp) = some session.clientIp) :
      NatEmits L P cfg o r r' (.packet pkt)
        (.send peer (rewriteAddr pkt DST_OFFSET session.clientIp))

/-- A translating server keeps its clients apart. A packet of a client leaves through the device
from the address of the session that the client has when the packet is worked on, never from
another's or the server's own, and is never relayed; to a client goes only what the device gave
for the address of the session it then had, or a refusal it asked for. -/
theorem nat_keeps_clients_apart (h₀ : cfg.routing clock now io disk = .ok r₀)
    (hnat : cfg.nat = true) (h : Run (serverTasks L P cfg o).step (.start r₀) es s)
    (hout : out ∈ Pipeline.emittedAll loop es) :
    ∃ e job env, (serverTasks L P cfg o).Made es loop out e job env ∧
      NatEmits L P cfg o e.pre.shared e.post.shared job out := by
  obtain ⟨e, job, env, hmade⟩ := Pipeline.made_of_emitted h hout
  refine ⟨e, job, env, hmade, ?_⟩
  have hworks : Routing.Works L P cfg o e.pre.shared env job e.post.shared (some out) :=
    Routing.works_of_work hmade.work
  obtain ⟨n, gs, hpre, hrun⟩ :=
    (ServerConfig.routing_initial h₀).evolves_nat hnat (evolves_pre h hmade.mem)
  generalize e.post.shared = r' at hworks
  rw [hpre] at hworks ⊢
  generalize he : some out = made at hworks
  cases hworks with
  | noise _ => cases he
  | short _ _ _ => cases he
  | control hopen _ h =>
    obtain ⟨said, rfl, rfl⟩ := Option.map_eq_some_iff.1 he.symm
    obtain ⟨rfl, req, hreq⟩ := (Routing.handleControl_nat h).2 said rfl
    exact .refusal hopen hreq
  | @routed peer _ payload hopen _ _ =>
    obtain ⟨n', session, hpost, hs, hw, rfl⟩ := NatState.route_emit he.symm
    have hstep : Routing.Evolves P cfg.routeApproval _ _ :=
      Routing.route_evolves (.nat n) peer payload env
    rw [hpost] at hstep ⊢
    cases hstep with
    | nat hmore =>
      exact .tun hopen (ownSession (hrun.trans hmore) hs) (addrAt_rewriteAddr hw (Or.inl rfl) _)
  | resolved =>
    obtain ⟨peer, session, hs, hdst, rfl⟩ := NatState.resolve_emit (NatState.run_inv hrun).1 he.symm
    exact .send (ownSession hrun hs) hdst (addrAt_rewriteAddr (addrAt_eq_some.1 hdst).1 (Or.inr rfl) _)

theorem nat_keeps_clients_apart_answer : ∃ es s e session,
    Run (serverTasks Sample.primitives Sample.platform Sample.natServer none).step
      (.start Sample.natStart) es s ∧
    e ∈ es ∧ OwnSession Sample.natServer e.pre.shared (Sample.endpoint 1) session := by
  obtain ⟨es, s, hrun, hout, -⟩ := Sample.interleaved_run
  have h₀ : Sample.natServer.routing (Sample.time 0) (Sample.time 0) Sample.io .notFound =
      .ok Sample.natStart := rfl
  have hmem : Emit.send (Sample.endpoint 1) (rewriteAddr Sample.answer DST_OFFSET (Sample.addr 2)) ∈
      Pipeline.emittedAll .tunToUdp es := by
    rw [hout]
    exact List.mem_singleton_self _
  obtain ⟨e, job, env, hmade, hemits⟩ := nat_keeps_clients_apart h₀ rfl hrun hmem
  generalize hpayload : rewriteAddr Sample.answer DST_OFFSET (Sample.addr 2) = payload at hemits
  refine ⟨es, s, e, ?_⟩
  cases hemits with
  | send hown _ _ => exact ⟨_, hrun, hmade.mem, hown⟩
  | refusal _ _ => exact absurd hpayload (by decide +kernel)

end

end ShadowVpn
