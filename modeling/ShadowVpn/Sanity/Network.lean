import ShadowVpn.Proofs.Node
import ShadowVpn.Spec.Network

/-! The network step by step: what a client asks and what the server answers, and how a step of the
server can take a lease from its holder. -/

namespace ShadowVpn

open Lib

/-! Payloads. -/

theorem parseControl_of_notControl {payload : Bytes} (h : isControl payload = false) :
    parseControl payload = none := by
  simp [parseControl, h]

theorem isControl_of_parse {payload : Bytes} {c : Control} (h : parseControl payload = some c) :
    isControl payload = true := by
  by_contra hno
  rw [parseControl_of_notControl (by simpa using hno)] at h
  cases h

/-- A message of a client, which asks for an address under no other identity. -/
structure Asks (id : NodeId) (payload : Bytes) : Prop where
  control : isControl payload = true
  own : ∀ req, parseControl payload = some (.assignReq req) → req.nodeId = id

namespace Asks

variable {id : NodeId} {payload : Bytes}

theorem assignRequest (cfg : ClientConfig) (id : NodeId) : Asks id (cfg.assignRequest id) := by
  obtain ⟨body, heq, hbody⟩ := (cfg.assignReq id).encode_body
  have hparse : parseControl (cfg.assignRequest id) =
      some (.assignReq (cfg.assignReq id).normalise) := by
    rw [ClientConfig.assignRequest, heq]
    exact parseControl_eq_some.2 (.assignReq hbody)
  refine ⟨isControl_of_parse hparse, ?_⟩
  intro req hreq
  cases hparse.symm.trans hreq
  rfl

theorem routeAdvert (id : NodeId) (advert : RouteAdvert) : Asks id advert.encode := by
  obtain ⟨body, heq, hbody⟩ := advert.encode_body
  have hparse : parseControl advert.encode = some (.routeAdvert advert.normalise) := by
    rw [heq]
    exact parseControl_eq_some.2 (.routeAdvert hbody)
  refine ⟨isControl_of_parse hparse, ?_⟩
  intro req hreq
  cases hparse.symm.trans hreq

theorem nameAdvert (id : NodeId) (advert : NameAdvert) : Asks id advert.encode := by
  refine ⟨by rw [advert.encode_eq]; rfl, ?_⟩
  intro req hreq
  cases (advert.parseControl_encode.1 hreq).2

theorem keepalive (id : NodeId) (tunIp : Ipv4Addr) : Asks id (keepalivePayload tunIp) := by
  refine ⟨rfl, ?_⟩
  intro req hreq
  cases (parseControl_keepalive tunIp).symm.trans hreq

theorem of_mem_static {cfg : ClientConfig} (h : payload ∈ cfg.staticTickPayloads) :
    Asks id payload := by
  unfold ClientConfig.staticTickPayloads at h
  rcases List.mem_append.1 h with h | h
  · split_ifs at h
    · rw [List.mem_singleton.1 h]
      exact routeAdvert id _
    · cases h
  · split_ifs at h
    · rw [List.mem_singleton.1 h]
      exact nameAdvert id _
    · cases h

theorem of_mem_periodic {cfg : ClientConfig} (h : payload ∈ cfg.periodic) : Asks id payload := by
  unfold ClientConfig.periodic at h
  split_ifs at h
  · rw [List.mem_singleton.1 h]
    exact keepalive id _
  · exact of_mem_static h

theorem of_mem_auto {cfg : ClientConfig} (h : payload ∈ cfg.autoTickPayloads id) :
    Asks id payload := by
  rcases List.mem_cons.1 h with rfl | h
  · exact assignRequest cfg id
  · have hstatic : payload ∈ cfg.staticTickPayloads := h
    exact of_mem_static hstatic

end Asks

/-! Leases. -/

namespace LearnState

/-- What an event meets outside. -/
def Event.env : Event → Env
  | .control _ _ env => env
  | .packet _ _ env => env
  | .sweep env => env

variable {P : Platform} {approval : RouteApproval} {st st' : LearnState} {b : Book}
  {event : Event} {out : EventOut} {peer : SocketAddr} {payload : Bytes} {env : Env}

/-- An address that the server sends out is leased to the node that asked. -/
theorem handleControl_granted {reply : Assign} (hr : Refines st.assigner b)
    (hs : st.handleControl P approval peer payload env = .ok (st', out))
    (hreply : out.reply = some (.assign reply)) (hok : reply.status = .ok) :
    ∃ req l, parseControl payload = some (.assignReq req) ∧
      st'.assigner.byNode.get req.nodeId = some l ∧ l.ip4 = reply.tunIp := by
  have hstep : LearnState.step P approval st (.control peer payload env) = .ok (st', out) := hs
  cases steps_of_step hstep with
  | ignored _ => cases hreply
  | keepalive _ => cases hreply
  | routeAdvert _ =>
    simp only [handleRouteAdvert, EventOut.plain] at hreply
    split_ifs at hreply
    cases hreply
  | nameAdvert _ =>
    simp only [handleNameAdvert, EventOut.plain] at hreply
    split_ifs at hreply
    cases hreply
  | @assignReq _ _ _ req _ _ hparse hreq =>
    obtain ⟨reply', b', heffect⟩ := handleAssignReq_effect hr hreq
    cases hreply.symm.trans heffect.replied
    obtain ⟨l, hl, -, -, hgrants⟩ := heffect.allocates.granted hok
    refine ⟨req, l, hparse, ?_, hgrants.tunIp.symm⟩
    rw [heffect.refines.held]
    exact hl

/-- Why the server may take a lease from its holder: it was idle for too long, or it was the
oldest when another node needed an address and there was none. -/
structure MayDrop (st : LearnState) (env : Env) (l : Lease) : Prop where
  held : st.assigner.byNode.get l.nodeId = some l
  why : isExpired l.lastSeen env.systemNow st.assigner.ttl = true ∨
    ∃ req, req.nodeId ≠ l.nodeId ∧ st.assigner.Pressed env.io req env.systemNow l

/-- An event leaves a node its address, or drops its lease for a reason. -/
theorem step_keeps_or_drops (hr : Refines st.assigner b)
    (hs : step P approval st event = .ok (st', out)) {n : NodeId} {l : Lease}
    (hl : st.assigner.byNode.get n = some l) :
    (∃ l', st'.assigner.byNode.get n = some l' ∧ l'.ip4 = l.ip4) ∨ MayDrop st event.env l := by
  have hown : l.nodeId = n := b.own n l (by rw [← hr.held]; exact hl)
  have hheld : st.assigner.byNode.get l.nodeId = some l := by rw [hown]; exact hl
  cases steps_of_step hs with
  | ignored _ => exact Or.inl ⟨l, hl, rfl⟩
  | keepalive _ => exact Or.inl ⟨l, hl, rfl⟩
  | routeAdvert _ => exact Or.inl ⟨l, hl, rfl⟩
  | nameAdvert _ => exact Or.inl ⟨l, hl, rfl⟩
  | packet =>
    rw [routePacket_state]
    exact Or.inl ⟨l, hl, rfl⟩
  | @assignReq _ _ env req _ _ _ hreq =>
    obtain ⟨reply, b', heffect⟩ := handleAssignReq_effect hr hreq
    have hdrops := Assigner.allocates_exactDrops hr heffect.refines heffect.allocates
    by_cases hmem : l ∈ out.dropped
    · refine Or.inr ⟨hheld, ?_⟩
      cases hexpired : isExpired l.lastSeen env.systemNow st.assigner.ttl with
      | true => exact Or.inl hexpired
      | false =>
        have hpressed : st.assigner.Pressed env.io req env.systemNow l :=
          Assigner.allocates_pressed hr heffect.allocates hmem hexpired
        refine Or.inr ⟨req, ?_, hpressed⟩
        intro heq
        rw [hpressed.needy l (by rw [heq]; exact hheld)] at hexpired
        cases hexpired
    · obtain ⟨l', hl', hip, -⟩ := hdrops.keeps n l hl hmem
      exact Or.inl ⟨l', hl', hip⟩
  | @sweep env =>
    have hdrops := Assigner.reap_exactDrops hr env.io env.systemNow
    by_cases hmem : l ∈ (st.assigner.reap env.io env.systemNow).2.dropped
    · obtain ⟨_, -, hexpired⟩ := ((Assigner.reap_refines hr env.io env.systemNow).2.mem l).1 hmem
      exact Or.inr ⟨hheld, Or.inl hexpired⟩
    · obtain ⟨l', hl', hip, -⟩ := hdrops.keeps n l hl hmem
      exact Or.inl ⟨l', hl', hip⟩

end LearnState

namespace Routing

variable {L : Primitives} {P : Platform} {cfg : ServerConfig} {o : Option Obfuscator}
  {st : LearnState} {r' : Routing} {input : Routing.Input} {out : List Emit}

/-- What an input brings with it from outside. -/
def Input.env : Routing.Input → RelayEnv
  | .job _ _ env => env
  | .other env => env

/-- An input is an event of the learning server, or nothing to it. -/
theorem Steps.learn (h : Steps L P cfg o (.learn st) input r' out) :
    ∃ st', r' = .learn st' ∧ (st' = st ∨ ∃ event eventOut,
      LearnState.step P cfg.routeApproval st event = .ok (st', eventOut) ∧
        event.env = (Input.env input).toEnv) := by
  cases h with
  | sweep => exact ⟨_, rfl, Or.inr ⟨.sweep _, _, rfl, rfl⟩⟩
  | @job _ _ env _ _ hw =>
    cases hw with
    | noise _ => exact ⟨st, rfl, Or.inl rfl⟩
    | short _ _ _ => exact ⟨st, rfl, Or.inl rfl⟩
    | resolved => exact ⟨st, rfl, Or.inl rfl⟩
    | @control peer _ payload _ _ _ _ hc =>
      obtain ⟨st', eventOut, hs, rfl, -⟩ := handleControl_learn hc
      exact ⟨st', rfl, Or.inr ⟨.control peer payload env.toEnv, eventOut, hs, rfl⟩⟩
    | @routed peer _ payload _ _ _ =>
      exact ⟨_, rfl, Or.inr ⟨.packet peer payload env.toEnv, .plain none, rfl, rfl⟩⟩

end Routing

/-! The contract of the parties. -/

namespace Deployment

variable {κ : Type}

/-- The steps of a network whose parties handle one job at a time. -/
abbrev Event (κ : Type) := Star.Event κ Routing.Input ClientNode.Input

abbrev State (κ : Type) := Star.State κ SocketAddr Bytes Routing ClientNode

abbrev Step (κ : Type) := Entry (State κ) (Event κ) (List Emit)

/-- The steps of all tasks of all parties. -/
abbrev TaskStep (κ : Type) := TaskStar.TaskEntry κ SocketAddr Bytes Routing ClientNode Loop
  ClientLoop Job RelayEnv ClientEnv RelayEnv ClientTick Emit

abbrev TaskState (κ : Type) := TaskStar.TaskState κ SocketAddr Bytes Routing ClientNode Loop
  ClientLoop Job Emit

/-- What the server went through in a step, and what a client did. -/
abbrev Turn (κ : Type) := TaskStar.Turn Routing (Event κ)

/-- A device gave `pkt`: that of the server, or that of a client. -/
inductive FromDevice (pkt : Bytes) : Option κ → Event κ → Prop
  | server {loop : Loop} {env : RelayEnv} :
      FromDevice pkt none (.hub (.job loop (.packet pkt) env))
  | client {k : κ} {loop : ClientLoop} {env : ClientEnv} :
      FromDevice pkt (some k) (.spoke k (.job loop (.packet pkt) env))

/-- The input is a request for an address under the client's identity, and after it the server
leases `ip` to that identity. -/
structure Granted (L : Primitives) (P : Platform) (D : Deployment κ) (k : κ) (ip : Ipv4Addr)
    (event : Event κ) (r : Routing) : Prop where
  request : ∃ loop peer pkt env payload req, event = .hub (.job loop (.datagram peer pkt) env) ∧
    Opens L P D.server.cipher D.server.masterKey D.serverObfs pkt payload ∧
    parseControl payload = some (.assignReq req) ∧ req.nodeId = (D.site k).nodeId
  lease : ∃ st l, r = .learn st ∧ st.assigner.byNode.get (D.site k).nodeId = some l ∧ l.ip4 = ip

section

variable (L : Primitives) (P : Platform) (D : Deployment κ) (es : List (Step κ))

/-- What a client sends is a packet of its device, or asks under its own identity. -/
structure ClientSays (k : κ) (payload : Bytes) : Prop where
  own : ∀ req, parseControl payload = some (.assignReq req) → req.nodeId = (D.site k).nodeId
  packet : isControl payload = false → ∃ e ∈ es, FromDevice payload (some k) e.input

/-- What the server sends grants what it has leased, or is a packet of a device. -/
structure ServerSays (peer : SocketAddr) (payload : Bytes) : Prop where
  grant : ∀ reply, parseControl payload = some (.assign reply) → reply.status = .ok →
    ∃ e ∈ es, Granted L P D (D.owner peer) reply.tunIp e.input e.post.hub
  packet : isControl payload = false → ∃ e ∈ es, ∃ party, FromDevice payload party e.input

/-- What a client believes of its address, and the queries that it has yet to answer. -/
structure ClientHolds (k : κ) (n : ClientNode) : Prop where
  auto : n.run.cfg.autoTun = (D.client k).autoTun
  offers : ∀ reply ∈ n.assigns, reply.status = .ok →
    ∃ e ∈ es, Granted L P D k reply.tunIp e.input e.post.hub
  address : (D.client k).autoTun = true → n.run.gotOk = true →
    ∃ e ∈ es, Granted L P D k n.run.cfg.tun.ip e.input e.post.hub
  asking : ∀ query ∈ n.asking, ∃ e ∈ es, ∃ pkt, FromDevice pkt (some k) e.input ∧
    (classify pkt).run = .ok (some query)

end

theorem exists_mem_snoc {α : Type} {p : α → Prop} {l : List α} (a : α) (h : ∃ x ∈ l, p x) :
    ∃ x ∈ l ++ [a], p x := by
  obtain ⟨x, hx, hp⟩ := h
  exact ⟨x, List.mem_append_left _ hx, hp⟩

theorem exists_mem_last {α : Type} {p : α → Prop} {l : List α} {a : α} (h : p a) :
    ∃ x ∈ l ++ [a], p x :=
  ⟨a, List.mem_append_right _ (List.mem_singleton_self _), h⟩

variable {L : Primitives} {P : Platform} {D : Deployment κ} {es : List (Step κ)}

theorem ClientHolds.snoc {k : κ} {n : ClientNode} (h : ClientHolds L P D es k n) (e : Step κ) :
    ClientHolds L P D (es ++ [e]) k n :=
  ⟨h.auto, fun reply hr hok => exists_mem_snoc e (h.offers reply hr hok),
    fun hauto hgot => exists_mem_snoc e (h.address hauto hgot),
    fun query hq => exists_mem_snoc e (h.asking query hq)⟩

variable [DecidableEq κ]

/-- The contract, for a server that has started with `r₀`. -/
def contract (L : Primitives) (P : Platform) (D : Deployment κ) (r₀ : Routing) :
    (D.network L P).serial.Contract where
  hub _ r := Routing.Evolves P D.server.routeApproval r₀ r
  spoke es k n := ClientHolds L P D es k n
  asks es k payload := ClientSays D es k payload
  answers es peer payload := ServerSays L P D es peer payload
  hub_mono _ h := h
  spoke_mono e h := h.snoc e
  asks_mono e h := ⟨h.own, fun hp => exists_mem_snoc e (h.packet hp)⟩
  answers_mono e h := ⟨fun reply hr hok => exists_mem_snoc e (h.grant reply hr hok),
    fun hp => exists_mem_snoc e (h.packet hp)⟩

/-! Whether an event is honest can be computed. -/

section

variable (L P D)

/-- The message that a datagram brings to the server. -/
def heard : Job → Option (SocketAddr × Bytes)
  | .datagram peer pkt =>
    match receivePacket L P D.server.cipher D.server.masterKey D.serverObfs pkt with
    | .ok (.packet payload) => some (peer, payload)
    | _ => none
  | .packet _ => none

def toldTo (k : κ) : Job → Option Bytes
  | .datagram _ pkt =>
    match receivePacket L P (D.client k).cipher (D.client k).masterKey (D.clientObfs k) pkt with
    | .ok (.packet payload) => some payload
    | _ => none
  | .packet _ => none

def soundly : Job → Bool
  | .datagram _ _ => true
  | .packet pkt => !isControl pkt

def honestly (s : TaskState κ) :
    Star.Event κ (Pipeline.Task Loop Job RelayEnv RelayEnv)
      (Pipeline.Task ClientLoop Job ClientEnv ClientTick) → Bool
  | .hub (.read _ job) =>
    soundly job && (D.heard L P job).all fun x => decide ((D.owner x.1, x.2) ∈ s.up)
  | .spoke k (.read _ job) =>
    soundly job && (D.toldTo L P k job).all fun payload =>
      s.down.any fun x => decide (D.owner x.1 = k) && decide (x.2 = payload)
  | _ => true

end

theorem sound_of_soundly {job : Job} (h : soundly job = true) : sound job := by
  cases job with
  | datagram _ _ => trivial
  | packet pkt => simpa [soundly, sound] using h

theorem honest_of_honestly {s : TaskState κ}
    {event : Star.Event κ (Pipeline.Task Loop Job RelayEnv RelayEnv)
      (Pipeline.Task ClientLoop Job ClientEnv ClientTick)}
    (h : D.honestly L P s event = true) : (D.network L P).tasks.Honest s event := by
  cases event with
  | hub task =>
    cases task with
    | read loop job =>
      simp only [honestly, Bool.and_eq_true] at h
      refine ⟨sound_of_soundly h.1, ?_⟩
      intro a payload hears
      cases job with
      | packet _ => cases hears
      | datagram peer pkt =>
        obtain ⟨rfl, hopen⟩ := hears
        have hheard : D.heard L P (.datagram a pkt) = some (a, payload) := by
          unfold Opens at hopen
          simp only [heard, hopen]
        have hup : (D.owner a, payload) ∈ s.up := by simpa [hheard] using h.2
        exact hup
    | push _ => exact ⟨trivial, fun _ _ => False.elim⟩
    | take _ => exact ⟨trivial, fun _ _ => False.elim⟩
    | work _ _ => exact ⟨trivial, fun _ _ => False.elim⟩
    | emit _ => exact ⟨trivial, fun _ _ => False.elim⟩
    | other _ => exact ⟨trivial, fun _ _ => False.elim⟩
  | spoke k task =>
    cases task with
    | read loop job =>
      simp only [honestly, Bool.and_eq_true] at h
      refine ⟨sound_of_soundly h.1, ?_⟩
      intro payload htold
      cases job with
      | packet _ => cases htold
      | datagram peer pkt =>
        have hopen : Opens L P _ _ _ pkt payload := htold
        have hheard : D.toldTo L P k (.datagram peer pkt) = some payload := by
          unfold Opens at hopen
          simp only [toldTo, hopen]
        have hany := h.2
        rw [hheard, Option.all_some, List.any_eq_true] at hany
        obtain ⟨x, hx, hmatch⟩ := hany
        simp only [Bool.and_eq_true, decide_eq_true_eq] at hmatch
        exact ⟨x.1, hmatch.1, hmatch.2 ▸ hx⟩
    | push _ => exact ⟨trivial, fun _ => False.elim⟩
    | take _ => exact ⟨trivial, fun _ => False.elim⟩
    | work _ _ => exact ⟨trivial, fun _ => False.elim⟩
    | emit _ => exact ⟨trivial, fun _ => False.elim⟩
    | other _ => exact ⟨trivial, fun _ => False.elim⟩

end Deployment

end ShadowVpn
