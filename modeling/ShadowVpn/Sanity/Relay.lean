import ShadowVpn.Proofs.Carrier
import ShadowVpn.Proofs.Hostname
import ShadowVpn.Proofs.Roaming
import ShadowVpn.Sanity.Encode
import ShadowVpn.Sanity.Nat
import ShadowVpn.Sanity.Server
import ShadowVpn.Spec.Relay

/-! The relay step by step: what a unit of work does, how it shows in the learning server and in
the translator, and what the other end makes of a payload that is sent. -/

namespace ShadowVpn

open Lib

variable {L : Primitives} {P : Platform} {cfg : ServerConfig} {o : Option Obfuscator}
  {r r' : Routing} {job : Job} {env : RelayEnv} {peer : SocketAddr} {payload : Bytes}

/-! Work. -/

namespace Routing

/-- What becomes of a job, one case for each way it can go. -/
inductive Works (L : Primitives) (P : Platform) (cfg : ServerConfig) (o : Option Obfuscator)
    (r : Routing) (env : RelayEnv) : Job → Routing → Option Emit → Prop
  | noise {peer : SocketAddr} {pkt : Bytes}
      (h : ∀ payload, ¬ Opens L P cfg.cipher cfg.masterKey o pkt payload) :
      Works L P cfg o r env (.datagram peer pkt) r none
  | control {peer : SocketAddr} {pkt payload : Bytes} {r' : Routing} {reply : Option Control}
      (hopen : Opens L P cfg.cipher cfg.masterKey o pkt payload) (hc : isControl payload = true)
      (h : r.handleControl P cfg.routeApproval peer payload env = .ok (r', reply)) :
      Works L P cfg o r env (.datagram peer pkt) r'
        (reply.map fun reply => .send peer (encodeControl reply))
  | short {peer : SocketAddr} {pkt payload : Bytes}
      (hopen : Opens L P cfg.cipher cfg.masterKey o pkt payload) (hc : isControl payload = false)
      (hlen : payload.length < 20) :
      Works L P cfg o r env (.datagram peer pkt) r none
  | routed {peer : SocketAddr} {pkt payload : Bytes}
      (hopen : Opens L P cfg.cipher cfg.masterKey o pkt payload) (hc : isControl payload = false)
      (hlen : 20 ≤ payload.length) :
      Works L P cfg o r env (.datagram peer pkt) (r.route peer payload env).1
        (r.route peer payload env).2
  | resolved {pkt : Bytes} :
      Works L P cfg o r env (.packet pkt) (r.resolve pkt env).1 (r.resolve pkt env).2

theorem works_of_work {e : Option Emit} (h : Routing.work L P cfg o r job env = .ok (r', e)) :
    Works L P cfg o r env job r' e := by
  cases job with
  | packet pkt =>
    have heq : r.resolve pkt env = (r', e) := Except.ok.inj h
    have hw : Works L P cfg o r env (.packet pkt) _ _ := .resolved
    rwa [heq] at hw
  | datagram peer pkt =>
    obtain ⟨received, hreceived⟩ := receivePacket_total L P cfg.cipher cfg.masterKey o pkt
    rw [work, hreceived] at h
    cases received with
    | notObfs =>
      cases h
      exact .noise fun payload hopen => by cases hreceived.symm.trans hopen
    | undecryptable e =>
      cases h
      exact .noise fun payload hopen => by cases hreceived.symm.trans hopen
    | packet payload =>
      replace h : r.receive P cfg.routeApproval peer payload env = .ok (r', e) := h
      unfold receive at h
      split_ifs at h with hc hlen
      · obtain ⟨⟨r₁, reply⟩, hcontrol, h⟩ := bind_eq_ok.1 h
        cases h
        exact .control hreceived hc hcontrol
      · cases h
        exact .short hreceived (by simpa using hc) hlen
      · have heq : r.route peer payload env = (r', e) := Except.ok.inj h
        have hw : Works L P cfg o r env (.datagram peer pkt) _ _ :=
          .routed hreceived (by simpa using hc) (by omega)
        rwa [heq] at hw

/-! Either mode on its own. -/

theorem handleControl_learn {st : LearnState} {reply : Option Control}
    (h : (Routing.learn st).handleControl P cfg.routeApproval peer payload env = .ok (r', reply)) :
    ∃ st' out, st.handleControl P cfg.routeApproval peer payload env.toEnv = .ok (st', out) ∧
      r' = .learn st' ∧ reply = out.reply := by
  unfold handleControl at h
  obtain ⟨⟨st', out⟩, hs, h⟩ := bind_eq_ok.1 h
  cases h
  exact ⟨st', out, hs, rfl, rfl⟩

/-- A control message in translation mode keeps the sender's session alive, and an `AssignReq` is
told why there is nothing to assign. -/
theorem handleControl_nat {s : NatState} {reply : Option Control}
    (h : (Routing.nat s).handleControl P cfg.routeApproval peer payload env = .ok (r', reply)) :
    (r' = .nat s ∨ r' = .nat (s.touch peer env.now)) ∧
      ∀ c, reply = some c → c = .assign natModeAssign ∧
        ∃ req, parseControl payload = some (.assignReq req) := by
  simp only [handleControl] at h
  split at h
  · cases h
    refine ⟨Or.inl rfl, ?_⟩
    intro c hc
    cases hc
  · rename_i req hp
    cases h
    refine ⟨Or.inr rfl, ?_⟩
    intro c hc
    cases hc
    exact ⟨rfl, req, hp⟩
  · cases h
    refine ⟨Or.inr rfl, ?_⟩
    intro c hc
    cases hc

/-- The states of one mode that steps of its own machine lead to. -/
inductive Evolves (P : Platform) (approval : RouteApproval) : Routing → Routing → Prop
  | learn {st st' : LearnState} {es : List (Entry LearnState LearnState.Event EventOut)}
      (h : Run (LearnState.step P approval) st es st') : Evolves P approval (.learn st) (.learn st')
  | nat {s s' : NatState} {es : List (Entry NatState NatState.Event NatState.Out)}
      (h : Run NatState.step s es s') : Evolves P approval (.nat s) (.nat s')

namespace Evolves

variable {approval : RouteApproval} {a b c : Routing}

theorem refl (P : Platform) (approval : RouteApproval) (r : Routing) : Evolves P approval r r := by
  cases r with
  | nat s => exact .nat .nil
  | learn st => exact .learn .nil

theorem trans (h : Evolves P approval a b) (h' : Evolves P approval b c) :
    Evolves P approval a c := by
  cases h with
  | learn h =>
    cases h' with
    | learn h' => exact .learn (h.trans h')
  | nat h =>
    cases h' with
    | nat h' => exact .nat (h.trans h')

theorem of_touch (s : NatState) (peer : SocketAddr) (now : Instant) :
    Evolves P approval (.nat s) (.nat (s.touch peer now)) :=
  .nat (.single (i := .touch peer now) (o := .touch) rfl)

end Evolves

theorem route_evolves (r : Routing) (peer : SocketAddr) (payload : Bytes) (env : RelayEnv) :
    Evolves P cfg.routeApproval r (r.route peer payload env).1 := by
  cases r with
  | learn st =>
    exact .learn (.single (i := .packet peer payload env.toEnv) (o := .plain none) rfl)
  | nat s =>
    exact .nat (.single (i := .ingress peer payload env.now)
      (o := .ingress (s.ingress peer payload env.now).2.2 (s.ingress peer payload env.now).2.1) rfl)

theorem resolve_evolves (r : Routing) (pkt : Bytes) (env : RelayEnv) :
    Evolves P cfg.routeApproval r (r.resolve pkt env).1 := by
  cases r with
  | learn st => exact .refl _ _ _
  | nat s =>
    exact .nat (.single (i := .egress pkt env.now)
      (o := .egress (s.egress pkt env.now).2.2 (s.egress pkt env.now).2.1) rfl)

theorem sweep_evolves (r : Routing) (env : RelayEnv) :
    Evolves P cfg.routeApproval r (r.sweep env) := by
  cases r with
  | learn st => exact .learn (.single (i := .sweep env.toEnv) (o := (st.sweep env.toEnv).2) rfl)
  | nat s =>
    exact .nat (.single (i := .reap env.leases env.now)
      (o := .reap (s.reap env.leases env.now).2) rfl)

theorem Works.evolves {e : Option Emit} (h : Works L P cfg o r env job r' e) :
    Evolves P cfg.routeApproval r r' := by
  cases h with
  | noise _ => exact .refl _ _ _
  | @control peer _ payload _ _ _ _ h =>
    cases r with
    | learn st =>
      obtain ⟨st', out, hs, rfl, -⟩ := handleControl_learn h
      have hstep : LearnState.step P cfg.routeApproval st (.control peer payload env.toEnv) =
          .ok (st', out) := hs
      exact .learn (.single hstep)
    | nat s =>
      rcases (handleControl_nat h).1 with rfl | rfl
      · exact .refl _ _ _
      · exact .of_touch _ _ _
  | short _ _ _ => exact .refl _ _ _
  | routed _ _ _ => exact route_evolves _ _ _ _
  | resolved => exact resolve_evolves _ _ _

/-- An event of the relay: a unit of work, or a sweep. -/
inductive Steps (L : Primitives) (P : Platform) (cfg : ServerConfig) (o : Option Obfuscator)
    (r : Routing) : Routing.Input → Routing → List Emit → Prop
  | job {loop : Loop} {job : Job} {env : RelayEnv} {r' : Routing} {e : Option Emit}
      (h : Works L P cfg o r env job r' e) : Steps L P cfg o r (.job loop job env) r' e.toList
  | sweep {env : RelayEnv} : Steps L P cfg o r (.other env) (r.sweep env) []

theorem steps_of_step {input : Routing.Input} {out : List Emit}
    (h : Routing.step L P cfg o r input = .ok (r', out)) : Steps L P cfg o r input r' out := by
  cases input with
  | job loop job env =>
    obtain ⟨e, hw, rfl⟩ := Pipeline.serial_job_eq_ok.1 h
    exact .job (works_of_work hw)
  | other env =>
    cases h
    exact .sweep

theorem Steps.evolves {input : Routing.Input} {out : List Emit}
    (h : Steps L P cfg o r input r' out) : Evolves P cfg.routeApproval r r' := by
  cases h with
  | job h => exact h.evolves
  | sweep => exact sweep_evolves _ _

theorem run_evolves {es : List (Entry Routing Routing.Input (List Emit))}
    (h : Run (Routing.step L P cfg o) r es r') : Evolves P cfg.routeApproval r r' := by
  induction h with
  | nil => exact .refl _ _ _
  | snoc _ hs ih => exact ih.trans (steps_of_step hs).evolves

end Routing

/-! The start. -/

/-- The settings that the assigner of a server is built from. -/
def ServerConfig.assignArgs (cfg : ServerConfig) : Assigner.Args :=
  ⟨cfg.tun.ip, cfg.tun.netmask, cfg.tun.ip6, cfg.tun.peerIp, cfg.reservedIps, cfg.assignTtl,
    cfg.leaseFile⟩

/-- A server in a mode starts as the machine of that mode does. -/
inductive Routing.Initial (cfg : ServerConfig) : Routing → Prop
  | nat (h : cfg.nat = true) :
      Initial cfg (.nat (NatState.new cfg.tun.ip cfg.tun.netmask cfg.leaseTtl))
  | learn {clock now : SystemTime} {io : Io} {disk : LeaseFile} {started : Assigner.Started}
      (h : cfg.nat = false) (hnew : Assigner.new cfg.assignArgs clock now io disk = .ok started) :
      Initial cfg (.learn (LearnState.start
        (started.assigner.configured (cfg.assignPool.map fun pool => hostRange pool.network pool.mask))
        cfg.hostname cfg.leaseTtl))

theorem ServerConfig.routing_initial {clock now : SystemTime} {io : Io} {disk : LeaseFile}
    (h : cfg.routing clock now io disk = .ok r) : Routing.Initial cfg r := by
  unfold ServerConfig.routing at h
  split_ifs at h with hnat
  · cases h
    exact .nat hnat
  · obtain ⟨assigner, hbuild, h⟩ := bind_eq_ok.1 h
    obtain ⟨started, hnew, hbuild⟩ := bind_eq_ok.1 hbuild
    cases hbuild
    cases h
    obtain ⟨b, -, hframe⟩ := Assigner.new_restored hnew
    -- the range is the only setting that `configured` changes
    have hserver : ∀ range, ((started.assigner.configured range).serverIp,
        (started.assigner.configured range).serverIp6) = (cfg.tun.ip, cfg.tun.ip6) := by
      intro range
      have hip : (started.assigner.serverIp, started.assigner.serverIp6) =
          (cfg.tun.ip, cfg.tun.ip6) :=
        Prod.ext (congrArg Policy.serverIp hframe.policy) (congrArg Policy.serverIp6 hframe.policy)
      cases range with
      | none => exact hip
      | some range => exact hip
    have hstart : Routing.Initial cfg _ := .learn (by simpa using hnat) hnew
    have heq := hserver (cfg.assignPool.map fun pool => hostRange pool.network pool.mask)
    simp only [LearnState.start, Prod.mk.injEq] at hstart heq
    rw [heq.1, heq.2] at hstart
    exact hstart

/-! Names. -/

/-- Every name of a table that calls lead to is a label. -/
theorem NameTable.Reachable.labelled {t : NameTable} (h : t.Reachable) : t.Labelled := by
  obtain ⟨t₀, es, hstart, hrun⟩ := h
  have hfresh : NameTable.Fresh t₀ := by
    rcases hstart with rfl | ⟨name, ip4, ip6, rfl⟩
    · exact .new
    · exact .withServer name ip4 ip6
  exact (hrun.invariant (I := fun t => t.Labelled ∧ t.Bound)
    (fun _ _ _ _ h hs => ⟨h.1.step h.2 hs, h.2.step hs⟩) hfresh.labelled).1

theorem NameTable.Labelled.snapshot {t : NameTable} (h : t.Labelled)
    (order : IterOrder SocketAddr NameRow) : ∀ p ∈ t.snapshot order, IsLabel p.name := by
  intro p hp
  rcases NameTable.mem_snapshot hp with hserver | ⟨q, row, hrow, rfl⟩
  · exact h.server p hserver
  · exact h.rows q row hrow

/-! What a payload is to the other end. -/

/-- What a server says, and what a client hears: of a push only as many entries as it has room for,
each network by its prefix, each name in full. -/
inductive Heard : Control → Control → Prop
  | routePush (push : RoutePush) : Heard (.routePush push) (.routePush push.normalise)
  | assign (reply : Assign) : Heard (.assign reply) (.assign reply.normalise)
  | peerPush {push : PeerPush} (h : ∀ p ∈ push.peers, p.normalise.name = p.name) :
      Heard (.peerPush push) (.peerPush push.normalise)

theorem IsLabel.asciiCut {name : Text} (h : IsLabel name) : AsciiCut name := by
  rw [asciiCut_iff]
  intro b hb
  have hmem : b ∈ asBytes name := List.mem_of_mem_take (List.mem_of_getLast? hb)
  obtain ⟨c, hc, hbyte⟩ := List.mem_flatMap.1 hmem
  have hone : (String.utf8EncodeChar c).length = 1 := by
    rw [String.length_utf8EncodeChar]
    exact (emit_of_isLabelChar (h.chars c hc)).2.1
  obtain ⟨lead, conts, henc, -, hlead⟩ := Utf8.utf8EncodeChar_shape c
  rw [henc] at hone hbyte
  rcases hlead with ⟨rfl, hlt⟩ | ⟨hne, -⟩
  · rwa [List.mem_singleton.1 hbyte]
  · rw [List.length_cons, Nat.add_eq_right, List.length_eq_zero_iff] at hone
    exact absurd hone hne

theorem length_flatMap_le {α : Type} (f : α → Bytes) {n : ℕ} (h : ∀ a, (f a).length ≤ n) (l : List α) :
    (l.flatMap f).length ≤ n * l.length := by
  induction l with
  | nil => simp
  | cons a l ih =>
    have ha := h a
    simp only [List.flatMap_cons, List.length_append, List.length_cons]
    rw [Nat.mul_add, Nat.mul_one]
    omega

theorem length_pushRoute_le (net : IpNetwork) : (pushRoute [] net).length ≤ 18 := by
  unfold pushRoute
  cases canonical net with
  | v4 n => simp
  | v6 n => simp

theorem length_pushPeer_le (p : PeerEntry) : (pushPeer [] p).length ≤ 54 := by
  have hle := length_nameBytes_le p.name
  have hmax : MAX_NAME_LEN = 32 := rfl
  simp [pushPeer]
  omega

/-- A client hears `said` in the payload, which fits the tunnel. -/
structure Carries (payload : Bytes) (said : Control) : Prop where
  heard : ∃ heard, parseControl payload = some heard ∧ Heard said heard
  length : payload.length ≤ 1300

theorem carries_routePush (push : RoutePush) : Carries push.encode (.routePush push) := by
  refine ⟨⟨_, ?_, .routePush push⟩, ?_⟩
  · obtain ⟨body, heq, hbody⟩ := push.encode_body
    rw [heq]
    exact parseControl_eq_some.2 (.routePush hbody)
  · have hle := length_flatMap_le (pushRoute []) length_pushRoute_le (push.routes.take MAX_ROUTES)
    have htake : (push.routes.take MAX_ROUTES).length ≤ 64 := List.length_take_le _ _
    simp only [RoutePush.encode, take_min_length, foldl_pushRoute, List.length_append,
      List.length_cons, List.length_nil]
    omega

theorem carries_assign (reply : Assign) : Carries reply.encode (.assign reply) := by
  refine ⟨⟨_, ?_, .assign reply⟩, ?_⟩
  · obtain ⟨body, heq, hbody⟩ := reply.encode_body
    rw [heq]
    exact parseControl_eq_some.2 (.assign hbody)
  · simp [Assign.encode]

theorem carries_peerPush {push : PeerPush} (h : ∀ p ∈ push.peers, IsLabel p.name) :
    Carries push.encode (.peerPush push) := by
  refine ⟨⟨_, ?_, .peerPush ?_⟩, ?_⟩
  · exact push.parseControl_encode.2
      ⟨fun p hp => (h p (List.mem_of_mem_take hp)).asciiCut, rfl⟩
  · exact fun p hp => cutName_of_le ((length_asBytes p.name).trans_le (h p hp).short)
  · have hle := length_flatMap_le (pushPeer []) length_pushPeer_le (push.peers.take MAX_PEERS)
    have htake : (push.peers.take MAX_PEERS).length ≤ 24 := List.length_take_le _ _
    simp only [push.encode_eq, List.length_cons]
    omega

/-- Whatever `handle_control` answers is said in a message of a server. -/
theorem LearnState.handleControl_carries {approval : RouteApproval} {st st' : LearnState}
    {out : EventOut} {env : Env} {said : Control} (h : st'.names.Labelled)
    (hs : st.handleControl P approval peer payload env = .ok (st', out))
    (hreply : out.reply = some said) : Carries (encodeControl said) said := by
  have hstep : LearnState.step P approval st (.control peer payload env) = .ok (st', out) := hs
  cases LearnState.steps_of_step hstep with
  | ignored _ => cases hreply
  | keepalive _ => cases hreply
  | @routeAdvert _ _ _ advert _ =>
    simp only [LearnState.handleRouteAdvert, EventOut.plain] at hreply
    split_ifs at hreply
    cases hreply
    exact carries_routePush _
  | @nameAdvert _ _ _ advert _ =>
    have hlabels := h.snapshot env.names
    simp only [LearnState.handleNameAdvert, EventOut.plain] at hreply hlabels
    split_ifs at hreply
    cases hreply
    exact carries_peerPush hlabels
  | assignReq _ hreq =>
    unfold LearnState.handleAssignReq at hreq
    obtain ⟨⟨assigner, call⟩, -, hreq⟩ := bind_eq_ok.1 hreq
    cases hreq
    obtain ⟨reply, -, rfl⟩ := Option.map_eq_some_iff.1 hreply
    exact carries_assign reply

/-- What a loop passes on: no control message, and as long as an IPv4 header. Neither end looks
whether it is IP. -/
structure Forwardable (payload : Bytes) : Prop where
  notControl : isControl payload = false
  length : 20 ≤ payload.length

/-- Version 4 or 6 in the first byte. -/
theorem forwardable_of_ipAt {off4 off6 : ℕ} {ip : IpAddr} (h : ipAt payload off4 off6 = some ip) :
    Forwardable payload := by
  cases payload with
  | nil => cases h
  | cons b rest =>
    have hb : ∀ b : UInt8, b >>> 4 = 4 ∨ b >>> 4 = 6 → b ≠ CONTROL_MARKER := by decide +kernel
    have hne : b >>> 4 = 4 ∨ b >>> 4 = 6 → isControl (b :: rest) = false := by
      intro hv
      simp [isControl, hb b hv]
    simp only [ipAt] at h
    split_ifs at h with h4 h6
    · exact ⟨hne (Or.inl h4.1), h4.2⟩
    · exact ⟨hne (Or.inr h6.1), le_trans (by decide) h6.2⟩

theorem ipDst_of_wellFormed (h : WellFormed payload) :
    ipDst payload = some (.v4 (BitVec.ofNat 32 (wordAt payload DST_OFFSET 4))) := by
  have hlen := h.length_ge
  have hv := h.version
  cases payload with
  | nil => exact absurd hlen (by decide)
  | cons b rest => exact if_pos ⟨hv, hlen⟩

theorem forwardable_of_wellFormed (h : WellFormed payload) : Forwardable payload :=
  forwardable_of_ipAt (ipDst_of_wellFormed h)

end ShadowVpn
