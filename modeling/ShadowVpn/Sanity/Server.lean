import ShadowVpn.Sanity.Routing

/-! One event of the server. `Steps` lists what an event can be, and for each kind the
lemmas here say which addresses it routes, which leases it leaves and which names. -/

namespace ShadowVpn

open Lib

/-! Learning. -/

section Learning

variable {s : Assigner} {peer : SocketAddr} {src ip : IpAddr}

theorem maybeLearn_of_mayHave (h : s.MayHave peer src) (l : Learned) (now : Instant) :
    maybeLearn l s src peer now = l.learn src peer now := by
  unfold maybeLearn
  cases hown : s.nodeForIp src with
  | none => rfl
  | some owner =>
    dsimp only
    rw [if_neg (by simpa using h owner hown)]

theorem maybeLearn_of_not (h : ¬ s.MayHave peer src) (l : Learned) (now : Instant) :
    maybeLearn l s src peer now = l := by
  obtain ⟨owner, hno⟩ := not_forall.1 h
  obtain ⟨hown, hne⟩ := Classical.not_imp.1 hno
  unfold maybeLearn
  rw [hown]
  exact if_pos hne

/-- Which addresses stay without a route. -/
theorem maybeLearn_unrouted (l : Learned) (now : Instant) :
    (maybeLearn l s src peer now).clients.get ip = none ↔
      l.clients.get ip = none ∧ ¬ (src = ip ∧ s.MayHave peer src) := by
  by_cases h : s.MayHave peer src
  · rw [maybeLearn_of_mayHave h, Learned.learn_clients]
    by_cases hip : ip = src
    · simp [hip, h]
    · simp [hip, Ne.symm hip]
  · rw [maybeLearn_of_not h]
    simp [h]

@[simp] theorem maybeLearn_subnets (l : Learned) (now : Instant) :
    (maybeLearn l s src peer now).subnets = l.subnets := by
  by_cases h : s.MayHave peer src
  · rw [maybeLearn_of_mayHave h, Learned.learn_subnets]
  · rw [maybeLearn_of_not h]

theorem maybeLearnBoth_unrouted (l : Learned) (ip4 ip : Ipv4Addr) (ip6 : Option Ipv6Addr)
    (clock : ℕ → Instant) :
    (maybeLearnBoth l s ip4 ip6 peer clock).clients.get (.v4 ip) = none ↔
      l.clients.get (.v4 ip) = none ∧ ¬ (ip4 = ip ∧ s.MayHave peer (.v4 ip4)) := by
  have h4 : (maybeLearn l s (.v4 ip4) peer (clock 0)).clients.get (.v4 ip) = none ↔
      l.clients.get (.v4 ip) = none ∧ ¬ (IpAddr.v4 ip4 = .v4 ip ∧ s.MayHave peer (.v4 ip4)) :=
    maybeLearn_unrouted l (clock 0)
  rw [IpAddr.v4.injEq] at h4
  unfold maybeLearnBoth
  cases ip6 with
  | none => exact h4
  | some a =>
    -- the companion is of the other family
    dsimp only
    rw [maybeLearn_unrouted, h4]
    simp

@[simp] theorem maybeLearnBoth_subnets (l : Learned) (ip4 : Ipv4Addr) (ip6 : Option Ipv6Addr)
    (clock : ℕ → Instant) : (maybeLearnBoth l s ip4 ip6 peer clock).subnets = l.subnets := by
  unfold maybeLearnBoth
  cases ip6 with
  | none => simp
  | some a => simp

@[simp] theorem learnReply_subnets (l : Learned) (reply : Assign) (clock : ℕ → Instant) :
    (LearnState.learnReply l reply peer clock).subnets = l.subnets := by
  unfold LearnState.learnReply
  split_ifs
  · cases reply.tunIp6 with
    | none => simp
    | some a => simp
  · rfl

/-- The addresses of an `Ok` reply are the only new routes. -/
theorem learnReply_unrouted (l : Learned) (reply : Assign) (clock : ℕ → Instant) :
    (LearnState.learnReply l reply peer clock).clients.get ip = none ↔
      l.clients.get ip = none ∧ ¬ (reply.status = .ok ∧ reply.Carries ip) := by
  unfold LearnState.learnReply Assign.Carries
  split_ifs with hok
  · by_cases h4 : ip = .v4 reply.tunIp
    · cases reply.tunIp6 with
      | none => simp [Learned.learn_clients, hok, h4]
      | some a => simp [Learned.learn_clients, hok, h4]
    · cases reply.tunIp6 with
      | none => simp [Learned.learn_clients, hok, h4]
      | some a =>
        by_cases h6 : ip = .v6 a
        · simp [Learned.learn_clients, hok, h6]
        · simp [Learned.learn_clients, hok, h4, h6]
  · simp [hok]

theorem learnReply_get_of_not {l : Learned} {reply : Assign} {clock : ℕ → Instant}
    (h : ¬ (reply.status = .ok ∧ reply.Carries ip)) :
    (LearnState.learnReply l reply peer clock).clients.get ip = l.clients.get ip := by
  cases hnew : (LearnState.learnReply l reply peer clock).clients.get ip with
  | none => exact ((learnReply_unrouted l reply clock).1 hnew).1.symm
  | some entry =>
    rcases learnReply_get hnew with ⟨hok, hc, -⟩ | ⟨-, hold⟩
    · exact absurd ⟨hok, hc⟩ h
    · exact hold.symm

end Learning

theorem unlearnDropped_unrouted {l : Learned} {ip : IpAddr} (h : l.clients.get ip = none)
    (names : NameTable) (dropped : List Lease) (now : Instant) (ttl : Duration) :
    (unlearnDropped l names dropped now ttl).1.clients.get ip = none := by
  rw [Option.eq_none_iff_forall_ne_some]
  intro entry he
  rw [unlearnDropped_forgets dropped (l, names) ip entry he] at h
  cases h

namespace LearnState

variable {P : Platform} {approval : RouteApproval} {st st' : LearnState} {b : Book}
  {event : Event} {out : EventOut} {peer : SocketAddr} {env : Env} {req : AssignReq}

/-! Address requests. -/

theorem handleControl_assignReq {payload : List UInt8}
    (h : parseControl payload = some (.assignReq req)) :
    st.handleControl P approval peer payload env = st.handleAssignReq P peer req env := by
  rw [handleControl, h]

/-- What `handle_control` makes of an `AssignReq`. -/
structure AssignEffect (st : LearnState) (peer : SocketAddr) (req : AssignReq) (env : Env)
    (b : Book) (st' : LearnState) (out : EventOut) (reply : Assign) (b' : Book) : Prop where
  replied : out.reply = some (.assign reply)
  refines : Refines st'.assigner b'
  policy : st'.assigner.policy = st.assigner.policy
  allocates : b.Allocates st.assigner.policy req peer env.systemNow reply out.dropped b'
  learned : st'.learned = learnReply
    (unlearnDropped st.learned st.names out.dropped env.now st.leaseTtl).1 reply peer env.clock
  names : st'.names = (unlearnDropped st.learned st.names out.dropped env.now st.leaseTtl).2
  leaseTtl : st'.leaseTtl = st.leaseTtl

theorem handleAssignReq_effect (hr : Refines st.assigner b)
    (h : st.handleAssignReq P peer req env = .ok (st', out)) :
    ∃ reply b', AssignEffect st peer req env b st' out reply b' := by
  unfold handleAssignReq at h
  obtain ⟨⟨assigner, call⟩, halloc, h⟩ := bind_eq_ok.1 h
  cases h
  obtain ⟨reply, b', hset, hreply, -, hall⟩ := Assigner.allocate_refines hr halloc
  refine ⟨reply, b', ?_, hset.refines, hset.frame.policy, hall, ?_, rfl, rfl⟩
  · simp [hreply]
  · simp [hreply]

/-! Events. -/

/-- Control payloads that change nothing. -/
inductive Ignored : Option Control → Prop
  | malformed : Ignored none
  | keepalive : Ignored (some (.keepalive none))
  | routePush (push : RoutePush) : Ignored (some (.routePush push))
  | assign (reply : Assign) : Ignored (some (.assign reply))
  | peerPush (push : PeerPush) : Ignored (some (.peerPush push))

inductive Steps (P : Platform) (approval : RouteApproval) (st : LearnState) :
    Event → LearnState → EventOut → Prop
  | ignored {peer : SocketAddr} {payload : List UInt8} {env : Env}
      (h : Ignored (parseControl payload)) :
      Steps P approval st (.control peer payload env) st (.plain none)
  | keepalive {peer : SocketAddr} {payload : List UInt8} {env : Env} {src : Ipv4Addr}
      (h : parseControl payload = some (.keepalive (some src))) :
      Steps P approval st (.control peer payload env)
        { st with learned := maybeLearn st.learned st.assigner (.v4 src) peer (env.clock 0) }
        (.plain none)
  | routeAdvert {peer : SocketAddr} {payload : List UInt8} {env : Env} {advert : RouteAdvert}
      (h : parseControl payload = some (.routeAdvert advert)) :
      Steps P approval st (.control peer payload env)
        (st.handleRouteAdvert P approval peer advert env).1
        (st.handleRouteAdvert P approval peer advert env).2
  | nameAdvert {peer : SocketAddr} {payload : List UInt8} {env : Env} {advert : NameAdvert}
      (h : parseControl payload = some (.nameAdvert advert)) :
      Steps P approval st (.control peer payload env) (st.handleNameAdvert peer advert env).1
        (st.handleNameAdvert peer advert env).2
  | assignReq {peer : SocketAddr} {payload : List UInt8} {env : Env} {req : AssignReq}
      {st' : LearnState} {out : EventOut} (h : parseControl payload = some (.assignReq req))
      (hs : st.handleAssignReq P peer req env = .ok (st', out)) :
      Steps P approval st (.control peer payload env) st' out
  | packet {peer : SocketAddr} {plaintext : List UInt8} {env : Env} :
      Steps P approval st (.packet peer plaintext env) (st.routePacket peer plaintext env).1
        (.plain none)
  | sweep {env : Env} : Steps P approval st (.sweep env) (st.sweep env).1 (st.sweep env).2

theorem steps_of_step (hs : step P approval st event = .ok (st', out)) :
    Steps P approval st event st' out := by
  cases event with
  | packet peer plaintext env =>
    cases hs
    exact .packet
  | sweep env =>
    cases hs
    exact .sweep
  | control peer payload env =>
    have hc : st.handleControl P approval peer payload env = .ok (st', out) := hs
    unfold handleControl at hc
    cases hp : parseControl payload with
    | none =>
      rw [hp] at hc
      cases hc
      exact .ignored (hp ▸ .malformed)
    | some control =>
      rw [hp] at hc
      cases control with
      | keepalive src =>
        cases src with
        | none =>
          cases hc
          exact .ignored (hp ▸ .keepalive)
        | some src =>
          cases hc
          exact .keepalive hp
      | routeAdvert advert =>
        cases hc
        exact .routeAdvert hp
      | nameAdvert advert =>
        cases hc
        exact .nameAdvert hp
      | assignReq req => exact .assignReq hp hc
      | routePush push =>
        cases hc
        exact .ignored (hp ▸ .routePush push)
      | assign reply =>
        cases hc
        exact .ignored (hp ▸ .assign reply)
      | peerPush push =>
        cases hc
        exact .ignored (hp ▸ .peerPush push)

/-! Packets. -/

/-- A packet teaches the server its source address, and nothing else. -/
theorem routePacket_state (st : LearnState) (peer : SocketAddr) (plaintext : List UInt8)
    (env : Env) : (st.routePacket peer plaintext env).1 = { st with
      learned := if plaintext.length < 20 then st.learned else
        match ipSrc plaintext with
        | some src => maybeLearn st.learned st.assigner src peer (env.clock 0)
        | none => st.learned } := by
  unfold routePacket
  split_ifs with hlen
  · rfl
  · cases ipSrc plaintext with
    | none =>
      dsimp only
      split <;> rfl
    | some src =>
      dsimp only
      split <;> rfl

/-! The lease table along a run. -/

theorem step_refines (hr : Refines st.assigner b)
    (hs : step P approval st event = .ok (st', out)) :
    (∃ b', Refines st'.assigner b') ∧ st'.assigner.policy = st.assigner.policy := by
  cases steps_of_step hs with
  | ignored _ => exact ⟨⟨b, hr⟩, rfl⟩
  | keepalive _ => exact ⟨⟨b, hr⟩, rfl⟩
  | routeAdvert _ => exact ⟨⟨b, hr⟩, rfl⟩
  | nameAdvert _ => exact ⟨⟨b, hr⟩, rfl⟩
  | assignReq _ h =>
    obtain ⟨reply, b', he⟩ := handleAssignReq_effect hr h
    exact ⟨⟨b', he.refines⟩, he.policy⟩
  | packet =>
    rw [routePacket_state]
    exact ⟨⟨b, hr⟩, rfl⟩
  | sweep =>
    rename_i env
    have hset := (Assigner.reap_refines hr env.io env.systemNow).1
    exact ⟨⟨_, hset.refines⟩, hset.frame.policy⟩

/-- How a server starts, whatever its lease file was. -/
structure Fresh (args : Assigner.Args) (st : LearnState) : Prop where
  refines : ∃ b, Refines st.assigner b
  serverIp : st.assigner.serverIp = args.serverIp
  learned : st.learned = .empty
  names : st.names.byPeer = ∅

variable {args : Assigner.Args} {es : List (Entry LearnState Event EventOut)}

theorem Serves.run (h : Serves P approval args es st) :
    ∃ s₀, Fresh args s₀ ∧ Run (step P approval) s₀ es st := by
  obtain ⟨clock, now, io, disk, started, range, hostname, leaseTtl, hnew, hrun⟩ := h
  obtain ⟨b, hb, hf⟩ := Assigner.new_restored hnew
  have hip : started.assigner.serverIp = args.serverIp := congrArg Policy.serverIp hf.policy
  refine ⟨_, ⟨⟨b, (Assigner.configured_restored hb range).refines⟩, ?_, rfl, rfl⟩, hrun⟩
  cases range with
  | none => exact hip
  | some range => exact hip

theorem run_refines {s₀ : LearnState} (hrun : Run (step P approval) s₀ es st)
    (h₀ : ∃ b, Refines s₀.assigner b) : ∃ b, Refines st.assigner b := by
  apply hrun.invariant (I := fun st => ∃ b, Refines st.assigner b) ?_ h₀
  rintro s i o s' ⟨b, hr⟩ hs
  exact (step_refines hr hs).1

theorem serves_refines (h : Serves P approval args es st) : ∃ b, Refines st.assigner b := by
  obtain ⟨s₀, hfresh, hrun⟩ := h.run
  exact run_refines hrun hfresh.refines

end LearnState

end ShadowVpn
