import ShadowVpn.Proofs.Leases
import ShadowVpn.Sanity.Server

/-! Leases and learned routes over whole runs of the server: a leased address is only
ever routed to the endpoint of its lease, and an address that is freed stops being
routed in the same event. -/

namespace ShadowVpn

open Lib

namespace Sample

def env (secs : Fin 1000000) : Env :=
  ⟨secs * 1000000000, time secs, fun _ => secs * 1000000000, io, .stored⟩

def approval : RouteApproval := ⟨false, []⟩

def assignReq (b hint : UInt8) : List UInt8 :=
  [0, 3, 0] ++ List.replicate 16 b ++ [10, 9, 0, hint] ++ List.replicate 16 0

def keepalive (host : UInt8) : List UInt8 := [0, 10, 9, 0, host]

end Sample

namespace LearnState

variable {P : Platform} {approval : RouteApproval} {st st' : LearnState} {b : Book}
  {event : Event} {out : EventOut} {peer : SocketAddr} {env : Env}

/-- What holds in every state of the server, with the book that its lease table refines. -/
structure Routed (st : LearnState) (b : Book) : Prop where
  refines : Refines st.assigner b
  routes : RoutedBy b st.learned
  shown : Shown st.assigner.policy b

theorem handleAssignReq_routed {req : AssignReq} (h : Routed st b)
    (hs : st.handleAssignReq P peer req env = .ok (st', out)) : ∃ b', Routed st' b' := by
  obtain ⟨reply, b', he⟩ := handleAssignReq_effect h.refines hs
  refine ⟨b', he.refines, ?_, he.policy ▸ h.shown.allocates he.allocates⟩
  rw [he.learned]
  exact (h.routes.forget (unlearnDropped_forgets _ _)).allocates h.shown he.allocates env.clock

/-- An event that leaves the lease table alone and keeps routes right. -/
theorem Routed.of_learned (h : Routed st b) (ha : st'.assigner = st.assigner)
    (hl : RoutedBy b st'.learned) : Routed st' b :=
  ⟨ha ▸ h.refines, hl, ha ▸ h.shown⟩

theorem routePacket_routed (h : Routed st b) (plaintext : List UInt8) :
    Routed (st.routePacket peer plaintext env).1 b := by
  rw [routePacket_state]
  refine h.of_learned rfl ?_
  dsimp only
  split_ifs
  · exact h.routes
  · cases ipSrc plaintext with
    | none => exact h.routes
    | some src => exact maybeLearn_routedBy h.refines h.routes src peer _

theorem sweep_learned (st : LearnState) (env : Env) :
    ∃ l names, st.learned.Forgets l ∧ (st.sweep env).1.learned =
      (unlearnDropped l names (st.sweep env).2.dropped env.now st.leaseTtl).1 := by
  refine ⟨_, _, ?_, rfl⟩
  intro ip entry h
  exact Learned.expireClients_forgets _ _ _ ip entry h

theorem sweep_routed (h : Routed st b) (env : Env) :
    Routed (st.sweep env).1 (b.expire st.assigner.ttl env.systemNow) := by
  have hset := (Assigner.reap_refines h.refines env.io env.systemNow).1
  have hpol : (st.sweep env).1.assigner.policy = st.assigner.policy := hset.frame.policy
  obtain ⟨l, names, hf, hl⟩ := sweep_learned st env
  refine ⟨hset.refines, fun n k ip entry hk ho he => ?_, fun n k hk h6 => ?_⟩
  · rw [hl] at he
    exact h.routes n k ip entry (Book.expire_held_some.1 hk).1 ho
      (hf ip entry (unlearnDropped_forgets _ _ ip entry he))
  · rw [hpol]
    exact h.shown n k (Book.expire_held_some.1 hk).1 h6

theorem step_routed (h : Routed st b) (hs : step P approval st event = .ok (st', out)) :
    ∃ b', Routed st' b' := by
  cases steps_of_step hs with
  | ignored _ => exact ⟨b, h⟩
  | keepalive _ => exact ⟨b, h.of_learned rfl (maybeLearn_routedBy h.refines h.routes _ _ _)⟩
  | routeAdvert _ =>
    exact ⟨b, h.of_learned rfl (maybeLearnBoth_routedBy h.refines h.routes _ _ _ _)⟩
  | nameAdvert _ =>
    exact ⟨b, h.of_learned rfl (maybeLearnBoth_routedBy h.refines h.routes _ _ _ _)⟩
  | assignReq _ hreq => exact handleAssignReq_routed h hreq
  | packet => exact ⟨b, routePacket_routed h _⟩
  | sweep => exact ⟨_, sweep_routed h _⟩

theorem start_routed {args : Assigner.Args} {clock now : SystemTime} {io : Io} {disk : LeaseFile}
    {started : Assigner.Started} (hnew : Assigner.new args clock now io disk = .ok started)
    (h6 : ∀ n l, started.assigner.byNode.get n = some l → l.ip6.isSome → args.serverIp6.isSome)
    (range : Option (BitVec 32 × BitVec 32)) (hostname : Text) (leaseTtl : Duration) :
    ∃ b, Routed (start (started.assigner.configured range) hostname leaseTtl) b := by
  obtain ⟨b, hb, hf⟩ := Assigner.new_restored hnew
  have hserver : (started.assigner.configured range).policy.serverIp6 = args.serverIp6 := by
    cases range <;> exact congrArg Policy.serverIp6 hf.policy
  refine ⟨b, (Assigner.configured_restored hb range).refines, ?_, fun n l hl hs => ?_⟩
  · intro n k ip entry _ _ he
    cases he
  · have hget : started.assigner.byNode.get n = some l := by rw [hb.refines.held]; exact hl
    have := h6 n l hget hs
    rw [← hserver] at this
    exact this

theorem reachable_routed (h : Reachable P approval st) : ∃ b, Routed st b := by
  obtain ⟨args, clock, now, io, disk, started, range, hostname, leaseTtl, es, hnew, h6, hrun⟩ := h
  refine hrun.invariant (I := fun st => ∃ b, Routed st b) ?_
    (start_routed hnew h6 range hostname leaseTtl)
  rintro u event out v ⟨b, hb⟩ hs
  exact step_routed hb hs

theorem reachable_of_no_file {args : Assigner.Args} {clock now : SystemTime} {io : Io}
    {started : Assigner.Started} (hnew : Assigner.new args clock now io .notFound = .ok started)
    {range : Option (BitVec 32 × BitVec 32)} {hostname : Text} {leaseTtl : Duration}
    {es : List (Entry LearnState Event EventOut)}
    (hrun : Run (step P approval) (start (started.assigner.configured range) hostname leaseTtl)
      es st) : Reachable P approval st := by
  refine ⟨args, clock, now, io, .notFound, started, range, hostname, leaseTtl, es, hnew, ?_, hrun⟩
  intro n l hl
  obtain ⟨b, hb, -⟩ := Assigner.new_restored hnew
  have hkept : args.kept .notFound now = [] := by
    unfold Assigner.Args.kept
    split <;> rfl
  rw [hb.refines.held, hb.rows, hkept] at hl
  cases hl.1

/-- A learned route for a leased address goes to the endpoint of the lease. -/
theorem leased_routes_to_holder (h : Reachable P approval st) {n : NodeId} {l : Lease}
    (hl : st.assigner.byNode.get n = some l) {ip : IpAddr} (ho : l.Owns ip) {entry : ClientEntry}
    (he : st.learned.clients.get ip = some entry) : l.lastPeer = some entry.peer := by
  obtain ⟨b, hb⟩ := reachable_routed h
  rw [hb.refines.held] at hl
  exact hb.routes n l ip entry hl ho he

theorem leased_routes_to_holder_claimed : ∃ st l entry,
    Reachable Sample.platform Sample.approval st ∧
    st.assigner.byNode.get (Sample.node 1) = some l ∧
    st.learned.clients.get (.v4 (Sample.addr 10)) = some entry ∧
    l.lastPeer = some entry.peer ∧ entry.peer = Sample.endpoint 1 := by
  have hrun : ∃ started es st l entry,
      Assigner.new Sample.args (Sample.time 1) (Sample.time 1) Sample.io .notFound = .ok started ∧
      exec (step Sample.platform Sample.approval)
        (start (started.assigner.configured none) ['h'] 300000000000)
        [.control (Sample.endpoint 1) (Sample.assignReq 1 10) (Sample.env 1),
          .control (Sample.endpoint 2) (Sample.keepalive 10) (Sample.env 2)] = .ok (es, st) ∧
      st.assigner.byNode.get (Sample.node 1) = some l ∧ l.ip4 = Sample.addr 10 ∧
      st.learned.clients.get (.v4 (Sample.addr 10)) = some entry ∧
      entry.peer = Sample.endpoint 1 :=
    ⟨_, _, _, _, _, rfl, rfl, rfl, rfl, rfl, rfl⟩
  obtain ⟨started, es, st, l, entry, hnew, hexec, hl, hip, he, hp⟩ := hrun
  have hreach := reachable_of_no_file hnew (exec_run hexec)
  have ho : l.Owns (.v4 (Sample.addr 10)) := Or.inl (by rw [hip])
  exact ⟨st, l, entry, hreach, hl, he, leased_routes_to_holder hreach hl ho he, hp⟩

/-- After an `AssignReq` an address of a dropped lease is routed only if the request was
granted that very address, and then to the requester; after a sweep it is not routed. -/
theorem dropped_not_routed (h : Reachable P approval st) :
    (∀ peer payload env req st' out, parseControl payload = some (.assignReq req) →
      st.handleControl P approval peer payload env = .ok (st', out) →
        ∀ l ∈ out.dropped, ∀ ip entry, l.Owns ip → st'.learned.clients.get ip = some entry →
          st'.assigner.nodeForIp ip = some req.nodeId ∧ entry.peer = peer ∧
            ∃ reply, out.reply = some (.assign reply) ∧ reply.status = .ok ∧ reply.Carries ip) ∧
    ∀ env, ∀ l ∈ (st.sweep env).2.dropped, ∀ ip, l.Owns ip →
      (st.sweep env).1.learned.clients.get ip = none := by
  obtain ⟨b, hb⟩ := reachable_routed h
  refine ⟨fun peer payload env req st' out hc hs l hl ip entry ho he => ?_, fun env l hl ip ho => ?_⟩
  · rw [handleControl_assignReq hc] at hs
    obtain ⟨reply, b', hreq⟩ := handleAssignReq_effect hb.refines hs
    obtain ⟨expired, victim, hleave⟩ := hreq.allocates.leavers
    have hheld := hleave.held hl
    rw [hreq.learned] at he
    rcases learnReply_get he with ⟨hok, hcar, hp⟩ | ⟨-, he⟩
    · obtain ⟨row, hrow, -, -, hg⟩ := hreq.allocates.granted hok
      have hown := hg.owns_of_carries hcar
      exact ⟨(nodeForIp_iff hreq.refines).2 ⟨row, hrow, hown⟩, hp, reply, hreq.replied, hok, hcar⟩
    · -- the old route pointed at the lease's endpoint, so it was unlearned
      have hpeer := hb.routes _ l ip entry hheld ho (unlearnDropped_forgets _ _ ip entry he)
      exact absurd hpeer (unlearnDropped_gone hl ho he)
  · obtain ⟨k, names, hf, hlearned⟩ := sweep_learned st env
    obtain ⟨n, hheld, -⟩ := ((Assigner.reap_refines hb.refines env.io env.systemNow).2.mem l).1 hl
    rw [hlearned, Option.eq_none_iff_forall_ne_some]
    intro entry he
    have hpeer := hb.routes n l ip entry hheld ho
      (hf ip entry (unlearnDropped_forgets _ _ ip entry he))
    exact unlearnDropped_gone hl ho he hpeer

/-- With one address for two nodes, the second request takes the route over as well. -/
theorem dropped_not_routed_reclaim : ∃ st st' out l entry,
    Reachable Sample.platform Sample.approval st ∧
    st.handleControl Sample.platform Sample.approval (Sample.endpoint 2) (Sample.assignReq 2 10)
      (Sample.env 2) = .ok (st', out) ∧
    out.dropped = [l] ∧ l.nodeId = Sample.node 1 ∧
    st'.learned.clients.get (.v4 l.ip4) = some entry ∧
    st'.assigner.nodeForIp (.v4 l.ip4) = some (Sample.node 2) ∧ entry.peer = Sample.endpoint 2 := by
  have hrun : ∃ started es st st' out l entry,
      Assigner.new Sample.args (Sample.time 1) (Sample.time 1) Sample.io .notFound = .ok started ∧
      exec (step Sample.platform Sample.approval)
        (start (started.assigner.configured (some (Sample.addr 10, Sample.addr 10))) ['h']
          300000000000)
        [.control (Sample.endpoint 1) (Sample.assignReq 1 10) (Sample.env 1)] = .ok (es, st) ∧
      st.handleControl Sample.platform Sample.approval (Sample.endpoint 2) (Sample.assignReq 2 10)
        (Sample.env 2) = .ok (st', out) ∧
      out.dropped = [l] ∧ l.nodeId = Sample.node 1 ∧
      st'.learned.clients.get (.v4 l.ip4) = some entry :=
    ⟨_, _, _, _, _, _, _, rfl, rfl, rfl, rfl, rfl, rfl⟩
  obtain ⟨started, es, st, st', out, l, entry, hnew, hexec, hs, hdrop, hn, he⟩ := hrun
  have hreach := reachable_of_no_file hnew (exec_run hexec)
  have hparse : parseControl (Sample.assignReq 2 10) = some (.assignReq (Sample.req 2 10)) := rfl
  obtain ⟨hown, hp, -⟩ := (dropped_not_routed hreach).1 _ _ _ _ _ _ hparse hs l (by simp [hdrop])
    (.v4 l.ip4) entry (Or.inl rfl) he
  exact ⟨st, st', out, l, entry, hreach, hs, hdrop, hn, he, hown, hp⟩

end LearnState

end ShadowVpn
