import ShadowVpn.Sanity.Effects
import ShadowVpn.Sanity.Pool

/-! The lease table over whole runs: its indexes agree, the rows it reports dropped
are exactly the rows that left, a reclaim serves the requester whenever anything
could, and an address sticks to its node for as long as the lease lasts. -/

namespace ShadowVpn

open Lib

/-! A small deployment, to show the results at work. -/

namespace Sample

def node (b : UInt8) : NodeId := ⟨List.replicate 16 b, by simp⟩

def digest (id : NodeId) : { d : List UInt8 // d.length = 32 } :=
  if id = node 1 then
    ⟨[0xcc, 0x8c, 0xd4, 0x1c, 0xef, 0x90, 0x7c, 0x4d, 0x21, 0x60, 0x69, 0x12, 0x2c, 0x4b, 0x89, 0x93,
      0x62, 0x11, 0x36, 0x1f, 0x90, 0x50, 0xa7, 0x17, 0xa1, 0xe3, 0x7a, 0xd1, 0x86, 0x2e, 0x95, 0x2f],
      rfl⟩
  else if id = node 2 then
    ⟨[0x29, 0x2a, 0xfd, 0xe3, 0xb6, 0x4e, 0x66, 0x36, 0xd6, 0x8f, 0x11, 0x20, 0xd9, 0x24, 0x2f, 0x1f,
      0x85, 0xe3, 0x8e, 0xf7, 0xbf, 0x30, 0x6e, 0x44, 0x07, 0xc2, 0x30, 0x3e, 0xb6, 0x37, 0x91, 0xef],
      rfl⟩
  else if id = node 3 then
    ⟨[0x63, 0x99, 0xf6, 0xd8, 0x63, 0xb0, 0x8f, 0x46, 0x52, 0xb3, 0x42, 0xc2, 0xe1, 0x35, 0x0b, 0x4c,
      0x01, 0xe2, 0x91, 0x33, 0x2d, 0x9d, 0x84, 0xd8, 0x4b, 0x57, 0x5b, 0xf7, 0x27, 0x28, 0x97, 0xd2],
      rfl⟩
  else ⟨List.replicate 32 0, by simp⟩

/-- A debug build; a block lies in another if both its ends do. -/
def platform : Platform where
  sha256 := digest
  isSupernetOf4 a b := a.ip ≤ b.ip && b.ip ||| ~~~b.mask ≤ a.ip ||| ~~~a.mask
  isSupernetOf6 a b := a.ip ≤ b.ip && b.ip ||| ~~~b.mask ≤ a.ip ||| ~~~a.mask
  overflowChecks := true

def io : Io := ⟨.stored, true, true⟩

def time (secs : Fin 1000000) : SystemTime := ⟨secs * 1000000000, by omega, by omega⟩

def addr (host : UInt8) : Ipv4Addr := BitVec.ofNat 32 (0x0A090000 + host.toNat)

def endpoint (host : UInt8) : SocketAddr := .v4 (BitVec.ofNat 32 (0xC6336400 + host.toNat)) 4000

def req (b hint : UInt8) : AssignReq := ⟨0, node b, addr hint, none⟩

/-- The tunnel `10.9.0.1/24` with peer `10.9.0.2` and leases of eight seconds. -/
def args : Assigner.Args where
  serverIp := addr 1
  netmask := 0xFFFFFF00
  serverIp6 := none
  peerIp := addr 2
  extraReserved := []
  ttl := 8000000000
  persistPath := some ['l']

def args6 : Assigner.Args :=
  { args with serverIp6 := some ⟨0xfd090000000000000000000000000001, 64, by decide⟩ }

def row (b host : UInt8) (secs : UInt64) : PersistLease :=
  ⟨fmtNode (node b), addr host, none, secs, none⟩

end Sample

namespace Assigner

variable {P : Platform} {s : Assigner}

/-- The three indexes say what the rows of `by_node` say. -/
structure Consistent (s : Assigner) : Prop where
  ip4 : ∀ a n, s.byIp4.get a = some n ↔ ∃ l, s.byNode.get n = some l ∧ l.ip4 = a
  ip6 : ∀ a n, s.byIp6.get a = some n ↔ ∃ l, s.byNode.get n = some l ∧ l.ip6 = some a
  ip4_unique : ∀ n m l k, s.byNode.get n = some l → s.byNode.get m = some k → l.ip4 = k.ip4 → n = m
  ip6_unique : ∀ n m l k a, s.byNode.get n = some l → s.byNode.get m = some k →
    l.ip6 = some a → k.ip6 = some a → n = m
  node : ∀ n l, s.byNode.get n = some l → l.nodeId = n
  peer : ∀ p n, s.byPeer.get p = some n → ∃ l, s.byNode.get n = some l ∧ l.lastPeer = some p
  peer_unique : ∀ p q n, s.byPeer.get p = some n → s.byPeer.get q = some n → p = q

theorem reachable_consistent (h : Reachable P s) : Consistent s := by
  obtain ⟨b, hr⟩ := reachable_refines h
  have hpeer : IsBinding s.byPeer.get s.byNode.get Lease.lastPeer := by
    rw [hr.held, hr.bound]
    exact b.peer
  refine ⟨fun a n => ?_, hr.ip6, ?_, ?_, ?_, hpeer, fun p q n => hpeer.unique⟩
  · simpa using hr.ip4 a n
  · intro n m l k hn hm he
    exact hr.ip4.unique hn hm rfl (congrArg some he.symm)
  · intro n m l k a hn hm ha ha'
    exact hr.ip6.unique hn hm ha ha'
  · intro n l hl
    rw [hr.held] at hl
    exact b.own n l hl

/-- A lease file with a node and an address given twice, then an endpoint that changes
hands, an expiry and a new range. -/
theorem reachable_consistent_duplicates : ∃ s, Reachable Sample.platform s ∧
    (s.byNode.get (Sample.node 2)).isSome ∧ Consistent s := by
  have hrun : ∃ started es s,
      new Sample.args (Sample.time 3) (Sample.time 3) Sample.io (.parsed ⟨1, [Sample.row 1 10 2,
        Sample.row 1 11 2, Sample.row 2 10 2, Sample.row 3 12 2]⟩) = .ok started ∧
      exec (step Sample.platform) started.assigner
        [.allocate (Sample.req 1 10) (Sample.endpoint 1) (Sample.time 5) Sample.io,
          .allocate (Sample.req 2 10) (Sample.endpoint 1) (Sample.time 12) Sample.io,
          .setHostRange (Sample.addr 20) (Sample.addr 30),
          .reap (Sample.time 14) Sample.io] = .ok (es, s) ∧
      (s.byNode.get (Sample.node 2)).isSome :=
    ⟨_, _, _, rfl, rfl, rfl⟩
  obtain ⟨started, es, s, hnew, hexec, hsome⟩ := hrun
  have hreach : Reachable Sample.platform s :=
    ⟨_, _, _, _, _, started, es, hnew, exec_run hexec⟩
  exact ⟨s, hreach, hsome, reachable_consistent hreach⟩

/-! Dropped leases. -/

/-- `dropped` lists the rows that left between `s` and `s'`: the expired ones, whose node
may have been bound anew by the same call, and those whose node holds nothing after. -/
structure ExactDrops (s s' : Assigner) (now : SystemTime) (dropped : List Lease) : Prop where
  nodup : dropped.Nodup
  mem : ∀ l, l ∈ dropped ↔ s.byNode.get l.nodeId = some l ∧
    (isExpired l.lastSeen now s.ttl ∨ s'.byNode.get l.nodeId = none)
  keeps : ∀ n l, s.byNode.get n = some l → l ∉ dropped →
    ∃ l', s'.byNode.get n = some l' ∧ l'.ip4 = l.ip4 ∧ l'.ip6 = l.ip6

/-- Why an unexpired row `v` may be taken from its holder. -/
structure Pressed (s : Assigner) (io : Io) (req : AssignReq) (now : SystemTime) (v : Lease) :
    Prop where
  needy : ∀ l, s.byNode.get req.nodeId = some l → isExpired l.lastSeen now s.ttl
  full : ∀ ip, (s.reapInner io.order now).1.tryIp4 req.nodeId ip req.wantIp6 = none
  oldest : ∀ n l, s.byNode.get n = some l → isExpired l.lastSeen now s.ttl = false →
    v.lastSeen.nanos ≤ l.lastSeen.nanos

section Drops

variable {b b' : Book} {s' : Assigner} {io : Io} {req : AssignReq} {peer : SocketAddr}
  {now : SystemTime} {reply : Assign} {gone : List Lease}

theorem allocates_exactDrops (hr : Refines s b) (hr' : Refines s' b')
    (h : b.Allocates s.policy req peer now reply gone b') : ExactDrops s s' now gone := by
  obtain ⟨expired, victim, hl⟩ := h.leavers
  refine ⟨hl.nodup, fun l => ⟨fun hmem => ?_, ?_⟩, fun n l hn hno => ?_⟩
  · have hheld := hl.held hmem
    refine ⟨by rw [hr.held]; exact hheld, ?_⟩
    cases he : isExpired l.lastSeen now s.ttl with
    | true => exact Or.inl rfl
    | false =>
      -- an unexpired leaver is not the requester's, who would have been refreshed
      right
      have hv := hl.victim_of_mem hmem he
      have hne : l.nodeId ≠ req.nodeId := by
        intro heq
        have := hl.needy l hv
        rw [← heq, (hl.oldest l hv).1] at this
        cases this
      rw [hr'.held]
      exact h.leaves hmem hne
  · rintro ⟨hheld, hout⟩
    rw [hr.held] at hheld
    by_contra hno
    obtain ⟨l', hl', -, -⟩ := h.stays hheld hno
    rcases hout with he | hnone
    · exact hno (by rw [hl.split]; exact List.mem_append_left _ ((hl.expired.mem l).2 ⟨_, hheld, he⟩))
    · rw [hr'.held, hl'] at hnone
      cases hnone
  · rw [hr.held] at hn
    rw [hr'.held]
    exact h.stays hn hno

theorem allocates_pressed (hr : Refines s b)
    (h : b.Allocates s.policy req peer now reply gone b') {v : Lease} (hv : v ∈ gone)
    (he : isExpired v.lastSeen now s.ttl = false) : Pressed s io req now v := by
  obtain ⟨expired, victim, hl⟩ := h.leavers
  have hvic := hl.victim_of_mem hv he
  obtain ⟨hr1, -⟩ := reapInner_refines hr io.order now
  refine ⟨fun l hget => ?_, fun ip => ?_, fun n l hget hlive => ?_⟩
  · rw [hr.held] at hget
    by_contra hlive
    have := Book.expire_held_of hget (Bool.eq_false_iff.2 hlive)
    have hnone : (b.expire s.ttl now).held req.nodeId = none := hl.needy v hvic
    rw [hnone] at this
    cases this
  · rw [tryIp4_eq_none_iff, usable_iff hr1, (reapInner_frame s io.order now).policy]
    exact hl.full v hvic ip
  · rw [hr.held] at hget
    exact (hl.oldest v hvic).2 n l (Book.expire_held_of hget hlive)

theorem reap_exactDrops (hr : Refines s b) (io : Io) (now : SystemTime) :
    ExactDrops s (s.reap io now).1 now (s.reap io now).2.dropped := by
  obtain ⟨hset, hexp⟩ := reap_refines hr io now
  have hheld' := hset.refines.held
  refine ⟨hexp.nodup, fun l => ⟨fun hmem => ?_, ?_⟩, fun n l hn hno => ?_⟩
  · obtain ⟨n, hn, he⟩ := (hexp.mem l).1 hmem
    rw [hr.held, b.own n l hn]
    exact ⟨hn, Or.inl he⟩
  · rintro ⟨hget, hout⟩
    rw [hr.held] at hget
    refine (hexp.mem l).2 ⟨_, hget, ?_⟩
    rcases hout with he | hnone
    · exact he
    · by_contra hlive
      rw [hheld', Book.expire_held_of hget (Bool.eq_false_iff.2 hlive)] at hnone
      cases hnone
  · rw [hr.held] at hn
    rw [hheld']
    refine ⟨l, Book.expire_held_of hn (Bool.eq_false_iff.2 fun he => hno ?_), rfl, rfl⟩
    exact (hexp.mem l).2 ⟨n, hn, he⟩

end Drops

theorem dropped_exact (h : Reachable P s) :
    (∀ req peer now io s' out, s.allocate P io req peer now = .ok (s', out) →
      ExactDrops s s' now out.dropped ∧ out.discarded = none ∧
        ∀ v ∈ out.dropped, isExpired v.lastSeen now s.ttl = false →
          Pressed s io req now v ∧
            ∀ w ∈ out.dropped, isExpired w.lastSeen now s.ttl = false → w = v) ∧
    ∀ now io, ExactDrops s (s.reap io now).1 now (s.reap io now).2.dropped ∧
      (s.reap io now).2.discarded = none ∧
        ∀ l ∈ (s.reap io now).2.dropped, isExpired l.lastSeen now s.ttl := by
  obtain ⟨b, hr⟩ := reachable_refines h
  refine ⟨fun req peer now io s' out hs => ?_, fun now io => ⟨reap_exactDrops hr io now, rfl, ?_⟩⟩
  · obtain ⟨reply, b', hset, -, hdis, hall⟩ := allocate_refines hr hs
    refine ⟨allocates_exactDrops hr hset.refines hall, hdis, fun v hv he => ?_⟩
    refine ⟨allocates_pressed hr hall hv he, fun w hw hew => ?_⟩
    obtain ⟨expired, victim, hl⟩ := hall.leavers
    have h1 := hl.victim_of_mem hv he
    rw [hl.victim_of_mem hw hew] at h1
    exact Option.some.inj h1
  · intro l hl
    obtain ⟨-, -, he⟩ := ((reap_refines hr io now).2.mem l).1 hl
    exact he

theorem dropped_exact_reclaim : ∃ s s' out, Reachable Sample.platform s ∧
    s.allocate Sample.platform Sample.io (Sample.req 2 10) (Sample.endpoint 2) (Sample.time 5) =
      .ok (s', out) ∧ out.dropped.map Lease.nodeId = [Sample.node 1] ∧ out.discarded = none ∧
        ExactDrops s s' (Sample.time 5) out.dropped := by
  have hrun : ∃ started es s s' out,
      new Sample.args (Sample.time 1) (Sample.time 1) Sample.io .notFound = .ok started ∧
      exec (step Sample.platform) started.assigner
        [.setHostRange (Sample.addr 10) (Sample.addr 10),
          .allocate (Sample.req 1 10) (Sample.endpoint 1) (Sample.time 1) Sample.io] =
        .ok (es, s) ∧
      s.allocate Sample.platform Sample.io (Sample.req 2 10) (Sample.endpoint 2) (Sample.time 5) =
        .ok (s', out) ∧ out.dropped.map Lease.nodeId = [Sample.node 1] :=
    ⟨_, _, _, _, _, rfl, rfl, rfl, rfl⟩
  obtain ⟨started, es, s, s', out, hnew, hexec, hs, hdrop⟩ := hrun
  have hreach : Reachable Sample.platform s := ⟨_, _, _, _, _, started, es, hnew, exec_run hexec⟩
  obtain ⟨hexact, hdis, -⟩ := (dropped_exact hreach).1 _ _ _ _ _ _ hs
  exact ⟨s, s', out, hreach, hs, hdrop, hdis, hexact⟩

/-! Pressure. -/

/-- A lease left over from a wider range is the oldest one: it is taken from its holder,
its address is of no use, and the requester still gets nothing. -/
theorem reclaim_wasted : ∃ started es s s' out v,
    new Sample.args (Sample.time 4) (Sample.time 4) Sample.io
      (.parsed ⟨1, [Sample.row 1 10 2, Sample.row 2 20 3]⟩) = .ok started ∧
    Run (step Sample.platform) started.assigner es s ∧
    s = started.assigner.setHostRange (Sample.addr 20) (Sample.addr 20) ∧
    s.allocate Sample.platform Sample.io (Sample.req 3 20) (Sample.endpoint 3) (Sample.time 5) =
      .ok (s', out) ∧
    out.reply = some exhausted ∧ out.dropped = [v] ∧ v.nodeId = Sample.node 1 ∧
      isExpired v.lastSeen (Sample.time 5) s.ttl = false :=
  ⟨_, _, _, _, _, _, rfl,
    Run.single (i := .setHostRange (Sample.addr 20) (Sample.addr 20)) rfl,
    rfl, rfl, rfl, rfl, rfl, rfl⟩

/-- The row `v` frees an address that `req` can have: its own. -/
structure Freeing (s : Assigner) (req : AssignReq) (v : Lease) : Prop where
  legal : s.policy.Legal v.ip4
  server6 : ∀ net, req.wantIp6 → s.policy.embedNet = some net → embedIp4 net v.ip4 ≠ net.ip
  free6 : ∀ n l, s.byNode.get n = some l → n ≠ v.nodeId →
    ∀ a, s.policy.derive req.wantIp6 v.ip4 = some a → l.ip6 ≠ some a

/-- A reclaim serves the requester whenever some address can be had without the
reclaimed row, in particular when that row's own address can. -/
theorem reclaim_serves (h : Reachable P s) {io : Io} {req : AssignReq} {peer : SocketAddr}
    {now : SystemTime} {s' : Assigner} {out : CallOut} {v : Lease}
    (hs : s.allocate P io req peer now = .ok (s', out)) (hv : v ∈ out.dropped)
    (he : isExpired v.lastSeen now s.ttl = false) :
    ∃ reply, out.reply = some reply ∧
      (reply.status = .ok ↔ ∃ ip,
        (((s.reapInner io.order now).1.dropLease v.nodeId).1.tryIp4 req.nodeId ip
          req.wantIp6).isSome) ∧
      (reply.status ≠ .ok → reply = exhausted) ∧
      (Freeing s req v → reply.status = .ok) := by
  obtain ⟨b, hr⟩ := reachable_refines h
  obtain ⟨reply, b', -, hreply, -, hall⟩ := allocate_refines hr hs
  obtain ⟨hr1, -⟩ := reapInner_refines hr io.order now
  obtain ⟨hr2, -⟩ := dropLease_refines hr1 v.nodeId
  have hf := (reapInner_frame s io.order now).trans (dropLease_frame _ v.nodeId)
  have hserved := hall.served_iff hv he
  refine ⟨reply, hreply, hserved.trans (exists_congr fun ip => ?_), fun hno => (hall.refused hno).2,
    fun hfree => hserved.2 ⟨v.ip4, hfree.legal, fun m l hm h4 => ?_, hfree.server6, ?_⟩⟩
  · rw [← not_iff_not, Bool.not_eq_true, Option.isSome_eq_false_iff, Option.isNone_iff_eq_none,
      tryIp4_eq_none_iff, usable_iff hr2, hf.policy]
    rfl
  · -- only `v` itself held its address
    rw [Book.evict_held] at hm
    split_ifs at hm with hmv
    obtain ⟨expired, victim, hl⟩ := hall.leavers
    exact absurd (b.ip4_inj m v.nodeId l v (Book.expire_held_some.1 hm).1 (hl.held hv) h4) hmv
  · intro m l a hm hd ha
    rw [Book.evict_held] at hm
    split_ifs at hm with hmv
    have hget : s.byNode.get m = some l := by
      rw [hr.held]
      exact (Book.expire_held_some.1 hm).1
    exact absurd ha (hfree.free6 m l hget hmv a hd)

theorem reclaim_serves_single : ∃ s s' out v reply, Reachable Sample.platform s ∧
    s.allocate Sample.platform Sample.io (Sample.req 2 10) (Sample.endpoint 2) (Sample.time 5) =
      .ok (s', out) ∧ v ∈ out.dropped ∧ isExpired v.lastSeen (Sample.time 5) s.ttl = false ∧
        out.reply = some reply ∧ reply.status = .ok := by
  have hrun : ∃ started es s s' out v,
      new Sample.args (Sample.time 1) (Sample.time 1) Sample.io .notFound = .ok started ∧
      exec (step Sample.platform) started.assigner
        [.setHostRange (Sample.addr 10) (Sample.addr 10),
          .allocate (Sample.req 1 10) (Sample.endpoint 1) (Sample.time 1) Sample.io] =
        .ok (es, s) ∧
      s.allocate Sample.platform Sample.io (Sample.req 2 10) (Sample.endpoint 2) (Sample.time 5) =
        .ok (s', out) ∧ out.dropped = [v] ∧ isExpired v.lastSeen (Sample.time 5) s.ttl = false ∧
      (((s.reapInner Sample.io.order (Sample.time 5)).1.dropLease v.nodeId).1.tryIp4
        (Sample.node 2) (Sample.addr 10) (Sample.req 2 10).wantIp6).isSome :=
    ⟨_, _, _, _, _, _, rfl, rfl, rfl, rfl, rfl, rfl⟩
  obtain ⟨started, es, s, s', out, v, hnew, hexec, hs, hdrop, he, htry⟩ := hrun
  have hreach : Reachable Sample.platform s := ⟨_, _, _, _, _, started, es, hnew, exec_run hexec⟩
  have hv : v ∈ out.dropped := by simp [hdrop]
  obtain ⟨reply, hreply, hok, -⟩ := reclaim_serves hreach hs hv he
  exact ⟨s, s', out, v, reply, hreach, hs, hv, he, hreply, hok.2 ⟨_, htry⟩⟩

/-! Sticky addresses. -/

def Granted (e : Entry Assigner Call CallOut) (n : NodeId) (reply : Assign) : Prop :=
  (∃ req peer now io, e.input = .allocate req peer now io ∧ req.nodeId = n) ∧
    e.out.reply = some reply ∧ reply.status = .ok

section Sticky

variable {s' : Assigner} {b : Book} {n : NodeId} {call : Call} {out : CallOut}

theorem step_stays (hr : Refines s b) (hs : step P s call = .ok (s', out)) {l : Lease}
    (hl : s.byNode.get n = some l) (hno : ∀ k ∈ out.dropped, k.nodeId ≠ n) :
    ∃ l', s'.byNode.get n = some l' ∧ l'.ip4 = l.ip4 ∧ l'.ip6 = l.ip6 := by
  have hmem : l ∉ out.dropped := by
    intro h
    rw [hr.held] at hl
    exact hno l h (b.own n l hl)
  cases call with
  | setHostRange start end_ =>
    cases hs
    exact ⟨l, hl, rfl, rfl⟩
  | allocate req peer now io =>
    obtain ⟨reply, b', hset, -, -, hall⟩ := allocate_refines hr hs
    exact (allocates_exactDrops hr hset.refines hall).keeps n l hl hmem
  | reap now io =>
    cases hs
    exact (reap_exactDrops hr io now).keeps n l hl hmem

theorem step_serverIp6 (hs : step P s call = .ok (s', out)) (hr : Refines s b) :
    s'.serverIp6 = s.serverIp6 := by
  cases call with
  | setHostRange start end_ =>
    cases hs
    rfl
  | allocate req peer now io =>
    obtain ⟨reply, b', hset, -, -, hall⟩ := allocate_refines hr hs
    exact congrArg Policy.serverIp6 hset.frame.policy
  | reap now io =>
    cases hs
    exact congrArg Policy.serverIp6 (reap_refines hr io now).1.frame.policy

theorem run_stays {es : History} (hr : ∃ b, Refines s b) (h : Run (step P) s es s') {l : Lease}
    (hl : s.byNode.get n = some l) (hno : ∀ e ∈ es, ∀ k ∈ e.out.dropped, k.nodeId ≠ n) :
    (∃ b, Refines s' b) ∧ s'.serverIp6 = s.serverIp6 ∧
      ∃ l', s'.byNode.get n = some l' ∧ l'.ip4 = l.ip4 ∧ l'.ip6 = l.ip6 := by
  induction h with
  | nil => exact ⟨hr, rfl, l, hl, rfl, rfl⟩
  | snoc hrun hs ih =>
    obtain ⟨⟨b, hb⟩, h6, l₁, hl₁, h4₁, h6₁⟩ := ih fun e he => hno e (List.mem_append_left _ he)
    obtain ⟨l₂, hl₂, h4₂, h6₂⟩ := step_stays hb hs hl₁
      (hno _ (List.mem_append_right _ (List.mem_singleton_self _)))
    exact ⟨step_refines hb hs, (step_serverIp6 hs hb).trans h6, l₂, hl₂, h4₂.trans h4₁,
      h6₂.trans h6₁⟩

theorem granted_row (hr : Refines s b) (hs : step P s call = .ok (s', out)) {reply : Assign}
    (hg : Granted ⟨s, call, out, s'⟩ n reply) :
    ∃ l, s'.byNode.get n = some l ∧ reply.tunIp = l.ip4 ∧
      reply.tunIp6 = (s.policy.shown l.ip6).1 := by
  obtain ⟨⟨req, peer, now, io, rfl, rfl⟩, hreply, hok⟩ := hg
  obtain ⟨reply', b', hset, hreply', -, hall⟩ := allocate_refines hr hs
  have heq : reply = reply' := Option.some.inj (hreply.symm.trans hreply')
  subst heq
  obtain ⟨l, hl, -, -, hgr⟩ := hall.granted hok
  exact ⟨l, by rw [hset.refines.held]; exact hl, hgr.tunIp, hgr.tunIp6⟩

end Sticky

/-- Let `e` grant `n` an address and no later call, up to and including `f`, drop a lease
of `n`. Then a grant to `n` at `f` carries the same addresses, and a grant to another
node carries another address. -/
theorem sticky_addresses (h : Reachable P s) {es : History} {t : Assigner}
    (hrun : Run (step P) s es t) {pre mid post : History} {e f : Entry Assigner Call CallOut}
    (hes : es = pre ++ e :: (mid ++ f :: post)) {n m : NodeId} {r r' : Assign}
    (he : Granted e n r) (hf : Granted f m r')
    (hno : ∀ g ∈ mid ++ [f], ∀ k ∈ g.out.dropped, k.nodeId ≠ n) :
    (m = n → r'.tunIp = r.tunIp ∧ r'.tunIp6 = r.tunIp6) ∧ (m ≠ n → r'.tunIp ≠ r.tunIp) := by
  subst hes
  obtain ⟨u, h1, h2⟩ := hrun.split
  obtain ⟨rfl, hse, h3⟩ := h2.cons_inv
  obtain ⟨v, h4, h5⟩ := h3.split
  obtain ⟨rfl, hsf, -⟩ := h5.cons_inv
  obtain ⟨be, hre⟩ := run_refines h1 (reachable_refines h)
  obtain ⟨l, hl, hip, hip6⟩ := granted_row hre hse he
  -- the row that `e` left is still there, with the same addresses, before and after `f`
  have hmid := run_stays (step_refines hre hse) h4 hl fun g hg => hno g (List.mem_append_left _ hg)
  obtain ⟨⟨bf, hrf⟩, hsrv, l₁, hl₁, h4₁, h6₁⟩ := hmid
  obtain ⟨l₂, hl₂, h4₂, h6₂⟩ := step_stays hrf hsf hl₁ (hno f (by simp))
  obtain ⟨k, hk, hkip, hkip6⟩ := granted_row hrf hsf hf
  constructor
  · rintro rfl
    rw [hl₂] at hk
    cases hk
    have hshown : f.pre.policy.serverIp6 = e.pre.policy.serverIp6 :=
      hsrv.trans (step_serverIp6 hse hre)
    refine ⟨by rw [hkip, hip, h4₂, h4₁], ?_⟩
    rw [hkip6, hip6, h6₂, h6₁]
    simp only [Policy.shown, hshown]
  · intro hne heq
    obtain ⟨bf', hrf'⟩ := step_refines hrf hsf
    refine hne (hrf'.ip4.unique hk hl₂ rfl ?_)
    rw [← hkip, heq, hip, h4₂, h4₁]

theorem sticky_addresses_roaming : ∃ s es t e g f r r', Reachable Sample.platform s ∧
    Run (step Sample.platform) s es t ∧ es = [e, g, f] ∧ Granted e (Sample.node 1) r ∧
      Granted f (Sample.node 1) r' ∧ r'.tunIp = r.tunIp ∧ r'.tunIp6 = r.tunIp6 := by
  have hrun : ∃ started t e g f r r',
      new Sample.args (Sample.time 1) (Sample.time 1) Sample.io .notFound = .ok started ∧
      exec (step Sample.platform) started.assigner
        [.allocate (Sample.req 1 10) (Sample.endpoint 1) (Sample.time 1) Sample.io,
          .allocate (Sample.req 2 10) (Sample.endpoint 2) (Sample.time 2) Sample.io,
          .allocate (Sample.req 1 30) (Sample.endpoint 3) (Sample.time 3) Sample.io] =
        .ok ([e, g, f], t) ∧
      Granted e (Sample.node 1) r ∧ Granted f (Sample.node 1) r' ∧
        g.out.dropped ++ f.out.dropped = [] :=
    ⟨_, _, _, _, _, _, _, rfl, rfl, ⟨⟨_, _, _, _, rfl, rfl⟩, rfl, rfl⟩,
      ⟨⟨_, _, _, _, rfl, rfl⟩, rfl, rfl⟩, rfl⟩
  obtain ⟨started, t, e, g, f, r, r', hnew, hexec, he, hf, hnil⟩ := hrun
  have hreach : Reachable Sample.platform started.assigner :=
    ⟨_, _, _, _, _, started, [], hnew, Run.nil⟩
  have hr := exec_run hexec
  obtain ⟨hg0, hf0⟩ := List.append_eq_nil_iff.1 hnil
  have hno : ∀ x ∈ [g] ++ [f], ∀ k ∈ x.out.dropped, k.nodeId ≠ Sample.node 1 := by
    simp [hg0, hf0]
  have hes : [e, g, f] = [] ++ e :: ([g] ++ f :: []) := rfl
  exact ⟨_, _, t, e, g, f, r, r', hreach, hr, rfl, he, hf,
    (sticky_addresses hreach hr hes he hf hno).1 rfl⟩

/-! The choice of an address. -/

/-- A selection over a range that leaves out the first and the last address of all, as the
hosts of every subnet do, never overflows. It fails exactly when no address is usable, it
gives a usable address with its derived companion, and it gives the hint if that is usable.
The tables decide what is usable, and say the same as the rows where they agree with them. -/
theorem selection_complete (P : Platform) (s : Assigner) (n : NodeId) (hint : Ipv4Addr)
    (want : Bool) (hstart : 1 ≤ s.start.toNat) (hend : s.end_.toNat ≤ 2 ^ 32 - 2) :
    (∃ r, s.pickAddrs P n hint want = .ok r ∧
      (r = none ↔ ∀ ip, ¬ s.Usable n want ip) ∧
      (∀ ip ip6, r = some (ip, ip6) → s.Usable n want ip ∧ ip6 = s.policy.derive want ip) ∧
      (s.Usable n want hint → r = some (hint, s.policy.derive want hint))) ∧
    (∀ b ip, Refines s b → (s.Usable n want ip ↔ b.Usable s.policy n want ip)) ∧
    ∀ addr netmask, 1 ≤ (hostRange addr netmask).1.toNat ∧
      (hostRange addr netmask).2.toNat ≤ 2 ^ 32 - 2 := by
  refine ⟨?_, fun b ip hr => usable_iff hr, hostRange_bounds⟩
  obtain ⟨r, hr⟩ := pickAddrs_total (s := s) P n hint want (by omega)
  refine ⟨r, hr, ?_⟩
  have hhint : s.Usable n want hint → r = some (hint, s.policy.derive want hint) := by
    intro hu
    have ht : s.tryIp4 n hint want = some (hint, s.policy.derive want hint) :=
      tryIp4_iff.2 ⟨hu, rfl⟩
    simp only [pickAddrs, ht] at hr
    exact (Except.ok.inj hr).symm
  rcases pickAddrs_cases hr with ⟨pair, ip, rfl, htry⟩ | ⟨rfl, hno⟩
  · obtain ⟨hu, rfl⟩ := tryIp4_iff.1 htry
    refine ⟨⟨fun h => (by cases h), fun h => absurd hu (h ip)⟩, ?_, hhint⟩
    intro ip' ip6 heq
    cases heq
    exact ⟨hu, rfl⟩
  · refine ⟨⟨fun _ ip => tryIp4_eq_none_iff.1 (hno ip), fun _ => rfl⟩, ?_, hhint⟩
    intro ip ip6 heq
    cases heq

theorem selection_complete_hint : ∃ s : Assigner, 1 ≤ s.start.toNat ∧ s.end_.toNat ≤ 2 ^ 32 - 2 ∧
    s.Usable (Sample.node 1) true (Sample.addr 10) ∧
    s.pickAddrs Sample.platform (Sample.node 1) (Sample.addr 10) true =
      .ok (some (Sample.addr 10, some 0xfd09000000000000000000000A09000A)) := by
  have hnew : 1 ≤ (empty Sample.args6 (Sample.time 1)).start.toNat ∧
      (empty Sample.args6 (Sample.time 1)).end_.toNat ≤ 2 ^ 32 - 2 ∧
      (empty Sample.args6 (Sample.time 1)).tryIp4 (Sample.node 1) (Sample.addr 10) true =
        some (Sample.addr 10, some 0xfd09000000000000000000000A09000A) := by
    decide +kernel
  obtain ⟨hstart, hend, htry⟩ := hnew
  obtain ⟨hu, heq⟩ := tryIp4_iff.1 htry
  obtain ⟨⟨r, hr, -, -, hhint⟩, -⟩ :=
    selection_complete Sample.platform _ (Sample.node 1) (Sample.addr 10) true hstart hend
  exact ⟨_, hstart, hend, hu, by rw [hr, hhint hu, heq]⟩

end Assigner

end ShadowVpn
