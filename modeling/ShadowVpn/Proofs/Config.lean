import ShadowVpn.Proofs.Leases

/-! Leases against the current configuration. A new lease is checked against the range,
the reserved set and the server prefix; a lease that is refreshed is not, so what was
bound or restored under other settings is handed out as it stands. -/

namespace ShadowVpn

open Lib

namespace Assigner

variable {P : Platform} {s s' : Assigner} {b b' : Book} {req : AssignReq} {peer : SocketAddr}
  {now : SystemTime} {io : Io} {reply : Assign} {gone : List Lease}

/-! Legal addresses. -/

theorem allocates_legal {p : Policy} (h : b.Allocates p req peer now reply gone b')
    (hlegal : ∀ n l, b.held n = some l → p.Legal l.ip4) :
    ∀ n l, b'.held n = some l → p.Legal l.ip4 := by
  intro n l hl
  rcases h.origin hl with ⟨k, hk, h4, -⟩ | ⟨hnew, -⟩
  · rw [h4]
    exact hlegal n k hk
  · exact hnew

theorem allocate_refresh (P : Platform) (io : Io) (req : AssignReq) (peer : SocketAddr)
    (hr : Refines s b) {l : Lease} (hl : b.held req.nodeId = some l) (he : isExpired l.lastSeen now s.ttl = false) :
    ∃ s' out reply, s.allocate P io req peer now = .ok (s', out) ∧ out.reply = some reply ∧
      s.policy.Grants reply l.ip4 l.ip6 := by
  obtain ⟨hr1, -⟩ := reapInner_refines hr io.order now
  have hf := (reapInner_frame s io.order now).policy
  have hl1 := Book.expire_held_of hl he
  unfold allocate
  cases href : (s.reapInner io.order now).1.refreshExisting req peer now
      (!(s.reapInner io.order now).2.isEmpty) with
  | none =>
    have he' := refreshExisting_eq_none hr1 href hl1
    rw [show (s.reapInner io.order now).1.ttl = s.ttl from congrArg Policy.ttl hf, he] at he'
    cases he'
  | some r =>
    obtain ⟨t, reply, dirty⟩ := r
    obtain ⟨k, hk, -, hg, -, -⟩ := refreshExisting_refines hr1 href
    rw [hl1] at hk
    cases hk
    simp only [href]
    exact ⟨_, _, reply, rfl, rfl, hf ▸ hg⟩

def Call.serves : Call → Bool
  | .setHostRange _ _ => false
  | _ => true

theorem step_legal {call : Call} {out : CallOut} (hr : Refines s b)
    (hlegal : ∀ n l, b.held n = some l → s.policy.Legal l.ip4)
    (hs : step P s call = .ok (s', out)) (hserve : call.serves) :
    s'.policy = s.policy ∧ ∃ b', Refines s' b' ∧ ∀ n l, b'.held n = some l → s.policy.Legal l.ip4 := by
  cases call with
  | setHostRange start end_ => cases hserve
  | allocate req peer now io =>
    obtain ⟨reply, b', hset, -, -, hall⟩ := allocate_refines hr hs
    exact ⟨hset.frame.policy, b', hset.refines, allocates_legal hall hlegal⟩
  | reap now io =>
    cases hs
    have hset := (reap_refines hr io now).1
    refine ⟨hset.frame.policy, _, hset.refines, fun n l hl => ?_⟩
    exact hlegal n l (Book.expire_held_some.1 hl).1

theorem run_legal {es : History} {t : Assigner} (h : Run (step P) s es t) (hr : Refines s b)
    (hlegal : ∀ n l, b.held n = some l → s.policy.Legal l.ip4)
    (hserve : ∀ e ∈ es, e.input.serves) :
    t.policy = s.policy ∧ ∃ b', Refines t b' ∧ ∀ n l, b'.held n = some l → s.policy.Legal l.ip4 := by
  induction h with
  | nil => exact ⟨rfl, b, hr, hlegal⟩
  | snoc hrun hs ih =>
    obtain ⟨hp, b₁, hr₁, hl₁⟩ := ih fun e he => hserve e (List.mem_append_left _ he)
    obtain ⟨hp', b₂, hr₂, hl₂⟩ := step_legal hr₁ (hp ▸ hl₁) hs
      (hserve _ (List.mem_append_right _ (List.mem_singleton_self _)))
    exact ⟨hp'.trans hp, b₂, hr₂, hp ▸ hl₂⟩

/-- Every grant of every run is legal exactly when the kept rows of the lease file are. -/
theorem grants_legal_iff (P : Platform) {args : Args} {clock : SystemTime} {disk : LeaseFile}
    {started : Started} (hnew : new args clock now io disk = .ok started)
    (range : Option (BitVec 32 × BitVec 32)) :
    (∀ es t, Run (step P) (started.assigner.configured range) es t →
      (∀ e ∈ es, e.input.serves) → ∀ e ∈ es, ∀ n reply, Granted e n reply →
        e.pre.policy.Legal reply.tunIp) ↔
    ∀ l ∈ args.kept disk now, (started.assigner.configured range).policy.Legal l.ip4 := by
  obtain ⟨b, hb, -⟩ := new_restored hnew
  have hb := configured_restored hb range
  constructor
  · -- the holder of a kept row asks for it at the moment it was last seen
    intro hall l hl
    have hheld := (hb.rows l.nodeId l).2 ⟨hl, rfl⟩
    have hlive : isExpired l.lastSeen l.lastSeen (started.assigner.configured range).ttl = false := by
      simp [isExpired, SystemTime.durationSince]
    obtain ⟨s', out, reply, hs, hreply, hg⟩ :=
      allocate_refresh P io ⟨0, l.nodeId, UNSPECIFIED, none⟩ (.v4 0 0) hb.refines hheld hlive
    have hstep : step P (started.assigner.configured range)
        (.allocate ⟨0, l.nodeId, UNSPECIFIED, none⟩ (.v4 0 0) l.lastSeen io) = .ok (s', out) := hs
    have hlegal := hall _ s' (Run.single hstep) (by simp [Call.serves]) _
      (List.mem_singleton_self _) l.nodeId reply ⟨⟨_, _, _, _, rfl, rfl⟩, hreply, hg.status⟩
    rw [hg.tunIp] at hlegal
    exact hlegal
  · intro hlegal es t hrun hserve e he n reply hg
    have hrows : ∀ n l, b.held n = some l →
        (started.assigner.configured range).policy.Legal l.ip4 :=
      fun n l hl => hlegal l ((hb.rows n l).1 hl).1
    obtain ⟨pre, post, rfl⟩ := List.append_of_mem he
    obtain ⟨m, h1, h2⟩ := hrun.split
    obtain ⟨rfl, hs, -⟩ := h2.cons_inv
    obtain ⟨hp, b₁, hr₁, hl₁⟩ := run_legal h1 hb.refines hrows
      fun g hg => hserve g (List.mem_append_left _ hg)
    obtain ⟨hp', b₂, hr₂, hl₂⟩ := step_legal hr₁ (hp ▸ hl₁) hs (hserve e he)
    obtain ⟨l, hget, htun, -⟩ := granted_row hr₁ hs hg
    rw [htun]
    exact hl₂ n l (by rw [← hr₂.held]; exact hget)

/-- An address put on the reserved list while it was leased goes on being granted. -/
theorem reserved_granted : ∃ started s' out reply,
    new { Sample.args with extraReserved := [Sample.addr 37] } (Sample.time 4) (Sample.time 4)
      Sample.io (.parsed ⟨1, [Sample.row 1 37 3]⟩) = .ok started ∧
    started.assigner.allocate Sample.platform Sample.io (Sample.req 1 37) (Sample.endpoint 1)
      (Sample.time 5) = .ok (s', out) ∧
    out.reply = some reply ∧ reply.status = .ok ∧ reply.tunIp = Sample.addr 37 ∧
      Sample.addr 37 ∈ started.assigner.reserved :=
  ⟨_, _, _, _, rfl, rfl, rfl, rfl, rfl, by decide⟩

theorem grants_legal_pool : ∃ started,
    new Sample.args (Sample.time 4) (Sample.time 4) Sample.io
      (.parsed ⟨1, [Sample.row 1 37 3, Sample.row 2 37 3]⟩) = .ok started ∧
    ∀ es t, Run (step Sample.platform)
      (started.assigner.configured (some (Sample.addr 20, Sample.addr 40))) es t →
        (∀ e ∈ es, e.input.serves) → ∀ e ∈ es, ∀ n reply, Granted e n reply →
          e.pre.policy.Legal reply.tunIp := by
  have hstart : ∃ started,
      new Sample.args (Sample.time 4) (Sample.time 4) Sample.io
        (.parsed ⟨1, [Sample.row 1 37 3, Sample.row 2 37 3]⟩) = .ok started ∧
      ∀ l ∈ Sample.args.kept (.parsed ⟨1, [Sample.row 1 37 3, Sample.row 2 37 3]⟩) (Sample.time 4),
        (started.assigner.configured (some (Sample.addr 20, Sample.addr 40))).policy.Legal l.ip4 :=
    ⟨_, rfl, by decide +kernel⟩
  obtain ⟨started, hnew, hlegal⟩ := hstart
  exact ⟨started, hnew, (grants_legal_iff _ hnew _).2 hlegal⟩

/-! The IPv6 law. -/

/-- What a reply to a request for IPv6 must say: the address embedded in the server's
prefix, if that prefix leaves room for it, and nothing otherwise. -/
def Ip6Law (p : Policy) (reply : Assign) : Prop :=
  match p.serverIp6 with
  | some net =>
    if net.prefixLen ≤ 96 then
      reply.tunIp6 = some (embedIp4 net reply.tunIp) ∧ reply.plen6 = net.prefixLen
    else reply.tunIp6 = none ∧ reply.plen6 = 0
  | none => reply.tunIp6 = none ∧ reply.plen6 = 0

/-- The requester's unexpired lease, if any, stores the IPv6 address that the current
server prefix gives it; without a prefix nothing stored is shown. -/
def Ip6Current (s : Assigner) (req : AssignReq) (now : SystemTime) : Prop :=
  ∀ l, s.byNode.get req.nodeId = some l → isExpired l.lastSeen now s.ttl = false →
    s.serverIp6 = none ∨ l.ip6 = s.policy.derive true l.ip4

theorem ip6Law_iff {p : Policy} {ip4 : Ipv4Addr} {ip6 : Option Ipv6Addr}
    (hg : p.Grants reply ip4 ip6) :
    Ip6Law p reply ↔ p.serverIp6 = none ∨ ip6 = p.derive true ip4 := by
  unfold Ip6Law
  rw [hg.tunIp, hg.tunIp6, hg.plen6]
  cases h6 : p.serverIp6 with
  | none => simp [Policy.shown, h6]
  | some net =>
    have hd : p.derive true ip4 =
        if net.prefixLen ≤ 96 then some (embedIp4 net ip4) else none := by
      by_cases hp : net.prefixLen ≤ 96 <;>
        simp [Policy.derive, Policy.embedNet, h6, hp, Option.filter_some]
    rw [hd]
    by_cases hp : net.prefixLen ≤ 96 <;> cases ip6 <;> simp [Policy.shown, h6, hp]

/-- One request for IPv6: its grant obeys the law exactly when the requester did not hold
an unexpired lease with another IPv6 address, or none, stored in it. -/
theorem allocate_ip6Law (hr : Refines s b) {out : CallOut}
    (hs : s.allocate P io req peer now = .ok (s', out)) (hwant : req.wantIp6) :
    (∀ reply, out.reply = some reply → reply.status = .ok → Ip6Law s.policy reply) ↔
      Ip6Current s req now := by
  obtain ⟨reply, b', -, hreply, -, hall⟩ := allocate_refines hr hs
  have hcur : Ip6Current s req now ↔ ∀ l, (b.expire s.ttl now).held req.nodeId = some l →
      s.serverIp6 = none ∨ l.ip6 = s.policy.derive true l.ip4 := by
    simp only [Ip6Current, Book.expire_held_some, hr.held, and_imp]
  -- without an unexpired lease the condition is empty, and a new lease takes the derived address
  have hnone : (b.expire s.ttl now).held req.nodeId = none →
      (reply.status = .ok → ∃ ip4, s.policy.Grants reply ip4 (s.policy.derive true ip4)) →
        ((reply.status = .ok → Ip6Law s.policy reply) ↔ Ip6Current s req now) := by
    intro hno hnew
    rw [hcur]
    constructor
    · intro _ l hl
      rw [hno] at hl
      cases hl
    · intro _ hok
      obtain ⟨ip4, hg⟩ := hnew hok
      exact (ip6Law_iff hg).2 (Or.inr rfl)
  have hone : (∀ r, out.reply = some r → r.status = .ok → Ip6Law s.policy r) ↔
      (reply.status = .ok → Ip6Law s.policy reply) := by
    simp [hreply]
  rw [hone]
  generalize out.dropped = gone at hall
  cases hall with
  | refresh _ hl hg =>
    rw [hcur, ip6Law_iff hg]
    constructor
    · intro hlaw k hk
      obtain rfl := Option.some.inj (hl.symm.trans hk)
      exact hlaw hg.status
    · exact fun hlaw _ => hlaw _ hl
  | fresh _ _ hf hg => exact hnone hf.node fun _ => ⟨_, hwant ▸ hg⟩
  | reclaim _ hn _ _ _ _ hg => exact hnone hn fun _ => ⟨_, hwant ▸ hg⟩
  | wasted _ hn _ _ _ => exact hnone hn fun hok => by cases hok
  | exhausted _ _ hempty => exact hnone (hempty _) fun hok => by cases hok

/-- In a run every grant to a request for IPv6 obeys the law exactly when every such
request came while the requester's lease, if it had one, stored the current address. -/
theorem ip6_law_run_iff {args : Args} {clock : SystemTime} {disk : LeaseFile} {started : Started}
    (hnew : new args clock now io disk = .ok started) {es : History} {t : Assigner}
    (hrun : Run (step P) started.assigner es t) :
    (∀ e ∈ es, ∀ req peer now io reply, e.input = .allocate req peer now io → req.wantIp6 →
      e.out.reply = some reply → reply.status = .ok → Ip6Law e.pre.policy reply) ↔
    ∀ e ∈ es, ∀ req peer now io, e.input = .allocate req peer now io → req.wantIp6 →
      Ip6Current e.pre req now := by
  have hstep : ∀ e ∈ es, ∀ req peer now io, e.input = .allocate req peer now io → req.wantIp6 →
      ((∀ reply, e.out.reply = some reply → reply.status = .ok → Ip6Law e.pre.policy reply) ↔
        Ip6Current e.pre req now) := by
    intro e he req peer now' io' hin hwant
    obtain ⟨⟨fs, hfs⟩, hs⟩ := hrun.entry he
    obtain ⟨b, hr⟩ := reachable_refines ⟨_, _, _, _, _, started, fs, hnew, hfs⟩
    rw [hin] at hs
    exact allocate_ip6Law hr hs hwant
  constructor
  · intro hlaw e he req peer now' io' hin hwant
    exact (hstep e he req peer now' io' hin hwant).1 fun reply =>
      hlaw e he req peer now' io' reply hin hwant
  · intro hcur e he req peer now' io' reply hin hwant
    exact (hstep e he req peer now' io' hin hwant).2 (hcur e he req peer now' io' hin hwant) reply

theorem ip6_law_run_fresh : ∃ started e t reply,
    new Sample.args6 (Sample.time 1) (Sample.time 1) Sample.io .notFound = .ok started ∧
    Run (step Sample.platform) started.assigner [e] t ∧
    e.out.reply = some reply ∧ reply.status = .ok ∧ Ip6Law e.pre.policy reply := by
  have hrun : ∃ started e t reply,
      new Sample.args6 (Sample.time 1) (Sample.time 1) Sample.io .notFound = .ok started ∧
      exec (step Sample.platform) started.assigner
        [.allocate { Sample.req 1 10 with flags := FLAG_WANT_IP6 } (Sample.endpoint 1)
          (Sample.time 2) Sample.io] = .ok ([e], t) ∧
      e.input = .allocate { Sample.req 1 10 with flags := FLAG_WANT_IP6 } (Sample.endpoint 1)
        (Sample.time 2) Sample.io ∧
      e.out.reply = some reply ∧ reply.status = .ok ∧ e.pre.byNode.get (Sample.node 1) = none :=
    ⟨_, _, _, _, rfl, rfl, rfl, rfl, rfl, rfl⟩
  obtain ⟨started, e, t, reply, hnew, hexec, hin, hreply, hok, hnone⟩ := hrun
  refine ⟨started, e, t, reply, hnew, exec_run hexec, hreply, hok, ?_⟩
  refine (ip6_law_run_iff hnew (exec_run hexec)).2 ?_ e (by simp) _ _ _ _ reply hin rfl hreply hok
  intro f hf req peer now io hf' _ l hl
  obtain rfl := List.mem_singleton.1 hf
  rw [hin] at hf'
  cases hf'
  have hl' : f.pre.byNode.get (Sample.node 1) = some l := hl
  rw [hnone] at hl'
  cases hl'

/-- A lease taken without the flag answers a later request for IPv6 with nothing, though
the server's prefix has room. -/
theorem ip6_law_broken : ∃ started es s s' out reply,
    new Sample.args6 (Sample.time 1) (Sample.time 1) Sample.io .notFound = .ok started ∧
    exec (step Sample.platform) started.assigner
      [.allocate (Sample.req 1 10) (Sample.endpoint 1) (Sample.time 1) Sample.io] = .ok (es, s) ∧
    s.allocate Sample.platform Sample.io { Sample.req 1 10 with flags := FLAG_WANT_IP6 }
      (Sample.endpoint 1) (Sample.time 2) = .ok (s', out) ∧
    out.reply = some reply ∧ reply.status = .ok ∧ reply.tunIp6 = none ∧ reply.plen6 = 0 ∧
      ¬ Ip6Law s.policy reply := by
  refine ⟨_, _, _, _, _, _, rfl, rfl, rfl, rfl, rfl, rfl, rfl, ?_⟩
  rintro ⟨h, -⟩
  cases h

end Assigner

end ShadowVpn
