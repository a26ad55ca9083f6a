import ShadowVpn.Proofs.Labels

/-! The name of a node that changes its endpoint. What an event of the server does to the
names is a run of the name table, so that what holds of every table that calls can lead
to holds of the server's. -/

namespace ShadowVpn

open Lib

namespace NameTable

variable {t t' : NameTable} {es : List (Entry NameTable Event Out)}

theorem Bound.run (hb : t.Bound) (h : Run NameTable.step t es t') : t'.Bound :=
  h.invariant (fun _ _ _ _ hu hs => hu.step hs) hb

def Shown (t : NameTable) (peer : SocketAddr) (ip4 : Ipv4Addr) : Prop :=
  (∃ s, t.server = some s ∧ s.ip4 = ip4) ∨
    ∃ q row, q ≠ peer ∧ t.byPeer.get q = some row ∧ row.ip4 = ip4

theorem countP_snapshot_eq_one {ip4 : Ipv4Addr} (hserver : ∀ s, t.server = some s → s.ip4 ≠ ip4)
    (hroom : t.byPeer.entries.length < MAX_PEERS) (order : IterOrder SocketAddr NameRow) :
    (t.snapshot order).countP (fun e => e.ip4 = ip4) = 1 ↔ ∃ p row, t.byPeer.get p = some row ∧
      row.ip4 = ip4 ∧ ∀ p' row', t.byPeer.get p' = some row' → row'.ip4 = ip4 → p' = p := by
  have hall : (order.iter t.byPeer).take (MAX_PEERS - t.server.toList.length) =
      order.iter t.byPeer := by
    apply List.take_of_length_le
    have hone : t.server.toList.length ≤ 1 := by cases t.server <;> simp
    rw [(order.perm t.byPeer).length_eq]
    omega
  have hnone : t.server.toList.countP (fun e => e.ip4 = ip4) = 0 := by
    rw [List.countP_eq_zero]
    intro s hs
    simpa using hserver s (Option.mem_toList.1 hs)
  have hcount := order.countP_iter_eq_one (m := t.byPeer) (f := fun row => decide (row.ip4 = ip4))
  simp only [decide_eq_true_eq] at hcount
  rw [snapshot, hall, List.countP_append, hnone, Nat.zero_add, List.countP_map, ← hcount]
  rfl

theorem uniqueName_eq_first {requested label : Text} {nodeId : Option NodeId} {ip4 : Ipv4Addr}
    {before after : List Text} (h : candidates requested nodeId ip4 = before ++ label :: after)
    (hbefore : ∀ c ∈ before, t.nameTaken c = true) (hfree : t.nameTaken label = false) :
    t.uniqueName requested nodeId ip4 = label := by
  have hnone : before.find? (fun c => !t.nameTaken c) = none := by
    rw [List.find?_eq_none]
    intro c hc
    simp [hbefore c hc]
  rw [uniqueName_eq, h, List.find?_append, hnone, List.find?_cons, hfree]
  rfl

end NameTable

theorem unlearnDropped_run (l : Learned) (names : NameTable) (dropped : List Lease) (now : Instant)
    (ttl : Duration) :
    ∃ fs, Run NameTable.step names fs (unlearnDropped l names dropped now ttl).2 := by
  have hfold : ∀ acc : Learned × NameTable,
      ∃ fs, Run NameTable.step acc.2 fs (dropped.foldl (unlearnLease now ttl) acc).2 := by
    induction dropped with
    | nil => exact fun acc => ⟨[], Run.nil⟩
    | cons d dropped ih =>
      intro acc
      rw [List.foldl_cons]
      obtain ⟨fs, hrun⟩ := ih (unlearnLease now ttl acc d)
      cases hlast : d.lastPeer with
      | none =>
        have hsame : (unlearnLease now ttl acc d).2 = acc.2 := by simp [unlearnLease, hlast]
        exact ⟨fs, hsame ▸ hrun⟩
      | some p =>
        have hgone : (unlearnLease now ttl acc d).2 = (acc.2.withdraw p).1 := by
          simp [unlearnLease, hlast]
        rw [hgone] at hrun
        exact ⟨_, (Run.single (NameTable.step_withdraw acc.2 p)).trans hrun⟩
  exact hfold (l, names)

namespace LearnState

variable {P : Platform} {approval : RouteApproval} {args : Assigner.Args}
  {es gs : List (Entry LearnState Event EventOut)} {st st' s s' : LearnState} {b : Book}
  {event : Event} {out : EventOut} {n : NodeId} {p q : SocketAddr} {row : NameRow}

/-- An event of the server is a run of its name table. -/
theorem step_names (hr : Refines st.assigner b) (hs : step P approval st event = .ok (st', out)) :
    ∃ fs, Run NameTable.step st.names fs st'.names := by
  cases steps_of_step hs with
  | ignored _ => exact ⟨[], Run.nil⟩
  | keepalive _ => exact ⟨[], Run.nil⟩
  | routeAdvert _ => exact ⟨[], Run.nil⟩
  | nameAdvert _ => exact ⟨_, Run.single (NameTable.step_advertise _ _ _ _ _ _ _)⟩
  | assignReq _ hreq =>
    obtain ⟨reply, b', he⟩ := handleAssignReq_effect hr hreq
    rw [he.names]
    exact unlearnDropped_run _ _ _ _ _
  | packet =>
    rw [routePacket_state]
    exact ⟨[], Run.nil⟩
  | @sweep env =>
    obtain ⟨fs, hrun⟩ := unlearnDropped_run
      ({ st.learned with subnets := (st.learned.subnets.expire st.leaseTtl env.now).1 }.expireClients
        st.leaseTtl env.now)
      (st.names.expire env.names st.leaseTtl env.now).1 (st.sweep env).2.dropped env.now st.leaseTtl
    exact ⟨_, (Run.single (NameTable.step_expire st.names env.names st.leaseTtl env.now)).trans hrun⟩

theorem run_names (hrun : Run (step P approval) st gs s) (h₀ : ∃ b, Refines st.assigner b) :
    ∃ fs, Run NameTable.step st.names fs s.names := by
  induction hrun with
  | nil => exact ⟨[], Run.nil⟩
  | snoc hr hs ih =>
    obtain ⟨b, hb⟩ := run_refines hr h₀
    obtain ⟨fs, hfs⟩ := ih
    obtain ⟨fs', hfs'⟩ := step_names hb hs
    exact ⟨_, hfs.trans hfs'⟩

theorem serves_names (h : Serves P approval args es st) : st.names.Reachable := by
  obtain ⟨clock, now, io, disk, started, range, hostname, leaseTtl, hnew, hrun⟩ := h
  obtain ⟨b, hb, -⟩ := Assigner.new_restored hnew
  obtain ⟨fs, hfs⟩ := run_names hrun ⟨b, (Assigner.configured_restored hb range).refines⟩
  exact ⟨_, fs, Or.inr ⟨_, _, _, rfl⟩, hfs⟩

theorem run_rows (hrun : Run (step P approval) st gs s) (h₀ : ∃ b, Refines st.assigner b)
    (hquiet : ∀ e ∈ gs, ∀ p advert, ¬ Advertises p advert e.input)
    (hrow : s.names.byPeer.get p = some row) : st.names.byPeer.get p = some row := by
  induction hrun with
  | nil => exact hrow
  | snoc hr hs ih =>
    rw [List.forall_mem_append, List.forall_mem_singleton] at hquiet
    obtain ⟨b, hb⟩ := run_refines hr h₀
    rcases step_row hb hs hrow with ⟨advert, hadv, -⟩ | ⟨-, hold⟩
    · exact absurd hadv (hquiet.2 p advert)
    · exact ih hquiet.1 hold

/-- A node with a lease and a name at `p` asks for its address from `q`, is given it, and
then sends its name from there. No other advert comes between. -/
structure Roams (P : Platform) (approval : RouteApproval) (n : NodeId) (p q : SocketAddr)
    (row : NameRow) (st s s' : LearnState) : Prop where
  serves : ∃ args es, Serves P approval args es st
  lease : ∃ l, st.assigner.byNode.get n = some l ∧ l.ip4 = row.ip4
  speaks : st.assigner.nodeForPeer p = some n
  named : st.names.byPeer.get p = some row
  moved : q ≠ p
  asks : ∃ gs, Run (step P approval) st gs s ∧
    (∀ e ∈ gs, ∀ p advert, ¬ Advertises p advert e.input) ∧
    ∃ e ∈ gs, ∃ payload env req reply, e.input = .control q payload env ∧
      parseControl payload = some (.assignReq req) ∧ req.nodeId = n ∧
      e.out.reply = some (.assign reply) ∧ reply.status = .ok ∧ reply.tunIp = row.ip4
  names : ∃ payload env advert out, parseControl payload = some (.nameAdvert advert) ∧
    advert.name ≠ [] ∧ sanitizeHostname advert.name = row.requested ∧
    advert.tunnelIp = row.ip4 ∧ step P approval s (.control q payload env) = .ok (s', out)

/-- The label at `q` is the one that `p` had, and whoever looks sees the address once. -/
def Kept (q : SocketAddr) (row : NameRow) (s' : LearnState) : Prop :=
  s'.names.nameFor q = some row.granted ∧
    ∀ order, (s'.names.snapshot order).countP (fun e => e.ip4 = row.ip4) = 1

theorem Roams.rows (h : Roams P approval n p q row st s s') {p' : SocketAddr} {row' : NameRow}
    (hrow : s.names.byPeer.get p' = some row') : st.names.byPeer.get p' = some row' := by
  obtain ⟨args, es, hserves⟩ := h.serves
  obtain ⟨gs, hrun, hquiet, -⟩ := h.asks
  exact run_rows hrun (serves_refines hserves) hquiet hrow

theorem Roams.bound (h : Roams P approval n p q row st s s') : s.names.Bound := by
  obtain ⟨args, es, hserves⟩ := h.serves
  obtain ⟨gs, hrun, -⟩ := h.asks
  obtain ⟨fs, hfs⟩ := run_names hrun (serves_refines hserves)
  exact (serves_names hserves).bound.run hfs

theorem Roams.granted (h : Roams P approval n p q row st s s') (hq : s.names.byPeer.get q = none) :
    ∃ new : NameRow,
      new.granted = s.names.uniqueName row.requested (s.assigner.nodeForPeer q) row.ip4 ∧
      new.ip4 = row.ip4 ∧ s'.names.byPeer = s.names.byPeer.insert q new ∧
      s'.names.server = s.names.server := by
  have hkeep : (s.names.withdraw q).1 = s.names := by rw [NameTable.withdraw, hq]
  obtain ⟨payload, env, advert, out, hparse, hname, hsame, hip, hs⟩ := h.names
  have hempty : ¬ advert.name.isEmpty = true := by simpa using hname
  rw [step_nameAdvert hparse] at hs
  cases hs
  refine ⟨⟨row.requested, s.names.uniqueName row.requested (s.assigner.nodeForPeer q) row.ip4,
    row.ip4, advert.tunnelIp6, env.now⟩, rfl, rfl, ?_⟩
  simp only [NameTable.advertise, if_neg hempty, hq, NameTable.grant, hkeep, hsame, hip, and_self]

theorem Roams.free (h : Roams P approval n p q row st s s')
    (hlabel : ¬ s.names.Taken p row.granted) (hgone : s.names.byPeer.get p = none) :
    s.names.nameTaken row.granted = false := by
  rw [← Bool.not_eq_true, NameTable.nameTaken_iff]
  rintro (hown | ⟨p', hp'⟩)
  · exact hlabel (Or.inl hown)
  · obtain ⟨row', hrow', hg⟩ := h.bound.granted hp'
    refine hlabel (Or.inr ⟨p', row', ?_, hrow', hg⟩)
    rintro rfl
    rw [hgone] at hrow'
    cases hrow'

theorem Roams.shown_once_iff (h : Roams P approval n p q row st s s')
    (hnew : s.names.byPeer.get q = none) (haddr : ¬ s.names.Shown p row.ip4)
    (hroom : s.names.byPeer.entries.length + 1 < MAX_PEERS)
    (order : IterOrder SocketAddr NameRow) :
    (s'.names.snapshot order).countP (fun e => e.ip4 = row.ip4) = 1 ↔
      s.names.byPeer.get p = none := by
  obtain ⟨new, -, hip, hpeers, hserver'⟩ := h.granted hnew
  have hget : ∀ p', s'.names.byPeer.get p' = if p' = q then some new else s.names.byPeer.get p' := by
    intro p'
    rw [hpeers, HashMap.get_insert]
  have hself : s'.names.byPeer.get q = some new := by rw [hget, if_pos rfl]
  have hserver : ∀ e, s'.names.server = some e → e.ip4 ≠ row.ip4 := by
    intro e he heq
    rw [hserver'] at he
    exact haddr (Or.inl ⟨e, he, heq⟩)
  have hfits : s'.names.byPeer.entries.length < MAX_PEERS := by
    have hins := HashMap.length_insert_le s.names.byPeer q new
    rw [hpeers]
    omega
  rw [NameTable.countP_snapshot_eq_one hserver hfits]
  constructor
  · rintro ⟨p₁, row₁, -, -, honly⟩
    rw [Option.eq_none_iff_forall_ne_some]
    intro old hold
    -- what is left at `p` is the row itself, which shows the same address
    cases (h.rows hold).symm.trans h.named
    have hp : s'.names.byPeer.get p = some row := by rw [hget, if_neg (Ne.symm h.moved), hold]
    exact h.moved ((honly q new hself hip).trans (honly p row hp rfl).symm)
  · intro hgone
    refine ⟨q, new, hself, hip, ?_⟩
    intro p' row' hrow' hip'
    by_contra hne
    rw [hget, if_neg hne] at hrow'
    refine haddr (Or.inr ⟨p', row', ?_, hrow', hip'⟩)
    rintro rfl
    rw [hgone] at hrow'
    cases hrow'

/-- A node roams to an endpoint. If that has no name when the advert arrives, nobody else then has
the label or shows the address, the labels tried before it are taken and a snapshot has room, the
node keeps its label exactly if the row of its old endpoint is gone by then. -/
theorem roaming_keeps_name_iff (h : Roams P approval n p q row st s s')
    (hnew : s.names.byPeer.get q = none) (hlabel : ¬ s.names.Taken p row.granted)
    (haddr : ¬ s.names.Shown p row.ip4) (hroom : s.names.byPeer.entries.length + 1 < MAX_PEERS)
    (hfirst : ∃ before after, NameTable.candidates row.requested (s.assigner.nodeForPeer q) row.ip4 =
      before ++ row.granted :: after ∧ ∀ c ∈ before, s.names.nameTaken c = true) :
    Kept q row s' ↔ s.names.byPeer.get p = none := by
  constructor
  · rintro ⟨-, honce⟩
    exact (h.shown_once_iff hnew haddr hroom .stored).1 (honce .stored)
  · intro hgone
    refine ⟨?_, fun order => (h.shown_once_iff hnew haddr hroom order).2 hgone⟩
    obtain ⟨new, hlabel', -, hpeers, -⟩ := h.granted hnew
    obtain ⟨before, after, hcand, hbefore⟩ := hfirst
    rw [NameTable.nameFor, hpeers, HashMap.get_insert, if_pos rfl, Option.map_some, hlabel',
      NameTable.uniqueName_eq_first hcand hbefore (h.free hlabel hgone)]

/-! A client with the address `10.9.0.10` that names itself `a`. -/

/-- It has its name at one endpoint; `gs` ends with its request from another, which is
answered, and then it sends its name from there. -/
theorem roams_sample {started : Assigner.Started} {ttl : Duration} {o₁ o : EventOut}
    {st₁ st s₁ s : LearnState} {row : NameRow} {gs : List (Entry LearnState Event EventOut)}
    (hnew : Assigner.new Sample.args (Sample.time 1) (Sample.time 1) Sample.io .notFound =
      .ok started)
    (h₁ : step Sample.platform Sample.approval (start (started.assigner.configured none) ['h'] ttl)
      (.control (Sample.endpoint 1) (Sample.assignReq 1 10) (Sample.env 1)) = .ok (st₁, o₁))
    (hst : st = (st₁.handleNameAdvert (Sample.endpoint 1) (Sample.nameAdvert 10) (Sample.env 2)).1)
    (hrow : row = ⟨['a'], ['a'], Sample.addr 10, none, 2000000000⟩)
    (hlease : ∃ l, st.assigner.byNode.get (Sample.node 1) = some l ∧ l.ip4 = row.ip4)
    (hspeaks : st.assigner.nodeForPeer (Sample.endpoint 1) = some (Sample.node 1))
    (hnamed : st.names.byPeer.get (Sample.endpoint 1) = some row)
    (hgs : Run (step Sample.platform Sample.approval) st gs s₁)
    (hquiet : ∀ e ∈ gs, ∀ p advert, ¬ Advertises p advert e.input)
    (hs : step Sample.platform Sample.approval s₁
      (.control (Sample.endpoint 2) (Sample.assignReq 1 10) (Sample.env 8)) = .ok (s, o))
    (hok : ∃ reply, o.reply = some (.assign reply) ∧ reply.status = .ok ∧ reply.tunIp = row.ip4) :
    Roams Sample.platform Sample.approval (Sample.node 1) (Sample.endpoint 1) (Sample.endpoint 2) row
      st s (s.handleNameAdvert (Sample.endpoint 2) (Sample.nameAdvert 10) (Sample.env 8)).1 where
  serves := by
    subst hst
    exact ⟨_, _, _, _, _, _, started, none, _, _, hnew, (Run.single h₁).snoc
      (step_nameAdvert (Sample.parse_nameAdvert 10) st₁ (Sample.endpoint 1) (Sample.env 2))⟩
  lease := hlease
  speaks := hspeaks
  named := hnamed
  moved := by decide
  asks := by
    have hparse : parseControl (Sample.assignReq 1 10) = some (.assignReq (Sample.req 1 10)) := rfl
    obtain ⟨reply, hreply, hstatus, hip⟩ := hok
    refine ⟨_, hgs.snoc hs, ?_, _, List.mem_append_right _ (List.mem_singleton_self _), _, _, _, reply,
      rfl, hparse, rfl, hreply, hstatus, hip⟩
    rw [List.forall_mem_append, List.forall_mem_singleton]
    refine ⟨hquiet, ?_⟩
    intro p advert hadv
    rw [advertises_control, hparse] at hadv
    cases hadv.2.1
  names := by
    subst hrow
    exact ⟨_, _, _, _, Sample.parse_nameAdvert 10, by decide, rfl, rfl,
      step_nameAdvert (Sample.parse_nameAdvert 10) s (Sample.endpoint 2) (Sample.env 8)⟩

/-- It falls silent, its row lapses before its lease does, and it comes back from the
other endpoint. -/
theorem roaming_keeps_name_iff_lapsed : ∃ row st s s',
    Roams Sample.platform Sample.approval (Sample.node 1) (Sample.endpoint 1) (Sample.endpoint 2)
      row st s s' ∧
    row.granted = ['a'] ∧ Kept (Sample.endpoint 2) row s' := by
  have hrun : ∃ started o₁ st₁ l row st o₂ s₁ o s,
      Assigner.new Sample.args (Sample.time 1) (Sample.time 1) Sample.io .notFound = .ok started ∧
      step Sample.platform Sample.approval
        (start (started.assigner.configured none) ['h'] 5000000000)
        (.control (Sample.endpoint 1) (Sample.assignReq 1 10) (Sample.env 1)) = .ok (st₁, o₁) ∧
      st = (st₁.handleNameAdvert (Sample.endpoint 1) (Sample.nameAdvert 10) (Sample.env 2)).1 ∧
      row = ⟨['a'], ['a'], Sample.addr 10, none, 2000000000⟩ ∧
      (st.assigner.byNode.get (Sample.node 1) = some l ∧ l.ip4 = row.ip4) ∧
      st.assigner.nodeForPeer (Sample.endpoint 1) = some (Sample.node 1) ∧
      st.names.byPeer.get (Sample.endpoint 1) = some row ∧
      step Sample.platform Sample.approval st (.sweep (Sample.env 8)) = .ok (s₁, o₂) ∧
      step Sample.platform Sample.approval s₁
        (.control (Sample.endpoint 2) (Sample.assignReq 1 10) (Sample.env 8)) = .ok (s, o) ∧
      (∃ reply, o.reply = some (.assign reply) ∧ reply.status = .ok ∧ reply.tunIp = row.ip4) ∧
      s.names.server = some ⟨['h'], Sample.addr 1, none⟩ ∧ s.names.byPeer = ∅ :=
    ⟨_, _, _, _, _, _, _, _, _, _, rfl, rfl, rfl, rfl, ⟨rfl, rfl⟩, rfl, rfl, rfl, rfl,
      ⟨_, rfl, rfl, rfl⟩, rfl, rfl⟩
  obtain ⟨started, o₁, st₁, l, row, st, o₂, s₁, o, s, hnew, h₁, hst, hrow, hlease, hspeaks, hnamed,
    hsweep, hs, hok, hserver, hpeers⟩ := hrun
  have hget : ∀ p, s.names.byPeer.get p = none := by
    intro p
    rw [hpeers, HashMap.get_empty]
  have hroams := roams_sample hnew h₁ hst hrow ⟨l, hlease⟩ hspeaks hnamed (Run.single hsweep) ?_ hs
    hok
  · subst hrow
    refine ⟨_, _, _, _, hroams, rfl, (roaming_keeps_name_iff hroams (hget _) ?_ ?_ ?_ ?_).2 (hget _)⟩
    · rintro (⟨e, he, hname⟩ | ⟨q, row', hq, hrow', -⟩)
      · rw [hserver] at he
        cases he
        cases hname
      · rw [hget] at hrow'
        cases hrow'
    · rintro (⟨e, he, hip⟩ | ⟨q, row', hq, hrow', -⟩)
      · rw [hserver] at he
        cases he
        exact absurd hip (by decide)
      · rw [hget] at hrow'
        cases hrow'
    · rw [hpeers]
      decide
    · exact ⟨[], _, rfl, by simp⟩
  · rw [List.forall_mem_singleton]
    rintro p advert ⟨⟨_, _, heq, -⟩, -⟩
    cases heq

/-- It moves on at once and gets its label with a tag, and its address is shown twice. -/
theorem roaming_loses_name : ∃ row st s s',
    Roams Sample.platform Sample.approval (Sample.node 1) (Sample.endpoint 1) (Sample.endpoint 2)
      row st s s' ∧
    row.granted = ['a'] ∧
    s'.names.nameFor (Sample.endpoint 2) = some ['a', '-', '0', '1', '0', '1'] ∧
    (s'.names.snapshot .stored).countP (fun e => e.ip4 = row.ip4) = 2 := by
  have hrun : ∃ started o₁ st₁ l row st o s,
      Assigner.new Sample.args (Sample.time 1) (Sample.time 1) Sample.io .notFound = .ok started ∧
      step Sample.platform Sample.approval
        (start (started.assigner.configured none) ['h'] 300000000000)
        (.control (Sample.endpoint 1) (Sample.assignReq 1 10) (Sample.env 1)) = .ok (st₁, o₁) ∧
      st = (st₁.handleNameAdvert (Sample.endpoint 1) (Sample.nameAdvert 10) (Sample.env 2)).1 ∧
      row = ⟨['a'], ['a'], Sample.addr 10, none, 2000000000⟩ ∧
      (st.assigner.byNode.get (Sample.node 1) = some l ∧ l.ip4 = row.ip4) ∧
      st.assigner.nodeForPeer (Sample.endpoint 1) = some (Sample.node 1) ∧
      st.names.byPeer.get (Sample.endpoint 1) = some row ∧
      step Sample.platform Sample.approval st
        (.control (Sample.endpoint 2) (Sample.assignReq 1 10) (Sample.env 8)) = .ok (s, o) ∧
      (∃ reply, o.reply = some (.assign reply) ∧ reply.status = .ok ∧ reply.tunIp = row.ip4) ∧
      (s.handleNameAdvert (Sample.endpoint 2) (Sample.nameAdvert 10) (Sample.env 8)).1.names.nameFor
        (Sample.endpoint 2) = some ['a', '-', '0', '1', '0', '1'] ∧
      ((s.handleNameAdvert (Sample.endpoint 2) (Sample.nameAdvert 10)
        (Sample.env 8)).1.names.snapshot .stored).countP (fun e => e.ip4 = row.ip4) = 2 :=
    ⟨_, _, _, _, _, _, _, _, rfl, rfl, rfl, rfl, ⟨rfl, rfl⟩, rfl, rfl, rfl, ⟨_, rfl, rfl, rfl⟩, rfl,
      by decide +kernel⟩
  obtain ⟨started, o₁, st₁, l, row, st, o, s, hnew, h₁, hst, hrow, hlease, hspeaks, hnamed, hs, hok,
    hlabel, hshown⟩ := hrun
  have hroams := roams_sample hnew h₁ hst hrow ⟨l, hlease⟩ hspeaks hnamed Run.nil (by simp) hs hok
  subst hrow
  exact ⟨_, _, _, _, hroams, rfl, hlabel, hshown⟩

end LearnState

end ShadowVpn
