import ShadowVpn.Proofs.Routing
import ShadowVpn.Sanity.Encode
import ShadowVpn.Sanity.Names

/-! Names over whole runs of the server: which rows outlive the leases that are dropped,
and what a row's addresses owe to the leases at the time it was written. -/

namespace ShadowVpn

open Lib

def Sample.nameAdvert (host : UInt8) : NameAdvert := ⟨true, addr host, none, ['a']⟩

theorem Sample.parse_nameAdvert (host : UInt8) :
    parseControl (nameAdvert host).encode = some (.nameAdvert (nameAdvert host)) :=
  (NameAdvert.parseControl_encode _).2 ⟨show AsciiCut ['a'] by decide, rfl⟩

namespace LearnState

variable {P : Platform} {approval : RouteApproval} {args : Assigner.Args}
  {es fs : List (Entry LearnState Event EventOut)} {st st' : LearnState} {b : Book}
  {event : Event} {out : EventOut} {peer p : SocketAddr} {env : Env} {row : NameRow}

theorem step_nameAdvert {payload : List UInt8} {advert : NameAdvert}
    (h : parseControl payload = some (.nameAdvert advert)) (st : LearnState) (peer : SocketAddr)
    (env : Env) :
    step P approval st (.control peer payload env) = .ok (st.handleNameAdvert peer advert env) := by
  rw [step, handleControl, h]

theorem sweep_names (st : LearnState) (env : Env) (p : SocketAddr) :
    (st.sweep env).1.names.byPeer.get p =
      if ∃ d ∈ (st.sweep env).2.dropped, d.lastPeer = some p then none else
        (st.names.byPeer.get p).filter fun row =>
          decide (Instant.saturatingDurationSince env.now row.lastSeen ≤ st.leaseTtl) := by
  unfold sweep
  dsimp only
  rw [unlearnDropped_names, NameTable.expire_get]

/-! Dropped leases. -/

/-- A row that has not lapsed itself outlives the leases that an event drops exactly if none of
them was last heard from its endpoint. -/
theorem names_survive_drops_iff (h : Serves P approval args es st)
    (hs : step P approval st event = .ok (st', out)) (hdrop : out.dropped ≠ [])
    (hrow : st.names.byPeer.get p = some row)
    (hlive : ∀ env, event = .sweep env →
      Instant.saturatingDurationSince env.now row.lastSeen ≤ st.leaseTtl) :
    st'.names.byPeer.get p = some row ↔ ∀ d ∈ out.dropped, d.lastPeer ≠ some p := by
  have hnone : (¬ ∃ d ∈ out.dropped, d.lastPeer = some p) ↔
      ∀ d ∈ out.dropped, d.lastPeer ≠ some p := by
    simp only [not_exists, not_and, ne_eq]
  rw [← hnone]
  cases steps_of_step hs with
  | ignored _ => exact absurd rfl hdrop
  | keepalive _ => exact absurd rfl hdrop
  | routeAdvert _ => exact absurd rfl hdrop
  | nameAdvert _ => exact absurd rfl hdrop
  | packet => exact absurd rfl hdrop
  | assignReq _ hreq =>
    obtain ⟨b, hr⟩ := serves_refines h
    obtain ⟨reply, b', he⟩ := handleAssignReq_effect hr hreq
    rw [he.names, unlearnDropped_names, hrow]
    split_ifs with hlast <;> simp [hlast]
  | @sweep env =>
    have hstays := decide_eq_true (hlive env rfl)
    rw [sweep_names, hrow, Option.filter_some, if_pos hstays]
    split_ifs with hlast <;> simp [hlast]

theorem names_survive_drops_iff_two : ∃ es st st' out row,
    Serves Sample.platform Sample.approval Sample.args es st ∧
    step Sample.platform Sample.approval st (.sweep (Sample.env 10)) = .ok (st', out) ∧
    out.dropped.map Lease.nodeId = [Sample.node 1] ∧
    st.names.byPeer.get (Sample.endpoint 2) = some row ∧
    st'.names.byPeer.get (Sample.endpoint 2) = some row := by
  have hrun : ∃ started es₁ es₂ st₁ st st' out row,
      Assigner.new Sample.args (Sample.time 1) (Sample.time 1) Sample.io .notFound = .ok started ∧
      exec (step Sample.platform Sample.approval)
        (start (started.assigner.configured none) ['h'] 300000000000)
        [.control (Sample.endpoint 1) (Sample.assignReq 1 10) (Sample.env 1),
          .control (Sample.endpoint 2) (Sample.assignReq 2 11) (Sample.env 2)] = .ok (es₁, st₁) ∧
      exec (step Sample.platform Sample.approval)
        (st₁.handleNameAdvert (Sample.endpoint 2) (Sample.nameAdvert 11) (Sample.env 3)).1
        [.control (Sample.endpoint 2) (Sample.assignReq 2 11) (Sample.env 8)] = .ok (es₂, st) ∧
      step Sample.platform Sample.approval st (.sweep (Sample.env 10)) = .ok (st', out) ∧
      out.dropped.map Lease.nodeId = [Sample.node 1] ∧
      out.dropped.map Lease.lastPeer = [some (Sample.endpoint 1)] ∧
      st.names.byPeer.get (Sample.endpoint 2) = some row ∧
      Instant.saturatingDurationSince (Sample.env 10).now row.lastSeen ≤ st.leaseTtl :=
    ⟨_, _, _, _, _, _, _, _, rfl, rfl, rfl, rfl, rfl, rfl, rfl, by decide +kernel⟩
  obtain ⟨started, es₁, es₂, st₁, st, st', out, row, hnew, hexec₁, hexec₂, hs, hdrop, hlast, hrow,
    hlive⟩ := hrun
  have hserves : Serves Sample.platform Sample.approval Sample.args _ st :=
    ⟨_, _, _, _, started, none, _, _, hnew, ((exec_run hexec₁).snoc
      (step_nameAdvert (Sample.parse_nameAdvert 11) _ _ _)).trans (exec_run hexec₂)⟩
  refine ⟨_, st, st', out, row, hserves, hs, hdrop, hrow,
    (names_survive_drops_iff hserves hs ?_ hrow ?_).2 ?_⟩
  · intro hnil
    rw [hnil] at hdrop
    cases hdrop
  · intro env henv
    cases henv
    exact hlive
  · intro d hd
    have hmem := List.mem_map_of_mem (f := Lease.lastPeer) hd
    rw [hlast, List.mem_singleton] at hmem
    rw [hmem]
    decide

/-- The lease that lapses was last heard from an endpoint that another node has taken over
since, and that node loses its name. -/
theorem stale_endpoint_loses_name : ∃ es st st' out row,
    Serves Sample.platform Sample.approval Sample.args es st ∧
    step Sample.platform Sample.approval st (.sweep (Sample.env 10)) = .ok (st', out) ∧
    out.dropped.map Lease.nodeId = [Sample.node 1] ∧
    st.names.byPeer.get (Sample.endpoint 1) = some row ∧
    Instant.saturatingDurationSince (Sample.env 10).now row.lastSeen ≤ st.leaseTtl ∧
    st.assigner.byPeer.get (Sample.endpoint 1) = some (Sample.node 2) ∧
    st'.assigner.byPeer.get (Sample.endpoint 1) = some (Sample.node 2) ∧
    st'.names.byPeer.get (Sample.endpoint 1) = none := by
  have hrun : ∃ started es₁ es₂ st₁ st st' out row,
      Assigner.new Sample.args (Sample.time 1) (Sample.time 1) Sample.io .notFound = .ok started ∧
      exec (step Sample.platform Sample.approval)
        (start (started.assigner.configured none) ['h'] 300000000000)
        [.control (Sample.endpoint 1) (Sample.assignReq 1 10) (Sample.env 1),
          .control (Sample.endpoint 1) (Sample.assignReq 2 11) (Sample.env 2)] = .ok (es₁, st₁) ∧
      exec (step Sample.platform Sample.approval)
        (st₁.handleNameAdvert (Sample.endpoint 1) (Sample.nameAdvert 11) (Sample.env 3)).1
        [.control (Sample.endpoint 1) (Sample.assignReq 2 11) (Sample.env 8)] = .ok (es₂, st) ∧
      step Sample.platform Sample.approval st (.sweep (Sample.env 10)) = .ok (st', out) ∧
      out.dropped.map Lease.nodeId = [Sample.node 1] ∧
      st.names.byPeer.get (Sample.endpoint 1) = some row ∧
      Instant.saturatingDurationSince (Sample.env 10).now row.lastSeen ≤ st.leaseTtl ∧
      st.assigner.byPeer.get (Sample.endpoint 1) = some (Sample.node 2) ∧
      st'.assigner.byPeer.get (Sample.endpoint 1) = some (Sample.node 2) ∧
      st'.names.byPeer.get (Sample.endpoint 1) = none :=
    ⟨_, _, _, _, _, _, _, _, rfl, rfl, rfl, rfl, rfl, rfl, by decide +kernel, rfl, rfl, rfl⟩
  obtain ⟨started, es₁, es₂, st₁, st, st', out, row, hnew, hexec₁, hexec₂, hs, hrest⟩ := hrun
  have hserves : Serves Sample.platform Sample.approval Sample.args _ st :=
    ⟨_, _, _, _, started, none, _, _, hnew, ((exec_run hexec₁).snoc
      (step_nameAdvert (Sample.parse_nameAdvert 11) _ _ _)).trans (exec_run hexec₂)⟩
  exact ⟨_, st, st', out, row, hserves, hs, hrest⟩

/-! Addresses. -/

/-- A name advert by `p` that is not a withdrawal. -/
def Advertises (p : SocketAddr) (advert : NameAdvert) (event : Event) : Prop :=
  (∃ payload env, event = .control p payload env ∧
    parseControl payload = some (.nameAdvert advert)) ∧ advert.name ≠ []

def Entitled (st : LearnState) (p : SocketAddr) (ip4 : Ipv4Addr) (ip6 : Option Ipv6Addr) : Prop :=
  st.assigner.MayHave p (.v4 ip4) ∧ ∀ a, ip6 = some a → st.assigner.MayHave p (.v6 a)

/-- The last advert of `p` in a history, which wrote the addresses of `row`. -/
structure LastWrite (es : List (Entry LearnState Event EventOut)) (p : SocketAddr) (row : NameRow)
    (e : Entry LearnState Event EventOut) : Prop where
  last : ∃ before after, es = before ++ e :: after ∧
    ∀ f ∈ after, ∀ advert, ¬ Advertises p advert f.input
  wrote : ∃ advert, Advertises p advert e.input ∧ row.ip4 = advert.tunnelIp ∧
    row.ip6 = advert.tunnelIp6

theorem advertises_control {advert : NameAdvert} {payload : List UInt8} :
    Advertises p advert (.control peer payload env) ↔
      p = peer ∧ parseControl payload = some (.nameAdvert advert) ∧ advert.name ≠ [] := by
  constructor
  · rintro ⟨⟨_, _, heq, hparse⟩, hname⟩
    cases heq
    exact ⟨rfl, hparse, hname⟩
  · rintro ⟨rfl, hparse, hname⟩
    exact ⟨⟨payload, env, rfl, hparse⟩, hname⟩

/-- Only a name advert of the endpoint itself writes its row. -/
theorem step_row (hr : Refines st.assigner b) (hs : step P approval st event = .ok (st', out))
    (hrow : st'.names.byPeer.get p = some row) :
    (∃ advert, Advertises p advert event ∧ row.ip4 = advert.tunnelIp ∧ row.ip6 = advert.tunnelIp6) ∨
      ((∀ advert, ¬ Advertises p advert event) ∧ st.names.byPeer.get p = some row) := by
  -- any other message parses as something else
  have hother : ∀ {peer payload env control}, parseControl payload = some control →
      (∀ advert, control ≠ .nameAdvert advert) →
        ∀ advert, ¬ Advertises p advert (.control peer payload env) := by
    intro peer payload env control hparse hne advert hadv
    rw [advertises_control, hparse] at hadv
    exact hne advert (Option.some.inj hadv.2.1)
  cases steps_of_step hs with
  | ignored h =>
    refine Or.inr ⟨?_, hrow⟩
    intro advert hadv
    rw [(advertises_control.1 hadv).2.1] at h
    cases h
  | keepalive h => exact Or.inr ⟨hother h (by simp), hrow⟩
  | routeAdvert h => exact Or.inr ⟨hother h (by simp), hrow⟩
  | @nameAdvert peer _ env advert h =>
    by_cases hp : p = peer
    · subst hp
      by_cases hname : advert.name = []
      · -- a withdrawal leaves no row
        simp only [handleNameAdvert, hname, NameTable.advertise_nil, NameTable.withdraw_get,
          if_pos] at hrow
        cases hrow
      · obtain ⟨row', hget, h4, h6⟩ := NameTable.advertise_get hname st.names p advert.tunnelIp
          advert.tunnelIp6 (st.assigner.nodeForPeer p) env.now
        cases hget.symm.trans hrow
        exact Or.inl ⟨advert, advertises_control.2 ⟨rfl, h, hname⟩, h4, h6⟩
    · refine Or.inr ⟨fun _ hadv => hp (advertises_control.1 hadv).1, ?_⟩
      rw [← hrow]
      exact (NameTable.advertise_get_ne hp _ _ _ _ _ _).symm
  | assignReq h hreq =>
    obtain ⟨reply, b', he⟩ := handleAssignReq_effect hr hreq
    rw [he.names, unlearnDropped_names] at hrow
    split_ifs at hrow
    exact Or.inr ⟨hother h (by simp), hrow⟩
  | packet =>
    rw [routePacket_state] at hrow
    refine Or.inr ⟨?_, hrow⟩
    rintro advert ⟨⟨_, _, heq, -⟩, -⟩
    cases heq
  | sweep =>
    rw [sweep_names] at hrow
    split_ifs at hrow
    refine Or.inr ⟨?_, (Option.filter_eq_some_iff.1 hrow).1⟩
    rintro advert ⟨⟨_, _, heq, -⟩, -⟩
    cases heq

theorem LastWrite.mem {e : Entry LearnState Event EventOut} (h : LastWrite es p row e) :
    e ∈ es := by
  obtain ⟨before, after, rfl, -⟩ := h.last
  simp

theorem LastWrite.eq_last {e f : Entry LearnState Event EventOut}
    (h : LastWrite (es ++ [f]) p row e) {advert : NameAdvert} (hf : Advertises p advert f.input) :
    e = f := by
  obtain ⟨before, after, heq, hno⟩ := h.last
  rcases List.eq_nil_or_concat after with rfl | ⟨init, g, rfl⟩
  · obtain ⟨-, hef⟩ := List.append_inj' heq rfl
    cases hef
    rfl
  · rw [List.concat_eq_append, ← List.cons_append, ← List.append_assoc] at heq
    obtain ⟨-, hgf⟩ := List.append_inj' heq rfl
    cases hgf
    exact absurd hf (hno f (by simp) advert)

theorem serves_row (h : Serves P approval args es st) (hrow : st.names.byPeer.get p = some row) :
    ∃ e, LastWrite es p row e := by
  obtain ⟨s₀, hfresh, hrun⟩ := h.run
  clear h
  induction hrun with
  | nil =>
    rw [hfresh.names] at hrow
    cases hrow
  | @snoc fs s s' i o hr hs ih =>
    obtain ⟨b, hb⟩ := run_refines hr hfresh.refines
    rcases step_row hb hs hrow with ⟨advert, hadv, h4, h6⟩ | ⟨hno, hold⟩
    · exact ⟨_, ⟨⟨fs, [], rfl, by simp⟩, advert, hadv, h4, h6⟩⟩
    · -- the advert that wrote the row is still the last one
      obtain ⟨e, ⟨before, after, rfl, hafter⟩, hwrote⟩ := ih hold
      refine ⟨e, ⟨before, after ++ [⟨s, i, o, s'⟩], by simp, ?_⟩, hwrote⟩
      intro f hf
      rcases List.mem_append.1 hf with hf | hf
      · exact hafter f hf
      · cases List.mem_singleton.1 hf
        exact hno

theorem Advertises.writes {advert : NameAdvert} (h : Advertises p advert event)
    (hs : step P approval st event = .ok (st', out)) :
    ∃ row, st'.names.byPeer.get p = some row ∧ row.ip4 = advert.tunnelIp ∧
      row.ip6 = advert.tunnelIp6 := by
  obtain ⟨⟨payload, env, rfl, hparse⟩, hname⟩ := h
  rw [step_nameAdvert hparse] at hs
  cases hs
  exact NameTable.advertise_get hname _ _ _ _ _ _

theorem Serves.before {gs : List (Entry LearnState Event EventOut)}
    (h : Serves P approval args (fs ++ gs) st) : ∃ s, Serves P approval args fs s := by
  obtain ⟨clock, now, io, disk, started, range, hostname, leaseTtl, hnew, hrun⟩ := h
  obtain ⟨s, hfs, -⟩ := hrun.split
  exact ⟨s, clock, now, io, disk, started, range, hostname, leaseTtl, hnew, hfs⟩

/-- All along a run, a snapshot shows besides the server only rows of the table, and every
row had the right to its addresses when it was last written, exactly if every advert with
a name had the right to the addresses in it. -/
theorem name_rows_entitled_iff (h : Serves P approval args es st) :
    (∀ e ∈ es, ∀ p advert, Advertises p advert e.input →
      Entitled e.pre p advert.tunnelIp advert.tunnelIp6) ↔
    ∀ fs s, fs <+: es → Serves P approval args fs s →
      (∀ order, ∀ entry ∈ s.names.snapshot order, s.names.server = some entry ∨
        ∃ p row, s.names.byPeer.get p = some row ∧ entry = ⟨row.granted, row.ip4, row.ip6⟩) ∧
      ∀ p row, s.names.byPeer.get p = some row →
        ∃ e, LastWrite fs p row e ∧ Entitled e.pre p row.ip4 row.ip6 := by
  constructor
  · intro hadv fs s hfs hserves
    refine ⟨fun _ _ => NameTable.mem_snapshot, ?_⟩
    intro p row hrow
    obtain ⟨e, he⟩ := serves_row hserves hrow
    obtain ⟨advert, hwrote, h4, h6⟩ := he.wrote
    rw [h4, h6]
    exact ⟨e, he, hadv e (hfs.subset he.mem) p advert hwrote⟩
  · intro hrows e he p advert hadv
    obtain ⟨l, r, rfl⟩ := List.append_of_mem he
    rw [List.append_cons] at h hrows
    obtain ⟨s, hserves⟩ := h.before
    obtain ⟨s₀, -, hrun⟩ := hserves.run
    obtain ⟨-, hs, rfl⟩ := hrun.snoc_inv
    obtain ⟨row, hrow, h4, h6⟩ := hadv.writes hs
    obtain ⟨e', hlast, hent⟩ := (hrows _ _ (List.prefix_append _ _) hserves).2 p row hrow
    rw [hlast.eq_last hadv, h4, h6] at hent
    exact hent

theorem name_rows_entitled_iff_own : ∃ es st row e,
    Serves Sample.platform Sample.approval Sample.args es st ∧
    st.names.byPeer.get (Sample.endpoint 1) = some row ∧ LastWrite es (Sample.endpoint 1) row e ∧
    Entitled e.pre (Sample.endpoint 1) row.ip4 row.ip6 := by
  have hrun : ∃ started o st₁ row,
      Assigner.new Sample.args (Sample.time 1) (Sample.time 1) Sample.io .notFound = .ok started ∧
      step Sample.platform Sample.approval
        (start (started.assigner.configured none) ['h'] 300000000000)
        (.control (Sample.endpoint 1) (Sample.assignReq 1 10) (Sample.env 1)) = .ok (st₁, o) ∧
      st₁.assigner.nodeForIp (.v4 (Sample.addr 10)) = some (Sample.node 1) ∧
      st₁.assigner.nodeForPeer (Sample.endpoint 1) = some (Sample.node 1) ∧
      (st₁.handleNameAdvert (Sample.endpoint 1) (Sample.nameAdvert 10)
        (Sample.env 2)).1.names.byPeer.get (Sample.endpoint 1) = some row :=
    ⟨_, _, _, _, rfl, rfl, by decide +kernel, rfl, rfl⟩
  obtain ⟨started, o, st₁, row, hnew, h₁, hown, hpeer, hrow⟩ := hrun
  have hserves : Serves Sample.platform Sample.approval Sample.args _ _ :=
    ⟨_, _, _, _, started, none, _, _, hnew, (Run.single h₁).snoc
      (step_nameAdvert (Sample.parse_nameAdvert 10) st₁ (Sample.endpoint 1) (Sample.env 2))⟩
  have hparse : parseControl (Sample.assignReq 1 10) = some (.assignReq (Sample.req 1 10)) := rfl
  have hrows := (name_rows_entitled_iff hserves).1 ?_
  · obtain ⟨e, hlast, hent⟩ := (hrows _ _ (List.prefix_refl _) hserves).2 _ row hrow
    exact ⟨_, _, row, e, hserves, hrow, hlast, hent⟩
  · rw [List.forall_mem_append, List.forall_mem_singleton, List.forall_mem_singleton]
    constructor
    · intro p advert hadv
      rw [advertises_control, hparse] at hadv
      cases hadv.2.1
    · intro p advert hadv
      rw [advertises_control, Sample.parse_nameAdvert] at hadv
      obtain ⟨rfl, hsome, -⟩ := hadv
      cases hsome
      refine ⟨fun owner ho => ?_, nofun⟩
      rw [← ho, hpeer]
      exact hown.symm

/-- A client publishes a name for an address that is leased to another node. -/
theorem name_for_leased_address : ∃ es st row e,
    Serves Sample.platform Sample.approval Sample.args es st ∧
    st.names.byPeer.get (Sample.endpoint 2) = some row ∧
    ⟨row.granted, row.ip4, row.ip6⟩ ∈ st.names.snapshot .stored ∧
    LastWrite es (Sample.endpoint 2) row e ∧
    e.pre.assigner.nodeForIp (.v4 row.ip4) = some (Sample.node 1) ∧
    e.pre.assigner.nodeForPeer (Sample.endpoint 2) = none := by
  have hrun : ∃ started o st₁ row,
      Assigner.new Sample.args (Sample.time 1) (Sample.time 1) Sample.io .notFound = .ok started ∧
      step Sample.platform Sample.approval
        (start (started.assigner.configured none) ['h'] 300000000000)
        (.control (Sample.endpoint 1) (Sample.assignReq 1 10) (Sample.env 1)) = .ok (st₁, o) ∧
      (st₁.handleNameAdvert (Sample.endpoint 2) (Sample.nameAdvert 10)
        (Sample.env 2)).1.names.byPeer.get (Sample.endpoint 2) = some row ∧
      ⟨row.granted, row.ip4, row.ip6⟩ ∈ (st₁.handleNameAdvert (Sample.endpoint 2)
        (Sample.nameAdvert 10) (Sample.env 2)).1.names.snapshot .stored ∧
      row.ip4 = Sample.addr 10 ∧ row.ip6 = none ∧
      st₁.assigner.nodeForIp (.v4 (Sample.addr 10)) = some (Sample.node 1) ∧
      st₁.assigner.nodeForPeer (Sample.endpoint 2) = none :=
    ⟨_, _, _, _, rfl, rfl, rfl, by decide +kernel, rfl, rfl, by decide +kernel, rfl⟩
  obtain ⟨started, o, st₁, row, hnew, h₁, hrow, hshown, h4, h6, hown, hpeer⟩ := hrun
  have hserves : Serves Sample.platform Sample.approval Sample.args _ _ :=
    ⟨_, _, _, _, started, none, _, _, hnew, (Run.single h₁).snoc
      (step_nameAdvert (Sample.parse_nameAdvert 10) st₁ (Sample.endpoint 2) (Sample.env 2))⟩
  have hadv : Advertises (Sample.endpoint 2) (Sample.nameAdvert 10)
      (.control (Sample.endpoint 2) (Sample.nameAdvert 10).encode (Sample.env 2)) :=
    advertises_control.2 ⟨rfl, Sample.parse_nameAdvert 10, by decide⟩
  refine ⟨_, _, row, _, hserves, hrow, hshown, ⟨⟨_, [], rfl, by simp⟩, _, hadv, h4, h6⟩, ?_, hpeer⟩
  rw [h4]
  exact hown

end LearnState

end ShadowVpn
