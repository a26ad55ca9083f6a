import ShadowVpn.Sanity.Network

/-! A server and its clients over a network: where a client's address comes from, when two clients
can have the same one, and what can appear on a client's device. -/

namespace ShadowVpn

open Lib

namespace Deployment

variable {κ : Type} {L : Primitives} {P : Platform} {D : Deployment κ} {r₀ : Routing}
  {es : List (Step κ)} {s s' : State κ} {peer : SocketAddr} {payload pkt : Bytes}

/-! The server. -/

theorem serverSays_packet (hc : isControl payload = false)
    (h : ∃ e ∈ es, ∃ party, FromDevice payload party e.input) :
    ServerSays L P D es peer payload := by
  refine ⟨?_, fun _ => h⟩
  intro reply hreply
  rw [parseControl_of_notControl hc] at hreply
  cases hreply

theorem serverSays_reply {st st' : LearnState} {b : Book} {eventOut : EventOut} {said : Control}
    {loop : Loop} {env : RelayEnv} {out : List Emit} (hr : Refines st.assigner b)
    (hl : st'.names.Labelled)
    (hs : st.handleControl P D.server.routeApproval peer payload env.toEnv = .ok (st', eventOut))
    (hreply : eventOut.reply = some said)
    (hopen : Opens L P D.server.cipher D.server.masterKey D.serverObfs pkt payload)
    (hasks : ClientSays D es (D.owner peer) payload) (hpost : s'.hub = .learn st') :
    ServerSays L P D (es ++ [⟨s, .hub (.job loop (.datagram peer pkt) env), out, s'⟩]) peer
      (encodeControl said) := by
  obtain ⟨⟨heard, hparse, hheard⟩, -⟩ := LearnState.handleControl_carries hl hs hreply
  refine ⟨?_, ?_⟩
  · intro reply hp hok
    cases hparse.symm.trans hp
    cases hheard with
    | assign said =>
      obtain ⟨req, l, hreq, hget, hip⟩ := LearnState.handleControl_granted hr hs hreply hok
      have hown := hasks.own req hreq
      rw [hown] at hget
      exact exists_mem_last ⟨⟨loop, peer, pkt, env, payload, req, rfl, hopen, hreq, hown⟩,
        st', l, hpost, hget, hip⟩
  · intro hc
    rw [isControl_of_parse hparse] at hc
    cases hc

theorem works_says (hinit : Routing.Initial D.server r₀) (hnat : D.server.nat = false)
    {loop : Loop} {job : Job} {env : RelayEnv} {out : Emit} {x : SocketAddr × Bytes}
    (hev : Routing.Evolves P D.server.routeApproval r₀ s.hub)
    (hw : Routing.Works L P D.server D.serverObfs s.hub env job s'.hub (some out))
    (hsound : sound job) (hears : ∀ a m, D.hears L P job a m → ClientSays D es (D.owner a) m)
    (hx : out.mail = some x) :
    ServerSays L P D (es ++ [⟨s, .hub (.job loop job env), [out], s'⟩]) x.1 x.2 := by
  obtain ⟨st, gs, hst, hserves⟩ := hinit.evolves_learn hnat hev
  obtain ⟨b, hb⟩ := LearnState.serves_refines hserves
  have hlabelled := hinit.labelled (hev.trans hw.evolves)
  generalize hpre : s.hub = r at hw
  generalize hpost : s'.hub = r' at hw hlabelled
  generalize ho : some out = o at hw
  obtain rfl := hpre.symm.trans hst
  cases hw with
  | noise _ => cases ho
  | short _ _ _ => cases ho
  | @control peer pkt payload r' reply hopen _ hc =>
    obtain ⟨said, rfl, rfl⟩ := Option.map_eq_some_iff.1 ho.symm
    cases hx
    obtain ⟨st', eventOut, hs, rfl, hreply⟩ := Routing.handleControl_learn hc
    exact serverSays_reply hb hlabelled hs hreply.symm hopen (hears peer payload ⟨rfl, hopen⟩) hpost
  | @routed peer pkt payload hopen hc _ =>
    -- a relayed packet is one that its sender's device gave
    obtain ⟨action, -, hout⟩ := Option.bind_eq_some_iff.1 ho.symm
    cases action with
    | tun =>
      cases hout
      cases hx
    | bounce => cases hout
    | relay next =>
      cases hout
      cases hx
      obtain ⟨e, he, hfrom⟩ := (hears peer payload ⟨rfl, hopen⟩).packet hc
      exact serverSays_packet hc (exists_mem_snoc _ ⟨e, he, _, hfrom⟩)
  | @resolved pkt =>
    obtain ⟨peer, -, hout⟩ := Option.map_eq_some_iff.1 ho.symm
    cases hout
    cases hx
    exact serverSays_packet hsound (exists_mem_last ⟨none, .server⟩)

/-! The clients. -/

variable {k : κ} {n n' : ClientNode}

theorem clientSays_packet (hc : isControl pkt = false)
    (h : ∃ e ∈ es, FromDevice pkt (some k) e.input) : ClientSays D es k pkt := by
  refine ⟨?_, fun _ => h⟩
  intro req hreq
  rw [parseControl_of_notControl hc] at hreq
  cases hreq

theorem clientSays_asks (h : Asks (D.site k).nodeId payload) : ClientSays D es k payload := by
  refine ⟨h.own, ?_⟩
  intro hc
  rw [h.control] at hc
  cases hc

theorem ClientHolds.steady (h : ClientHolds L P D es k n) {run : ClientRun}
    (hs : ClientRun.Steady n.run run) : ClientHolds L P D es k { n with run := run } := by
  refine ⟨by rw [hs.cfg]; exact h.auto, h.offers, ?_, h.asking⟩
  intro hauto hgot
  simp only [hs.gotOk] at hgot
  simp only [hs.cfg]
  exact h.address hauto hgot

theorem works_holds {loop : ClientLoop} {job : Job} {env : ClientEnv} {o : Option Emit}
    (h : ClientHolds L P D es k n)
    (hw : ClientNode.Works L P (D.site k) (D.client k) (D.clientObfs k) n env job n' o)
    (hsound : sound job)
    (htold : ∀ m, D.told L P k job m → ∃ a, D.owner a = k ∧ ServerSays L P D es a m) :
    ClientHolds L P D (es ++ [⟨s, .spoke k (.job loop job env), o.toList, s'⟩]) k n' ∧
      ∀ x ∈ o.toList.filterMap Emit.mail,
        ClientSays D (es ++ [⟨s, .spoke k (.job loop job env), o.toList, s'⟩]) k x.2 := by
  cases hw with
  | forwarded _ =>
    refine ⟨h.snoc _, ?_⟩
    intro x hx
    obtain rfl := List.mem_singleton.1 hx
    exact clientSays_packet hsound (exists_mem_last .client)
  | @asked pkt query hquery =>
    refine ⟨⟨h.auto, (h.snoc _).offers, (h.snoc _).address, ?_⟩, List.forall_mem_nil _⟩
    intro q hq
    rcases List.mem_append.1 hq with hq | hq
    · exact (h.snoc _).asking q hq
    · rw [List.mem_singleton.1 hq]
      exact exists_mem_last ⟨pkt, .client, hquery⟩
  | noise _ => exact ⟨h.snoc _, List.forall_mem_nil _⟩
  | pushed _ _ hstep =>
    exact ⟨(h.snoc _).steady (ClientRun.step_push_steady hstep).1, List.forall_mem_nil _⟩
  | @offered _ _ payload reply _ hopen hparse =>
    refine ⟨⟨h.auto, ?_, (h.snoc _).address, (h.snoc _).asking⟩, List.forall_mem_nil _⟩
    intro r hr hok
    rcases List.mem_append.1 hr with hr | hr
    · exact (h.snoc _).offers r hr hok
    · obtain rfl := List.mem_singleton.1 hr
      obtain ⟨a, rfl, hanswer⟩ := htold payload hopen
      exact exists_mem_snoc _ (hanswer.grant r hparse hok)
  | named _ _ =>
    exact ⟨⟨h.auto, (h.snoc _).offers, (h.snoc _).address, (h.snoc _).asking⟩,
      List.forall_mem_nil _⟩
  | dropped _ => exact ⟨h.snoc _, List.forall_mem_nil _⟩
  | written _ _ => exact ⟨h.snoc _, List.forall_mem_nil _⟩

theorem mail_sends {server : SocketAddr} {payloads : List Bytes}
    (h : ∀ payload ∈ payloads, Asks (D.site k).nodeId payload) :
    ∀ x ∈ (payloads.map (Emit.send server ·)).filterMap Emit.mail, ClientSays D es k x.2 := by
  intro x hx
  obtain ⟨o, ho, hmail⟩ := List.mem_filterMap.1 hx
  obtain ⟨payload, hp, rfl⟩ := List.mem_map.1 ho
  cases hmail
  exact clientSays_asks (h payload hp)

theorem ticks_holds {t : ClientTick} {out : List Emit} (h : ClientHolds L P D es k n)
    (ht : ClientNode.Ticks P (D.site k) n t n' out) :
    ClientHolds L P D (es ++ [⟨s, .spoke k (.other t), out, s'⟩]) k n' ∧
      ∀ x ∈ out.filterMap Emit.mail,
        ClientSays D (es ++ [⟨s, .spoke k (.other t), out, s'⟩]) k x.2 := by
  cases ht with
  | idle => exact ⟨h.snoc _, List.forall_mem_nil _⟩
  | @replied _ reply rest run adverts hassigns hr _ =>
    refine ⟨⟨hr.autoTun.trans h.auto, ?_, ?_, (h.snoc _).asking⟩, ?_⟩
    · intro r hmem hok
      refine (h.snoc _).offers r ?_ hok
      rw [hassigns]
      exact List.mem_cons_of_mem _ hmem
    · -- the address is the one that the client had, or that of the reply
      intro hauto _
      rcases hr.address with ⟨hgot, hcfg⟩ | ⟨hok, hip⟩
      · simp only [hcfg]
        exact (h.snoc _).address hauto hgot
      · simp only [hip]
        refine (h.snoc _).offers reply ?_ hok
        rw [hassigns]
        exact List.mem_cons_self
    · intro x hx
      obtain ⟨o, ho, hmail⟩ := List.mem_filterMap.1 hx
      obtain ⟨advert, hadvert, rfl⟩ := List.mem_map.1 ho
      cases hmail
      rcases ClientRun.mem_adverts (hr.adverts advert hadvert) with rfl | ⟨-, rfl⟩
      · exact clientSays_asks (.routeAdvert _ _)
      · exact clientSays_asks (.nameAdvert _ _)
  | retry _ =>
    refine ⟨h.snoc _, ?_⟩
    intro x hx
    obtain rfl := List.mem_singleton.1 hx
    exact clientSays_asks (.assignRequest _ _)
  | keep _ => exact ⟨h.snoc _, mail_sends fun _ hp => .of_mem_auto hp⟩
  | periodic _ => exact ⟨h.snoc _, mail_sends fun _ hp => .of_mem_periodic hp⟩
  | answered _ hout =>
    refine ⟨⟨h.auto, (h.snoc _).offers, (h.snoc _).address, ?_⟩, ?_⟩
    · intro q hq
      exact (h.snoc _).asking q (List.mem_of_mem_erase hq)
    · intro x hx
      obtain ⟨o, ho, hmail⟩ := List.mem_filterMap.1 hx
      obtain ⟨_, packet, -, rfl⟩ := hout o ho
      cases hmail
  | resolved hs _ => exact ⟨(h.snoc _).steady hs, List.forall_mem_nil _⟩

/-! Leases. -/

def Leased (r : Routing) (id : NodeId) (ip : Ipv4Addr) : Prop :=
  ∃ st l, r = .learn st ∧ st.assigner.byNode.get id = some l ∧ l.ip4 = ip

/-- An event takes the lease of `ip` from a node, for a reason. -/
structure Takes (pre : Routing) (event : Event κ) (post : Routing) (id : NodeId) (ip : Ipv4Addr) :
    Prop where
  drop : ∃ input st l, event = .hub input ∧ pre = .learn st ∧
    st.MayDrop (Routing.Input.env input).toEnv l ∧ l.nodeId = id ∧ l.ip4 = ip
  gone : ¬ Leased post id ip

theorem evolves_refines {r : Routing} (hinit : Routing.Initial D.server r₀)
    (hnat : D.server.nat = false) (hev : Routing.Evolves P D.server.routeApproval r₀ r) :
    ∃ st b, r = .learn st ∧ Refines st.assigner b := by
  obtain ⟨st, gs, rfl, hserves⟩ := hinit.evolves_learn hnat hev
  obtain ⟨b, hb⟩ := LearnState.serves_refines hserves
  exact ⟨st, b, rfl, hb⟩

theorem leased_unique {r : Routing} (hinit : Routing.Initial D.server r₀)
    (hnat : D.server.nat = false) (hev : Routing.Evolves P D.server.routeApproval r₀ r)
    {i j : NodeId} {ip : Ipv4Addr} (hi : Leased r i ip) (hj : Leased r j ip) : i = j := by
  obtain ⟨st, b, rfl, hb⟩ := evolves_refines hinit hnat hev
  obtain ⟨st₁, l, hst, hl, hip⟩ := hi
  cases hst
  obtain ⟨st₂, l', hst, hl', hip'⟩ := hj
  cases hst
  rw [hb.held] at hl hl'
  exact b.ip4_inj i j l l' hl hl' (hip.trans hip'.symm)

/-! Runs. -/

theorem holds_start (h : ∃ outside last,
    ClientNode.start (D.site k) outside (D.client k) last = .ok n) : ClientHolds L P D [] k n := by
  obtain ⟨outside, last, h⟩ := h
  obtain ⟨hassigns, hasking, hauto, hgot⟩ := ClientNode.start_unassigned h
  refine ⟨hauto, ?_, ?_, ?_⟩
  · rw [hassigns]
    exact List.forall_mem_nil _
  · intro hyes hok
    rw [hgot hyes] at hok
    cases hok
  · rw [hasking]
    exact List.forall_mem_nil _

variable [DecidableEq κ] {nodes : κ → ClientNode}

/-- Everyone keeps the contract. -/
theorem run_kept (hstart : D.Starts r₀ nodes) (hnat : D.server.nat = false)
    (h : Run (D.network L P).serial.step (.start r₀ nodes) es s)
    (hes : ∀ e ∈ es, (D.network L P).serial.Honest e.pre e.input) :
    (contract L P D r₀).Kept es s := by
  obtain ⟨clock, now, io, disk, hrouting⟩ := hstart.server
  have hinit := ServerConfig.routing_initial hrouting
  refine Star.Contract.run_kept _ ?_ ?_ h ⟨.refl _ _ _, fun k => holds_start (hstart.clients k),
    List.forall_mem_nil _, List.forall_mem_nil _⟩ hes
  · intro es s input out s' _ _ hstep hsound hev hears
    cases input with
    | other env =>
      obtain ⟨hpost, rfl⟩ := Prod.mk.inj (Except.ok.inj hstep)
      refine ⟨?_, List.forall_mem_nil _⟩
      rw [← hpost]
      exact hev.trans (Routing.sweep_evolves _ _)
    | job loop job env =>
      obtain ⟨e, hwork, rfl⟩ := (Pipeline.serial_job_eq_ok (k := loop)).1 hstep
      have hw := Routing.works_of_work hwork
      refine ⟨hev.trans hw.evolves, ?_⟩
      cases e with
      | none => exact List.forall_mem_nil _
      | some out =>
        intro x hx
        obtain ⟨o, ho, hmail⟩ := List.mem_filterMap.1 hx
        obtain rfl := List.mem_singleton.1 ho
        exact works_says hinit hnat hev hw hsound hears hmail
  · intro es s k input out s' _ _ hstep hsound hholds htold
    cases input with
    | job loop job env =>
      obtain ⟨o, hwork, rfl⟩ := (Pipeline.serial_job_eq_ok (k := loop)).1 hstep
      exact works_holds hholds (ClientNode.works_of_work hwork) hsound htold
    | other t => exact ticks_holds hholds (ClientNode.ticks_of_tick hstep)

/-! Leases along a run. -/

theorem step_leased {event : Event κ} {out : List Emit} {b : Book} {st : LearnState}
    (hst : s.hub = .learn st) (hb : Refines st.assigner b)
    (hstep : (D.network L P).serial.step s event = .ok (s', out)) {id : NodeId} {ip : Ipv4Addr}
    (h : Leased s.hub id ip) : Leased s'.hub id ip ∨ Takes s.hub event s'.hub id ip := by
  by_cases hafter : Leased s'.hub id ip
  · exact Or.inl hafter
  refine Or.inr ⟨?_, hafter⟩
  cases Star.steps_of_step hstep with
  | spoke _ => exact absurd h hafter
  | @hub input r' _ hhub =>
    have hsteps : Routing.Steps L P D.server D.serverObfs s.hub input r' out :=
      Routing.steps_of_step hhub
    obtain ⟨st₁, l, hst₁, hget, rfl⟩ := h
    cases hst.symm.trans hst₁
    rw [hst] at hsteps
    obtain ⟨st', rfl, hsame | ⟨event, eventOut, hevent, henv⟩⟩ := hsteps.learn
    · subst hsame
      exact absurd ⟨_, l, rfl, hget, rfl⟩ hafter
    · rcases LearnState.step_keeps_or_drops hb hevent hget with ⟨l', hl', hip⟩ | hdrop
      · exact absurd ⟨_, l', rfl, hl', hip⟩ hafter
      · rw [henv] at hdrop
        have hown : l.nodeId = id := b.own id l (by rw [← hb.held]; exact hget)
        exact ⟨input, st, l, rfl, hst, hdrop, hown, rfl⟩

theorem step_evolves {event : Event κ} {out : List Emit}
    (h : (D.network L P).serial.step s event = .ok (s', out)) :
    Routing.Evolves P D.server.routeApproval s.hub s'.hub := by
  cases Star.steps_of_step h with
  | spoke _ => exact .refl _ _ _
  | @hub input r' _ hhub =>
    have hsteps : Routing.Steps L P D.server D.serverObfs s.hub input r' out :=
      Routing.steps_of_step hhub
    exact hsteps.evolves

theorem run_evolves (h : Run (D.network L P).serial.step s es s')
    (hev : Routing.Evolves P D.server.routeApproval r₀ s.hub) :
    Routing.Evolves P D.server.routeApproval r₀ s'.hub :=
  h.invariant (I := fun s => Routing.Evolves P D.server.routeApproval r₀ s.hub)
    (fun _ _ _ _ h hs => h.trans (step_evolves hs)) hev

theorem run_leased (hinit : Routing.Initial D.server r₀) (hnat : D.server.nat = false)
    (h : Run (D.network L P).serial.step s es s')
    (hev : Routing.Evolves P D.server.routeApproval r₀ s.hub) {id : NodeId} {ip : Ipv4Addr}
    (hl : Leased s.hub id ip) :
    Leased s'.hub id ip ∨ ∃ e ∈ es, Takes e.pre.hub e.input e.post.hub id ip := by
  induction h with
  | nil => exact Or.inl hl
  | snoc hrun hstep ih =>
    rcases ih with hleased | htaken
    · obtain ⟨st, b, hst, hb⟩ := evolves_refines hinit hnat (run_evolves hrun hev)
      rcases step_leased hst hb hstep hleased with hafter | htakes
      · exact Or.inl hafter
      · exact Or.inr (exists_mem_last htakes)
    · exact Or.inr (exists_mem_snoc _ htaken)

theorem sublist_of_between {α : Type} {f g e : α} {before mid after : List α}
    (he : e ∈ mid ++ [g]) :
    [f, e, g].Sublist (before ++ f :: (mid ++ g :: after)) ∨
      e = g ∧ [f, g].Sublist (before ++ f :: (mid ++ g :: after)) := by
  have hg : [g].Sublist (g :: after) := List.singleton_sublist.2 List.mem_cons_self
  rcases List.mem_append.1 he with he | he
  · refine Or.inl (List.Sublist.trans (.cons_cons f ?_) (List.sublist_append_right _ _))
    exact (List.singleton_sublist.2 he).append hg
  · refine Or.inr ⟨List.mem_singleton.1 he,
      List.Sublist.trans (.cons_cons f ?_) (List.sublist_append_right _ _)⟩
    exact hg.trans (List.sublist_append_right _ _)

/-- Between two leases of an address to different nodes it was taken from the first. -/
theorem taken_between (hinit : Routing.Initial D.server r₀) (hnat : D.server.nat = false)
    {f g : Step κ} {before mid after : List (Step κ)} {i j : NodeId} {ip : Ipv4Addr}
    (h : Run (D.network L P).serial.step s (before ++ f :: (mid ++ g :: after)) s')
    (hev : Routing.Evolves P D.server.routeApproval r₀ s.hub) (hf : Leased f.post.hub i ip)
    (hg : Leased g.post.hub j ip) (hne : i ≠ j) :
    ∃ e ∈ mid ++ [g], Takes e.pre.hub e.input e.post.hub i ip := by
  obtain ⟨a, hbefore, hrest⟩ := h.split
  obtain ⟨rfl, hstep, hrest⟩ := hrest.cons_inv
  have hpost := (run_evolves hbefore hev).trans (step_evolves hstep)
  obtain ⟨c, hmid, hrest⟩ := hrest.split
  obtain ⟨rfl, hstep', -⟩ := hrest.cons_inv
  have hrun := hmid.snoc hstep'
  rcases run_leased hinit hnat hrun hpost hf with hleased | htaken
  · exact absurd (leased_unique hinit hnat (run_evolves hrun hpost) hleased hg) hne
  · exact htaken

/-- Two nodes were given the same address: whichever came first, the address was taken from it, in
the step in which the other was given it or before. -/
theorem taken_of_both (hinit : Routing.Initial D.server r₀) (hnat : D.server.nat = false)
    {f g : Step κ} {i j : NodeId} {ip : Ipv4Addr}
    (h : Run (D.network L P).serial.step s es s')
    (hev : Routing.Evolves P D.server.routeApproval r₀ s.hub) (hmf : f ∈ es) (hmg : g ∈ es)
    (hf : Leased f.post.hub i ip) (hg : Leased g.post.hub j ip) (hne : i ≠ j) :
    (∃ e, ([f, e, g].Sublist es ∨ e = g ∧ [f, g].Sublist es) ∧
      Takes e.pre.hub e.input e.post.hub i ip) ∨
    ∃ e, ([g, e, f].Sublist es ∨ e = f ∧ [g, f].Sublist es) ∧
      Takes e.pre.hub e.input e.post.hub j ip := by
  obtain ⟨before, after, rfl⟩ := List.append_of_mem hmf
  rcases List.mem_append.1 hmg with hmg | hmg
  · obtain ⟨first, mid, rfl⟩ := List.append_of_mem hmg
    have hsplit : first ++ g :: mid ++ f :: after = first ++ g :: (mid ++ f :: after) := by simp
    rw [hsplit] at h ⊢
    obtain ⟨e, he, htakes⟩ := taken_between hinit hnat h hev hg hf hne.symm
    exact Or.inr ⟨e, sublist_of_between he, htakes⟩
  · rcases List.mem_cons.1 hmg with rfl | hmg
    · obtain ⟨⟨gs, hpre⟩, hstep⟩ := h.entry hmf
      have hpost := (run_evolves hpre hev).trans (step_evolves hstep)
      exact absurd (leased_unique hinit hnat hpost hf hg) hne
    · obtain ⟨mid, last, rfl⟩ := List.append_of_mem hmg
      obtain ⟨e, he, htakes⟩ := taken_between hinit hnat h hev hf hg hne
      exact Or.inl ⟨e, sublist_of_between he, htakes⟩

/-! All tasks of all parties. -/

/-- A run of everything, over a network that makes nothing up. -/
structure Runs (L : Primitives) (P : Platform) (D : Deployment κ) (r₀ : Routing)
    (nodes : κ → ClientNode) (es : List (TaskStep κ)) (s : TaskState κ) : Prop where
  starts : D.Starts r₀ nodes
  run : Run (D.network L P).tasks.step (.start (.start r₀) fun k => .start (nodes k)) es s
  honest : ∀ e ∈ es, (D.network L P).tasks.Honest e.pre e.input

def Assigned (D : Deployment κ) (s : TaskState κ) (k : κ) (ip : Ipv4Addr) : Prop :=
  (D.client k).autoTun = true ∧ (s.spokes k).shared.run.gotOk = true ∧
    (s.spokes k).shared.run.cfg.tun.ip = ip

/-- The server leased `ip` to the first client, took it from it after that, and leased it to the
second, in that turn or later. -/
def HandedOver (L : Primitives) (P : Platform) (D : Deployment κ) (ts : List (Turn κ))
    (first second : κ) (ip : Ipv4Addr) : Prop :=
  ∃ f e g, ([f, e, g].Sublist ts ∨ e = g ∧ [f, g].Sublist ts) ∧
    Granted L P D first ip f.event f.post ∧
    Takes e.pre e.event e.post (D.site first).nodeId ip ∧ Granted L P D second ip g.event g.post

end Deployment

namespace Sample

def hubServer : ServerConfig := { natServer with nat := false }

def leafConfig : ClientConfig := { clientConfig with cipher := .aes128Gcm }

/-- Two clients, which both have had `10.9.0.9`. -/
def hub : Deployment Bool where
  server := hubServer
  serverObfs := none
  client _ := leafConfig
  clientObfs _ := none
  site k := { site with nodeId := node (if k then 2 else 1) }
  owner a := a = endpoint 2

def lastAssign : LastAssign := ⟨addr 9, 0xFFFFFF00, addr 1, none, 0⟩

abbrev HubTask := Star.Event Bool (Pipeline.Task Loop Job RelayEnv RelayEnv)
  (Pipeline.Task ClientLoop Job ClientEnv ClientTick)

/-- A datagram or packet goes through the server's tasks. -/
def served (loop : Loop) (job : Job) (env : RelayEnv) : List HubTask :=
  [.hub (.read loop job), .hub (.push loop), .hub (.take loop), .hub (.work loop env),
    .hub (.emit loop)]

def clientEnv : ClientEnv := ⟨fun _ => false, fun _ => true, .stored⟩

def delivered (k : Bool) (payload : Bytes) : List HubTask :=
  [.spoke k (.read .netToTun (.datagram site.server (sealed payload))), .spoke k (.push .netToTun),
    .spoke k (.take .netToTun), .spoke k (.work .netToTun clientEnv), .spoke k (.emit .netToTun)]

/-- A client asks for its address and takes what it is given. -/
def joins (k : Bool) (env : RelayEnv) : List HubTask :=
  .spoke k (.other (.retry false)) ::
    (served .udpToTun (.datagram (endpoint (if k then 2 else 1))
        (sealed ((leafConfig.withCached (some lastAssign)).assignRequest (hub.site k).nodeId))) env ++
      delivered k (Assign.encode ⟨.ok, addr 9, 0xFFFFFF00, addr 1, none, 0, 0, 8⟩) ++
      [.spoke k (.other (.reply outside))])

def greeting : Bytes := rewriteAddr answer DST_OFFSET (addr 9)

/-- The second client comes after the lease of the first has run out, and gets a packet. -/
def hubTasks (early late : RelayEnv) : List HubTask :=
  joins false early ++ joins true late ++ served .tunToUdp (.packet greeting) late ++
    delivered true greeting

def hubStart (clock : SystemTime) : Routing :=
  .learn (LearnState.start (Assigner.empty hubServer.assignArgs clock) ['h'] 8000000000)

def leafStart (k : Bool) : Except ClientError ClientNode :=
  ClientNode.start (hub.site k) outside leafConfig (some lastAssign)

def hubCheck (r : List (Deployment.TaskStep Bool) × Deployment.TaskState Bool) : Bool :=
  r.1.all (fun e => hub.honestly primitives platform e.pre e.input) &&
    (((r.2.spokes false).shared.run.gotOk &&
        decide ((r.2.spokes false).shared.run.cfg.tun.ip = addr 9)) &&
      ((r.2.spokes true).shared.run.gotOk &&
        decide ((r.2.spokes true).shared.run.cfg.tun.ip = addr 9))) &&
    r.1.any fun e => decide (e.input.party = some true) && decide (.tun greeting ∈ e.out)

theorem hub_runs : ∃ nodes es s, hub.Runs primitives platform (hubStart (time 0)) nodes es s ∧
    hub.Assigned s false (addr 9) ∧ hub.Assigned s true (addr 9) ∧
    ∃ e ∈ es, e.input.party = some true ∧ .tun greeting ∈ e.out := by
  have hcheck : (leafStart false).toOption.any (fun a => (leafStart true).toOption.any fun b =>
      (exec (hub.network primitives platform).tasks.step
        (.start (.start (hubStart (time 0))) fun k => .start (if k then b else a))
        (hubTasks (relayEnv 0) (relayEnv 100))).toOption.any hubCheck) = true := by
    decide +kernel
  obtain ⟨a, ha, hcheck⟩ := ok_of_toOption_any hcheck
  obtain ⟨b, hb, hcheck⟩ := ok_of_toOption_any hcheck
  obtain ⟨es, s, hrun, hcheck⟩ := exec_check hcheck
  simp only [hubCheck, Bool.and_eq_true, List.all_eq_true, List.any_eq_true, decide_eq_true_eq]
    at hcheck
  obtain ⟨⟨hhonest, ⟨hgot₁, hip₁⟩, hgot₂, hip₂⟩, e, he, hparty, hout⟩ := hcheck
  refine ⟨fun k => if k then b else a, es, s,
    ⟨⟨⟨time 0, time 0, io, .notFound, rfl⟩, ?_⟩, hrun, ?_⟩,
    ⟨rfl, hgot₁, hip₁⟩, ⟨rfl, hgot₂, hip₂⟩, e, he, hparty, hout⟩
  · intro k
    cases k with
    | false => exact ⟨outside, some lastAssign, ha⟩
    | true => exact ⟨outside, some lastAssign, hb⟩
  · exact fun e he => Deployment.honest_of_honestly (hhonest e he)

end Sample

namespace Deployment

variable {κ : Type} [DecidableEq κ] {L : Primitives} {P : Platform} {D : Deployment κ}
  {r₀ : Routing} {nodes : κ → ClientNode} {es : List (TaskStep κ)} {s : TaskState κ}

/-- Where a client's address comes from: in some turn the server was at work on a request under
the client's own identity, and leased the address to that identity. As long as no endpoint passes
from one client to another, no client takes an address that was meant for someone else, however
datagrams are lost, doubled, held up or reordered and however the tasks of all parties take
turns. -/
theorem adopted_address_granted (h : Runs L P D r₀ nodes es s) (hnat : D.server.nat = false)
    {k : κ} {ip : Ipv4Addr} (hk : Assigned D s k ip) :
    ∃ t ∈ TaskStar.turns es, Granted L P D k ip t.event t.post := by
  obtain ⟨hauto, hgot, rfl⟩ := hk
  obtain ⟨fs, S, hfs⟩ := TaskStar.run_follows h.run h.honest
  have hholds := (run_kept h.starts hnat hfs.run hfs.honest).spokes k
  rw [← hfs.spokes k] at hgot ⊢
  obtain ⟨f, hf, hgranted⟩ := hholds.address hauto hgot
  exact ⟨TaskStar.turnOf f, hfs.mem_turns hf, hgranted⟩

theorem adopted_address_granted_cached : ∃ nodes es s,
    Sample.hub.Runs Sample.primitives Sample.platform (Sample.hubStart (Sample.time 0)) nodes es s ∧
    ∃ t ∈ TaskStar.turns es,
      Granted Sample.primitives Sample.platform Sample.hub true (Sample.addr 9) t.event t.post := by
  obtain ⟨nodes, es, s, hruns, -, hk, -⟩ := Sample.hub_runs
  exact ⟨nodes, es, s, hruns, adopted_address_granted hruns rfl hk⟩

theorem handedOver_of_serial {S : State κ} {fs : List (Step κ)}
    (hfs : (D.network L P).Follows r₀ nodes es s fs S) {f e g : Step κ}
    (h : [f, e, g].Sublist fs ∨ e = g ∧ [f, g].Sublist fs) {i j : κ} {ip : Ipv4Addr}
    (hf : Granted L P D i ip f.input f.post.hub)
    (he : Takes e.pre.hub e.input e.post.hub (D.site i).nodeId ip)
    (hg : Granted L P D j ip g.input g.post.hub) :
    HandedOver L P D (TaskStar.turns es) i j ip := by
  refine ⟨TaskStar.turnOf f, TaskStar.turnOf e, TaskStar.turnOf g, ?_, hf, he, hg⟩
  rw [hfs.events]
  rcases h with h | ⟨rfl, h⟩
  · exact Or.inl (h.map TaskStar.turnOf)
  · exact Or.inr ⟨rfl, h.map TaskStar.turnOf⟩

/-- Two clients with different identities have the same address only if the server has taken the
address, after it had leased it to one of them and before or as it leased it to the other, from
the one: its lease had been idle for longer than the server keeps leases, or was the oldest of all
when somebody else needed an address and none was free. -/
theorem shared_address_was_taken (h : Runs L P D r₀ nodes es s) (hnat : D.server.nat = false)
    {j k : κ} {ip : Ipv4Addr} (hj : Assigned D s j ip) (hk : Assigned D s k ip)
    (hne : (D.site j).nodeId ≠ (D.site k).nodeId) :
    HandedOver L P D (TaskStar.turns es) j k ip ∨ HandedOver L P D (TaskStar.turns es) k j ip := by
  obtain ⟨hautoj, hgotj, hipj⟩ := hj
  obtain ⟨hautok, hgotk, hipk⟩ := hk
  obtain ⟨clock, now, io, disk, hrouting⟩ := h.starts.server
  obtain ⟨fs, S, hfs⟩ := TaskStar.run_follows h.run h.honest
  have hkept := run_kept h.starts hnat hfs.run hfs.honest
  rw [← hfs.spokes j] at hgotj hipj
  rw [← hfs.spokes k] at hgotk hipk
  obtain ⟨f, hf, hgrantf⟩ := (hkept.spokes j).address hautoj hgotj
  obtain ⟨g, hg, hgrantg⟩ := (hkept.spokes k).address hautok hgotk
  rw [hipj] at hgrantf
  rw [hipk] at hgrantg
  rcases taken_of_both (ServerConfig.routing_initial hrouting) hnat hfs.run (.refl _ _ _) hf hg
    hgrantf.lease hgrantg.lease hne with ⟨e, horder, htakes⟩ | ⟨e, horder, htakes⟩
  · exact Or.inl (handedOver_of_serial hfs horder hgrantf htakes hgrantg)
  · exact Or.inr (handedOver_of_serial hfs horder hgrantg htakes hgrantf)

theorem shared_address_was_taken_expired : ∃ nodes es s,
    Sample.hub.Runs Sample.primitives Sample.platform (Sample.hubStart (Sample.time 0)) nodes es s ∧
    (HandedOver Sample.primitives Sample.platform Sample.hub (TaskStar.turns es) false true
        (Sample.addr 9) ∨
      HandedOver Sample.primitives Sample.platform Sample.hub (TaskStar.turns es) true false
        (Sample.addr 9)) := by
  obtain ⟨nodes, es, s, hruns, hj, hk, -⟩ := Sample.hub_runs
  exact ⟨nodes, es, s, hruns, shared_address_was_taken hruns rfl hj hk (by decide)⟩

/-- Where a packet on a client's device comes from: a device gave it, or it answers a query that
the client's own device asked. -/
inductive Genuine (P : Platform) (k : κ) (pkt : Bytes) (event : Event κ) : Prop
  | device {party : Option κ} (h : FromDevice pkt party event)
  | answer {question : Bytes} {query : DnsQuery} {response : Bytes}
      (h : FromDevice question (some k) event) (hquery : (classify question).run = .ok (some query))
      (hreply : buildReply P query response = .ok pkt)

theorem genuine_of_step {fs : List (Step κ)} {S S' : State κ} {event : Event κ} {out : List Emit}
    (hkept : (contract L P D r₀).Kept fs S)
    (hhonest : (D.network L P).serial.Honest S event)
    (hstep : (D.network L P).serial.step S event = .ok (S', out)) {k : κ} {pkt : Bytes}
    (hparty : event.party = some k) (hout : .tun pkt ∈ out) :
    ∃ f ∈ fs, Genuine P k pkt f.input := by
  cases Star.steps_of_step hstep with
  | hub _ => cases hparty
  | @spoke _ input n' _ hspoke =>
    cases hparty
    have hholds := hkept.spokes k
    cases input with
    | job loop job env =>
      obtain ⟨o, hwork, rfl⟩ := (Pipeline.serial_job_eq_ok (k := loop)).1 hspoke
      rw [Option.mem_toList] at hout
      obtain ⟨rfl⟩ := hout
      generalize ho : some (Emit.tun pkt) = o at hwork
      cases ClientNode.works_of_work hwork with
      | forwarded _ => cases ho
      | asked _ => cases ho
      | noise _ => cases ho
      | pushed _ _ _ => cases ho
      | offered _ _ _ => cases ho
      | named _ _ => cases ho
      | dropped _ => cases ho
      | @written _ _ payload hopen hp =>
        cases ho
        obtain ⟨a, -, hmem⟩ := hhonest.2 pkt hopen
        obtain ⟨f, hf, party, hfrom⟩ := (hkept.down _ hmem).packet hp.notControl
        exact ⟨f, hf, .device hfrom⟩
    | other t =>
      cases ClientNode.ticks_of_tick hspoke with
      | idle => cases hout
      | replied _ _ _ =>
        obtain ⟨_, -, hsend⟩ := List.mem_map.1 hout
        cases hsend
      | retry _ => cases List.mem_singleton.1 hout
      | keep _ =>
        obtain ⟨_, -, hsend⟩ := List.mem_map.1 hout
        cases hsend
      | periodic _ =>
        obtain ⟨_, -, hsend⟩ := List.mem_map.1 hout
        cases hsend
      | @answered query _ _ hasked hreply =>
        obtain ⟨response, packet, hbuild, heq⟩ := hreply _ hout
        cases heq
        obtain ⟨f, hf, question, hfrom, hquery⟩ := hholds.asking query hasked
        exact ⟨f, hf, .answer hfrom hquery hbuild⟩
      | resolved _ _ => cases hout

/-- Whatever a client writes to its device is, byte for byte, a packet that the device of the server
or of a client gave, or the answer to a DNS query of its own device. Nothing is made up, altered
or put together on the way through the relay. -/
theorem device_packets_genuine (h : Runs L P D r₀ nodes es s) (hnat : D.server.nat = false)
    {e : TaskStep κ} (he : e ∈ es) {k : κ} {pkt : Bytes} (hparty : e.input.party = some k)
    (hout : .tun pkt ∈ e.out) :
    ∃ e' ∈ es, ∃ event, TaskStar.serialEvent e'.pre e'.input = some event ∧
      Genuine P k pkt event := by
  obtain ⟨fs, S, hfs⟩ := TaskStar.run_follows h.run h.honest
  obtain ⟨f, hf, hgave, hfparty⟩ := hfs.given e he _ hout
  -- the contract holds where the serial run gives it
  obtain ⟨before, after, rfl⟩ := List.append_of_mem hf
  obtain ⟨m, hbefore, hrest⟩ := hfs.run.split
  obtain ⟨rfl, hstep, -⟩ := hrest.cons_inv
  have hhonest := hfs.honest
  rw [List.forall_mem_append, List.forall_mem_cons] at hhonest
  have hkept := run_kept h.starts hnat hbefore hhonest.1
  obtain ⟨g, hg, hgenuine⟩ := genuine_of_step hkept hhonest.2.1 hstep (hfparty.trans hparty) hgave
  obtain ⟨e', he', hevent⟩ := TaskStar.of_mem_turns (hfs.mem_turns (List.mem_append_left _ hg))
  exact ⟨e', he', g.input, hevent, hgenuine⟩

theorem device_packets_genuine_relayed : ∃ nodes es s,
    Sample.hub.Runs Sample.primitives Sample.platform (Sample.hubStart (Sample.time 0)) nodes es s ∧
    ∃ e ∈ es, ∃ event, TaskStar.serialEvent e.pre e.input = some event ∧
      Genuine Sample.platform true Sample.greeting event := by
  obtain ⟨nodes, es, s, hruns, -, -, e, he, hparty, hout⟩ := Sample.hub_runs
  exact ⟨nodes, es, s, hruns, device_packets_genuine hruns rfl he hparty hout⟩

end Deployment

end ShadowVpn
