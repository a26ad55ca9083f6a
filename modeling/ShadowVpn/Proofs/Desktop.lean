import ShadowVpn.Sanity.Desktop

/-! Two promises of the desktop app: a connect request reaches a helper that the user has
authorised for the client, and a disconnect is final. -/

namespace ShadowVpn

open Lib

/-! Where a request goes. -/

/-- The helper is picked by its client and the user's presence, but the request goes to the
daemon whenever that is live. So what receives it is the right one exactly when a live daemon
runs this client, and the user's presence was proved before, or is proved to the daemon now. -/
theorem doConnect_authorised_iff {paths : AppPaths} {f : Files} {presence allowPrompt : Bool}
    {name bin : Text} {o : Connecting} {ep : Endpoint} {resp : Response}
    (hbin : o.resolvedClientBin = .ok (some bin))
    (h : (doConnect paths f presence name allowPrompt o).sent = some (ep, resp)) :
    (resp.clientBin = some bin ∧
      (ep = .daemon → (doConnect paths f presence name allowPrompt o).presence = true)) ↔
    ∀ r, o.helpers.pingEndpoint .daemon = some r → r.clientBin = some bin ∧
      (presence = true ∨ allowPrompt = true ∧ o.elevation.daemonStatus = .enabled ∧
        o.elevation.daemonClientBin = some bin) := by
  obtain ⟨bin', hs', hbin', hlive, hen⟩ := doConnect_sent h
  obtain rfl : bin = bin' := Option.some.inj (Except.ok.inj (hbin.symm.trans hbin'))
  have hping : hs'.pingEndpoint .daemon = o.helpers.pingEndpoint .daemon :=
    congrArg (Option.filter fun r : Response => r.ok) hen.daemon
  rw [hen.presence]
  cases hd : o.helpers.pingEndpoint .daemon with
  | none =>
    obtain ⟨r, hr, hrbin⟩ := hen.session hd
    rw [liveEndpoint_of_no_daemon (hping.trans hd), hr] at hlive
    cases hlive
    refine iff_of_true ⟨hrbin, ?_⟩ ?_
    · intro heq
      cases heq
    · intro r hr
      cases hr
  | some r =>
    rw [liveEndpoint_of_daemon (hping.trans hd)] at hlive
    cases hlive
    constructor
    · rintro ⟨hclient, hproved⟩ r' ⟨⟩
      refine ⟨hclient, ?_⟩
      rcases hproved rfl with hp | ⟨hprompt, ha⟩
      · exact Or.inl hp
      · exact Or.inr ⟨hprompt, ha.status, ha.clientBin⟩
    · intro hall
      obtain ⟨hclient, hproved⟩ := hall resp rfl
      refine ⟨hclient, ?_⟩
      intro _
      rcases hproved with hp | ⟨hprompt, hstatus, hbundled⟩
      · exact Or.inl hp
      · exact Or.inr ⟨hprompt, hstatus, hbundled, resp, hd, hclient⟩

def Sample.helper (clientBin : Text) : Option Response :=
  some { ok := true, running := some false, clientBin := some clientBin }

def Sample.connecting (hs : Helpers) : Connecting where
  probe := ⟨100, none, fun _ => true⟩
  resolvedClientBin := .ok (some "client".toList)
  profileExists := true
  elevation := ⟨.enabled, some "bundled".toList, .ok (), .ok "helper".toList, "token".toList,
    "port".toList, .ok (), .ok (), []⟩
  helpers := hs
  createLog := .ok ()
  startedUnix := 100
  writeState := .ok ()
  answer := .ok { ok := true, pid := some 7, running := some true }
  pidAfter := some 7
  probeAfter := ⟨100, none, fun _ => true⟩

def Sample.paths : AppPaths := ⟨"profiles".toList, "log".toList, "pid".toList⟩

def Sample.noFiles : Files := ⟨none, fun _ => none⟩

def Sample.prompting : Connecting :=
  { Sample.connecting ⟨Sample.helper "client".toList, Sample.helper "client".toList⟩ with
    elevation := ⟨.enabled, some "client".toList, .ok (), .ok "helper".toList, "token".toList,
      "port".toList, .ok (), .ok (), []⟩ }

/-- The daemon is live, and the user proves their presence to it. -/
theorem doConnect_authorised_iff_daemon : ∃ resp : Response,
    (doConnect Sample.paths Sample.noFiles false "home".toList true Sample.prompting).sent =
      some (.daemon, resp) ∧
    resp.clientBin = some "client".toList ∧
    (doConnect Sample.paths Sample.noFiles false "home".toList true Sample.prompting).presence =
      true := by
  obtain ⟨resp, hsent⟩ : ∃ resp, (doConnect Sample.paths Sample.noFiles false "home".toList true
      Sample.prompting).sent = some (.daemon, resp) := ⟨_, rfl⟩
  obtain ⟨hclient, hpresence⟩ := (doConnect_authorised_iff rfl hsent).2 (by
    intro r hr
    cases hr
    exact ⟨rfl, Or.inr ⟨rfl, rfl, rfl⟩⟩)
  exact ⟨resp, hsent, hclient, hpresence rfl⟩

/-- The session helper was picked for its client, but a live daemon, which runs another one and
to which no presence was proved, gets the request. -/
theorem doConnect_misdelivered : ∃ resp : Response,
    (doConnect Sample.paths Sample.noFiles false "home".toList true
      (Sample.connecting ⟨Sample.helper "bundled".toList, Sample.helper "client".toList⟩)).sent =
        some (.daemon, resp) ∧
    resp.clientBin = some "bundled".toList ∧
    (doConnect Sample.paths Sample.noFiles false "home".toList true
      (Sample.connecting ⟨Sample.helper "bundled".toList, Sample.helper "client".toList⟩)).presence =
        false :=
  ⟨_, rfl, rfl, rfl⟩

/-! Disconnecting. -/

namespace Desktop

/-- After a disconnect the watcher calls `do_connect` only if the user has issued a connect since,
unless the disconnect could not stop a live client. Exactly then it leaves a run behind. -/
theorem disconnect_final {paths : AppPaths} {d s : Desktop} {x : Entry Desktop Event Out}
    {ls : List (Entry Desktop Event Out)} (ms : List (Entry Desktop Event Out))
    {o : Disconnecting} (h : Run (step paths) d (ls ++ x :: ms) s) (hx : x.input = .disconnect o)
    (hno : ∀ e ∈ ms, ¬ isConnect e.input) :
    (¬ StopFails x.pre o → ∀ w ∈ ms, ∀ a, w.out ≠ .watched (some a)) ∧
      (x.post.Quiet ↔ ¬ StopFails x.pre o) := by
  obtain ⟨m, -, hrest⟩ := h.split
  obtain ⟨rfl, hs, hafter⟩ := hrest.cons_inv
  have hpost : x.post = (x.pre.disconnect paths o).1 := by
    rw [hx] at hs
    exact (congrArg Prod.fst (Except.ok.inj hs)).symm
  have hquiet : x.post.Quiet ↔ ¬ StopFails x.pre o := by
    rw [hpost]
    exact disconnect_quiet_iff
  refine ⟨?_, hquiet⟩
  intro hstop w hw
  have hpre := (hafter.forall_pre (fun _ _ _ _ hq hs hev => (hq.step hs hev).1)
    (hquiet.2 hstop) hno).1
  exact ((hpre w hw).step (hafter.entry hw).2 (hno w hw)).2

end Desktop

def Sample.desktop : Desktop := ⟨none, Sample.noFiles, false, ⟨Desktop.BACKOFF_START, 0, 0⟩⟩

def Sample.look (alive : Bool) : Probe := ⟨101, none, fun _ => alive⟩

def Sample.supervising : Helpers :=
  ⟨none, some { ok := true, running := some true, pid := some 7, clientBin := some "client".toList }⟩

def Sample.disconnecting (answer : Except String Response) : Desktop.Disconnecting :=
  ⟨Sample.look true, Sample.supervising, Sample.supervising, answer,
    .error "authorization cancelled", fun _ => false, Sample.look false⟩

def Sample.watching (alive : Bool) : Desktop.Watching :=
  ⟨Sample.look alive, 5, false, ⟨none, none⟩, ⟨none, Sample.helper "client".toList⟩,
    Sample.connecting ⟨none, Sample.helper "client".toList⟩⟩

def Sample.connectHome : Desktop.Event :=
  .connect "home".toList (Sample.connecting ⟨none, Sample.helper "client".toList⟩)

namespace Desktop

theorem disconnect_final_stopped : ∃ (x w : Entry Desktop Event Out)
    (ls ms : List (Entry Desktop Event Out)) (s : Desktop) (o : Disconnecting),
    Run (step Sample.paths) Sample.desktop (ls ++ x :: ms) s ∧ x.input = .disconnect o ∧
    w ∈ ms ∧ w.input = .watch (Sample.watching false) ∧ ∀ a, w.out ≠ .watched (some a) := by
  have h0 : Run (step Sample.paths) Sample.desktop [] Sample.desktop := Run.nil
  have h1 := h0.snoc (i := Sample.connectHome) rfl
  have h2 := h1.snoc (i := .disconnect (Sample.disconnecting (.ok { ok := true }))) rfl
  have h3 := h2.snoc (i := .watch (Sample.watching false)) rfl
  rw [List.append_assoc] at h3
  refine ⟨_, _, _, [_], _, _, h3, rfl, List.mem_singleton_self _, rfl, ?_⟩
  refine (disconnect_final [_] h3 rfl ?_).1 ?_ _ (List.mem_singleton_self _)
  · rw [List.forall_mem_singleton]
    exact not_false
  · intro hf
    obtain ⟨pid, hpid, hstopped⟩ := hf.pid
    cases hpid
    cases hstopped

/-- The helper cannot stop the client and the user declines the elevated kill. The watcher finds
the run connected and adopts it; when the client is gone at last, it brings the tunnel back. -/
theorem disconnect_undone : ∃ (x w : Entry Desktop Event Out)
    (ls ms : List (Entry Desktop Event Out)) (s : Desktop) (o : Disconnecting) (a : Attempt),
    Run (step Sample.paths) Sample.desktop (ls ++ x :: ms) s ∧ x.input = .disconnect o ∧
    (∀ e ∈ ms, ¬ isConnect e.input) ∧ w ∈ ms ∧ w.out = .watched (some a) := by
  have h0 : Run (step Sample.paths) Sample.desktop [] Sample.desktop := Run.nil
  have h1 := h0.snoc (i := Sample.connectHome) rfl
  have h2 := h1.snoc (i := .disconnect (Sample.disconnecting
    (.ok (.err "client did not exit after SIGKILL")))) rfl
  have h3 := h2.snoc (i := .watch (Sample.watching true)) rfl
  have h4 := h3.snoc (i := .watch (Sample.watching false)) rfl
  rw [List.append_assoc, List.append_assoc] at h4
  refine ⟨_, _, _, [_, _], _, _, _, h4, rfl, ?_,
    List.mem_cons_of_mem _ (List.mem_singleton_self _), rfl⟩
  rw [List.forall_mem_cons, List.forall_mem_singleton]
  exact ⟨not_false, not_false⟩

end Desktop

end ShadowVpn
