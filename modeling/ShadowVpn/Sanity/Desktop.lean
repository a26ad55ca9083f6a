import ShadowVpn.Spec.Desktop

/-! Which helper a request reaches, and what each command leaves of a run. -/

namespace ShadowVpn

open Lib

/-! Endpoints. -/

section

variable {el : Elevation} {hs hs' : Helpers} {bin : Text} {r : Response} {presence presence' : Bool}

theorem liveEndpoint_of_daemon (h : hs.pingEndpoint .daemon = some r) :
    hs.liveEndpoint = some (.daemon, r) := by
  simp [Helpers.liveEndpoint, ENDPOINTS, h]

theorem liveEndpoint_of_no_daemon (h : hs.pingEndpoint .daemon = none) :
    hs.liveEndpoint = (hs.pingEndpoint .session).map fun r => (.session, r) := by
  simp only [Helpers.liveEndpoint, ENDPOINTS, List.findSome?_cons, List.findSome?_nil, h,
    Option.map_none]
  cases hs.pingEndpoint .session <;> rfl

/-- The session helper answers for this client; nothing else has changed. -/
structure Serves (hs hs' : Helpers) (bin : Text) : Prop where
  daemon : hs'.daemon = hs.daemon
  session : ∃ r, hs'.pingEndpoint .session = some r ∧ r.clientBin = some bin

theorem awaitSession_eq_ok {polls : List (Option Response)}
    (h : awaitSession hs bin polls = .ok hs') : Serves hs hs' bin := by
  induction polls with
  | nil => cases h
  | cons poll polls ih =>
    simp only [awaitSession] at h
    split at h
    · rename_i resp hping
      split_ifs at h with hbin
      · cases h
        exact ⟨rfl, resp, hping, hbin⟩
      · exact ih h
    · exact ih h

theorem spawnSession_eq_ok (h : spawnSession el hs bin = .ok hs') : Serves hs hs' bin := by
  obtain ⟨helperBin, -, h⟩ := bind_eq_ok.1 h
  obtain ⟨⟨⟩, -, h⟩ := bind_eq_ok.1 h
  obtain ⟨⟨⟩, -, h⟩ := bind_eq_ok.1 h
  obtain ⟨⟨⟩, -, h⟩ := bind_eq_ok.1 h
  obtain ⟨⟨⟩, -, h⟩ := bind_eq_ok.1 h
  obtain ⟨⟨⟩, -, h⟩ := bind_eq_ok.1 h
  obtain ⟨⟨⟩, -, h⟩ := bind_eq_ok.1 h
  exact awaitSession_eq_ok h

theorem ensureSession_eq_ok (h : ensureSession el hs bin = .ok hs') : Serves hs hs' bin := by
  unfold ensureSession at h
  split at h
  · rename_i resp hping
    split_ifs at h with hbin
    · cases h
      exact ⟨rfl, resp, hping, hbin⟩
    · exact spawnSession_eq_ok h
  · exact spawnSession_eq_ok h

/-- The daemon is approved for this client, and runs it. -/
structure Approved (el : Elevation) (hs : Helpers) (bin : Text) : Prop where
  status : el.daemonStatus = .enabled
  clientBin : el.daemonClientBin = some bin
  live : ∃ r, hs.pingEndpoint .daemon = some r ∧ r.clientBin = some bin

theorem Approved.of_ping {resp : Response} (ha : Approved el hs bin)
    (hping : hs.pingEndpoint .daemon = some resp) : resp.clientBin = some bin := by
  obtain ⟨r, hr, hbin⟩ := ha.live
  rwa [Option.some.inj (hping.symm.trans hr)]

theorem daemonEnsure_eq_ok {served : Bool} (h : daemonEnsure el hs bin presence = .ok served) :
    served = true ↔ Approved el hs bin := by
  unfold daemonEnsure at h
  split at h
  · rename_i hstatus
    cases h
    refine iff_of_false Bool.false_ne_true ?_
    intro ha
    exact hstatus.elim (fun hne => hne ha.status) fun hne => hne ha.clientBin
  rename_i hstatus
  obtain ⟨hstatus, hclient⟩ := not_or.1 hstatus
  split at h
  · rename_i hping
    cases h
    refine iff_of_false Bool.false_ne_true ?_
    intro ha
    obtain ⟨r, hr, -⟩ := ha.live
    cases hping.symm.trans hr
  rename_i resp hping
  by_cases hbin : resp.clientBin = some bin
  · have ha : Approved el hs bin := ⟨not_not.1 hstatus, not_not.1 hclient, resp, hping, hbin⟩
    rw [if_neg (not_not.2 hbin)] at h
    split_ifs at h
    · cases h
      exact iff_of_true rfl ha
    · split at h
      · cases h
      · cases h
        exact iff_of_true rfl ha
  · rw [if_pos hbin] at h
    cases h
    exact iff_of_false Bool.false_ne_true fun ha => hbin (ha.of_ping hping)

/-- What is known before the request: the daemon is as it was, presence is proved if it was or
if the daemon has just asked for it, and without a daemon the session helper is the right one. -/
structure Ensured (o : Connecting) (allowPrompt presence : Bool) (bin : Text) (hs' : Helpers)
    (presence' : Bool) : Prop where
  daemon : hs'.daemon = o.helpers.daemon
  presence : presence' = true ↔
    presence = true ∨ allowPrompt = true ∧ Approved o.elevation o.helpers bin
  session : o.helpers.pingEndpoint .daemon = none →
    ∃ r, hs'.pingEndpoint .session = some r ∧ r.clientBin = some bin

theorem ensureFor_eq_ok {o : Connecting} {allowPrompt : Bool}
    (h : ensureFor o allowPrompt presence bin = .ok (hs', presence')) :
    Ensured o allowPrompt presence bin hs' presence' := by
  unfold ensureFor at h
  split_ifs at h with hprompt
  · obtain ⟨served, hserved, h⟩ := bind_eq_ok.1 h
    have hiff := daemonEnsure_eq_ok hserved
    split_ifs at h with hs
    · cases h
      have ha := hiff.1 hs
      refine ⟨rfl, iff_of_true rfl (Or.inr ⟨hprompt, ha⟩), ?_⟩
      intro hnone
      obtain ⟨r, hr, -⟩ := ha.live
      rw [hnone] at hr
      cases hr
    · obtain ⟨hs', hsession, h⟩ := bind_eq_ok.1 h
      cases h
      have hserves := ensureSession_eq_ok hsession
      refine ⟨hserves.daemon, ?_, fun _ => hserves.session⟩
      exact ⟨Or.inl, fun h => h.resolve_right fun ha => hs (hiff.2 ha.2)⟩
  · obtain ⟨⟨⟩, hexisting, h⟩ := bind_eq_ok.1 h
    cases h
    refine ⟨rfl, ⟨Or.inl, fun h => h.resolve_right fun ha => hprompt ha.1⟩, ?_⟩
    intro hnone
    unfold ensureExisting at hexisting
    split_ifs at hexisting with hd hsession
    · obtain ⟨-, r, hr, -⟩ := hd
      rw [hnone] at hr
      cases hr
    · exact hsession

theorem checkConnect_eq_ok {paths : AppPaths} {current : ConnState} {name : Text} {o : Connecting}
    (h : checkConnect paths current name o = .ok bin) : o.resolvedClientBin = .ok (some bin) := by
  unfold checkConnect at h
  split at h
  · cases h
  obtain ⟨found, hfound, h⟩ := bind_eq_ok.1 h
  split at h
  · cases h
  · split_ifs at h
    obtain ⟨⟨⟩, -, h⟩ := bind_eq_ok.1 h
    obtain ⟨⟨⟩, -, h⟩ := bind_eq_ok.1 h
    obtain ⟨⟨⟩, -, h⟩ := bind_eq_ok.1 h
    obtain ⟨⟨⟩, -, h⟩ := bind_eq_ok.1 h
    cases h
    exact hfound

theorem requestConnect_eq {paths : AppPaths} {f : Files} {o : Connecting} :
    (requestConnect paths f presence hs o).sent = hs.liveEndpoint ∧
      (requestConnect paths f presence hs o).presence = presence := by
  unfold requestConnect
  dsimp only
  split
  · split_ifs <;> exact ⟨rfl, rfl⟩
  · exact ⟨rfl, rfl⟩

/-- Either nothing is sent, or every check has passed and the helpers are ensured. -/
theorem doConnect_cases (paths : AppPaths) (f : Files) (presence : Bool) (name : Text)
    (allowPrompt : Bool) (o : Connecting) :
    (doConnect paths f presence name allowPrompt o).sent = none ∨
    ∃ bin hs' presence' f', o.resolvedClientBin = .ok (some bin) ∧
      ensureFor o allowPrompt presence bin = .ok (hs', presence') ∧
      doConnect paths f presence name allowPrompt o = requestConnect paths f' presence' hs' o := by
  unfold doConnect
  split
  · exact Or.inl rfl
  dsimp only
  split
  · exact Or.inl rfl
  rename_i bin hcheck
  split
  · exact Or.inl rfl
  rename_i hs' presence' hensure
  split
  · exact Or.inl rfl
  split
  · exact Or.inl rfl
  exact Or.inr ⟨bin, hs', presence', _, checkConnect_eq_ok hcheck, hensure, rfl⟩

/-- A request is sent to the live endpoint after `ensure` or `ensure_existing` has succeeded. -/
theorem doConnect_sent {paths : AppPaths} {f : Files} {name : Text} {allowPrompt : Bool}
    {o : Connecting} {target : Endpoint × Response}
    (h : (doConnect paths f presence name allowPrompt o).sent = some target) :
    ∃ bin hs', o.resolvedClientBin = .ok (some bin) ∧ hs'.liveEndpoint = some target ∧
      Ensured o allowPrompt presence bin hs'
        (doConnect paths f presence name allowPrompt o).presence := by
  rcases doConnect_cases paths f presence name allowPrompt o with
    hnone | ⟨bin, hs', presence', f', hbin, hensure, heq⟩
  · rw [hnone] at h
    cases h
  · rw [heq, requestConnect_eq.1] at h
    rw [heq, requestConnect_eq.2]
    exact ⟨bin, hs', hbin, h, ensureFor_eq_ok hensure⟩

end

/-! The files of a run. -/

section

variable {f : Files} {p : Probe}

theorem currentStatus_of_none (h : f.state = none) : currentStatus f p = (f, .disconnected) := by
  rw [currentStatus, h]

/-- What a look at the run finds: none, and no `state.json` afterwards, or one in progress. -/
inductive Looks (f : Files) : Files × StatusInfo → Prop
  | nothing {f' : Files} {info : StatusInfo} (hfile : f'.state = none)
      (hstate : info.state = .disconnected) (hpid : info.pid = none) : Looks f (f', info)
  | connected {info : StatusInfo} {pid : ℕ} (hfile : f.state ≠ none)
      (hstate : info.state = .connected) (hpid : info.pid = some pid) : Looks f (f, info)
  | connecting {info : StatusInfo} (hfile : f.state ≠ none)
      (hstate : info.state = .connecting) (hpid : info.pid = none) : Looks f (f, info)

theorem currentStatus_looks (f : Files) (p : Probe) : Looks f (currentStatus f p) := by
  unfold currentStatus
  cases hs : f.state with
  | none => exact .nothing hs rfl rfl
  | some s =>
    have hfile : f.state ≠ none := by
      rw [hs]
      exact Option.some_ne_none s
    dsimp only
    split
    · exact .nothing rfl rfl rfl
    · split
      · split
        · exact .connected hfile rfl rfl
        · exact .nothing rfl rfl rfl
      · split
        · exact .nothing rfl rfl rfl
        · exact .connecting hfile rfl rfl

end

namespace Desktop

variable {paths : AppPaths} {d : Desktop}

/-- Nothing is to stay up, and nothing is said to run. -/
structure Quiet (d : Desktop) : Prop where
  active : d.active = none
  state : d.files.state = none

/-- A client is alive, the helper does not stop it, and the elevated kill fails. -/
structure StopFails (d : Desktop) (o : Disconnecting) : Prop where
  pid : ∃ pid, (currentStatus d.files o.probe).2.pid = some pid ∧ stoppedByHelper o pid = false
  kill : ∃ e, o.killElevated = .error e

theorem disconnect_quiet_iff {o : Disconnecting} :
    (d.disconnect paths o).1.Quiet ↔ ¬ StopFails d o := by
  have hlook := currentStatus_looks d.files o.probe
  unfold disconnect
  dsimp only
  cases hpid : (currentStatus d.files o.probe).2.pid with
  | none =>
    refine iff_of_true ?_ ?_
    · dsimp only
      split
      · exact ⟨rfl, by rw [currentStatus_of_none rfl]⟩
      · rename_i hconnecting
        refine ⟨rfl, ?_⟩
        generalize currentStatus d.files o.probe = look at hlook hpid hconnecting
        cases hlook with
        | nothing hfile => exact hfile
        | connected _ _ hsome =>
          rw [hsome] at hpid
          cases hpid
        | connecting _ hstate => exact absurd hstate hconnecting
    · intro hf
      obtain ⟨pid, hsome, -⟩ := hf.pid
      rw [hpid] at hsome
      cases hsome
  | some pid =>
    dsimp only
    split
    · -- the kill has failed, and the files are left as they were
      rename_i e herr
      refine iff_of_false ?_ ?_
      · intro hq
        have hnone : (currentStatus d.files o.probe).1.state = none := hq.state
        generalize currentStatus d.files o.probe = look at hlook hpid hnone
        cases hlook with
        | nothing _ _ hno =>
          rw [hno] at hpid
          cases hpid
        | connected hfile => exact hfile hnone
        | connecting hfile => exact hfile hnone
      · intro hn
        apply hn
        split_ifs at herr with hstopped
        exact ⟨⟨pid, hpid, by simpa using hstopped⟩, e, herr⟩
    · rename_i hok
      refine iff_of_true ?_ ?_
      · split
        · exact ⟨rfl, by rw [currentStatus_of_none rfl]⟩
        · exact ⟨rfl, rfl⟩
      · intro hf
        obtain ⟨pid', hpid', hstopped⟩ := hf.pid
        obtain ⟨e, herr⟩ := hf.kill
        rw [hpid] at hpid'
        cases hpid'
        rw [hstopped, herr] at hok
        cases hok

/-- The watcher leaves a quiet app alone. -/
theorem Quiet.watch (hq : d.Quiet) (paths : AppPaths) (o : Watching) :
    (d.watch paths o).1.Quiet ∧ (d.watch paths o).2 = none := by
  unfold Desktop.watch
  dsimp only
  rw [currentStatus_of_none hq.state]
  dsimp only [StatusInfo.disconnected]
  rw [hq.active]
  exact ⟨⟨rfl, hq.state⟩, rfl⟩

theorem Quiet.disconnect {o : Disconnecting} (hq : d.Quiet) :
    (d.disconnect paths o).1.Quiet := by
  apply disconnect_quiet_iff.2
  intro hf
  obtain ⟨pid, hpid, -⟩ := hf.pid
  rw [currentStatus_of_none hq.state] at hpid
  cases hpid

def isConnect : Event → Prop
  | .connect _ _ => True
  | _ => False

/-- Only a connect command ends the quiet. -/
theorem Quiet.step {d' : Desktop} {ev : Event} {out : Out} (hq : d.Quiet)
    (hs : d.step paths ev = .ok (d', out)) (hev : ¬ isConnect ev) :
    d'.Quiet ∧ ∀ a, out ≠ .watched (some a) := by
  cases ev with
  | connect name o => exact absurd trivial hev
  | disconnect o =>
    cases hs
    refine ⟨hq.disconnect, ?_⟩
    intro a ha
    cases ha
  | watch o =>
    cases hs
    refine ⟨(hq.watch paths o).1, ?_⟩
    intro a ha
    have hnone := (hq.watch paths o).2
    rw [Out.watched.inj ha] at hnone
    cases hnone
  | status p =>
    cases hs
    refine ⟨⟨hq.active, ?_⟩, ?_⟩
    · rw [currentStatus_of_none hq.state]
      exact hq.state
    · intro a ha
      cases ha

end Desktop

end ShadowVpn
