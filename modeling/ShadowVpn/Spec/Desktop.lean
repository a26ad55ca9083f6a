import ShadowVpn.Lib.Shell
import ShadowVpn.Spec.Helper
import ShadowVpn.Spec.Profiles

/-! The desktop app on macOS: which helper a command goes to (`helper.rs`), connecting and
disconnecting (`runner.rs`), and the watcher that reconnects (`reconnect.rs`). The three hold
one lock, so a run is a sequence of commands and iterations of the watcher. -/

namespace ShadowVpn

open Lib

/-! Helpers. -/

inductive Endpoint where
  | daemon
  | session
deriving DecidableEq

/-- Ordered by preference. -/
def ENDPOINTS : List Endpoint := [.daemon, .session]

/-- What the endpoints answer to a ping. -/
structure Helpers where
  daemon : Option Response
  session : Option Response

namespace Helpers

def pingEndpoint (hs : Helpers) : Endpoint → Option Response
  | .daemon => hs.daemon.filter fun r => r.ok
  | .session => hs.session.filter fun r => r.ok

def liveEndpoint (hs : Helpers) : Option (Endpoint × Response) :=
  ENDPOINTS.findSome? fun ep => (hs.pingEndpoint ep).map fun r => (ep, r)

def ping (hs : Helpers) : Option Response := hs.liveEndpoint.map Prod.snd

/-- To whichever helper is live; `answer` is what comes back from it. -/
def call (hs : Helpers) (answer : Except String Response) : Except String Response :=
  match hs.liveEndpoint with
  | none => .error "no running helper"
  | some _ => answer

end Helpers

inductive DaemonStatus where
  | unavailable
  | notRegistered
  | enabled
  | requiresApproval
  | notFound
deriving DecidableEq

/-- What elevation meets: the registered daemon and the client next to the app, the user at the
prompts, and the answers of a session helper that was started, until the deadline. -/
structure Elevation where
  daemonStatus : DaemonStatus
  daemonClientBin : Option Text
  authenticate : Except String Unit
  helperBin : Except String Text
  tokenFile : Text
  portFile : Text
  writeToken : Except String Unit
  spawnElevated : Except String Unit
  polls : List (Option Response)

def checkPathSafe (label : String) (s : Text) : Except String Unit :=
  if '"' ∈ s then .error (label ++
    " path contains a double-quote character, which is not supported: " ++ String.ofList s)
  else if s.any fun c => c.toNat < 32 || c.toNat = 127 then .error (label ++
    " path contains a control character, which is not supported: " ++ String.ofList s)
  else .ok ()

def shQuote (s : Text) : Text :=
  ['\''] ++ substitute '\'' ['\'', '\\', '\'', '\''] s ++ ['\'']

/-- The command that `spawn_elevated_helper` has the shell run. -/
def elevatedCommand (helper tokenFile portFile clientBin : Text) : Text :=
  shQuote helper ++ " --token-file ".toList ++ shQuote tokenFile ++ " --port-file ".toList ++
    shQuote portFile ++ " --client-bin ".toList ++ shQuote clientBin ++
    " </dev/null >/dev/null 2>&1 &".toList

/-- The end of the script. -/
def AUTHORIZATION : Text :=
  (" with prompt \"ShadowVPN needs administrator access once per session to manage the VPN.\"" ++
    " with administrator privileges").toList

/-- The script around it. -/
def elevatedScript (helper tokenFile portFile clientBin : Text) : Text :=
  let inner := elevatedCommand helper tokenFile portFile clientBin
  let escaped := substitute '"' ['\\', '"'] (substitute '\\' ['\\', '\\'] inner)
  "do shell script ".toList ++ ['"'] ++ escaped ++ ['"'] ++ AUTHORIZATION

/-- What `osascript` makes of a script; the error output is trimmed. -/
inductive Osascript where
  | failed (e : String)
  | exited (success : Bool) (status stderr : String)

def Osascript.result : Osascript → Except String Unit
  | .failed e => .error ("failed to launch osascript: " ++ e)
  | .exited true _ _ => .ok ()
  | .exited false status stderr => .error
      ("authorization cancelled or elevation failed (osascript " ++ status ++ "): " ++ stderr)

/-- The elevation on macOS. -/
def spawnElevatedHelper (osascript : Text → Osascript) (helper tokenFile portFile clientBin : Text) :
    Except String Unit :=
  (osascript (elevatedScript helper tokenFile portFile clientBin)).result

section

variable (el : Elevation) (hs : Helpers) (clientBin : Text)

/-- The session helper that answers for this client. -/
def awaitSession : List (Option Response) → Except String Helpers
  | [] => .error "elevated helper did not start (no response within 15s)"
  | poll :: polls =>
    match Helpers.pingEndpoint { hs with session := poll } .session with
    | some resp =>
      if resp.clientBin = some clientBin then .ok { hs with session := poll }
      else awaitSession polls
    | none => awaitSession polls

def spawnSession : Except String Helpers := do
  let helperBin ← el.helperBin
  checkPathSafe "helper binary" helperBin
  checkPathSafe "helper token file" el.tokenFile
  checkPathSafe "helper port file" el.portFile
  checkPathSafe "client binary" clientBin
  el.writeToken
  el.spawnElevated
  awaitSession hs clientBin el.polls

def ensureSession : Except String Helpers :=
  match hs.pingEndpoint .session with
  | some resp =>
    if resp.clientBin = some clientBin then .ok hs
    else if resp.running = some true then
      .error "the client binary changed while a connection is active; disconnect first"
    else spawnSession el hs clientBin
  | none => spawnSession el hs clientBin

/-- Whether the daemon serves this client; then the user's presence is proved. -/
def daemonEnsure (presence : Bool) : Except String Bool :=
  if el.daemonStatus ≠ .enabled ∨ el.daemonClientBin ≠ some clientBin then .ok false
  else
    -- the retries see the same endpoint
    match hs.pingEndpoint .daemon with
    | none => .ok false
    | some resp =>
      if resp.clientBin ≠ some clientBin then .ok false
      else if presence then .ok true
      else
        match el.authenticate with
        | .error e => .error e
        | .ok () => .ok true

/-- The endpoints afterwards, and whether the user's presence is proved. -/
def ensure (presence : Bool) : Except String (Helpers × Bool) := do
  let served ← daemonEnsure el hs clientBin presence
  if served then return (hs, true)
  else do
    let hs ← ensureSession el hs clientBin
    return (hs, presence)

def ensureExisting (presence : Bool) : Except String Unit :=
  if presence ∧ ∃ resp ∈ hs.pingEndpoint .daemon, resp.clientBin = some clientBin then .ok ()
  else if ∃ resp ∈ hs.pingEndpoint .session, resp.clientBin = some clientBin then .ok ()
  else .error "no live elevated helper for this client binary; refusing to elevate without a user-initiated prompt"

end

/-! The state of a run, from the files that it leaves. -/

structure RunState where
  profile : Text
  startedUnix : ℕ
  logFile : Text
  pidFile : Text

structure Files where
  /-- `state.json`, if it is there and can be read. -/
  state : Option RunState
  pids : Text → Option ℕ

def Files.removePid (f : Files) (path : Text) : Files :=
  { f with pids := Function.update f.pids path none }

inductive ConnState where
  | connected
  | connecting
  | disconnected
deriving DecidableEq

def ConnState.name : ConnState → String
  | .connected => "connected"
  | .connecting => "connecting"
  | .disconnected => "disconnected"

structure StatusInfo where
  state : ConnState
  pid : Option ℕ
  profile : Option Text
  since : Option ℕ
  logFile : Option Text

def StatusInfo.disconnected : StatusInfo := ⟨.disconnected, none, none, none, none⟩

/-- What one look at the run reads: the clock, the time of the boot, and which pids are alive. -/
structure Probe where
  now : ℕ
  boot : Option ℕ
  alive : ℕ → Bool

def currentStatus (f : Files) (p : Probe) : Files × StatusInfo :=
  match f.state with
  | none => (f, .disconnected)
  | some s =>
    let ended : Files × StatusInfo := ({ f.removePid s.pidFile with state := none },
      ⟨.disconnected, none, some s.profile, none, some s.logFile⟩)
    if p.boot.any fun boot => s.startedUnix + 2 < boot then ended
    else
      match f.pids s.pidFile with
      | some pid =>
        if p.alive pid then
          (f, ⟨.connected, some pid, some s.profile, some s.startedUnix, some s.logFile⟩)
        else ended
      | none =>
        if p.now - s.startedUnix ≥ 30 then ({ f with state := none }, .disconnected)
        else (f, ⟨.connecting, none, some s.profile, some s.startedUnix, some s.logFile⟩)

/-! Connecting. -/

/-- Where the app keeps its files. -/
structure AppPaths where
  profilesDir : Text
  logFile : Text
  pidFile : Text

/-- What a call of `do_connect` meets. `answer` and `pidAfter` are the helper's answer to the
request and what the pid file holds then. -/
structure Connecting where
  probe : Probe
  resolvedClientBin : Except String (Option Text)
  profileExists : Bool
  elevation : Elevation
  helpers : Helpers
  createLog : Except String Unit
  startedUnix : ℕ
  writeState : Except String Unit
  answer : Except String Response
  pidAfter : Option ℕ
  probeAfter : Probe

/-- How it ends, and who the request was sent to. -/
structure Attempt where
  files : Files
  presence : Bool
  result : Except String StatusInfo
  sent : Option (Endpoint × Response) := none

/-- The client binary that is to run, once everything that needs no helper is checked. -/
def checkConnect (paths : AppPaths) (current : ConnState) (name : Text) (o : Connecting) :
    Except String Text :=
  if current ≠ .disconnected then .error ("already " ++ current.name)
  else do
    let bin ← o.resolvedClientBin
    match bin with
    | none => .error "shadowvpn-client binary not found (checked: the path set in Settings, a shadowvpn-client next to this app, and the dev default /Volumes/DATA/workspace/shadowvpn/target/release/shadowvpn-client). Set the client binary path in Settings."
    | some bin =>
      if o.profileExists = false then
        .error ("profile '" ++ String.ofList name ++ "' not found")
      else do
        checkPathSafe "client binary" bin
        checkPathSafe "profile" (profilePath paths.profilesDir name)
        checkPathSafe "log file" paths.logFile
        checkPathSafe "pid file" paths.pidFile
        return bin

def ensureFor (o : Connecting) (allowPrompt presence : Bool) (bin : Text) :
    Except String (Helpers × Bool) :=
  if allowPrompt then ensure o.elevation o.helpers bin presence
  else do
    ensureExisting o.helpers bin presence
    return (o.helpers, presence)

/-- The request and its answer, with `state.json` written. -/
def requestConnect (paths : AppPaths) (f : Files) (presence : Bool) (hs : Helpers)
    (o : Connecting) : Attempt :=
  let sent := hs.liveEndpoint
  let f := if sent.isSome then
    { f with pids := Function.update f.pids paths.pidFile o.pidAfter } else f
  match hs.call o.answer with
  | .ok r =>
    if r.ok then
      let look := currentStatus f o.probeAfter
      ⟨look.1, presence, .ok look.2, sent⟩
    else ⟨{ f with state := none }, presence, .error (r.error.getD "helper refused connect"), sent⟩
  | .error e => ⟨{ f with state := none }, presence, .error e, sent⟩

def doConnect (paths : AppPaths) (f : Files) (presence : Bool) (name : Text) (allowPrompt : Bool)
    (o : Connecting) : Attempt :=
  match validateProfileName name with
  | .error e => ⟨f, presence, .error e, none⟩
  | .ok () =>
    let look := currentStatus f o.probe
    match checkConnect paths look.2.state name o with
    | .error e => ⟨look.1, presence, .error e, none⟩
    | .ok bin =>
      match ensureFor o allowPrompt presence bin with
      | .error e => ⟨look.1, presence, .error e, none⟩
      | .ok (hs, presence) =>
        match o.createLog with
        | .error e => ⟨look.1, presence, .error ("cannot create log file: " ++ e), none⟩
        | .ok () =>
          let f := look.1.removePid paths.pidFile
          match o.writeState with
          | .error e => ⟨f, presence, .error ("cannot write state file: " ++ e), none⟩
          | .ok () =>
            let state : RunState := ⟨name, o.startedUnix, paths.logFile, paths.pidFile⟩
            requestConnect paths { f with state := some state } presence hs o

/-! The app. -/

structure Watcher where
  backoff : Duration
  nextAttempt : Instant
  nextDnsRestore : Instant

/-- `active` is the profile that should stay up. -/
structure Desktop where
  active : Option Text
  files : Files
  presence : Bool
  watcher : Watcher

namespace Desktop

def connect (paths : AppPaths) (d : Desktop) (name : Text) (o : Connecting) :
    Desktop × Except String StatusInfo :=
  let a := doConnect paths d.files d.presence name true o
  let d := { d with files := a.files, presence := a.presence }
  match a.result with
  | .ok status => ({ d with active := some name }, .ok status)
  | .error e => (d, .error e)

/-- What a `disconnect` meets: its looks at the run, the helpers at its ping and at its call,
the elevated kill, and the polls for the exit. -/
structure Disconnecting where
  probe : Probe
  pinged : Helpers
  called : Helpers
  answer : Except String Response
  killElevated : Except String Unit
  exitPolls : ℕ → Bool
  probeAfter : Probe

def waitForExit (alive : ℕ → Bool) (ticks : ℕ) : Bool :=
  ((List.range (ticks + 1)).any fun i => !alive i)

def stoppedByHelper (o : Disconnecting) (pid : ℕ) : Bool :=
  match o.pinged.ping with
  | some r =>
    if r.running = some true ∧ r.pid = some pid then
      match o.called.call o.answer with
      | .ok r => r.ok
      | .error _ => false
    else false
  | none => false

def disconnect (paths : AppPaths) (d : Desktop) (o : Disconnecting) :
    Desktop × Except String StatusInfo :=
  let d := { d with active := none }
  let current := currentStatus d.files o.probe
  let d := { d with files := current.1 }
  match current.2.pid with
  | none =>
    if current.2.state = .connecting then
      let look := currentStatus { d.files with state := none } o.probeAfter
      ({ d with files := look.1 }, .ok look.2)
    else (d, .error "nothing running")
  | some pid =>
    match (if stoppedByHelper o pid then .ok () else o.killElevated) with
    | .error e => (d, .error e)
    | .ok () =>
      let files := { d.files.removePid paths.pidFile with state := none }
      if waitForExit o.exitPolls 25 then
        let look := currentStatus files o.probeAfter
        ({ d with files := look.1 }, .ok look.2)
      else ({ d with files := files }, .error ("client process " ++ toString pid ++
        " is still alive 5s after being stopped (likely stuck in uninterruptible I/O); its run state was cleared so the app can recover, but the process itself must be stopped manually (e.g. kill -9 " ++
        toString pid ++ ")"))

def BACKOFF_START : Duration := Duration.fromSecs 2
def BACKOFF_CAP : Duration := Duration.fromSecs 60
def DNS_RESTORE_RETRY : Duration := Duration.fromSecs 60

/-- What an iteration of the watcher meets: its look at the run, the clock, the journal of the
client that it would run, the helpers for the restore, at the ping and in `do_connect`. -/
structure Watching where
  probe : Probe
  now : Instant
  journalPresent : Bool
  restoring : Helpers
  pinged : Helpers
  connecting : Connecting

def maybeRestoreDns (w : Watcher) (o : Watching) : Watcher :=
  if o.now < w.nextDnsRestore ∨ o.journalPresent = false then w
  else
    match o.restoring.ping with
    | none => w
    | some resp =>
      if resp.running = some true then w
      else { w with nextDnsRestore := o.now + DNS_RESTORE_RETRY }

/-- One iteration, with the attempt if `do_connect` is called. -/
def watch (paths : AppPaths) (d : Desktop) (o : Watching) : Desktop × Option Attempt :=
  let look := currentStatus d.files o.probe
  let d := { d with files := look.1 }
  match look.2.state with
  | .connected =>
    ({ d with
      active := d.active.or look.2.profile
      watcher := { d.watcher with backoff := BACKOFF_START, nextAttempt := o.now } }, none)
  | .connecting => (d, none)
  | .disconnected =>
    let d := { d with watcher := maybeRestoreDns d.watcher o }
    match d.active with
    | none => (d, none)
    | some profile =>
      if o.now < d.watcher.nextAttempt then (d, none)
      else if o.pinged.ping.isNone then ({ d with active := none }, none)
      else
        let a := doConnect paths d.files d.presence profile false o.connecting
        let d := { d with files := a.files, presence := a.presence }
        match a.result with
        | .ok _ =>
          ({ d with watcher :=
            { d.watcher with backoff := BACKOFF_START, nextAttempt := o.now } }, some a)
        | .error _ =>
          ({ d with watcher :=
            { d.watcher with
              nextAttempt := o.now + d.watcher.backoff
              backoff := min (d.watcher.backoff * 2) BACKOFF_CAP } }, some a)

inductive Event where
  | connect (name : Text) (o : Connecting)
  | disconnect (o : Disconnecting)
  | watch (o : Watching)
  /-- Any other look at the run. -/
  | status (p : Probe)

inductive Out where
  | connected (result : Except String StatusInfo)
  | disconnected (result : Except String StatusInfo)
  | watched (attempt : Option Attempt)
  | status (info : StatusInfo)

def step (paths : AppPaths) (d : Desktop) : Event → Except Panic (Desktop × Out)
  | .connect name o => .ok ((d.connect paths name o).1, .connected (d.connect paths name o).2)
  | .disconnect o => .ok ((d.disconnect paths o).1, .disconnected (d.disconnect paths o).2)
  | .watch o => .ok ((d.watch paths o).1, .watched (d.watch paths o).2)
  | .status p =>
    .ok ({ d with files := (currentStatus d.files p).1 }, .status (currentStatus d.files p).2)

end Desktop

end ShadowVpn
