import ShadowVpn.Lib.Path
import ShadowVpn.Lib.Run
import ShadowVpn.Spec.Magic
import ShadowVpn.Spec.Wire

/-! The elevated helper of the desktop app (`shadowvpn-desktop-helper.rs`): where it writes, and
the one client that it runs. -/

namespace ShadowVpn

open Lib

def APP_ID : Text := "io.github.madeye.shadowvpn.desktop".toList

/-- The system, with the parser of its paths where that is not the one for `/`. -/
inductive Os where
  | macos
  | linux
  | windows (parse : Text → Path)
  | other

namespace Os

def path : Os → Text → Path
  | .windows parse => parse
  | _ => Path.parse

/-- `Path::is_absolute`. -/
def isAbsolute : Os → Path → Bool
  | .windows _, p =>
    match p.components with
    | .drive _ rooted :: rest => rooted || rest.head? = some .rootDir
    | _ => false
  | _, p => p.components.head? = some .rootDir

end Os

/-! Paths that a request may name. -/

/-- The file system, as far as a path is resolved in it. -/
structure Fs where
  canonicalize : Path → Except String Path
  display : Path → String
  /-- How the directory of a requested path is shown. -/
  displayParent : Text → String

inductive WriteKind where
  | log
  | pid
deriving DecidableEq

def WriteKind.allows : WriteKind → Text → Bool
  | .log, name => name = "shadowvpn.log".toList || name = "shadowvpn.log.out".toList
  | .pid, name => name = "shadowvpn.pid".toList

def hasUserHomePrefix : Os → Path → Bool
  | .macos, path => path.startsWith (Path.parse "/Users/".toList)
  | .linux, path =>
    path.startsWith (Path.parse "/home/".toList) || path.startsWith (Path.parse "/root/".toList)
  | .windows _, path =>
    path.components.any fun c => c.text.map Char.toLower = "Users".toList.map Char.toLower
  | .other, _ => false

def resolveWritePath (os : Os) (fs : Fs) (requested : Text) (kind : WriteKind)
    (allowDir : Option Path) : Except String Path :=
  let path := os.path requested
  let fail := fun why => .error (String.ofList requested ++ ": " ++ why)
  if os.isAbsolute path = false then fail "write path must be absolute"
  else if path.components.any fun c => c = .parentDir then
    fail "write path must not contain '..'"
  else
    match path.fileName with
    | none => fail "write path has no file name"
    | some name =>
      if kind.allows name = false then
        fail "writes are restricted to shadowvpn.log / shadowvpn.pid"
      else
        match path.parent with
        | none => fail "write path has no parent"
        | some parent =>
          if parent.fileName ≠ some "runs".toList then
            fail "writes are restricted to a runs/ directory"
          else
            match fs.canonicalize parent with
            | .error e => .error (fs.displayParent requested ++
                ": runs directory is missing or unreachable (" ++ e ++ ")")
            | .ok parentCanon =>
              match allowDir with
              | some dir =>
                match fs.canonicalize dir with
                | .error e => .error (fs.display dir ++
                    ": session runs directory is missing or unreachable (" ++ e ++ ")")
                | .ok dirCanon =>
                  if parentCanon ≠ dirCanon then
                    fail "write path is outside the session runs directory"
                  else .ok (parentCanon.join name)
              | none =>
                if (parentCanon.components.any fun c => c.text = APP_ID) = false then
                  fail "write path is not under the ShadowVPN app directory"
                else if hasUserHomePrefix os parentCanon = false then
                  fail "write path is not under a user home directory"
                else .ok (parentCanon.join name)

/-! Requests. -/

inductive Cmd where
  | ping
  | connect (profile log pidFile : Text)
  | disconnect
  | restoreDns
  | shutdown
deriving DecidableEq

structure Request where
  token : Text
  cmd : Cmd

structure Response where
  ok : Bool
  error : Option String := none
  pid : Option ℕ := none
  running : Option Bool := none
  clientBin : Option Text := none
deriving DecidableEq

def Response.err (msg : String) : Response := { ok := false, error := some msg }

def tokenEq (a b : Text) : Bool :=
  (asBytes a).length = (asBytes b).length &&
    ((asBytes a).zip (asBytes b)).foldl (fun acc p => acc ||| (p.1 ^^^ p.2)) 0 = 0

structure HelperArgs where
  clientBin : Text
  daemon : Bool
  writeDir : Option Path

/-! What the system does while a request is handled. -/

/-- How a client fares while it is waited for. -/
structure Fate where
  /-- The poll by which it has exited; `none` if it outlives the request. -/
  exit : Option ℕ
  /-- The polls that fail. -/
  error : ℕ → Option String

/-- `Child::try_wait`: whether the client has exited. -/
def Fate.tryWait (f : Fate) (poll : ℕ) : Except String Bool :=
  match f.error poll with
  | some e => .error e
  | none => .ok (f.exit.any fun exit => exit ≤ poll)

/-- The loop of `wait_with_timeout` from a poll on, with the polls left until the deadline. -/
def waitWithTimeout (f : Fate) : ℕ → ℕ → Except String Bool
  | poll, left =>
    match f.tryWait poll with
    | .error e => .error ("wait for client exit failed: " ++ e)
    | .ok true => .ok true
    | .ok false =>
      match left with
      | 0 => .ok false
      | left + 1 => waitWithTimeout f (poll + 1) left

/-- `terminated` says whether the SIGTERM was delivered; the deadlines are in polls. -/
structure Stop where
  fate : Fate
  terminated : Bool
  graceful : ℕ
  forced : ℕ

/-- After `child.kill()`, from this poll on. -/
def forceChild (o : Stop) (poll : ℕ) : Except String Unit :=
  match waitWithTimeout o.fate poll o.forced with
  | .error e => .error e
  | .ok true => .ok ()
  | .ok false => .error "client did not exit after SIGKILL"

def stopChild (os : Os) (o : Stop) : Except String Unit :=
  match os with
  | .windows _ => forceChild o 0
  | _ =>
    if o.terminated then
      match waitWithTimeout o.fate 0 o.graceful with
      | .error e => .error e
      | .ok true => .ok ()
      | .ok false => forceChild o (o.graceful + 1)
    else forceChild o 0

/-- The outcomes of `spawn_client`; `fate` is that of a client that is killed again. -/
structure Spawn where
  logFs : Fs
  pidFs : Fs
  openLog : Except String Unit
  cloneLog : Except String Unit
  start : Except String Unit
  writePid : Except String Unit
  fate : Fate

structure Output where
  success : Bool
  status : String
  stderr : String

/-- One poll of `client --restore-dns`, with its output once it has exited. -/
inductive RestorePoll where
  | exited (out : Except String Output)
  | running
  | failed (e : String)

/-- `output_with_timeout` from a poll on; past the last one the deadline is reached. -/
def outputWithTimeout : RestorePoll → List RestorePoll → Except String Output
  | .exited out, _ => out.mapError fun e => "failed to collect output: " ++ e
  | .failed e, _ => .error ("wait failed: " ++ e)
  | .running, [] => .error "did not exit within 10s and was killed"
  | .running, poll :: polls => outputWithTimeout poll polls

structure Restore where
  start : Except String Unit
  poll : RestorePoll
  polls : List RestorePoll

/-- One line that arrives, the token file at that time, and what its handling meets: the poll
of `reap`, whether the client has exited by then, and the outcomes for each command. -/
structure Turn where
  line : Except String Request
  token : Option Text
  reapExits : Bool
  reapFails : Bool
  spawn : Spawn
  stop : Stop
  restore : Restore

/-! The helper. Clients are numbered in the order in which `spawn_client` starts them, and a
number stands for the process id. `live` holds those that have not exited. -/

structure Helper where
  slot : Option ℕ
  live : Finset ℕ
  started : ℕ
  exited : Bool

/-- A client that was started, with the clients that were alive at that time. -/
structure Launch where
  id : ℕ
  profile : Text
  alive : Finset ℕ

structure Handled where
  response : Response
  started : Option Launch := none

namespace Helper

def new : Helper := ⟨none, ∅, 0, false⟩

/-- The client after it was waited for. -/
def settle (h : Helper) (id : ℕ) (f : Fate) : Helper :=
  if f.exit.isSome then { h with live := h.live.erase id } else h

/-- The fate of a client that has exited already is that it has. -/
def fate (h : Helper) (id : ℕ) (f : Fate) : Fate :=
  if id ∈ h.live then f else { f with exit := some 0 }

def reap (h : Helper) (exits fails : Bool) : Helper :=
  match h.slot with
  | none => h
  | some id =>
    let h := if exits then { h with live := h.live.erase id } else h
    if fails = false ∧ id ∉ h.live then { h with slot := none } else h

/-- `spawn_client` until the client runs; the path of its pid file. -/
def startClient (os : Os) (args : HelperArgs) (o : Spawn) (log pidFile : Text) :
    Except String Path := do
  let log ← resolveWritePath os o.logFs log .log args.writeDir
  let pidFile ← resolveWritePath os o.pidFs pidFile .pid args.writeDir
  o.openLog.mapError fun e => "cannot open log file " ++ o.logFs.display log ++ ": " ++ e
  o.cloneLog.mapError fun e => "cannot clone log handle: " ++ e
  o.start.mapError fun e => "failed to start " ++ String.ofList args.clientBin ++ ": " ++ e
  return pidFile

def connect (os : Os) (args : HelperArgs) (h : Helper) (o : Spawn) (profile log pidFile : Text) :
    Helper × Handled :=
  if h.slot.isSome then (h, { response := .err "client already running" })
  else
    match startClient os args o log pidFile with
    | .error e => (h, { response := .err e })
    | .ok pidFile =>
      let id := h.started
      let started := some ⟨id, profile, h.live⟩
      let h := { h with live := insert id h.live, started := id + 1 }
      match o.writePid with
      | .ok () =>
        ({ h with slot := some id },
          { response := { ok := true, pid := some id, running := some true }, started })
      | .error e =>
        -- killed, and waited for at most 2 s; how that ends is not looked at
        (h.settle id o.fate,
          { response := .err ("cannot write pid file " ++ o.pidFs.display pidFile ++ ": " ++ e),
            started })

def disconnect (os : Os) (h : Helper) (o : Stop) : Helper × Handled :=
  match h.slot with
  | none => (h, { response := { ok := true, running := some false } })
  | some id =>
    let o := { o with fate := h.fate id o.fate }
    let h := h.settle id o.fate
    match stopChild os o with
    | .ok () =>
      ({ h with slot := none }, { response := { ok := true, running := some false } })
    | .error e => (h, { response := .err e })

def restoreDns (args : HelperArgs) (h : Helper) (o : Restore) : Helper × Handled :=
  if h.slot.isSome then
    (h, { response := .err "client is running; it owns the resolver configuration" })
  else
    let out : Except String Output := match o.start with
      | .error e => .error ("failed to start: " ++ e)
      | .ok () => outputWithTimeout o.poll o.polls
    match out with
    | .ok out =>
      if out.success then (h, { response := { ok := true } })
      else (h, { response := .err ("restore-dns failed (" ++ out.status ++ "): " ++
        String.ofList (trim out.stderr.toList)) })
    | .error e => (h, { response := .err ("restore-dns via " ++ String.ofList args.clientBin ++
        ": " ++ e) })

/-- The client is stopped and let go of, however that ends. -/
def shutdown (args : HelperArgs) (h : Helper) (o : Stop) : Helper × Handled :=
  let h := match h.slot with
    | none => h
    | some id => { h.settle id (h.fate id o.fate) with slot := none }
  ({ h with exited := !args.daemon }, { response := { ok := true } })

end Helper

/-- The command of a line with the right token. -/
def Turn.authorised (t : Turn) : Except String Cmd :=
  match t.line with
  | .error e => .error ("bad request: " ++ e)
  | .ok req =>
    match t.token with
    | none => .error "token file missing"
    | some expected => if tokenEq expected req.token then .ok req.cmd else .error "bad token"

def respond (os : Os) (args : HelperArgs) (h : Helper) (t : Turn) : Helper × Handled :=
  match t.authorised with
  | .error e => (h, { response := .err e })
  | .ok cmd =>
    let h := h.reap t.reapExits t.reapFails
    match cmd with
    | .ping => (h, { response :=
        { ok := true, running := some h.slot.isSome, pid := h.slot,
          clientBin := some args.clientBin } })
    | .connect profile log pidFile => h.connect os args t.spawn profile log pidFile
    | .disconnect => h.disconnect os t.stop
    | .restoreDns => h.restoreDns args t.restore
    | .shutdown => h.shutdown args t.stop

/-! A run of the helper. -/

inductive HelperEvent where
  | request (t : Turn)
  /-- A client exits. -/
  | exit (id : ℕ)

inductive HelperOut where
  | handled (out : Handled)
  | exited

/-- No request is handled by a helper that has exited. -/
inductive Gone where
  | gone

def Helper.step (os : Os) (args : HelperArgs) (h : Helper) :
    HelperEvent → Except Gone (Helper × HelperOut)
  | .request t =>
    if h.exited then .error .gone
    else .ok ((respond os args h t).1, .handled (respond os args h t).2)
  | .exit id => .ok ({ h with live := h.live.erase id }, .exited)

end ShadowVpn
