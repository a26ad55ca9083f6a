import ShadowVpn.Lib.Lossy
import ShadowVpn.Lib.Utf8
import ShadowVpn.Spec.State

/-! The system resolver and the journal of what it was (`policy/dnsconf.rs`), on Linux.
Current clients only restore; the one that rewrote the resolver is here too, since its
journals are what there is to restore. -/

namespace ShadowVpn

open Lib

namespace DnsConf

def STALE_PROXY : Text := "127.0.0.1".toList

def isStaleProxyList (servers : List Text) : Bool := servers = [STALE_PROXY]

def PATH : Path := Path.parse "/etc/resolv.conf".toList

def MARKER : Text := "# shadowvpn split-DNS".toList

/-- What `/etc/resolv.conf` was. -/
inductive Restore where
  | symlink (target : Path)
  | file (content : Bytes)
  | absent
deriving DecidableEq

/-- `str::lines`: an end of line is a newline, with a carriage return before it or not. -/
def lines (text : Text) : List Text :=
  let pieces := text.splitOn '\n'
  pieces.dropLast.map (fun line => if line.getLast? = some '\r' then line.dropLast else line) ++
    (pieces.getLast?.filter fun line => !line.isEmpty).toList

/-- The server of a line that names one. -/
def nameserver (line : Text) : Option Text :=
  let line := trim line
  if "nameserver".toList.isPrefixOf line then
    let server := trim (line.drop "nameserver".length)
    if server.isEmpty then none else some server
  else none

def resolvConfIsStaleProxy (content : Bytes) : Bool :=
  (Utf8.encode MARKER).isPrefixOf content ||
    isStaleProxyList ((lines (Utf8.lossy content)).filterMap nameserver)

/-- `fs::write`. -/
def fsWrite (p : Path) (data : Bytes) : Prog Path Bool :=
  .must (.create p 0o666) (.must (.write p data) (.ret true))

def snapshot : Prog Path Restore :=
  .look fun d =>
    match d PATH with
    | some (.link target) => .ret (.symlink target)
    | some _ => .read PATH fun bytes =>
      let content := bytes.getD []
      .ret (if (Utf8.encode MARKER).isPrefixOf content then .absent else .file content)
    | none => .ret .absent

/-- Removed first, so as not to write through a link. -/
def engage (proxy : Text) : Prog Path Bool :=
  .op (.remove PATH) fun _ =>
    fsWrite PATH (Utf8.encode (MARKER ++ "\nnameserver ".toList ++ proxy ++ "\n".toList))

def restore : Restore → Prog Path Bool
  | .symlink target => .op (.remove PATH) fun _ => .must (.symlink target PATH) (.ret true)
  | .file content =>
    if resolvConfIsStaleProxy content then .op (.remove PATH) fun _ => .ret true
    else fsWrite PATH content
  | .absent => .op (.remove PATH) fun _ => .ret true

def healProxyDns : Prog Path Bool :=
  .read PATH fun bytes =>
    match bytes with
    | none => .ret false
    | some content =>
      if resolvConfIsStaleProxy content then .op (.remove PATH) fun _ => .ret true
      else .ret false

/-! The journal, next to the binary in `dir`. -/

section Journal

variable (codec : Codec Restore id) (dir : Path)

def journalPath : Path := dir.join "dns-restore.json".toList

/-- `with_extension("json.tmp")`. -/
def journalTmp : Path := dir.join "dns-restore.json.tmp".toList

/-- A journal that does not parse is removed. -/
def readJournal : Prog Path (Option Restore) :=
  .read (journalPath dir) fun bytes =>
    match bytes with
    | none => .ret none
    | some data =>
      match codec.fromSlice data with
      | some r => .ret (some r)
      | none => .op (.remove (journalPath dir)) fun _ => .ret none

def writeJournal (r : Restore) : Prog Path Bool :=
  (fsWrite (journalTmp dir) (codec.toVecPretty r)).andThen
    (.must (.rename (journalTmp dir) (journalPath dir)) (.ret true))

def removeJournal : Prog Path Unit := .op (.remove (journalPath dir)) fun _ => .ret ()

/-- A journal of a run that died is put back and removed, whether or not that worked. -/
def selfHeal : Prog Path Unit :=
  (readJournal codec dir).bind fun stale =>
    match stale with
    | some r => (restore r).bind fun _ => removeJournal dir
    | none => .ret ()

/-- The guard of a resolver that was rewritten, if it was. -/
def apply (proxy : Text) (port : ℕ) : Prog Path (Except String (Option Restore)) :=
  if port ≠ 53 then .ret (.ok none)
  else
    (selfHeal codec dir).bind fun _ => snapshot.bind fun r =>
      -- a failure to write the journal is only logged
      (writeJournal codec dir r).bind fun _ => (engage proxy).bind fun ok =>
        .ret (if ok then .ok (some r) else .error "writing /etc/resolv.conf")

/-- `DnsGuard::drop`. -/
def dropGuard (r : Restore) : Prog Path Unit :=
  (restore r).bind fun ok => if ok then removeJournal dir else .ret ()

def restoreFromJournal : Prog Path (Except String Bool) :=
  (readJournal codec dir).bind fun found =>
    match found with
    | none => .ret (.ok false)
    | some r => (restore r).bind fun ok =>
      if ok then (removeJournal dir).bind fun _ => .ret (.ok true)
      else .ret (.error "failed to restore the resolver configuration")

def restoreStale : Prog Path (Except String Bool) :=
  (restoreFromJournal codec dir).bind fun result =>
    match result with
    | .ok false => healProxyDns.bind fun healed => .ret (.ok healed)
    | result => .ret result

/-- A run of the client that rewrote the resolver: the guard is dropped at its end. -/
def session (proxy : Text) (port : ℕ) : Prog Path (Except String Bool) :=
  (apply codec dir proxy port).bind fun result =>
    match result with
    | .ok (some r) => (dropGuard dir r).bind fun _ => .ret (.ok true)
    | .ok none => .ret (.ok false)
    | .error e => .ret (.error e)

end Journal

end DnsConf

end ShadowVpn
