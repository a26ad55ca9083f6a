import ShadowVpn.Lib.Disk
import ShadowVpn.Spec.Assign
import ShadowVpn.Spec.Client
import ShadowVpn.Spec.Helper

/-! Private state files (`state.rs`), and the two files that are kept with them: the lease
table of the server (`assign.rs`) and the identity of a client (`client.rs`). Results of
`io::Result` are `true` for `Ok`. -/

namespace ShadowVpn

open Lib

def Os.isWindows : Os → Bool
  | .windows _ => true
  | _ => false

namespace StateFile

def tmpSidecar (path suffix : Text) : Text := path ++ suffix

/-- The modes are those of Unix; elsewhere they mean nothing. -/
def createDirPrivate (dir : Path) : Prog Path Bool :=
  .look fun d =>
    if dir.components = [] ∨ d.present dir then .ret true
    else
      let above : Prog Path Bool :=
        match _h : dir.parent with
        | some parent => createDirPrivate parent
        | none => .ret true
      above.andThen (.op (.mkdir dir 0o700) fun ok => .look fun d =>
        -- `AlreadyExists` counts as done
        .ret (ok || (d dir).isSome))
termination_by dir.components.length
decreasing_by exact Path.length_parent ‹_›

def createParentPrivate (os : Os) (path : Text) : Prog Path Bool :=
  match (os.path path).parent with
  | some dir => if dir.components = [] then .ret true else createDirPrivate dir
  | none => .ret true

/-- The mode given at the opening is only that of a new file. -/
def writePrivateTo (os : Os) (path : Path) (data : Bytes) (sync : Bool) : Prog Path Bool :=
  let write := .must (.write path data) (if sync then .must (.sync path) (.ret true) else .ret true)
  .must (.create path 0o600) (if os.isWindows then write else .must (.chmod path 0o600) write)

def writePrivate (os : Os) (path : Text) (data : Bytes) : Prog Path Bool :=
  (createParentPrivate os path).andThen (writePrivateTo os (os.path path) data false)

/-- On Windows a rename does not replace. -/
def unlinkFirst (os : Os) (path : Path) : Prog Path Bool :=
  if os.isWindows then
    .look fun d => if d.present path then .must (.remove path) (.ret true) else .ret true
  else .ret true

def writePrivateAtomic (os : Os) (path : Text) (data : Bytes) : Prog Path Bool :=
  let tmp := os.path (tmpSidecar path ".tmp".toList)
  (createParentPrivate os path).andThen <|
    (writePrivateTo os tmp data true).andThen <|
      (unlinkFirst os (os.path path)).andThen <|
        .op (.rename tmp (os.path path)) fun ok =>
          if ok then .ret true
          else if os.isWindows then .ret false
          else .op (.remove tmp) fun _ => .ret false

end StateFile

/-- `serde_json` for one type of file, with what is left of a value in its text. A text cut short
is no longer an object. -/
structure Codec (τ : Type) (left : τ → τ) where
  toVecPretty : τ → Bytes
  fromSlice : Bytes → Option τ
  fromSlice_toVecPretty : ∀ a, fromSlice (toVecPretty a) = some (left a)
  fromSlice_take : ∀ a n, n < (toVecPretty a).length → fromSlice ((toVecPretty a).take n) = none

/-- The text of an endpoint does not have the flow label of IPv6. -/
def SocketAddr.unlabelled : SocketAddr → SocketAddr
  | .v4 ip port => .v4 ip port
  | .v6 ip port _ scopeId => .v6 ip port 0 scopeId

def PersistLease.unlabelled (l : PersistLease) : PersistLease :=
  { l with lastPeer := l.lastPeer.map SocketAddr.unlabelled }

def PersistFile.unlabelled (file : PersistFile) : PersistFile :=
  { file with leases := file.leases.map PersistLease.unlabelled }

abbrev LeaseCodec := Codec PersistFile PersistFile.unlabelled

/-- What the path of the lease file holds, as `load` reads it. -/
def LeaseFile.ofDisk (codec : LeaseCodec) (d : Disk Path) (path : Path) : LeaseFile :=
  match d.read path with
  | some bytes =>
    match codec.fromSlice bytes with
    | some file => .parsed file
    | none => .corrupt
  | none => if (d path).isSome then .unreadable else .notFound

/-- `write_leases`, with the table already in its form for the file. -/
def Assigner.writeLeasesTo (os : Os) (codec : LeaseCodec) (path : Text)
    (file : PersistFile) : Prog Path Bool :=
  StateFile.writePrivateAtomic os path (codec.toVecPretty file)

namespace Client

structure ClientStateFile where
  nodeId : Text
  server : Text
  lastAssign : Option LastAssign
deriving DecidableEq

abbrev StateCodec := Codec ClientStateFile id

/-- `id[i] = change(id[i])`. -/
def setByte (id : NodeId) (i : ℕ) (change : UInt8 → UInt8) : NodeId :=
  ⟨id.bytes.modify i change, by rw [List.length_modify, id.len]⟩

/-- A version 4 UUID from what the system's generator gave. -/
def generateNodeId (entropy : NodeId) : NodeId :=
  setByte (setByte entropy 6 fun b => (b &&& 0x0f) ||| 0x40) 8 fun b => (b &&& 0x3f) ||| 0x80

section

variable (os : Os) (codec : StateCodec) (path server : Text)

/-- The caller does not see whether the file was written; a failure is only logged. -/
def persistState (state : ClientStateFile) : Prog Path Bool :=
  StateFile.writePrivate os path (codec.toVecPretty state)

def persistAssignment (nodeId : NodeId) (reply : Assign) (ip6 : Option Ipv6Network)
    (unixNow : UInt64) : Prog Path Bool :=
  persistState os codec path ⟨fmtNode nodeId, server,
    some ⟨reply.tunIp, reply.netmask, reply.peerIp, ip6, unixNow⟩⟩

/-- A new identity, kept in the file if that can be written. -/
def createState (entropy : NodeId) : Prog Path (Except Panic (NodeId × Option LastAssign)) :=
  let id := generateNodeId entropy
  (persistState os codec path ⟨fmtNode id, server, none⟩).bind fun _ => .ret (.ok (id, none))

/-- What a start makes of the file; one that does not parse is not kept. -/
def resumeState (entropy : NodeId) :
    Option ClientStateFile → Prog Path (Except Panic (NodeId × Option LastAssign))
  | none => createState os codec path server entropy
  | some state =>
    match parseNodeId state.nodeId with
    | .error e => .ret (.error e)
    | .ok (some id) => .ret (.ok (id, state.lastAssign))
    | .ok none => createState os codec path server entropy

def loadOrCreateState (entropy : NodeId) :
    Prog Path (Except Panic (NodeId × Option LastAssign)) :=
  .read (os.path path) fun bytes =>
    resumeState os codec path server entropy (bytes.bind codec.fromSlice)

end

end Client

end ShadowVpn
