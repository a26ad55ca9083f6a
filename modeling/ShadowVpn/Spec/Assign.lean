import ShadowVpn.Lib.Run
import ShadowVpn.Lib.HashMap
import ShadowVpn.Spec.Mesh
import ShadowVpn.Spec.NodeId
import ShadowVpn.Spec.Pool

/-! The node-id keyed lease table (`assign.rs`). Functions that borrow the table
mutably return the table after them. What a call does outside its return value is
returned too: the lease file it wrote, and the lease that `bind_new` discards. -/

namespace ShadowVpn

open Lib

structure Lease where
  nodeId : NodeId
  ip4 : Ipv4Addr
  ip6 : Option Ipv6Addr
  lastSeen : SystemTime
  lastPeer : Option SocketAddr
deriving DecidableEq

structure PersistLease where
  nodeId : Text
  ip4 : Ipv4Addr
  ip6 : Option Ipv6Addr
  lastSeenUnix : UInt64
  lastPeer : Option SocketAddr
deriving DecidableEq

structure PersistFile where
  version : UInt32
  leases : List PersistLease
deriving DecidableEq

/-- What `fs::read` and `serde_json::from_slice` make of the lease path. -/
inductive LeaseFile where
  | notFound
  | unreadable
  | corrupt
  | parsed (file : PersistFile)
deriving DecidableEq

/-- The environment of one call: the order in which `by_node` is walked, and
whether a lease-file write or a quarantine rename succeeds. -/
structure Io where
  order : IterOrder NodeId Lease
  writeOk : Bool
  renameOk : Bool

structure Assigner where
  serverIp : Ipv4Addr
  netmask : Ipv4Addr
  serverIp6 : Option Ipv6Network
  start : BitVec 32
  end_ : BitVec 32
  reserved : Finset Ipv4Addr
  byNode : HashMap NodeId Lease
  byIp4 : HashMap Ipv4Addr NodeId
  byIp6 : HashMap Ipv6Addr NodeId
  byPeer : HashMap SocketAddr NodeId
  ttl : Duration
  persistPath : Option Text
  lastPersist : SystemTime

/-- What a call returns or does besides changing the table. -/
structure CallOut where
  reply : Option Assign
  dropped : List Lease
  discarded : Option Lease
  wrote : Option PersistFile

/-- Embed `ip4` into the last 32 bits of the prefix's network address. -/
def embedIp4 (net : Ipv6Network) (ip4 : Ipv4Addr) : Ipv6Addr :=
  (net.network.extractLsb' 32 96) ++ ip4

/-- Head of the digest as a big-endian word, modulo `span`. -/
def sha256Offset (P : Platform) (nodeId : NodeId) (span : BitVec 32) :
    Except Panic (BitVec 32) :=
  if span = 0 then .error .divisionByZero
  else .ok (BitVec.ofNat 32 (((P.sha256 nodeId).1.take 4).foldl
    (fun acc b => acc * 256 + b.toNat) 0) % span)

def inRange (ip : Ipv4Addr) (start end_ : BitVec 32) : Bool := start ≤ ip && ip ≤ end_

def isExpired (lastSeen now : SystemTime) (ttl : Duration) : Bool :=
  match now.durationSince lastSeen with
  | some d => ttl < d
  | none => false

def toUnix (t : SystemTime) : UInt64 :=
  match t.durationSince .UNIX_EPOCH with
  | some d => UInt64.ofNat d.asSecs
  | none => 0

def fromUnix (secs : UInt64) : Option SystemTime :=
  SystemTime.UNIX_EPOCH.checkedAdd (Duration.fromSecs secs.toNat)

def exhausted : Assign :=
  ⟨.exhausted, UNSPECIFIED, UNSPECIFIED, UNSPECIFIED, none, 0, 0, 0⟩

def PersistLease.fromLease (l : Lease) : PersistLease :=
  ⟨fmtNode l.nodeId, l.ip4, l.ip6, toUnix l.lastSeen, l.lastPeer⟩

/-- `min_by_key`, which keeps the first of equal minima. -/
def minByKey {α : Type} (key : α → ℤ) : List α → Option α
  | [] => none
  | a :: as =>
    match minByKey key as with
    | none => some a
    | some b => if key a ≤ key b then some a else some b

inductive Ip6Pick where
  | none
  | some (ip6 : Ipv6Addr)
  | skipV4

namespace Assigner

/-! Reading the table. -/

def setHostRange (s : Assigner) (start end_ : BitVec 32) : Assigner :=
  { s with start := start, end_ := end_ }

def nodeForIp4 (s : Assigner) (ip : Ipv4Addr) : Option NodeId := s.byIp4.get ip

def nodeForIp6 (s : Assigner) (ip : Ipv6Addr) : Option NodeId := s.byIp6.get ip

def nodeForPeer (s : Assigner) (peer : SocketAddr) : Option NodeId := s.byPeer.get peer

/-- `end - start + 1` on `u32`, for `start ≤ end`. -/
def span (P : Platform) (s : Assigner) : Except Panic (BitVec 32) := P.addU32 (s.end_ - s.start) 1

/-- One decrement for the server address and one for each other reserved one. -/
def capacity (P : Platform) (s : Assigner) : Except Panic ℕ :=
  if s.end_ < s.start then .ok 0
  else do
    let span ← s.span P
    let cap ← P.subUsize span.toNat (if inRange s.serverIp s.start s.end_ then 1 else 0)
    P.subUsize cap
      (s.reserved.filter fun ip => ip ≠ s.serverIp ∧ inRange ip s.start s.end_).card

/-- Whether the pool-pressure warning is logged. -/
def maybeWarnFull (P : Platform) (s : Assigner) : Except Panic Bool := do
  let cap ← s.capacity P
  .ok (decide (cap > 0 ∧ s.byNode.entries.length * 5 ≥ cap * 4))

def okReply (s : Assigner) (ip4 : Ipv4Addr) (ip6 : Option Ipv6Addr) : Assign :=
  let (tunIp6, plen6) : Option Ipv6Addr × UInt8 :=
    match ip6, s.serverIp6 with
    | some ip, some net => (some ip, net.prefixLen)
    | _, _ => (none, 0)
  { status := .ok, tunIp := ip4, netmask := s.netmask, peerIp := s.serverIp, tunIp6, plen6
    flags := 0
    ttlSecs := if s.ttl.asSecs < 2 ^ 32 then UInt32.ofNat s.ttl.asSecs else 0xFFFFFFFF }

/-! Picking an address. -/

def ip6For (s : Assigner) (ip4 : Ipv4Addr) (nodeId : NodeId) (wantIp6 : Bool) : Ip6Pick :=
  if !wantIp6 then .none
  else
    match s.serverIp6 with
    | none => .none
    | some net =>
      if net.prefixLen > 96 then .none
      else
        let ip6 := embedIp4 net ip4
        if ip6 = net.ip then .skipV4
        else
          match s.byIp6.get ip6 with
          | some owner => if owner ≠ nodeId then .skipV4 else .some ip6
          | none => .some ip6

def usableIp4 (s : Assigner) (ip : Ipv4Addr) (nodeId : NodeId) : Bool :=
  if !inRange ip s.start s.end_ then false
  else if ip = s.serverIp ∨ ip ∈ s.reserved then false
  else
    match s.byIp4.get ip with
    | none => true
    | some owner => owner = nodeId

def tryIp4 (s : Assigner) (nodeId : NodeId) (ip4 : Ipv4Addr) (wantIp6 : Bool) :
    Option (Ipv4Addr × Option Ipv6Addr) :=
  if !s.usableIp4 ip4 nodeId then none
  else
    match s.ip6For ip4 nodeId wantIp6 with
    | .skipV4 => none
    | .none => some (ip4, none)
    | .some ip6 => some (ip4, some ip6)

/-- The next candidate, wrapping from `end` to `start`. -/
def nextCand (P : Platform) (s : Assigner) (cand : BitVec 32) : Except Panic (BitVec 32) :=
  if cand ≥ s.end_ then .ok s.start else P.addU32 cand 1

/-- The probe loop, with the number of turns left. -/
def probe (P : Platform) (s : Assigner) (nodeId : NodeId) (wantIp6 : Bool) :
    ℕ → BitVec 32 → Except Panic (Option (Ipv4Addr × Option Ipv6Addr))
  | 0, _ => .ok none
  | n + 1, cand =>
    match s.tryIp4 nodeId cand wantIp6 with
    | some pair => .ok (some pair)
    | none => do
      let next ← s.nextCand P cand
      probe P s nodeId wantIp6 n next

def pickAddrs (P : Platform) (s : Assigner) (nodeId : NodeId) (hint : Ipv4Addr)
    (wantIp6 : Bool) : Except Panic (Option (Ipv4Addr × Option Ipv6Addr)) :=
  match s.tryIp4 nodeId hint wantIp6 with
  | some pair => .ok (some pair)
  | none =>
    if s.end_ < s.start then .ok none
    else do
      let span ← s.span P
      let offset ← sha256Offset P nodeId span
      let cand ← P.addU32 s.start offset
      s.probe P nodeId wantIp6 span.toNat cand

/-! Dropping leases. -/

def dropLease (s : Assigner) (id : NodeId) : Assigner × Option Lease :=
  match s.byNode.get id with
  | none => (s, none)
  | some lease =>
    ({ s with
        byNode := s.byNode.erase id
        byIp4 := s.byIp4.erase lease.ip4
        byIp6 := s.byIp6.eraseOpt lease.ip6
        byPeer := s.byPeer.eraseBinding lease.lastPeer id },
      some lease)

/-- The loop over the expired ids. -/
def dropAll : Assigner → List NodeId → Assigner × List Lease
  | s, [] => (s, [])
  | s, id :: ids =>
    let r := s.dropLease id
    let rest := dropAll r.1 ids
    (rest.1, r.2.toList ++ rest.2)

def reapInner (s : Assigner) (order : IterOrder NodeId Lease) (now : SystemTime) :
    Assigner × List Lease :=
  s.dropAll (((order.iter s.byNode).filter fun e => isExpired e.2.lastSeen now s.ttl).map Sigma.fst)

def reclaimOldest (s : Assigner) (order : IterOrder NodeId Lease) : Assigner × Option Lease :=
  match minByKey (fun e => e.2.lastSeen.nanos) (order.iter s.byNode) with
  | none => (s, none)
  | some e => s.dropLease e.1

/-! Persistence. -/

def shouldPersist (s : Assigner) (now : SystemTime) : Bool :=
  match now.durationSince s.lastPersist with
  | some d => s.ttl / 4 ≤ d
  | none => true

/-- The file that `write_leases` hands to the atomic writer. -/
def writeLeases (s : Assigner) (order : IterOrder NodeId Lease) : PersistFile :=
  ⟨1, (order.iter s.byNode).map fun e => .fromLease e.2⟩

/-- The write is atomic, so a failed one leaves the old file in place. -/
def persist (s : Assigner) (io : Io) (now : SystemTime) : Assigner × Option PersistFile :=
  match s.persistPath with
  | none => (s, none)
  | some _ =>
    if io.writeOk then ({ s with lastPersist := now }, some (s.writeLeases io.order)) else (s, none)

def persistIf (s : Assigner) (cond : Bool) (io : Io) (now : SystemTime) :
    Assigner × Option PersistFile :=
  if cond then s.persist io now else (s, none)

/-! Granting leases. -/

/-- The lease refreshed for `peer`, with the reply and the new `dirty` flag. -/
def refreshExisting (s : Assigner) (req : AssignReq) (peer : SocketAddr) (now : SystemTime)
    (dirty : Bool) : Option (Assigner × Assign × Bool) :=
  match s.byNode.get req.nodeId with
  | none => none
  | some lease =>
    if isExpired lease.lastSeen now s.ttl then none
    else if lease.lastPeer ≠ some peer then
      -- only unbind the old socket while this node still owns it
      some ({ s with
          byNode := s.byNode.insert req.nodeId { lease with lastSeen := now, lastPeer := some peer }
          byPeer := (s.byPeer.eraseBinding lease.lastPeer req.nodeId).insert peer req.nodeId },
        s.okReply lease.ip4 lease.ip6, true)
    else
      some ({ s with
          byNode := s.byNode.insert req.nodeId { lease with lastSeen := now }
          byPeer := s.byPeer.insert peer req.nodeId },
        s.okReply lease.ip4 lease.ip6, dirty)

/-- `dropped` is what the caller of `bind_new` returns beside its reply. -/
def bindNew (P : Platform) (s : Assigner) (io : Io) (nodeId : NodeId) (peer : SocketAddr)
    (ip4 : Ipv4Addr) (ip6 : Option Ipv6Addr) (now : SystemTime) (dropped : List Lease) :
    Except Panic (Assigner × CallOut) := do
  let r := s.dropLease nodeId
  let s := { r.1 with
    byNode := r.1.byNode.insert nodeId ⟨nodeId, ip4, ip6, now, some peer⟩
    byIp4 := r.1.byIp4.insert ip4 nodeId
    byIp6 := r.1.byIp6.insertOpt ip6 nodeId
    byPeer := r.1.byPeer.insert peer nodeId }
  let _warned ← s.maybeWarnFull P
  let w := s.persist io now
  .ok (w.1, ⟨some (w.1.okReply ip4 ip6), dropped, r.2, w.2⟩)

/-- Step 2 of `allocate`: an endpoint that speaks for another node is unbound. -/
def unbindOther (s : Assigner) (peer : SocketAddr) (nodeId : NodeId) : Assigner :=
  match s.byPeer.get peer with
  | some other => if other ≠ nodeId then { s with byPeer := s.byPeer.erase peer } else s
  | none => s

/-- The rest of `allocate` once no lease could be refreshed. -/
def allocateNew (P : Platform) (s : Assigner) (io : Io) (req : AssignReq) (peer : SocketAddr)
    (now : SystemTime) (dropped : List Lease) : Except Panic (Assigner × CallOut) := do
  let s := s.unbindOther peer req.nodeId
  match ← s.pickAddrs P req.nodeId req.hintIp4 req.wantIp6 with
  | some (ip4, ip6) => s.bindNew P io req.nodeId peer ip4 ip6 now dropped
  | none =>
    let r := s.reclaimOldest io.order
    match r.2 with
    | none =>
      let w := s.persistIf (!dropped.isEmpty) io now
      .ok (w.1, ⟨some exhausted, dropped, none, w.2⟩)
    | some reclaimed =>
      match ← r.1.pickAddrs P req.nodeId req.hintIp4 req.wantIp6 with
      | some (ip4, ip6) =>
        r.1.bindNew P io req.nodeId peer ip4 ip6 now (dropped ++ [reclaimed])
      | none =>
        let w := r.1.persistIf true io now
        .ok (w.1, ⟨some exhausted, dropped ++ [reclaimed], none, w.2⟩)

def allocate (P : Platform) (s : Assigner) (io : Io) (req : AssignReq) (peer : SocketAddr)
    (now : SystemTime) : Except Panic (Assigner × CallOut) :=
  let r := s.reapInner io.order now
  match r.1.refreshExisting req peer now (!r.2.isEmpty) with
  | some (s', reply, dirty) =>
    let w := s'.persistIf (dirty || s'.shouldPersist now) io now
    .ok (w.1, ⟨some reply, r.2, none, w.2⟩)
  | none => r.1.allocateNew P io req peer now r.2

def reap (s : Assigner) (io : Io) (now : SystemTime) : Assigner × CallOut :=
  let r := s.reapInner io.order now
  let w := r.1.persistIf (!r.2.isEmpty) io now
  (w.1, ⟨none, r.2, none, w.2⟩)

end Assigner

/-! Loading the lease file. -/

/-- The five `continue`s of the load loop. -/
inductive SkipReason where
  | badNodeId
  | unrepresentable
  | expired
  | duplicate
  | duplicateIp6
deriving DecidableEq

/-- The lease that a row spells, read before any table is consulted. -/
def decodeRow (row : PersistLease) : Except Panic (Except SkipReason Lease) := do
  match ← parseNodeId row.nodeId with
  | none => .ok (.error .badNodeId)
  | some nodeId =>
    match fromUnix row.lastSeenUnix with
    | none => .ok (.error .unrepresentable)
    | some lastSeen => .ok (.ok ⟨nodeId, row.ip4, row.ip6, lastSeen, row.lastPeer⟩)

namespace Assigner

def restore (s : Assigner) (now : SystemTime) (l : Lease) : Except SkipReason Assigner :=
  if isExpired l.lastSeen now s.ttl then .error .expired
  else if (s.byNode.get l.nodeId).isSome ∨ (s.byIp4.get l.ip4).isSome then .error .duplicate
  else if l.ip6.any fun ip6 => (s.byIp6.get ip6).isSome then .error .duplicateIp6
  else .ok { s with
    byIp6 := s.byIp6.insertOpt l.ip6 l.nodeId
    byIp4 := s.byIp4.insert l.ip4 l.nodeId
    byNode := s.byNode.insert l.nodeId l }

/-- The loop over the rows, with the reasons for which rows were skipped. -/
def loadRows (now : SystemTime) : Assigner → List PersistLease →
    Except Panic (Assigner × List SkipReason)
  | s, [] => .ok (s, [])
  | s, row :: rows => do
    match (← decodeRow row) >>= s.restore now with
    | .error reason =>
      let r ← loadRows now s rows
      .ok (r.1, reason :: r.2)
    | .ok s' => loadRows now s' rows

/-- A table after start-up, the lease file next to it, and the skipped rows. -/
structure Started where
  assigner : Assigner
  disk : LeaseFile
  skipped : List SkipReason

def quarantine (io : Io) (disk : LeaseFile) : LeaseFile :=
  if io.renameOk then .notFound else disk

def load (s : Assigner) (now : SystemTime) (io : Io) (disk : LeaseFile) :
    Except Panic Started :=
  match disk with
  | .notFound => .ok ⟨s, disk, []⟩
  | .unreadable => .ok ⟨s, disk, []⟩
  | .corrupt => .ok ⟨s, quarantine io disk, []⟩
  | .parsed file =>
    if file.version ≠ 1 then .ok ⟨s, quarantine io disk, []⟩
    else do
      let r ← s.loadRows now file.leases
      let w := r.1.persistIf (!r.2.isEmpty) io now
      .ok ⟨w.1, (w.2.map LeaseFile.parsed).getD disk, r.2⟩

/-- The arguments of `Assigner::new`. -/
structure Args where
  serverIp : Ipv4Addr
  netmask : Ipv4Addr
  serverIp6 : Option Ipv6Network
  peerIp : Ipv4Addr
  extraReserved : List Ipv4Addr
  ttl : Duration
  persistPath : Option Text

/-- The empty table that `new` fills; `clock` is its first reading of the time. -/
def empty (args : Args) (clock : SystemTime) : Assigner where
  serverIp := args.serverIp
  netmask := args.netmask
  serverIp6 := args.serverIp6
  start := (hostRange args.serverIp args.netmask).1
  end_ := (hostRange args.serverIp args.netmask).2
  reserved := insert args.peerIp args.extraReserved.toFinset
  byNode := ∅
  byIp4 := ∅
  byIp6 := ∅
  byPeer := ∅
  ttl := args.ttl
  persistPath := args.persistPath
  lastPersist := clock

/-- `new` reads the time twice, once for `last_persist` and once for `load`. -/
def new (args : Args) (clock now : SystemTime) (io : Io) (disk : LeaseFile) :
    Except Panic Started :=
  match args.persistPath with
  | none => .ok ⟨empty args clock, disk, []⟩
  | some _ => (empty args clock).load now io disk

/-- A table with the range of an `assign_pool`, if there is one. -/
def configured (s : Assigner) : Option (BitVec 32 × BitVec 32) → Assigner
  | none => s
  | some (start, end_) => s.setHostRange start end_

/-! The table as a system. -/

inductive Call where
  | setHostRange (start end_ : BitVec 32)
  | allocate (req : AssignReq) (peer : SocketAddr) (now : SystemTime) (io : Io)
  | reap (now : SystemTime) (io : Io)

def step (P : Platform) (s : Assigner) : Call → Except Panic (Assigner × CallOut)
  | .setHostRange start end_ => .ok (s.setHostRange start end_, ⟨none, [], none, none⟩)
  | .allocate req peer now io => s.allocate P io req peer now
  | .reap now io => .ok (s.reap io now)

abbrev History := List (Entry Assigner Call CallOut)

/-- Every table that some start-up and some run of calls lead to. -/
def Reachable (P : Platform) (s : Assigner) : Prop :=
  ∃ args clock now io disk started es,
    new args clock now io disk = .ok started ∧ Run (step P) started.assigner es s

end Assigner

end ShadowVpn
