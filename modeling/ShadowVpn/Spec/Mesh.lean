import ShadowVpn.Spec.Basic

/-! Control messages and the subnet-route table (`mesh.rs`). -/

namespace ShadowVpn

def CONTROL_MARKER : UInt8 := 0x00

def TYPE_ROUTE_ADVERT : UInt8 := 0x01
def TYPE_ROUTE_PUSH : UInt8 := 0x02
def TYPE_ASSIGN_REQ : UInt8 := 0x03
def TYPE_ASSIGN : UInt8 := 0x04
def TYPE_NAME_ADVERT : UInt8 := 0x05
def TYPE_PEER_PUSH : UInt8 := 0x06

def ASSIGN_REQ_LEN : ℕ := 39
def ASSIGN_LEN : ℕ := 37
def FLAG_ACCEPT_ROUTES : UInt8 := 0x01
def FLAG_WANT_IP6 : UInt8 := 0x01
def MAX_ROUTES : ℕ := 64
def MAX_PEERS : ℕ := 24
def MAX_NAME_LEN : ℕ := 32
def FLAG_WANT_PEERS : UInt8 := 0x01
def EFLAG_HAS_IP6 : UInt8 := 0x01
def NAME_ADVERT_HEADER_LEN : ℕ := 3 + 4 + 16 + 1
def ADVERT_HEADER_LEN : ℕ := 3 + 4 + 16 + 1

structure NameAdvert where
  wantPeers : Bool
  tunnelIp : Ipv4Addr
  tunnelIp6 : Option Ipv6Addr
  name : Text
deriving DecidableEq

structure PeerEntry where
  name : Text
  ip4 : Ipv4Addr
  ip6 : Option Ipv6Addr
deriving DecidableEq

structure PeerPush where
  peers : List PeerEntry
deriving DecidableEq

structure RouteAdvert where
  tunnelIp : Ipv4Addr
  tunnelIp6 : Option Ipv6Addr
  acceptRoutes : Bool
  routes : List IpNetwork
deriving DecidableEq

structure RoutePush where
  routes : List IpNetwork
deriving DecidableEq

structure AssignReq where
  flags : UInt8
  nodeId : NodeId
  hintIp4 : Ipv4Addr
  hintIp6 : Option Ipv6Addr
deriving DecidableEq

/-- `flags & FLAG_WANT_IP6 != 0`. -/
def AssignReq.wantIp6 (req : AssignReq) : Bool := req.flags &&& FLAG_WANT_IP6 != 0

inductive AssignStatus where
  | ok
  | exhausted
  | natMode
deriving DecidableEq

def AssignStatus.fromU8 : UInt8 → Option AssignStatus
  | 0 => some .ok
  | 1 => some .exhausted
  | 2 => some .natMode
  | _ => none

structure Assign where
  status : AssignStatus
  tunIp : Ipv4Addr
  netmask : Ipv4Addr
  peerIp : Ipv4Addr
  tunIp6 : Option Ipv6Addr
  plen6 : UInt8
  flags : UInt8
  ttlSecs : UInt32
deriving DecidableEq

inductive Control where
  | keepalive (src : Option Ipv4Addr)
  | routeAdvert (advert : RouteAdvert)
  | routePush (push : RoutePush)
  | assignReq (req : AssignReq)
  | assign (reply : Assign)
  | nameAdvert (advert : NameAdvert)
  | peerPush (push : PeerPush)
deriving DecidableEq

/-! Decoding. A payload is a byte list; every read past its end is a `None`. -/

def isControl (payload : List UInt8) : Bool := payload.head? == some CONTROL_MARKER

/-- Big-endian value of the first `n` bytes, with the rest (`split_first_chunk`). -/
def readBE (n : ℕ) (buf : List UInt8) : Option (ℕ × List UInt8) :=
  if n ≤ buf.length then
    some ((buf.take n).foldl (fun acc b => acc * 256 + b.toNat) 0, buf.drop n)
  else none

def readIp4 (buf : List UInt8) : Option (Ipv4Addr × List UInt8) :=
  (readBE 4 buf).map fun p => (BitVec.ofNat 32 p.1, p.2)

def readIp6 (buf : List UInt8) : Option (Ipv6Addr × List UInt8) :=
  (readBE 16 buf).map fun p => (BitVec.ofNat 128 p.1, p.2)

/-- `split_first`. -/
def readU8 : List UInt8 → Option (UInt8 × List UInt8)
  | [] => none
  | b :: buf => some (b, buf)

/-- `(!ip6.is_unspecified()).then_some(ip6)`. -/
def specified (ip6 : Ipv6Addr) : Option Ipv6Addr := if ip6 = 0 then none else some ip6

def canonical : IpNetwork → IpNetwork
  | .v4 n => .v4 n.canonical
  | .v6 n => .v6 n.canonical

def parseRoute (buf : List UInt8) : Option (IpNetwork × List UInt8) := do
  let (family, buf) ← readU8 buf
  let (plen, buf) ← readU8 buf
  if family = 4 then
    let (addr, buf) ← readIp4 buf
    let net ← Lib.Cidr.new addr plen
    some (canonical (.v4 net), buf)
  else if family = 6 then
    let (addr, buf) ← readIp6 buf
    let net ← Lib.Cidr.new addr plen
    some (canonical (.v6 net), buf)
  else none

def parseRoutes : List UInt8 → ℕ → Option (List IpNetwork)
  | buf, 0 => if buf.isEmpty then some [] else none
  | buf, count + 1 => do
    let (net, buf) ← parseRoute buf
    let routes ← parseRoutes buf count
    some (net :: routes)

/-- `std::str::from_utf8`. -/
def fromUtf8 (bytes : List UInt8) : Option Text :=
  (String.fromUTF8? ⟨bytes.toArray⟩).map String.toList

def parsePeer (buf : List UInt8) : Option (PeerEntry × List UInt8) := do
  let (eflags, buf) ← readU8 buf
  let (ip4, buf) ← readIp4 buf
  let (ip6, buf) ← readIp6 buf
  let (nlen, buf) ← readU8 buf
  let nlen := nlen.toNat
  if nlen > MAX_NAME_LEN then none else
  if buf.length < nlen then none else
  let name ← fromUtf8 (buf.take nlen)
  some (⟨name, ip4, if eflags &&& EFLAG_HAS_IP6 != 0 then specified ip6 else none⟩,
    buf.drop nlen)

def parsePeers : List UInt8 → ℕ → Option (List PeerEntry)
  | buf, 0 => if buf.isEmpty then some [] else none
  | buf, count + 1 => do
    let (peer, buf) ← parsePeer buf
    let peers ← parsePeers buf count
    some (peer :: peers)

/-- Body of a route advert, after the marker and type bytes. -/
def parseRouteAdvert (body : List UInt8) : Option Control :=
  if body.length < ADVERT_HEADER_LEN - 2 then none else do
  let (flags, buf) ← readU8 body
  let (tunnelIp, buf) ← readIp4 buf
  let (ip6, buf) ← readIp6 buf
  let (count, buf) ← readU8 buf
  if count.toNat > MAX_ROUTES then none else
  let routes ← parseRoutes buf count.toNat
  some (.routeAdvert ⟨tunnelIp, specified ip6, flags &&& FLAG_ACCEPT_ROUTES != 0, routes⟩)

/-- The reserved byte of a push is skipped unread. -/
def parseRoutePush (body : List UInt8) : Option Control := do
  let (_, buf) ← readU8 body
  let (count, buf) ← readU8 buf
  if count.toNat > MAX_ROUTES then none else
  let routes ← parseRoutes buf count.toNat
  some (.routePush ⟨routes⟩)

/-- Sixteen bytes as a node identity. -/
def readNodeId (buf : List UInt8) : Option (NodeId × List UInt8) :=
  if h : 16 ≤ buf.length then some (⟨buf.take 16, by simp [h]⟩, buf.drop 16) else none

def parseAssignReq (payload : List UInt8) : Option Control :=
  if payload.length ≠ ASSIGN_REQ_LEN then none else do
  let (flags, buf) ← readU8 (payload.drop 2)
  let (nodeId, buf) ← readNodeId buf
  let (hintIp4, buf) ← readIp4 buf
  let (hint6, _) ← readIp6 buf
  some (.assignReq ⟨flags, nodeId, hintIp4, specified hint6⟩)

def parseNameAdvert (body : List UInt8) : Option Control :=
  if body.length < NAME_ADVERT_HEADER_LEN - 2 then none else do
  let (flags, buf) ← readU8 body
  let (tunnelIp, buf) ← readIp4 buf
  let (ip6, buf) ← readIp6 buf
  let (nlen, nameBytes) ← readU8 buf
  if nlen.toNat > MAX_NAME_LEN then none else
  if nameBytes.length ≠ nlen.toNat then none else
  let name ← fromUtf8 nameBytes
  some (.nameAdvert ⟨flags &&& FLAG_WANT_PEERS != 0, tunnelIp, specified ip6, name⟩)

def parsePeerPush (body : List UInt8) : Option Control := do
  let (_, buf) ← readU8 body
  let (count, buf) ← readU8 buf
  if count.toNat > MAX_PEERS then none else
  let peers ← parsePeers buf count.toNat
  some (.peerPush ⟨peers⟩)

def parseAssign (payload : List UInt8) : Option Control :=
  if payload.length ≠ ASSIGN_LEN then none else do
  let (status, buf) ← readU8 (payload.drop 2)
  let status ← AssignStatus.fromU8 status
  let (tunIp, buf) ← readIp4 buf
  let (netmask, buf) ← readIp4 buf
  let (peerIp, buf) ← readIp4 buf
  let (ip6, buf) ← readIp6 buf
  let (plen6, buf) ← readU8 buf
  let (flags, buf) ← readU8 buf
  let (ttlSecs, _) ← readBE 4 buf
  some (.assign ⟨status, tunIp, netmask, peerIp, if plen6 != 0 then some ip6 else none, plen6,
    flags, UInt32.ofNat ttlSecs⟩)

def parseControl (payload : List UInt8) : Option Control :=
  if !isControl payload then none else
  match payload with
  | [_] => some (.keepalive none)
  | [_, a, b, c, d] => (readIp4 [a, b, c, d]).map fun p => .keepalive (some p.1)
  | _ :: ty :: body =>
    if ty = TYPE_ROUTE_ADVERT then parseRouteAdvert body
    else if ty = TYPE_ROUTE_PUSH then parseRoutePush body
    else if ty = TYPE_ASSIGN_REQ then parseAssignReq payload
    else if ty = TYPE_NAME_ADVERT then parseNameAdvert body
    else if ty = TYPE_PEER_PUSH then parsePeerPush body
    else if ty = TYPE_ASSIGN then parseAssign payload
    else none
  | [] => none

/-! The server's table of advertised routes. -/

structure RouteApproval where
  auto : Bool
  allowlist : List IpNetwork

def RouteApproval.approves (P : Platform) (approval : RouteApproval) (net : IpNetwork) : Bool :=
  approval.auto || approval.allowlist.any fun allow =>
    match allow, net with
    | .v4 a, .v4 n => P.isSupernetOf4 a n
    | .v6 a, .v6 n => P.isSupernetOf6 a n
    | _, _ => false

structure SubnetRoute where
  net : IpNetwork
  peer : SocketAddr
  approved : Bool
  lastSeen : Instant
deriving DecidableEq

structure AdvertOutcome where
  approved : List IpNetwork
  awaiting : List IpNetwork
  moved : List IpNetwork
  withdrawn : List IpNetwork
deriving DecidableEq

def AdvertOutcome.isQuiet (outcome : AdvertOutcome) : Bool :=
  outcome.approved.isEmpty && outcome.awaiting.isEmpty && outcome.moved.isEmpty &&
    outcome.withdrawn.isEmpty

structure SubnetTable where
  routes : List SubnetRoute
deriving DecidableEq

namespace SubnetTable

/-- One turn of the loop over the advertised networks: rewrite the first route
that already holds `net`, or push a new one. -/
def advertiseOne (P : Platform) (approval : RouteApproval) (peer : SocketAddr) (now : Instant)
    (acc : SubnetTable × AdvertOutcome) (net : IpNetwork) : SubnetTable × AdvertOutcome :=
  let (t, outcome) := acc
  let approved := approval.approves P net
  match t.routes.findIdx? fun r => r.net = net with
  | some i =>
    let movedHere := t.routes[i]?.any fun r => r.peer ≠ peer
    (⟨t.routes.modify i fun r => { r with peer := peer, approved := approved, lastSeen := now }⟩,
      if movedHere then { outcome with moved := outcome.moved ++ [net] } else outcome)
  | none =>
    (⟨t.routes ++ [⟨net, peer, approved, now⟩]⟩,
      if approved then { outcome with approved := outcome.approved ++ [net] }
      else { outcome with awaiting := outcome.awaiting ++ [net] })

def advertise (P : Platform) (t : SubnetTable) (peer : SocketAddr) (advertised : List IpNetwork)
    (approval : RouteApproval) (now : Instant) : SubnetTable × AdvertOutcome :=
  let advertised := advertised.map canonical
  let keep := fun r : SubnetRoute => r.peer ≠ peer ∨ r.net ∈ advertised
  let withdrawn := (t.routes.filter fun r => ¬ keep r).map SubnetRoute.net
  advertised.foldl (advertiseOne P approval peer now)
    (⟨t.routes.filter fun r => keep r⟩, ⟨[], [], [], withdrawn⟩)

def contains : IpNetwork → IpAddr → Bool
  | .v4 n, .v4 a => n.contains a
  | .v6 n, .v6 a => n.contains a
  | _, _ => false

def prefixLen : IpNetwork → ℕ
  | .v4 n => n.prefixLen.toNat
  | .v6 n => n.prefixLen.toNat

/-- `max_by_key` keeps the last of equal maxima. -/
def maxByPrefix (rs : List SubnetRoute) : Option SubnetRoute :=
  rs.foldl (fun best r =>
    match best with
    | none => some r
    | some b => if prefixLen b.net ≤ prefixLen r.net then some r else some b) none

def lookup (t : SubnetTable) (dst : IpAddr) : Option SocketAddr :=
  (maxByPrefix (t.routes.filter fun r => r.approved && contains r.net dst)).map SubnetRoute.peer

def routesFor (t : SubnetTable) (peer : SocketAddr) : List IpNetwork :=
  (t.routes.filter fun r => r.approved && r.peer ≠ peer).map SubnetRoute.net

/-- The table without the routes idle for more than `ttl`, and their networks. -/
def expire (t : SubnetTable) (ttl : Duration) (now : Instant) : SubnetTable × List IpNetwork :=
  let live := fun r : SubnetRoute => Instant.saturatingDurationSince now r.lastSeen ≤ ttl
  (⟨t.routes.filter fun r => live r⟩, (t.routes.filter fun r => ¬ live r).map SubnetRoute.net)

end SubnetTable

end ShadowVpn
