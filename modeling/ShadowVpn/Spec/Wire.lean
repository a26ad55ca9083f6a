import ShadowVpn.Lib.Utf8
import ShadowVpn.Spec.Mesh

/-! The control channel on the wire (`mesh.rs`): the encoders, and `parse_control` with
the indexing that the source does, where a read past the end is a panic. -/

namespace ShadowVpn

open Lib

/-! Encoding. -/

/-- `Ipv4Addr::octets`. -/
def octets4 (ip : Ipv4Addr) : List UInt8 := toBE 4 ip.toNat

/-- `Ipv6Addr::octets`. -/
def octets6 (ip : Ipv6Addr) : List UInt8 := toBE 16 ip.toNat

/-- `str::as_bytes`. -/
def asBytes (s : Text) : List UInt8 := Utf8.encode s

/-- The address, or `Ipv6Addr::UNSPECIFIED`. -/
def orUnspecified (ip6 : Option Ipv6Addr) : Ipv6Addr := ip6.getD 0

def pushRoute (buf : List UInt8) (net : IpNetwork) : List UInt8 :=
  match canonical net with
  | .v4 n => buf ++ [4, n.prefixLen] ++ octets4 n.ip
  | .v6 n => buf ++ [6, n.prefixLen] ++ octets6 n.ip

def RouteAdvert.encode (m : RouteAdvert) : List UInt8 :=
  let routes := m.routes.take (min m.routes.length MAX_ROUTES)
  let buf := [CONTROL_MARKER, TYPE_ROUTE_ADVERT, if m.acceptRoutes then FLAG_ACCEPT_ROUTES else 0]
  let buf := buf ++ octets4 m.tunnelIp ++ octets6 (orUnspecified m.tunnelIp6)
  routes.foldl pushRoute (buf ++ [UInt8.ofNat routes.length])

def RoutePush.encode (m : RoutePush) : List UInt8 :=
  let routes := m.routes.take (min m.routes.length MAX_ROUTES)
  routes.foldl pushRoute [CONTROL_MARKER, TYPE_ROUTE_PUSH, 0, UInt8.ofNat routes.length]

def AssignReq.encode (m : AssignReq) : List UInt8 :=
  [CONTROL_MARKER, TYPE_ASSIGN_REQ, m.flags] ++ m.nodeId.bytes ++ octets4 m.hintIp4 ++
    octets6 (orUnspecified m.hintIp6)

/-- `status as u8`. -/
def AssignStatus.toU8 : AssignStatus → UInt8
  | .ok => 0
  | .exhausted => 1
  | .natMode => 2

def Assign.encode (m : Assign) : List UInt8 :=
  [CONTROL_MARKER, TYPE_ASSIGN, m.status.toU8] ++ octets4 m.tunIp ++ octets4 m.netmask ++
    octets4 m.peerIp ++ octets6 (orUnspecified m.tunIp6) ++ [m.plen6, m.flags] ++
    toBE 4 m.ttlSecs.toNat

/-- The loop of `name_bytes`, which steps back while the byte before `end` continues a
character. -/
def walkBack (raw : List UInt8) : ℕ → ℕ
  | 0 => 0
  | n + 1 => if raw[n]?.any Utf8.isContinuation then walkBack raw n else n + 1

def nameBytes (name : Text) : List UInt8 :=
  let raw := asBytes name
  raw.take (walkBack raw (min raw.length MAX_NAME_LEN))

def NameAdvert.encode (m : NameAdvert) : List UInt8 :=
  let name := nameBytes m.name
  [CONTROL_MARKER, TYPE_NAME_ADVERT, if m.wantPeers then FLAG_WANT_PEERS else 0] ++
    octets4 m.tunnelIp ++ octets6 (orUnspecified m.tunnelIp6) ++ [UInt8.ofNat name.length] ++ name

/-- The body of the loop over the peers. -/
def pushPeer (buf : List UInt8) (p : PeerEntry) : List UInt8 :=
  let name := nameBytes p.name
  buf ++ [if p.ip6.isSome then EFLAG_HAS_IP6 else 0] ++ octets4 p.ip4 ++
    octets6 (orUnspecified p.ip6) ++ [UInt8.ofNat name.length] ++ name

def PeerPush.encode (m : PeerPush) : List UInt8 :=
  let peers := m.peers.take (min m.peers.length MAX_PEERS)
  peers.foldl pushPeer [CONTROL_MARKER, TYPE_PEER_PUSH, 0, UInt8.ofNat peers.length]

/-! Decoding with checked indexes. A parse panics, returns `None`, or returns a value. -/

abbrev Checked (α : Type) := OptionT (Except Panic) α

namespace Checked

variable {α : Type}

/-- The `?` operator. -/
def ask (o : Option α) : Checked α := OptionT.mk (.ok o)

/-- `buf[i]`. -/
def index (buf : List UInt8) (i : ℕ) : Except Panic UInt8 :=
  match buf[i]? with
  | some b => .ok b
  | none => .error .outOfBounds

/-- `&buf[i..j]`. -/
def range (buf : List UInt8) (i j : ℕ) : Except Panic (List UInt8) :=
  if i ≤ j ∧ j ≤ buf.length then .ok ((buf.drop i).take (j - i)) else .error .outOfBounds

/-- `buf.get(i..)`. -/
def getFrom (buf : List UInt8) (i : ℕ) : Option (List UInt8) :=
  if i ≤ buf.length then some (buf.drop i) else none

/-- `<[u8; N]>::try_from(bytes).expect(..)`. -/
def array (n : ℕ) (bytes : List UInt8) : Except Panic (List UInt8) :=
  if bytes.length = n then .ok bytes else .error .expectFailed

/-- `split_first_chunk::<N>()`. -/
def splitFirstChunk (n : ℕ) (buf : List UInt8) : Option (List UInt8 × List UInt8) :=
  if n ≤ buf.length then some (buf.take n, buf.drop n) else none

/-- `split_at`. -/
def splitAt (buf : List UInt8) (n : ℕ) : Except Panic (List UInt8 × List UInt8) :=
  if n ≤ buf.length then .ok (buf.take n, buf.drop n) else .error .outOfBounds

/-- `Ipv4Addr::from`. -/
def ipv4From (bytes : List UInt8) : Ipv4Addr := BitVec.ofNat 32 (ofBE bytes)

/-- `Ipv6Addr::from`. -/
def ipv6From (bytes : List UInt8) : Ipv6Addr := BitVec.ofNat 128 (ofBE bytes)

/-- `Ipv4Addr::new(buf[i], buf[i + 1], buf[i + 2], buf[i + 3])`. -/
def ipv4At (buf : List UInt8) (i : ℕ) : Except Panic Ipv4Addr := do
  let a ← index buf i
  let b ← index buf (i + 1)
  let c ← index buf (i + 2)
  let d ← index buf (i + 3)
  .ok (ipv4From [a, b, c, d])

/-- `<[u8; N]>::try_from(&buf[i..i + N]).expect(..)`. -/
def arrayAt (buf : List UInt8) (i n : ℕ) : Except Panic (List UInt8) := do
  let bytes ← range buf i (i + n)
  array n bytes

/-- The same for a node identity. -/
def nodeIdAt (buf : List UInt8) (i : ℕ) : Except Panic NodeId := do
  let bytes ← range buf i (i + 16)
  if h : bytes.length = 16 then .ok ⟨bytes, h⟩ else .error .expectFailed

/-- `IpNetwork::new(net.network(), net.prefix()).expect(..)`. -/
def canonical (net : IpNetwork) : Except Panic IpNetwork :=
  let masked := match net with
    | .v4 n => (Cidr.new n.network n.prefixLen).map IpNetwork.v4
    | .v6 n => (Cidr.new n.network n.prefixLen).map IpNetwork.v6
  match masked with
  | some net => .ok net
  | none => .error .expectFailed

/-- The loop of `parse_routes`, with the turns left and the routes so far. -/
def parseRoutes : List UInt8 → ℕ → List IpNetwork → Checked (List IpNetwork)
  | buf, 0, routes => ask (if buf.isEmpty then some routes else none)
  | buf, count + 1, routes => do
    let (family, rest) ← ask (readU8 buf)
    let (plen, rest) ← ask (readU8 rest)
    if family = 4 then
      let (bytes, rest) ← ask (splitFirstChunk 4 rest)
      let net ← ask (Cidr.new (ipv4From bytes) plen)
      let net ← canonical (.v4 net)
      parseRoutes rest count (routes ++ [net])
    else if family = 6 then
      let (bytes, rest) ← ask (splitFirstChunk 16 rest)
      let net ← ask (Cidr.new (ipv6From bytes) plen)
      let net ← canonical (.v6 net)
      parseRoutes rest count (routes ++ [net])
    else ask none

def parseRouteAdvert (payload : List UInt8) : Checked Control := do
  let body ← ask (getFrom payload 2)
  if body.length < ADVERT_HEADER_LEN - 2 then ask none else
  let flags ← index body 0
  let tunnelIp ← ipv4At body 1
  let ip6 ← arrayAt body 5 16
  let count ← index body 21
  if count.toNat > MAX_ROUTES then ask none else
  let entries ← range body 22 body.length
  let routes ← parseRoutes entries count.toNat []
  pure (.routeAdvert ⟨tunnelIp, specified (ipv6From ip6), flags &&& FLAG_ACCEPT_ROUTES != 0, routes⟩)

def parseRoutePush (payload : List UInt8) : Checked Control := do
  let count ← ask payload[3]?
  if count.toNat > MAX_ROUTES then ask none else
  let entries ← ask (getFrom payload 4)
  let routes ← parseRoutes entries count.toNat []
  pure (.routePush ⟨routes⟩)

def parseAssignReq (payload : List UInt8) : Checked Control := do
  if payload.length ≠ ASSIGN_REQ_LEN then ask none else
  let flags ← index payload 2
  let nodeId ← nodeIdAt payload 3
  let hintIp4 ← ipv4At payload 19
  let hint6 ← arrayAt payload 23 16
  pure (.assignReq ⟨flags, nodeId, hintIp4, specified (ipv6From hint6)⟩)

def parseNameAdvert (payload : List UInt8) : Checked Control := do
  let body ← ask (getFrom payload 2)
  if body.length < NAME_ADVERT_HEADER_LEN - 2 then ask none else
  let flags ← index body 0
  let tunnelIp ← ipv4At body 1
  let ip6 ← arrayAt body 5 16
  let nlen ← index body 21
  if nlen.toNat > MAX_NAME_LEN then ask none else
  let nameBytes ← ask (getFrom body 22)
  if nameBytes.length ≠ nlen.toNat then ask none else
  let name ← ask (fromUtf8 nameBytes)
  pure (.nameAdvert ⟨flags &&& FLAG_WANT_PEERS != 0, tunnelIp, specified (ipv6From ip6), name⟩)

/-- The loop over the entries of a peer push. -/
def parsePeers : List UInt8 → ℕ → List PeerEntry → Checked (List PeerEntry)
  | rest, 0, peers => ask (if rest.isEmpty then some peers else none)
  | rest, count + 1, peers => do
    let (eflags, rest) ← ask (readU8 rest)
    let (ip4, rest) ← ask (splitFirstChunk 4 rest)
    let (ip6, rest) ← ask (splitFirstChunk 16 rest)
    let (nlen, rest) ← ask (readU8 rest)
    if nlen.toNat > MAX_NAME_LEN then ask none else
    if rest.length < nlen.toNat then ask none else
    let (nameb, rest) ← splitAt rest nlen.toNat
    let name ← ask (fromUtf8 nameb)
    parsePeers rest count (peers ++ [⟨name, ipv4From ip4,
      if eflags &&& EFLAG_HAS_IP6 != 0 then specified (ipv6From ip6) else none⟩])

def parsePeerPush (payload : List UInt8) : Checked Control := do
  let count ← ask payload[3]?
  if count.toNat > MAX_PEERS then ask none else
  let rest ← ask (getFrom payload 4)
  let peers ← parsePeers rest count.toNat []
  pure (.peerPush ⟨peers⟩)

def parseAssign (payload : List UInt8) : Checked Control := do
  if payload.length ≠ ASSIGN_LEN then ask none else
  let status ← index payload 2
  let status ← ask (AssignStatus.fromU8 status)
  let tunIp ← ipv4At payload 3
  let netmask ← ipv4At payload 7
  let peerIp ← ipv4At payload 11
  let ip6 ← arrayAt payload 15 16
  let plen6 ← index payload 31
  let flags ← index payload 32
  let ttl ← arrayAt payload 33 4
  pure (.assign ⟨status, tunIp, netmask, peerIp, if plen6 != 0 then some (ipv6From ip6) else none,
    plen6, flags, UInt32.ofNat (ofBE ttl)⟩)

def parseControl (payload : List UInt8) : Checked Control :=
  if !isControl payload then ask none else
  match payload with
  | [_] => pure (.keepalive none)
  | [_, a, b, c, d] => pure (.keepalive (some (ipv4From [a, b, c, d])))
  | _ => do
    let ty ← ask payload[1]?
    if ty = TYPE_ROUTE_ADVERT then parseRouteAdvert payload
    else if ty = TYPE_ROUTE_PUSH then parseRoutePush payload
    else if ty = TYPE_ASSIGN_REQ then parseAssignReq payload
    else if ty = TYPE_NAME_ADVERT then parseNameAdvert payload
    else if ty = TYPE_PEER_PUSH then parsePeerPush payload
    else if ty = TYPE_ASSIGN then parseAssign payload
    else ask none

end Checked

end ShadowVpn
