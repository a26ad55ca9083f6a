import ShadowVpn.Lib.HashMap
import ShadowVpn.Spec.Mesh
import ShadowVpn.Spec.NodeId

/-! The server's table of host names, and the client's (`magic.rs`). -/

namespace ShadowVpn

open Lib

/-- `char::is_whitespace`: the characters with the White_Space property. -/
def isWhitespace (c : Char) : Bool :=
  let n := c.toNat
  (9 ≤ n && n ≤ 13) || n == 0x20 || n == 0x85 || n == 0xA0 || n == 0x1680 ||
    (0x2000 ≤ n && n ≤ 0x200A) || n == 0x2028 || n == 0x2029 || n == 0x202F || n == 0x205F ||
    n == 0x3000

def isAsciiAlphanumeric (c : Char) : Bool :=
  ('0' ≤ c && c ≤ '9') || ('a' ≤ c && c ≤ 'z') || ('A' ≤ c && c ≤ 'Z')

/-- The loop over the characters of the first label, with `out` and `prev_hyphen`. -/
def sanitizeLoop : Text → Text → Bool → Text
  | [], out, _ => out
  | c :: cs, out, prevHyphen =>
    if byteLen out ≥ MAX_NAME_LEN then out
    else
      let c := c.toLower
      if isAsciiAlphanumeric c || c = '-' then
        if c = '-' then
          if prevHyphen || out.isEmpty then sanitizeLoop cs out prevHyphen
          else sanitizeLoop cs (out ++ [c]) true
        else sanitizeLoop cs (out ++ [c]) false
      else if c = '_' || isWhitespace c then
        if prevHyphen || out.isEmpty then sanitizeLoop cs out prevHyphen
        else sanitizeLoop cs (out ++ ['-']) true
      else sanitizeLoop cs out prevHyphen

def trimStartHyphens (s : Text) : Text := s.dropWhile fun c => c = '-'

def trimEndHyphens (s : Text) : Text := (trimStartHyphens s.reverse).reverse

def sanitizeHostname (raw : Text) : Text :=
  let first := ((raw.splitOn '.').find? fun s => !s.isEmpty).getD []
  let trimmed := trimEndHyphens (sanitizeLoop first [] false)
  if trimmed.isEmpty then ['n', 'o', 'd', 'e'] else trimmed

/-- Two bytes of the node id in hex, else the last octet of the address. -/
def collisionSuffix (nodeId : Option NodeId) (ip4 : Ipv4Addr) : Text :=
  match nodeId with
  | some id => fmtBytes (id.bytes.take 2)
  | none => fmtByte (UInt8.ofNat ip4.toNat)

def fitLabel (base extra : Text) : Text :=
  let head := trimEndHyphens (base.take (MAX_NAME_LEN - byteLen extra))
  if head.isEmpty then trimStartHyphens extra else head ++ extra

inductive NameOutcome where
  | granted (name : Text) (renamed : Bool)
  | refreshed (name : Text)
  | withdrawn (name : Option Text)
deriving DecidableEq

structure NameRow where
  requested : Text
  granted : Text
  ip4 : Ipv4Addr
  ip6 : Option Ipv6Addr
  lastSeen : Instant
deriving DecidableEq

structure NameTable where
  server : Option PeerEntry
  byPeer : HashMap SocketAddr NameRow
  byName : HashMap Text SocketAddr

namespace NameTable

def new : NameTable := ⟨none, ∅, ∅⟩

def withServer (name : Text) (ip4 : Ipv4Addr) (ip6 : Option Ipv6Addr) : NameTable :=
  ⟨some ⟨sanitizeHostname name, ip4, ip6⟩, ∅, ∅⟩

def nameFor (t : NameTable) (peer : SocketAddr) : Option Text :=
  (t.byPeer.get peer).map NameRow.granted

def nameTaken (t : NameTable) (name : Text) : Bool :=
  t.server.any (fun s => s.name = name) || (t.byName.get name).isSome

/-- The label itself, the label with a tag, or the tagged label with a number from 2
to 255; when all are taken, the tagged label after all. -/
def uniqueName (t : NameTable) (wanted : Text) (nodeId : Option NodeId) (ip4 : Ipv4Addr) : Text :=
  if !t.nameTaken wanted then wanted
  else
    let tag := collisionSuffix nodeId ip4
    let candidate := fitLabel wanted ('-' :: tag)
    if !t.nameTaken candidate then candidate
    else
      let numbered := (List.range' 2 254).map fun n =>
        fitLabel wanted ('-' :: tag ++ '-' :: Nat.toDigits 10 n)
      (numbered.find? fun c => !t.nameTaken c).getD candidate

def withdraw (t : NameTable) (peer : SocketAddr) : NameTable × NameOutcome :=
  match t.byPeer.get peer with
  | none => (t, .withdrawn none)
  | some row =>
    ({ t with
        byPeer := t.byPeer.erase peer
        byName := t.byName.eraseBinding (some row.granted) peer },
      .withdrawn (some row.granted))

/-- A name change, or a first advert: the previous grant goes first. -/
def grant (t : NameTable) (peer : SocketAddr) (requested : Text) (ip4 : Ipv4Addr)
    (ip6 : Option Ipv6Addr) (nodeId : Option NodeId) (now : Instant) : NameTable × NameOutcome :=
  let t := (t.withdraw peer).1
  let granted := t.uniqueName requested nodeId ip4
  ({ t with
      byName := t.byName.insert granted peer
      byPeer := t.byPeer.insert peer ⟨requested, granted, ip4, ip6, now⟩ },
    .granted granted (granted ≠ requested))

def advertise (t : NameTable) (peer : SocketAddr) (raw : Text) (ip4 : Ipv4Addr)
    (ip6 : Option Ipv6Addr) (nodeId : Option NodeId) (now : Instant) : NameTable × NameOutcome :=
  if raw.isEmpty then t.withdraw peer
  else
    let requested := sanitizeHostname raw
    match t.byPeer.get peer with
    | some row =>
      if row.requested = requested then
        ({ t with byPeer := t.byPeer.insert peer { row with ip4 := ip4, ip6 := ip6, lastSeen := now } },
          .refreshed row.granted)
      else t.grant peer requested ip4 ip6 nodeId now
    | none => t.grant peer requested ip4 ip6 nodeId now

/-- `retain` over `by_peer`, which also frees the names of the rows it drops. -/
def expire (t : NameTable) (order : IterOrder SocketAddr NameRow) (ttl : Duration)
    (now : Instant) : NameTable × List Text :=
  let live := fun row : NameRow => decide (Instant.saturatingDurationSince now row.lastSeen ≤ ttl)
  let dead := (order.iter t.byPeer).filter fun e => !live e.2
  ({ t with
      byPeer := t.byPeer.retain fun _ row => live row
      byName := dead.foldl (fun m e => m.eraseBinding (some e.2.granted) e.1) t.byName },
    dead.map fun e => e.2.granted)

/-- The server first, then client rows while there is room. -/
def snapshot (t : NameTable) (order : IterOrder SocketAddr NameRow) : List PeerEntry :=
  let out := t.server.toList
  out ++ ((order.iter t.byPeer).take (MAX_PEERS - out.length)).map fun e =>
    ⟨e.2.granted, e.2.ip4, e.2.ip6⟩

/-! The table as a system of its own. -/

inductive Event where
  | advertise (peer : SocketAddr) (raw : Text) (ip4 : Ipv4Addr) (ip6 : Option Ipv6Addr)
      (nodeId : Option NodeId) (now : Instant)
  | withdraw (peer : SocketAddr)
  | expire (order : IterOrder SocketAddr NameRow) (ttl : Duration) (now : Instant)

inductive Out where
  | outcome (o : NameOutcome)
  | expired (names : List Text)

/-- No call panics. -/
def step (t : NameTable) : Event → Except Panic (NameTable × Out)
  | .advertise peer raw ip4 ip6 nodeId now =>
    let (t', o) := t.advertise peer raw ip4 ip6 nodeId now
    .ok (t', .outcome o)
  | .withdraw peer =>
    let (t', o) := t.withdraw peer
    .ok (t', .outcome o)
  | .expire order ttl now =>
    let (t', names) := t.expire order ttl now
    .ok (t', .expired names)

end NameTable

/-! The client's side. -/

def MAGIC_TTL_SECS : UInt32 := 30

structure PeerAddrs where
  ip4 : Ipv4Addr
  ip6 : Option Ipv6Addr
deriving DecidableEq

structure PeerTable where
  inner : HashMap Text PeerAddrs

namespace PeerTable

def new : PeerTable := ⟨∅⟩

/-- One turn of the loop in `replace`: the name alone, and with the suffix. -/
def insertPeer (suffix : Text) (map : HashMap Text PeerAddrs) (p : PeerEntry) :
    HashMap Text PeerAddrs :=
  let addrs : PeerAddrs := ⟨p.ip4, p.ip6⟩
  let label := p.name.map Char.toLower
  if label.isEmpty then map
  else
    let map := if suffix.isEmpty then map else map.insert (label ++ '.' :: suffix) addrs
    map.insert label addrs

def replace (peers : List PeerEntry) (suffix : Text) : PeerTable :=
  ⟨peers.foldl (insertPeer suffix) ∅⟩

def lookup (t : PeerTable) (name : Text) : Option PeerAddrs := t.inner.get name

end PeerTable

/-- Whether a name lies in the zone. -/
def isMagicSuffixName (name suffix : Text) : Bool :=
  if suffix.isEmpty then false
  else name == suffix || ('.' :: suffix).isSuffixOf name

/-- `str::trim`. -/
def trim (s : Text) : Text :=
  ((s.dropWhile isWhitespace).reverse.dropWhile isWhitespace).reverse

def sanitizeSuffix (raw : Text) : Option Text :=
  if (trim raw).isEmpty then none
  else
    let s := sanitizeHostname raw
    if s.isEmpty then none else some s

end ShadowVpn
