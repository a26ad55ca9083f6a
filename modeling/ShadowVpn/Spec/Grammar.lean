import ShadowVpn.Spec.Wire

/-! The control channel as a language: which byte strings are messages and what each one
says. `Spells` gives every message its spellings, `Documented` is the wire-format table
alone, and the normal forms are what an encoded message can be read back as. -/

namespace ShadowVpn

open Lib

/-- `{family plen addr[4|16]}`, read with its host bits cleared. -/
inductive RouteEntry : List UInt8 → IpNetwork → Prop
  | v4 (ip : Ipv4Addr) (plen : UInt8) (h : plen.toNat ≤ 32) :
      RouteEntry (4 :: plen :: octets4 ip) (canonical (.v4 ⟨ip, plen, h⟩))
  | v6 (ip : Ipv6Addr) (plen : UInt8) (h : plen.toNat ≤ 128) :
      RouteEntry (6 :: plen :: octets6 ip) (canonical (.v6 ⟨ip, plen, h⟩))

/-- `{eflags ip4[4] ip6[16] nlen name[nlen]}`. -/
inductive PeerSpelling : List UInt8 → PeerEntry → Prop
  | entry (eflags : UInt8) (ip4 : Ipv4Addr) (ip6 : Ipv6Addr) (name : Text)
      (h : (asBytes name).length ≤ MAX_NAME_LEN) :
      PeerSpelling
        (eflags :: (octets4 ip4 ++ (octets6 ip6 ++ UInt8.ofNat (asBytes name).length :: asBytes name)))
        ⟨name, ip4, if eflags &&& EFLAG_HAS_IP6 != 0 then specified ip6 else none⟩

/-! Bodies, after the marker and the type byte. -/

inductive RouteAdvertBody : List UInt8 → RouteAdvert → Prop
  | body (flags : UInt8) (ip4 : Ipv4Addr) (ip6 : Ipv6Addr) {entries : List UInt8}
      {routes : List IpNetwork} (hlen : routes.length ≤ MAX_ROUTES)
      (he : Words RouteEntry entries routes) :
      RouteAdvertBody
        (flags :: (octets4 ip4 ++ (octets6 ip6 ++ UInt8.ofNat routes.length :: entries)))
        ⟨ip4, specified ip6, flags &&& FLAG_ACCEPT_ROUTES != 0, routes⟩

inductive RoutePushBody : List UInt8 → RoutePush → Prop
  | body (reserved : UInt8) {entries : List UInt8} {routes : List IpNetwork}
      (hlen : routes.length ≤ MAX_ROUTES) (he : Words RouteEntry entries routes) :
      RoutePushBody (reserved :: UInt8.ofNat routes.length :: entries) ⟨routes⟩

inductive AssignReqBody : List UInt8 → AssignReq → Prop
  | body (flags : UInt8) (nodeId : NodeId) (hint4 : Ipv4Addr) (hint6 : Ipv6Addr) :
      AssignReqBody (flags :: (nodeId.bytes ++ (octets4 hint4 ++ octets6 hint6)))
        ⟨flags, nodeId, hint4, specified hint6⟩

inductive AssignBody : List UInt8 → Assign → Prop
  | body (status : AssignStatus) (tunIp netmask peerIp : Ipv4Addr) (ip6 : Ipv6Addr)
      (plen6 flags : UInt8) (ttlSecs : UInt32) :
      AssignBody
        (status.toU8 :: (octets4 tunIp ++ (octets4 netmask ++ (octets4 peerIp ++
          (octets6 ip6 ++ plen6 :: flags :: toBE 4 ttlSecs.toNat)))))
        ⟨status, tunIp, netmask, peerIp, if plen6 != 0 then some ip6 else none, plen6, flags,
          ttlSecs⟩

inductive NameAdvertBody : List UInt8 → NameAdvert → Prop
  | body (flags : UInt8) (ip4 : Ipv4Addr) (ip6 : Ipv6Addr) (name : Text)
      (hlen : (asBytes name).length ≤ MAX_NAME_LEN) :
      NameAdvertBody
        (flags :: (octets4 ip4 ++ (octets6 ip6 ++ UInt8.ofNat (asBytes name).length :: asBytes name)))
        ⟨flags &&& FLAG_WANT_PEERS != 0, ip4, specified ip6, name⟩

inductive PeerPushBody : List UInt8 → PeerPush → Prop
  | body (reserved : UInt8) {entries : List UInt8} {peers : List PeerEntry}
      (hlen : peers.length ≤ MAX_PEERS) (he : Words PeerSpelling entries peers) :
      PeerPushBody (reserved :: UInt8.ofNat peers.length :: entries) ⟨peers⟩

/-- The bytes spell the message. -/
inductive Spells : List UInt8 → Control → Prop
  | keepalive : Spells [0] (.keepalive none)
  | keepaliveFrom (ip : Ipv4Addr) : Spells (0 :: octets4 ip) (.keepalive (some ip))
  | routeAdvert {body : List UInt8} {m : RouteAdvert} (h : RouteAdvertBody body m) :
      Spells (0 :: 1 :: body) (.routeAdvert m)
  | routePush {body : List UInt8} {m : RoutePush} (h : RoutePushBody body m) :
      Spells (0 :: 2 :: body) (.routePush m)
  | assignReq {body : List UInt8} {m : AssignReq} (h : AssignReqBody body m) :
      Spells (0 :: 3 :: body) (.assignReq m)
  | assign {body : List UInt8} {m : Assign} (h : AssignBody body m) :
      Spells (0 :: 4 :: body) (.assign m)
  | nameAdvert {body : List UInt8} {m : NameAdvert} (h : NameAdvertBody body m) :
      Spells (0 :: 5 :: body) (.nameAdvert m)
  | peerPush {body : List UInt8} {m : PeerPush} (h : PeerPushBody body m) :
      Spells (0 :: 6 :: body) (.peerPush m)

/-! The table of formats, without meanings. -/

/-- A route entry is family 4 with at most 32 bits and 4 bytes, or family 6 with at most
128 bits and 16 bytes. -/
inductive RouteFormat : List UInt8 → Prop
  | v4 {plen : UInt8} {addr : List UInt8} (hp : plen.toNat ≤ 32) (ha : addr.length = 4) :
      RouteFormat (4 :: plen :: addr)
  | v6 {plen : UInt8} {addr : List UInt8} (hp : plen.toNat ≤ 128) (ha : addr.length = 16) :
      RouteFormat (6 :: plen :: addr)

def ValidUtf8 (bytes : List UInt8) : Prop := ∃ s : Text, bytes = asBytes s

/-- A peer entry is 22 bytes, the last of them the length of the name, and the name. -/
inductive PeerFormat : List UInt8 → Prop
  | entry {head name : List UInt8} {nlen : UInt8} (hh : head.length = 21)
      (hn : nlen.toNat ≤ 32) (hlen : name.length = nlen.toNat) (hu : ValidUtf8 name) :
      PeerFormat (head ++ nlen :: name)

/-- Exactly `count` entries that fill the buffer. -/
def Filled (E : List UInt8 → Prop) (count : ℕ) (buf : List UInt8) : Prop :=
  ∃ ws : List (List UInt8), ws.length = count ∧ (∀ w ∈ ws, E w) ∧ buf = ws.flatten

/-- Payloads by type byte. The third byte is the flags, the status or reserved. -/
inductive TypedFormat : List UInt8 → Prop
  | routeAdvert {third count : UInt8} {addrs entries : List UInt8} (ha : addrs.length = 20)
      (hc : count.toNat ≤ 64) (he : Filled RouteFormat count.toNat entries) :
      TypedFormat (0 :: 1 :: third :: (addrs ++ count :: entries))
  | routePush {third count : UInt8} {entries : List UInt8} (hc : count.toNat ≤ 64)
      (he : Filled RouteFormat count.toNat entries) :
      TypedFormat (0 :: 2 :: third :: count :: entries)
  | assignReq {rest : List UInt8} (hlen : (0 :: 3 :: rest).length = 39) :
      TypedFormat (0 :: 3 :: rest)
  | assign {status : UInt8} {rest : List UInt8} (hs : status.toNat ≤ 2)
      (hlen : (0 :: 4 :: status :: rest).length = 37) : TypedFormat (0 :: 4 :: status :: rest)
  | nameAdvert {third nlen : UInt8} {addrs name : List UInt8} (ha : addrs.length = 20)
      (hn : nlen.toNat ≤ 32) (hlen : name.length = nlen.toNat) (hu : ValidUtf8 name) :
      TypedFormat (0 :: 5 :: third :: (addrs ++ nlen :: name))
  | peerPush {third count : UInt8} {entries : List UInt8} (hc : count.toNat ≤ 24)
      (he : Filled PeerFormat count.toNat entries) :
      TypedFormat (0 :: 6 :: third :: count :: entries)

def Documented (b : List UInt8) : Prop :=
  b.head? = some 0 ∧
    (b.length = 1 ∨ b.length = 5 ∨ (b.length ≠ 1 ∧ b.length ≠ 5 ∧ TypedFormat b))

/-! Normal forms. -/

/-- The longest front part of whole characters that fits in a name field. -/
def cutName (name : Text) : Text := Utf8.takeBytes MAX_NAME_LEN name

def RouteAdvert.normalise (m : RouteAdvert) : RouteAdvert :=
  { m with
    tunnelIp6 := m.tunnelIp6.bind specified
    routes := (m.routes.take MAX_ROUTES).map canonical }

def RoutePush.normalise (m : RoutePush) : RoutePush :=
  ⟨(m.routes.take MAX_ROUTES).map canonical⟩

def AssignReq.normalise (m : AssignReq) : AssignReq :=
  { m with hintIp6 := m.hintIp6.bind specified }

def Assign.normalise (m : Assign) : Assign :=
  { m with tunIp6 := if m.plen6 = 0 then none else some (orUnspecified m.tunIp6) }

def NameAdvert.normalise (m : NameAdvert) : NameAdvert :=
  { m with tunnelIp6 := m.tunnelIp6.bind specified, name := cutName m.name }

def PeerEntry.normalise (p : PeerEntry) : PeerEntry :=
  ⟨cutName p.name, p.ip4, p.ip6.bind specified⟩

def PeerPush.normalise (m : PeerPush) : PeerPush :=
  ⟨(m.peers.take MAX_PEERS).map PeerEntry.normalise⟩

/-- The name field ends in an ASCII byte: the last of the first 32 bytes, or of all of
them in a shorter name. -/
def AsciiCut (name : Text) : Prop :=
  ∀ b, ((asBytes name).take MAX_NAME_LEN).getLast? = some b → b < 0x80

instance (name : Text) : Decidable (AsciiCut name) :=
  decidable_of_iff ((((asBytes name).take MAX_NAME_LEN).getLast?).all (fun b => b < 0x80) = true)
    (by simp [AsciiCut, Option.all_eq_true])

end ShadowVpn
