import ShadowVpn.Spec.Assign
import ShadowVpn.Spec.Magic

/-! The learning-mode server (`bin/server.rs`): the map of learned addresses, the lease
table and the name table, and every event that changes them. Each event holds the
routing lock throughout, so a run is a sequence of events. -/

namespace ShadowVpn

open Lib

structure ClientEntry where
  peer : SocketAddr
  lastSeen : Instant
deriving DecidableEq

structure Learned where
  clients : HashMap IpAddr ClientEntry
  subnets : SubnetTable

namespace Learned

/-- `Learned::default`. -/
def empty : Learned := ⟨∅, ⟨[]⟩⟩

/-- `now` is the function's own reading of the clock. -/
def learn (l : Learned) (src : IpAddr) (peer : SocketAddr) (now : Instant) : Learned :=
  match l.clients.get src with
  | some entry =>
    if entry.peer = peer then
      { l with clients := l.clients.insert src { entry with lastSeen := now } }
    else { l with clients := l.clients.insert src ⟨peer, now⟩ }
  | none => { l with clients := l.clients.insert src ⟨peer, now⟩ }

/-- Within `ttl` of the last sighting. -/
def live (entry : ClientEntry) (now : Instant) (ttl : Duration) : Bool :=
  Instant.saturatingDurationSince now entry.lastSeen ≤ ttl

def lookup (l : Learned) (dst : IpAddr) (now : Instant) (ttl : Duration) : Option SocketAddr :=
  match l.clients.get dst with
  | some entry => if live entry now ttl then some entry.peer else l.subnets.lookup dst
  | none => l.subnets.lookup dst

def expireClients (l : Learned) (ttl : Duration) (now : Instant) : Learned :=
  { l with clients := l.clients.retain fun _ entry => live entry now ttl }

/-- Forget `ip` if it still points at `lastPeer`, or the mapping is dead. -/
def unlearn (l : Learned) (ip : IpAddr) (lastPeer : Option SocketAddr) (now : Instant)
    (ttl : Duration) : Learned :=
  match l.clients.get ip with
  | none => l
  | some entry =>
    if lastPeer = some entry.peer ∨ live entry now ttl = false then
      { l with clients := l.clients.erase ip }
    else l

end Learned

structure LearnState where
  learned : Learned
  assigner : Assigner
  names : NameTable
  leaseTtl : Duration

/-- What one event reads from outside: the two clocks, the readings that `learn` takes
itself, in order, the disk, and the order in which the name table is walked. -/
structure Env where
  now : Instant
  systemNow : SystemTime
  clock : ℕ → Instant
  io : Io
  names : IterOrder SocketAddr NameRow

/-- `node_for_ip4` or `node_for_ip6`. -/
def Assigner.nodeForIp (s : Assigner) : IpAddr → Option NodeId
  | .v4 ip => s.nodeForIp4 ip
  | .v6 ip => s.nodeForIp6 ip

/-- The address is unleased, or leased to the node that the endpoint speaks for. -/
def Assigner.MayHave (s : Assigner) (peer : SocketAddr) (ip : IpAddr) : Prop :=
  ∀ owner, s.nodeForIp ip = some owner → s.nodeForPeer peer = some owner

/-- Learn `src` via `peer` unless that address is leased to a different node. -/
def maybeLearn (l : Learned) (assigner : Assigner) (src : IpAddr) (peer : SocketAddr)
    (now : Instant) : Learned :=
  match assigner.nodeForIp src with
  | some owner => if assigner.nodeForPeer peer ≠ some owner then l else l.learn src peer now
  | none => l.learn src peer now

/-- An address and, if there is one, its IPv6 companion. -/
def maybeLearnBoth (l : Learned) (assigner : Assigner) (ip4 : Ipv4Addr) (ip6 : Option Ipv6Addr)
    (peer : SocketAddr) (clock : ℕ → Instant) : Learned :=
  let l := maybeLearn l assigner (.v4 ip4) peer (clock 0)
  match ip6 with
  | some ip6 => maybeLearn l assigner (.v6 ip6) peer (clock 1)
  | none => l

/-- The body of the loop in `unlearn_dropped`. -/
def unlearnLease (now : Instant) (ttl : Duration) (acc : Learned × NameTable) (lease : Lease) :
    Learned × NameTable :=
  let l := acc.1.unlearn (.v4 lease.ip4) lease.lastPeer now ttl
  let l := match lease.ip6 with
    | some ip6 => l.unlearn (.v6 ip6) lease.lastPeer now ttl
    | none => l
  let names := match lease.lastPeer with
    | some peer => (acc.2.withdraw peer).1
    | none => acc.2
  (l, names)

def unlearnDropped (l : Learned) (names : NameTable) (dropped : List Lease) (now : Instant)
    (ttl : Duration) : Learned × NameTable :=
  dropped.foldl (unlearnLease now ttl) (l, names)

/-- What an event returns, with the leases it dropped and the file it wrote. -/
structure EventOut where
  reply : Option Control
  dropped : List Lease
  wrote : Option PersistFile

/-- An event that touches no lease. -/
def EventOut.plain (reply : Option Control) : EventOut := ⟨reply, [], none⟩

namespace LearnState

/-- The addresses of an `Ok` reply are learned via its endpoint. -/
def learnReply (l : Learned) (reply : Assign) (peer : SocketAddr) (clock : ℕ → Instant) : Learned :=
  if reply.status = .ok then
    let l := l.learn (.v4 reply.tunIp) peer (clock 0)
    match reply.tunIp6 with
    | some ip6 => l.learn (.v6 ip6) peer (clock 1)
    | none => l
  else l

def handleAssignReq (P : Platform) (st : LearnState) (peer : SocketAddr) (req : AssignReq)
    (env : Env) : Except Panic (LearnState × EventOut) := do
  let (assigner, out) ← st.assigner.allocate P env.io req peer env.systemNow
  let r := unlearnDropped st.learned st.names out.dropped env.now st.leaseTtl
  let learned := match out.reply with
    | some reply => learnReply r.1 reply peer env.clock
    | none => r.1
  .ok ({ st with learned := learned, assigner := assigner, names := r.2 },
    ⟨out.reply.map .assign, out.dropped, out.wrote⟩)

def handleRouteAdvert (P : Platform) (approval : RouteApproval) (st : LearnState)
    (peer : SocketAddr) (advert : RouteAdvert) (env : Env) : LearnState × EventOut :=
  let learned := maybeLearnBoth st.learned st.assigner advert.tunnelIp advert.tunnelIp6 peer env.clock
  let subnets := (learned.subnets.advertise P peer advert.routes approval env.now).1
  ({ st with learned := { learned with subnets := subnets } },
    .plain (if advert.acceptRoutes then some (.routePush ⟨subnets.routesFor peer⟩) else none))

def handleNameAdvert (st : LearnState) (peer : SocketAddr) (advert : NameAdvert) (env : Env) :
    LearnState × EventOut :=
  let learned := maybeLearnBoth st.learned st.assigner advert.tunnelIp advert.tunnelIp6 peer env.clock
  let names := (st.names.advertise peer advert.name advert.tunnelIp advert.tunnelIp6
    (st.assigner.nodeForPeer peer) env.now).1
  ({ st with learned := learned, names := names },
    .plain (if advert.wantPeers then some (.peerPush ⟨names.snapshot env.names⟩) else none))

/-- The arms of `handle_control` for a learning-mode server. -/
def handleControl (P : Platform) (approval : RouteApproval) (st : LearnState) (peer : SocketAddr)
    (payload : List UInt8) (env : Env) : Except Panic (LearnState × EventOut) :=
  match parseControl payload with
  | none => .ok (st, .plain none)
  | some (.keepalive src) =>
    match src with
    | some src =>
      .ok ({ st with learned := maybeLearn st.learned st.assigner (.v4 src) peer (env.clock 0) },
        .plain none)
    | none => .ok (st, .plain none)
  | some (.routeAdvert advert) => .ok (st.handleRouteAdvert P approval peer advert env)
  | some (.assignReq req) => st.handleAssignReq P peer req env
  | some (.nameAdvert advert) => .ok (st.handleNameAdvert peer advert env)
  | some (.routePush _) => .ok (st, .plain none)
  | some (.assign _) => .ok (st, .plain none)
  | some (.peerPush _) => .ok (st, .plain none)

end LearnState

/-! Data packets. -/

/-- Big-endian word of `n` bytes at an offset. -/
def wordAt (packet : List UInt8) (offset n : ℕ) : ℕ :=
  ((packet.drop offset).take n).foldl (fun acc b => acc * 256 + b.toNat) 0

/-- The address of an IP header, at one offset for each family. -/
def ipAt (packet : List UInt8) (offset4 offset6 : ℕ) : Option IpAddr :=
  match packet with
  | [] => none
  | b :: _ =>
    if b >>> 4 = 4 ∧ packet.length ≥ 20 then some (.v4 (BitVec.ofNat 32 (wordAt packet offset4 4)))
    else if b >>> 4 = 6 ∧ packet.length ≥ 40 then
      some (.v6 (BitVec.ofNat 128 (wordAt packet offset6 16)))
    else none

def ipSrc (packet : List UInt8) : Option IpAddr := ipAt packet 12 8

def ipDst (packet : List UInt8) : Option IpAddr := ipAt packet 16 24

inductive Action where
  | tun
  | relay (next : SocketAddr)
  | bounce
deriving DecidableEq

namespace LearnState

/-- A decrypted inner packet; `none` is a payload too small to carry an IP header. -/
def routePacket (st : LearnState) (peer : SocketAddr) (plaintext : List UInt8) (env : Env) :
    LearnState × Option Action :=
  if plaintext.length < 20 then (st, none)
  else
    let st := match ipSrc plaintext with
      | some src =>
        { st with learned := maybeLearn st.learned st.assigner src peer (env.clock 0) }
      | none => st
    match (ipDst plaintext).bind fun dst => st.learned.lookup dst env.now st.leaseTtl with
    | some next => (st, some (if next ≠ peer then .relay next else .bounce))
    | none => (st, some .tun)

/-- One tick of the sweeper. -/
def sweep (st : LearnState) (env : Env) : LearnState × EventOut :=
  let subnets := (st.learned.subnets.expire st.leaseTtl env.now).1
  let names := (st.names.expire env.names st.leaseTtl env.now).1
  let learned := { st.learned with subnets := subnets }.expireClients st.leaseTtl env.now
  let r := st.assigner.reap env.io env.systemNow
  let u := unlearnDropped learned names r.2.dropped env.now st.leaseTtl
  ({ st with learned := u.1, assigner := r.1, names := u.2 }, ⟨none, r.2.dropped, r.2.wrote⟩)

/-! The server as a system. -/

inductive Event where
  | control (peer : SocketAddr) (payload : List UInt8) (env : Env)
  | packet (peer : SocketAddr) (plaintext : List UInt8) (env : Env)
  | sweep (env : Env)

def step (P : Platform) (approval : RouteApproval) (st : LearnState) :
    Event → Except Panic (LearnState × EventOut)
  | .control peer payload env => st.handleControl P approval peer payload env
  | .packet peer plaintext env => .ok ((st.routePacket peer plaintext env).1, .plain none)
  | .sweep env => .ok (st.sweep env)

/-- The state in which `run` starts serving. -/
def start (assigner : Assigner) (hostname : Text) (leaseTtl : Duration) : LearnState :=
  ⟨.empty, assigner,
    .withServer hostname assigner.serverIp (assigner.serverIp6.map Lib.Cidr.ip), leaseTtl⟩

/-- Every state of a server that was started from some lease file, with a server prefix
if any restored lease carries an IPv6 address. -/
def Reachable (P : Platform) (approval : RouteApproval) (st : LearnState) : Prop :=
  ∃ args clock now io disk started range hostname leaseTtl es,
    Assigner.new args clock now io disk = .ok started ∧
    (∀ n l, started.assigner.byNode.get n = some l → l.ip6.isSome → args.serverIp6.isSome) ∧
    Run (step P approval) (start (started.assigner.configured range) hostname leaseTtl) es st

/-- A server with these settings, started from some lease file, that went through `es`. -/
def Serves (P : Platform) (approval : RouteApproval) (args : Assigner.Args)
    (es : List (Entry LearnState Event EventOut)) (st : LearnState) : Prop :=
  ∃ clock now io disk started range hostname leaseTtl,
    Assigner.new args clock now io disk = .ok started ∧
    Run (step P approval) (start (started.assigner.configured range) hostname leaseTtl) es st

end LearnState

end ShadowVpn
