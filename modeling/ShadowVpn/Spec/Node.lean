import ShadowVpn.Spec.Client
import ShadowVpn.Spec.Intercept
import ShadowVpn.Spec.Relay

/-! The client as a whole (`bin/client.rs`): its two relay loops, the loop of `run` with its
timers, and everything that they send to the server or write to the device. -/

namespace ShadowVpn

open Lib

def SocketAddr.ip : SocketAddr → IpAddr
  | .v4 ip _ => .v4 ip
  | .v6 ip _ _ _ => .v6 ip

/-- The room for replies on their way to `run`. -/
def ASSIGN_DEPTH : ℕ := 8

def keepalivePayload (tunIp : Ipv4Addr) : Bytes := 0 :: octets4 tunIp

namespace ClientConfig

def assignReq (cfg : ClientConfig) (nodeId : NodeId) : AssignReq :=
  ⟨if cfg.wantIp6 then FLAG_WANT_IP6 else 0, nodeId, cfg.tun.ip, cfg.tun.ip6.map Cidr.ip⟩

def assignRequest (cfg : ClientConfig) (nodeId : NodeId) : Bytes := (cfg.assignReq nodeId).encode

def staticTickPayloads (cfg : ClientConfig) : List Bytes :=
  (if cfg.meshActive then [cfg.routeAdvert.encode] else []) ++
    if cfg.magicDns then [cfg.nameAdvert.encode] else []

def autoTickPayloads (cfg : ClientConfig) (nodeId : NodeId) : List Bytes :=
  cfg.assignRequest nodeId ::
    ((if cfg.meshActive then [cfg.routeAdvert.encode] else []) ++
      if cfg.magicDns then [cfg.nameAdvert.encode] else [])

/-- What a static client sends on each tick. -/
def periodic (cfg : ClientConfig) : List Bytes :=
  if cfg.staticTickPayloads.isEmpty then [keepalivePayload cfg.tun.ip] else cfg.staticTickPayloads

end ClientConfig

/-- The adverts of `handle_assign_reply` on the wire. -/
def encodeAdvert : Control → Bytes
  | .routeAdvert advert => advert.encode
  | .nameAdvert advert => advert.encode
  | _ => []

inductive ClientFault where
  | panic (p : Panic)
  | error (e : ClientError)
deriving DecidableEq

/-- What `run` shares with its tasks: the channel of replies, the peers, and the queries that the
resolver has not answered yet. -/
structure ClientNode where
  run : ClientRun
  peers : PeerTable
  assigns : List Assign
  asking : List DnsQuery

/-- What a processor meets outside: the ports of the resolver's own queries, and the kernel. -/
structure ClientEnv where
  owned : UInt16 → Bool
  kernel : RouteCall → Bool
  order : IterOrder IpNetwork Unit

/-- The other things that happen: `run` takes a reply, the timers, an answer of the resolver. -/
inductive ClientTick where
  | reply (o : Outside)
  | retry (late : Bool)
  | keep
  | periodic
  | answer (query : DnsQuery) (response : Option Bytes)
  | resolved (kernel : RouteCall → Bool) (ip : Ipv4Addr)

inductive ClientLoop where
  | tunToNet
  | netToTun
deriving DecidableEq

/-- Who a client is and where its server is. -/
structure ClientSite where
  nodeId : NodeId
  server : SocketAddr
  directSrc : IpAddr

def ClientFault.ofPanic {α : Type} : Except Panic α → Except ClientFault α
  | .ok a => .ok a
  | .error p => .error (.panic p)

def ClientFault.ofError {α : Type} : Except ClientError α → Except ClientFault α
  | .ok a => .ok a
  | .error e => .error (.error e)

def displayIp4 (ip : Ipv4Addr) : String :=
  ".".intercalate ((octets4 ip).map fun b => toString b.toNat)

/-- `run` before its loop, without an assignment to wait for. -/
def ClientRun.startStatic (serverIp directSrc : IpAddr) (o : Outside) (cfg : ClientConfig) :
    Except ClientError ClientRun :=
  let s : ClientRun := ⟨cfg, none, none, none, none, ∅, none, true, true, false, false, false⟩
  if !o.creates then
    .error ⟨"failed to create TUN device (need root/elevated privileges); requested ip=" ++
      displayIp4 cfg.tun.ip ++ " peer=" ++ displayIp4 cfg.tun.peerIp ++ " mtu=" ++
      toString cfg.tun.mtu.toNat⟩
  else if cfg.tun.ip = UNSPECIFIED then .ok s
  else do
    let s ← s.startPolicyAndInstaller serverIp directSrc o
    return s.hint

namespace ClientNode

section

variable (site : ClientSite)

def start (o : Outside) (cfg : ClientConfig) (last : Option LastAssign) :
    Except ClientError ClientNode := do
  let run ← if cfg.autoTun then ClientRun.start site.server.ip site.directSrc o cfg last
    else ClientRun.startStatic site.server.ip site.directSrc o cfg
  return ⟨run, PeerTable.new, [], []⟩

/-! The loops. -/

/-- `tun_to_net`, which keeps the queries that it takes from their way. -/
def forward (s : ClientNode) (pkt : Bytes) (env : ClientEnv) :
    Except ClientFault (ClientNode × Option Emit) := do
  match ← ClientFault.ofPanic (classify pkt).run with
  | some query =>
    if s.run.dnsSlot.isSome && !env.owned query.srcPort then
      return ({ s with asking := s.asking ++ [query] }, none)
    else return (s, some (.send site.server pkt))
  | none => return (s, some (.send site.server pkt))

/-- A control message of the server. -/
def handleControl (s : ClientNode) (payload : Bytes) (env : ClientEnv) :
    Except ClientFault ClientNode :=
  match parseControl payload with
  | some (.routePush push) => do
    let (run, _) ← ClientFault.ofError
      (s.run.step site.server.ip site.directSrc (.push env.kernel env.order push.routes))
    return { s with run := run }
  | some (.assign reply) =>
    .ok (if s.run.cfg.autoTun && s.assigns.length < ASSIGN_DEPTH then
      { s with assigns := s.assigns ++ [reply] } else s)
  | some (.peerPush push) =>
    .ok { s with peers := PeerTable.replace push.peers s.run.cfg.magicDnsSuffix }
  | _ => .ok s

/-- `net_to_tun` for a datagram that was opened. -/
def receive (s : ClientNode) (plaintext : Bytes) (env : ClientEnv) :
    Except ClientFault (ClientNode × Option Emit) :=
  if isControl plaintext then do
    let s ← s.handleControl site plaintext env
    return (s, none)
  else if plaintext.length < 20 then .ok (s, none)
  else .ok (s, some (.tun plaintext))

/-- One turn of the loop of `run`, or of a task that it has started. -/
def tick (P : Platform) (s : ClientNode) : ClientTick → Except ClientFault (ClientNode × List Emit)
  | .reply o =>
    match s.assigns with
    | [] => .ok (s, [])
    | reply :: rest => do
      let (run, adverts) ← ClientFault.ofError
        (s.run.step site.server.ip site.directSrc (.reply o reply))
      return ({ s with run := run, assigns := rest },
        adverts.map fun advert => .send site.server (encodeAdvert advert))
  | .retry late =>
    if s.run.assignRetry && !s.run.gotOk then
      if late then
        .error (.error
          ⟨"server did not assign an IP; set a static tun_ip or upgrade the server"⟩)
      else .ok (s, [.send site.server (s.run.cfg.assignRequest site.nodeId)])
    else .ok (s, [])
  | .keep =>
    .ok (s, if s.run.keepTick then
      (s.run.cfg.autoTickPayloads site.nodeId).map (.send site.server ·) else [])
  | .periodic =>
    .ok (s, if s.run.cfg.autoTun then [] else s.run.cfg.periodic.map (.send site.server ·))
  | .answer query response =>
    if query ∈ s.asking then do
      let s := { s with asking := s.asking.erase query }
      match response with
      | some response =>
        let reply ← ClientFault.ofPanic (buildReply P query response)
        return (s, [.tun reply])
      | none => return (s, [])
    else .ok (s, [])
  | .resolved kernel ip => do
    let (run, _) ← ClientFault.ofError
      (s.run.step site.server.ip site.directSrc (.resolved kernel ip))
    return ({ s with run := run }, [])

end

/-- The device gives packets, of which none is taken before there is an address; the socket, which
is connected, gives datagrams of the server. -/
def reads (site : ClientSite) (loop : ClientLoop) (s : ClientNode) (job : Job) : Option Job :=
  match loop, job with
  | .tunToNet, .packet pkt => if pkt.isEmpty || !s.run.assignedOk then none else some (.packet pkt)
  | .netToTun, .datagram peer pkt => if peer = site.server then some (.datagram peer pkt) else none
  | _, _ => none

section

variable (L : Primitives) (P : Platform) (site : ClientSite) (cfg : ClientConfig)
  (o : Option Obfuscator)

def work (s : ClientNode) (job : Job) (env : ClientEnv) :
    Except ClientFault (ClientNode × Option Emit) :=
  match job with
  | .packet pkt => s.forward site pkt env
  | .datagram _ pkt => do
    match ← ClientFault.ofPanic (receivePacket L P cfg.cipher cfg.masterKey o pkt) with
    | .notObfs => return (s, none)
    | .undecryptable _ => return (s, none)
    | .packet plaintext => s.receive site plaintext env

/-- `run` once it is in its loop. -/
def tasks : Pipeline ClientLoop Job ClientNode ClientEnv ClientTick Emit ClientFault where
  reads := reads site
  work := work L P site cfg o
  other := tick site P
  depth := CHANNEL_DEPTH

abbrev Input := Pipeline.Input ClientLoop Job ClientEnv ClientTick

def step (s : ClientNode) (input : Input) : Except ClientFault (ClientNode × List Emit) :=
  (tasks L P site cfg o).serial s input

end

end ClientNode

end ShadowVpn
