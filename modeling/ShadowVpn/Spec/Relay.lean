import ShadowVpn.Lib.Pipeline
import ShadowVpn.Spec.Config
import ShadowVpn.Spec.Obfs

/-! The server's relay in both modes (`bin/server.rs`): what becomes of a datagram from the wire
and of a packet from the device, and the five tasks that share the routing state. -/

namespace ShadowVpn

open Lib

def CHANNEL_DEPTH : ℕ := 1024

/-- What an event reads from outside, with the order in which a pool is walked. -/
structure RelayEnv extends Env where
  leases : IterOrder Ipv4Addr Instant

def natModeAssign : Assign :=
  ⟨.natMode, UNSPECIFIED, UNSPECIFIED, UNSPECIFIED, none, 0, 0, 0⟩

/-- Only what a server says is encoded. -/
def encodeControl : Control → List UInt8
  | .routePush push => push.encode
  | .assign reply => reply.encode
  | .peerPush push => push.encode
  | .keepalive _ => []
  | .routeAdvert _ => []
  | .assignReq _ => []
  | .nameAdvert _ => []

/-- What a processor does after it has let go of the lock. -/
inductive Emit where
  | tun (packet : Bytes)
  | send (peer : SocketAddr) (payload : Bytes)
deriving DecidableEq

namespace Routing

def handleControl (P : Platform) (approval : RouteApproval) (r : Routing) (peer : SocketAddr)
    (payload : Bytes) (env : RelayEnv) : Except Panic (Routing × Option Control) :=
  match r with
  | .learn st => do
    let (st, out) ← st.handleControl P approval peer payload env.toEnv
    return (.learn st, out.reply)
  | .nat s =>
    match parseControl payload with
    | none => .ok (.nat s, none)
    | some (.assignReq _) => .ok (.nat (s.touch peer env.now), some (.assign natModeAssign))
    | some _ => .ok (.nat (s.touch peer env.now), none)

def route (r : Routing) (peer : SocketAddr) (plaintext : Bytes) (env : RelayEnv) :
    Routing × Option Emit :=
  match r with
  | .learn st =>
    let (st, action) := st.routePacket peer plaintext env.toEnv
    (.learn st, action.bind fun action =>
      match action with
      | .tun => some (.tun plaintext)
      | .relay next => some (.send next plaintext)
      | .bounce => none)
  | .nat s =>
    let (s, packet, result) := s.ingress peer plaintext env.now
    (.nat s,
      match result with
      | .rewritten _ => some (.tun packet)
      | .exhausted => none
      | .invalid => none)

/-- The loop of `udp_to_tun` for a datagram that was opened. -/
def receive (P : Platform) (approval : RouteApproval) (r : Routing) (peer : SocketAddr)
    (plaintext : Bytes) (env : RelayEnv) : Except Panic (Routing × Option Emit) :=
  if isControl plaintext then do
    let (r, reply) ← r.handleControl P approval peer plaintext env
    return (r, reply.map fun reply => .send peer (encodeControl reply))
  else if plaintext.length < 20 then .ok (r, none)
  else .ok (r.route peer plaintext env)

/-- The loop of `tun_to_udp`. -/
def resolve (r : Routing) (packet : Bytes) (env : RelayEnv) : Routing × Option Emit :=
  match r with
  | .learn st =>
    (.learn st, ((ipDst packet).bind fun dst => st.learned.lookup dst env.now st.leaseTtl).map
      fun peer => .send peer packet)
  | .nat s =>
    let (s, packet, peer) := s.egress packet env.now
    (.nat s, peer.map fun peer => .send peer packet)

def sweep (r : Routing) (env : RelayEnv) : Routing :=
  match r with
  | .learn st => .learn (st.sweep env.toEnv).1
  | .nat s => .nat (s.reap env.leases env.now).1

end Routing

def Opens (L : Primitives) (P : Platform) (cipher : Cipher) (masterKey : Bytes)
    (o : Option Obfuscator) (pkt payload : Bytes) : Prop :=
  receivePacket L P cipher masterKey o pkt = .ok (.packet payload)

/-! The tasks. -/

inductive Loop where
  | udpToTun
  | tunToUdp
deriving DecidableEq

inductive Job where
  | datagram (peer : SocketAddr) (pkt : Bytes)
  | packet (pkt : Bytes)
deriving DecidableEq

/-- A socket gives datagrams, a device packets. -/
def Loop.reads : Loop → Job → Option Job
  | .udpToTun, .datagram peer pkt => some (.datagram peer pkt)
  | .tunToUdp, .packet pkt => some (.packet pkt)
  | _, _ => none

section

variable (L : Primitives) (P : Platform) (cfg : ServerConfig) (o : Option Obfuscator)

/-- What a processor makes of a job. Taking a disguise off reads nothing that putting one on
changes, so `o` stands for the obfuscator of the whole run. -/
def Routing.work (r : Routing) (job : Job) (env : RelayEnv) :
    Except Panic (Routing × Option Emit) :=
  match job with
  | .datagram peer pkt => do
    match ← receivePacket L P cfg.cipher cfg.masterKey o pkt with
    | .notObfs => return (r, none)
    | .undecryptable _ => return (r, none)
    | .packet plaintext => r.receive P cfg.routeApproval peer plaintext env
  | .packet pkt => .ok (r.resolve pkt env)

def serverTasks : Pipeline Loop Job Routing RelayEnv RelayEnv Emit Panic where
  reads loop _ job := loop.reads job
  work := Routing.work L P cfg o
  other r env := .ok (r.sweep env, [])
  depth := CHANNEL_DEPTH

abbrev Routing.Input := Pipeline.Input Loop Job RelayEnv RelayEnv

def Routing.step (r : Routing) (input : Routing.Input) : Except Panic (Routing × List Emit) :=
  (serverTasks L P cfg o).serial r input

end

end ShadowVpn
