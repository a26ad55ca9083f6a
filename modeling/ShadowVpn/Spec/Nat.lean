import ShadowVpn.Lib.Checksum
import ShadowVpn.Lib.Run
import ShadowVpn.Spec.Pool
import ShadowVpn.Spec.Server
import ShadowVpn.Spec.Wire

/-! Address translation for clients that share one placeholder address (`nat.rs`): the
sessions, and the rewriting of a packet with its checksums. -/

namespace ShadowVpn

open Lib

/-! Packets. -/

def SRC_OFFSET : ℕ := 12

def DST_OFFSET : ℕ := 16

/-- The length of the header in bytes, as its first byte gives it. -/
def ihl (pkt : Bytes) : ℕ := (pkt.getD 0 0 &&& 0x0F).toNat * 4

def addrAt (pkt : Bytes) (off : ℕ) : Option Ipv4Addr :=
  if pkt.length < 20 ∨ pkt.getD 0 0 >>> 4 ≠ 4 then none
  else if ihl pkt < 20 ∨ ihl pkt > pkt.length then none
  else some (BitVec.ofNat 32 (wordAt pkt off 4))

def parseSrc (pkt : Bytes) : Option Ipv4Addr := addrAt pkt SRC_OFFSET

def parseDst (pkt : Bytes) : Option Ipv4Addr := addrAt pkt DST_OFFSET

/-- The loop of `adjust_checksum` over the words of the two fields; the sum stays far
below the 32 bits it has. -/
def adjustSum : ℕ → Bytes → Bytes → ℕ
  | sum, a :: b :: old, c :: d :: new =>
    adjustSum (sum + (0xFFFF - ofBE [a, b]) + ofBE [c, d]) old new
  | sum, _, _ => sum

/-- `HC' = ~(~HC + ~m + m')`. -/
def adjustChecksum (check : ℕ) (old new : Bytes) : ℕ :=
  0xFFFF - foldCarry (adjustSum (0xFFFF - check) old new)

/-- Adjust the checksum that stands at `pos`. -/
def adjustAt (pkt : Bytes) (pos : ℕ) (old new : Bytes) : Bytes :=
  splice pkt pos (toBE 2 (adjustChecksum (wordAt pkt pos 2) old new))

/-- Called only on packets that `addr_at` accepts, where every offset is in range. -/
def rewriteAddr (pkt : Bytes) (off : ℕ) (new : Ipv4Addr) : Bytes :=
  let old := (pkt.drop off).take 4
  let new := octets4 new
  let pkt := adjustAt pkt 10 old new
  let ihl := ihl pkt
  let fragOff := wordAt pkt 6 2 &&& 0x1FFF ≠ 0
  let pkt :=
    if fragOff then pkt
    -- TCP
    else if pkt.getD 9 0 = 6 ∧ pkt.length ≥ ihl + 18 then adjustAt pkt (ihl + 16) old new
    -- UDP, where a checksum of zero stands for none
    else if pkt.getD 9 0 = 17 ∧ pkt.length ≥ ihl + 8 then
      if wordAt pkt (ihl + 6) 2 ≠ 0 then adjustAt pkt (ihl + 6) old new else pkt
    else pkt
  splice pkt off new

/-! Sessions. -/

structure Session where
  internal : Ipv4Addr
  clientIp : Ipv4Addr
deriving DecidableEq

/-- `Nat`. -/
structure NatState where
  pool : LeasePool
  byPeer : HashMap SocketAddr Session
  byInternal : HashMap Ipv4Addr SocketAddr

inductive Ingress where
  | rewritten (internal : Ipv4Addr)
  | exhausted
  | invalid
deriving DecidableEq

namespace NatState

def new (serverIp netmask : Ipv4Addr) (ttl : Duration) : NatState :=
  ⟨LeasePool.new serverIp netmask ttl, ∅, ∅⟩

def ingress (s : NatState) (peer : SocketAddr) (pkt : Bytes) (now : Instant) :
    NatState × Bytes × Ingress :=
  match parseSrc pkt with
  | none => (s, pkt, .invalid)
  | some src =>
    match s.byPeer.get peer with
    | some session =>
      ({ s with pool := (s.pool.refresh session.internal now).1 },
        rewriteAddr pkt SRC_OFFSET session.internal, .rewritten session.internal)
    | none =>
      match s.pool.allocate now with
      | (pool, none) => ({ s with pool := pool }, pkt, .exhausted)
      | (pool, some internal) =>
        (⟨pool, s.byPeer.insert peer ⟨internal, src⟩, s.byInternal.insert internal peer⟩,
          rewriteAddr pkt SRC_OFFSET internal, .rewritten internal)

def touch (s : NatState) (peer : SocketAddr) (now : Instant) : NatState :=
  match s.byPeer.get peer with
  | some session => { s with pool := (s.pool.refresh session.internal now).1 }
  | none => s

def egress (s : NatState) (pkt : Bytes) (now : Instant) : NatState × Bytes × Option SocketAddr :=
  match parseDst pkt with
  | none => (s, pkt, none)
  | some dst =>
    match s.byInternal.get dst with
    | none => (s, pkt, none)
    | some peer =>
      match s.byPeer.get peer with
      | none => (s, pkt, none)
      | some session =>
        ({ s with pool := (s.pool.refresh dst now).1 },
          rewriteAddr pkt DST_OFFSET session.clientIp, some peer)

/-- The body of the loop in `reap`. -/
def dropSession (s : NatState) (ip : Ipv4Addr) : NatState :=
  match s.byInternal.get ip with
  | some peer => { s with byInternal := s.byInternal.erase ip, byPeer := s.byPeer.erase peer }
  | none => s

def reap (s : NatState) (order : IterOrder Ipv4Addr Instant) (now : Instant) : NatState × ℕ :=
  let r := s.pool.reap order now
  (r.2.foldl dropSession { s with pool := r.1 }, r.2.length)

/-! The translator as a system. -/

inductive Event where
  | ingress (peer : SocketAddr) (pkt : Bytes) (now : Instant)
  | touch (peer : SocketAddr) (now : Instant)
  | egress (pkt : Bytes) (now : Instant)
  | reap (order : IterOrder Ipv4Addr Instant) (now : Instant)

/-- What a call returns, with the packet as it left it. -/
inductive Out where
  | ingress (result : Ingress) (pkt : Bytes)
  | touch
  | egress (peer : Option SocketAddr) (pkt : Bytes)
  | reap (dropped : ℕ)

/-- No call panics. -/
def step (s : NatState) : Event → Except Panic (NatState × Out)
  | .ingress peer pkt now =>
    let (s', pkt', result) := s.ingress peer pkt now
    .ok (s', .ingress result pkt')
  | .touch peer now => .ok (s.touch peer now, .touch)
  | .egress pkt now =>
    let (s', pkt', peer) := s.egress pkt now
    .ok (s', .egress peer pkt')
  | .reap order now =>
    let (s', dropped) := s.reap order now
    .ok (s', .reap dropped)

end NatState

end ShadowVpn
