import ShadowVpn.Lib.HashMap
import ShadowVpn.Spec.Basic

/-! Host ranges of a subnet, and the pool of leased addresses (`pool.rs`). -/

namespace ShadowVpn

open Lib

def saturatingAdd (a b : BitVec 32) : BitVec 32 :=
  if a.toNat + b.toNat < 2 ^ 32 then a + b else BitVec.allOnes 32

def saturatingSub (a b : BitVec 32) : BitVec 32 := if b ≤ a then a - b else 0

/-- Inclusive range of subnet hosts, network and broadcast excluded. -/
def hostRange (addr netmask : Ipv4Addr) : BitVec 32 × BitVec 32 :=
  let network := addr &&& netmask
  let broadcast := network ||| ~~~netmask
  (saturatingAdd network 1, saturatingSub broadcast 1)

/-- A pool of assignable addresses; a binding in `leases` says when it was last seen. -/
structure LeasePool where
  start : BitVec 32
  end_ : BitVec 32
  serverIp : BitVec 32
  ttl : Duration
  leases : HashMap Ipv4Addr Instant
  cursor : BitVec 32

namespace LeasePool

def new (serverIp netmask : Ipv4Addr) (ttl : Duration) : LeasePool where
  start := (hostRange serverIp netmask).1
  end_ := (hostRange serverIp netmask).2
  serverIp := serverIp
  ttl := ttl
  leases := ∅
  cursor := (hostRange serverIp netmask).1

/-- `end - start + 1` on `u32`, for a range that is not empty. -/
def span (p : LeasePool) : ℕ := (p.end_ - p.start + 1).toNat

def capacity (p : LeasePool) : ℕ :=
  if p.end_ < p.start then 0
  else if p.start ≤ p.serverIp ∧ p.serverIp ≤ p.end_ then p.span - 1
  else p.span

/-- Where the cursor moves from `cand`. -/
def next (p : LeasePool) (cand : BitVec 32) : BitVec 32 :=
  if cand ≥ p.end_ then p.start else cand + 1

/-- The loop of `allocate`, with the iterations that are left. -/
def allocateLoop (now : Instant) : ℕ → LeasePool → LeasePool × Option Ipv4Addr
  | 0, p => (p, none)
  | n + 1, p =>
    let cand := p.cursor
    let p := { p with cursor := p.next cand }
    if cand = p.serverIp ∨ (p.leases.get cand).isSome then allocateLoop now n p
    else ({ p with leases := p.leases.insert cand now }, some cand)

def allocate (p : LeasePool) (now : Instant) : LeasePool × Option Ipv4Addr :=
  if p.end_ < p.start then (p, none) else allocateLoop now p.span p

def refresh (p : LeasePool) (ip : Ipv4Addr) (now : Instant) : LeasePool × Bool :=
  match p.leases.get ip with
  | some _ => ({ p with leases := p.leases.insert ip now }, true)
  | none => (p, false)

def isLeased (p : LeasePool) (ip : Ipv4Addr) : Bool := (p.leases.get ip).isSome

/-- Reclaim every lease idle longer than the TTL. -/
def reap (p : LeasePool) (order : IterOrder Ipv4Addr Instant) (now : Instant) :
    LeasePool × List Ipv4Addr :=
  let expired := ((order.iter p.leases).filter fun e =>
    decide (Instant.saturatingDurationSince now e.2 > p.ttl)).map Sigma.fst
  ({ p with leases := expired.foldl (fun m ip => m.erase ip) p.leases }, expired)

end LeasePool

/-! Calls on a pool. -/

inductive PoolCall where
  | allocate (now : Instant)
  | refresh (ip : Ipv4Addr) (now : Instant)
  | reap (order : IterOrder Ipv4Addr Instant) (now : Instant)

inductive PoolOut where
  | allocated (ip : Option Ipv4Addr)
  | refreshed (known : Bool)
  | reaped (ips : List Ipv4Addr)

def LeasePool.step (p : LeasePool) : PoolCall → Except Panic (LeasePool × PoolOut)
  | .allocate now => .ok ((p.allocate now).1, .allocated (p.allocate now).2)
  | .refresh ip now => .ok ((p.refresh ip now).1, .refreshed (p.refresh ip now).2)
  | .reap order now => .ok ((p.reap order now).1, .reaped (p.reap order now).2)

end ShadowVpn
