import ShadowVpn.Lib.Cidr
import Mathlib

/-! Machine values shared by every part of the model: addresses, clocks, text, and
the ways in which the process can die. -/

namespace ShadowVpn

/-- Why a thread stops. A panic ends the server: release builds abort, and in
others the routing lock is poisoned and every later `lock().unwrap()` fails. -/
inductive Panic where
  | overflow
  | divisionByZero
  | charBoundary
  | outOfBounds
  | expectFailed
deriving DecidableEq

/-! Addresses. `u32::from` and `Ipv4Addr::from` are the identity here. -/

abbrev Ipv4Addr := BitVec 32
abbrev Ipv6Addr := BitVec 128
abbrev Ipv4Network := Lib.Cidr 32
abbrev Ipv6Network := Lib.Cidr 128

def UNSPECIFIED : Ipv4Addr := 0

inductive IpAddr where
  | v4 (ip : Ipv4Addr)
  | v6 (ip : Ipv6Addr)
deriving DecidableEq

inductive IpNetwork where
  | v4 (net : Ipv4Network)
  | v6 (net : Ipv6Network)
deriving DecidableEq

inductive SocketAddr where
  | v4 (ip : Ipv4Addr) (port : UInt16)
  | v6 (ip : Ipv6Addr) (port : UInt16) (flowinfo scopeId : UInt32)
deriving DecidableEq

/-- Persisted 16-byte node identity. -/
structure NodeId where
  bytes : List UInt8
  len : bytes.length = 16
deriving DecidableEq

/-! Clocks, in nanoseconds. -/

abbrev Duration := ℕ
abbrev Instant := ℕ

def NANOS_PER_SEC : ℕ := 1000000000

def Duration.fromSecs (secs : ℕ) : Duration := secs * NANOS_PER_SEC

def Duration.asSecs (d : Duration) : ℕ := d / NANOS_PER_SEC

/-- `Instant::saturating_duration_since`. -/
def Instant.saturatingDurationSince (now earlier : Instant) : Duration := now - earlier

/-- Instants end here: the platform keeps the whole seconds in a signed 64-bit word. -/
def INSTANT_END : ℕ := 2 ^ 63 * NANOS_PER_SEC

/-- `Instant + Duration`, which panics past the last instant. -/
def Instant.add (t : Instant) (d : Duration) : Except Panic Instant :=
  if INSTANT_END ≤ t + d then .error .expectFailed else .ok (t + d)

/-- Wall-clock time as nanoseconds from the epoch; the platform keeps the whole
seconds in a signed 64-bit word. -/
structure SystemTime where
  nanos : ℤ
  lower : -(2 ^ 63 * 1000000000) ≤ nanos
  upper : nanos < 2 ^ 63 * 1000000000
deriving DecidableEq

namespace SystemTime

def UNIX_EPOCH : SystemTime := ⟨0, by decide, by decide⟩

/-- `None` is `Err`: `earlier` lies after `t`. -/
def durationSince (t earlier : SystemTime) : Option Duration :=
  if earlier.nanos ≤ t.nanos then some (t.nanos - earlier.nanos).toNat else none

def checkedAdd (t : SystemTime) (d : Duration) : Option SystemTime :=
  if h : t.nanos + d < 2 ^ 63 * 1000000000 then
    some ⟨t.nanos + d, by have := t.lower; omega, h⟩
  else none

end SystemTime

/-! Text. A string is its list of scalar values, and byte offsets are counted. -/

abbrev Text := List Char

/-- `str::len`. -/
def byteLen (s : Text) : ℕ := (s.map Char.utf8Size).sum

/-- Split after exactly `n` bytes, if a character ends there. -/
def splitBytes : ℕ → Text → Option (Text × Text)
  | 0, s => some ([], s)
  | _ + 1, [] => none
  | n + 1, c :: s =>
    if c.utf8Size ≤ n + 1 then (splitBytes (n + 1 - c.utf8Size) s).map fun p => (c :: p.1, p.2)
    else none
termination_by structural _ s => s

/-- `&s[i..j]`, which panics unless both ends fall between characters. -/
def slice (s : Text) (i j : ℕ) : Except Panic Text :=
  match splitBytes i s with
  | none => .error .charBoundary
  | some (_, rest) =>
    match splitBytes (j - i) rest with
    | none => .error .charBoundary
    | some (mid, _) => .ok mid

/-- What the model takes from outside the repository: the SHA-256 digest, the
`ipnetwork` supernet tests, and whether the build traps integer overflow. -/
structure Platform where
  sha256 : NodeId → { d : List UInt8 // d.length = 32 }
  isSupernetOf4 : Ipv4Network → Ipv4Network → Bool
  isSupernetOf6 : Ipv6Network → Ipv6Network → Bool
  overflowChecks : Bool

/-- `a + b` on `u32`. -/
def Platform.addU32 (P : Platform) (a b : BitVec 32) : Except Panic (BitVec 32) :=
  if a.toNat + b.toNat < 2 ^ 32 ∨ P.overflowChecks = false then .ok (a + b)
  else .error .overflow

/-- `a - b` on `usize`. -/
def Platform.subUsize (P : Platform) (a b : ℕ) : Except Panic ℕ :=
  if b ≤ a then .ok (a - b)
  else if P.overflowChecks then .error .overflow
  else .ok ((a + 2 ^ 64 - b) % 2 ^ 64)

end ShadowVpn
