import Mathlib.Init

/-! Address blocks of a fixed width: an address with a number of leading network
bits, as CIDR notation reads them. -/

namespace Lib

structure Cidr (w : Nat) where
  ip : BitVec w
  prefixLen : UInt8
  len_le : prefixLen.toNat ≤ w
deriving DecidableEq

namespace Cidr

variable {w : Nat}

/-- The block of an address and a length, unless the length exceeds the width. -/
def new (ip : BitVec w) (len : UInt8) : Option (Cidr w) :=
  if h : len.toNat ≤ w then some ⟨ip, len, h⟩ else none

/-- The block of an address and a mask of leading ones. -/
def withMask (ip mask : BitVec w) : Option (Cidr w) :=
  ((List.range (w + 1)).find? fun len => BitVec.allOnes w <<< (w - len) = mask).bind fun len =>
    new ip (UInt8.ofNat len)

def mask (n : Cidr w) : BitVec w := BitVec.allOnes w <<< (w - n.prefixLen.toNat)

/-- The lowest address of the block. -/
def network (n : Cidr w) : BitVec w := n.ip &&& n.mask

def contains (n : Cidr w) (a : BitVec w) : Bool := a &&& n.mask == n.network

/-- The same block, written with its host bits cleared. -/
def canonical (n : Cidr w) : Cidr w := { n with ip := n.network }

theorem network_canonical (n : Cidr w) : n.canonical.network = n.network := by
  show n.ip &&& n.mask &&& n.mask = n.ip &&& n.mask
  rw [BitVec.and_assoc, BitVec.and_self]

@[simp] theorem canonical_canonical (n : Cidr w) : n.canonical.canonical = n.canonical := by
  show { n.canonical with ip := n.canonical.network } = n.canonical
  rw [network_canonical]
  rfl

/-- The mask of a longer block has the ones of a shorter one. -/
theorem mask_and_mask {m n : Cidr w} (h : m.prefixLen.toNat ≤ n.prefixLen.toNat) :
    n.mask &&& m.mask = m.mask := by
  apply BitVec.eq_of_getLsbD_eq
  intro i hi
  simp only [mask, BitVec.getLsbD_and, BitVec.getLsbD_shiftLeft, BitVec.getLsbD_allOnes]
  have hn := n.len_le
  by_cases hm : i < w - m.prefixLen.toNat
  · simp [hm]
  · have hlt : ¬ i < w - n.prefixLen.toNat := by omega
    have hsub : i - (w - n.prefixLen.toNat) < w := by omega
    simp [hi, hlt, hsub]

/-- A block without host bits is its lowest address and its length. -/
theorem eq_of_network {m n : Cidr w} (hm : m.canonical = m) (hn : n.canonical = n)
    (hlen : m.prefixLen = n.prefixLen) (hnet : m.network = n.network) : m = n := by
  have hip : m.ip = n.ip := by
    calc m.ip = m.network := (congrArg ip hm).symm
      _ = n.network := hnet
      _ = n.ip := congrArg ip hn
  obtain ⟨ip, len, hle⟩ := m
  obtain ⟨ip', len', hle'⟩ := n
  obtain rfl : ip = ip' := hip
  obtain rfl : len = len' := hlen
  rfl

/-- Blocks of one length either coincide or share no address. -/
theorem eq_of_contains {m n : Cidr w} (hm : m.canonical = m) (hn : n.canonical = n)
    (hlen : m.prefixLen = n.prefixLen) {a : BitVec w} (ha : m.contains a = true)
    (hb : n.contains a = true) : m = n := by
  have hmask : m.mask = n.mask := by rw [mask, mask, hlen]
  have hnet : m.network = n.network := by
    rw [← eq_of_beq ha, ← eq_of_beq hb, hmask]
  exact eq_of_network hm hn hlen hnet

end Cidr

end Lib
