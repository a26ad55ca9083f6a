import ShadowVpn.Sanity.Load
import ShadowVpn.Sanity.Pool
import ShadowVpn.Spec.Config

/-! What an accepted configuration is made of, and the ranges of addresses in it. -/

namespace ShadowVpn

open Lib

variable {H : Host} {args : ServerArgs} {cfg : ServerConfig} {ip netmask x : Ipv4Addr}

theorem okOr_eq_ok {α : Type} {e : ConfigError} {o : Option α} {a : α} :
    okOr e o = .ok a ↔ o = some a := by
  cases o <;> simp [okOr]

/-! The check of a pool. -/

/-- The pool lies in the subnet of the interface, whose mask is contiguous. -/
structure Inside (pool : Ipv4Network) (ip netmask : Ipv4Addr) : Prop where
  contiguous : Mask.Contiguous netmask
  mask : pool.mask &&& netmask = netmask
  network : pool.network &&& netmask = ip &&& netmask

theorem tunV4Network_eq_ok {net : Ipv4Network} (h : tunV4Network H ip netmask = .ok net) :
    Mask.Contiguous netmask ∧ net.mask = netmask ∧ net.network = ip &&& netmask := by
  unfold tunV4Network at h
  split_ifs at h with hsum
  have hsum := not_not.1 hsum
  have hm := Mask.contiguous_iff.1 hsum
  have hlen : (UInt8.ofNat (Mask.leadingOnes netmask)).toNat = Mask.leadingOnes netmask :=
    UInt8.toNat_ofNat_of_lt (show Mask.leadingOnes netmask < 256 by omega)
  have hmask : BitVec.allOnes 32 <<< (32 - Mask.leadingOnes netmask) = netmask := by
    rw [show 32 - Mask.leadingOnes netmask = Mask.trailingZeros netmask by omega]
    exact hm.eq_shiftLeft.symm
  rw [Cidr.new, dif_pos (by omega)] at h
  cases h
  have hnet : Cidr.mask ⟨ip &&& netmask, UInt8.ofNat (Mask.leadingOnes netmask), by omega⟩ =
      netmask := by
    rw [Cidr.mask, hlen, hmask]
  refine ⟨hm, hnet, ?_⟩
  rw [Cidr.network, hnet, BitVec.and_assoc, BitVec.and_self]

theorem validateAssignPool_eq_ok {asked : IpNetwork} {net pool : Ipv4Network}
    {reserved : List Ipv4Addr} (h : validateAssignPool H asked net ip reserved = .ok pool) :
    net.prefixLen ≤ pool.prefixLen ∧ net.contains pool.ip = true ∧ pool.canonical = pool ∧
      usableHosts (hostRange pool.network pool.mask).1 (hostRange pool.network pool.mask).2 ip
        reserved ≠ 0 := by
  unfold validateAssignPool at h
  cases asked with
  | v6 n => cases h
  | v4 n =>
    simp only [canonical] at h
    split_ifs at h with hout husable
    obtain ⟨hlen, hin⟩ := not_or.1 hout
    cases h
    exact ⟨UInt8.not_lt.1 hlen, by simpa using hin, Cidr.canonical_canonical n, husable⟩

theorem assignPoolOf_eq_ok {asked : Option IpNetwork} {tun : TunConfig} {reserved : List Ipv4Addr}
    {pool : Option Ipv4Network} (h : assignPoolOf H asked tun reserved = .ok pool) :
    pool.isSome = asked.isSome ∧ ∀ p ∈ pool, Inside p tun.ip tun.netmask := by
  cases asked with
  | none =>
    cases h
    simp
  | some asked =>
    obtain ⟨net, hnet, h⟩ := bind_eq_ok.1 h
    obtain ⟨p, hp, h⟩ := bind_eq_ok.1 h
    cases h
    refine ⟨rfl, ?_⟩
    rintro q ⟨⟩
    obtain ⟨hm, hmask, hnetwork⟩ := tunV4Network_eq_ok hnet
    obtain ⟨hlen, hin, -, -⟩ := validateAssignPool_eq_ok hp
    have hsub : p.mask &&& tun.netmask = tun.netmask := by
      rw [← hmask]
      exact Cidr.mask_and_mask (UInt8.le_iff_toNat_le.1 hlen)
    refine ⟨hm, hsub, ?_⟩
    rw [← hnetwork, ← eq_of_beq hin, hmask, Cidr.network, BitVec.and_assoc, hsub]

/-- The hosts of a block lie between the ends of a wider one. -/
theorem between_of_mask {pool : Ipv4Network} (hmask : pool.mask &&& netmask = netmask)
    (hnetwork : pool.network &&& netmask = ip &&& netmask)
    (hx : (hostRange pool.network pool.mask).1 ≤ x ∧ x ≤ (hostRange pool.network pool.mask).2) :
    ip &&& netmask < x ∧ x < ip &&& netmask ||| ~~~netmask := by
  obtain ⟨hlo, hhi⟩ := mem_hostRange_iff.1 hx
  have hnet : (pool.network &&& pool.mask) &&& netmask = ip &&& netmask := by
    rw [BitVec.and_assoc, hmask, hnetwork]
  have hlast : (pool.network &&& pool.mask ||| ~~~pool.mask) &&& netmask = ip &&& netmask := by
    rw [← hmask, ← BitVec.and_assoc, Mask.last_and, BitVec.and_assoc, hmask, hnetwork]
  have hfirst := BitVec.le_def.1 (Mask.first_le (y := pool.network &&& pool.mask) (m := netmask))
  have hend := BitVec.le_def.1
    (Mask.le_last (y := pool.network &&& pool.mask ||| ~~~pool.mask) (m := netmask))
  rw [hnet] at hfirst
  rw [hlast] at hend
  simp only [BitVec.lt_def] at hlo hhi ⊢
  omega

theorem Inside.between {pool : Ipv4Network} (h : Inside pool ip netmask)
    (hx : (hostRange pool.network pool.mask).1 ≤ x ∧ x ≤ (hostRange pool.network pool.mask).2) :
    ip &&& netmask < x ∧ x < ip &&& netmask ||| ~~~netmask :=
  between_of_mask h.mask h.network hx

/-! The capacity of an assigner. -/

/-- The addresses that an assigner may give out. -/
def Assigner.hosts (s : Assigner) : Finset Ipv4Addr :=
  (addrs s.start s.end_).toFinset.filter fun ip => ip ≠ s.serverIp ∧ ip ∉ s.reserved

theorem Assigner.mem_hosts {s : Assigner} {ip : Ipv4Addr} :
    ip ∈ s.hosts ↔ (s.start ≤ ip ∧ ip ≤ s.end_) ∧ ip ≠ s.serverIp ∧ ip ∉ s.reserved := by
  rw [hosts, Finset.mem_filter, List.mem_toFinset, mem_addrs]

/-- The two kinds of exclusions do not overlap, so the capacity counts each address once. -/
theorem Assigner.capacity_eq (P : Platform) {s : Assigner} (h0 : 0 < s.start.toNat)
    (hse : s.start ≤ s.end_) : s.capacity P = .ok s.hosts.card := by
  set A := (addrs s.start s.end_).toFinset with hA
  set R := s.reserved.filter fun ip => ip ≠ s.serverIp ∧ inRange ip s.start s.end_ with hR
  have hmem : ∀ ip, ip ∈ A ↔ inRange ip s.start s.end_ = true := by
    intro ip
    rw [hA, List.mem_toFinset, mem_addrs]
    simp [inRange]
  have hcard : A.card = s.end_.toNat + 1 - s.start.toNat := by
    rw [hA, List.toFinset_card_of_nodup (nodup_addrs _ _), length_addrs]
  have hend := s.end_.isLt
  have hle := BitVec.le_def.1 hse
  have hone : (1 : BitVec 32).toNat = 1 := rfl
  have hspan : s.span P = .ok (s.end_ - s.start + 1) := by
    rw [Assigner.span, Platform.addU32, if_pos]
    rw [BitVec.toNat_sub_of_le hse, hone]
    omega
  have htoNat : (s.end_ - s.start + 1).toNat = A.card := by
    rw [BitVec.toNat_add, BitVec.toNat_sub_of_le hse, hone, hcard, Nat.mod_eq_of_lt (by omega)]
    omega
  have hserver : (if inRange s.serverIp s.start s.end_ = true then 1 else 0) ≤ A.card := by
    rw [hcard]
    split_ifs <;> omega
  have herase : (A.erase s.serverIp).card =
      A.card - (if inRange s.serverIp s.start s.end_ = true then 1 else 0) := by
    split_ifs with hin
    · exact Finset.card_erase_of_mem ((hmem _).2 hin)
    · rw [Finset.erase_eq_of_notMem fun h => hin ((hmem _).1 h), Nat.sub_zero]
  have hsub : R ⊆ A.erase s.serverIp := by
    intro ip hip
    rw [hR, Finset.mem_filter] at hip
    exact Finset.mem_erase.2 ⟨hip.2.1, (hmem ip).2 hip.2.2⟩
  have hhosts : s.hosts = A.erase s.serverIp \ R := by
    ext ip
    rw [Assigner.mem_hosts, Finset.mem_sdiff, Finset.mem_erase, hmem, hR, Finset.mem_filter]
    simp only [inRange, Bool.and_eq_true, decide_eq_true_eq]
    tauto
  have hrest := Finset.card_le_card hsub
  rw [herase] at hrest
  unfold Assigner.capacity
  rw [if_neg (BitVec.not_lt.2 hse), hspan, hhosts, Finset.card_sdiff_of_subset hsub, herase]
  simp only [bind, Except.bind, Platform.subUsize, htoNat]
  rw [if_pos hserver]
  dsimp only
  rw [if_pos hrest]

/-! A server. -/

/-- What `resolve` leaves of the settings of the interface and of the pool. -/
theorem ServerArgs.resolve_eq_ok (h : args.resolve H = .ok cfg) :
    ∃ file, loadFile H args.config = .ok file ∧
      cfg.tun.netmask = (args.tunNetmask.or file.tunNetmask).getD DEFAULT_NETMASK ∧
      assignPoolOf H (args.assignPool.or file.assignPool) cfg.tun cfg.reservedIps =
        .ok cfg.assignPool := by
  obtain ⟨file, hfile, h⟩ := bind_eq_ok.1 h
  obtain ⟨listen, -, h⟩ := bind_eq_ok.1 h
  obtain ⟨crypto, -, h⟩ := bind_eq_ok.1 h
  obtain ⟨tun, htun, h⟩ := bind_eq_ok.1 h
  dsimp only at h
  split_ifs at h with hnat
  obtain ⟨pool, hpool, h⟩ := bind_eq_ok.1 h
  cases h
  refine ⟨file, hfile, ?_, hpool⟩
  obtain ⟨tunIp, -, htun⟩ := bind_eq_ok.1 htun
  obtain ⟨peerIp, -, htun⟩ := bind_eq_ok.1 htun
  cases htun
  rfl

theorem buildAssigner_range {clock now : SystemTime} {io : Io} {disk : LeaseFile} {s : Assigner}
    (h : buildAssigner cfg clock now io disk = .ok s) :
    (s.start, s.end_) = (cfg.assignPool.map fun pool => hostRange pool.network pool.mask).getD
      (hostRange cfg.tun.ip cfg.tun.netmask) := by
  obtain ⟨started, hnew, h⟩ := bind_eq_ok.1 h
  cases h
  obtain ⟨b, -, hframe⟩ := Assigner.new_restored hnew
  cases cfg.assignPool with
  | some pool => rfl
  | none => exact Prod.ext (congrArg Policy.start hframe.policy) (congrArg Policy.end_ hframe.policy)

theorem routing_range {clock now : SystemTime} {io : Io} {disk : LeaseFile} {routing : Routing}
    (h : cfg.routing clock now io disk = .ok routing) :
    routing.range = hostRange cfg.tun.ip cfg.tun.netmask ∨
      ∃ pool ∈ cfg.assignPool, routing.range = hostRange pool.network pool.mask := by
  unfold ServerConfig.routing at h
  split_ifs at h with hnat
  · cases h
    exact Or.inl rfl
  · obtain ⟨s, hs, h⟩ := bind_eq_ok.1 h
    cases h
    have hrange := buildAssigner_range hs
    cases hpool : cfg.assignPool with
    | none =>
      rw [hpool] at hrange
      exact Or.inl hrange
    | some pool =>
      rw [hpool] at hrange
      exact Or.inr ⟨pool, rfl, hrange⟩

/-- Without a lease file the server always gets to its routing state. -/
theorem routing_notFound (cfg : ServerConfig) (clock now : SystemTime) (io : Io) :
    ∃ routing, cfg.routing clock now io .notFound = .ok routing := by
  unfold ServerConfig.routing
  split_ifs with hnat
  · exact ⟨_, rfl⟩
  · unfold buildAssigner Assigner.new
    cases cfg.leaseFile <;> exact ⟨_, rfl⟩

end ShadowVpn
