import ShadowVpn.Proofs.Carrier
import ShadowVpn.Sanity.Config

/-! The range of the allocator and the subnet of the interface. -/

namespace ShadowVpn

open Lib

/-- The range holds hosts of the subnet only, neither its network address nor its broadcast
address. -/
def HostsOnly (range : BitVec 32 × BitVec 32) (ip netmask : Ipv4Addr) : Prop :=
  ∀ x : Ipv4Addr, range.1 ≤ x → x ≤ range.2 →
    x &&& netmask = ip &&& netmask ∧ x ≠ ip &&& netmask ∧ x ≠ ip &&& netmask ||| ~~~netmask

theorem hostsOnly_of_between {range : BitVec 32 × BitVec 32} {ip netmask : Ipv4Addr}
    (hm : Mask.Contiguous netmask)
    (h : ∀ x, range.1 ≤ x ∧ x ≤ range.2 →
      ip &&& netmask < x ∧ x < ip &&& netmask ||| ~~~netmask) : HostsOnly range ip netmask := by
  intro x hlo hhi
  obtain ⟨hfirst, hlast⟩ := h x ⟨hlo, hhi⟩
  refine ⟨hm.and_eq_of_between (BitVec.le_of_lt hfirst) (BitVec.le_of_lt hlast), ?_, ?_⟩
  · rintro rfl
    exact BitVec.lt_irrefl _ hfirst
  · rintro rfl
    exact BitVec.lt_irrefl _ hlast

theorem hostsOnly_hostRange_iff {ip netmask : Ipv4Addr} :
    HostsOnly (hostRange ip netmask) ip netmask ↔ Mask.Contiguous netmask := by
  constructor
  · intro h
    by_contra hm
    obtain ⟨x, hlo, hhi, hne⟩ := Mask.exists_between hm ip
    obtain ⟨hstart, hend⟩ := mem_hostRange_iff.2 ⟨hlo, hhi⟩
    exact hne (h x hstart hend).1
  · intro hm
    exact hostsOnly_of_between hm fun x hx => mem_hostRange_iff.1 hx

/-- Every range that a server of this configuration can start with. -/
def ServerConfig.HostsOnly (cfg : ServerConfig) : Prop :=
  ∀ clock now io disk routing, cfg.routing clock now io disk = .ok routing →
    ShadowVpn.HostsOnly routing.range cfg.tun.ip cfg.tun.netmask

/-- The mask is looked at only for an `assign_pool`; the range is one of hosts exactly when
the mask is contiguous. -/
theorem ServerArgs.hostsOnly_iff_contiguous {H : Host} {args : ServerArgs} (file : FileConfig)
    {cfg : ServerConfig} (hfile : loadFile H args.config = .ok file)
    (h : args.resolve H = .ok cfg) :
    (cfg.HostsOnly ↔
      Mask.Contiguous ((args.tunNetmask.or file.tunNetmask).getD DEFAULT_NETMASK)) ∧
    ((args.assignPool.or file.assignPool).isSome → cfg.HostsOnly) := by
  obtain ⟨file', hfile', hmask, hpool⟩ := ServerArgs.resolve_eq_ok h
  obtain rfl : file' = file := by
    rw [hfile] at hfile'
    exact (Except.ok.inj hfile').symm
  obtain ⟨hsome, hinside⟩ := assignPoolOf_eq_ok hpool
  have hosts : Mask.Contiguous cfg.tun.netmask → cfg.HostsOnly := by
    intro hm clock now io disk routing hr
    rcases routing_range hr with heq | ⟨pool, hp, heq⟩
    · rw [heq]
      exact hostsOnly_hostRange_iff.2 hm
    · rw [heq]
      exact hostsOnly_of_between hm fun x hx => (hinside pool hp).between hx
  rw [← hmask]
  refine ⟨⟨?_, hosts⟩, ?_⟩
  · intro hall
    cases hp : cfg.assignPool with
    | some pool => exact (hinside pool hp).contiguous
    | none =>
      obtain ⟨routing, hr⟩ := routing_notFound cfg .UNIX_EPOCH .UNIX_EPOCH ⟨.stored, true, true⟩
      rcases routing_range hr with heq | ⟨pool, hp', heq⟩
      · have := hall _ _ _ _ routing hr
        rw [heq] at this
        exact hostsOnly_hostRange_iff.1 this
      · rw [hp] at hp'
        cases hp'
  · intro hasked
    rw [← hsome] at hasked
    obtain ⟨pool, hp⟩ := Option.isSome_iff_exists.1 hasked
    exact hosts (hinside pool hp).contiguous

def Sample.parsers : Parsers where
  ipv4 t := if t = "127.0.0.1".toList then some 0x7F000001 else none
  ip t := if t = "127.0.0.1".toList then some (.v4 0x7F000001) else none
  socketAddr t :=
    if t = DEFAULT_DNS_LISTEN then some (.v4 0x7F000001 53)
    else if t = DEFAULT_DNS_LOCAL then some (.v4 0x72727272 53)
    else if t = DEFAULT_DNS_REMOTE then some (.v4 0x08080808 53)
    else none
  ipv6Network _ := none
  ipNetwork _ := none
  ipv4_nil := rfl
  listen_default := rfl
  local_default := rfl
  remote_default := rfl

def Sample.host : Host where
  parsers := Sample.parsers
  primitives := Sample.primitives
  files _ := none
  exeDir := none
  isFile _ := false
  osHostname := "node".toList
  leaseFile := "/var/lib/shadowvpn/leases.json".toList
  stateFile _ := "/var/lib/shadowvpn/client.state".toList
  displayIpv4 _ := "address"
  displayNetwork _ := "network"

def Sample.server (netmask : Ipv4Addr) : ServerArgs :=
  { listen := some "0.0.0.0:1234".toList, password := some "secret".toList,
    tunIp := some 0x0A090001, peerIp := some 0x0A090002, tunNetmask := some netmask }

theorem ServerArgs.hostsOnly_iff_contiguous_slash24 :
    ∃ cfg, (Sample.server 0xFFFFFF00).resolve Sample.host = .ok cfg ∧ cfg.HostsOnly := by
  obtain ⟨cfg, hcfg⟩ : ∃ cfg, (Sample.server 0xFFFFFF00).resolve Sample.host = .ok cfg :=
    ⟨_, rfl⟩
  exact ⟨cfg, hcfg, (ServerArgs.hostsOnly_iff_contiguous {} rfl hcfg).1.2 (by decide)⟩

/-- 10.9.0.1 with the mask 255.0.255.0: the server may give out 10.1.1.1. -/
theorem ServerArgs.foreign_host : ∃ (cfg : ServerConfig) (routing : Routing) (x : Ipv4Addr),
    (Sample.server 0xFF00FF00).resolve Sample.host = .ok cfg ∧
    cfg.routing .UNIX_EPOCH .UNIX_EPOCH ⟨.stored, true, true⟩ .notFound = .ok routing ∧
    routing.range.1 ≤ x ∧ x ≤ routing.range.2 ∧
    x &&& cfg.tun.netmask ≠ cfg.tun.ip &&& cfg.tun.netmask :=
  ⟨_, _, 0x0A010101, rfl, rfl, by decide, by decide, by decide⟩

/-! A pool that was accepted. -/

theorem hostRange_start_pos (addr netmask : Ipv4Addr) : 0 < (hostRange addr netmask).1.toNat := by
  simp only [hostRange, toNat_saturatingAdd_one]
  omega

theorem exists_of_usableHosts {start end_ serverIp : Ipv4Addr} {reserved : List Ipv4Addr}
    (h : usableHosts start end_ serverIp reserved ≠ 0) :
    ∃ x, (start ≤ x ∧ x ≤ end_) ∧ x ≠ serverIp ∧ x ∉ reserved := by
  obtain ⟨x, hx, hok⟩ := List.countP_pos_iff.1 (Nat.pos_of_ne_zero h)
  exact ⟨x, mem_addrs.1 hx, by simpa using hok⟩

/-- A pool that is accepted has a host, its hosts are hosts of the network of the interface, and
the assigner that is restricted to it counts those that it may give out. -/
theorem validateAssignPool_sound {H : Host} {asked : IpNetwork} {tun pool : Ipv4Network}
    {serverIp peerIp : Ipv4Addr} {reserved : List Ipv4Addr} (hpeer : peerIp ∈ reserved)
    (h : validateAssignPool H asked tun serverIp reserved = .ok pool) :
    let range := hostRange pool.network pool.mask
    let whole := hostRange tun.network tun.mask
    range.1 ≤ range.2 ∧
    (∀ x, range.1 ≤ x → x ≤ range.2 →
      whole.1 ≤ x ∧ x ≤ whole.2 ∧ x ≠ tun.network ∧ x ≠ tun.network ||| ~~~tun.mask) ∧
    ∃ hosts : Finset Ipv4Addr,
      (∀ x, x ∈ hosts ↔ (range.1 ≤ x ∧ x ≤ range.2) ∧ x ≠ serverIp ∧ x ∉ reserved) ∧
      1 ≤ hosts.card ∧
      ∀ P netmask ip6 ttl path clock now io disk started,
        Assigner.new ⟨serverIp, netmask, ip6, peerIp, reserved, ttl, path⟩ clock now io disk =
          .ok started →
        (started.assigner.setHostRange range.1 range.2).capacity P = .ok hosts.card := by
  intro range whole
  obtain ⟨hlen, hin, -, husable⟩ := validateAssignPool_eq_ok h
  obtain ⟨x₀, hx₀, hfree⟩ := exists_of_usableHosts husable
  have hmask : pool.mask &&& tun.mask = tun.mask :=
    Cidr.mask_and_mask (UInt8.le_iff_toNat_le.1 hlen)
  have hself : tun.network &&& tun.mask = tun.network := by
    rw [Cidr.network, BitVec.and_assoc, BitVec.and_self]
  have hnetwork : pool.network &&& tun.mask = tun.network &&& tun.mask := by
    rw [hself, ← eq_of_beq hin, Cidr.network, BitVec.and_assoc, hmask]
  have hle : range.1 ≤ range.2 := BitVec.le_trans hx₀.1 hx₀.2
  refine ⟨hle, ?_, (addrs range.1 range.2).toFinset.filter
    (fun x => x ≠ serverIp ∧ x ∉ reserved), ?_, ?_, ?_⟩
  · intro x hlo hhi
    have hbetween := between_of_mask hmask hnetwork ⟨hlo, hhi⟩
    obtain ⟨hstart, hend⟩ := mem_hostRange_iff.2 hbetween
    rw [hself] at hbetween
    refine ⟨hstart, hend, ?_, ?_⟩
    · rintro rfl
      exact BitVec.lt_irrefl _ hbetween.1
    · rintro rfl
      exact BitVec.lt_irrefl _ hbetween.2
  · intro x
    rw [Finset.mem_filter, List.mem_toFinset, mem_addrs]
  · apply Finset.card_pos.2
    exact ⟨x₀, Finset.mem_filter.2 ⟨List.mem_toFinset.2 (mem_addrs.2 hx₀), hfree⟩⟩
  · intro P netmask ip6 ttl path clock now io disk started hnew
    obtain ⟨b, -, hframe⟩ := Assigner.new_restored hnew
    have hserver : started.assigner.serverIp = serverIp := congrArg Policy.serverIp hframe.policy
    have hreserved : started.assigner.reserved = insert peerIp reserved.toFinset :=
      congrArg Policy.reserved hframe.policy
    rw [Assigner.capacity_eq P (hostRange_start_pos _ _) hle]
    refine congrArg (fun hosts : Finset Ipv4Addr => Except.ok hosts.card) ?_
    ext x
    rw [Assigner.mem_hosts, Finset.mem_filter, List.mem_toFinset, mem_addrs]
    simp only [Assigner.setHostRange, hserver, hreserved,
      Finset.insert_eq_of_mem (List.mem_toFinset.2 hpeer), List.mem_toFinset]

/-- 10.9.0.0/29 of 10.9.0.0/24, where .1 is the server and .2 reserved, has four hosts left. -/
theorem validateAssignPool_sound_slash29 : ∃ (pool : Ipv4Network) (hosts : Finset Ipv4Addr),
    validateAssignPool Sample.host (.v4 ⟨0x0A090000, 29, by decide⟩) ⟨0x0A090000, 24, by decide⟩
      0x0A090001 [0x0A090002] = .ok pool ∧
    (∀ x, (hostRange pool.network pool.mask).1 ≤ x → x ≤ (hostRange pool.network pool.mask).2 →
      (0x0A090000 : Ipv4Addr) < x ∧ x < 0x0A0900FF) ∧
    (∀ x, x ∈ hosts ↔ ((hostRange pool.network pool.mask).1 ≤ x ∧
      x ≤ (hostRange pool.network pool.mask).2) ∧ x ≠ 0x0A090001 ∧ x ∉ [0x0A090002]) ∧
    hosts.card = 4 := by
  have h : validateAssignPool Sample.host (.v4 ⟨0x0A090000, 29, by decide⟩)
      ⟨0x0A090000, 24, by decide⟩ 0x0A090001 [0x0A090002] =
        .ok ⟨0x0A090000, 29, by decide⟩ := rfl
  obtain ⟨-, hinside, hosts, hmem, -, hcapacity⟩ :=
    validateAssignPool_sound (List.mem_singleton_self _) h
  refine ⟨_, hosts, h, ?_, hmem, ?_⟩
  · intro x hlo hhi
    obtain ⟨hstart, hend, hnetwork, hbroadcast⟩ := hinside x hlo hhi
    have hfirst : (0x0A090001 : Ipv4Addr) ≤ x := hstart
    have hlast : x ≤ (0x0A0900FE : Ipv4Addr) := hend
    bv_omega
  · -- the assigner counts them too
    obtain ⟨started, hnew, hcount⟩ : ∃ started,
        Assigner.new ⟨0x0A090001, 0xFFFFFF00, none, 0x0A090002, [0x0A090002], 0, none⟩ .UNIX_EPOCH
          .UNIX_EPOCH ⟨.stored, true, true⟩ .notFound = .ok started ∧
        (started.assigner.setHostRange 0x0A090001 0x0A090006).capacity Sample.bare = .ok 4 :=
      ⟨_, rfl, by decide +kernel⟩
    exact Except.ok.inj ((hcapacity _ _ _ _ _ _ _ _ _ _ hnew).symm.trans hcount)

end ShadowVpn
