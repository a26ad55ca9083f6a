import ShadowVpn.Sanity.Config
import ShadowVpn.Sanity.Resolver
import ShadowVpn.Spec.Profiles

/-! What the client makes of a saved profile: the file that it reads, and each check of the app
beside the check of the client. -/

namespace ShadowVpn

open Lib

variable {H : Host} {P : Parsers} {c : ProfileConfig} {k : String}

/-! Through the file. -/

/-- The file as the client reads it: the app's texts, parsed where the client has types. -/
def ProfileConfig.toFile (P : Parsers) (c : ProfileConfig) : Option FileConfig := do
  let tunIp ← c.tunIp.mapM P.ipv4
  let tunNetmask ← c.tunNetmask.mapM P.ipv4
  let peerIp ← c.peerIp.mapM P.ipv4
  let tunIp6 ← c.tunIp6.mapM P.ipv6Network
  let assignPool ← c.assignPool.mapM P.ipNetwork
  let reservedIps ← c.reservedIps.mapM fun ts => ts.mapM P.ipv4
  let advertiseRoutes ← c.advertiseRoutes.mapM fun ts => ts.mapM P.ipNetwork
  let approveRoutes ← c.approveRoutes.mapM fun ts => ts.mapM P.ipNetwork
  return {
    server := c.server, password := c.password, cipher := c.cipher, tunName := c.tunName,
    tunIp, tunNetmask, peerIp, tunIp6, mtu := c.mtu, obfs := c.obfs, nat := c.nat,
    leaseTtlSecs := c.leaseTtlSecs, assignPool, reservedIps, assignTtlSecs := c.assignTtlSecs,
    leaseFile := c.leaseFile, keepaliveSecs := c.keepaliveSecs, stateFile := c.stateFile,
    advertiseRoutes, acceptRoutes := c.acceptRoutes, approveRoutes, autoApproveRoutes :=
    c.autoApproveRoutes, mode := c.mode, dnsListen := c.dnsListen, dnsLocal := c.dnsLocal,
    dnsRemote := c.dnsRemote, gfwlist := c.gfwlist, chnroute := c.chnroute, geoip := c.geoip,
    geoipCountry := c.geoipCountry, setDns := c.setDns, prewarm := c.prewarm, cacheFile :=
    c.cacheFile, dnsTimeoutMs := c.dnsTimeoutMs, hostname := c.hostname, magicDns :=
    c.magicDns, magicDnsSuffix := c.magicDnsSuffix }

namespace ProfileConfig

theorem members_keys (c : ProfileConfig) : c.members.map Prod.fst = FileConfig.FIELDS := rfl

theorem nodup_members (c : ProfileConfig) : (c.members.map Prod.fst).Nodup := by
  rw [members_keys]
  decide

theorem field_text {o : Option Text} (h : c.members.lookup k = some (o.map .text)) :
    c.toJson.field k Json.asText = some o :=
  Json.Object.field_ofMembers_some c.nodup_members h (fun _ => rfl) rfl

theorem field_bool {o : Option Bool} (h : c.members.lookup k = some (o.map .bool)) :
    c.toJson.field k Json.asBool = some o :=
  Json.Object.field_ofMembers_some c.nodup_members h (fun _ => rfl) rfl

theorem field_u16 {o : Option UInt16} (h : c.members.lookup k = some (o.map .ofU16)) :
    c.toJson.field k Json.asU16 = some o :=
  Json.Object.field_ofMembers_some c.nodup_members h Json.asU16_ofU16 rfl

theorem field_u64 {o : Option UInt64} (h : c.members.lookup k = some (o.map .ofU64)) :
    c.toJson.field k Json.asU64 = some o :=
  Json.Object.field_ofMembers_some c.nodup_members h Json.asU64_ofU64 rfl

theorem field_texts {o : Option (List Text)} (h : c.members.lookup k = some (o.map .texts)) :
    c.toJson.field k (Json.asArray Json.asText) = some o :=
  Json.Object.field_ofMembers_some c.nodup_members h Json.asArray_asText rfl

theorem field_parsed {α : Type} {parse : Text → Option α} {o : Option Text}
    (h : c.members.lookup k = some (o.map .text)) :
    c.toJson.field k (Json.asParsed parse) = o.mapM parse := by
  refine (Json.Object.field_ofMembers c.nodup_members h ?_ _).trans ?_
  · cases o <;> simp
  · cases o <;> rfl

theorem field_array {α : Type} {parse : Text → Option α} {o : Option (List Text)}
    (h : c.members.lookup k = some (o.map .texts)) :
    c.toJson.field k (Json.asArray (Json.asParsed parse)) = o.mapM fun ts => ts.mapM parse := by
  refine (Json.Object.field_ofMembers c.nodup_members h ?_ _).trans ?_
  · cases o <;> simp [Json.texts]
  · cases o with
    | none => rfl
    | some ts => rw [Option.map_some, Option.mapM_some, Option.mapM_some, Json.asArray_texts]

theorem fromJson_toJson (P : Parsers) (c : ProfileConfig) :
    FileConfig.fromJson P c.toJson = c.toFile P := by
  have hfields : c.toJson.OnlyFields FileConfig.FIELDS :=
    Json.Object.onlyFields_ofMembers c.nodup_members
  unfold FileConfig.fromJson
  rw [guard, if_pos hfields]
  simp only [field_text (k := "server") rfl, field_text (k := "password") rfl, field_text (k :=
    "cipher") rfl, field_text (k := "tun_name") rfl, field_parsed (k := "tun_ip") rfl,
    field_parsed (k := "tun_netmask") rfl, field_parsed (k := "peer_ip") rfl, field_parsed
    (k := "tun_ip6") rfl, field_u16 (k := "mtu") rfl, field_text (k := "obfs") rfl,
    field_bool (k := "nat") rfl, field_u64 (k := "lease_ttl_secs") rfl, field_parsed (k :=
    "assign_pool") rfl, field_array (k := "reserved_ips") rfl, field_u64 (k :=
    "assign_ttl_secs") rfl, field_text (k := "lease_file") rfl, field_u64 (k :=
    "keepalive_secs") rfl, field_text (k := "state_file") rfl, field_array (k :=
    "advertise_routes") rfl, field_bool (k := "accept_routes") rfl, field_array (k :=
    "approve_routes") rfl, field_bool (k := "auto_approve_routes") rfl, field_text (k :=
    "mode") rfl, field_text (k := "dns_listen") rfl, field_text (k := "dns_local") rfl,
    field_text (k := "dns_remote") rfl, field_text (k := "gfwlist") rfl, field_text (k :=
    "chnroute") rfl, field_text (k := "geoip") rfl, field_text (k := "geoip_country") rfl,
    field_bool (k := "set_dns") rfl, field_texts (k := "prewarm") rfl, field_text (k :=
    "cache_file") rfl, field_u64 (k := "dns_timeout_ms") rfl, field_text (k := "hostname")
    rfl, field_bool (k := "magic_dns") rfl, field_text (k := "magic_dns_suffix") rfl,
    Option.pure_def, Option.bind_eq_bind, Option.bind_some]
  rfl

/-- Every text that the client reads as an address or a network is one. -/
structure Parses (P : Parsers) (c : ProfileConfig) : Prop where
  tunIp : ∀ t ∈ c.tunIp, (P.ipv4 t).isSome
  tunNetmask : ∀ t ∈ c.tunNetmask, (P.ipv4 t).isSome
  peerIp : ∀ t ∈ c.peerIp, (P.ipv4 t).isSome
  tunIp6 : ∀ t ∈ c.tunIp6, (P.ipv6Network t).isSome
  assignPool : ∀ t ∈ c.assignPool, (P.ipNetwork t).isSome
  reservedIps : ∀ ts ∈ c.reservedIps, ∀ t ∈ ts, (P.ipv4 t).isSome
  advertiseRoutes : ∀ ts ∈ c.advertiseRoutes, ∀ t ∈ ts, (P.ipNetwork t).isSome
  approveRoutes : ∀ ts ∈ c.approveRoutes, ∀ t ∈ ts, (P.ipNetwork t).isSome

theorem exists_option_mapM {α : Type} {parse : Text → Option α} {o : Option Text} :
    (∃ r, o.mapM parse = some r) ↔ ∀ t ∈ o, (parse t).isSome := by
  cases o with
  | none => simp
  | some t => cases h : parse t <;> simp [h]

theorem exists_option_mapM_mapM {α : Type} {parse : Text → Option α} {o : Option (List Text)} :
    (∃ r, (o.mapM fun ts => ts.mapM parse) = some r) ↔
      ∀ ts ∈ o, ∀ t ∈ ts, (parse t).isSome := by
  cases o with
  | none => simp
  | some ts =>
    have hts : (∃ nets, ts.mapM parse = some nets) ↔ ∀ t ∈ ts, (parse t).isSome := exists_mapM_iff
    cases h : ts.mapM parse <;> simp_all

/-- What the file read from a profile has of it. -/
structure ReadFrom (P : Parsers) (c : ProfileConfig) (file : FileConfig) : Prop where
  server : file.server = c.server
  password : file.password = c.password
  cipher : file.cipher = c.cipher
  tunIp : c.tunIp.mapM P.ipv4 = some file.tunIp
  peerIp : c.peerIp.mapM P.ipv4 = some file.peerIp
  keepaliveSecs : file.keepaliveSecs = c.keepaliveSecs
  advertiseRoutes :
    (c.advertiseRoutes.mapM fun ts => ts.mapM P.ipNetwork) = some file.advertiseRoutes
  mode : file.mode = c.mode
  dnsListen : file.dnsListen = c.dnsListen
  dnsLocal : file.dnsLocal = c.dnsLocal
  dnsRemote : file.dnsRemote = c.dnsRemote
  gfwlist : file.gfwlist = c.gfwlist
  chnroute : file.chnroute = c.chnroute
  geoip : file.geoip = c.geoip
  magicDnsSuffix : file.magicDnsSuffix = c.magicDnsSuffix

theorem toFile_eq_some {file : FileConfig} (h : c.toFile P = some file) :
    c.Parses P ∧ c.ReadFrom P file := by
  unfold toFile at h
  simp only [Option.bind_eq_bind, Option.bind_eq_some_iff] at h
  obtain ⟨tunIp, h1, tunNetmask, h2, peerIp, h3, tunIp6, h4, assignPool, h5, reservedIps, h6,
    advertiseRoutes, h7, approveRoutes, h8, h⟩ := h
  cases h
  refine ⟨?_, ⟨rfl, rfl, rfl, h1, h3, rfl, h7, rfl, rfl, rfl, rfl, rfl, rfl, rfl, rfl⟩⟩
  exact ⟨exists_option_mapM.1 ⟨_, h1⟩, exists_option_mapM.1 ⟨_, h2⟩, exists_option_mapM.1 ⟨_, h3⟩,
    exists_option_mapM.1 ⟨_, h4⟩, exists_option_mapM.1 ⟨_, h5⟩, exists_option_mapM_mapM.1 ⟨_, h6⟩,
    exists_option_mapM_mapM.1 ⟨_, h7⟩, exists_option_mapM_mapM.1 ⟨_, h8⟩⟩

theorem exists_toFile (h : c.Parses P) : ∃ file, c.toFile P = some file := by
  obtain ⟨tunIp, h1⟩ := exists_option_mapM.2 h.tunIp
  obtain ⟨tunNetmask, h2⟩ := exists_option_mapM.2 h.tunNetmask
  obtain ⟨peerIp, h3⟩ := exists_option_mapM.2 h.peerIp
  obtain ⟨tunIp6, h4⟩ := exists_option_mapM.2 h.tunIp6
  obtain ⟨assignPool, h5⟩ := exists_option_mapM.2 h.assignPool
  obtain ⟨reservedIps, h6⟩ := exists_option_mapM_mapM.2 h.reservedIps
  obtain ⟨advertiseRoutes, h7⟩ := exists_option_mapM_mapM.2 h.advertiseRoutes
  obtain ⟨approveRoutes, h8⟩ := exists_option_mapM_mapM.2 h.approveRoutes
  unfold toFile
  rw [h1, h2, h3, h4, h5, h6, h7, h8]
  exact ⟨_, rfl⟩

end ProfileConfig

/-! What the client refuses. -/

theorem exists_bind_ok {ε α β : Type} {x : Except ε α} {f : α → Except ε β} :
    (∃ b, x >>= f = .ok b) ↔ ∃ a, x = .ok a ∧ ∃ b, f a = .ok b := by
  constructor
  · rintro ⟨b, h⟩
    obtain ⟨a, ha, hb⟩ := bind_eq_ok.1 h
    exact ⟨a, ha, b, hb⟩
  · rintro ⟨a, ha, b, hb⟩
    exact ⟨b, bind_eq_ok.2 ⟨a, ha, hb⟩⟩

section

variable {args : ClientArgs} {file : FileConfig}

/-- The mode has the data file that it needs. -/
def Supplied (H : Host) (args : ClientArgs) (file : FileConfig) (mode : Mode) : Prop :=
  (mode = .gfwList →
    ((args.gfwlist.or file.gfwlist).or (H.exeDir.bind (bundledGfwlist H mode))).isSome) ∧
  (mode = .chinaDns → (args.chnroute.or file.chnroute).isSome ∨
    ((args.geoip.or file.geoip).or
      (H.exeDir.bind (bundledGeoip H mode (args.chnroute.or file.chnroute).isSome))).isSome)

def DnsAddr (P : Parsers) (t : Text) : Prop := (P.socketAddr t).isSome ∨ (P.ip t).isSome

theorem parseDnsAddr_ok_iff {field : String} {t : Text} {port : UInt16} :
    (∃ addr, parseDnsAddr H field t port = .ok addr) ↔ DnsAddr H.parsers t := by
  unfold parseDnsAddr DnsAddr
  cases H.parsers.socketAddr t <;> cases H.parsers.ip t <;> simp

theorem sanitizeSuffix_isSome_iff {raw : Text} : (sanitizeSuffix raw).isSome ↔ trim raw ≠ [] := by
  unfold sanitizeSuffix
  by_cases h : trim raw = []
  · simp [h]
  · simp [h, (isLabel_sanitizeHostname raw).nonempty]

theorem resolveMagicSuffix_ok_iff : (∃ suffix, resolveMagicSuffix args file = .ok suffix) ↔
    (sanitizeSuffix ((args.magicDnsSuffix.or file.magicDnsSuffix).getD DEFAULT_SUFFIX)).isSome := by
  simp only [resolveMagicSuffix, okOr_eq_ok, Option.isSome_iff_exists]

theorem resolvePolicy_ok_iff : (∃ policy, resolvePolicy H args file = .ok policy) ↔
    (∃ mode, modeOf (args.mode.or file.mode) = .ok mode ∧ Supplied H args file mode) ∧
    DnsAddr H.parsers ((args.dnsListen.or file.dnsListen).getD DEFAULT_DNS_LISTEN) ∧
    DnsAddr H.parsers ((args.dnsLocal.or file.dnsLocal).getD DEFAULT_DNS_LOCAL) ∧
    DnsAddr H.parsers ((args.dnsRemote.or file.dnsRemote).getD DEFAULT_DNS_REMOTE) ∧
    (sanitizeSuffix ((args.magicDnsSuffix.or file.magicDnsSuffix).getD DEFAULT_SUFFIX)).isSome := by
  constructor
  · rintro ⟨policy, h⟩
    obtain ⟨mode, hmode, h⟩ := bind_eq_ok.1 h
    obtain ⟨listen, hlisten, h⟩ := bind_eq_ok.1 h
    obtain ⟨localAddr, hlocal, h⟩ := bind_eq_ok.1 h
    obtain ⟨remote, hremote, h⟩ := bind_eq_ok.1 h
    dsimp only at h
    split at h
    · cases h
    rename_i hgfw
    split at h
    · cases h
    rename_i hchina
    obtain ⟨suffix, hsuffix, -⟩ := bind_eq_ok.1 h
    refine ⟨⟨mode, hmode, ?_, ?_⟩, parseDnsAddr_ok_iff.1 ⟨_, hlisten⟩,
      parseDnsAddr_ok_iff.1 ⟨_, hlocal⟩, parseDnsAddr_ok_iff.1 ⟨_, hremote⟩,
      resolveMagicSuffix_ok_iff.1 ⟨_, hsuffix⟩⟩
    · intro heq
      exact Option.isSome_iff_ne_none.2 fun hnone => hgfw ⟨heq, Option.isNone_iff_eq_none.2 hnone⟩
    · intro heq
      by_contra hnone
      obtain ⟨hc, hg⟩ := not_or.1 hnone
      exact hchina ⟨heq, by simpa using hc, by simpa using hg⟩
  · rintro ⟨⟨mode, hmode, hgfw, hchina⟩, hlisten, hlocal, hremote, hsuffix⟩
    obtain ⟨listen, hlisten⟩ := parseDnsAddr_ok_iff.2 hlisten
    obtain ⟨localAddr, hlocal⟩ := parseDnsAddr_ok_iff.2 hlocal
    obtain ⟨remote, hremote⟩ := parseDnsAddr_ok_iff.2 hremote
    obtain ⟨suffix, hsuffix⟩ := resolveMagicSuffix_ok_iff.2 hsuffix
    refine exists_bind_ok.2 ⟨mode, hmode, exists_bind_ok.2 ⟨listen, hlisten,
      exists_bind_ok.2 ⟨localAddr, hlocal, exists_bind_ok.2 ⟨remote, hremote, ?_⟩⟩⟩⟩
    dsimp only
    rw [if_neg, if_neg]
    · exact exists_bind_ok.2 ⟨suffix, hsuffix, _, rfl⟩
    · rintro ⟨heq, hc, hg⟩
      rcases hchina heq with hsome | hsome
      · rw [Option.isNone_iff_eq_none.1 hc] at hsome
        cases hsome
      · rw [Option.isNone_iff_eq_none.1 hg] at hsome
        cases hsome
    · rintro ⟨heq, hg⟩
      have hsome := hgfw heq
      rw [Option.isNone_iff_eq_none.1 hg] at hsome
      cases hsome

theorem resolveCrypto_ok_iff {cipher password : Option Text} :
    (∃ crypto, resolveCrypto H cipher password = .ok crypto) ↔
      (∃ c, Cipher.fromName (cipher.getD DEFAULT_CIPHER) = .ok c) ∧ password.isSome := by
  unfold resolveCrypto
  cases Cipher.fromName (cipher.getD DEFAULT_CIPHER) with
  | error e => simp [exists_bind_ok, Except.mapError]
  | ok c => cases password <;> simp [exists_bind_ok, Except.mapError, okOr, pure, Except.pure]

theorem resolveClientTun_ok_iff {name : Option Text} {ip netmask peerIp : Option Ipv4Addr}
    {ip6 : Option Ipv6Network} {mtu : Option UInt16} :
    (∃ tun, resolveClientTun name ip netmask peerIp ip6 mtu = .ok tun) ↔
      ip.isSome = peerIp.isSome := by
  unfold resolveClientTun
  split_ifs with h
  · exact ⟨fun _ => h, fun _ => ⟨_, rfl⟩⟩
  · simp [h]

theorem validateAdvertised_ok_iff {routes : List IpNetwork} :
    (∃ u, validateAdvertised H routes = .ok u) ↔
      routes.length ≤ MAX_ROUTES ∧ ∀ net ∈ routes, net.prefixLen ≠ 0 := by
  unfold validateAdvertised
  split_ifs with hlen
  · simp [show ¬ routes.length ≤ MAX_ROUTES by omega]
  · cases hfind : routes.find? fun net => net.prefixLen = 0 with
    | some net =>
      have hzero : net.prefixLen = 0 := by simpa using List.find?_some hfind
      refine iff_of_false ?_ fun h => h.2 net (List.mem_of_find?_eq_some hfind) hzero
      rintro ⟨u, h⟩
      cases h
    | none =>
      have hnone := List.find?_eq_none.1 hfind
      exact iff_of_true ⟨(), rfl⟩ ⟨by omega, fun net hnet => by simpa using hnone net hnet⟩

theorem ClientArgs.resolve_ok_iff (args : ClientArgs) (hfile : loadFile H args.config = .ok file) :
    (∃ cfg, args.resolve H = .ok cfg) ↔
      (∃ policy, resolvePolicy H args file = .ok policy) ∧
      (args.server.or file.server).isSome ∧
      (∃ crypto, resolveCrypto H (args.cipher.or file.cipher) (args.password.or file.password) =
        .ok crypto) ∧
      (args.tunIp.or file.tunIp).isSome = (args.peerIp.or file.peerIp).isSome ∧
      args.keepaliveSecs.or file.keepaliveSecs ≠ some 0 ∧
      ∃ u, validateAdvertised H ((args.advertiseRoutes.or file.advertiseRoutes).getD []) =
        .ok u := by
  have hkeep : (args.keepaliveSecs.or file.keepaliveSecs).getD DEFAULT_KEEPALIVE_SECS = 0 ↔
      args.keepaliveSecs.or file.keepaliveSecs = some 0 := by
    cases args.keepaliveSecs.or file.keepaliveSecs with
    | none => exact ⟨fun h => absurd h (by decide), fun h => by cases h⟩
    | some n => simp
  constructor
  · rintro ⟨cfg, h⟩
    obtain ⟨file', hfile', h⟩ := bind_eq_ok.1 h
    obtain rfl : file = file' := Except.ok.inj (hfile.symm.trans hfile')
    obtain ⟨policy, hpolicy, h⟩ := bind_eq_ok.1 h
    obtain ⟨server, hserver, h⟩ := bind_eq_ok.1 h
    obtain ⟨crypto, hcrypto, h⟩ := bind_eq_ok.1 h
    obtain ⟨tun, htun, h⟩ := bind_eq_ok.1 h
    dsimp only at h
    split_ifs at h with hzero
    obtain ⟨u, hroutes, -⟩ := bind_eq_ok.1 h
    exact ⟨⟨policy, hpolicy⟩, Option.isSome_iff_exists.2 ⟨server, okOr_eq_ok.1 hserver⟩,
      ⟨crypto, hcrypto⟩, resolveClientTun_ok_iff.1 ⟨tun, htun⟩, mt hkeep.2 hzero, u, hroutes⟩
  · rintro ⟨⟨policy, hpolicy⟩, hserver, ⟨crypto, hcrypto⟩, htun, hzero, u, hroutes⟩
    obtain ⟨server, hserver⟩ := Option.isSome_iff_exists.1 hserver
    obtain ⟨tun, htun⟩ := resolveClientTun_ok_iff.2 htun
    refine exists_bind_ok.2 ⟨file, hfile, exists_bind_ok.2 ⟨policy, hpolicy, exists_bind_ok.2
      ⟨server, okOr_eq_ok.2 hserver, exists_bind_ok.2 ⟨crypto, hcrypto,
        exists_bind_ok.2 ⟨tun, htun, ?_⟩⟩⟩⟩⟩
    dsimp only
    rw [if_neg (mt hkeep.1 hzero)]
    exact exists_bind_ok.2 ⟨u, hroutes, _, rfl⟩

end

end ShadowVpn
