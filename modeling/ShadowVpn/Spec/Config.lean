import ShadowVpn.Lib.Json
import ShadowVpn.Lib.Mask
import ShadowVpn.Spec.Crypto
import ShadowVpn.Spec.Nat
import ShadowVpn.Spec.Policy

/-! The configuration of server and client (`config.rs`): a JSON file under the command line,
merged and checked. -/

namespace ShadowVpn

open Lib

def DEFAULT_CIPHER : Text := "chacha20-poly1305".toList
def DEFAULT_NETMASK : Ipv4Addr := 0xFFFFFF00
def DEFAULT_TUN_MTU : UInt16 := 1400
def DEFAULT_DNS_LISTEN : Text := "127.0.0.1:53".toList
def DEFAULT_DNS_LOCAL : Text := "114.114.114.114:53".toList
def DEFAULT_DNS_REMOTE : Text := "8.8.8.8:53".toList
def DEFAULT_GEOIP_COUNTRY : Text := "CN".toList
def DEFAULT_CACHE_FILE_NAME : Text := "dns-cache.json".toList
def DEFAULT_GEOIP_DB_NAME : Text := "GeoLite2-Country.mmdb".toList
def DEFAULT_GFWLIST_NAME : Text := "gfwlist.txt".toList
def DEFAULT_DNS_TIMEOUT_MS : UInt64 := 3000
def DEFAULT_LEASE_TTL_SECS : UInt64 := 120
def DEFAULT_KEEPALIVE_SECS : UInt64 := 15
def DEFAULT_ASSIGN_TTL_SECS : UInt64 := 604800
def DEFAULT_SUFFIX : Text := "svpn".toList

inductive ConfigError where
  | read (path : Text)
  | parse (path : Text)
  | missing (field : String)
  | cipher (e : CryptoError)
  | policy (e : PolicyError)
  | invalid (field message : String)
deriving DecidableEq

/-- The file. A key that is not in it is `none`. -/
structure FileConfig where
  server : Option Text := none
  password : Option Text := none
  cipher : Option Text := none
  tunName : Option Text := none
  tunIp : Option Ipv4Addr := none
  tunNetmask : Option Ipv4Addr := none
  peerIp : Option Ipv4Addr := none
  tunIp6 : Option Ipv6Network := none
  mtu : Option UInt16 := none
  obfs : Option Text := none
  nat : Option Bool := none
  leaseTtlSecs : Option UInt64 := none
  assignPool : Option IpNetwork := none
  reservedIps : Option (List Ipv4Addr) := none
  assignTtlSecs : Option UInt64 := none
  leaseFile : Option Text := none
  keepaliveSecs : Option UInt64 := none
  stateFile : Option Text := none
  advertiseRoutes : Option (List IpNetwork) := none
  acceptRoutes : Option Bool := none
  approveRoutes : Option (List IpNetwork) := none
  autoApproveRoutes : Option Bool := none
  mode : Option Text := none
  dnsListen : Option Text := none
  dnsLocal : Option Text := none
  dnsRemote : Option Text := none
  gfwlist : Option Text := none
  chnroute : Option Text := none
  geoip : Option Text := none
  geoipCountry : Option Text := none
  setDns : Option Bool := none
  prewarm : Option (List Text) := none
  cacheFile : Option Text := none
  dnsTimeoutMs : Option UInt64 := none
  hostname : Option Text := none
  magicDns : Option Bool := none
  magicDnsSuffix : Option Text := none

/-- The parsers of the standard library and of `ipnetwork`, of which an empty text is
nothing, and the default endpoints are addresses. -/
structure Parsers where
  ipv4 : Text → Option Ipv4Addr
  ip : Text → Option IpAddr
  socketAddr : Text → Option SocketAddr
  ipv6Network : Text → Option Ipv6Network
  ipNetwork : Text → Option IpNetwork
  ipv4_nil : ipv4 [] = none
  listen_default : (socketAddr DEFAULT_DNS_LISTEN).isSome
  local_default : (socketAddr DEFAULT_DNS_LOCAL).isSome
  remote_default : (socketAddr DEFAULT_DNS_REMOTE).isSome

section

open Json

/-- The keys of the file. -/
def FileConfig.FIELDS : List String :=
  ["server", "password", "cipher", "tun_name", "tun_ip", "tun_netmask", "peer_ip", "tun_ip6",
    "mtu", "obfs", "nat", "lease_ttl_secs", "assign_pool", "reserved_ips", "assign_ttl_secs",
    "lease_file", "keepalive_secs", "state_file", "advertise_routes", "accept_routes",
    "approve_routes", "auto_approve_routes", "mode", "dns_listen", "dns_local", "dns_remote",
    "gfwlist", "chnroute", "geoip", "geoip_country", "set_dns", "prewarm", "cache_file",
    "dns_timeout_ms", "hostname", "magic_dns", "magic_dns_suffix"]

/-- What `serde_json` makes of an object: unknown keys are refused, absent ones are `none`. -/
def FileConfig.fromJson (P : Parsers) (obj : Json.Object) : Option FileConfig := do
  guard (obj.OnlyFields FileConfig.FIELDS)
  let server ← obj.field "server" asText
  let password ← obj.field "password" asText
  let cipher ← obj.field "cipher" asText
  let tunName ← obj.field "tun_name" asText
  let tunIp ← obj.field "tun_ip" (asParsed P.ipv4)
  let tunNetmask ← obj.field "tun_netmask" (asParsed P.ipv4)
  let peerIp ← obj.field "peer_ip" (asParsed P.ipv4)
  let tunIp6 ← obj.field "tun_ip6" (asParsed P.ipv6Network)
  let mtu ← obj.field "mtu" asU16
  let obfs ← obj.field "obfs" asText
  let nat ← obj.field "nat" asBool
  let leaseTtlSecs ← obj.field "lease_ttl_secs" asU64
  let assignPool ← obj.field "assign_pool" (asParsed P.ipNetwork)
  let reservedIps ← obj.field "reserved_ips" (asArray (asParsed P.ipv4))
  let assignTtlSecs ← obj.field "assign_ttl_secs" asU64
  let leaseFile ← obj.field "lease_file" asText
  let keepaliveSecs ← obj.field "keepalive_secs" asU64
  let stateFile ← obj.field "state_file" asText
  let advertiseRoutes ← obj.field "advertise_routes" (asArray (asParsed P.ipNetwork))
  let acceptRoutes ← obj.field "accept_routes" asBool
  let approveRoutes ← obj.field "approve_routes" (asArray (asParsed P.ipNetwork))
  let autoApproveRoutes ← obj.field "auto_approve_routes" asBool
  let mode ← obj.field "mode" asText
  let dnsListen ← obj.field "dns_listen" asText
  let dnsLocal ← obj.field "dns_local" asText
  let dnsRemote ← obj.field "dns_remote" asText
  let gfwlist ← obj.field "gfwlist" asText
  let chnroute ← obj.field "chnroute" asText
  let geoip ← obj.field "geoip" asText
  let geoipCountry ← obj.field "geoip_country" asText
  let setDns ← obj.field "set_dns" asBool
  let prewarm ← obj.field "prewarm" (asArray asText)
  let cacheFile ← obj.field "cache_file" asText
  let dnsTimeoutMs ← obj.field "dns_timeout_ms" asU64
  let hostname ← obj.field "hostname" asText
  let magicDns ← obj.field "magic_dns" asBool
  let magicDnsSuffix ← obj.field "magic_dns_suffix" asText
  return {
    server, password, cipher, tunName, tunIp, tunNetmask, peerIp, tunIp6, mtu, obfs, nat,
    leaseTtlSecs, assignPool, reservedIps, assignTtlSecs, leaseFile, keepaliveSecs, stateFile,
    advertiseRoutes, acceptRoutes, approveRoutes, autoApproveRoutes, mode, dnsListen,
    dnsLocal, dnsRemote, gfwlist, chnroute, geoip, geoipCountry, setDns, prewarm, cacheFile,
    dnsTimeoutMs, hostname, magicDns, magicDnsSuffix }

end

/-- What a configuration takes from the machine. -/
structure Host where
  parsers : Parsers
  primitives : Primitives
  /-- The files that can be read, with the object of those that are JSON. -/
  files : Text → Option (Option Json.Object)
  /-- The directory of the running binary. -/
  exeDir : Option Text
  isFile : Text → Bool
  osHostname : Text
  /-- The lease file of a server without `--config`. -/
  leaseFile : Text
  /-- The state file of a client without `--config`, by its server. -/
  stateFile : Text → Text
  displayIpv4 : Ipv4Addr → String
  displayNetwork : IpNetwork → String

def join (dir name : Text) : Text := dir ++ '/' :: name

structure TunConfig where
  name : Option Text
  ip : Ipv4Addr
  netmask : Ipv4Addr
  peerIp : Ipv4Addr
  ip6 : Option Ipv6Network
  mtu : UInt16

structure ServerConfig where
  listen : Text
  cipher : Cipher
  masterKey : List UInt8
  tun : TunConfig
  obfs : Option Text
  nat : Bool
  leaseTtl : Duration
  routeApproval : RouteApproval
  assignPool : Option Ipv4Network
  reservedIps : List Ipv4Addr
  assignTtl : Duration
  leaseFile : Option Text
  hostname : Text

structure ClientConfig where
  server : Text
  cipher : Cipher
  masterKey : List UInt8
  tun : TunConfig
  autoTun : Bool
  wantIp6 : Bool
  stateFile : Option Text
  policy : PolicyConfig
  obfs : Option Text
  keepalive : Duration
  advertiseRoutes : List IpNetwork
  acceptRoutes : Bool
  hostname : Text
  magicDns : Bool
  magicDnsSuffix : Text

structure ServerArgs where
  config : Option Text := none
  listen : Option Text := none
  password : Option Text := none
  cipher : Option Text := none
  tunName : Option Text := none
  tunIp : Option Ipv4Addr := none
  tunNetmask : Option Ipv4Addr := none
  peerIp : Option Ipv4Addr := none
  tunIp6 : Option Ipv6Network := none
  mtu : Option UInt16 := none
  nat : Bool := false
  leaseTtlSecs : Option UInt64 := none
  approveRoutes : Option (List IpNetwork) := none
  autoApproveRoutes : Bool := false
  assignPool : Option IpNetwork := none
  reservedIps : Option (List Ipv4Addr) := none
  assignTtlSecs : Option UInt64 := none
  leaseFile : Option Text := none
  hostname : Option Text := none

structure ClientArgs where
  config : Option Text := none
  server : Option Text := none
  password : Option Text := none
  cipher : Option Text := none
  tunName : Option Text := none
  tunIp : Option Ipv4Addr := none
  tunNetmask : Option Ipv4Addr := none
  peerIp : Option Ipv4Addr := none
  tunIp6 : Option Ipv6Network := none
  mtu : Option UInt16 := none
  advertiseRoutes : Option (List IpNetwork) := none
  acceptRoutes : Bool := false
  mode : Option Text := none
  dnsListen : Option Text := none
  dnsLocal : Option Text := none
  dnsRemote : Option Text := none
  gfwlist : Option Text := none
  chnroute : Option Text := none
  geoip : Option Text := none
  geoipCountry : Option Text := none
  noPrewarm : Bool := false
  cacheFile : Option Text := none
  noCachePersist : Bool := false
  keepaliveSecs : Option UInt64 := none
  stateFile : Option Text := none
  hostname : Option Text := none
  magicDns : Bool := false
  noMagicDns : Bool := false
  magicDnsSuffix : Option Text := none

/-- `Option::ok_or`. -/
def okOr {α : Type} (e : ConfigError) : Option α → Except ConfigError α
  | some a => .ok a
  | none => .error e

section

variable (H : Host)

def FileConfig.load (path : Text) : Except ConfigError FileConfig :=
  match H.files path with
  | none => .error (.read path)
  | some obj => okOr (.parse path) (obj.bind (FileConfig.fromJson H.parsers))

def loadFile : Option Text → Except ConfigError FileConfig
  | some path => FileConfig.load H path
  | none => .ok {}

def resolveCrypto (cipherName password : Option Text) :
    Except ConfigError (Cipher × List UInt8) := do
  let cipher ← (Cipher.fromName (cipherName.getD DEFAULT_CIPHER)).mapError .cipher
  let password ← okOr (.missing "password") password
  return (cipher, evpBytesToKey H.primitives (asBytes password) cipher.keyLen)

def resolveHostname (cli file : Option Text) : Text :=
  sanitizeHostname ((cli.or file).getD H.osHostname)

def obfsOf (file : FileConfig) : Option Text :=
  file.obfs.filter fun s => !s.isEmpty && s != "none".toList

/-! The policy of the client. -/

def defaultCacheFile : Text := join (H.exeDir.getD ['.']) DEFAULT_CACHE_FILE_NAME

def dataFileInDir (dir name : Text) : Option Text :=
  if H.isFile (join dir name) then some (join dir name) else none

def bundledGfwlist (mode : Mode) (dir : Text) : Option Text :=
  if mode = .gfwList ∨ mode = .chinaDns then dataFileInDir H dir DEFAULT_GFWLIST_NAME else none

def bundledGeoip (mode : Mode) (chnrouteSet : Bool) (dir : Text) : Option Text :=
  if mode = .chinaDns ∧ !chnrouteSet then dataFileInDir H dir DEFAULT_GEOIP_DB_NAME else none

def socketOf (ip : IpAddr) (port : UInt16) : SocketAddr :=
  match ip with
  | .v4 a => .v4 a port
  | .v6 a => .v6 a port 0 0

def parseDnsAddr (field : String) (value : Text) (defaultPort : UInt16) :
    Except ConfigError SocketAddr :=
  match H.parsers.socketAddr value with
  | some addr => .ok addr
  | none =>
    match H.parsers.ip value with
    | some ip => .ok (socketOf ip defaultPort)
    | none => .error (.invalid field
        ("`" ++ String.ofList value ++ "` is not an `ip` or `ip:port` address"))

def resolveMagicDns (args : ClientArgs) (file : FileConfig) : Bool :=
  if args.noMagicDns then false
  else if args.magicDns then true
  else file.magicDns.getD true

def resolveMagicSuffix (args : ClientArgs) (file : FileConfig) : Except ConfigError Text :=
  okOr (.invalid "magic_dns_suffix" "must be a non-empty DNS label")
    (sanitizeSuffix ((args.magicDnsSuffix.or file.magicDnsSuffix).getD DEFAULT_SUFFIX))

def modeOf (name : Option Text) : Except ConfigError Mode :=
  match name with
  | some name => (Mode.fromName name).mapError .policy
  | none => .ok .full

def resolvePolicy (args : ClientArgs) (file : FileConfig) : Except ConfigError PolicyConfig := do
  let mode ← modeOf (args.mode.or file.mode)
  let dnsListen ← parseDnsAddr H "dns_listen"
    ((args.dnsListen.or file.dnsListen).getD DEFAULT_DNS_LISTEN) 53
  let dnsLocal ← parseDnsAddr H "dns_local"
    ((args.dnsLocal.or file.dnsLocal).getD DEFAULT_DNS_LOCAL) 53
  let dnsRemote ← parseDnsAddr H "dns_remote"
    ((args.dnsRemote.or file.dnsRemote).getD DEFAULT_DNS_REMOTE) 53
  let gfwlist := (args.gfwlist.or file.gfwlist).or (H.exeDir.bind (bundledGfwlist H mode))
  let chnroute := args.chnroute.or file.chnroute
  let geoip := (args.geoip.or file.geoip).or (H.exeDir.bind (bundledGeoip H mode chnroute.isSome))
  if mode = .gfwList ∧ gfwlist.isNone then
    .error (.missing "gfwlist (required by gfwlist mode)")
  else if mode = .chinaDns ∧ chnroute.isNone ∧ geoip.isNone then
    .error (.missing "chnroute or geoip (required by chinadns mode)")
  else do
    let suffix ← resolveMagicSuffix args file
    return {
      mode, dnsListen, dnsLocal, dnsRemote, gfwlist, chnroute, geoip
      geoipCountry := (args.geoipCountry.or file.geoipCountry).getD DEFAULT_GEOIP_COUNTRY
      prewarm := if args.noPrewarm then [] else file.prewarm.getD DEFAULT_PREWARM
      cacheFile := if args.noCachePersist then none
        else some ((args.cacheFile.or file.cacheFile).getD (defaultCacheFile H))
      dnsTimeout := (file.dnsTimeoutMs.getD DEFAULT_DNS_TIMEOUT_MS).toNat * 1000000
      magicDns := resolveMagicDns args file
      magicDnsSuffix := suffix }

/-! The tunnel interface. -/

def resolveTun (name : Option Text) (ip netmask peerIp : Option Ipv4Addr)
    (ip6 : Option Ipv6Network) (mtu : Option UInt16) : Except ConfigError TunConfig := do
  let ip ← okOr (.missing "tun_ip") ip
  let peerIp ← okOr (.missing "peer_ip") peerIp
  return ⟨name, ip, netmask.getD DEFAULT_NETMASK, peerIp, ip6, mtu.getD DEFAULT_TUN_MTU⟩

/-- Both addresses or neither; then whether they are to be assigned, and an IPv6 one with them. -/
def resolveClientTun (name : Option Text) (ip netmask peerIp : Option Ipv4Addr)
    (ip6 : Option Ipv6Network) (mtu : Option UInt16) :
    Except ConfigError (TunConfig × Bool × Bool) :=
  if ip.isSome = peerIp.isSome then
    let autoTun := ip.isNone
    .ok (⟨name, ip.getD UNSPECIFIED, netmask.getD DEFAULT_NETMASK, peerIp.getD UNSPECIFIED, ip6,
      mtu.getD DEFAULT_TUN_MTU⟩, autoTun, autoTun && ip6.isNone)
  else .error (.invalid "tun_ip"
    "tun_ip and peer_ip must both be set, or both omitted for auto-assign")

def IpNetwork.prefixLen : IpNetwork → UInt8
  | .v4 net => net.prefixLen
  | .v6 net => net.prefixLen

def validateAdvertised (routes : List IpNetwork) : Except ConfigError Unit :=
  if routes.length > MAX_ROUTES then
    .error (.invalid "advertise_routes" "at most 64 routes may be advertised")
  else
    match routes.find? fun net => net.prefixLen = 0 with
    | some net => .error (.invalid "advertise_routes"
        ("`" ++ H.displayNetwork net ++ "` is a default route; advertise specific subnets instead"))
    | none => .ok ()

/-! The range of the assigner. -/

def tunV4Network (ip netmask : Ipv4Addr) : Except ConfigError Ipv4Network :=
  if Mask.leadingOnes netmask + Mask.trailingZeros netmask ≠ 32 then
    .error (.invalid "tun_netmask" (H.displayIpv4 netmask ++ " is not a contiguous IPv4 netmask"))
  else
    match Cidr.new (ip &&& netmask) (UInt8.ofNat (Mask.leadingOnes netmask)) with
    | some net => .ok net
    | none => .error (.invalid "tun_ip" "invalid prefix")

/-- The hosts from `start` to `end` that the assigner may give out. -/
def usableHosts (start end_ : BitVec 32) (serverIp : Ipv4Addr) (reserved : List Ipv4Addr) : ℕ :=
  ((List.range' start.toNat (end_.toNat + 1 - start.toNat)).map (BitVec.ofNat 32)).countP
    fun addr => addr != serverIp && !reserved.contains addr

def validateAssignPool (pool : IpNetwork) (tun : Ipv4Network) (serverIp : Ipv4Addr)
    (reserved : List Ipv4Addr) : Except ConfigError Ipv4Network :=
  match canonical pool with
  | .v6 _ => .error (.invalid "assign_pool" "must be an IPv4 CIDR")
  | .v4 pool =>
    if pool.prefixLen < tun.prefixLen ∨ tun.contains pool.ip = false then
      .error (.invalid "assign_pool" (H.displayNetwork (.v4 pool) ++
        " is not a subset of the TUN network " ++ H.displayNetwork (.v4 tun)))
    else
      let range := hostRange pool.network pool.mask
      if usableHosts range.1 range.2 serverIp reserved = 0 then
        .error (.invalid "assign_pool" (H.displayNetwork (.v4 pool) ++
          " has no assignable hosts after excluding the network, broadcast, server IP, and reserved addresses"))
      else .ok pool

def defaultLeaseFile : Option Text → Text
  | some path => path ++ ".leases.json".toList
  | none => H.leaseFile

def leaseFileOf (cli file config : Option Text) : Option Text :=
  match cli.or file with
  | some path => if path = ['-'] then none else some path
  | none => some (defaultLeaseFile H config)

/-- The peer address first, then the others that are not in the list yet. -/
def reservedOf (peerIp : Ipv4Addr) (extra : List Ipv4Addr) : List Ipv4Addr :=
  extra.foldl (fun reserved ip => if reserved.contains ip then reserved else reserved ++ [ip]) [peerIp]

def assignPoolOf (pool : Option IpNetwork) (tun : TunConfig) (reserved : List Ipv4Addr) :
    Except ConfigError (Option Ipv4Network) :=
  match pool with
  | none => .ok none
  | some pool => do
    let net ← tunV4Network H tun.ip tun.netmask
    let pool ← validateAssignPool H pool net tun.ip reserved
    return some pool

def ServerArgs.resolve (args : ServerArgs) : Except ConfigError ServerConfig := do
  let file ← loadFile H args.config
  let listen ← okOr (.missing "listen") (args.listen.or file.server)
  let crypto ← resolveCrypto H (args.cipher.or file.cipher) (args.password.or file.password)
  let tun ← resolveTun (args.tunName.or file.tunName) (args.tunIp.or file.tunIp)
    (args.tunNetmask.or file.tunNetmask) (args.peerIp.or file.peerIp) (args.tunIp6.or file.tunIp6)
    (args.mtu.or file.mtu)
  let nat := args.nat || file.nat.getD false
  let routeApproval : RouteApproval :=
    ⟨args.autoApproveRoutes || file.autoApproveRoutes.getD false,
      (args.approveRoutes.or file.approveRoutes).getD []⟩
  if nat ∧ (routeApproval.auto ∨ routeApproval.allowlist ≠ [] ∨ tun.ip6.isSome) then
    .error (.invalid "nat"
      "mesh subnet routing (approve_routes / auto_approve_routes / tun_ip6) requires learning mode; remove --nat")
  else do
    let reservedIps := reservedOf tun.peerIp ((args.reservedIps.or file.reservedIps).getD [])
    let assignPool ← assignPoolOf H (args.assignPool.or file.assignPool) tun reservedIps
    return {
      listen
      cipher := crypto.1
      masterKey := crypto.2
      tun
      obfs := obfsOf file
      nat
      leaseTtl := Duration.fromSecs
        ((args.leaseTtlSecs.or file.leaseTtlSecs).getD DEFAULT_LEASE_TTL_SECS).toNat
      routeApproval
      assignPool
      reservedIps
      assignTtl := Duration.fromSecs
        ((args.assignTtlSecs.or file.assignTtlSecs).getD DEFAULT_ASSIGN_TTL_SECS).toNat
      leaseFile := leaseFileOf H args.leaseFile file.leaseFile args.config
      hostname := resolveHostname H args.hostname file.hostname }

def defaultClientStatePath (config : Option Text) (server : Text) : Text :=
  match config with
  | some path => path ++ ".state".toList
  | none => H.stateFile server

def ClientArgs.resolve (args : ClientArgs) : Except ConfigError ClientConfig := do
  let file ← loadFile H args.config
  let policy ← resolvePolicy H args file
  let server ← okOr (.missing "server") (args.server.or file.server)
  let crypto ← resolveCrypto H (args.cipher.or file.cipher) (args.password.or file.password)
  let tun ← resolveClientTun (args.tunName.or file.tunName) (args.tunIp.or file.tunIp)
    (args.tunNetmask.or file.tunNetmask) (args.peerIp.or file.peerIp) (args.tunIp6.or file.tunIp6)
    (args.mtu.or file.mtu)
  let keepaliveSecs := (args.keepaliveSecs.or file.keepaliveSecs).getD DEFAULT_KEEPALIVE_SECS
  if keepaliveSecs = 0 then .error (.invalid "keepalive_secs" "must be at least 1 second")
  else do
    let advertiseRoutes := (args.advertiseRoutes.or file.advertiseRoutes).getD []
    validateAdvertised H advertiseRoutes
    return {
      server
      cipher := crypto.1
      masterKey := crypto.2
      tun := tun.1
      autoTun := tun.2.1
      wantIp6 := tun.2.2
      stateFile := some ((args.stateFile.or file.stateFile).getD
        (defaultClientStatePath H args.config server))
      policy
      obfs := obfsOf file
      keepalive := Duration.fromSecs keepaliveSecs.toNat
      advertiseRoutes
      acceptRoutes := args.acceptRoutes || file.acceptRoutes.getD false
      hostname := resolveHostname H args.hostname file.hostname
      magicDns := policy.magicDns
      magicDnsSuffix := policy.magicDnsSuffix }

end

/-! What the server starts with (`bin/server.rs`). -/

inductive Routing where
  | nat (s : NatState)
  | learn (s : LearnState)

def buildAssigner (cfg : ServerConfig) (clock now : SystemTime) (io : Io) (disk : LeaseFile) :
    Except Panic Assigner := do
  let started ← Assigner.new ⟨cfg.tun.ip, cfg.tun.netmask, cfg.tun.ip6, cfg.tun.peerIp,
    cfg.reservedIps, cfg.assignTtl, cfg.leaseFile⟩ clock now io disk
  return started.assigner.configured
    (cfg.assignPool.map fun pool => hostRange pool.network pool.mask)

def ServerConfig.routing (cfg : ServerConfig) (clock now : SystemTime) (io : Io)
    (disk : LeaseFile) : Except Panic Routing :=
  if cfg.nat then .ok (.nat (NatState.new cfg.tun.ip cfg.tun.netmask cfg.leaseTtl))
  else do
    let assigner ← buildAssigner cfg clock now io disk
    return .learn ⟨Learned.empty, assigner,
      NameTable.withServer cfg.hostname cfg.tun.ip (cfg.tun.ip6.map Cidr.ip), cfg.leaseTtl⟩

/-- The inclusive range that the allocator takes addresses from. -/
def Routing.range : Routing → BitVec 32 × BitVec 32
  | .nat s => (s.pool.start, s.pool.end_)
  | .learn s => (s.assigner.start, s.assigner.end_)

end ShadowVpn
