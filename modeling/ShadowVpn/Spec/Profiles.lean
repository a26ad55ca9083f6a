import ShadowVpn.Spec.Config

/-! The profiles of the desktop app (`profiles.rs`): their fields are texts, checked before they
are written as a configuration file of the client. -/

namespace ShadowVpn

open Lib

structure ProfileConfig where
  server : Option Text := none
  password : Option Text := none
  cipher : Option Text := none
  tunName : Option Text := none
  tunIp : Option Text := none
  tunNetmask : Option Text := none
  peerIp : Option Text := none
  tunIp6 : Option Text := none
  mtu : Option UInt16 := none
  obfs : Option Text := none
  nat : Option Bool := none
  leaseTtlSecs : Option UInt64 := none
  assignPool : Option Text := none
  reservedIps : Option (List Text) := none
  assignTtlSecs : Option UInt64 := none
  leaseFile : Option Text := none
  keepaliveSecs : Option UInt64 := none
  stateFile : Option Text := none
  advertiseRoutes : Option (List Text) := none
  acceptRoutes : Option Bool := none
  approveRoutes : Option (List Text) := none
  autoApproveRoutes : Option Bool := none
  mode : Option Text := none
  dnsListen : Option Text := none
  dnsLocal : Option Text := none
  dnsRemote : Option Text := none
  gfwlist : Option Text := none
  chnroute : Option Text := none
  geoip : Option Text := none
  geoipCountry : Option Text := none
  setDns : Option Bool := none
  prewarm : Option (List Text) := none
  cacheFile : Option Text := none
  dnsTimeoutMs : Option UInt64 := none
  hostname : Option Text := none
  magicDns : Option Bool := none
  magicDnsSuffix : Option Text := none

/-- What `serde_json` writes: the fields that are set. -/
def ProfileConfig.members (config : ProfileConfig) : List (String × Option Json) :=
  [("server", config.server.map .text),
    ("password", config.password.map .text),
    ("cipher", config.cipher.map .text),
    ("tun_name", config.tunName.map .text),
    ("tun_ip", config.tunIp.map .text),
    ("tun_netmask", config.tunNetmask.map .text),
    ("peer_ip", config.peerIp.map .text),
    ("tun_ip6", config.tunIp6.map .text),
    ("mtu", config.mtu.map .ofU16),
    ("obfs", config.obfs.map .text),
    ("nat", config.nat.map .bool),
    ("lease_ttl_secs", config.leaseTtlSecs.map .ofU64),
    ("assign_pool", config.assignPool.map .text),
    ("reserved_ips", config.reservedIps.map .texts),
    ("assign_ttl_secs", config.assignTtlSecs.map .ofU64),
    ("lease_file", config.leaseFile.map .text),
    ("keepalive_secs", config.keepaliveSecs.map .ofU64),
    ("state_file", config.stateFile.map .text),
    ("advertise_routes", config.advertiseRoutes.map .texts),
    ("accept_routes", config.acceptRoutes.map .bool),
    ("approve_routes", config.approveRoutes.map .texts),
    ("auto_approve_routes", config.autoApproveRoutes.map .bool),
    ("mode", config.mode.map .text),
    ("dns_listen", config.dnsListen.map .text),
    ("dns_local", config.dnsLocal.map .text),
    ("dns_remote", config.dnsRemote.map .text),
    ("gfwlist", config.gfwlist.map .text),
    ("chnroute", config.chnroute.map .text),
    ("geoip", config.geoip.map .text),
    ("geoip_country", config.geoipCountry.map .text),
    ("set_dns", config.setDns.map .bool),
    ("prewarm", config.prewarm.map .texts),
    ("cache_file", config.cacheFile.map .text),
    ("dns_timeout_ms", config.dnsTimeoutMs.map .ofU64),
    ("hostname", config.hostname.map .text),
    ("magic_dns", config.magicDns.map .bool),
    ("magic_dns_suffix", config.magicDnsSuffix.map .text)]

def ProfileConfig.toJson (config : ProfileConfig) : Json.Object := .ofMembers config.members

/-- The data files next to the client binary. -/
structure BundledData where
  geoip : Bool
  gfwlist : Bool

/-- `dir` is the directory of the client binary that the app will run, if there is one. -/
def bundledData (H : Host) (dir : Option Text) : BundledData :=
  match dir with
  | none => ⟨false, false⟩
  | some dir =>
    ⟨H.isFile (join dir "GeoLite2-Country.mmdb".toList), H.isFile (join dir "gfwlist.txt".toList)⟩

section

variable (P : Parsers) (config : ProfileConfig)

def parseIpv4 (field : String) (s : Text) : Except String Unit :=
  if (P.ipv4 s).isSome then .ok ()
  else .error ("invalid ipv4 address for " ++ field ++ ": '" ++ String.ofList s ++ "'")

/-! `validate_config`, check by check. -/

def validateTun : Except String Unit :=
  let tunIp := config.tunIp.getD []
  let peerIp := config.peerIp.getD []
  match tunIp.isEmpty, peerIp.isEmpty with
  | true, true => .ok ()
  | false, false => do
    parseIpv4 P "tun_ip" tunIp
    parseIpv4 P "peer_ip" peerIp
  | _, _ => .error "tun_ip and peer_ip must both be set, or both omitted for auto-assign"

def validateNetmask : Except String Unit :=
  match config.tunNetmask.filter fun s => !s.isEmpty with
  | some mask => parseIpv4 P "tun_netmask" mask
  | none => .ok ()

/-- A name from a list, if there is one. -/
def validateName (field : String) (names : List String) (name : Option Text) :
    Except String Unit :=
  match name with
  | some name =>
    if name ∈ names.map String.toList then .ok ()
    else .error ("invalid " ++ field ++ " '" ++ String.ofList name ++ "'")
  | none => .ok ()

def validateMode (bundled : BundledData) : Except String Unit :=
  match config.mode with
  | none => .ok ()
  | some mode =>
    if mode = "full".toList then .ok ()
    else if mode = "gfwlist".toList then
      if (config.gfwlist.getD []).isEmpty && !bundled.gfwlist then
        .error "mode=gfwlist requires a gfwlist path (no gfwlist is bundled with the client)"
      else .ok ()
    else if mode = "chinadns".toList then
      if (config.chnroute.getD []).isEmpty && (config.geoip.getD []).isEmpty && !bundled.geoip then
        .error "mode=chinadns requires chnroute or geoip (no GeoLite2 database is bundled with the client)"
      else .ok ()
    else .error ("invalid mode '" ++ String.ofList mode ++ "'")

def validateConfig (bundled : BundledData) : Except String Unit :=
  if (config.server.getD []).isEmpty then .error "server is required"
  else if (config.password.getD []).isEmpty then .error "password is required"
  else do
    validateTun P config
    validateNetmask P config
    validateName "cipher" ["aes-128-gcm", "aes-256-gcm", "chacha20-poly1305"] config.cipher
    validateName "obfs" ["none", "quic", "base64"] config.obfs
    validateMode config bundled

end

/-- `^[A-Za-z0-9][A-Za-z0-9 ._-]{0,63}$`. -/
def validateProfileName (name : Text) : Except String Unit :=
  let invalid := fun why => .error ("invalid profile name '" ++ String.ofList name ++ "': " ++ why)
  match name with
  | [] => invalid "must be 1-64 characters"
  | first :: rest =>
    if name.length > 64 then invalid "must be 1-64 characters"
    else if !first.isAlphanum then invalid "must start with a letter or digit"
    else if rest.all fun c => c.isAlphanum || c ∈ [' ', '.', '_', '-'] then .ok ()
    else invalid "only letters, digits, spaces, '.', '_', '-' are allowed"

def profilePath (dir name : Text) : Text := join dir (name ++ ".json".toList)

/-- The machine after a profile was saved. `profilesDir` is the app's directory of profiles, and
`written` is how the write ends; the app looks for data files where the client will. -/
def saveProfile (H : Host) (profilesDir : Except String Text) (written : Except String Unit)
    (name : Text) (config : ProfileConfig) : Except String Host := do
  validateProfileName name
  validateConfig H.parsers config (bundledData H H.exeDir)
  let dir ← profilesDir
  written.mapError fun e => "cannot write profile '" ++ String.ofList name ++ "': " ++ e
  return { H with
    files := Function.update H.files (profilePath dir name) (some (some config.toJson)) }

end ShadowVpn
