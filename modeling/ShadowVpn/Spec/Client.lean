import ShadowVpn.Spec.Config
import ShadowVpn.Spec.Kernel

/-! The client's assignment (`bin/client.rs`, in auto mode): the start with a cached one, the
replies of the server, and what is built for the address that they give: the DNS proxy with its
routes, the installer of pushed routes and the guard of the tunnel's subnet. -/

namespace ShadowVpn

open Lib

/-- The outermost text of an error. -/
structure ClientError where
  message : String
deriving DecidableEq

/-- What one call meets outside of the client. -/
structure Outside where
  creates : Bool
  assigns : Bool
  /-- `interface_index`, for the guard, the router of the proxy and the installer. -/
  guardIndex : Option UInt32
  routerIndex : Option UInt32
  installerIndex : Option UInt32
  /-- Which changes of routes succeed, and the order of the sets of routes. -/
  kernel : RouteCall → Bool
  netOrder : IterOrder IpNetwork Unit
  ipOrder : IterOrder Ipv4Addr Unit
  listsLoad : Bool
  /-- The resolvers whose traffic is drawn to the tunnel. -/
  attract : List Ipv4Addr
  binds : Bool
  sends : Control → Bool
  persists : Bool
  unixNow : UInt64

/-! The DNS proxy. -/

/-- A resolver with the addresses that its queries are sent from. -/
structure BoundResolver where
  directSrc : IpAddr
  tunnelSrc : IpAddr
deriving DecidableEq

structure PolicyHandle where
  resolver : BoundResolver
  router : TunRouter

def routeUpstream (kernel : RouteCall → Bool) (cfg : PolicyConfig) (s : Tunnelling) :
    Option Tunnelling :=
  if cfg.mode.isEnabled then
    match cfg.dnsRemote with
    | .v4 ip _ =>
      let r := s.addRoute kernel ip
      if r.2.ok then some r.1 else none
    | .v6 .. => some s
  else some s

/-- `policy::spawn`; `none` for any of its errors. -/
def spawn (o : Outside) (cfg : PolicyConfig) (tunIp : Ipv4Addr) (serverIp directSrc : IpAddr)
    (table : RouteTable) : Option (PolicyHandle × RouteTable) :=
  if !cfg.mode.isEnabled && !cfg.magicDns then none
  else if !o.listsLoad then none
  else
    match o.routerIndex with
    | none => none
    | some ifindex =>
      let router := TunRouter.new ifindex tunIp
      let router :=
        match serverIp with
        | .v4 ip => router.exclude ip
        | .v6 _ => router
      match routeUpstream o.kernel cfg ⟨router, table⟩ with
      | none => none
      | some s =>
        let s := o.attract.foldl (fun s ip => (s.addRoute o.kernel ip).1) s
        if !o.binds then none
        else some (⟨⟨directSrc, .v4 tunIp⟩, s.router⟩, s.table)

def PolicyHandle.deleteAll (o : Outside) (h : PolicyHandle) (table : RouteTable) : RouteTable :=
  (h.router.drain o.ipOrder).1.foldl
    (fun table ip => table.modify o.kernel (h.router.routeCall false ip)) table

/-! The configuration. -/

structure LastAssign where
  tunIp : Ipv4Addr
  tunNetmask : Ipv4Addr
  peerIp : Ipv4Addr
  tunIp6 : Option Ipv6Network
  assignedAtUnix : UInt64
deriving DecidableEq

namespace ClientConfig

/-- An IPv6 address that is configured stays. -/
def overlayCachedAssignment (cfg : ClientConfig) (tunIp netmask peerIp : Ipv4Addr)
    (tunIp6 : Option Ipv6Network) : ClientConfig :=
  { cfg with
    tun := { cfg.tun with
      ip := tunIp
      netmask := netmask
      peerIp := peerIp
      ip6 := if cfg.wantIp6 then tunIp6 else cfg.tun.ip6 } }

def withCached (cfg : ClientConfig) : Option LastAssign → ClientConfig
  | some last => cfg.overlayCachedAssignment last.tunIp last.tunNetmask last.peerIp last.tunIp6
  | none => cfg

def meshActive (cfg : ClientConfig) : Bool := cfg.acceptRoutes || !cfg.advertiseRoutes.isEmpty

def routeAdvert (cfg : ClientConfig) : RouteAdvert :=
  ⟨cfg.tun.ip, cfg.tun.ip6.map Cidr.ip, cfg.acceptRoutes, cfg.advertiseRoutes⟩

def nameAdvert (cfg : ClientConfig) : NameAdvert :=
  ⟨cfg.magicDns, cfg.tun.ip, cfg.tun.ip6.map Cidr.ip, cfg.hostname⟩

def adverts (cfg : ClientConfig) : List Control :=
  (if cfg.meshActive then [.routeAdvert cfg.routeAdvert] else []) ++
    if cfg.magicDns then [.nameAdvert cfg.nameAdvert] else []

end ClientConfig

def replyIp6 (wantIp6 : Bool) (reply : Assign) (staticIp6 : Option Ipv6Network) :
    Option Ipv6Network :=
  if wantIp6 then
    reply.tunIp6.bind fun ip => if reply.plen6 != 0 then Cidr.new ip reply.plen6 else none
  else staticIp6

/-! The client. -/

/-- The variables of `run` that an assignment changes. The installer stands for its slot and for
the guard that removes its routes, which are set and cleared together. -/
structure ClientRun where
  cfg : ClientConfig
  policyHandle : Option PolicyHandle
  dnsSlot : Option BoundResolver
  installer : Option RouteInstaller
  subnetGuard : Option SubnetRouteGuard
  table : RouteTable
  lastAssign : Option LastAssign
  assignedOk : Bool
  gotOk : Bool
  assignRetry : Bool
  keepTick : Bool
  hintedRouting : Bool

namespace ClientRun

variable (serverIp directSrc : IpAddr)

def startPolicy (o : Outside) (s : ClientRun) : Except ClientError ClientRun :=
  if (s.cfg.policy.mode.isEnabled || s.cfg.magicDns) && s.policyHandle.isNone then
    match spawn o s.cfg.policy s.cfg.tun.ip serverIp directSrc s.table with
    | none => .error ⟨"failed to start DNS proxy"⟩
    | some (handle, table) =>
      .ok { s with dnsSlot := some handle.resolver, policyHandle := some handle, table := table }
  else .ok s

def startInstaller (o : Outside) (s : ClientRun) : Except ClientError ClientRun :=
  if s.cfg.acceptRoutes && s.installer.isNone then
    match o.installerIndex with
    | none => .error ⟨"setting up the mesh route installer"⟩
    | some ifindex => .ok { s with installer := some (.new ifindex s.cfg.tun.ip serverIp) }
  else .ok s

def startPolicyAndInstaller (o : Outside) (s : ClientRun) : Except ClientError ClientRun := do
  let s ← s.startPolicy serverIp directSrc o
  s.startInstaller serverIp o

def shutdownPolicy (o : Outside) (s : ClientRun) : ClientRun :=
  match s.policyHandle with
  | none => { s with dnsSlot := none }
  | some old => { s with dnsSlot := none, policyHandle := none, table := old.deleteAll o s.table }

/-- The slot is cleared, and the guard removes the routes as it is dropped. -/
def shutdownInstaller (o : Outside) (s : ClientRun) : ClientRun :=
  if s.cfg.acceptRoutes then
    match s.installer with
    | none => s
    | some old =>
      { s with
        installer := none
        table := (Installing.removeAll o.kernel o.netOrder ⟨old, s.table, []⟩).table }
  else s

def stopOld (o : Outside) (ipv4Changed : Bool) (s : ClientRun) : ClientRun :=
  if ipv4Changed then (s.shutdownPolicy o).shutdownInstaller o else s

def applyGuard (o : Outside) (message : String) (tunIp netmask : Ipv4Addr)
    (ip6 : Option Ipv6Network) (g : SubnetRouteGuard) (s : ClientRun) :
    Except ClientError ClientRun :=
  let r := Guarding.apply o.kernel ⟨g, s.table⟩ tunIp netmask ip6
  if r.2 then .ok { s with subnetGuard := some r.1.guard, table := r.1.table }
  else .error ⟨message⟩

def newGuard (o : Outside) (message : String) (tunIp netmask : Ipv4Addr)
    (ip6 : Option Ipv6Network) (s : ClientRun) : Except ClientError ClientRun :=
  match o.guardIndex with
  | none => .error ⟨"setting up the TUN subnet route"⟩
  | some ifindex => s.applyGuard o message tunIp netmask ip6 (.new ifindex)

def refreshGuard (o : Outside) (tunIp netmask : Ipv4Addr) (ip6 : Option Ipv6Network)
    (s : ClientRun) : Except ClientError ClientRun :=
  match s.subnetGuard with
  | some g => s.applyGuard o "refreshing TUN subnet route" tunIp netmask ip6 g
  | none => s.newGuard o "installing TUN subnet route" tunIp netmask ip6

def persistAssignment (o : Outside) (reply : Assign) (ip6 : Option Ipv6Network) (s : ClientRun) :
    ClientRun :=
  if o.persists then
    { s with lastAssign := some ⟨reply.tunIp, reply.netmask, reply.peerIp, ip6, o.unixNow⟩ }
  else s

def markOk (firstOk : Bool) (s : ClientRun) : ClientRun :=
  if firstOk then
    { s with assignedOk := true, gotOk := true, assignRetry := false, keepTick := true }
  else s

def hint (s : ClientRun) : ClientRun :=
  if !s.hintedRouting && !s.cfg.policy.mode.isEnabled then { s with hintedRouting := true } else s

def start (o : Outside) (cfg : ClientConfig) (last : Option LastAssign) :
    Except ClientError ClientRun :=
  let cfg := cfg.withCached last
  let s : ClientRun := ⟨cfg, none, none, none, none, ∅, last, false, false, true, false, false⟩
  if !o.creates then
    .error ⟨"failed to create TUN device (need root/elevated privileges); auto-assign (no IPv4 yet)"⟩
  else if cfg.tun.ip = UNSPECIFIED then .ok s
  else if !o.assigns then .error ⟨"failed to apply cached tunnel assignment"⟩
  else do
    let s ← s.startPolicyAndInstaller serverIp directSrc o
    let s ← s.newGuard o "installing cached TUN subnet route" cfg.tun.ip cfg.tun.netmask cfg.tun.ip6
    return s.hint

/-- The part of `handle_assign_reply` for an assignment that is not the current one. -/
def adopt (o : Outside) (reply : Assign) (ip6 : Option Ipv6Network) (s : ClientRun) :
    Except ClientError (ClientRun × List Control) :=
  let firstOk := !s.gotOk
  let ipv4Changed := s.cfg.tun.ip ≠ UNSPECIFIED && s.cfg.tun.ip ≠ reply.tunIp
  if !o.assigns then .error ⟨"failed to apply tunnel assignment"⟩
  else do
    let cfg := s.cfg.overlayCachedAssignment reply.tunIp reply.netmask reply.peerIp ip6
    let s ← { s with cfg := cfg }.refreshGuard o reply.tunIp reply.netmask ip6
    let s ← (s.stopOld o ipv4Changed).startPolicyAndInstaller serverIp directSrc o
    let s := ((s.persistAssignment o reply ip6).markOk firstOk).hint
    let adverts := if firstOk || ipv4Changed then s.cfg.adverts else []
    if adverts.all o.sends then return (s, adverts)
    else .error ⟨"failed to send control payload to server"⟩

/-- Returns the adverts that are sent. -/
def handleAssignReply (o : Outside) (reply : Assign) (s : ClientRun) :
    Except ClientError (ClientRun × List Control) :=
  match reply.status with
  | .exhausted => if s.gotOk then .ok (s, []) else .error ⟨"server address pool exhausted"⟩
  | .natMode =>
    if s.gotOk then .ok (s, []) else .error ⟨"server is in NAT mode; assignment is disabled"⟩
  | .ok =>
    let staticIp6 := if s.cfg.wantIp6 then none else s.cfg.tun.ip6
    let ip6 := replyIp6 s.cfg.wantIp6 reply staticIp6
    if s.gotOk ∧ reply.tunIp = s.cfg.tun.ip ∧ reply.netmask = s.cfg.tun.netmask ∧
        reply.peerIp = s.cfg.tun.peerIp ∧ ip6 = s.cfg.tun.ip6 then .ok (s, [])
    else s.adopt serverIp directSrc o reply ip6

/-- Replies of the server, with the route pushes and the addresses of the proxy's answers that
come between them. -/
inductive Event where
  | reply (o : Outside) (reply : Assign)
  | push (kernel : RouteCall → Bool) (order : IterOrder IpNetwork Unit) (routes : List IpNetwork)
  | resolved (kernel : RouteCall → Bool) (ip : Ipv4Addr)

def step (s : ClientRun) : Event → Except ClientError (ClientRun × List Control)
  | .reply o reply => s.handleAssignReply serverIp directSrc o reply
  | .push kernel order routes =>
    match s.installer with
    | none => .ok (s, [])
    | some installer =>
      let r := Installing.apply kernel order ⟨installer, s.table, []⟩ routes
      .ok ({ s with installer := some r.installer, table := r.table }, [])
  | .resolved kernel ip =>
    match s.policyHandle with
    | none => .ok (s, [])
    | some handle =>
      let r := Tunnelling.addRoute kernel ⟨handle.router, s.table⟩ ip
      .ok ({ s with policyHandle := some { handle with router := r.1.router }, table := r.1.table },
        [])

end ClientRun

end ShadowVpn
