import ShadowVpn.Spec.Routes

/-! The kernel's route table and the parts of the client that program it: the installer of
pushed subnets, the guard of the tunnel's own subnet, and the router of single addresses. -/

namespace ShadowVpn

open Lib

/-- What tells routes apart. -/
structure RouteKey where
  ifindex : UInt32
  dst : IpAddr
  prefixLen : UInt8
deriving DecidableEq

def RouteCall.key (c : RouteCall) : RouteKey := ⟨c.ifindex, c.dst, c.prefixLen⟩

abbrev RouteTable := HashSet RouteKey

/-- `modify_route`, where `kernel` says which calls succeed. Adding replaces a route that is
there, removing one that is not does nothing, and a failed call leaves the table alone. -/
def RouteTable.modify (kernel : RouteCall → Bool) (t : RouteTable) (c : RouteCall) : RouteTable :=
  if kernel c then
    if c.add then t.insert c.key () else t.erase c.key
  else t

/-! The installer. -/

/-- An installer over the routes that it has put into the kernel, and its latest calls. -/
structure Installing where
  installer : RouteInstaller
  table : RouteTable
  calls : List RouteCall

namespace Installing

def new (ifindex : UInt32) (tunIp : Ipv4Addr) (serverIp : IpAddr) : Installing :=
  ⟨.new ifindex tunIp serverIp, ∅, []⟩

def modifyRoute (kernel : RouteCall → Bool) (add : Bool) (s : Installing) (net : IpNetwork) :
    Installing :=
  let call := s.installer.routeCall add net
  { s with table := s.table.modify kernel call, calls := s.calls ++ [call] }

/-- A route that covers the server is refused before the call. -/
def install (kernel : RouteCall → Bool) (s : Installing) (net : IpNetwork) : Installing :=
  if SubnetTable.contains net s.installer.serverIp then s
  else { s.modifyRoute kernel true net with installer := s.installer.install kernel net }

def uninstall (kernel : RouteCall → Bool) (s : Installing) (net : IpNetwork) : Installing :=
  { s.modifyRoute kernel false net with installer := s.installer.uninstall net }

def apply (kernel : RouteCall → Bool) (order : IterOrder IpNetwork Unit) (s : Installing)
    (pushed : List IpNetwork) : Installing :=
  let d := diffRoutes order s.installer.installed pushed
  d.2.foldl (uninstall kernel) (d.1.foldl (install kernel) s)

/-- The set is emptied before the first call. -/
def removeAll (kernel : RouteCall → Bool) (order : IterOrder IpNetwork Unit) (s : Installing) :
    Installing :=
  (keysIn order s.installer.installed).foldl (modifyRoute kernel false)
    { s with installer := s.installer.removeAll }

inductive Event where
  | apply (kernel : RouteCall → Bool) (order : IterOrder IpNetwork Unit) (pushed : List IpNetwork)
  | removeAll (kernel : RouteCall → Bool) (order : IterOrder IpNetwork Unit)

/-- Reports the calls that the event makes. -/
def step (s : Installing) (e : Event) : Except Panic (Installing × List RouteCall) :=
  let s' :=
    match e with
    | .apply kernel order pushed => apply kernel order { s with calls := [] } pushed
    | .removeAll kernel order => removeAll kernel order { s with calls := [] }
  .ok (s', s'.calls)

end Installing

/-! The guard of the tunnel's own subnet. -/

structure InstalledPrefix where
  dst : IpAddr
  prefixLen : UInt8
deriving DecidableEq

inductive PrefixAction where
  | refresh
  | replace (old : Option InstalledPrefix)

def prefixAction (current : Option InstalledPrefix) (next : InstalledPrefix) : PrefixAction :=
  if current = some next then .refresh else .replace current

/-- `None` is the error for a mask that is not contiguous. -/
def v4Connected (assigned netmask : Ipv4Addr) : Option InstalledPrefix :=
  (Cidr.withMask assigned netmask).map fun net => ⟨.v4 net.network, net.prefixLen⟩

def ip6Connected (n : Ipv6Network) : InstalledPrefix := ⟨.v6 n.network, n.prefixLen⟩

structure SubnetRouteGuard where
  ifindex : UInt32
  tunIp : Ipv4Addr
  v4 : Option InstalledPrefix
  v6 : Option InstalledPrefix

namespace SubnetRouteGuard

def new (ifindex : UInt32) : SubnetRouteGuard := ⟨ifindex, UNSPECIFIED, none, none⟩

/-- The field of a family. -/
def field (g : SubnetRouteGuard) (isV4 : Bool) : Option InstalledPrefix :=
  if isV4 then g.v4 else g.v6

def setField (g : SubnetRouteGuard) (isV4 : Bool) (p : Option InstalledPrefix) : SubnetRouteGuard :=
  if isV4 then { g with v4 := p } else { g with v6 := p }

def routeCall (g : SubnetRouteGuard) (add : Bool) (p : InstalledPrefix) : RouteCall :=
  ⟨g.ifindex, g.tunIp, p.dst, p.prefixLen, add⟩

end SubnetRouteGuard

/-- The guard over the kernel's table. -/
structure Guarding where
  guard : SubnetRouteGuard
  table : RouteTable

namespace Guarding

/-- Whether the call succeeded is returned with the state. -/
def modifyRoute (kernel : RouteCall → Bool) (add : Bool) (s : Guarding) (p : InstalledPrefix) :
    Guarding × Bool :=
  let call := s.guard.routeCall add p
  ({ s with table := s.table.modify kernel call }, kernel call)

/-- A failure is only logged. -/
def deletePrefix (kernel : RouteCall → Bool) (s : Guarding) (p : InstalledPrefix) : Guarding :=
  (s.modifyRoute kernel false p).1

def setField (s : Guarding) (isV4 : Bool) (p : Option InstalledPrefix) : Guarding :=
  { s with guard := s.guard.setField isV4 p }

/-- The calls of `sync_prefix`; the second part is `false` for an error. An IPv6 route has no
preferred source, so it is left alone when its prefix stays. -/
def syncRoute (kernel : RouteCall → Bool) (isV4 : Bool) (s : Guarding) (next : InstalledPrefix) :
    Guarding × Bool :=
  match prefixAction (s.guard.field isV4) next with
  | .refresh => if isV4 then s.modifyRoute kernel true next else (s, true)
  | .replace old =>
    let s := s.setField isV4 none
    let s := old.elim s (s.deletePrefix kernel)
    s.modifyRoute kernel true next

def syncPrefix (kernel : RouteCall → Bool) (isV4 : Bool) (s : Guarding) (next : InstalledPrefix) :
    Guarding × Bool :=
  let r := s.syncRoute kernel isV4 next
  if r.2 then (r.1.setField isV4 (some next), true) else (r.1, false)

def apply (kernel : RouteCall → Bool) (s : Guarding) (assignedIp netmask : Ipv4Addr)
    (ip6 : Option Ipv6Network) : Guarding × Bool :=
  let s : Guarding := { s with guard := { s.guard with tunIp := assignedIp } }
  match v4Connected assignedIp netmask with
  | none => (s, false)
  | some next =>
    let r := s.syncPrefix kernel true next
    if r.2 then
      match ip6 with
      | some n => r.1.syncPrefix kernel false (ip6Connected n)
      | none =>
        let s := r.1.setField false none
        (r.1.guard.v6.elim s (s.deletePrefix kernel), true)
    else (r.1, false)

/-- One call of `apply`. -/
structure Assign where
  kernel : RouteCall → Bool
  assignedIp : Ipv4Addr
  netmask : Ipv4Addr
  ip6 : Option Ipv6Network

/-- Reports whether the call returned `Ok`. -/
def step (s : Guarding) (a : Assign) : Except Panic (Guarding × Bool) :=
  .ok (s.apply a.kernel a.assignedIp a.netmask a.ip6)

/-- One field of a guard that is dropped. The calls are listed, and a failure is only logged. -/
def release (kernel : RouteCall → Bool) (isV4 : Bool) (r : Guarding × List RouteCall) :
    Guarding × List RouteCall :=
  match r.1.guard.field isV4 with
  | none => r
  | some p =>
    ((r.1.setField isV4 none).deletePrefix kernel p, r.2 ++ [r.1.guard.routeCall false p])

def drop (kernel : RouteCall → Bool) (s : Guarding) : Guarding × List RouteCall :=
  release kernel false (release kernel true (s, []))

end Guarding

/-- The two trackers of one table. -/
structure TunRoutes where
  guard : SubnetRouteGuard
  installer : RouteInstaller
  table : RouteTable

namespace TunRoutes

inductive Event where
  | assign (kernel : RouteCall → Bool) (assignedIp netmask : Ipv4Addr) (ip6 : Option Ipv6Network)
  | push (kernel : RouteCall → Bool) (order : IterOrder IpNetwork Unit) (pushed : List IpNetwork)

def new (ifindex : UInt32) (tunIp : Ipv4Addr) (serverIp : IpAddr) : TunRoutes :=
  ⟨.new ifindex, .new ifindex tunIp serverIp, ∅⟩

/-- Reports whether the event succeeded. -/
def step (s : TunRoutes) : Event → Except Panic (TunRoutes × Bool)
  | .assign kernel assignedIp netmask ip6 =>
    let r := Guarding.apply kernel ⟨s.guard, s.table⟩ assignedIp netmask ip6
    .ok ({ s with guard := r.1.guard, table := r.1.table }, r.2)
  | .push kernel order pushed =>
    let r := Installing.apply kernel order ⟨s.installer, s.table, []⟩ pushed
    .ok ({ s with installer := r.installer, table := r.table }, true)

end TunRoutes

/-! The router of single addresses. -/

structure TunRouter where
  ifindex : UInt32
  tunIp : Ipv4Addr
  excluded : HashSet Ipv4Addr
  added : HashSet Ipv4Addr

namespace TunRouter

def new (ifindex : UInt32) (tunIp : Ipv4Addr) : TunRouter := ⟨ifindex, tunIp, ∅, ∅⟩

def exclude (r : TunRouter) (ip : Ipv4Addr) : TunRouter :=
  { r with excluded := r.excluded.insert ip () }

def routeCall (r : TunRouter) (add : Bool) (ip : Ipv4Addr) : RouteCall :=
  ⟨r.ifindex, r.tunIp, .v4 ip, 32, add⟩

/-- The first half of `add_route`, up to the release of the lock; `none` when it returns
`Ok` there. -/
def record (r : TunRouter) (ip : Ipv4Addr) : Option TunRouter :=
  if (r.excluded.get ip).isSome then none
  else if (r.added.get ip).isSome then none
  else some { r with added := r.added.insert ip () }

/-- The first half of `delete_all`. -/
def drain (order : IterOrder Ipv4Addr Unit) (r : TunRouter) : List Ipv4Addr × TunRouter :=
  (keysIn order r.added, { r with added := ∅ })

end TunRouter

/-- A router over the routes that it has put into the kernel. -/
structure Tunnelling where
  router : TunRouter
  table : RouteTable

namespace Tunnelling

structure Out where
  ok : Bool
  calls : List RouteCall

def addRoute (kernel : RouteCall → Bool) (s : Tunnelling) (ip : Ipv4Addr) : Tunnelling × Out :=
  match s.router.record ip with
  | none => (s, ⟨true, []⟩)
  | some router =>
    let call := router.routeCall true ip
    (⟨router, s.table.modify kernel call⟩, ⟨kernel call, [call]⟩)

structure Event where
  kernel : RouteCall → Bool
  ip : Ipv4Addr

def step (s : Tunnelling) (e : Event) : Except Panic (Tunnelling × Out) :=
  .ok (s.addRoute e.kernel e.ip)

end Tunnelling

/-- Calls of `add_route` in flight with one of `delete_all`, on a kernel that takes every
call. -/
structure Teardown where
  router : TunRouter
  table : RouteTable
  /-- Addresses that are recorded and not yet installed, one for each call. -/
  pending : List Ipv4Addr
  /-- The addresses that `delete_all` has drained and not yet deleted, once it has begun. -/
  drained : Option (List Ipv4Addr)

namespace Teardown

def new (router : TunRouter) : Teardown := ⟨router, ∅, [], none⟩

/-- The atomic parts of the calls. -/
inductive Event where
  | record (ip : Ipv4Addr)
  | install (ip : Ipv4Addr)
  | drain (order : IterOrder Ipv4Addr Unit)
  | delete

/-- An event that no call can take next is an error. -/
def step (s : Teardown) : Event → Except Unit (Teardown × Unit)
  | .record ip =>
    match s.router.record ip with
    | none => .ok (s, ())
    | some router => .ok ({ s with router := router, pending := ip :: s.pending }, ())
  | .install ip =>
    if ip ∈ s.pending then
      .ok ({ s with
        table := s.table.modify (fun _ => true) (s.router.routeCall true ip)
        pending := s.pending.erase ip }, ())
    else .error ()
  | .drain order =>
    match s.drained with
    | some _ => .error ()
    | none =>
      let d := s.router.drain order
      .ok ({ s with router := d.2, drained := some d.1 }, ())
  | .delete =>
    match s.drained with
    | some (ip :: rest) =>
      .ok ({ s with
        table := s.table.modify (fun _ => true) (s.router.routeCall false ip)
        drained := some rest }, ())
    | _ => .error ()

end Teardown

end ShadowVpn
