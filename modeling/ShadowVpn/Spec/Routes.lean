import ShadowVpn.Spec.Server
import ShadowVpn.Spec.Wire

/-! Subnet routes from the advert of one client to the kernel of another: the calls that
change the server's tables, what they are for, and the client's route installer. -/

namespace ShadowVpn

open Lib

namespace SubnetTable

/-- The calls that change a table. -/
inductive Op where
  | advertise (peer : SocketAddr) (advertised : List IpNetwork) (approval : RouteApproval)
      (now : Instant)
  | expire (ttl : Duration) (now : Instant)

def apply (P : Platform) (t : SubnetTable) : Op → SubnetTable
  | .advertise peer advertised approval now => (t.advertise P peer advertised approval now).1
  | .expire ttl now => (t.expire ttl now).1

/-- The table after some calls, from the empty one. -/
def run (P : Platform) (ops : List Op) : SubnetTable := ops.foldl (apply P) ⟨[]⟩

/-- Networks are stored with their host bits cleared, each once. -/
structure Valid (t : SubnetTable) : Prop where
  nodup : (t.routes.map SubnetRoute.net).Nodup
  canonical : ∀ r ∈ t.routes, canonical r.net = r.net

/-- The route held for a network. -/
def held (t : SubnetTable) (net : IpNetwork) : Option SubnetRoute :=
  t.routes.find? fun r => r.net = net

/-- The peer that a network belongs to. -/
def owner (t : SubnetTable) (net : IpNetwork) : Option SocketAddr :=
  (t.held net).map SubnetRoute.peer

/-- A table and what was reported, as an advert of `nets` by `peer` has to leave them. -/
structure Reconciled (P : Platform) (t : SubnetTable) (peer : SocketAddr) (nets : List IpNetwork)
    (approval : RouteApproval) (now : Instant) (t' : SubnetTable) (outcome : AdvertOutcome) :
    Prop where
  valid : t'.Valid
  own : ∀ net, t'.owner net = some peer ↔ net ∈ nets.map canonical
  fresh : ∀ r ∈ t'.routes, r.peer = peer → r.approved = approval.approves P r.net ∧ r.lastSeen = now
  others : ∀ r, r.peer ≠ peer → (r ∈ t'.routes ↔ r ∈ t.routes ∧ r.net ∉ nets.map canonical)
  withdrawn : outcome.withdrawn.Nodup ∧ ∀ net, net ∈ outcome.withdrawn ↔
    t.owner net = some peer ∧ net ∉ nets.map canonical
  moved : outcome.moved.Nodup ∧ ∀ net, net ∈ outcome.moved ↔
    net ∈ nets.map canonical ∧ ∃ q, t.owner net = some q ∧ q ≠ peer
  approved : outcome.approved.Nodup ∧ ∀ net, net ∈ outcome.approved ↔
    net ∈ nets.map canonical ∧ t.owner net = none ∧ approval.approves P net = true
  awaiting : outcome.awaiting.Nodup ∧ ∀ net, net ∈ outcome.awaiting ↔
    net ∈ nets.map canonical ∧ t.owner net = none ∧ approval.approves P net = false
  quiet : outcome.isQuiet = true ↔ ∀ net, t'.owner net = t.owner net

/-- An approved route that contains the address. -/
structure Matches (dst : IpAddr) (t : SubnetTable) (r : SubnetRoute) : Prop where
  mem : r ∈ t.routes
  approved : r.approved = true
  contains : contains r.net dst = true

/-- The most specific of the routes that match. -/
structure Best (dst : IpAddr) (t : SubnetTable) (r : SubnetRoute) : Prop extends
    Matches dst t r where
  longest : ∀ r', Matches dst t r' → prefixLen r'.net ≤ prefixLen r.net

end SubnetTable

namespace Learned

/-- The calls that change the learned state. -/
inductive Op where
  | learn (src : IpAddr) (peer : SocketAddr) (now : Instant)
  | unlearn (ip : IpAddr) (lastPeer : Option SocketAddr) (now : Instant) (ttl : Duration)
  | expireClients (ttl : Duration) (now : Instant)
  | subnets (op : SubnetTable.Op)

def apply (P : Platform) (l : Learned) : Op → Learned
  | .learn src peer now => l.learn src peer now
  | .unlearn ip lastPeer now ttl => l.unlearn ip lastPeer now ttl
  | .expireClients ttl now => l.expireClients ttl now
  | .subnets op => { l with subnets := l.subnets.apply P op }

def run (P : Platform) (ops : List Op) : Learned := ops.foldl (apply P) .empty

end Learned

/-! The client's side. -/

/-- A `HashSet`. -/
abbrev HashSet (K : Type) := HashMap K Unit

/-- The walk of a set. -/
def keysIn {K : Type} (order : IterOrder K Unit) (s : HashSet K) : List K :=
  (order.iter s).map Sigma.fst

/-- Returns the networks to add and those to remove. -/
def diffRoutes (order : IterOrder IpNetwork Unit) (installed : HashSet IpNetwork)
    (pushed : List IpNetwork) : List IpNetwork × List IpNetwork :=
  let pushed : HashSet IpNetwork := (pushed.map canonical).foldl (fun s net => s.insert net ()) ∅
  ((keysIn order pushed).filter fun net => (installed.get net).isNone,
    (keysIn order installed).filter fun net => (pushed.get net).isNone)

/-- The arguments of `modify_route`. -/
structure RouteCall where
  ifindex : UInt32
  tunIp : Ipv4Addr
  dst : IpAddr
  prefixLen : UInt8
  add : Bool

structure RouteInstaller where
  ifindex : UInt32
  tunIp : Ipv4Addr
  serverIp : IpAddr
  installed : HashSet IpNetwork

namespace RouteInstaller

def new (ifindex : UInt32) (tunIp : Ipv4Addr) (serverIp : IpAddr) : RouteInstaller :=
  ⟨ifindex, tunIp, serverIp, ∅⟩

/-- The call for a network, by its lowest address and its length. -/
def routeCall (ri : RouteInstaller) (add : Bool) : IpNetwork → RouteCall
  | .v4 n => ⟨ri.ifindex, ri.tunIp, .v4 n.network, n.prefixLen, add⟩
  | .v6 n => ⟨ri.ifindex, ri.tunIp, .v6 n.network, n.prefixLen, add⟩

/-- A route that covers the server is refused, and one that the kernel does not take is
left for the next push. -/
def install (kernel : RouteCall → Bool) (ri : RouteInstaller) (net : IpNetwork) : RouteInstaller :=
  if SubnetTable.contains net ri.serverIp then ri
  else if kernel (ri.routeCall true net) then
    { ri with installed := ri.installed.insert net () }
  else ri

/-- A failed removal is only logged. -/
def uninstall (ri : RouteInstaller) (net : IpNetwork) : RouteInstaller :=
  { ri with installed := ri.installed.erase net }

def apply (kernel : RouteCall → Bool) (order : IterOrder IpNetwork Unit) (ri : RouteInstaller)
    (pushed : List IpNetwork) : RouteInstaller :=
  let d := diffRoutes order ri.installed pushed
  d.2.foldl uninstall (d.1.foldl (install kernel) ri)

def removeAll (ri : RouteInstaller) : RouteInstaller := { ri with installed := ∅ }

/-- The calls that change an installer. The kernel may fail any of its part. -/
inductive Op where
  | apply (kernel : RouteCall → Bool) (order : IterOrder IpNetwork Unit) (pushed : List IpNetwork)
  | removeAll

def step (ri : RouteInstaller) : Op → RouteInstaller
  | .apply kernel order pushed => ri.apply kernel order pushed
  | .removeAll => ri.removeAll

def run (ri : RouteInstaller) (ops : List Op) : RouteInstaller := ops.foldl step ri

end RouteInstaller

end ShadowVpn
