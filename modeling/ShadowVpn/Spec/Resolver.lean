import ShadowVpn.Spec.Cache
import ShadowVpn.Spec.Magic
import ShadowVpn.Spec.Policy

/-! The split-DNS resolver (`policy/proxy.rs`): calls of `resolve` that run side by side, each
cut at the points where it takes a lock or waits, over the cache that they share; and the
source ports of their upstream sockets. -/

namespace ShadowVpn

open Lib

structure MagicDns where
  peers : PeerTable
  suffix : Text

def MagicDns.answerMagic (magic : MagicDns) (query : Bytes) : Option Bytes :=
  match Dns.question query with
  | none => none
  | some (name, qtype, qclass) =>
    if qclass ≠ Dns.CLASS_IN then none
    else
      match magic.peers.lookup name with
      | some addrs =>
        let ips : List IpAddr :=
          if qtype = Dns.TYPE_A then [.v4 addrs.ip4]
          else if qtype = Dns.TYPE_AAAA then (addrs.ip6.map IpAddr.v6).toList
          else []
        Dns.buildResponse query ips MAGIC_TTL_SECS
      | none => if isMagicSuffixName name magic.suffix then Dns.buildNxdomain query else none

/-- The part of a resolver's configuration that decides. -/
structure Resolver where
  mode : Mode
  gfwlist : GfwList
  chnroute : ChnRoute

/-- Whether the name of a query is on the list; a query without a name is not. -/
def Resolver.matchesName (p : Resolver) (query : Bytes) : Bool :=
  match Dns.questionName query with
  | some name => p.gfwlist.matchesDomain name
  | none => false

inductive Upstream where
  | dnsLocal
  | dnsRemote
deriving DecidableEq

structure Decided where
  response : Bytes
  tunnelIps : List Ipv4Addr

/-- Where a call stands. -/
inductive Phase where
  | lookup
  | forward
  | waiting (upstream : Upstream) (tunnel : Bool)
  /-- Waits for the local upstream, with what the task for the remote one has come to. -/
  | racing (remoteRes : Option (Option Bytes))
  /-- Waits for the task, with what the local upstream has come to. -/
  | awaitingRemote (localRes : Option Bytes)
  /-- Gives the addresses of an answer to the sink; a fresh answer is then put. -/
  | tunnelling (decided : Decided) (rest : List Ipv4Addr) (fresh : Bool)

inductive Next where
  | go (phase : Phase)
  | done (response : Option Bytes)

def Decided.next (d : Decided) : Next := .go (.tunnelling d d.tunnelIps true)

/-- What is asked after the cache has no answer. -/
def Resolver.ask (p : Resolver) (query : Bytes) : Next :=
  match p.mode with
  | .full => .done none
  | .gfwList =>
    let tunnel := p.matchesName query
    .go (.waiting (if tunnel then .dnsRemote else .dnsLocal) tunnel)
  | .chinaDns => if p.matchesName query then .go (.waiting .dnsRemote true) else .go (.racing none)

/-- The clean answer, or else the local one. -/
def settle (remoteRes localRes : Option Bytes) : Next :=
  match remoteRes.or localRes with
  | none => .done none
  | some response => Decided.next ⟨response, Dns.aRecords response⟩

/-- What the local answer decides; a domestic one ends the race. -/
def Resolver.settleLocal (p : Resolver) (remoteRes : Option (Option Bytes)) (localRes : Option Bytes) :
    Next :=
  let localIps := (localRes.map Dns.aRecords).getD []
  match localRes, chinadnsDecision localIps p.chnroute with
  | some response, .direct => Decided.next ⟨response, []⟩
  | _, _ =>
    match remoteRes with
    | none => .go (.awaitingRemote localRes)
    | some remoteRes => settle remoteRes localRes

/-- An upstream that is waited for has answered, or failed. -/
def Phase.receive (p : Resolver) : Phase → Upstream → Option Bytes → Option Next
  | .forward, .dnsLocal, res => some (.done res)
  | .waiting upstream tunnel, server, res =>
    if server = upstream then
      match res with
      | none => some (.done none)
      | some response =>
        some (Decided.next ⟨response, if tunnel then Dns.aRecords response else []⟩)
    else none
  | .racing none, .dnsRemote, res => some (.go (.racing (some res)))
  | .racing remoteRes, .dnsLocal, res => some (p.settleLocal remoteRes res)
  | .awaitingRemote localRes, .dnsRemote, res => some (settle res localRes)
  | _, _, _ => none

/-! The client's process. -/

structure Call where
  query : Bytes
  phase : Phase

/-- A resolver with its calls under way, numbered from the start of the history, and the
files that outlive the process. -/
structure Client where
  resolver : Resolver
  magic : Option MagicDns
  host : CacheHost
  calls : HashMap ℕ Call
  next : ℕ

namespace Client

def new (resolver : Resolver) (magic : Option MagicDns) : Client := ⟨resolver, magic, .new, ∅, 0⟩

inductive Event where
  | resolve (query : Bytes)
  | get (id : ℕ) (now : Instant)
  | upstream (id : ℕ) (server : Upstream) (res : Option Bytes)
  | sink (id : ℕ)
  | put (id : ℕ) (pruned now : Instant)
  | ret (id : ℕ)
  /-- A push of the server replaces the table of peers. -/
  | peers (push : List PeerEntry)
  | save (order : IterOrder CacheKey CacheEntry) (write : CacheHost.Write) (now : Instant)
  /-- The process ends, and another one starts with a configuration of its own. -/
  | restart (resolver : Resolver) (suffix : Option Text) (now : Instant)

inductive Out where
  | quiet
  | sunk (id : ℕ) (ip : Ipv4Addr)
  | returned (id : ℕ) (response : Option Bytes)

inductive Halt where
  | disabled
  | panic (p : Panic)

def answerMagic (c : Client) (query : Bytes) : Option Bytes :=
  match c.magic with
  | none => none
  | some magic => magic.answerMagic query

def proceed (c : Client) (id : ℕ) (query : Bytes) : Next → Client × Out
  | .go phase => ({ c with calls := c.calls.insert id ⟨query, phase⟩ }, .quiet)
  | .done response => ({ c with calls := c.calls.erase id }, .returned id response)

def setCache (c : Client) (cache : DnsCache) : Client :=
  { c with host := { c.host with cache := cache } }

def step (c : Client) : Event → Except Halt (Client × Out)
  | .resolve query =>
    match c.answerMagic query with
    | some response => .ok ({ c with next := c.next + 1 }, .returned c.next (some response))
    | none =>
      let phase := if c.resolver.mode = .full then .forward else .lookup
      .ok ({ c with calls := c.calls.insert c.next ⟨query, phase⟩, next := c.next + 1 }, .quiet)
  | .get id now =>
    match c.calls.get id with
    | some ⟨query, .lookup⟩ =>
      let (cache, answer) := c.host.cache.get query now
      match answer with
      | some (response, ips) =>
        .ok ((c.setCache cache).proceed id query (.go (.tunnelling ⟨response, ips⟩ ips false)))
      | none => .ok ((c.setCache cache).proceed id query (c.resolver.ask query))
    | _ => .error .disabled
  | .upstream id server res =>
    match c.calls.get id with
    | some call =>
      match call.phase.receive c.resolver server res with
      | some next => .ok (c.proceed id call.query next)
      | none => .error .disabled
    | none => .error .disabled
  | .sink id =>
    match c.calls.get id with
    | some ⟨query, .tunnelling decided (ip :: rest) fresh⟩ =>
      .ok ({ c with calls := c.calls.insert id ⟨query, .tunnelling decided rest fresh⟩ }, .sunk id ip)
    | _ => .error .disabled
  | .put id pruned now =>
    match c.calls.get id with
    | some ⟨query, .tunnelling decided [] true⟩ =>
      match c.host.cache.put query decided.response decided.tunnelIps pruned now with
      | .error p => .error (.panic p)
      | .ok cache => .ok ((c.setCache cache).proceed id query (.done (some decided.response)))
    | _ => .error .disabled
  | .ret id =>
    match c.calls.get id with
    | some ⟨query, .tunnelling decided [] false⟩ =>
      .ok (c.proceed id query (.done (some decided.response)))
    | _ => .error .disabled
  | .peers push =>
    .ok ({ c with magic := c.magic.map fun m => { m with peers := .replace push m.suffix } }, .quiet)
  | .save order write now =>
    match c.host.step (.save order write now) with
    | .error p => .error (.panic p)
    | .ok (host, _) => .ok ({ c with host := host }, .quiet)
  | .restart resolver suffix now =>
    match c.host.step (.restart now) with
    | .error p => .error (.panic p)
    | .ok (host, _) =>
      .ok (⟨resolver, suffix.map fun s => ⟨.new, s⟩, host, ∅, c.next⟩, .quiet)

end Client

/-! Upstream sockets. -/

inductive Stage where
  | bound
  | registered
  | released
deriving DecidableEq

structure Socket where
  addr : IpAddr
  port : UInt16
  stage : Stage
deriving DecidableEq

/-- The sockets of the calls under way, by the number of the call. -/
structure Inflight where
  localBind : IpAddr
  remoteBind : IpAddr
  sockets : HashMap ℕ Socket
  inflight : HashSet UInt16

namespace Inflight

def new (localBind remoteBind : IpAddr) : Inflight := ⟨localBind, remoteBind, ∅, ∅⟩

def ownsSourcePort (s : Inflight) (port : UInt16) : Bool := (s.inflight.get port).isSome

def bindSrc (s : Inflight) : Upstream → IpAddr
  | .dnsLocal => s.localBind
  | .dnsRemote => s.remoteBind

inductive Event where
  | bind (id : ℕ) (server : Upstream) (port : UInt16)
  | register (id : ℕ)
  /-- The call ends in any way, and the guard goes before the socket. -/
  | drop (id : ℕ)
  | close (id : ℕ)

/-- The system gives no two open sockets one address and port. -/
def step (s : Inflight) : Event → Except Unit (Inflight × Unit)
  | .bind id server port =>
    if (s.sockets.get id).isSome ||
        s.sockets.entries.any (fun e => e.2.addr = s.bindSrc server ∧ e.2.port = port) then .error ()
    else .ok ({ s with sockets := s.sockets.insert id ⟨s.bindSrc server, port, .bound⟩ }, ())
  | .register id =>
    match s.sockets.get id with
    | some ⟨addr, port, .bound⟩ =>
      if port ≠ 0 then
        .ok ({ s with
          sockets := s.sockets.insert id ⟨addr, port, .registered⟩
          inflight := s.inflight.insert port () }, ())
      else .ok ({ s with sockets := s.sockets.insert id ⟨addr, port, .released⟩ }, ())
    | _ => .error ()
  | .drop id =>
    match s.sockets.get id with
    | some ⟨addr, port, .registered⟩ =>
      .ok ({ s with
        sockets := s.sockets.insert id ⟨addr, port, .released⟩
        inflight := s.inflight.erase port }, ())
    | _ => .error ()
  | .close id =>
    match s.sockets.get id with
    | some ⟨_, _, .released⟩ => .ok ({ s with sockets := s.sockets.erase id }, ())
    | _ => .error ()

end Inflight

end ShadowVpn
