import ShadowVpn.Lib.Index
import ShadowVpn.Spec.Assign

/-! The lease book: what the assigner is for, without its indexes, its clock for
writes or its probe order. A book says who holds which lease and which endpoint
speaks for whom, and no book can hold one address twice. `Allocates` lists the five
things an allocation can do to it. -/

namespace ShadowVpn

open Lib

/-- The settings that decide which addresses may be handed out, and for how long. -/
structure Policy where
  serverIp : Ipv4Addr
  serverIp6 : Option Ipv6Network
  start : BitVec 32
  end_ : BitVec 32
  reserved : Finset Ipv4Addr
  ttl : Duration

namespace Policy

/-- In range, not the server's own address, and not reserved. -/
structure Legal (p : Policy) (ip : Ipv4Addr) : Prop where
  ge_start : p.start ≤ ip
  le_end : ip ≤ p.end_
  ne_server : ip ≠ p.serverIp
  not_reserved : ip ∉ p.reserved

instance (p : Policy) (ip : Ipv4Addr) : Decidable (p.Legal ip) :=
  decidable_of_iff (p.start ≤ ip ∧ ip ≤ p.end_ ∧ ip ≠ p.serverIp ∧ ip ∉ p.reserved)
    ⟨fun ⟨h1, h2, h3, h4⟩ => ⟨h1, h2, h3, h4⟩, fun ⟨h1, h2, h3, h4⟩ => ⟨h1, h2, h3, h4⟩⟩

def embedNet (p : Policy) : Option Ipv6Network :=
  p.serverIp6.filter fun net => net.prefixLen ≤ 96

/-- The IPv6 address that goes with `ip4`, when one is wanted and can be had. -/
def derive (p : Policy) (want : Bool) (ip4 : Ipv4Addr) : Option Ipv6Addr :=
  if want then p.embedNet.map fun net => embedIp4 net ip4 else none

/-- The IPv6 fields of a reply for a lease that stores `ip6`. -/
def shown (p : Policy) (ip6 : Option Ipv6Addr) : Option Ipv6Addr × UInt8 :=
  match ip6, p.serverIp6 with
  | some ip, some net => (some ip, net.prefixLen)
  | _, _ => (none, 0)

/-- The reply grants exactly these addresses. -/
structure Grants (p : Policy) (reply : Assign) (ip4 : Ipv4Addr) (ip6 : Option Ipv6Addr) :
    Prop where
  status : reply.status = .ok
  tunIp : reply.tunIp = ip4
  tunIp6 : reply.tunIp6 = (p.shown ip6).1
  plen6 : reply.plen6 = (p.shown ip6).2

end Policy

@[ext]
structure Book where
  held : NodeId → Option Lease
  bound : SocketAddr → Option NodeId
  own : ∀ n l, held n = some l → l.nodeId = n
  ip4_inj : ∀ n m l k, held n = some l → held m = some k → l.ip4 = k.ip4 → n = m
  ip6_inj : ∀ n m l k a, held n = some l → held m = some k → l.ip6 = some a → k.ip6 = some a →
    n = m
  peer : IsBinding bound held Lease.lastPeer

namespace Book

def drop (b : Book) (gone : NodeId → Bool) : Book where
  held n := if gone n then none else b.held n
  bound p := (b.bound p).filter fun n => !gone n
  own n l h := by
    split_ifs at h
    exact b.own n l h
  ip4_inj n m l k hn hm := by
    split_ifs at hn hm
    exact b.ip4_inj n m l k hn hm
  ip6_inj n m l k a hn hm := by
    split_ifs at hn hm
    exact b.ip6_inj n m l k a hn hm
  peer p n h := by
    obtain ⟨hb, hg⟩ := Option.filter_eq_some_iff.1 h
    obtain ⟨l, hl, hp⟩ := b.peer p n hb
    exact ⟨l, by simp_all, hp⟩

def expire (b : Book) (ttl : Duration) (now : SystemTime) : Book :=
  b.drop fun n => (b.held n).any fun l => isExpired l.lastSeen now ttl

def unbind (b : Book) (peer : SocketAddr) : Book where
  held := b.held
  bound p := if p = peer then none else b.bound p
  own := b.own
  ip4_inj := b.ip4_inj
  ip6_inj := b.ip6_inj
  peer p n h := by
    dsimp only at h
    split_ifs at h
    exact b.peer p n h

/-- `n` is heard of from `peer`: its lease is stamped, and `peer` speaks for it. -/
def touch (b : Book) {n : NodeId} {l : Lease} (hl : b.held n = some l) (peer : SocketAddr)
    (now : SystemTime) : Book where
  held m := if m = n then some { l with lastSeen := now, lastPeer := some peer } else b.held m
  bound p := if p = peer then some n else (b.bound p).filter fun m => m ≠ n
  own m k hk := by
    split_ifs at hk with hm
    · cases hk
      exact hm ▸ b.own n l hl
    · exact b.own m k hk
  ip4_inj m m' k k' hk hk' he := by
    split_ifs at hk hk' with hm hm' hm'
    · rw [hm, hm']
    · cases hk
      exact hm.trans (b.ip4_inj n m' l k' hl hk' he)
    · cases hk'
      exact (b.ip4_inj m n k l hk hl he).trans hm'.symm
    · exact b.ip4_inj m m' k k' hk hk' he
  ip6_inj m m' k k' a hk hk' ha ha' := by
    split_ifs at hk hk' with hm hm' hm'
    · rw [hm, hm']
    · cases hk
      exact hm.trans (b.ip6_inj n m' l k' a hl hk' ha ha')
    · cases hk'
      exact (b.ip6_inj m n k l a hk hl ha ha').trans hm'.symm
    · exact b.ip6_inj m m' k k' a hk hk' ha ha'
  peer p m hm := by
    dsimp only at hm ⊢
    split_ifs at hm with hp
    · cases hm
      exact ⟨_, if_pos rfl, by rw [hp]⟩
    · obtain ⟨hb, hne⟩ := Option.filter_eq_some_iff.1 hm
      obtain ⟨k, hk, hkp⟩ := b.peer p m hb
      exact ⟨k, by rw [if_neg (by simpa using hne)]; exact hk, hkp⟩

structure Free (b : Book) (n : NodeId) (ip4 : Ipv4Addr) (ip6 : Option Ipv6Addr) : Prop where
  node : b.held n = none
  ip4 : ∀ m l, b.held m = some l → l.ip4 ≠ ip4
  ip6 : ∀ m l a, b.held m = some l → ip6 = some a → l.ip6 ≠ some a

/-- A row for a node that holds nothing. No endpoint speaks for it yet. -/
def add (b : Book) (l : Lease) (hf : b.Free l.nodeId l.ip4 l.ip6) : Book where
  held m := if m = l.nodeId then some l else b.held m
  bound := b.bound
  own m k hk := by
    split_ifs at hk with hm
    · cases hk
      exact hm.symm
    · exact b.own m k hk
  ip4_inj m m' k k' hk hk' he := by
    split_ifs at hk hk' with hm hm' hm'
    · rw [hm, hm']
    · cases hk
      exact absurd he.symm (hf.ip4 m' k' hk')
    · cases hk'
      exact absurd he (hf.ip4 m k hk)
    · exact b.ip4_inj m m' k k' hk hk' he
  ip6_inj m m' k k' a hk hk' ha ha' := by
    split_ifs at hk hk' with hm hm' hm'
    · rw [hm, hm']
    · cases hk
      exact absurd ha' (hf.ip6 m' k' a hk' ha)
    · cases hk'
      exact absurd ha (hf.ip6 m k a hk ha')
    · exact b.ip6_inj m m' k k' a hk hk' ha ha'
  peer p m hm := by
    obtain ⟨k, hk, hkp⟩ := b.peer p m hm
    have hne : m ≠ l.nodeId := by
      rintro rfl
      rw [hf.node] at hk
      cases hk
    exact ⟨k, (if_neg hne).trans hk, hkp⟩

def bind (b : Book) {n : NodeId} {ip4 : Ipv4Addr} {ip6 : Option Ipv6Addr}
    (hf : b.Free n ip4 ip6) (peer : SocketAddr) (now : SystemTime) : Book :=
  { b.add ⟨n, ip4, ip6, now, some peer⟩ hf with
    bound := fun p => if p = peer then some n else b.bound p
    peer := by
      intro p m hm
      dsimp only at hm
      split_ifs at hm with hp
      · cases hm
        exact ⟨_, if_pos rfl, by rw [hp]⟩
      · exact (b.add ⟨n, ip4, ip6, now, some peer⟩ hf).peer p m hm }

def empty : Book where
  held _ := none
  bound _ := none
  own _ _ h := by cases h
  ip4_inj _ _ _ _ h := by cases h
  ip6_inj _ _ _ _ _ h := by cases h
  peer := isBinding_empty

/-- An address that may be given to `n` now. -/
structure Usable (b : Book) (p : Policy) (n : NodeId) (want : Bool) (ip4 : Ipv4Addr) : Prop where
  legal : p.Legal ip4
  free4 : ∀ m l, b.held m = some l → l.ip4 = ip4 → m = n
  server6 : ∀ net, want → p.embedNet = some net → embedIp4 net ip4 ≠ net.ip
  free6 : ∀ m l a, b.held m = some l → p.derive want ip4 = some a → l.ip6 = some a → m = n

/-- The expired rows of the book, each once. -/
structure Expired (b : Book) (ttl : Duration) (now : SystemTime) (gone : List Lease) : Prop where
  nodup : gone.Nodup
  mem : ∀ l, l ∈ gone ↔ ∃ n, b.held n = some l ∧ isExpired l.lastSeen now ttl

/-- A row that nobody has been idle for longer than. -/
def Oldest (b : Book) (v : Lease) : Prop :=
  b.held v.nodeId = some v ∧ ∀ n l, b.held n = some l → v.lastSeen.nanos ≤ l.lastSeen.nanos

def evict (b : Book) (v : Lease) : Book := b.drop fun n => n = v.nodeId

/-- What an allocation may do: the reply, the rows that left, and the book after. -/
inductive Allocates (p : Policy) (b : Book) (req : AssignReq) (peer : SocketAddr)
    (now : SystemTime) : Assign → List Lease → Book → Prop
  | refresh {l : Lease} {reply : Assign} {gone : List Lease}
      (hgone : b.Expired p.ttl now gone) (hl : (b.expire p.ttl now).held req.nodeId = some l)
      (hreply : p.Grants reply l.ip4 l.ip6) :
      Allocates p b req peer now reply gone ((b.expire p.ttl now).touch hl peer now)
  | fresh {ip4 : Ipv4Addr} {reply : Assign} {gone : List Lease}
      (hgone : b.Expired p.ttl now gone)
      (hu : (b.expire p.ttl now).Usable p req.nodeId req.wantIp6 ip4)
      (hf : (b.expire p.ttl now).Free req.nodeId ip4 (p.derive req.wantIp6 ip4))
      (hreply : p.Grants reply ip4 (p.derive req.wantIp6 ip4)) :
      Allocates p b req peer now reply gone ((b.expire p.ttl now).bind hf peer now)
  | reclaim {v : Lease} {ip4 : Ipv4Addr} {reply : Assign} {gone : List Lease}
      (hgone : b.Expired p.ttl now gone) (hn : (b.expire p.ttl now).held req.nodeId = none)
      (hfull : ∀ ip, ¬ (b.expire p.ttl now).Usable p req.nodeId req.wantIp6 ip)
      (hv : (b.expire p.ttl now).Oldest v)
      (hu : ((b.expire p.ttl now).evict v).Usable p req.nodeId req.wantIp6 ip4)
      (hf : ((b.expire p.ttl now).evict v).Free req.nodeId ip4 (p.derive req.wantIp6 ip4))
      (hreply : p.Grants reply ip4 (p.derive req.wantIp6 ip4)) :
      Allocates p b req peer now reply (gone ++ [v])
        (((b.expire p.ttl now).evict v).bind hf peer now)
  | wasted {v : Lease} {gone : List Lease}
      (hgone : b.Expired p.ttl now gone) (hn : (b.expire p.ttl now).held req.nodeId = none)
      (hfull : ∀ ip, ¬ (b.expire p.ttl now).Usable p req.nodeId req.wantIp6 ip)
      (hv : (b.expire p.ttl now).Oldest v)
      (hstill : ∀ ip, ¬ ((b.expire p.ttl now).evict v).Usable p req.nodeId req.wantIp6 ip) :
      Allocates p b req peer now exhausted (gone ++ [v])
        (((b.expire p.ttl now).unbind peer).evict v)
  | exhausted {gone : List Lease}
      (hgone : b.Expired p.ttl now gone)
      (hfull : ∀ ip, ¬ (b.expire p.ttl now).Usable p req.nodeId req.wantIp6 ip)
      (hempty : ∀ n, (b.expire p.ttl now).held n = none) :
      Allocates p b req peer now exhausted gone ((b.expire p.ttl now).unbind peer)

end Book

/-! The rows of a lease file. -/

/-- Two rows that share a node or an address. -/
def Lease.Conflicts (k l : Lease) : Prop :=
  k.nodeId = l.nodeId ∨ k.ip4 = l.ip4 ∨ (l.ip6.isSome ∧ k.ip6 = l.ip6)

instance (k l : Lease) : Decidable (k.Conflicts l) := by
  unfold Lease.Conflicts
  infer_instance

/-- The leases that `rows` add to `kept` at `now`: the readable, unexpired rows that
conflict with none before them. -/
def keptRows (ttl : Duration) (now : SystemTime) : List Lease → List PersistLease → List Lease
  | kept, [] => kept
  | kept, row :: rows =>
    match decodeRow row with
    | .ok (.ok l) =>
      if isExpired l.lastSeen now ttl ∨ ∃ k ∈ kept, k.Conflicts l then keptRows ttl now kept rows
      else keptRows ttl now (kept ++ [l]) rows
    | _ => keptRows ttl now kept rows

def LeaseFile.kept (disk : LeaseFile) (ttl : Duration) (now : SystemTime) : List Lease :=
  match disk with
  | .parsed file => if file.version = 1 then keptRows ttl now [] file.leases else []
  | _ => []

def Assigner.Args.kept (args : Assigner.Args) (disk : LeaseFile) (now : SystemTime) : List Lease :=
  match args.persistPath with
  | none => []
  | some _ => disk.kept args.ttl now

def Assigner.policy (s : Assigner) : Policy :=
  ⟨s.serverIp, s.serverIp6, s.start, s.end_, s.reserved, s.ttl⟩

/-- The tables of `s` say what the book says, and the address indexes are exact. -/
structure Refines (s : Assigner) (b : Book) : Prop where
  held : s.byNode.get = b.held
  bound : s.byPeer.get = b.bound
  ip4 : IsIndex s.byIp4.get s.byNode.get fun l => some l.ip4
  ip6 : IsIndex s.byIp6.get s.byNode.get Lease.ip6

end ShadowVpn
