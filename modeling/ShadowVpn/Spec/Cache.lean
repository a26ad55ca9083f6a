import ShadowVpn.Spec.Dns

/-! The answer cache of the split-DNS proxy (`policy/cache.rs`), and the process that owns
it: it saves the cache to a file when it ends, and loads the file when it starts. -/

namespace ShadowVpn

open Lib

abbrev CacheKey := Text × UInt16 × UInt16

structure CacheEntry where
  response : Bytes
  tunnelIps : List Ipv4Addr
  expires : Instant
deriving DecidableEq

/-- An entry of the file; `ttl` is what remains, in whole seconds. -/
structure SnapEntry where
  name : Text
  qtype : UInt16
  qclass : UInt16
  response : Bytes
  tunnelIps : List Ipv4Addr
  ttl : ℕ
deriving DecidableEq

structure DnsCache where
  map : HashMap CacheKey CacheEntry

namespace DnsCache

def MAX_ENTRIES : ℕ := 4096
def MIN_TTL : ℕ := 10
def MAX_TTL : ℕ := 3600
def DEFAULT_TTL : ℕ := 30

def new : DnsCache := ⟨∅⟩

/-- A stored response under the transaction id of `query`. -/
def stamp (query response : Bytes) : Bytes :=
  match query, response with
  | q₀ :: q₁ :: _, _ :: _ :: rest => q₀ :: q₁ :: rest
  | _, _ => response

def get (c : DnsCache) (query : Bytes) (now : Instant) :
    DnsCache × Option (Bytes × List Ipv4Addr) :=
  match Dns.question query with
  | none => (c, none)
  | some key =>
    match c.map.get key with
    | none => (c, none)
    | some entry =>
      if now ≥ entry.expires then (⟨c.map.erase key⟩, none)
      else (c, some (stamp query entry.response, entry.tunnelIps))

/-- How long a response is kept. -/
def lifetime (response : Bytes) : Duration :=
  Duration.fromSecs (max MIN_TTL (min ((Dns.minTtl response).getD DEFAULT_TTL) MAX_TTL))

/-- The map that a put inserts into: a full one is pruned for a new key, and emptied if
that does not help. -/
def makeRoom (c : DnsCache) (key : CacheKey) (pruned : Instant) : HashMap CacheKey CacheEntry :=
  if c.map.entries.length ≥ MAX_ENTRIES ∧ c.map.get key = none then
    let live := c.map.retain fun _ entry => entry.expires > pruned
    if live.entries.length ≥ MAX_ENTRIES then ∅ else live
  else c.map

/-- `pruned` is the reading of the clock before a full cache is pruned, `now` the one that
the entry is stored with. -/
def put (c : DnsCache) (query response : Bytes) (tunnelIps : List Ipv4Addr)
    (pruned now : Instant) : Except Panic DnsCache :=
  match Dns.question query with
  | none => .ok c
  | some key => do
    let expires ← Instant.add now (lifetime response)
    .ok ⟨(c.makeRoom key pruned).insert key ⟨response, tunnelIps, expires⟩⟩

/-- One turn of the loop in `load`. -/
def loadEntry (now : Instant) (acc : DnsCache × ℕ) (e : SnapEntry) :
    Except Panic (DnsCache × ℕ) :=
  if e.ttl = 0 then .ok acc
  else do
    let expires ← Instant.add now (Duration.fromSecs e.ttl)
    .ok (⟨acc.1.map.insert (e.name, e.qtype, e.qclass) ⟨e.response, e.tunnelIps, expires⟩⟩,
      acc.2 + 1)

/-- `none` is a file that is missing, unreadable or corrupt. -/
def load (c : DnsCache) (snapshot : Option (List SnapEntry)) (now : Instant) :
    Except Panic (DnsCache × ℕ) :=
  match snapshot with
  | none => .ok (c, 0)
  | some snapshot => snapshot.foldlM (loadEntry now) (c, 0)

/-- What `save` writes of an entry, if it has a whole second left. -/
def snapEntry (now : Instant) (e : Σ _ : CacheKey, CacheEntry) : Option SnapEntry :=
  let ttl := (Instant.saturatingDurationSince e.2.expires now).asSecs
  if ttl = 0 then none
  else some ⟨e.1.1, e.1.2.1, e.1.2.2, e.2.response, e.2.tunnelIps, ttl⟩

def save (c : DnsCache) (order : IterOrder CacheKey CacheEntry) (now : Instant) : List SnapEntry :=
  (order.iter c.map).filterMap (snapEntry now)

end DnsCache

/-! The process that owns the cache, from one start to the next. All clocks are read on one
scale, which goes on while no process runs. -/

structure CacheFile where
  mtime : Instant
  snapshot : List SnapEntry

structure CacheHost where
  cache : DnsCache
  file : Option CacheFile

namespace CacheHost

/-- Before the first start. -/
def new : CacheHost := ⟨.new, none⟩

/-- The three ends of `fs::write`. -/
inductive Write where
  | written
  | failed
  | torn
deriving DecidableEq

inductive Event where
  | put (query response : Bytes) (tunnelIps : List Ipv4Addr) (pruned now : Instant)
  | get (query : Bytes) (now : Instant)
  | save (order : IterOrder CacheKey CacheEntry) (write : Write) (now : Instant)
  /-- The process ends, and another one loads the file at `now`. -/
  | restart (now : Instant)

inductive Out where
  | done
  | answer (a : Option (Bytes × List Ipv4Addr))
  | loaded (n : ℕ)

def step (h : CacheHost) : Event → Except Panic (CacheHost × Out)
  | .put query response tunnelIps pruned now => do
    let cache ← h.cache.put query response tunnelIps pruned now
    .ok ({ h with cache := cache }, .done)
  | .get query now =>
    .ok ({ h with cache := (h.cache.get query now).1 }, .answer (h.cache.get query now).2)
  | .save order write now =>
    .ok ({ h with
      file := match write with
        | .written => some ⟨now, h.cache.save order now⟩
        | .failed => h.file
        | .torn => none }, .done)
  | .restart now => do
    let r ← DnsCache.new.load (h.file.map CacheFile.snapshot) now
    .ok ({ h with cache := r.1 }, .loaded r.2)

end CacheHost

/-! One cache in use, whatever the files are that it loads. -/

structure CacheClock where
  cache : DnsCache
  /-- The latest reading of the clock, which does not go back. -/
  now : Instant

namespace CacheClock

/-- Each event says how much time has passed before it. A put reads the clock twice. -/
inductive Event where
  | load (snapshot : Option (List SnapEntry)) (elapsed : Duration)
  | put (query response : Bytes) (tunnelIps : List Ipv4Addr) (elapsed elapsed' : Duration)
  | get (query : Bytes) (elapsed : Duration)

def step (s : CacheClock) : Event → Except Panic (CacheClock × CacheHost.Out)
  | .load snapshot elapsed => do
    let now := s.now + elapsed
    let r ← s.cache.load snapshot now
    .ok (⟨r.1, now⟩, .loaded r.2)
  | .put query response tunnelIps elapsed elapsed' => do
    let pruned := s.now + elapsed
    let now := pruned + elapsed'
    let cache ← s.cache.put query response tunnelIps pruned now
    .ok (⟨cache, now⟩, .done)
  | .get query elapsed =>
    let now := s.now + elapsed
    .ok (⟨(s.cache.get query now).1, now⟩, .answer (s.cache.get query now).2)

end CacheClock

end ShadowVpn
