import ShadowVpn.Sanity.Dns

/-! The entries of the cache under each operation, and where an entry comes from: whatever
is cached or saved was put at some time, and expires no later than that put allows and the
file has lain there since. -/

namespace ShadowVpn

open Lib

/-- The key that a saved entry is loaded under. -/
def SnapEntry.key (s : SnapEntry) : CacheKey := (s.name, s.qtype, s.qclass)

namespace DnsCache

variable {c : DnsCache} {k : CacheKey} {v : CacheEntry} {query response : Bytes}
  {tunnelIps : List Ipv4Addr} {now : Instant}

theorem get_eq_some {answer : Bytes × List Ipv4Addr} (h : (c.get query now).2 = some answer) :
    ∃ k v, Dns.question query = some k ∧ c.map.get k = some v ∧ now < v.expires ∧
      answer = (stamp query v.response, v.tunnelIps) := by
  unfold get at h
  cases hkey : Dns.question query with
  | none =>
    rw [hkey] at h
    cases h
  | some k =>
    rw [hkey] at h
    cases hentry : c.map.get k with
    | none =>
      simp only [hentry] at h
      cases h
    | some v =>
      simp only [hentry] at h
      split_ifs at h with hlate
      cases h
      exact ⟨k, v, rfl, hentry, Nat.not_le.1 hlate, rfl⟩

/-- Asking only drops entries. -/
theorem of_get (h : (c.get query now).1.map.get k = some v) : c.map.get k = some v := by
  unfold get at h
  split at h
  · exact h
  · split at h
    · exact h
    · split_ifs at h
      · rw [HashMap.get_erase] at h
        split_ifs at h
        exact h
      · exact h

theorem add_eq_ok {t t' : Instant} {d : Duration} :
    Instant.add t d = .ok t' ↔ t + d < INSTANT_END ∧ t' = t + d := by
  unfold Instant.add
  split_ifs with h
  · simp [Nat.not_lt.2 h]
  · simp [Nat.not_le.1 h, eq_comm]

/-- A put makes room by dropping entries. -/
theorem of_makeRoom {key : CacheKey} {pruned : Instant}
    (h : (c.makeRoom key pruned).get k = some v) : c.map.get k = some v := by
  simp only [makeRoom] at h
  split_ifs at h
  · cases h
  · rw [HashMap.get_retain] at h
    exact (Option.filter_eq_some_iff.1 h).1
  · exact h

theorem put_eq_ok {c' : DnsCache} {pruned : Instant}
    (h : c.put query response tunnelIps pruned now = .ok c') :
    (Dns.question query = none ∧ c' = c) ∨ ∃ key, Dns.question query = some key ∧
      c' = ⟨(c.makeRoom key pruned).insert key ⟨response, tunnelIps, now + lifetime response⟩⟩ := by
  unfold put at h
  cases hkey : Dns.question query with
  | none =>
    rw [hkey] at h
    cases h
    exact Or.inl ⟨rfl, rfl⟩
  | some key =>
    rw [hkey] at h
    obtain ⟨expires, hadd, heq⟩ := bind_eq_ok.1 h
    obtain ⟨-, rfl⟩ := add_eq_ok.1 hadd
    cases heq
    exact Or.inr ⟨key, rfl, rfl⟩

/-- A put succeeds for as long as the clock does not end. -/
theorem put_of_question {pruned : Instant} {d : Duration} (c : DnsCache)
    (hkey : Dns.question query = some k) (hlife : lifetime response = d)
    (hend : now + d < INSTANT_END) :
    c.put query response tunnelIps pruned now =
      .ok ⟨(c.makeRoom k pruned).insert k ⟨response, tunnelIps, now + d⟩⟩ := by
  subst hlife
  simp only [put, hkey]
  exact bind_eq_ok.2 ⟨_, add_eq_ok.2 ⟨hend, rfl⟩, rfl⟩

theorem lifetime_le (response : Bytes) : lifetime response ≤ Duration.fromSecs MAX_TTL :=
  Nat.mul_le_mul_right _ (max_le (by decide) (min_le_right _ _))

/-- There is room for one more key, unless the key is there. -/
theorem length_makeRoom_insert {key : CacheKey} {pruned : Instant}
    (h : c.map.entries.length ≤ MAX_ENTRIES) (v : CacheEntry) :
    (AList.insert key v (c.makeRoom key pruned)).entries.length ≤ MAX_ENTRIES := by
  have hroom : ∀ map : HashMap CacheKey CacheEntry, ¬ map.entries.length ≥ MAX_ENTRIES →
      (AList.insert key v map).entries.length ≤ MAX_ENTRIES := fun map hlt =>
    Nat.le_trans (HashMap.length_insert_le map key v) (Nat.not_le.1 hlt)
  simp only [makeRoom]
  split_ifs with hfull hlive
  · exact hroom ∅ (by decide)
  · exact hroom _ hlive
  · rw [not_and_or] at hfull
    rcases hfull with hlt | hknown
    · exact hroom _ hlt
    · refine Nat.le_trans (HashMap.length_le_of_keys fun k hk => ?_) h
      rw [HashMap.get_insert] at hk
      split_ifs at hk with hkey
      · rw [hkey]
        exact Option.isSome_iff_ne_none.2 hknown
      · exact hk

/-- An entry after a put is the one put, or was there before. -/
theorem of_put {c' : DnsCache} {pruned : Instant}
    (hput : c.put query response tunnelIps pruned now = .ok c') (h : c'.map.get k = some v) :
    (Dns.question query = some k ∧ v = ⟨response, tunnelIps, now + lifetime response⟩) ∨
      c.map.get k = some v := by
  rcases put_eq_ok hput with ⟨-, rfl⟩ | ⟨key, hkey, rfl⟩
  · exact Or.inr h
  · rw [HashMap.get_insert] at h
    split_ifs at h with hk
    · cases h
      exact Or.inl ⟨hkey.trans (congrArg some hk.symm), rfl⟩
    · exact Or.inr (of_makeRoom h)

/-- The turn of the loop in `load` for an entry whose end the clock can tell. -/
def insertEntry (now : Instant) (acc : DnsCache × ℕ) (e : SnapEntry) : DnsCache × ℕ :=
  if e.ttl = 0 then acc
  else
    (⟨acc.1.map.insert e.key ⟨e.response, e.tunnelIps, now + Duration.fromSecs e.ttl⟩⟩, acc.2 + 1)

/-- Loading panics unless the clock can tell the end of every entry that counts. -/
theorem loadEntries_eq_ok {snapshot : List SnapEntry} {acc r : DnsCache × ℕ} :
    snapshot.foldlM (loadEntry now) acc = .ok r ↔
      (∀ s ∈ snapshot, s.ttl ≠ 0 → now + Duration.fromSecs s.ttl < INSTANT_END) ∧
        r = snapshot.foldl (insertEntry now) acc := by
  have hone : ∀ acc s acc', loadEntry now acc s = .ok acc' ↔
      (s.ttl ≠ 0 → now + Duration.fromSecs s.ttl < INSTANT_END) ∧
        acc' = insertEntry now acc s := by
    intro acc s acc'
    unfold loadEntry insertEntry
    split_ifs with hz
    · simp [hz, eq_comm]
    · constructor
      · intro h
        obtain ⟨expires, hadd, heq⟩ := bind_eq_ok.1 h
        obtain ⟨hlt, rfl⟩ := add_eq_ok.1 hadd
        cases heq
        exact ⟨fun _ => hlt, rfl⟩
      · rintro ⟨hlt, rfl⟩
        exact bind_eq_ok.2 ⟨_, add_eq_ok.2 ⟨hlt hz, rfl⟩, rfl⟩
  induction snapshot generalizing acc with
  | nil => simp [pure, Except.pure, eq_comm]
  | cons s snapshot ih =>
    rw [List.foldlM_cons, bind_eq_ok, List.forall_mem_cons, List.foldl_cons]
    constructor
    · rintro ⟨acc', hs, hrest⟩
      obtain ⟨hlt, rfl⟩ := (hone acc s acc').1 hs
      obtain ⟨hall, rfl⟩ := ih.1 hrest
      exact ⟨⟨hlt, hall⟩, rfl⟩
    · rintro ⟨⟨hlt, hall⟩, rfl⟩
      exact ⟨_, (hone acc s _).2 ⟨hlt, rfl⟩, ih.2 ⟨hall, rfl⟩⟩

/-- An entry after a load stands in the file, or was there before. -/
theorem of_insertEntries {snapshot : List SnapEntry} {acc : DnsCache × ℕ}
    (h : (snapshot.foldl (insertEntry now) acc).1.map.get k = some v) :
    (∃ s ∈ snapshot, s.key = k ∧ v = ⟨s.response, s.tunnelIps, now + Duration.fromSecs s.ttl⟩) ∨
      acc.1.map.get k = some v := by
  induction snapshot generalizing acc with
  | nil => exact Or.inr h
  | cons s snapshot ih =>
    rw [List.foldl_cons] at h
    rcases ih h with ⟨s', hs', hv⟩ | hold
    · exact Or.inl ⟨s', List.mem_cons_of_mem _ hs', hv⟩
    · unfold insertEntry at hold
      split_ifs at hold
      · exact Or.inr hold
      · rw [HashMap.get_insert] at hold
        split_ifs at hold with hk
        · cases hold
          exact Or.inl ⟨s, List.mem_cons_self, hk.symm, rfl⟩
        · exact Or.inr hold

/-- The last entry of a file for a key that has not run out. -/
def latest (snapshot : List SnapEntry) (k : CacheKey) : Option SnapEntry :=
  (snapshot.filter fun s => s.ttl ≠ 0 ∧ s.key = k).getLast?

/-- A key holds its latest entry of the file after a load, if there is one. -/
theorem insertEntries_get (snapshot : List SnapEntry) (acc : DnsCache × ℕ) :
    (snapshot.foldl (insertEntry now) acc).1.map.get k =
      ((latest snapshot k).map fun s =>
        ⟨s.response, s.tunnelIps, now + Duration.fromSecs s.ttl⟩).or (acc.1.map.get k) := by
  induction snapshot using List.reverseRecOn with
  | nil => rfl
  | append_singleton snapshot s ih =>
    rw [List.foldl_append, List.foldl_cons, List.foldl_nil, insertEntry, latest,
      List.filter_append]
    by_cases hz : s.ttl = 0
    · simpa [hz, latest] using ih
    · rw [if_neg hz, HashMap.get_insert]
      by_cases hk : k = s.key
      · simp [hz, hk]
      · rw [if_neg hk, ih]
        simp [hz, Ne.symm hk, latest]

theorem latest_isSome {snapshot : List SnapEntry} :
    (latest snapshot k).isSome ↔ k ∈ (snapshot.filter fun s => s.ttl ≠ 0).map SnapEntry.key := by
  rw [latest, List.getLast?_isSome, ne_eq, List.filter_eq_nil_iff]
  simp [and_assoc]

/-- The keys after a load: those before, and those of the file. -/
def keysAfter (c : DnsCache) (snapshot : List SnapEntry) : List CacheKey :=
  (c.map.keys ++ (snapshot.filter fun s => s.ttl ≠ 0).map SnapEntry.key).dedup

theorem length_insertEntries (now : Instant) (c : DnsCache) (snapshot : List SnapEntry) :
    (snapshot.foldl (insertEntry now) (c, 0)).1.map.entries.length = (c.keysAfter snapshot).length := by
  refine HashMap.length_entries_eq (List.nodup_dedup _) fun k => ?_
  rw [insertEntries_get, Option.isSome_or, keysAfter, List.mem_dedup, List.mem_append,
    HashMap.mem_keys, ← latest_isSome, Option.isSome_map, Bool.or_eq_true]
  exact or_comm

theorem of_load {snapshot : Option (List SnapEntry)} {r : DnsCache × ℕ}
    (hload : DnsCache.new.load snapshot now = .ok r) (h : r.1.map.get k = some v) :
    ∃ ss, snapshot = some ss ∧ ∃ s ∈ ss, s.key = k ∧
      v = ⟨s.response, s.tunnelIps, now + Duration.fromSecs s.ttl⟩ := by
  cases snapshot with
  | none =>
    cases hload
    cases h
  | some ss =>
    obtain ⟨-, rfl⟩ := loadEntries_eq_ok.1 hload
    rcases of_insertEntries h with hs | hnone
    · exact ⟨ss, rfl, hs⟩
    · cases hnone

/-- A saved entry is one of the cache, and what remains is rounded down. -/
theorem of_save {order : IterOrder CacheKey CacheEntry} {s : SnapEntry} (h : s ∈ c.save order now) :
    ∃ v, c.map.get s.key = some v ∧ s.response = v.response ∧ s.tunnelIps = v.tunnelIps ∧
      now + Duration.fromSecs s.ttl ≤ v.expires := by
  obtain ⟨⟨k, v⟩, hmem, hs⟩ := List.mem_filterMap.1 h
  unfold snapEntry at hs
  dsimp only at hs
  split_ifs at hs with hzero
  cases hs
  refine ⟨v, order.mem_iter.1 hmem, rfl, rfl, ?_⟩
  have hlate : ¬ v.expires ≤ now := by
    intro hle
    apply hzero
    rw [Instant.saturatingDurationSince, Nat.sub_eq_zero_of_le hle]
    rfl
  have hfloor := Nat.div_mul_le_self (v.expires - now) NANOS_PER_SEC
  rw [Nat.add_comm]
  exact Nat.add_le_of_le_sub (Nat.le_of_not_le hlate) hfloor

end DnsCache

namespace CacheHost

variable {h h' : CacheHost} {es : List (Entry CacheHost Event Out)} {k : CacheKey} {r : Bytes}
  {ips : List Ipv4Addr} {d d' : Instant} {e : Entry CacheHost Event Out}

theorem step_put {query response : Bytes} {tunnelIps : List Ipv4Addr} {pruned now : Instant}
    {d : Duration} (h : CacheHost) (hkey : Dns.question query = some k)
    (hlife : DnsCache.lifetime response = d) (hend : now + d < INSTANT_END) :
    step h (.put query response tunnelIps pruned now) =
      .ok ({ h with cache := ⟨(h.cache.makeRoom k pruned).insert k
        ⟨response, tunnelIps, now + d⟩⟩ }, .done) :=
  bind_eq_ok.2 ⟨_, DnsCache.put_of_question h.cache hkey hlife hend, rfl⟩

/-- How long a file had lain there when it was loaded. -/
def downtime (e : Entry CacheHost Event Out) : Duration :=
  match e.input, e.pre.file with
  | .restart now, some file => now - file.mtime
  | _, _ => 0

def totalDowntime (es : List (Entry CacheHost Event Out)) : Duration := (es.map downtime).sum

/-- `d` is within the lifetime of a response that was put under `k` at some time, and the
downtime since. -/
def Stems (es : List (Entry CacheHost Event Out)) (k : CacheKey) (r : Bytes)
    (ips : List Ipv4Addr) (d : Instant) : Prop :=
  ∃ before e after query pruned t₀, es = before ++ e :: after ∧
    e.input = .put query r ips pruned t₀ ∧ Dns.question query = some k ∧
    d ≤ t₀ + DnsCache.lifetime r + totalDowntime after

theorem Stems.snoc (hs : Stems es k r ips d) (hd : d' ≤ d + downtime e) :
    Stems (es ++ [e]) k r ips d' := by
  obtain ⟨before, f, after, query, pruned, t₀, rfl, hput, hkey, hle⟩ := hs
  refine ⟨before, f, after ++ [e], query, pruned, t₀, by simp, hput, hkey, ?_⟩
  have hsum : totalDowntime (after ++ [e]) = totalDowntime after + downtime e := by
    simp [totalDowntime]
  calc d' ≤ d + downtime e := hd
    _ ≤ t₀ + DnsCache.lifetime r + totalDowntime after + downtime e := Nat.add_le_add_right hle _
    _ = t₀ + DnsCache.lifetime r + totalDowntime (after ++ [e]) := by rw [hsum, ← Nat.add_assoc]

theorem Stems.keep (hs : Stems es k r ips d) : Stems (es ++ [e]) k r ips d :=
  hs.snoc (Nat.le_add_right _ _)

/-- Every entry of the cache and of the file was put. -/
structure Held (es : List (Entry CacheHost Event Out)) (h : CacheHost) : Prop where
  cached : ∀ k v, h.cache.map.get k = some v → Stems es k v.response v.tunnelIps v.expires
  saved : ∀ file, h.file = some file → ∀ s ∈ file.snapshot,
    Stems es s.key s.response s.tunnelIps (file.mtime + Duration.fromSecs s.ttl)

theorem held_new : Held [] new where
  cached := fun _ _ hv => by cases hv
  saved := fun _ hfile => by cases hfile

theorem Held.step {event : Event} {out : Out} (hh : Held es h)
    (hs : step h event = .ok (h', out)) : Held (es ++ [⟨h, event, out, h'⟩]) h' := by
  have hsaved : ∀ file, h.file = some file → ∀ s ∈ file.snapshot, Stems (es ++ [⟨h, event, out, h'⟩])
      s.key s.response s.tunnelIps (file.mtime + Duration.fromSecs s.ttl) :=
    fun file hfile s hmem => (hh.saved file hfile s hmem).keep
  cases event with
  | put query response tunnelIps pruned now =>
    obtain ⟨cache, hput, heq⟩ := bind_eq_ok.1 hs
    cases heq
    refine ⟨?_, hsaved⟩
    intro k v hv
    rcases DnsCache.of_put hput hv with ⟨hkey, rfl⟩ | hold
    · exact ⟨es, _, [], query, pruned, now, rfl, rfl, hkey, Nat.le_add_right _ _⟩
    · exact (hh.cached k v hold).keep
  | get query now =>
    cases hs
    exact ⟨fun k v hv => (hh.cached k v (DnsCache.of_get hv)).keep, hsaved⟩
  | save order write now =>
    cases hs
    refine ⟨fun k v hv => (hh.cached k v hv).keep, ?_⟩
    cases write with
    | written =>
      intro file hfile s hmem
      cases hfile
      obtain ⟨v, hv, hr, hi, hle⟩ := DnsCache.of_save hmem
      rw [hr, hi]
      exact (hh.cached s.key v hv).snoc (Nat.le_trans hle (Nat.le_add_right _ _))
    | failed => exact hsaved
    | torn =>
      intro file hfile
      cases hfile
  | restart now =>
    obtain ⟨r, hload, heq⟩ := bind_eq_ok.1 hs
    cases heq
    refine ⟨?_, hsaved⟩
    intro k v hv
    obtain ⟨ss, hss, s, hmem, rfl, rfl⟩ := DnsCache.of_load hload hv
    obtain ⟨file, hfile, rfl⟩ := Option.map_eq_some_iff.1 hss
    -- what was left when it was saved is counted again from now on
    refine (hh.saved file hfile s hmem).snoc ?_
    simp only [downtime, hfile]
    rw [Nat.add_right_comm]
    exact Nat.add_le_add_right le_add_tsub _

theorem run_held (hrun : Run CacheHost.step new es h) : Held es h := by
  induction hrun with
  | nil => exact held_new
  | snoc _ hs ih => exact ih.step hs

/-- Whatever is answered was put under the key that is asked for. -/
theorem answer_stems {query : Bytes} {now : Instant} (hrun : Run CacheHost.step new es h)
    (hs : CacheHost.step h (.get query now) = .ok (h', .answer (some (r, ips)))) :
    ∃ k response d, Dns.question query = some k ∧ r = DnsCache.stamp query response ∧ now < d ∧
      Stems es k response ips d := by
  have hanswer : (h.cache.get query now).2 = some (r, ips) := by
    simp only [CacheHost.step, Except.ok.injEq, Prod.mk.injEq, Out.answer.injEq] at hs
    exact hs.2
  obtain ⟨k, v, hkey, hv, hlive, heq⟩ := DnsCache.get_eq_some hanswer
  cases heq
  exact ⟨k, v.response, v.expires, hkey, rfl, hlive, (run_held hrun).cached k v hv⟩

end CacheHost

end ShadowVpn
