import ShadowVpn.Sanity.Cache

/-! What the answer cache promises over whole runs, restarts included: which question an
answer belongs to, and how old it can be. -/

namespace ShadowVpn

open Lib

namespace Sample

def query (id : UInt8) (labels : List Bytes) : Bytes :=
  [id, id, 0x01, 0x00, 0x00, 0x01, 0, 0, 0, 0, 0, 0] ++
    labels.flatMap (fun l => UInt8.ofNat l.length :: l) ++ [0, 0, 1, 0, 1]

def reply (query : Bytes) : Bytes := query.take 2 ++ [0x81, 0x80] ++ query.drop 4

end Sample

namespace CacheHost

variable {h h' : CacheHost} {es : List (Entry CacheHost Event Out)} {query answer : Bytes}
  {ips : List Ipv4Addr} {now : Instant}

/-- The stored bytes, but for the id of the query in the first two. -/
structure Stamped (query response answer : Bytes) : Prop where
  length : answer.length = response.length
  rest : answer.drop 2 = response.drop 2
  id : 2 ≤ response.length → answer.take 2 = query.take 2

theorem stamped_stamp {k : CacheKey} (hkey : Dns.question query = some k) (response : Bytes) :
    Stamped query response (DnsCache.stamp query response) := by
  have hlen : ¬ query.length < Dns.HEADER_LEN := by
    intro hshort
    rw [Dns.question, if_pos hshort] at hkey
    cases hkey
  rcases query with _ | ⟨q₀, _ | ⟨q₁, query⟩⟩
  · exact absurd (by decide) hlen
  · exact absurd (show 1 < 12 by decide) hlen
  · rcases response with _ | ⟨r₀, _ | ⟨r₁, response⟩⟩
    · exact ⟨rfl, rfl, fun hr => by simp at hr⟩
    · exact ⟨rfl, rfl, fun hr => by simp at hr⟩
    · exact ⟨rfl, rfl, fun _ => rfl⟩

/-! Questions. -/

def PlainName (query : Bytes) : Prop :=
  ∀ a, Dns.firstQuestion query = some a → ∀ l ∈ a.labels, Dns.Plain l

/-- An answer was put for the question that is asked, if that question and those that were
put under its key have plain labels. -/
theorem answer_for_question (hrun : Run step new es h)
    (hs : step h (.get query now) = .ok (h', .answer (some (answer, ips))))
    (hquery : PlainName query)
    (hputs : ∀ e ∈ es, ∀ query' response ips' pruned t₀, e.input = .put query' response ips' pruned t₀ →
      Dns.question query' = Dns.question query → PlainName query') :
    ∃ e ∈ es, ∃ query' response pruned t₀ a b, e.input = .put query' response ips pruned t₀ ∧
      Dns.firstQuestion query = some a ∧ Dns.firstQuestion query' = some b ∧
      Dns.SameLabels a b ∧ a.qtype = b.qtype ∧ a.qclass = b.qclass ∧
      Stamped query response answer := by
  obtain ⟨k, response, d, hkey, rfl, -, hstems⟩ := answer_stems hrun hs
  obtain ⟨before, e, after, query', pruned, t₀, rfl, hput, hkey', -⟩ := hstems
  have he : e ∈ before ++ e :: after := List.mem_append_right _ List.mem_cons_self
  have hplain := hputs e he query' response ips pruned t₀ hput (hkey'.trans hkey.symm)
  have hstamped := stamped_stamp hkey response
  rw [Dns.question_eq, Option.map_eq_some_iff] at hkey hkey'
  obtain ⟨a, ha, rfl⟩ := hkey
  obtain ⟨b, hb, hsame⟩ := hkey'
  refine ⟨e, he, query', response, pruned, t₀, a, b, hput, ha, hb, ?_, ?_, ?_, hstamped⟩
  · exact Dns.sameLabels_of_key ha hb (hquery a ha) (hplain b hb) hsame.symm
  · exact congrArg (fun k => k.2.1) hsame.symm
  · exact congrArg (fun k => k.2.2) hsame.symm

theorem answer_for_question_upper : ∃ es h h' answer,
    Run step new es h ∧
    step h (.get (Sample.query 2 [[0x41]]) 2) = .ok (h', .answer (some (answer, []))) ∧
    ∃ e ∈ es, ∃ query' response pruned t₀ a b, e.input = .put query' response [] pruned t₀ ∧
      Dns.firstQuestion (Sample.query 2 [[0x41]]) = some a ∧ Dns.firstQuestion query' = some b ∧
      Dns.SameLabels a b ∧ a.qtype = b.qtype ∧ a.qclass = b.qclass ∧
      Stamped (Sample.query 2 [[0x41]]) response answer := by
  have hrun : ∃ h₁ h' answer,
      step new (.put (Sample.query 1 [[0x61]]) (Sample.reply (Sample.query 1 [[0x61]])) [] 1 1) =
        .ok (h₁, .done) ∧
      step h₁ (.get (Sample.query 2 [[0x41]]) 2) = .ok (h', .answer (some (answer, []))) :=
    ⟨_, _, _, step_put (k := (['a'], 1, 1)) (d := 30000000000) _ (by decide +kernel) (by decide +kernel)
      (by decide +kernel), rfl⟩
  obtain ⟨h₁, h', answer, h1, h2⟩ := hrun
  have hupper : Dns.firstQuestion (Sample.query 2 [[0x41]]) = some ⟨[[0x41]], 1, 1⟩ := by
    decide +kernel
  have hlower : Dns.firstQuestion (Sample.query 1 [[0x61]]) = some ⟨[[0x61]], 1, 1⟩ := by
    decide +kernel
  refine ⟨_, h₁, h', answer, Run.single h1, h2, answer_for_question (Run.single h1) h2 ?_ ?_⟩
  · intro a ha
    cases hupper.symm.trans ha
    rw [List.forall_mem_singleton]
    exact ⟨⟨['A'], by decide⟩, by decide⟩
  · rw [List.forall_mem_singleton]
    intro query' response ips pruned t₀ heq _ a ha
    cases heq
    cases hlower.symm.trans ha
    rw [List.forall_mem_singleton]
    exact ⟨⟨['a'], by decide⟩, by decide⟩

/-- A reply for the labels `a` and `b` answers a query for the one label `a.b`. -/
theorem answer_for_other_labels : ∃ es h h' answer ips a b,
    Run step new es h ∧
    step h (.get (Sample.query 2 [[0x61, 0x2E, 0x62]]) 2) =
      .ok (h', .answer (some (answer, ips))) ∧
    Dns.firstQuestion (Sample.query 2 [[0x61, 0x2E, 0x62]]) = some a ∧
    (∀ e ∈ es, ∀ query' response ips' pruned t₀, e.input = .put query' response ips' pruned t₀ →
      Dns.firstQuestion query' = some b) ∧
    ¬ Dns.SameLabels a b := by
  have hrun : ∃ h₁ h' answer,
      step new (.put (Sample.query 1 [[0x61], [0x62]])
        (Sample.reply (Sample.query 1 [[0x61], [0x62]])) [] 1 1) = .ok (h₁, .done) ∧
      step h₁ (.get (Sample.query 2 [[0x61, 0x2E, 0x62]]) 2) =
        .ok (h', .answer (some (answer, []))) :=
    ⟨_, _, _, step_put (k := (['a', '.', 'b'], 1, 1)) (d := 30000000000) _ (by decide +kernel) (by decide +kernel)
      (by decide +kernel), rfl⟩
  obtain ⟨h₁, h', answer, h1, h2⟩ := hrun
  refine ⟨_, h₁, h', answer, [], ⟨[[0x61, 0x2E, 0x62]], 1, 1⟩, ⟨[[0x61], [0x62]], 1, 1⟩,
    Run.single h1, h2, by decide +kernel, ?_, by decide +kernel⟩
  rw [List.forall_mem_singleton]
  intro query' response ips' pruned t₀ heq
  cases heq
  decide +kernel

/-! Age. -/

/-- An answer is given no later than the lifetime of a response after that was put, but
for the time that passed since between saving the cache and loading it. -/
theorem answer_within_lifetime (hrun : Run step new es h)
    (hs : step h (.get query now) = .ok (h', .answer (some (answer, ips)))) :
    ∃ before e after query' response pruned t₀, es = before ++ e :: after ∧
      e.input = .put query' response ips pruned t₀ ∧ Dns.question query' = Dns.question query ∧
      Stamped query response answer ∧
      now ≤ t₀ + DnsCache.lifetime response + totalDowntime after := by
  obtain ⟨k, response, d, hkey, rfl, hlive, hstems⟩ := answer_stems hrun hs
  obtain ⟨before, e, after, query', pruned, t₀, rfl, hput, hkey', hle⟩ := hstems
  exact ⟨before, e, after, query', response, pruned, t₀, rfl, hput, hkey'.trans hkey.symm,
    stamped_stamp hkey response, Nat.le_trans (Nat.le_of_lt hlive) hle⟩

theorem answer_within_lifetime_saved : ∃ es h h' answer,
    Run step new es h ∧
    step h (.get (Sample.query 2 [[0x61]]) 4000000000) = .ok (h', .answer (some (answer, []))) ∧
    ∃ before e after query' response pruned t₀, es = before ++ e :: after ∧
      e.input = .put query' response [] pruned t₀ ∧
      Dns.question query' = Dns.question (Sample.query 2 [[0x61]]) ∧
      Stamped (Sample.query 2 [[0x61]]) response answer ∧
      4000000000 ≤ t₀ + DnsCache.lifetime response + totalDowntime after := by
  have hrun : ∃ h₁ h₂ h₃ h' answer,
      step new (.put (Sample.query 1 [[0x61]]) (Sample.reply (Sample.query 1 [[0x61]])) [] 0 0) =
        .ok (h₁, .done) ∧
      step h₁ (.save .stored .written 1000000000) = .ok (h₂, .done) ∧
      step h₂ (.restart 1000000000) = .ok (h₃, .loaded 1) ∧
      step h₃ (.get (Sample.query 2 [[0x61]]) 4000000000) =
        .ok (h', .answer (some (answer, []))) :=
    ⟨_, _, _, _, _, step_put (k := (['a'], 1, 1)) (d := 30000000000) _ (by decide +kernel)
      (by decide +kernel) (by decide +kernel), rfl, rfl, rfl⟩
  obtain ⟨h₁, h₂, h₃, h', answer, h1, h2, h3, h4⟩ := hrun
  have hes := ((Run.single h1).snoc h2).snoc h3
  exact ⟨_, h₃, h', answer, hes, h4, answer_within_lifetime hes h4⟩

/-- A reply that is good for thirty seconds is saved after one, loaded a quarter of an
hour later, and given then. -/
theorem answer_after_lifetime : ∃ es h h' answer,
    Run step new es h ∧
    step h (.get (Sample.query 2 [[0x61]]) 1005000000000) =
      .ok (h', .answer (some (answer, []))) ∧
    ∀ e ∈ es, ∀ query' response ips pruned t₀, e.input = .put query' response ips pruned t₀ →
      t₀ + DnsCache.lifetime response < 1005000000000 := by
  have hrun : ∃ h₁ h₂ h₃ h' answer,
      step new (.put (Sample.query 1 [[0x61]]) (Sample.reply (Sample.query 1 [[0x61]])) [] 0 0) =
        .ok (h₁, .done) ∧
      step h₁ (.save .stored .written 1000000000) = .ok (h₂, .done) ∧
      step h₂ (.restart 1000000000000) = .ok (h₃, .loaded 1) ∧
      step h₃ (.get (Sample.query 2 [[0x61]]) 1005000000000) =
        .ok (h', .answer (some (answer, []))) :=
    ⟨_, _, _, _, _, step_put (k := (['a'], 1, 1)) (d := 30000000000) _ (by decide +kernel)
      (by decide +kernel) (by decide +kernel), rfl, rfl, rfl⟩
  obtain ⟨h₁, h₂, h₃, h', answer, h1, h2, h3, h4⟩ := hrun
  refine ⟨_, h₃, h', answer, ((Run.single h1).snoc h2).snoc h3, h4, ?_⟩
  simp only [List.forall_mem_append, List.forall_mem_singleton]
  refine ⟨⟨?_, ?_⟩, ?_⟩
  · intro query' response ips pruned t₀ heq
    cases heq
    decide +kernel
  · intro query' response ips pruned t₀ heq
    cases heq
  · intro query' response ips pruned t₀ heq
    cases heq

end CacheHost

/-! Size. -/

namespace CacheClock

variable {s s' : CacheClock} {event : Event} {out : CacheHost.Out}

structure Bounded (s : CacheClock) : Prop where
  size : s.cache.map.entries.length ≤ DnsCache.MAX_ENTRIES
  age : ∀ k v, s.cache.map.get k = some v →
    v.expires ≤ s.now + Duration.fromSecs DnsCache.MAX_TTL

/-- A file is loaded that brings the keys to more than 4096, or in which the entry that
counts for some key has more than an hour left. -/
def Excess (s : CacheClock) : Event → Prop
  | .load (some snapshot) _ => DnsCache.MAX_ENTRIES < (s.cache.keysAfter snapshot).length ∨
      ∃ k e, DnsCache.latest snapshot k = some e ∧ DnsCache.MAX_TTL < e.ttl
  | _ => False

theorem Bounded.later (h : s.Bounded) {cache : DnsCache} {elapsed : Duration}
    (hsub : ∀ k v, cache.map.get k = some v → s.cache.map.get k = some v) :
    Bounded ⟨cache, s.now + elapsed⟩ where
  size := Nat.le_trans (HashMap.length_le_of_get hsub) h.size
  age := fun k v hv => Nat.le_trans (h.age k v (hsub k v hv))
    (Nat.add_le_add_right (Nat.le_add_right _ _) _)

theorem Bounded.put (h : s.Bounded) {query response : Bytes} {tunnelIps : List Ipv4Addr}
    {elapsed elapsed' : Duration} {cache : DnsCache}
    (hput : s.cache.put query response tunnelIps (s.now + elapsed) (s.now + elapsed + elapsed') =
      .ok cache) : Bounded ⟨cache, s.now + elapsed + elapsed'⟩ := by
  rcases DnsCache.put_eq_ok hput with ⟨-, rfl⟩ | ⟨key, -, rfl⟩
  · rw [Nat.add_assoc]
    exact h.later fun _ _ hv => hv
  · refine ⟨DnsCache.length_makeRoom_insert h.size _, ?_⟩
    intro k v hv
    rcases DnsCache.of_put hput hv with ⟨-, rfl⟩ | hold
    · exact Nat.add_le_add_left (DnsCache.lifetime_le response) _
    · rw [Nat.add_assoc s.now]
      exact Nat.le_trans (h.age k v hold) (Nat.add_le_add_right (Nat.le_add_right _ _) _)

theorem Bounded.load_iff (h : s.Bounded) {snapshot : List SnapEntry} {elapsed : Duration} :
    Bounded ⟨(snapshot.foldl (DnsCache.insertEntry (s.now + elapsed)) (s.cache, 0)).1,
      s.now + elapsed⟩ ↔ ¬ s.Excess (.load (some snapshot) elapsed) := by
  have hsize := DnsCache.length_insertEntries (s.now + elapsed) s.cache snapshot
  refine ⟨?_, ?_⟩
  · rintro hb (hmany | ⟨k, e, hlast, hlong⟩)
    · exact absurd hb.size (Nat.not_le.2 (hsize ▸ hmany))
    · have hget : (snapshot.foldl (DnsCache.insertEntry (s.now + elapsed)) (s.cache, 0)).1.map.get k =
          some ⟨e.response, e.tunnelIps, s.now + elapsed + Duration.fromSecs e.ttl⟩ := by
        rw [DnsCache.insertEntries_get, hlast]
        rfl
      have hle := Nat.le_of_add_le_add_left (hb.age k _ hget)
      exact absurd (Nat.le_of_mul_le_mul_right hle (by decide)) (Nat.not_le.2 hlong)
  · intro hno
    refine ⟨hsize ▸ Nat.not_lt.1 fun hmany => hno (Or.inl hmany), ?_⟩
    intro k v hv
    rw [DnsCache.insertEntries_get] at hv
    cases hlast : DnsCache.latest snapshot k with
    | none =>
      rw [hlast] at hv
      exact Nat.le_trans (h.age k v hv) (Nat.add_le_add_right (Nat.le_add_right _ _) _)
    | some e =>
      rw [hlast] at hv
      cases hv
      have hshort : e.ttl ≤ DnsCache.MAX_TTL :=
        Nat.not_lt.1 fun hlong => hno (Or.inr ⟨k, e, hlast, hlong⟩)
      exact Nat.add_le_add_left (Nat.mul_le_mul_right _ hshort) _

theorem bounded_step_iff (h : s.Bounded) (hs : s.step event = .ok (s', out)) :
    s'.Bounded ↔ ¬ s.Excess event := by
  cases event with
  | load snapshot elapsed =>
    obtain ⟨r, hload, heq⟩ := bind_eq_ok.1 hs
    cases heq
    cases snapshot with
    | none =>
      cases hload
      exact iff_of_true (h.later fun _ _ hv => hv) id
    | some snapshot =>
      obtain ⟨-, rfl⟩ := DnsCache.loadEntries_eq_ok.1 hload
      exact h.load_iff
  | put query response tunnelIps elapsed elapsed' =>
    obtain ⟨cache, hput, heq⟩ := bind_eq_ok.1 hs
    cases heq
    exact iff_of_true (h.put hput) id
  | get query elapsed =>
    cases hs
    exact iff_of_true (h.later fun _ _ hv => DnsCache.of_get hv) id

/-- A load panics unless the clock can tell the end of every entry. From an empty cache,
the bounds hold all along exactly when no file that is loaded exceeds them. -/
theorem load_safe_and_bounded_iff (c : DnsCache) (snapshot : List SnapEntry) (now start : Instant)
    {es : List (Entry CacheClock Event CacheHost.Out)} (hrun : Run step ⟨.new, start⟩ es s) :
    ((∃ r, c.load (some snapshot) now = .ok r) ↔
      ∀ e ∈ snapshot, e.ttl ≠ 0 → now + Duration.fromSecs e.ttl < INSTANT_END) ∧
    ((∀ e ∈ es, ¬ e.pre.Excess e.input) ↔ ∀ e ∈ es, e.post.Bounded) := by
  refine ⟨⟨?_, ?_⟩, ?_⟩
  · rintro ⟨r, hload⟩
    exact (DnsCache.loadEntries_eq_ok.1 hload).1
  · intro hfits
    exact ⟨_, DnsCache.loadEntries_eq_ok.2 ⟨hfits, rfl⟩⟩
  · refine hrun.forall_iff (I := fun _ => True) (fun _ _ _ _ _ _ => trivial)
      (fun _ _ _ _ _ h hs => bounded_step_iff h hs) trivial ⟨Nat.zero_le _, ?_⟩
    intro k v hv
    cases hv

end CacheClock

namespace Sample

def saved (n ttl : ℕ) : SnapEntry := ⟨List.replicate n 'a', 1, 1, [], [], ttl⟩

def file : List SnapEntry := [saved 1 60, saved 2 3600, saved 1 30, saved 3 0]

def crowd : List SnapEntry := (List.range 4097).map (saved · 60)

theorem length_keysAfter_crowd : (DnsCache.new.keysAfter crowd).length = 4097 := by
  have hkeys : ((crowd.filter fun s => s.ttl ≠ 0).map SnapEntry.key) =
      (List.range 4097).map fun n => (List.replicate n 'a', 1, 1) := by
    rw [List.filter_eq_self.2 (by simp [crowd, saved]), crowd, List.map_map]
    rfl
  have hnodup : ((List.range 4097).map fun n =>
      ((List.replicate n 'a', 1, 1) : CacheKey)).Nodup := by
    refine List.nodup_range.map fun m n h => ?_
    simpa using congrArg (fun k : CacheKey => k.1.length) h
  rw [DnsCache.keysAfter, hkeys, show DnsCache.new.map.keys = [] from rfl, List.nil_append,
    hnodup.dedup, List.length_map, List.length_range]

end Sample

namespace CacheClock

/-- A file is loaded, and again after ten seconds, that has two entries for one name, one that may be
kept for an hour, and one that has run out. -/
theorem load_safe_and_bounded_iff_twice : ∃ es s,
    Run step ⟨.new, 0⟩ es s ∧ es.length = 2 ∧ s.cache.map.entries.length = 2 ∧
      (∃ r, DnsCache.new.load (some Sample.file) 0 = .ok r) ∧ ∀ e ∈ es, e.post.Bounded := by
  have hrun : ∃ s₁ s, step ⟨.new, 0⟩ (.load (some Sample.file) 0) = .ok (s₁, .loaded 3) ∧
      step s₁ (.load (some Sample.file) 10000000000) = .ok (s, .loaded 3) ∧
      (DnsCache.new.keysAfter Sample.file).length = 2 ∧
      (s₁.cache.keysAfter Sample.file).length = 2 ∧ s.cache.map.entries.length = 2 :=
    ⟨_, _, rfl, rfl, by decide +kernel, by decide +kernel, by decide +kernel⟩
  obtain ⟨s₁, s, h₁, h₂, hkeys₁, hkeys₂, hsize⟩ := hrun
  have hes := (Run.single h₁).snoc h₂
  obtain ⟨hload, hiff⟩ := load_safe_and_bounded_iff .new Sample.file 0 0 hes
  have hshort : ∀ e ∈ Sample.file, e.ttl ≤ DnsCache.MAX_TTL := by
    decide +kernel
  have hfits : ∀ {c : CacheClock} {elapsed : Duration}, (c.cache.keysAfter Sample.file).length = 2 →
      ¬ c.Excess (.load (some Sample.file) elapsed) := by
    rintro c elapsed hkeys (hmany | ⟨k, e, hlast, hlong⟩)
    · rw [hkeys] at hmany
      exact absurd hmany (by decide)
    · have hmem := List.mem_of_mem_filter (List.mem_of_getLast? hlast)
      exact absurd hlong (Nat.not_lt.2 (hshort e hmem))
  refine ⟨_, s, hes, rfl, hsize, hload.2 (by decide +kernel), hiff.1 ?_⟩
  rw [List.forall_mem_append, List.forall_mem_singleton, List.forall_mem_singleton]
  exact ⟨hfits hkeys₁, hfits hkeys₂⟩

/-- A file makes the process panic, and two others leave the bounds behind: one with an
entry for two hours, and one with 4097 entries for a minute. -/
theorem load_panics_or_exceeds :
    DnsCache.new.load (some [Sample.saved 1 (2 ^ 64 - 1)]) 0 = .error .expectFailed ∧
    (∃ es s, Run step ⟨.new, 0⟩ es s ∧ ∃ k v, s.cache.map.get k = some v ∧
      s.now + Duration.fromSecs DnsCache.MAX_TTL < v.expires) ∧
    ∃ es s, Run step ⟨.new, 0⟩ es s ∧ DnsCache.MAX_ENTRIES < s.cache.map.entries.length := by
  refine ⟨rfl, ?_, ?_⟩
  · have hstep : ∃ s, step ⟨.new, 0⟩ (.load (some [Sample.saved 1 7200]) 0) = .ok (s, .loaded 1) ∧
        s.cache.map.get (['a'], 1, 1) = some ⟨[], [], 7200000000000⟩ ∧ s.now = 0 :=
      ⟨_, rfl, rfl, rfl⟩
    obtain ⟨s, hs, hget, hnow⟩ := hstep
    refine ⟨_, s, Run.single hs, _, _, hget, ?_⟩
    rw [hnow]
    decide +kernel
  · have hfits : ∀ e ∈ Sample.crowd, e.ttl ≠ 0 →
        (0 : Instant) + Duration.fromSecs e.ttl < INSTANT_END := by
      intro e he _
      obtain ⟨n, -, rfl⟩ := List.mem_map.1 he
      show (0 : ℕ) + 60 * 1000000000 < 2 ^ 63 * 1000000000
      decide
    have hload : DnsCache.new.load (some Sample.crowd) (0 + 0) = .ok _ :=
      DnsCache.loadEntries_eq_ok.2 ⟨hfits, rfl⟩
    have hs : step ⟨.new, 0⟩ (.load (some Sample.crowd) 0) = .ok (_, _) :=
      bind_eq_ok.2 ⟨_, hload, rfl⟩
    refine ⟨_, _, Run.single hs, ?_⟩
    rw [DnsCache.length_insertEntries, Sample.length_keysAfter_crowd]
    decide

end CacheClock

end ShadowVpn
