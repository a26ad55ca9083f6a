import ShadowVpn.Sanity.Load
import ShadowVpn.Sanity.NodeText

/-! The lease file, written and read back. A row comes back as it was but for its time,
which loses the fraction of a second; the rows of a book conflict with none of each
other, so the load loop skips expired ones and nothing else. -/

namespace ShadowVpn

open Lib

/-! Times. -/

/-- Whole seconds. -/
def SystemTime.floorSecs (t : SystemTime) : SystemTime where
  nanos := t.nanos / NANOS_PER_SEC * NANOS_PER_SEC
  lower := by
    have := t.lower
    simp only [NANOS_PER_SEC]
    omega
  upper := by
    have := t.upper
    simp only [NANOS_PER_SEC]
    omega

/-- What a time becomes in the lease file: whole seconds, and the epoch for anything
before it. -/
def SystemTime.reread (t : SystemTime) : SystemTime :=
  if t.nanos < 0 then .UNIX_EPOCH else t.floorSecs

theorem toUnix_of_epoch {t : SystemTime} (h : 0 ≤ t.nanos) :
    (toUnix t).toNat = t.nanos.toNat / NANOS_PER_SEC := by
  have hup := t.upper
  have hlt : t.nanos.toNat / NANOS_PER_SEC < 2 ^ 64 := by
    simp only [NANOS_PER_SEC]
    omega
  have h0 : SystemTime.UNIX_EPOCH.nanos ≤ t.nanos := h
  have hsub : t.nanos - SystemTime.UNIX_EPOCH.nanos = t.nanos := Int.sub_zero _
  unfold toUnix SystemTime.durationSince
  rw [if_pos h0, hsub]
  exact UInt64.toNat_ofNat_of_lt hlt

theorem fromUnix_eq_some {secs : UInt64} {t : SystemTime}
    (h : t.nanos = (secs.toNat * NANOS_PER_SEC : ℕ)) : fromUnix secs = some t := by
  have hup := t.upper
  have hsum : SystemTime.UNIX_EPOCH.nanos + (secs.toNat * NANOS_PER_SEC : ℕ) = t.nanos := by
    rw [h]
    exact Int.zero_add _
  unfold fromUnix SystemTime.checkedAdd Duration.fromSecs
  rw [dif_pos (by rw [hsum]; exact hup)]
  congr 1
  obtain ⟨nanos, lower, upper⟩ := t
  simp only [SystemTime.mk.injEq]
  exact hsum

/-- The file keeps whole seconds. -/
theorem fromUnix_toUnix (t : SystemTime) : fromUnix (toUnix t) = some t.reread := by
  apply fromUnix_eq_some
  unfold SystemTime.reread
  split_ifs with h
  · have hno : ¬ SystemTime.UNIX_EPOCH.nanos ≤ t.nanos := not_le.2 h
    have hz : toUnix t = 0 := by simp [toUnix, SystemTime.durationSince, hno]
    rw [hz]
    rfl
  · have h0 : 0 ≤ t.nanos := not_lt.1 h
    rw [toUnix_of_epoch h0]
    simp only [SystemTime.floorSecs, NANOS_PER_SEC]
    omega

theorem reread_of_epoch {t : SystemTime} (h : SystemTime.UNIX_EPOCH.nanos ≤ t.nanos) :
    t.reread = t.floorSecs :=
  if_neg (not_lt.2 h)

/-- At most a second is lost. -/
theorem lt_reread (t : SystemTime) : t.nanos < t.reread.nanos + NANOS_PER_SEC := by
  unfold SystemTime.reread
  split_ifs with h
  · have : (0 : ℤ) < SystemTime.UNIX_EPOCH.nanos + NANOS_PER_SEC := by decide
    omega
  · simp only [SystemTime.floorSecs, NANOS_PER_SEC]
    omega

/-! Rows. -/

/-- A lease as the file remembers it. -/
def Lease.reread (l : Lease) : Lease := { l with lastSeen := l.lastSeen.reread }

theorem decodeRow_eq {row : PersistLease} {id : NodeId} {t : SystemTime}
    (hid : parseNodeId row.nodeId = .ok (some id)) (ht : fromUnix row.lastSeenUnix = some t) :
    decodeRow row = .ok (.ok ⟨id, row.ip4, row.ip6, t, row.lastPeer⟩) := by
  unfold decodeRow
  -- the two results are made opaque first, so that nothing evaluates them
  generalize parseNodeId row.nodeId = r at hid ⊢
  generalize fromUnix row.lastSeenUnix = r' at ht ⊢
  subst hid ht
  rfl

theorem decodeRow_fromLease (l : Lease) : decodeRow (.fromLease l) = .ok (.ok l.reread) :=
  decodeRow_eq (parseNodeId_fmtNode l.nodeId) (fromUnix_toUnix l.lastSeen)

section Loop

variable {now : SystemTime} {s t : Assigner} {row : PersistLease} {l : Lease}

/-- A readable row that the table does not take. -/
theorem loadRows_skip (hrow : decodeRow row = .ok (.ok l)) {reason : SkipReason}
    (hr : s.restore now l = .error reason) (rows : List PersistLease) :
    Assigner.loadRows now s (row :: rows) =
      (Assigner.loadRows now s rows >>= fun r => .ok (r.1, reason :: r.2)) := by
  rw [Assigner.loadRows, hrow]
  have hd : ((Except.ok l : Except SkipReason Lease) >>= s.restore now) = .error reason := hr
  simp only [bind, Except.bind] at hd ⊢
  rw [hd]

theorem loadRows_keep (hrow : decodeRow row = .ok (.ok l)) (hr : s.restore now l = .ok t)
    (rows : List PersistLease) :
    Assigner.loadRows now s (row :: rows) = Assigner.loadRows now t rows := by
  rw [Assigner.loadRows, hrow]
  have hd : ((Except.ok l : Except SkipReason Lease) >>= s.restore now) = .ok t := hr
  simp only [bind, Except.bind] at hd ⊢
  rw [hd]

end Loop

/-- Rows without conflicts are all restored but for the expired ones. -/
theorem loadRows_written (now : SystemTime) {ls : List Lease} {s : Assigner} {kept : List Lease}
    {b : Book} (h : Restored s kept b) (hold : ∀ k ∈ kept, ∀ l ∈ ls, ¬ k.Conflicts l)
    (hnew : ls.Pairwise fun k l => ¬ k.Conflicts l) :
    ∃ s' skipped b', Assigner.loadRows now s (ls.map .fromLease) = .ok (s', skipped) ∧
      Restored s' (kept ++ (ls.map Lease.reread).filter fun l => !isExpired l.lastSeen now s.ttl)
        b' ∧ Frame s s' ∧ ∀ r ∈ skipped, r = .expired := by
  induction ls generalizing s kept b with
  | nil => exact ⟨s, [], b, rfl, by simpa using h, Frame.refl s, by simp⟩
  | cons l ls ih =>
    obtain ⟨hl, hls⟩ := List.pairwise_cons.1 hnew
    have hno : ¬ ∃ k ∈ kept, k.Conflicts l.reread := by
      rintro ⟨k, hk, hc⟩
      exact hold k hk l (List.mem_cons_self ..) hc
    have hrest : ∀ k ∈ kept, ∀ m ∈ ls, ¬ k.Conflicts m :=
      fun k hk m hm => hold k hk m (List.mem_cons_of_mem l hm)
    rw [List.map_cons]
    rcases Assigner.restore_cases h now l.reread with ⟨he, hr⟩ | ⟨-, hc, -⟩ | ⟨he, -, t, b', hr, ht, hf⟩
    · obtain ⟨s', skipped, b', hload, hres, hf, hskip⟩ := ih h hrest hls
      refine ⟨s', .expired :: skipped, b', ?_, ?_, hf, ?_⟩
      · rw [loadRows_skip (decodeRow_fromLease l) hr, hload]
        rfl
      · simpa [he] using hres
      · simpa using hskip
    · exact absurd hc hno
    · have httl : t.ttl = s.ttl := congrArg Policy.ttl hf.policy
      have hrest' : ∀ k ∈ kept ++ [l.reread], ∀ m ∈ ls, ¬ k.Conflicts m := by
        intro k hk m hm
        rcases List.mem_append.1 hk with hk | hk
        · exact hrest k hk m hm
        · obtain rfl := List.mem_singleton.1 hk
          exact hl m hm
      obtain ⟨s', skipped, b'', hload, hres, hf', hskip⟩ := ih ht hrest' hls
      refine ⟨s', skipped, b'', ?_, ?_, hf.trans hf', hskip⟩
      · rw [loadRows_keep (decodeRow_fromLease l) hr]
        exact hload
      · rw [httl] at hres
        simpa [he] using hres

/-- The rows of a book, in any order, conflict with none of each other. -/
theorem rows_pairwise {s : Assigner} {b : Book} (hr : Refines s b)
    (order : IterOrder NodeId Lease) :
    ((order.iter s.byNode).map Sigma.snd).Pairwise fun k l => ¬ k.Conflicts l := by
  have hkeys := List.pairwise_map.1 (order.nodup_keys s.byNode)
  refine List.pairwise_map.2 (hkeys.imp_of_mem ?_)
  rintro ⟨n, k⟩ ⟨m, l⟩ hk hl hne hc
  have hk' : b.held n = some k := by rw [← hr.held]; exact order.mem_iter.1 hk
  have hl' : b.held m = some l := by rw [← hr.held]; exact order.mem_iter.1 hl
  rcases hc with hid | h4 | ⟨h6, he⟩
  · exact hne (by rw [← b.own n k hk', ← b.own m l hl']; exact hid)
  · exact hne (b.ip4_inj n m k l hk' hl' h4)
  · obtain ⟨a, ha⟩ := Option.isSome_iff_exists.1 h6
    exact hne (b.ip6_inj n m k l a hk' hl' (he.trans ha) ha)

/-- Starting from rows without conflicts restores them but for the expired ones. -/
theorem new_rows {ls : List Lease} (hls : ls.Pairwise fun k l => ¬ k.Conflicts l)
    {args : Assigner.Args} (hpath : args.persistPath.isSome) (clock now : SystemTime) (io : Io) :
    ∃ started b', Assigner.new args clock now io (.parsed ⟨1, ls.map .fromLease⟩) = .ok started ∧
      Refines started.assigner b' ∧ (∀ p, b'.bound p = none) ∧
      (∀ n l', b'.held n = some l' ↔ ∃ l ∈ ls, l.nodeId = n ∧
        isExpired l.reread.lastSeen now args.ttl = false ∧ l' = l.reread) ∧
      ∀ r ∈ started.skipped, r = .expired := by
  obtain ⟨path, hp⟩ := Option.isSome_iff_exists.1 hpath
  obtain ⟨s', skipped, b', hload, hres, -, hskip⟩ :=
    loadRows_written now (Restored.empty args clock) (by simp) hls
  have hstart : Assigner.new args clock now io (.parsed ⟨1, ls.map .fromLease⟩) =
      .ok ⟨(s'.persistIf (!skipped.isEmpty) io now).1,
        ((s'.persistIf (!skipped.isEmpty) io now).2.map LeaseFile.parsed).getD
          (.parsed ⟨1, ls.map .fromLease⟩), skipped⟩ := by
    simp only [Assigner.new, hp, Assigner.load, hload]
    rfl
  have hkeep := Assigner.Restored.persistIf hres (!skipped.isEmpty) io now
  refine ⟨_, b', hstart, hkeep.refines, hkeep.silent, fun n l' => ?_, hskip⟩
  rw [hkeep.rows, List.nil_append, List.mem_filter, List.mem_map]
  constructor
  · rintro ⟨⟨⟨l, hl, rfl⟩, he⟩, hn⟩
    have he' : (!isExpired l.reread.lastSeen now args.ttl) = true := he
    exact ⟨l, hl, hn, by simpa using he', rfl⟩
  · rintro ⟨l, hl, hn, he, rfl⟩
    refine ⟨⟨⟨l, hl, rfl⟩, ?_⟩, hn⟩
    have he' : isExpired l.reread.lastSeen now (Assigner.empty args clock).ttl = false := he
    simp [he']

/-- The rows that are written from a table. -/
theorem mem_rows {s : Assigner} {b : Book} (hr : Refines s b) (order : IterOrder NodeId Lease)
    {n : NodeId} {l : Lease} :
    l ∈ (order.iter s.byNode).map Sigma.snd ∧ l.nodeId = n ↔ b.held n = some l := by
  constructor
  · rintro ⟨hl, rfl⟩
    obtain ⟨⟨m, k⟩, hmk, rfl⟩ := List.mem_map.1 hl
    have hheld : b.held m = some k := by rw [← hr.held]; exact order.mem_iter.1 hmk
    rwa [b.own m k hheld]
  · intro hl
    have hmem := order.mem_iter.2 (show s.byNode.get n = some l by rw [hr.held]; exact hl)
    exact ⟨List.mem_map_of_mem hmem, b.own n l hl⟩

theorem writeLeases_eq (s : Assigner) (order : IterOrder NodeId Lease) :
    s.writeLeases order = ⟨1, ((order.iter s.byNode).map Sigma.snd).map .fromLease⟩ := by
  simp [Assigner.writeLeases]

/-- Starting from a file written from `s` restores its rows but for the expired ones. -/
theorem new_written {s : Assigner} {b : Book} (hr : Refines s b) (order : IterOrder NodeId Lease)
    {args : Assigner.Args} (hpath : args.persistPath.isSome) (clock now : SystemTime) (io : Io) :
    ∃ started b', Assigner.new args clock now io (.parsed (s.writeLeases order)) = .ok started ∧
      Refines started.assigner b' ∧ (∀ p, b'.bound p = none) ∧
      (∀ n l', b'.held n = some l' ↔ ∃ l, b.held n = some l ∧
        isExpired l.reread.lastSeen now args.ttl = false ∧ l' = l.reread) ∧
      ∀ r ∈ started.skipped, r = .expired := by
  obtain ⟨started, b', hnew, hr', hsilent, hrows, hskip⟩ :=
    new_rows (rows_pairwise hr order) hpath clock now io
  rw [writeLeases_eq]
  refine ⟨started, b', hnew, hr', hsilent, fun n l' => ?_, hskip⟩
  rw [hrows]
  constructor
  · rintro ⟨l, hl, hn, hrest⟩
    exact ⟨l, (mem_rows hr order).1 ⟨hl, hn⟩, hrest⟩
  · rintro ⟨l, hl, hrest⟩
    obtain ⟨hmem, hn⟩ := (mem_rows hr order).2 hl
    exact ⟨l, hmem, hn, hrest⟩

end ShadowVpn
