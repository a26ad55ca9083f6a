import ShadowVpn.Sanity.Allocate

/-! Start-up. Whatever the lease file holds, the table that `new` returns refines a
book, no endpoint is bound in it, and its rows are the kept rows of the file. -/

namespace ShadowVpn

open Lib

/-- `s` holds the leases of `kept`, and no endpoint speaks for any of them. -/
structure Restored (s : Assigner) (kept : List Lease) (b : Book) : Prop where
  refines : Refines s b
  silent : ∀ p, b.bound p = none
  rows : ∀ n l, b.held n = some l ↔ l ∈ kept ∧ l.nodeId = n

namespace Restored

variable {s : Assigner} {kept : List Lease} {b : Book}

theorem empty (args : Assigner.Args) (clock : SystemTime) :
    Restored (Assigner.empty args clock) [] Book.empty :=
  ⟨Assigner.refines_empty args clock, fun _ => rfl, fun n l => by simp [Book.empty]⟩

/-- Nothing in conflict with `l` is held exactly when the book is free for it. -/
theorem free_iff (h : Restored s kept b) (l : Lease) :
    b.Free l.nodeId l.ip4 l.ip6 ↔ ¬ ∃ k ∈ kept, k.Conflicts l := by
  constructor
  · rintro hf ⟨k, hk, hc⟩
    have hheld := (h.rows k.nodeId k).2 ⟨hk, rfl⟩
    rcases hc with hn | h4 | ⟨h6, he⟩
    · rw [hn, hf.node] at hheld
      cases hheld
    · exact hf.ip4 _ k hheld h4
    · obtain ⟨a, ha⟩ := Option.isSome_iff_exists.1 h6
      exact hf.ip6 _ k a hheld ha (he.trans ha)
  · intro hno
    refine ⟨?_, fun m k hk h4 => ?_, fun m k a hk ha h6 => ?_⟩
    · rw [Option.eq_none_iff_forall_ne_some]
      intro k hk
      obtain ⟨hmem, hn⟩ := (h.rows _ k).1 hk
      exact hno ⟨k, hmem, Or.inl hn⟩
    · exact hno ⟨k, ((h.rows m k).1 hk).1, Or.inr (Or.inl h4)⟩
    · exact hno ⟨k, ((h.rows m k).1 hk).1, Or.inr (Or.inr ⟨by simp [ha], h6.trans ha.symm⟩)⟩

theorem add (h : Restored s kept b) {l : Lease} (hf : b.Free l.nodeId l.ip4 l.ip6) :
    Restored { s with
      byNode := s.byNode.insert l.nodeId l
      byIp4 := s.byIp4.insert l.ip4 l.nodeId
      byIp6 := s.byIp6.insertOpt l.ip6 l.nodeId } (kept ++ [l]) (b.add l hf) := by
  refine ⟨h.refines.add hf, h.silent, fun n k => ?_⟩
  simp only [Book.add, List.mem_append, List.mem_singleton]
  split_ifs with hnl
  · constructor
    · rintro ⟨⟩
      exact ⟨Or.inr rfl, hnl.symm⟩
    · rintro ⟨hk | rfl, hkn⟩
      · have := (h.rows n k).2 ⟨hk, hkn⟩
        rw [hnl, hf.node] at this
        cases this
      · rfl
  · rw [h.rows]
    constructor
    · rintro ⟨hk, hkn⟩
      exact ⟨Or.inl hk, hkn⟩
    · rintro ⟨hk | rfl, hkn⟩
      · exact ⟨hk, hkn⟩
      · exact absurd hkn.symm hnl

end Restored

namespace Assigner

variable {s s' : Assigner} {kept : List Lease} {b : Book} {now : SystemTime}

/-- One turn of the load loop on a readable row. -/
theorem restore_cases (h : Restored s kept b) (now : SystemTime) (l : Lease) :
    (isExpired l.lastSeen now s.ttl ∧ s.restore now l = .error .expired) ∨
    (isExpired l.lastSeen now s.ttl = false ∧ (∃ k ∈ kept, k.Conflicts l) ∧
      ∃ r, s.restore now l = .error r) ∨
    (isExpired l.lastSeen now s.ttl = false ∧ (¬ ∃ k ∈ kept, k.Conflicts l) ∧
      ∃ t b', s.restore now l = .ok t ∧ Restored t (kept ++ [l]) b' ∧ Frame s t) := by
  unfold restore
  cases he : isExpired l.lastSeen now s.ttl with
  | true => exact Or.inl ⟨rfl, rfl⟩
  | false =>
    right
    by_cases hf : b.Free l.nodeId l.ip4 l.ip6
    · right
      have hr := h.refines
      have h6 : (l.ip6.any fun ip6 => (s.byIp6.get ip6).isSome) = false := by
        cases h6 : l.ip6 with
        | none => rfl
        | some a => simp [hr.free_ip6 hf a h6]
      refine ⟨rfl, (h.free_iff l).1 hf, _, _, ?_, h.add hf, ⟨rfl, rfl⟩⟩
      simp [hr.free_node hf, hr.free_ip4 hf, h6]
    · left
      have hc := not_not.1 (mt (h.free_iff l).2 hf)
      refine ⟨rfl, hc, ?_⟩
      simp only [Bool.false_eq_true, if_false]
      split_ifs with h1 h2
      · exact ⟨_, rfl⟩
      · exact ⟨_, rfl⟩
      · -- both checks passed, so nothing conflicts after all
        exfalso
        obtain ⟨hn, h4⟩ := not_or.1 h1
        obtain ⟨k, hk, hkl⟩ := hc
        have hheld : s.byNode.get k.nodeId = some k := by
          rw [h.refines.held]
          exact (h.rows _ k).2 ⟨hk, rfl⟩
        rcases hkl with hkn | hk4 | ⟨hs, hk6⟩
        · rw [hkn] at hheld
          simp [hheld] at hn
        · have := (h.refines.ip4 l.ip4 k.nodeId).2 ⟨k, hheld, congrArg some hk4⟩
          simp [this] at h4
        · obtain ⟨a, ha⟩ := Option.isSome_iff_exists.1 hs
          have := (h.refines.ip6 a k.nodeId).2 ⟨k, hheld, hk6.trans ha⟩
          simp [ha, this] at h2

theorem loadRows_restored {rows : List PersistLease} {skipped : List SkipReason}
    (h : Restored s kept b) (hl : loadRows now s rows = .ok (s', skipped)) :
    ∃ b', Restored s' (keptRows s.ttl now kept rows) b' ∧ Frame s s' := by
  induction rows generalizing s kept b skipped with
  | nil =>
    cases hl
    exact ⟨b, h, Frame.refl _⟩
  | cons row rows ih =>
    unfold loadRows at hl
    obtain ⟨d, hd, hl⟩ := bind_eq_ok.1 hl
    -- a skipped row leaves the table to the rest of the loop
    have hskip : ∀ reason, (d >>= s.restore now) = .error reason →
        ∃ b', Restored s' (keptRows s.ttl now kept rows) b' ∧ Frame s s' := by
      intro reason hr
      rw [hr] at hl
      obtain ⟨r, hr, heq⟩ := bind_eq_ok.1 hl
      cases heq
      exact ih h hr
    cases d with
    | error reason =>
      simp only [keptRows, hd]
      exact hskip reason rfl
    | ok l =>
      simp only [keptRows, hd]
      rcases restore_cases h now l with ⟨he, hr⟩ | ⟨he, hc, r, hr⟩ | ⟨he, hc, t, b', hr, ht, hf⟩
      · rw [if_pos (Or.inl he)]
        exact hskip .expired hr
      · rw [if_pos (Or.inr hc)]
        exact hskip r hr
      · have hlt : loadRows now t rows = .ok (s', skipped) := by
          have hd' : ((Except.ok l : Except SkipReason Lease) >>= s.restore now) = .ok t := hr
          rw [hd'] at hl
          exact hl
        obtain ⟨b'', hb, hf'⟩ := ih ht hlt
        rw [if_neg (by rw [not_or]; exact ⟨by simp [he], hc⟩)]
        have httl : t.ttl = s.ttl := congrArg Policy.ttl hf.policy
        rw [httl] at hb
        exact ⟨b'', hb, hf.trans hf'⟩

theorem Restored.persistIf (h : Restored s kept b) (c : Bool) (io : Io) (now : SystemTime) :
    Restored (s.persistIf c io now).1 kept b :=
  ⟨persistIf_refines h.refines c io now, h.silent, h.rows⟩

theorem load_restored {io : Io} {disk : LeaseFile} {started : Started} (h : Restored s [] b)
    (hl : s.load now io disk = .ok started) :
    ∃ b', Restored started.assigner (disk.kept s.ttl now) b' ∧ Frame s started.assigner := by
  unfold load at hl
  cases disk with
  | notFound | unreadable | corrupt =>
    cases hl
    exact ⟨b, h, Frame.refl s⟩
  | parsed file =>
    simp only [LeaseFile.kept]
    dsimp only at hl
    split_ifs at hl with hv
    · cases hl
      rw [if_neg hv]
      exact ⟨b, h, Frame.refl s⟩
    · rw [if_pos (not_not.1 hv)]
      obtain ⟨r, hr, hl⟩ := bind_eq_ok.1 hl
      cases hl
      obtain ⟨b', hb, hf⟩ := loadRows_restored h hr
      exact ⟨b', Restored.persistIf hb _ io now, hf.trans (persistIf_frame _ _ io now)⟩

/-- Start-up holds exactly the kept rows of the lease file, and keeps its settings. -/
theorem new_restored {args : Args} {clock : SystemTime} {io : Io} {disk : LeaseFile}
    {started : Started} (h : new args clock now io disk = .ok started) :
    ∃ b, Restored started.assigner (args.kept disk now) b ∧
      Frame (empty args clock) started.assigner := by
  have hempty := Restored.empty args clock
  unfold new at h
  cases hp : args.persistPath with
  | none =>
    rw [hp] at h
    cases h
    refine ⟨Book.empty, ?_, Frame.refl _⟩
    simpa [Args.kept, hp] using hempty
  | some path =>
    rw [hp] at h
    simp only [Args.kept, hp]
    exact load_restored hempty h

theorem configured_restored {kept : List Lease} (h : Restored s kept b)
    (range : Option (BitVec 32 × BitVec 32)) : Restored (s.configured range) kept b := by
  cases range with
  | none => exact h
  | some r => exact ⟨setHostRange_refines h.refines r.1 r.2, h.silent, h.rows⟩

/-- Every call keeps the table a book. -/
theorem step_refines {P : Platform} {call : Call} {out : CallOut} (hr : Refines s b)
    (h : step P s call = .ok (s', out)) : ∃ b', Refines s' b' := by
  cases call with
  | setHostRange start end_ =>
    cases h
    exact ⟨b, setHostRange_refines hr start end_⟩
  | allocate req peer now io =>
    obtain ⟨_, b', hall⟩ := allocate_refines hr h
    exact ⟨b', hall.settled.refines⟩
  | reap now io =>
    cases h
    exact ⟨_, (reap_refines hr io now).1.refines⟩

theorem run_refines {P : Platform} {es : History} (h : Run (step P) s es s')
    (hr : ∃ b, Refines s b) : ∃ b, Refines s' b := by
  refine h.invariant (I := fun t => ∃ b, Refines t b) ?_ hr
  rintro t call out t' ⟨b, hb⟩ hstep
  exact step_refines hb hstep

theorem reachable_refines {P : Platform} (h : Reachable P s) : ∃ b, Refines s b := by
  obtain ⟨args, clock, now, io, disk, started, es, hnew, hrun⟩ := h
  obtain ⟨b, hb, -⟩ := new_restored hnew
  exact run_refines hrun ⟨b, hb.refines⟩

end Assigner

end ShadowVpn
