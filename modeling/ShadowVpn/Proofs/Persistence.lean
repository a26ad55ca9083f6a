import ShadowVpn.Proofs.Leases
import ShadowVpn.Sanity.Persist

/-! The lease file over a restart. What was written comes back, but for expired rows;
and after a crash the file still speaks for whatever was refreshed before its last
write. -/

namespace ShadowVpn

open Lib

namespace Assigner

variable {P : Platform} {s : Assigner}

/-- A table that loads a file written from `s` holds the rows of `s` that are unexpired
once floored to whole seconds, with nothing else changed, and binds no endpoint. -/
theorem persist_round_trip (h : Reachable P s)
    (hepoch : ∀ n l, s.byNode.get n = some l → SystemTime.UNIX_EPOCH.nanos ≤ l.lastSeen.nanos)
    (order : IterOrder NodeId Lease) {args : Args} (hpath : args.persistPath.isSome)
    (httl : args.ttl = s.ttl) (clock now : SystemTime) (io : Io) :
    ∃ started, new args clock now io (.parsed (s.writeLeases order)) = .ok started ∧
      (∀ n l', started.assigner.byNode.get n = some l' ↔
        ∃ l, s.byNode.get n = some l ∧ isExpired l.lastSeen.floorSecs now s.ttl = false ∧
          l' = { l with lastSeen := l.lastSeen.floorSecs }) ∧
      (∀ a n, started.assigner.byIp4.get a = some n ↔
        ∃ l, started.assigner.byNode.get n = some l ∧ l.ip4 = a) ∧
      (∀ a n, started.assigner.byIp6.get a = some n ↔
        ∃ l, started.assigner.byNode.get n = some l ∧ l.ip6 = some a) ∧
      (∀ p, started.assigner.byPeer.get p = none) ∧
      ∀ r ∈ started.skipped, r = .expired := by
  obtain ⟨b, hr⟩ := reachable_refines h
  obtain ⟨started, b', hnew, hr', hsilent, hrows, hskip⟩ := new_written hr order hpath clock now io
  refine ⟨started, hnew, fun n l' => ?_, fun a n => ?_, hr'.ip6, fun p => ?_, hskip⟩
  · rw [hr'.held, hrows]
    refine exists_congr fun l => ?_
    rw [← hr.held, httl]
    refine and_congr_right fun hl => ?_
    -- no row dates from before the epoch, so rereading only floors
    have hfloor : l.reread = { l with lastSeen := l.lastSeen.floorSecs } := by
      rw [Lease.reread, reread_of_epoch (hepoch n l hl)]
    rw [hfloor]
  · simpa using hr'.ip4 a n
  · rw [hr'.bound]
    exact hsilent p

theorem persist_round_trip_restart : ∃ s started, Reachable Sample.platform s ∧
    new Sample.args (Sample.time 10) (Sample.time 10) Sample.io
      (.parsed (s.writeLeases Sample.io.order)) = .ok started ∧
    started.assigner.byNode.get (Sample.node 1) = none ∧
    (started.assigner.byNode.get (Sample.node 2)).isSome := by
  have hrun : ∃ first es s k l,
      new Sample.args (Sample.time 1) (Sample.time 1) Sample.io .notFound = .ok first ∧
      exec (step Sample.platform) first.assigner
        [.allocate (Sample.req 1 10) (Sample.endpoint 1) (Sample.time 1) Sample.io,
          .allocate (Sample.req 2 20) (Sample.endpoint 2) (Sample.time 7) Sample.io] =
        .ok (es, s) ∧
      (s.byNode.entries.all fun e => SystemTime.UNIX_EPOCH.nanos ≤ e.2.lastSeen.nanos) ∧
      Sample.args.ttl = s.ttl ∧
      s.byNode.get (Sample.node 1) = some k ∧ s.byNode.get (Sample.node 2) = some l ∧
      isExpired k.lastSeen.floorSecs (Sample.time 10) s.ttl ∧
      isExpired l.lastSeen.floorSecs (Sample.time 10) s.ttl = false :=
    ⟨_, _, _, _, _, rfl, rfl, rfl, rfl, rfl, rfl, rfl, rfl⟩
  obtain ⟨first, es, s, k, l, hnew, hexec, hall, httl, hk, hl, hke, hle⟩ := hrun
  have hreach : Reachable Sample.platform s := ⟨_, _, _, _, _, first, es, hnew, exec_run hexec⟩
  have hepoch : ∀ n l, s.byNode.get n = some l →
      SystemTime.UNIX_EPOCH.nanos ≤ l.lastSeen.nanos := by
    intro n l hn
    have := List.all_eq_true.1 hall _ (HashMap.mem_entries.2 hn)
    simpa using this
  obtain ⟨started, hstart, hrows, -⟩ := persist_round_trip hreach hepoch Sample.io.order rfl httl
    (Sample.time 10) (Sample.time 10) Sample.io
  refine ⟨s, started, hreach, hstart, ?_, ?_⟩
  · rw [Option.eq_none_iff_forall_ne_some]
    intro l' hl'
    obtain ⟨m, hm, hme, -⟩ := (hrows _ l').1 hl'
    rw [hk] at hm
    cases hm
    rw [hke] at hme
    cases hme
  · rw [(hrows _ _).2 ⟨l, hl, hle, rfl⟩]
    rfl

/-! Crashes. -/

def Call.time : Call → Option SystemTime
  | .setHostRange _ _ => none
  | .allocate _ _ now _ => some now
  | .reap now _ => some now

def Call.writable : Call → Bool
  | .setHostRange _ _ => true
  | .allocate _ _ _ io => io.writeOk
  | .reap _ io => io.writeOk

def diskAfter (disk : LeaseFile) (es : History) : LeaseFile :=
  es.foldl (fun d e => (e.out.wrote.map LeaseFile.parsed).getD d) disk

def Forward (es : History) : Prop :=
  es.Pairwise fun e f => ∀ t u, e.input.time = some t → f.input.time = some u → t.nanos ≤ u.nanos

/-- What a crash loses. With leases of eight seconds, node 1 is bound at second 0, node 2
at second 7, which writes the file, and node 1 refreshes at second 8, too soon after that
write for another. At second 9 the file still says that node 1 was last seen at 0. -/
theorem refresh_lost : ∃ first es s l started,
    new Sample.args (Sample.time 0) (Sample.time 0) Sample.io .notFound = .ok first ∧
    exec (step Sample.platform) first.assigner
      [.allocate (Sample.req 1 10) (Sample.endpoint 1) (Sample.time 0) Sample.io,
        .allocate (Sample.req 2 20) (Sample.endpoint 2) (Sample.time 7) Sample.io,
        .allocate (Sample.req 1 10) (Sample.endpoint 1) (Sample.time 8) Sample.io] = .ok (es, s) ∧
    s.byNode.get (Sample.node 1) = some l ∧ l.lastSeen = Sample.time 8 ∧
    (Sample.time 9).nanos - l.lastSeen.nanos + NANOS_PER_SEC ≤ s.ttl - s.ttl / 4 ∧
    new Sample.args (Sample.time 9) (Sample.time 9) Sample.io (diskAfter first.disk es) =
      .ok started ∧
    started.assigner.byNode.get (Sample.node 1) = none :=
  ⟨_, _, _, _, _, rfl, rfl, rfl, rfl, by decide, rfl, rfl⟩

section Crash

variable {s' : Assigner} {b : Book} {n : NodeId} {r : SystemTime} {call : Call} {out : CallOut}
  {disk : LeaseFile}

def SeenSince (s : Assigner) (n : NodeId) (r : SystemTime) : Prop :=
  ∀ l, s.byNode.get n = some l → r.nanos ≤ l.lastSeen.nanos

/-- The file was written from a table that gave `n` the address it has in `s`, and had
seen `n` at `r` or later. -/
def Backed (s : Assigner) (disk : LeaseFile) (n : NodeId) (r : SystemTime) : Prop :=
  ∃ w b order, Refines w b ∧ disk = .parsed (w.writeLeases order) ∧ ∀ l, s.byNode.get n = some l →
    ∃ k, b.held n = some k ∧ k.ip4 = l.ip4 ∧ r.nanos ≤ k.lastSeen.nanos

theorem step_settled (hr : Refines s b) (hs : step P s call = .ok (s', out)) :
    (∃ start end_, call = .setHostRange start end_ ∧ s' = s.setHostRange start end_ ∧
      out.wrote = none) ∨
    ∃ b' io now, call.time = some now ∧ call.writable = io.writeOk ∧
      Settled s b b' io now s' out.wrote ∧
      ∀ m l, b'.held m = some l → b.held m = some l ∨ l.lastSeen = now := by
  cases call with
  | setHostRange start end_ =>
    cases hs
    exact Or.inl ⟨start, end_, rfl, rfl, rfl⟩
  | allocate req peer now io =>
    obtain ⟨reply, b', hset, -, -, hall⟩ := allocate_refines hr hs
    refine Or.inr ⟨b', io, now, rfl, rfl, hset, fun m l hl => ?_⟩
    by_cases hm : m = req.nodeId
    · subst hm
      by_cases hok : reply.status = .ok
      · obtain ⟨k, hk, hseen, -⟩ := hall.granted hok
        rw [hl] at hk
        cases hk
        exact Or.inr hseen
      · rw [(hall.refused hok).1] at hl
        cases hl
    · exact Or.inl (hall.others hm hl).1
  | reap now io =>
    cases hs
    refine Or.inr ⟨_, io, now, rfl, rfl, (reap_refines hr io now).1, fun m l hl => ?_⟩
    exact Or.inl (Book.expire_held_some.1 hl).1

theorem step_seenSince (hr : Refines s b) (hs : step P s call = .ok (s', out))
    (htime : ∀ t, call.time = some t → r.nanos ≤ t.nanos) (h : SeenSince s n r) :
    SeenSince s' n r := by
  intro l hl
  rcases step_settled hr hs with ⟨start, end_, -, rfl, -⟩ | ⟨b', io, now, ht, -, hset, hrow⟩
  · exact h l hl
  · rw [hset.refines.held] at hl
    rcases hrow n l hl with hb | hseen
    · exact h l (by rw [hr.held]; exact hb)
    · rw [hseen]
      exact htime now ht

/-- A write backs what the table says now; without one, the table has only been stamped. -/
theorem step_backed (hr : Refines s b) (hs : step P s call = .ok (s', out))
    (hpath : s.persistPath.isSome) (hio : call.writable) (hseen : SeenSince s' n r)
    (h : out.wrote.isSome ∨ Backed s disk n r) :
    Backed s' ((out.wrote.map LeaseFile.parsed).getD disk) n r := by
  rcases step_settled hr hs with ⟨start, end_, -, rfl, hw⟩ | ⟨b', io, now, -, hw, hset, -⟩
  · rw [hw] at h ⊢
    rcases h with h | h
    · cases h
    · exact h
  · rcases hset.writes hpath (hw ▸ hio) with hwrote | ⟨hnone, hstamp⟩
    · rw [hwrote]
      refine ⟨s', b', io.order, hset.refines, rfl, fun l hl => ⟨l, ?_, rfl, hseen l hl⟩⟩
      rw [← hset.refines.held]
      exact hl
    · rw [hnone] at h ⊢
      rcases h with h | ⟨w, bw, order, hrw, hdisk, hrows⟩
      · cases h
      · refine ⟨w, bw, order, hrw, hdisk, fun l hl => ?_⟩
        rw [hset.refines.held] at hl
        obtain ⟨k, hk, heq⟩ := hstamp n l hl
        obtain ⟨k₀, hk₀, hip, hseen₀⟩ := hrows k (by rw [hr.held]; exact hk)
        exact ⟨k₀, hk₀, by rw [hip, heq], hseen₀⟩

theorem step_path (hr : Refines s b) (hs : step P s call = .ok (s', out)) :
    s'.persistPath = s.persistPath := by
  rcases step_settled hr hs with ⟨start, end_, -, rfl, -⟩ | ⟨b', io, now, -, -, hset, -⟩
  · rfl
  · exact hset.frame.path

theorem run_path {es : History} {t : Assigner} (hrun : Run (step P) s es t)
    (hr : ∃ b, Refines s b) : t.persistPath = s.persistPath := by
  induction hrun with
  | nil => rfl
  | snoc hrun hs ih =>
    obtain ⟨b, hb⟩ := run_refines hrun hr
    exact (step_path hb hs).trans ih

theorem diskAfter_snoc (es : History) (e : Entry Assigner Call CallOut) :
    diskAfter disk (es ++ [e]) = (e.out.wrote.map LeaseFile.parsed).getD (diskAfter disk es) := by
  simp [diskAfter]

theorem run_backed (disk : LeaseFile) {es : History} {t : Assigner} (hrun : Run (step P) s es t)
    (hr : ∃ b, Refines s b) (hpath : s.persistPath.isSome) (hio : ∀ e ∈ es, e.input.writable)
    (htime : ∀ e ∈ es, ∀ u, e.input.time = some u → r.nanos ≤ u.nanos) (hseen : SeenSince s n r) :
    ((∃ b, Refines t b) ∧ t.persistPath.isSome ∧ SeenSince t n r) ∧
      ((∃ e ∈ es, e.out.wrote.isSome) ∨ Backed s disk n r → Backed t (diskAfter disk es) n r) := by
  induction hrun with
  | nil =>
    refine ⟨⟨hr, hpath, hseen⟩, ?_⟩
    rintro (⟨e, he, -⟩ | h)
    · cases he
    · exact h
  | @snoc es u v call out hrun hs ih =>
    obtain ⟨⟨⟨b, hb⟩, hp, hsn⟩, hback⟩ := ih (fun e he => hio e (List.mem_append_left _ he))
      fun e he => htime e (List.mem_append_left _ he)
    have hlast : (⟨u, call, out, v⟩ : Entry Assigner Call CallOut) ∈ es ++ [⟨u, call, out, v⟩] :=
      List.mem_append_right _ (List.mem_singleton_self _)
    have hsn' := step_seenSince hb hs (htime _ hlast) hsn
    refine ⟨⟨step_refines hb hs, by rw [step_path hb hs]; exact hp, hsn'⟩, fun hw => ?_⟩
    rw [diskAfter_snoc]
    refine step_backed hb hs hp (hio _ hlast) hsn' ?_
    -- the write is this one, or an earlier one
    rcases hw with ⟨e, he, hwrote⟩ | h
    · rcases List.mem_append.1 he with he | he
      · exact Or.inr (hback (Or.inl ⟨e, he, hwrote⟩))
      · rw [List.mem_singleton.1 he] at hwrote
        exact Or.inl hwrote
    · exact Or.inr (hback (Or.inr h))

/-- The file may lose a second of the time at which a lease was seen. -/
theorem live_of_recent {t seen : SystemTime} {ttl : Duration}
    (h : t.nanos - seen.nanos + NANOS_PER_SEC ≤ ttl) : isExpired seen.reread t ttl = false := by
  have hlost : seen.nanos < seen.reread.nanos + NANOS_PER_SEC := lt_reread seen
  unfold isExpired SystemTime.durationSince
  split_ifs with hle
  · rw [decide_eq_false_iff_not, not_lt, Int.toNat_le]
    omega
  · rfl

theorem backed_loads {l : Lease} (h : Backed s disk n r) (hl : s.byNode.get n = some l)
    {args : Args} (hpath : args.persistPath.isSome) (clock : SystemTime) {t : SystemTime} (io : Io)
    (hrecent : t.nanos - r.nanos + NANOS_PER_SEC ≤ args.ttl) :
    ∃ started, new args clock t io disk = .ok started ∧
      ∃ l', started.assigner.byNode.get n = some l' ∧ l'.ip4 = l.ip4 := by
  obtain ⟨w, b, order, hr, rfl, hrows⟩ := h
  obtain ⟨k, hk, hip, hseen⟩ := hrows l hl
  obtain ⟨started, b', hnew, hr', -, hrows', -⟩ := new_written hr order hpath clock t io
  have hlive : isExpired k.reread.lastSeen t args.ttl = false := live_of_recent (by omega)
  refine ⟨started, hnew, k.reread, ?_, hip⟩
  rw [hr'.held, hrows']
  exact ⟨k, hk, hlive, rfl⟩

theorem granted_seenSince {reply : Assign} (hr : Refines s b)
    (hs : step P s call = .ok (s', out)) (hg : Granted ⟨s, call, out, s'⟩ n reply)
    (ht : call.time = some r) : SeenSince s' n r := by
  obtain ⟨⟨req, peer, now, io, rfl, rfl⟩, hreply, hok⟩ := hg
  obtain ⟨reply', b', hset, hreply', -, hall⟩ := allocate_refines hr hs
  obtain rfl : reply = reply' := Option.some.inj (hreply.symm.trans hreply')
  obtain ⟨k, hk, hseen, -⟩ := hall.granted hok
  obtain rfl : now = r := Option.some.inj ht
  intro l hl
  rw [hset.refines.held, hk] at hl
  cases hl
  rw [hseen]

end Crash

/-- Suppose an allocation `e` for `n` was granted at `r`, at that call or later the file
was written, and `n` holds a lease when the process dies. Then a table that loads the
file less than the ttl, minus one second, after `r` holds a lease of `n` with the same
address. -/
theorem crash_keeps_written_refresh (h : Reachable P s) (hpath : s.persistPath.isSome)
    {es : History} {t : Assigner} (hrun : Run (step P) s es t)
    (hio : ∀ e ∈ es, e.input.writable) (hforward : Forward es) {pre post : History}
    {e : Entry Assigner Call CallOut} (hes : es = pre ++ e :: post) {n : NodeId} {reply : Assign}
    (he : Granted e n reply) {r : SystemTime} (hr : e.input.time = some r)
    (hw : ∃ w ∈ e :: post, w.out.wrote.isSome) {l : Lease} (hl : t.byNode.get n = some l)
    (disk : LeaseFile) {args : Args} (hargs : args.persistPath.isSome) (httl : args.ttl = s.ttl)
    (clock : SystemTime) {crash : SystemTime} (io : Io)
    (hrecent : crash.nanos - r.nanos + NANOS_PER_SEC ≤ s.ttl) :
    ∃ started, new args clock crash io (diskAfter disk es) = .ok started ∧
      ∃ l', started.assigner.byNode.get n = some l' ∧ l'.ip4 = l.ip4 := by
  subst hes
  obtain ⟨u, h1, h2⟩ := hrun.split
  obtain ⟨rfl, hs, h3⟩ := h2.cons_inv
  obtain ⟨b, hb⟩ := run_refines h1 (reachable_refines h)
  have hp : e.pre.persistPath.isSome := by
    rw [run_path h1 (reachable_refines h)]
    exact hpath
  have hseen := granted_seenSince hb hs he hr
  have hlater : ∀ f ∈ post, ∀ u, f.input.time = some u → r.nanos ≤ u.nanos := by
    have hpair := (List.pairwise_cons.1 (List.pairwise_append.1 hforward).2.1).1
    exact fun f hf u hu => hpair f hf r u hr hu
  have hdisk : diskAfter disk (pre ++ e :: post) = diskAfter (diskAfter disk (pre ++ [e])) post := by
    simp [diskAfter]
  have hback := (run_backed (diskAfter disk (pre ++ [e])) h3 (step_refines hb hs)
    (by rw [step_path hb hs]; exact hp) (fun f hf => hio f (by simp [hf])) hlater hseen).2
  rw [hdisk]
  refine backed_loads (hback ?_) hl hargs clock io (httl ▸ hrecent)
  obtain ⟨w, hmem, hwrote⟩ := hw
  rcases List.mem_cons.1 hmem with rfl | hmem
  · right
    rw [diskAfter_snoc]
    exact step_backed hb hs hp (hio w (by simp)) hseen (Or.inl hwrote)
  · exact Or.inl ⟨w, hmem, hwrote⟩

/-- Node 1 is bound at second 0 and refreshed at second 1, which is not written; node 2's
request at second 2 writes the file, and at second 8 node 1's lease is still loaded. -/
theorem crash_keeps_later_written : ∃ (s t : Assigner) (es : History) (l : Lease)
    (started : Started), Reachable Sample.platform s ∧ Run (step Sample.platform) s es t ∧
    t.byNode.get (Sample.node 1) = some l ∧
    new Sample.args (Sample.time 8) (Sample.time 8) Sample.io (diskAfter .notFound es) =
      .ok started ∧
    ∃ l', started.assigner.byNode.get (Sample.node 1) = some l' ∧ l'.ip4 = l.ip4 := by
  have hrun : ∃ first e₀ e₁ e₂ t reply l,
      new Sample.args (Sample.time 0) (Sample.time 0) Sample.io .notFound = .ok first ∧
      exec (step Sample.platform) first.assigner
        [.allocate (Sample.req 1 10) (Sample.endpoint 1) (Sample.time 0) Sample.io,
          .allocate (Sample.req 1 10) (Sample.endpoint 1) (Sample.time 1) Sample.io,
          .allocate (Sample.req 2 20) (Sample.endpoint 2) (Sample.time 2) Sample.io] =
        .ok ([e₀, e₁, e₂], t) ∧
      first.assigner.persistPath.isSome ∧ first.assigner.ttl = Sample.args.ttl ∧
      [e₀, e₁, e₂].map (fun e => e.input.time) =
        [some (Sample.time 0), some (Sample.time 1), some (Sample.time 2)] ∧
      ([e₀, e₁, e₂].all fun e => e.input.writable) ∧ Granted e₁ (Sample.node 1) reply ∧
      e₂.out.wrote.isSome ∧ t.byNode.get (Sample.node 1) = some l :=
    ⟨_, _, _, _, _, _, _, rfl, rfl, rfl, rfl, rfl, rfl, ⟨⟨_, _, _, _, rfl, rfl⟩, rfl, rfl⟩, rfl, rfl⟩
  obtain ⟨first, e₀, e₁, e₂, t, reply, l, hnew, hexec, hpath, httl, htimes, hio, hg, hw, hl⟩ := hrun
  obtain ⟨ht₀, ht₁, ht₂⟩ : e₀.input.time = some (Sample.time 0) ∧
      e₁.input.time = some (Sample.time 1) ∧ e₂.input.time = some (Sample.time 2) := by
    simpa using htimes
  have hreach : Reachable Sample.platform first.assigner :=
    ⟨_, _, _, _, _, first, [], hnew, Run.nil⟩
  have hforward : Forward [e₀, e₁, e₂] := by
    simp only [Forward, List.pairwise_cons, List.mem_cons, List.not_mem_nil, or_false,
      forall_eq_or_imp, forall_eq, ht₀, ht₁, ht₂, Option.some.injEq]
    have h01 : (Sample.time 0).nanos ≤ (Sample.time 1).nanos := by decide
    have h02 : (Sample.time 0).nanos ≤ (Sample.time 2).nanos := by decide
    have h12 : (Sample.time 1).nanos ≤ (Sample.time 2).nanos := by decide
    refine ⟨⟨?_, ?_⟩, ?_, ?_⟩
    · rintro _ _ rfl rfl
      exact h01
    · rintro _ _ rfl rfl
      exact h02
    · rintro _ _ rfl rfl
      exact h12
    · exact ⟨fun _ h => h.elim, List.Pairwise.nil⟩
  have hes : [e₀, e₁, e₂] = [e₀] ++ e₁ :: [e₂] := rfl
  have hrecent : (Sample.time 8).nanos - (Sample.time 1).nanos + NANOS_PER_SEC ≤
      first.assigner.ttl := by
    rw [httl]
    decide
  obtain ⟨started, hstart, hkeep⟩ := crash_keeps_written_refresh hreach hpath (exec_run hexec)
    (by simpa using hio) hforward hes hg ht₁ ⟨e₂, by simp, hw⟩ hl .notFound rfl httl.symm
    (Sample.time 8) Sample.io hrecent
  exact ⟨_, t, _, l, started, hreach, exec_run hexec, hl, hstart, hkeep⟩

end Assigner

end ShadowVpn
