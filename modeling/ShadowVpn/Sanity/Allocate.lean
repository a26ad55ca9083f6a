import ShadowVpn.Sanity.Refine

/-! `allocate` and `reap` against the book. Both change the table first and write the
lease file last, if at all; a call that is not due to write has changed no more than
time stamps. -/

namespace ShadowVpn

open Lib

/-- `b'` has no rows that `b` lacks, up to their time stamps. -/
def Book.Stamped (b b' : Book) : Prop :=
  ∀ n l', b'.held n = some l' → ∃ l, b.held n = some l ∧ l' = { l with lastSeen := l'.lastSeen }

theorem Book.Stamped.expire {b : Book} {ttl : Duration} {now : SystemTime} :
    b.Stamped (b.expire ttl now) :=
  fun _ l' h => ⟨l', (expire_held_some.1 h).1, rfl⟩

theorem Book.Stamped.expire_touch {b : Book} {ttl : Duration} {now : SystemTime}
    {peer : SocketAddr} {n : NodeId} {l : Lease} (hl : (b.expire ttl now).held n = some l)
    (hp : l.lastPeer = some peer) : b.Stamped ((b.expire ttl now).touch hl peer now) := by
  intro m l' h
  simp only [touch] at h
  split_ifs at h with hm
  · cases h
    exact ⟨l, hm ▸ (expire_held_some.1 hl).1, by simp [← hp]⟩
  · exact Stamped.expire m l' h

/-- The call brought the table to `b'` and then came to its write, which it skips only
when `b'` is `b` with new stamps. -/
structure Settled (s : Assigner) (b b' : Book) (io : Io) (now : SystemTime) (s' : Assigner)
    (wrote : Option PersistFile) : Prop where
  last : ∃ t c, Refines t b' ∧ Frame s t ∧ (s', wrote) = t.persistIf c io now ∧
    (c = false → b.Stamped b')

namespace Settled

variable {s s' : Assigner} {b b' : Book} {io : Io} {now : SystemTime}
  {wrote : Option PersistFile}

theorem refines (h : Settled s b b' io now s' wrote) : Refines s' b' := by
  obtain ⟨t, c, hr, -, heq, -⟩ := h.last
  rw [show s' = (t.persistIf c io now).1 from congrArg Prod.fst heq]
  exact Assigner.persistIf_refines hr c io now

theorem frame (h : Settled s b b' io now s' wrote) : Frame s s' := by
  obtain ⟨t, c, -, hf, heq, -⟩ := h.last
  rw [show s' = (t.persistIf c io now).1 from congrArg Prod.fst heq]
  exact hf.trans (Assigner.persistIf_frame t c io now)

/-- What is written is the table as it is after the call. -/
theorem wrote_eq (h : Settled s b b' io now s' wrote) {file : PersistFile}
    (hw : wrote = some file) : file = s'.writeLeases io.order := by
  obtain ⟨t, c, -, -, heq, -⟩ := h.last
  subst hw
  cases c with
  | false => cases heq
  | true =>
    rw [Assigner.persistIf, if_pos rfl, Assigner.persist] at heq
    split at heq
    · cases heq
    · split at heq
      · cases heq
        rfl
      · cases heq

/-- With a lease path and a disk that takes writes, the file is written from the table
as it is after the call, or the table has only been stamped. -/
theorem writes (h : Settled s b b' io now s' wrote) (hpath : s.persistPath.isSome)
    (hio : io.writeOk) :
    wrote = some (s'.writeLeases io.order) ∨ (wrote = none ∧ b.Stamped b') := by
  obtain ⟨t, c, -, hf, heq, hq⟩ := h.last
  cases c with
  | false =>
    cases heq
    exact Or.inr ⟨rfl, hq rfl⟩
  | true =>
    left
    obtain ⟨path, hp⟩ := Option.isSome_iff_exists.1 hpath
    have hpt : t.persistPath = some path := hf.path.trans hp
    have hw : t.persistIf true io now =
        ({ t with lastPersist := now }, some (t.writeLeases io.order)) := by
      simp [Assigner.persistIf, Assigner.persist, hpt, hio]
    rw [hw] at heq
    cases heq
    rfl

end Settled

/-- An endpoint that a node was not last heard from is not bound to it. -/
theorem Book.filter_bound {b : Book} {n : NodeId} {l : Lease} {q : SocketAddr}
    (hl : b.held n = some l) (hq : l.lastPeer = some q → b.bound q ≠ some n) :
    ((b.bound q).filter fun m => m ≠ n) = b.bound q := by
  cases hb : b.bound q with
  | none => rfl
  | some m =>
    have hne : m ≠ n := by
      rintro rfl
      obtain ⟨k, hk, hlast⟩ := b.peer q m hb
      cases hl.symm.trans hk
      exact hq hlast hb
    simp [hne, Option.filter_some]

namespace Assigner

variable {s s' : Assigner} {b : Book} {io : Io} {req : AssignReq} {peer : SocketAddr}
  {now : SystemTime}

/-! The parts of `allocate`. -/

theorem refreshExisting_refines (hr : Refines s b) {reply : Assign} {dirty dirty' : Bool}
    (h : s.refreshExisting req peer now dirty = some (s', reply, dirty')) :
    ∃ (l : Lease) (hl : b.held req.nodeId = some l), Refines s' (b.touch hl peer now) ∧
      s.policy.Grants reply l.ip4 l.ip6 ∧ Frame s s' ∧
        (dirty' = false → dirty = false ∧ l.lastPeer = some peer) := by
  unfold refreshExisting at h
  cases hl : s.byNode.get req.nodeId with
  | none => simp [hl] at h
  | some l =>
    have hlb : b.held req.nodeId = some l := by rw [← hr.held]; exact hl
    have hstamp := fun (l' : Lease) (h4 : some l'.ip4 = some l.ip4) (h6 : l'.ip6 = l.ip6) =>
      And.intro (hr.ip4.replace hl h4) (hr.ip6.replace hl h6)
    refine ⟨l, hlb, ?_⟩
    rw [hl] at h
    dsimp only at h
    split_ifs at h with he hp
    · -- a new endpoint: the old one is unbound while it still speaks for this node
      obtain ⟨rfl, rfl, rfl⟩ : _ ∧ _ ∧ _ := by simpa using h
      obtain ⟨h4, h6⟩ := hstamp { l with lastSeen := now, lastPeer := some peer } rfl rfl
      refine ⟨⟨?_, ?_, h4, h6⟩, okReply_grants (Frame.refl s) _ _, ⟨rfl, rfl⟩, by simp⟩
      · funext m
        simp only [HashMap.get_insert, Book.touch, hr.held]
      · funext q
        simp only [HashMap.get_insert, HashMap.get_eraseBinding, Book.touch, hr.bound]
        split_ifs with hq hc
        · rfl
        · simp [hc.2, Option.filter_some]
        · exact (Book.filter_bound hlb fun hlast hb => hc ⟨hlast, hb⟩).symm
    · obtain ⟨rfl, rfl, rfl⟩ : _ ∧ _ ∧ _ := by simpa using h
      have hlp : l.lastPeer = some peer := not_not.1 hp
      obtain ⟨h4, h6⟩ := hstamp { l with lastSeen := now } rfl rfl
      refine ⟨⟨?_, ?_, h4, h6⟩, okReply_grants (Frame.refl s) _ _, ⟨rfl, rfl⟩, fun hd => ⟨hd, hlp⟩⟩
      · funext m
        simp only [HashMap.get_insert, Book.touch, hr.held, hlp]
      · funext q
        simp only [HashMap.get_insert, Book.touch, hr.bound]
        split_ifs with hq
        · rfl
        · refine (Book.filter_bound hlb fun hlast _ => hq ?_).symm
          exact Option.some.inj (hlast.symm.trans hlp)

/-- Nothing is refreshed only when nothing unexpired is held. -/
theorem refreshExisting_eq_none (hr : Refines s b) {dirty : Bool}
    (h : s.refreshExisting req peer now dirty = none) {l : Lease}
    (hl : b.held req.nodeId = some l) : isExpired l.lastSeen now s.ttl := by
  have hget : s.byNode.get req.nodeId = some l := by rw [hr.held]; exact hl
  unfold refreshExisting at h
  rw [hget] at h
  dsimp only at h
  split_ifs at h with he
  exact he

theorem unbindOther_refines (hr : Refines s b) {n : NodeId} (hn : b.held n = none)
    (peer : SocketAddr) : Refines (s.unbindOther peer n) (b.unbind peer) := by
  have hbound : b.bound peer ≠ some n := by
    intro hb
    obtain ⟨l, hl, -⟩ := b.peer peer n hb
    rw [hn] at hl
    cases hl
  unfold unbindOther
  cases hp : s.byPeer.get peer with
  | none =>
    refine ⟨hr.held, ?_, hr.ip4, hr.ip6⟩
    funext q
    by_cases hq : q = peer
    · simp [Book.unbind, hq, hp]
    · simp [Book.unbind, hq, hr.bound]
  | some other =>
    have hne : other ≠ n := by
      rintro rfl
      exact hbound (by rw [← hr.bound]; exact hp)
    simp only [hne, ne_eq, not_false_eq_true, if_true]
    refine ⟨hr.held, ?_, hr.ip4, hr.ip6⟩
    funext q
    simp [Book.unbind, hr.bound]

theorem unbindOther_frame (s : Assigner) (peer : SocketAddr) (n : NodeId) :
    Frame s (s.unbindOther peer n) := by
  unfold unbindOther
  split
  · split_ifs
    · exact ⟨rfl, rfl⟩
    · exact Frame.refl s
  · exact Frame.refl s

/-- For free addresses the drop inside `bind_new` finds nothing. -/
theorem bindNew_refines {P : Platform} (hr : Refines s b) {n : NodeId} {ip4 : Ipv4Addr}
    {ip6 : Option Ipv6Addr} (hf : b.Free n ip4 ip6) {dropped : List Lease} {out : CallOut}
    (h : s.bindNew P io n peer ip4 ip6 now dropped = .ok (s', out)) :
    ∃ t reply, Refines t (b.bind hf peer now) ∧ Frame s t ∧
      (s', out.wrote) = t.persistIf true io now ∧ out.reply = some reply ∧
        s.policy.Grants reply ip4 ip6 ∧ out.dropped = dropped ∧ out.discarded = none := by
  have hdrop : s.dropLease n = (s, none) := by simp [dropLease, hr.free_node hf]
  unfold bindNew at h
  rw [hdrop] at h
  obtain ⟨_, -, h⟩ := bind_eq_ok.1 h
  obtain ⟨rfl, rfl⟩ : _ ∧ _ := by simpa using h
  refine ⟨_, _, ?_, ?_, rfl, rfl, ?_, rfl, rfl⟩
  · have hadd := hr.add (l := ⟨n, ip4, ip6, now, some peer⟩) hf
    refine ⟨hadd.held, ?_, hadd.ip4, hadd.ip6⟩
    funext q
    simp only [HashMap.get_insert, Book.bind, hr.bound]
  · exact ⟨rfl, rfl⟩
  · refine okReply_grants (Frame.trans ?_ (persist_frame _ io now)) ip4 ip6
    exact ⟨rfl, rfl⟩

/-! `allocate` and `reap`. -/

/-- One allocation as the book sees it. -/
structure Allocated (s : Assigner) (b : Book) (io : Io) (req : AssignReq) (peer : SocketAddr)
    (now : SystemTime) (s' : Assigner) (out : CallOut) (reply : Assign) (b' : Book) : Prop where
  settled : Settled s b b' io now s' out.wrote
  replied : out.reply = some reply
  discarded : out.discarded = none
  allocates : b.Allocates s.policy req peer now reply out.dropped b'

/-- The selection finds a usable address whenever there is one. -/
theorem pickAddrs_refines {P : Platform} (hr : Refines s b) {n : NodeId} {hint : Ipv4Addr}
    {want : Bool} {r : Option (Ipv4Addr × Option Ipv6Addr)}
    (h : s.pickAddrs P n hint want = .ok r) :
    (∃ ip, r = some (ip, s.policy.derive want ip) ∧ b.Usable s.policy n want ip) ∨
      (r = none ∧ ∀ ip, ¬ b.Usable s.policy n want ip) := by
  rcases pickAddrs_cases h with ⟨pair, ip, rfl, hp⟩ | ⟨rfl, hno⟩
  · obtain ⟨hu, rfl⟩ := tryIp4_iff.1 hp
    exact Or.inl ⟨ip, rfl, (usable_iff hr).1 hu⟩
  · exact Or.inr ⟨rfl, fun ip hu => tryIp4_eq_none_iff.1 (hno ip) ((usable_iff hr).2 hu)⟩

/-- The steps of `allocate` after the expired rows have left and the requester turned
out to hold nothing. -/
theorem allocateNew_refines {P : Platform} {dropped : List Lease} {out : CallOut}
    (hr : Refines s (b.expire s.ttl now)) (hgone : b.Expired s.ttl now dropped)
    (hn : (b.expire s.ttl now).held req.nodeId = none)
    (h : s.allocateNew P io req peer now dropped = .ok (s', out)) :
    ∃ reply b', Allocated s b io req peer now s' out reply b' := by
  have hr1 := unbindOther_refines hr hn peer
  have hf1 := unbindOther_frame s peer req.nodeId
  unfold allocateNew at h
  obtain ⟨pick, hpick, h⟩ := bind_eq_ok.1 h
  rcases pickAddrs_refines hr1 hpick with ⟨ip, rfl, hu⟩ | ⟨rfl, hfull⟩
  · rw [hf1.policy] at hu h
    obtain ⟨t, reply, hrt, hft, hw, hreply, hg, hd, hdis⟩ := bindNew_refines hr1 (hu.free hn) h
    have hu' : (b.expire s.ttl now).Usable s.policy req.nodeId req.wantIp6 ip :=
      (Book.Usable.congr (by rfl)).1 hu
    have heq := Book.unbind_bind (hu.free hn) (hu'.free hn) now
    rw [hf1.policy] at hg
    refine ⟨reply, _, ⟨t, true, heq ▸ hrt, hf1.trans hft, hw, by simp⟩, hreply, hdis, ?_⟩
    rw [hd]
    exact .fresh hgone hu' (hu'.free hn) hg
  rw [hf1.policy] at hfull
  have hfull' : ∀ ip, ¬ (b.expire s.ttl now).Usable s.policy req.nodeId req.wantIp6 ip :=
    fun ip hu => hfull ip ((Book.Usable.congr (by rfl)).1 hu)
  have hf2 := hf1.trans (reclaimOldest_frame (s.unbindOther peer req.nodeId) io.order)
  dsimp only at h
  rcases reclaimOldest_refines hr1 io.order with ⟨hnone, hempty⟩ | ⟨v, hv, hold, hr2⟩
  · rw [hnone] at h
    obtain ⟨rfl, rfl⟩ : _ ∧ _ := by simpa using h
    refine ⟨_, _, ⟨_, _, hr1, hf1, rfl, fun _ => Book.Stamped.expire⟩, rfl, rfl, ?_⟩
    exact .exhausted hgone hfull' hempty
  rw [hv] at h
  have hold' : (b.expire s.ttl now).Oldest v := hold
  obtain ⟨pick, hpick, h⟩ := bind_eq_ok.1 h
  rcases pickAddrs_refines hr2 hpick with ⟨ip, rfl, hu⟩ | ⟨rfl, hstill⟩
  · have hn2 : (((b.expire s.ttl now).unbind peer).evict v).held req.nodeId = none := by
      rw [Book.evict_held]
      split_ifs
      · rfl
      · exact hn
    rw [hf2.policy] at hu h
    obtain ⟨t, reply, hrt, hft, hw, hreply, hg, hd, hdis⟩ := bindNew_refines hr2 (hu.free hn2) h
    have hu' : ((b.expire s.ttl now).evict v).Usable s.policy req.nodeId req.wantIp6 ip :=
      (Book.Usable.congr (by rfl)).1 hu
    have heq : Refines t (((b.expire s.ttl now).evict v).bind (hu'.free hn2) peer now) := by
      rw [← Book.unbind_bind (b := (b.expire s.ttl now).evict v)]
      simpa only [Book.unbind_evict] using hrt
    rw [hf2.policy] at hg
    refine ⟨reply, _, ⟨t, true, heq, hf2.trans hft, hw, by simp⟩, hreply, hdis, ?_⟩
    rw [hd]
    exact .reclaim hgone hn hfull' hold' hu' (hu'.free hn2) hg
  · obtain ⟨rfl, rfl⟩ : _ ∧ _ := by simpa using h
    rw [hf2.policy] at hstill
    refine ⟨_, _, ⟨_, true, hr2, hf2, rfl, by simp⟩, rfl, rfl, ?_⟩
    exact .wasted hgone hn hfull' hold' fun ip hu => hstill ip ((Book.Usable.congr (by rfl)).1 hu)

theorem allocate_refines {P : Platform} {out : CallOut} (hr : Refines s b)
    (h : s.allocate P io req peer now = .ok (s', out)) :
    ∃ reply b', Allocated s b io req peer now s' out reply b' := by
  obtain ⟨hr1, hgone⟩ := reapInner_refines hr io.order now
  have hf1 := reapInner_frame s io.order now
  have httl : (s.reapInner io.order now).1.ttl = s.ttl := congrArg Policy.ttl hf1.policy
  unfold allocate at h
  cases href : (s.reapInner io.order now).1.refreshExisting req peer now
      (!(s.reapInner io.order now).2.isEmpty) with
  | some r =>
    obtain ⟨t, reply, dirty⟩ := r
    obtain ⟨l, hl, hrt, hg, hft, hdirty⟩ := refreshExisting_refines hr1 href
    simp only [href] at h
    obtain ⟨rfl, rfl⟩ : _ ∧ _ := by simpa using h
    rw [hf1.policy] at hg
    refine ⟨reply, _, ⟨t, _, hrt, hf1.trans hft, rfl, fun hc => ?_⟩, rfl, rfl,
      .refresh hgone hl hg⟩
    obtain ⟨-, hlp⟩ := hdirty (Bool.or_eq_false_iff.1 hc).1
    exact Book.Stamped.expire_touch hl hlp
  | none =>
    simp only [href] at h
    have hn : (b.expire s.ttl now).held req.nodeId = none := by
      rw [Option.eq_none_iff_forall_ne_some]
      intro l hl
      have he := refreshExisting_eq_none hr1 href hl
      rw [httl, (Book.expire_held_some.1 hl).2] at he
      cases he
    rw [← httl] at hr1 hgone hn
    obtain ⟨reply, b', hset, hreply, hdis, hall⟩ := allocateNew_refines hr1 hgone hn h
    obtain ⟨t, c, hrt, hft, hw, hq⟩ := hset.last
    exact ⟨reply, b', ⟨t, c, hrt, hf1.trans hft, hw, hq⟩, hreply, hdis, hf1.policy ▸ hall⟩

theorem reap_refines (hr : Refines s b) (io : Io) (now : SystemTime) :
    Settled s b (b.expire s.ttl now) io now (s.reap io now).1 (s.reap io now).2.wrote ∧
      b.Expired s.ttl now (s.reap io now).2.dropped := by
  obtain ⟨hr1, hgone⟩ := reapInner_refines hr io.order now
  refine ⟨⟨_, _, hr1, reapInner_frame s io.order now, rfl, fun _ => ?_⟩, hgone⟩
  exact Book.Stamped.expire

end Assigner

end ShadowVpn
