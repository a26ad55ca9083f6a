import ShadowVpn.Lib.Table
import ShadowVpn.Proofs.Names

/-! The labels of the name table over whole runs: when they are unique, when a free label
is granted, and what becomes of a label when its node moves. -/

namespace ShadowVpn

open Lib

/-! Clients that all ask for the label `a`. -/

namespace Sample

def client (k : ℕ) : SocketAddr := .v4 0xC6336401 (UInt16.ofNat k)

def labels : List Text := NameTable.candidates ['a'] none (addr 2)

def code (label : Text) : ℕ := label.foldl (fun n c => n * 256 + c.toNat) 0

theorem labels_length : labels.length = 256 := by decide +kernel

theorem server_not_mem_labels : ['h'] ∉ labels := by decide +kernel

theorem labels_nodup : labels.Nodup := by
  have hchain : List.IsChain (· < ·) (labels.map code) := by decide +kernel
  exact List.Nodup.of_map code (List.isChain_iff_pairwise.1 hchain).nodup

theorem client_ne {j k : ℕ} (hj : j < 65536) (hk : k < 65536) (h : j ≠ k) : client j ≠ client k := by
  intro heq
  have hport := congrArg UInt16.toNat (SocketAddr.v4.inj heq).2
  rw [UInt16.toNat_ofNat', UInt16.toNat_ofNat'] at hport
  omega

end Sample

namespace NameTable

variable {t t' : NameTable} {es : List (Entry NameTable Event Out)} {peer p q : SocketAddr}
  {raw name : Text} {ip4 : Ipv4Addr} {ip6 : Option Ipv6Addr} {nodeId : Option NodeId}
  {now : Instant} {row : NameRow} {event : Event} {out : Out}

/-! Bindings. -/

theorem Bound.grant (h : t.Bound) (peer : SocketAddr) (requested : Text) (ip4 : Ipv4Addr)
    (ip6 : Option Ipv6Addr) (nodeId : Option NodeId) (now : Instant) :
    (t.grant peer requested ip4 ip6 nodeId now).1.Bound := by
  have hgone : (t.withdraw peer).1.byPeer.get peer = none := by rw [withdraw_get, if_pos rfl]
  exact (h.drops (h.withdraw peer)).insert hgone rfl

theorem Bound.step (h : t.Bound) (hs : step t event = .ok (t', out)) : t'.Bound := by
  cases steps_of_step hs with
  | dropped hd _ => exact h.drops (hd h)
  | refreshed _ hrow _ => exact IsBinding.replace h hrow rfl
  | granted _ _ => exact h.grant _ _ _ _ _ _

theorem step_server (hs : step t event = .ok (t', out)) (h : t.Bound) : t'.server = t.server := by
  cases steps_of_step hs with
  | dropped hd _ => exact (hd h).server
  | refreshed _ _ _ => rfl
  | @granted peer _ _ _ _ _ _ _ => exact (h.withdraw peer).server

theorem withServer_bound (name : Text) (ip4 : Ipv4Addr) (ip6 : Option Ipv6Addr) :
    (withServer name ip4 ip6).Bound :=
  isBinding_empty

/-! Unique labels. -/

/-- No two rows have one label, none has the server's, and the index of labels is the
inverse of what was granted. -/
structure Unique (t : NameTable) : Prop where
  distinct : ∀ p q rp rq, t.byPeer.get p = some rp → t.byPeer.get q = some rq →
    rp.granted = rq.granted → p = q
  server : ∀ p row s, t.byPeer.get p = some row → t.server = some s → row.granted ≠ s.name
  inverse : ∀ n p, t.byName.get n = some p ↔ ∃ row, t.byPeer.get p = some row ∧ row.granted = n

/-- An advert that needs a new label while somebody else has every one that is tried. -/
def Crowded (t : NameTable) (event : Event) : Prop :=
  ∃ peer raw ip4 ip6 nodeId now, event = .advertise peer raw ip4 ip6 nodeId now ∧ raw ≠ [] ∧
    (∀ row, t.byPeer.get peer = some row → row.requested ≠ sanitizeHostname raw) ∧
    ∀ c ∈ candidates (sanitizeHostname raw) nodeId ip4, t.Taken peer c

theorem unique_of_index (h : IsIndex t.byName.get t.byPeer.get fun row => some row.granted)
    (hserver : ∀ p row s, t.byPeer.get p = some row → t.server = some s → row.granted ≠ s.name) :
    t.Unique where
  distinct := fun p q rp rq hp hq heq => h.unique hp hq rfl (congrArg some heq.symm)
  server := hserver
  inverse := by
    intro n p
    rw [h n p]
    simp only [Option.some.injEq]

theorem Unique.index (h : t.Unique) :
    IsIndex t.byName.get t.byPeer.get fun row => some row.granted := by
  intro n p
  rw [h.inverse n p]
  simp only [Option.some.injEq]

theorem Unique.drops (h : t.Unique) (hd : Drops t t') : t'.Unique := by
  refine unique_of_index ?_ ?_
  · intro n p
    rw [hd.names, h.inverse]
    constructor
    · rintro ⟨⟨row, hrow, hg⟩, hsome⟩
      obtain ⟨row', hrow'⟩ := Option.isSome_iff_exists.1 hsome
      cases hrow.symm.trans (hd.rows p row' hrow')
      exact ⟨_, hrow', congrArg some hg⟩
    · rintro ⟨row, hrow, hg⟩
      refine ⟨⟨row, hd.rows p row hrow, Option.some.inj hg⟩, ?_⟩
      rw [hrow]
      rfl
  · intro p row s hrow hs
    rw [hd.server] at hs
    exact h.server p row s (hd.rows p row hrow) hs

theorem Unique.nameTaken_iff (h : t.Unique) (hb : t.Bound) (peer : SocketAddr) (n : Text) :
    (t.withdraw peer).1.nameTaken n = true ↔ t.Taken peer n := by
  refine ⟨hb.taken_of_nameTaken, ?_⟩
  have hd := hb.withdraw peer
  rw [NameTable.nameTaken_iff, hd.server]
  rintro (hserver | ⟨q, row, hq, hrow, hg⟩)
  · exact Or.inl hserver
  · refine Or.inr ⟨q, (hd.names n q).2 ⟨(h.inverse n q).2 ⟨row, hrow, hg⟩, ?_⟩⟩
    rw [withdraw_get, if_neg hq, hrow]
    rfl

theorem Unique.grant_iff (h : t.Unique) (hb : t.Bound) (requested : Text) :
    (t.grant peer requested ip4 ip6 nodeId now).1.Unique ↔
      (t.withdraw peer).1.nameTaken ((t.withdraw peer).1.uniqueName requested nodeId ip4) = false := by
  have hd := hb.withdraw peer
  have hu := h.drops hd
  have hgone : (t.withdraw peer).1.byPeer.get peer = none := by rw [withdraw_get, if_pos rfl]
  constructor
  · intro hgrant
    rw [← Bool.not_eq_true, NameTable.nameTaken_iff]
    have hself := grant_get t peer peer requested ip4 ip6 nodeId now
    rw [if_pos rfl] at hself
    rintro (⟨s, hs, hname⟩ | ⟨q, hq⟩)
    · exact hgrant.server peer _ s hself hs hname.symm
    · obtain ⟨row, hrow, hg⟩ := (hu.inverse _ q).1 hq
      have hqp : q ≠ peer := by
        rintro rfl
        rw [hgone] at hrow
        cases hrow
      have hother := grant_get t peer q requested ip4 ip6 nodeId now
      rw [if_neg hqp, hd.rows q row hrow] at hother
      exact hqp (hgrant.distinct q peer row _ hother hself hg)
  · intro hfree
    rw [← Bool.not_eq_true, NameTable.nameTaken_iff, not_or] at hfree
    refine unique_of_index ?_ ?_
    · refine hu.index.insert (v := ⟨requested, _, ip4, ip6, now⟩) hgone ?_
      intro n hn
      cases hn
      rw [Option.eq_none_iff_forall_ne_some]
      intro q hq
      exact hfree.2 ⟨q, hq⟩
    · intro p row s hrow hs
      rw [grant_get] at hrow
      split_ifs at hrow with hp
      · cases hrow
        intro heq
        exact hfree.1 ⟨s, hs, heq.symm⟩
      · exact h.server p row s hrow (hd.server ▸ hs)

theorem Unique.step_iff (h : t.Unique) (hb : t.Bound) (hs : step t event = .ok (t', out)) :
    t'.Unique ↔ ¬ t.Crowded event := by
  cases steps_of_step hs with
  | dropped hd hno =>
    refine iff_of_true (h.drops (hd hb)) ?_
    rintro ⟨peer, raw, ip4, ip6, nodeId, now, rfl, hraw, -⟩
    exact hraw (hno _ _ _ _ _ _ rfl)
  | refreshed _ hrow hsame =>
    refine iff_of_true (unique_of_index (h.index.replace hrow rfl) ?_) ?_
    · intro p row' s hrow' hs'
      rw [HashMap.get_insert] at hrow'
      split_ifs at hrow' with hp
      · cases hrow'
        have hne := h.server _ _ s hrow hs'
        exact hne
      · exact h.server p row' s hrow' hs'
    · rintro ⟨_, _, _, _, _, _, heq, -, hnew, -⟩
      cases heq
      exact hnew _ hrow hsame
  | @granted peer raw ip4 ip6 nodeId now hraw hnew =>
    rw [h.grant_iff hb, ← Bool.not_eq_true, uniqueName_taken_iff, not_iff_not]
    constructor
    · intro hall
      exact ⟨peer, raw, ip4, ip6, nodeId, now, rfl, hraw, hnew,
        fun c hc => (h.nameTaken_iff hb peer c).1 (hall c hc)⟩
    · rintro ⟨_, _, _, _, _, _, heq, -, -, hall⟩ c hc
      cases heq
      exact (h.nameTaken_iff hb _ c).2 (hall c hc)

theorem withServer_unique (name : Text) (ip4 : Ipv4Addr) (ip6 : Option Ipv6Addr) :
    (withServer name ip4 ip6).Unique :=
  unique_of_index isIndex_empty (fun p row s hrow => by cases hrow)

/-- All along a run labels are unique exactly if no advert finds every label that is
tried for it taken. -/
theorem labels_unique_iff (h : Run step (withServer name ip4 ip6) es t) :
    (∀ e ∈ es, ¬ e.pre.Crowded e.input) ↔ ∀ e ∈ es, e.post.Unique :=
  h.forall_iff (fun _ _ _ _ hb hs => hb.step hs) (fun _ _ _ _ hb hu hs => hu.step_iff hb hs)
    (withServer_bound name ip4 ip6) (withServer_unique name ip4 ip6)

/-- Two clients ask for `a`, and the second is given it with a tag. -/
theorem labels_unique_iff_tagged : ∃ es t,
    Run step (withServer ['h'] (Sample.addr 1) none) es t ∧
    t.nameFor (Sample.endpoint 1) = some ['a'] ∧
    t.nameFor (Sample.endpoint 2) = some ['a', '-', '0', '3'] ∧ ∀ e ∈ es, e.post.Unique := by
  have hrun : ∃ o₁ t₁ o t row, step (withServer ['h'] (Sample.addr 1) none)
        (.advertise (Sample.endpoint 1) ['a'] (Sample.addr 2) none none 1) = .ok (t₁, o₁) ∧
      step t₁ (.advertise (Sample.endpoint 2) ['a'] (Sample.addr 3) none none 2) = .ok (t, o) ∧
      t₁.server = some ⟨['h'], Sample.addr 1, none⟩ ∧
      t₁.byPeer = (∅ : HashMap SocketAddr NameRow).insert (Sample.endpoint 1) row ∧
      row.granted = ['a'] ∧ t.nameFor (Sample.endpoint 1) = some ['a'] ∧
      t.nameFor (Sample.endpoint 2) = some ['a', '-', '0', '3'] :=
    ⟨_, _, _, _, _, rfl, rfl, rfl, rfl, rfl, rfl, by decide +kernel⟩
  obtain ⟨o₁, t₁, o, t, row, h₁, h₂, hserver, hpeers, hgranted, hname₁, hname₂⟩ := hrun
  have hes := (Run.single h₁).snoc h₂
  refine ⟨_, t, hes, hname₁, hname₂, (labels_unique_iff hes).1 ?_⟩
  rw [List.forall_mem_append, List.forall_mem_singleton, List.forall_mem_singleton]
  constructor
  · rintro ⟨_, _, _, _, _, _, heq, -, -, hall⟩
    cases heq
    rcases hall _ List.mem_cons_self with ⟨s, hs, hlabel⟩ | ⟨q, row', -, hrow', -⟩
    · cases hs
      revert hlabel
      decide +kernel
    · cases hrow'
  · rintro ⟨_, _, _, _, _, _, heq, -, -, hall⟩
    cases heq
    -- `a` is taken, but not the label with the tag
    have htagged : tagged (sanitizeHostname ['a']) none (Sample.addr 3) = ['a', '-', '0', '3'] := by
      decide +kernel
    have htaken := hall _ (List.mem_cons_of_mem _ List.mem_cons_self)
    rw [htagged] at htaken
    rcases htaken with ⟨s, hs, hlabel⟩ | ⟨q, row', -, hrow', hlabel⟩
    · rw [hserver] at hs
      cases hs
      cases hlabel
    · rw [hpeers, HashMap.get_insert, HashMap.get_empty] at hrow'
      split_ifs at hrow'
      cases hrow'
      rw [hgranted] at hlabel
      cases hlabel

/-! Two hundred and fifty-seven clients that ask for the same label. -/

/-- The first `k` clients have the first `k` labels. -/
structure Filled (k : ℕ) (t : NameTable) : Prop where
  server : ∃ s, t.server = some s ∧ s.name = ['h']
  names : ∀ n, (∃ q, t.byName.get n = some q) ↔ n ∈ Sample.labels.take k
  rows : ∀ j < k, ∃ row, t.byPeer.get (Sample.client j) = some row ∧
    Sample.labels[j]? = some row.granted
  rest : ∀ j, k ≤ j → j < 65536 → t.byPeer.get (Sample.client j) = none

theorem Filled.uniqueName {k : ℕ} (h : Filled k t) :
    t.uniqueName ['a'] none (Sample.addr 2) =
      (Sample.labels[k]?).getD (tagged ['a'] none (Sample.addr 2)) := by
  rw [uniqueName_eq]
  congr 1
  refine find?_not_mem_take Sample.labels_nodup k ?_
  intro n hn
  rw [Bool.not_eq_true', ← Bool.not_eq_true, nameTaken_iff, ← h.names n, not_or, and_iff_right]
  rintro ⟨s, hs, rfl⟩
  obtain ⟨s', hs', hname⟩ := h.server
  cases hs.symm.trans hs'
  rw [hname] at hn
  exact Sample.server_not_mem_labels hn

theorem Filled.advertise {k : ℕ} (h : Filled k t) (hk : k < 65536) :
    (t.advertise (Sample.client k) ['a'] (Sample.addr 2) none none 1).1 =
      { t with
        byName := t.byName.insert
          ((Sample.labels[k]?).getD (tagged ['a'] none (Sample.addr 2))) (Sample.client k)
        byPeer := t.byPeer.insert (Sample.client k)
          ⟨['a'], (Sample.labels[k]?).getD (tagged ['a'] none (Sample.addr 2)), Sample.addr 2, none,
            1⟩ } := by
  have hnone := h.rest k (Nat.le_refl k) hk
  have hsame : (t.withdraw (Sample.client k)).1 = t := by
    rw [withdraw, hnone]
  have hlabel : sanitizeHostname ['a'] = ['a'] := rfl
  rw [NameTable.advertise, hnone, hlabel]
  simp only [List.isEmpty_cons, Bool.false_eq_true, if_false, grant, hsame, h.uniqueName]

theorem Filled.next {k : ℕ} (h : Filled k t) (hk : k < 256) :
    Filled (k + 1) (t.advertise (Sample.client k) ['a'] (Sample.addr 2) none none 1).1 := by
  have hlen : k < Sample.labels.length := by
    rw [Sample.labels_length]
    exact hk
  obtain ⟨label, hget⟩ : ∃ label, Sample.labels[k]? = some label :=
    ⟨_, List.getElem?_eq_getElem hlen⟩
  rw [h.advertise (by omega), hget, Option.getD_some]
  refine ⟨h.server, ?_, ?_, ?_⟩
  · intro n
    rw [HashMap.get_insert, List.take_add_one, hget, List.mem_append, ← h.names n]
    by_cases hn : n = label
    · simp [hn]
    · simp [hn]
  · intro j hj
    rw [HashMap.get_insert]
    by_cases hjk : j = k
    · rw [hjk, if_pos rfl]
      exact ⟨_, rfl, hget⟩
    · rw [if_neg (Sample.client_ne (by omega) (by omega) hjk)]
      exact h.rows j (by omega)
  · intro j hj hlt
    rw [HashMap.get_insert, if_neg (Sample.client_ne hlt (by omega) (by omega))]
    exact h.rest j (by omega) hlt

theorem step_advertise (t : NameTable) (peer : SocketAddr) (raw : Text) (ip4 : Ipv4Addr)
    (ip6 : Option Ipv6Addr) (nodeId : Option NodeId) (now : Instant) :
    step t (.advertise peer raw ip4 ip6 nodeId now) =
      .ok ((t.advertise peer raw ip4 ip6 nodeId now).1,
        .outcome (t.advertise peer raw ip4 ip6 nodeId now).2) := rfl

theorem step_withdraw (t : NameTable) (peer : SocketAddr) :
    step t (.withdraw peer) = .ok ((t.withdraw peer).1, .outcome (t.withdraw peer).2) := rfl

theorem step_expire (t : NameTable) (order : IterOrder SocketAddr NameRow) (ttl : Duration)
    (now : Instant) :
    step t (.expire order ttl now) =
      .ok ((t.expire order ttl now).1, .expired (t.expire order ttl now).2) := rfl

theorem exists_filled {k : ℕ} (hk : k ≤ 256) :
    ∃ es t, Run step (withServer ['h'] (Sample.addr 1) none) es t ∧ Filled k t := by
  induction k with
  | zero =>
    refine ⟨[], _, Run.nil, ⟨⟨_, rfl, rfl⟩, ?_, ?_, fun _ _ _ => rfl⟩⟩
    · intro n
      simp [withServer]
    · intro j hj
      omega
  | succ k ih =>
    obtain ⟨es, t, hrun, hfilled⟩ := ih (by omega)
    exact ⟨_, _, hrun.snoc (step_advertise _ _ _ _ _ _ _), hfilled.next (by omega)⟩

/-- The last one gets a label that the second one has. -/
theorem labels_collide : ∃ es t p q rp rq,
    Run step (withServer ['h'] (Sample.addr 1) none) es t ∧ p ≠ q ∧
    t.byPeer.get p = some rp ∧ t.byPeer.get q = some rq ∧ rp.granted = rq.granted := by
  obtain ⟨es, t, hrun, hfilled⟩ := exists_filled (Nat.le_refl 256)
  obtain ⟨row, hrow, hlabel⟩ := hfilled.rows 1 (by decide)
  have hne : Sample.client 1 ≠ Sample.client 256 := Sample.client_ne (by decide) (by decide) (by decide)
  have hnone : Sample.labels[256]? = none := by
    rw [List.getElem?_eq_none_iff, Sample.labels_length]
  have hpost := hfilled.advertise (by decide)
  rw [hnone] at hpost
  -- the tagged label comes second among those that are tried
  have htag : Sample.labels[1]? = some (tagged ['a'] none (Sample.addr 2)) := rfl
  refine ⟨_, _, Sample.client 1, Sample.client 256, row,
    ⟨['a'], tagged ['a'] none (Sample.addr 2), Sample.addr 2, none, 1⟩,
    hrun.snoc (step_advertise t (Sample.client 256) ['a'] (Sample.addr 2) none none 1), hne, ?_, ?_,
    Option.some.inj (hlabel.symm.trans htag)⟩
  · rw [hpost, HashMap.get_insert, if_neg hne]
    exact hrow
  · rw [hpost, HashMap.get_insert, if_pos rfl]
    rfl

/-! Free labels. -/

def Reachable (t : NameTable) : Prop :=
  ∃ start es, (start = new ∨ ∃ name ip4 ip6, start = withServer name ip4 ip6) ∧ Run step start es t

theorem Reachable.bound (h : t.Reachable) : t.Bound := by
  obtain ⟨start, es, hstart, hrun⟩ := h
  refine hrun.invariant (I := Bound) (fun _ _ _ _ hb hs => hb.step hs) ?_
  rcases hstart with rfl | ⟨name, ip4, ip6, rfl⟩
  · exact isBinding_empty
  · exact withServer_bound name ip4 ip6

theorem withServer_reachable (name : Text) (ip4 : Ipv4Addr) (ip6 : Option Ipv6Addr) :
    (withServer name ip4 ip6).Reachable :=
  ⟨_, [], Or.inr ⟨name, ip4, ip6, rfl⟩, Run.nil⟩

theorem Reachable.step (h : t.Reachable) (hs : step t event = .ok (t', out)) : t'.Reachable := by
  obtain ⟨start, es, hstart, hrun⟩ := h
  exact ⟨start, _, hstart, hrun.snoc hs⟩

theorem advertise_server (h : t.Bound) (peer : SocketAddr) (raw : Text) (ip4 : Ipv4Addr)
    (ip6 : Option Ipv6Addr) (nodeId : Option NodeId) (now : Instant) :
    (t.advertise peer raw ip4 ip6 nodeId now).1.server = t.server :=
  step_server (step_advertise t peer raw ip4 ip6 nodeId now) h

theorem advertise_taken (h : t.Bound) (peer : SocketAddr) (raw : Text) (ip4 : Ipv4Addr)
    (ip6 : Option Ipv6Addr) (nodeId : Option NodeId) (now : Instant) (n : Text) :
    (t.advertise peer raw ip4 ip6 nodeId now).1.Taken peer n ↔ t.Taken peer n := by
  unfold Taken
  rw [advertise_server h]
  refine or_congr Iff.rfl (exists_congr fun q => exists_congr fun row => and_congr_right ?_)
  intro hq
  rw [advertise_get_ne hq]

/-- After an advert the peer has the label it asked for, or somebody else has, exactly
if this was not the refresh of a renamed row while nobody else had the label. -/
theorem free_label_granted_iff (h : t.Reachable) {raw : Text} (hraw : raw ≠ []) (peer : SocketAddr)
    (ip4 : Ipv4Addr) (ip6 : Option Ipv6Addr) (nodeId : Option NodeId) (now : Instant) :
    ((t.advertise peer raw ip4 ip6 nodeId now).1.nameFor peer = some (sanitizeHostname raw) ∨
      (t.advertise peer raw ip4 ip6 nodeId now).1.Taken peer (sanitizeHostname raw)) ↔
    (¬ t.Taken peer (sanitizeHostname raw) → ∀ row, t.byPeer.get peer = some row →
      row.requested = sanitizeHostname raw → row.granted = sanitizeHostname raw) := by
  have hb := h.bound
  rw [advertise_taken hb]
  by_cases htaken : t.Taken peer (sanitizeHostname raw)
  · exact iff_of_true (Or.inr htaken) (fun hfree => absurd htaken hfree)
  simp only [htaken, or_false, not_false_eq_true, forall_true_left]
  have hs := steps_advertise t peer raw ip4 ip6 nodeId now
  generalize hev : Event.advertise peer raw ip4 ip6 nodeId now = event at hs
  generalize (t.advertise peer raw ip4 ip6 nodeId now).1 = t' at hs ⊢
  cases hs with
  | dropped _ hno => exact absurd (hno _ _ _ _ _ _ hev.symm) hraw
  | @refreshed _ _ _ _ _ _ row _ hrow hsame =>
    cases hev
    rw [nameFor, HashMap.get_insert, if_pos rfl, Option.map_some, Option.some.injEq]
    constructor
    · intro hg row' hrow' _
      cases hrow.symm.trans hrow'
      exact hg
    · intro hall
      exact hall row hrow hsame
  | granted _ hnew =>
    cases hev
    -- nobody else has the label, so it is free once the old row is gone
    have hfree : (t.withdraw peer).1.nameTaken (sanitizeHostname raw) = false := by
      rw [← Bool.not_eq_true]
      exact fun hn => htaken (hb.taken_of_nameTaken hn)
    rw [nameFor, grant_get, if_pos rfl, uniqueName_of_free hfree]
    refine iff_of_true rfl ?_
    intro row hrow hsame
    exact absurd hsame (hnew row hrow)

/-- Two clients have asked for `a`. -/
def shared : NameTable :=
  let first := (withServer ['h'] (Sample.addr 1) none).advertise (Sample.endpoint 1) ['a']
    (Sample.addr 2) none none 1
  (first.1.advertise (Sample.endpoint 2) ['a'] (Sample.addr 3) none none 1).1

theorem reachable_shared : shared.Reachable :=
  ((withServer_reachable _ _ _).step (step_advertise _ _ _ _ _ _ _)).step
    (step_advertise _ _ _ _ _ _ _)

/-- A third one asks for it as well, and is given it with a tag, because it is taken. -/
theorem free_label_granted_iff_third : shared.Reachable ∧
    (shared.advertise (Sample.endpoint 3) ['a'] (Sample.addr 4) none none 2).1.nameFor
      (Sample.endpoint 3) = some ['a', '-', '0', '4'] ∧
    (shared.advertise (Sample.endpoint 3) ['a'] (Sample.addr 4) none none 2).1.Taken
      (Sample.endpoint 3) (sanitizeHostname ['a']) := by
  have hraw : ['a'] ≠ [] := by decide
  have hname : (shared.advertise (Sample.endpoint 3) ['a'] (Sample.addr 4) none none 2).1.nameFor
      (Sample.endpoint 3) = some ['a', '-', '0', '4'] := by
    decide +kernel
  have hnone : shared.byPeer.get (Sample.endpoint 3) = none := by
    decide +kernel
  refine ⟨reachable_shared, hname, ((free_label_granted_iff reachable_shared hraw
    (Sample.endpoint 3) (Sample.addr 4) none none 2).2 ?_).resolve_left ?_⟩
  · intro _ row hrow
    rw [hnone] at hrow
    cases hrow
  · rw [hname]
    decide +kernel

/-- The one that has it withdraws. -/
def renamed : NameTable := (shared.withdraw (Sample.endpoint 1)).1

theorem reachable_renamed : renamed.Reachable := reachable_shared.step (step_withdraw _ _)

theorem not_taken_renamed : ¬ renamed.Taken (Sample.endpoint 2) ['a'] := by
  rintro (⟨s, hserver, hlabel⟩ | ⟨q, row, hq, hrow, -⟩)
  · cases hserver
    revert hlabel
    decide +kernel
  · rw [renamed, shared, withdraw_get, advertise_get_ne hq] at hrow
    split_ifs at hrow with hq1
    rw [advertise_get_ne hq1] at hrow
    cases hrow

/-- The other one asks again and keeps the label with its tag, though `a` is free. -/
theorem renamed_stays : renamed.Reachable ∧
    (renamed.advertise (Sample.endpoint 2) ['a'] (Sample.addr 3) none none 2).1.nameFor
      (Sample.endpoint 2) = some ['a', '-', '0', '3'] ∧
    ¬ (renamed.advertise (Sample.endpoint 2) ['a'] (Sample.addr 3) none none 2).1.Taken
      (Sample.endpoint 2) ['a'] := by
  refine ⟨reachable_renamed, by decide +kernel, ?_⟩
  rw [advertise_taken reachable_renamed.bound]
  exact not_taken_renamed

end NameTable

end ShadowVpn
