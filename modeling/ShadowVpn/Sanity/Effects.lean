import ShadowVpn.Sanity.Load

/-! What an allocation does to a book, read off its five cases once: who gets what,
which rows leave, and that everyone else is left alone. -/

namespace ShadowVpn

open Lib

namespace Book

variable {p : Policy} {b b' : Book} {req : AssignReq} {peer : SocketAddr} {now : SystemTime}
  {reply : Assign} {gone : List Lease}

theorem touch_held_self {n : NodeId} {l : Lease} (hl : b.held n = some l) :
    (b.touch hl peer now).held n = some { l with lastSeen := now, lastPeer := some peer } :=
  if_pos rfl

theorem touch_held_ne {n m : NodeId} {l : Lease} (hl : b.held n = some l) (hm : m ≠ n) :
    (b.touch hl peer now).held m = b.held m :=
  if_neg hm

theorem bind_held_self {n : NodeId} {ip4 : Ipv4Addr} {ip6 : Option Ipv6Addr}
    (hf : b.Free n ip4 ip6) :
    (b.bind hf peer now).held n = some ⟨n, ip4, ip6, now, some peer⟩ :=
  if_pos rfl

theorem bind_held_ne {n m : NodeId} {ip4 : Ipv4Addr} {ip6 : Option Ipv6Addr}
    (hf : b.Free n ip4 ip6) (hm : m ≠ n) : (b.bind hf peer now).held m = b.held m :=
  if_neg hm

theorem expire_held_of {ttl : Duration} {n : NodeId} {l : Lease} (hl : b.held n = some l)
    (he : isExpired l.lastSeen now ttl = false) : (b.expire ttl now).held n = some l :=
  expire_held_some.2 ⟨hl, he⟩

/-- A granted lease is in the book, stamped and spoken for by the requester. -/
theorem Allocates.granted (h : b.Allocates p req peer now reply gone b')
    (hok : reply.status = .ok) :
    ∃ l, b'.held req.nodeId = some l ∧ l.lastSeen = now ∧ l.lastPeer = some peer ∧
      p.Grants reply l.ip4 l.ip6 := by
  cases h with
  | refresh _ hl hreply => exact ⟨_, touch_held_self hl, rfl, rfl, hreply⟩
  | fresh _ _ hf hreply => exact ⟨_, bind_held_self hf, rfl, rfl, hreply⟩
  | reclaim _ _ _ _ _ hf hreply => exact ⟨_, bind_held_self hf, rfl, rfl, hreply⟩
  | wasted => cases hok
  | exhausted => cases hok

/-- A refused requester holds nothing. -/
theorem Allocates.refused (h : b.Allocates p req peer now reply gone b')
    (hno : reply.status ≠ .ok) : b'.held req.nodeId = none ∧ reply = ShadowVpn.exhausted := by
  cases h with
  | refresh _ _ hreply => exact absurd hreply.status hno
  | fresh _ _ _ hreply => exact absurd hreply.status hno
  | reclaim _ _ _ _ _ _ hreply => exact absurd hreply.status hno
  | wasted _ hn _ _ _ =>
    refine ⟨?_, rfl⟩
    rw [evict_held]
    split_ifs
    · rfl
    · exact hn
  | exhausted _ _ hempty => exact ⟨hempty req.nodeId, rfl⟩

theorem Expired.not_mem {ttl : Duration} (h : b.Expired ttl now gone) {m : NodeId} {l : Lease}
    (hl : (b.expire ttl now).held m = some l) : l ∉ gone := by
  intro hmem
  obtain ⟨-, -, he⟩ := (h.mem l).1 hmem
  rw [(expire_held_some.1 hl).2] at he
  cases he

/-- Rows of other nodes are rows of before that did not leave. -/
theorem Allocates.others (h : b.Allocates p req peer now reply gone b') {m : NodeId}
    (hm : m ≠ req.nodeId) {l : Lease} (hl : b'.held m = some l) :
    b.held m = some l ∧ l ∉ gone := by
  have hlive : ∀ {expired : List Lease}, b.Expired p.ttl now expired →
      (b.expire p.ttl now).held m = some l → b.held m = some l ∧ l ∉ expired :=
    fun hexp hk => ⟨(expire_held_some.1 hk).1, hexp.not_mem hk⟩
  have hevict : ∀ {expired : List Lease} {v : Lease}, b.Expired p.ttl now expired →
      ((b.expire p.ttl now).evict v).held m = some l →
        b.held m = some l ∧ l ∉ expired ++ [v] := by
    intro expired v hexp hk
    rw [evict_held] at hk
    split_ifs at hk with hv
    obtain ⟨hb, hno⟩ := hlive hexp hk
    refine ⟨hb, ?_⟩
    rw [List.mem_append, List.mem_singleton]
    rintro (h | rfl)
    · exact hno h
    · exact hv (b.own m l hb).symm
  cases h with
  | refresh hgone hk _ => exact hlive hgone ((touch_held_ne hk hm).symm.trans hl)
  | fresh hgone _ hf _ => exact hlive hgone ((bind_held_ne hf hm).symm.trans hl)
  | reclaim hgone _ _ _ _ hf _ => exact hevict hgone ((bind_held_ne hf hm).symm.trans hl)
  | wasted hgone => exact hevict hgone hl
  | exhausted hgone => exact hlive hgone hl

/-- Every row keeps the addresses of an old one or has new ones, checked and derived. -/
theorem Allocates.origin (h : b.Allocates p req peer now reply gone b') {n : NodeId} {l : Lease}
    (hl : b'.held n = some l) :
    (∃ k, b.held n = some k ∧ l.ip4 = k.ip4 ∧ l.ip6 = k.ip6) ∨
      (p.Legal l.ip4 ∧ l.ip6 = p.derive req.wantIp6 l.ip4) := by
  by_cases hn : n = req.nodeId
  swap
  · exact Or.inl ⟨l, (h.others hn hl).1, rfl, rfl⟩
  subst hn
  by_cases hok : reply.status = .ok
  swap
  · rw [(h.refused hok).1] at hl
    cases hl
  cases h with
  | refresh _ hk _ =>
    rw [touch_held_self] at hl
    cases hl
    exact Or.inl ⟨_, (expire_held_some.1 hk).1, rfl, rfl⟩
  | fresh _ hu hf _ =>
    rw [bind_held_self] at hl
    cases hl
    exact Or.inr ⟨hu.legal, rfl⟩
  | reclaim _ _ _ _ hu hf _ =>
    rw [bind_held_self] at hl
    cases hl
    exact Or.inr ⟨hu.legal, rfl⟩
  | wasted => cases hok
  | exhausted => cases hok

/-- The rows that leave: every expired one, and under pressure the oldest of the rest. -/
structure Leavers (p : Policy) (b : Book) (req : AssignReq) (now : SystemTime)
    (gone expired : List Lease) (victim : Option Lease) : Prop where
  split : gone = expired ++ victim.toList
  expired : b.Expired p.ttl now expired
  oldest : ∀ v, victim = some v → (b.expire p.ttl now).Oldest v
  needy : ∀ v, victim = some v → (b.expire p.ttl now).held req.nodeId = none
  full : ∀ v, victim = some v → ∀ ip, ¬ (b.expire p.ttl now).Usable p req.nodeId req.wantIp6 ip

/-- The oldest row leaves after the expired ones. -/
theorem leavers_victim {expired : List Lease} {v : Lease} (hgone : b.Expired p.ttl now expired)
    (hv : (b.expire p.ttl now).Oldest v) (hn : (b.expire p.ttl now).held req.nodeId = none)
    (hfull : ∀ ip, ¬ (b.expire p.ttl now).Usable p req.nodeId req.wantIp6 ip) :
    b.Leavers p req now (expired ++ [v]) expired (some v) where
  split := rfl
  expired := hgone
  oldest := by
    rintro _ ⟨⟩
    exact hv
  needy := fun _ _ => hn
  full := fun _ _ => hfull

theorem Allocates.leavers (h : b.Allocates p req peer now reply gone b') :
    ∃ expired victim, b.Leavers p req now gone expired victim := by
  cases h with
  | refresh hgone _ _ => exact ⟨gone, none, by simp, hgone, by simp, by simp, by simp⟩
  | fresh hgone _ _ _ => exact ⟨gone, none, by simp, hgone, by simp, by simp, by simp⟩
  | exhausted hgone _ _ => exact ⟨gone, none, by simp, hgone, by simp, by simp, by simp⟩
  | reclaim hgone hn hfull hv _ _ _ => exact ⟨_, _, leavers_victim hgone hv hn hfull⟩
  | wasted hgone hn hfull hv _ => exact ⟨_, _, leavers_victim hgone hv hn hfull⟩

/-- Every leaver was a row of the book. -/
theorem Leavers.held {expired : List Lease} {victim : Option Lease}
    (h : b.Leavers p req now gone expired victim) {l : Lease} (hl : l ∈ gone) :
    b.held l.nodeId = some l := by
  rw [h.split, List.mem_append, Option.mem_toList] at hl
  rcases hl with hl | hl
  · obtain ⟨n, hn, -⟩ := (h.expired.mem l).1 hl
    rw [b.own n l hn]
    exact hn
  · exact (expire_held_some.1 (h.oldest l hl).1).1

/-- An unexpired leaver is the victim. -/
theorem Leavers.victim_of_mem {expired : List Lease} {victim : Option Lease}
    (h : b.Leavers p req now gone expired victim) {v : Lease} (hv : v ∈ gone)
    (he : isExpired v.lastSeen now p.ttl = false) : victim = some v := by
  rw [h.split, List.mem_append, Option.mem_toList] at hv
  rcases hv with hv | hv
  · obtain ⟨-, -, he'⟩ := (h.expired.mem v).1 hv
    rw [he] at he'
    cases he'
  · exact hv

theorem Leavers.nodup {expired : List Lease} {victim : Option Lease}
    (h : b.Leavers p req now gone expired victim) : gone.Nodup := by
  rw [h.split]
  cases victim with
  | none => simpa using h.expired.nodup
  | some v =>
    have hv : v ∉ expired := h.expired.not_mem (h.oldest v rfl).1
    simpa [List.nodup_append] using ⟨h.expired.nodup, fun a ha hav => hv (hav ▸ ha)⟩

/-- A row that does not leave keeps its addresses. -/
theorem Allocates.stays (h : b.Allocates p req peer now reply gone b') {n : NodeId} {l : Lease}
    (hl : b.held n = some l) (hno : l ∉ gone) :
    ∃ l', b'.held n = some l' ∧ l'.ip4 = l.ip4 ∧ l'.ip6 = l.ip6 := by
  have hlive : ∀ {expired : List Lease}, b.Expired p.ttl now expired → l ∉ expired →
      (b.expire p.ttl now).held n = some l := by
    intro expired hexp hno
    refine expire_held_of hl (Bool.eq_false_iff.2 fun he => hno ?_)
    exact (hexp.mem l).2 ⟨n, hl, he⟩
  -- a victim leaves only its own row
  have hevict : ∀ {expired : List Lease} {v : Lease}, b.Expired p.ttl now expired →
      l ∉ expired ++ [v] → (b.expire p.ttl now).Oldest v →
        ((b.expire p.ttl now).evict v).held n = some l := by
    intro expired v hexp hno hv
    have hnl : l ∉ expired ∧ l ≠ v := by simpa [not_or] using hno
    have hlive := hlive hexp hnl.1
    rw [evict_held, if_neg]
    · exact hlive
    · rintro rfl
      rw [hv.1] at hlive
      exact hnl.2 (Option.some.inj hlive).symm
  cases h with
  | refresh hgone hk _ =>
    by_cases hn : n = req.nodeId
    · subst hn
      rw [hlive hgone hno] at hk
      cases hk
      exact ⟨_, touch_held_self _, rfl, rfl⟩
    · exact ⟨l, (touch_held_ne hk hn).trans (hlive hgone hno), rfl, rfl⟩
  | fresh hgone _ hf _ =>
    have hn : n ≠ req.nodeId := by
      rintro rfl
      have := hf.node
      rw [hlive hgone hno] at this
      cases this
    exact ⟨l, (bind_held_ne hf hn).trans (hlive hgone hno), rfl, rfl⟩
  | reclaim hgone _ _ hv _ hf _ =>
    have hstay := hevict hgone hno hv
    have hn : n ≠ req.nodeId := by
      rintro rfl
      have := hf.node
      rw [hstay] at this
      cases this
    exact ⟨l, (bind_held_ne hf hn).trans hstay, rfl, rfl⟩
  | wasted hgone _ _ hv _ => exact ⟨l, hevict hgone hno hv, rfl, rfl⟩
  | exhausted hgone _ _ => exact ⟨l, hlive hgone hno, rfl, rfl⟩

/-- A leaver is gone, unless its node is the requester and was bound anew. -/
theorem Allocates.leaves (h : b.Allocates p req peer now reply gone b') {l : Lease}
    (hl : l ∈ gone) (hne : l.nodeId ≠ req.nodeId) : b'.held l.nodeId = none := by
  rw [Option.eq_none_iff_forall_ne_some]
  intro k hk
  obtain ⟨expired, victim, hs⟩ := h.leavers
  obtain ⟨hb, hno⟩ := h.others hne hk
  rw [hs.held hl] at hb
  exact hno (Option.some.inj hb ▸ hl)

/-- When an unexpired row leaves, the requester is served exactly if anything is usable
without that row. -/
theorem Allocates.served_iff (h : b.Allocates p req peer now reply gone b') {v : Lease}
    (hv : v ∈ gone) (he : isExpired v.lastSeen now p.ttl = false) :
    reply.status = .ok ↔
      ∃ ip, ((b.expire p.ttl now).evict v).Usable p req.nodeId req.wantIp6 ip := by
  have hno : ∀ {expired : List Lease}, b.Expired p.ttl now expired → v ∉ expired := by
    intro expired hexp hmem
    obtain ⟨-, -, he'⟩ := (hexp.mem v).1 hmem
    rw [he] at he'
    cases he'
  have hlast : ∀ {expired : List Lease} {w : Lease}, b.Expired p.ttl now expired →
      v ∈ expired ++ [w] → v = w := by
    intro expired w hexp hmem
    simpa [hno hexp] using hmem
  cases h with
  | refresh hgone => exact absurd hv (hno hgone)
  | fresh hgone => exact absurd hv (hno hgone)
  | exhausted hgone => exact absurd hv (hno hgone)
  | reclaim hgone _ _ _ hu _ hreply =>
    rw [hlast hgone hv]
    exact ⟨fun _ => ⟨_, hu⟩, fun _ => hreply.status⟩
  | wasted hgone _ _ _ hstill =>
    rw [hlast hgone hv]
    refine ⟨fun hok => ?_, fun ⟨ip, hu⟩ => absurd hu (hstill ip)⟩
    cases hok

end Book

end ShadowVpn
