import ShadowVpn.Sanity.Pool

/-! The pool over whole runs: how many allocations succeed, what a reap takes back, and
when a freed address is the next one to be given out. -/

namespace ShadowVpn

open Lib

namespace LeasePool

abbrev History := List (Entry LeasePool PoolCall PoolOut)

variable {p q : LeasePool} {es ms : History} {serverIp netmask a : Ipv4Addr} {ttl : Duration}

/-! The time of a lease. -/

def stamp (a : Ipv4Addr) (e : Entry LeasePool PoolCall PoolOut) : Option Instant :=
  match e.input, e.out with
  | .allocate now, .allocated ip => if ip = some a then some now else none
  | .refresh ip now, _ => if ip = a then some now else none
  | _, _ => none

/-- When `a` was last given out or refreshed. -/
def lastStamp (a : Ipv4Addr) (es : History) : Option Instant := es.reverse.findSome? (stamp a)

theorem lastStamp_snoc (a : Ipv4Addr) (es : History) (e : Entry LeasePool PoolCall PoolOut) :
    lastStamp a (es ++ [e]) = (stamp a e).or (lastStamp a es) := by
  rw [lastStamp, List.reverse_append, List.reverse_singleton, List.singleton_append,
    List.findSome?_cons]
  cases stamp a e <;> rfl

theorem leases_eq_lastStamp (hr : Run LeasePool.step (new serverIp netmask ttl) es p) :
    ∀ a seen, p.leases.get a = some seen → lastStamp a es = some seen := by
  induction hr with
  | nil =>
    intro a seen h
    cases h
  | @snoc es p p' call out hr hs ih =>
    intro a seen h
    rw [lastStamp_snoc]
    cases steps_of_step (reachable_valid hr).1 hs with
    | @granted now b c _ _ _ _ =>
      rw [HashMap.get_insert] at h
      split_ifs at h with hab
      · cases h
        simp [stamp, hab]
      · simp [stamp, Ne.symm hab, ih a seen h]
    | exhausted _ => simp [stamp, ih a seen h]
    | @refreshed now ip m known hm =>
      rw [hm] at h
      split_ifs at h with hip
      · obtain ⟨_, _, rfl⟩ := Option.map_eq_some_iff.1 h
        simp [stamp, hip]
      · simp [stamp, Ne.symm hip, ih a seen h]
    | reaped hm =>
      rw [hm] at h
      split_ifs at h
      simp [stamp, ih a seen h]

/-! Runs without a reap. -/

def isReap (e : Entry LeasePool PoolCall PoolOut) : Bool :=
  match e.input with
  | .reap _ _ => true
  | _ => false

def answers (es : History) : List (Option Ipv4Addr) :=
  es.filterMap fun e =>
    match e.out with
    | .allocated ip => some ip
    | _ => none

/-- As long as nothing is taken back, the leased addresses are those given out, one after
the other, until there are as many as the capacity. -/
theorem answers_eq (hr : Run LeasePool.step (new serverIp netmask ttl) es p)
    (hno : ∀ e ∈ es, isReap e = false) :
    ∃ got : List Ipv4Addr, got.Nodup ∧ (∀ a, (p.leases.get a).isSome ↔ a ∈ got) ∧
      got.length = min (answers es).length p.capacity ∧
      answers es = got.map some ++ List.replicate ((answers es).length - p.capacity) none := by
  induction hr with
  | nil => exact ⟨[], List.nodup_nil, by simp [new], by simp [answers], by simp [answers]⟩
  | @snoc es p p' call out hr hs ih =>
    simp only [List.forall_mem_append, List.forall_mem_singleton] at hno
    obtain ⟨got, hnodup, hmem, hlen, heq⟩ := ih hno.1
    obtain ⟨hvalid, -⟩ := reachable_valid hr
    have hcount : p.leases.entries.length = got.length := HashMap.length_entries_eq hnodup hmem
    have hfull := full_iff hvalid
    cases steps_of_step hvalid hs with
    | @granted now b c hb hfree _ _ =>
      -- the pool was not full, so every allocation up to now was granted
      have hroom : p.leases.entries.length ≠ p.capacity := by
        intro h
        rw [hfull] at h
        simpa [hfree] using h b hb
      have hnew : b ∉ got := by
        intro h
        simpa [hfree] using (hmem b).2 h
      have hall : (answers es).length - p.capacity = 0 := by omega
      rw [hall, List.replicate_zero, List.append_nil] at heq
      have hsucc : answers (es ++ [⟨p, .allocate now, .allocated (some b),
          { p with leases := p.leases.insert b now, cursor := c }⟩]) = answers es ++ [some b] := by
        simp [answers]
      have hcap : capacity { p with leases := p.leases.insert b now, cursor := c } = p.capacity :=
        capacity_congr rfl
      refine ⟨got ++ [b], hnodup.append (List.nodup_singleton b) (by simpa using hnew), ?_, ?_, ?_⟩
      · intro a
        rw [HashMap.get_insert]
        split_ifs with hab
        · simp [hab]
        · simp [hmem, hab]
      · rw [hsucc, hcap, List.length_append, List.length_append, List.length_singleton,
          List.length_singleton]
        omega
      · rw [hsucc, hcap, List.length_append, List.length_singleton, List.map_append,
          show (answers es).length + 1 - p.capacity = 0 by omega, ← heq]
        simp
    | @exhausted now hbusy =>
      have hcap : p.leases.entries.length = p.capacity := hfull.2 hbusy
      have hsucc : answers (es ++ [⟨p, .allocate now, .allocated none, p⟩]) =
          answers es ++ [none] := by
        simp [answers]
      refine ⟨got, hnodup, hmem, ?_, ?_⟩
      · rw [hsucc, List.length_append, List.length_singleton]
        omega
      · rw [hsucc, List.length_append, List.length_singleton,
          show (answers es).length + 1 - p.capacity = (answers es).length - p.capacity + 1 by omega,
          List.replicate_succ', ← List.append_assoc, ← heq]
    | @refreshed now ip m known hm =>
      have hsame : answers (es ++ [⟨p, .refresh ip now, .refreshed known,
          { p with leases := m }⟩]) = answers es := by
        simp [answers]
      have hcap : capacity { p with leases := m } = p.capacity := capacity_congr rfl
      refine ⟨got, hnodup, ?_, by rw [hsame, hcap, hlen], by rw [hsame, hcap]; exact heq⟩
      intro a
      rw [hm, ← hmem]
      split_ifs <;> simp
    | reaped _ => cases hno.2

/-- After any calls on a fresh pool, the cursor is in the range unless that is empty; an
allocation gives out an address of the range that is neither the server's nor leased, and
fails exactly when there are as many leases as the capacity; a reap takes back the leased
addresses that were last given out or refreshed more than the TTL ago. If nothing has been
reaped, the first allocations up to the capacity have succeeded, with distinct addresses,
and the others have failed. -/
theorem allocation_exact (hr : Run LeasePool.step (new serverIp netmask ttl) es p) :
    (p.start, p.end_) = hostRange serverIp netmask ∧
    p.capacity = (new serverIp netmask ttl).capacity ∧
    (p.start ≤ p.end_ → p.start ≤ p.cursor ∧ p.cursor ≤ p.end_) ∧
    (∀ now a, (p.allocate now).2 = some a →
      p.start ≤ a ∧ a ≤ p.end_ ∧ a ≠ serverIp ∧ p.isLeased a = false) ∧
    (∀ now, (p.allocate now).2 = none ↔ p.leases.entries.length = p.capacity) ∧
    (∀ order now, (p.reap order now).2.Nodup ∧ ∀ a, a ∈ (p.reap order now).2 ↔
      p.isLeased a = true ∧ ∃ t, lastStamp a es = some t ∧ t + ttl < now) ∧
    ((∀ e ∈ es, isReap e = false) → ∃ got : List Ipv4Addr, got.Nodup ∧
      got.length = min (answers es).length p.capacity ∧
      answers es = got.map some ++ List.replicate ((answers es).length - p.capacity) none) := by
  obtain ⟨hvalid, hlim⟩ := reachable_valid hr
  have hcap := capacity_congr hlim
  simp only [limits, Prod.mk.injEq] at hlim
  obtain ⟨hstart, hend, hserver, httl⟩ := hlim
  refine ⟨Prod.ext hstart hend, hcap, hvalid.cursor, ?_, ?_, ?_, ?_⟩
  · intro now a ha
    obtain ⟨⟨h1, h2, h3⟩, hfree, -⟩ := allocate_eq_some hvalid (Prod.ext rfl ha)
    exact ⟨h1, h2, fun h => h3 (h.trans hserver.symm), by rw [isLeased, hfree]; rfl⟩
  · intro now
    rw [full_iff hvalid]
    rcases allocate_cases hvalid now with ⟨heq, hall⟩ | ⟨b, c, hb, hfree, -, -, heq⟩
    · exact ⟨fun _ => hall, fun _ => by rw [heq]⟩
    · rw [heq]
      refine ⟨fun h => (by cases h), fun h => ?_⟩
      simpa [hfree] using h b hb
  · intro order now
    refine ⟨p.nodup_reap order now, fun a => ?_⟩
    have hlate : ∀ seen : Instant,
        Instant.saturatingDurationSince now seen > p.ttl ↔ seen + ttl < now := by
      intro seen
      rw [show p.ttl = ttl from httl]
      exact Nat.lt_sub_iff_add_lt'
    rw [mem_reap]
    constructor
    · rintro ⟨seen, hget, hold⟩
      exact ⟨by rw [isLeased, hget]; rfl, seen, leases_eq_lastStamp hr a seen hget,
        (hlate seen).1 hold⟩
    · rintro ⟨hleased, t, ht, hold⟩
      obtain ⟨seen, hget⟩ := Option.isSome_iff_exists.1 hleased
      have hseen := (leases_eq_lastStamp hr a seen hget).symm.trans ht
      cases hseen
      exact ⟨t, hget, (hlate t).2 hold⟩
  · intro hno
    obtain ⟨got, hnodup, -, hlen, heq⟩ := answers_eq hr hno
    exact ⟨got, hnodup, hlen, heq⟩

def after (p : LeasePool) (calls : List PoolCall) : LeasePool :=
  calls.foldl (fun q call =>
    match q.step call with
    | .ok post => post.1
    | .error _ => q) p

theorem run_after (p : LeasePool) (calls : List PoolCall) :
    ∃ es, Run LeasePool.step p es (p.after calls) := by
  induction calls using List.reverseRecOn with
  | nil => exact ⟨[], Run.nil⟩
  | append_singleton calls call ih =>
    obtain ⟨es, hr⟩ := ih
    obtain ⟨post, hs⟩ : ∃ post, (p.after calls).step call = .ok post := by
      cases call <;> exact ⟨_, rfl⟩
    have hpost : p.after (calls ++ [call]) = post.1 := by
      simp only [after, List.foldl_append, List.foldl_cons, List.foldl_nil] at hs ⊢
      rw [hs]
    rw [hpost]
    exact ⟨_, hr.snoc hs⟩

def Sample.young : LeasePool :=
  (new 0x0A090001 0xFFFFFFF8 10).after [.allocate 0, .allocate 1, .refresh 0x0A090002 2]

theorem allocation_exact_young : Sample.young.capacity = 5 ∧
    Sample.young.leases.entries.length = 2 ∧ (Sample.young.allocate 3).2 ≠ none := by
  obtain ⟨es, hr⟩ := run_after (new 0x0A090001 0xFFFFFFF8 10)
    [.allocate 0, .allocate 1, .refresh 0x0A090002 2]
  have hsize : Sample.young.capacity = 5 ∧ Sample.young.leases.entries.length = 2 := by
    decide +kernel
  obtain ⟨-, -, -, -, hnone, -⟩ := allocation_exact hr
  refine ⟨hsize.1, hsize.2, ?_⟩
  intro h
  have hfull : Sample.young.leases.entries.length = Sample.young.capacity := (hnone 3).1 h
  rw [hsize.1, hsize.2] at hfull
  cases hfull

/-! Freed addresses. -/

theorem turns_congr (hc : q.cursor = p.cursor) (hl : q.limits = p.limits) (a : Ipv4Addr) :
    q.turns a = p.turns a := by
  simp only [limits, Prod.mk.injEq] at hl
  simp only [turns, hc, hl]

theorem turns_inj (h : p.Valid) {b : Ipv4Addr} (ha : p.Assignable a) (hb : p.Assignable b)
    (heq : p.turns a = p.turns b) : a = b := by
  have hrange : p.start ≤ p.end_ := BitVec.le_trans ha.1 ha.2.1
  have hcur := h.cursor hrange
  rw [← (iterate_next_turns hrange hcur ⟨ha.1, ha.2.1⟩).2,
    ← (iterate_next_turns hrange hcur ⟨hb.1, hb.2.1⟩).2, heq]

theorem ungranted (h : p.Valid) (hr : Run LeasePool.step p ms q)
    (hno : ∀ x ∈ ms, ∀ ip, x.out ≠ .allocated (some ip)) :
    q.Valid ∧ q.limits = p.limits ∧ q.cursor = p.cursor ∧
      ∀ b, p.leases.get b = none → q.leases.get b = none := by
  induction hr with
  | nil => exact ⟨h, rfl, rfl, fun _ hb => hb⟩
  | @snoc ms q q' call out hr hs ih =>
    simp only [List.forall_mem_append, List.forall_mem_singleton] at hno
    obtain ⟨hvalid, hlim, hcur, hfree⟩ := ih hno.1
    obtain ⟨hvalid', hlim'⟩ := hvalid.step hs
    refine ⟨hvalid', hlim'.trans hlim, ?_⟩
    cases steps_of_step hvalid hs with
    | granted _ _ _ _ => exact absurd rfl (hno.2 _)
    | exhausted _ => exact ⟨hcur, hfree⟩
    | refreshed hm =>
      refine ⟨hcur, fun b hb => ?_⟩
      rw [hm, hfree b hb]
      split_ifs <;> rfl
    | reaped hm =>
      refine ⟨hcur, fun b hb => ?_⟩
      rw [hm, hfree b hb]
      split_ifs <;> rfl

theorem step_eq_allocated {call : PoolCall} (hs : p.step call = .ok (q, .allocated (some a))) :
    ∃ now, call = .allocate now ∧ p.allocate now = (q, some a) := by
  cases call with
  | allocate now =>
    simp only [step, Except.ok.injEq, Prod.mk.injEq, PoolOut.allocated.injEq] at hs
    exact ⟨now, rfl, Prod.ext hs.1 hs.2⟩
  | refresh ip now => simp [step] at hs
  | reap order now => simp [step] at hs

/-- Let a reap free `a`, and let `c` be what the next granted allocation gives out. It is
another address exactly if the cursor then comes to a free address before it comes to `a`;
an address that was free before the reap and that the cursor meets first is enough. -/
theorem freed_not_next {r e : Entry LeasePool PoolCall PoolOut} {t : LeasePool}
    {order : IterOrder Ipv4Addr Instant} {now : Instant} {freed : List Ipv4Addr} {c : Ipv4Addr}
    (hr : Run LeasePool.step (new serverIp netmask ttl) (es ++ r :: (ms ++ [e])) t)
    (hreap : r.input = .reap order now) (hfreed : r.out = .reaped freed) (ha : a ∈ freed)
    (hno : ∀ x ∈ ms, ∀ ip, x.out ≠ .allocated (some ip)) (hgot : e.out = .allocated (some c)) :
    (c ≠ a ↔ ∃ b, e.pre.Assignable b ∧ e.pre.isLeased b = false ∧
      e.pre.turns b < e.pre.turns a) ∧
    ∀ b, r.pre.Assignable b → r.pre.isLeased b = false → r.pre.turns b < r.pre.turns a →
      c ≠ a := by
  obtain ⟨p, hr₀, hrest⟩ := hr.split
  obtain ⟨rfl, hs, hrest⟩ := hrest.cons_inv
  obtain ⟨hmid, halloc, -⟩ := hrest.snoc_inv
  have hvalid := (reachable_valid hr₀).1
  -- the reap: `a` was leased, and is free afterwards
  have hreaped : r.pre.Assignable a ∧ r.post.leases.get a = none ∧
      (∀ b, r.pre.leases.get b = none → r.post.leases.get b = none) ∧
      r.post.cursor = r.pre.cursor := by
    rw [hreap, hfreed] at hs
    simp only [step, Except.ok.injEq, Prod.mk.injEq, PoolOut.reaped.injEq] at hs
    obtain ⟨hpost, rfl⟩ := hs
    obtain ⟨m, heq, hm⟩ := reap_eq r.pre order now
    obtain ⟨seen, hseen, -⟩ := (mem_reap r.pre order now a).1 ha
    rw [← hpost, heq]
    refine ⟨hvalid.leased a (by rw [hseen]; rfl), ?_, ?_, rfl⟩
    · rw [hm, if_pos ha]
    · intro b hb
      rw [hm, hb]
      split_ifs <;> rfl
  obtain ⟨hassign, hgone, hkept, hcur⟩ := hreaped
  obtain ⟨hvalid₁, hlim₁⟩ := hvalid.step hs
  obtain ⟨hvalid₂, hlim₂, hcur₂, hkept₂⟩ := ungranted hvalid₁ hmid hno
  have hlim : e.pre.limits = r.pre.limits := hlim₂.trans hlim₁
  have hsame : ∀ b, e.pre.Assignable b ↔ r.pre.Assignable b := by
    intro b
    simp only [limits, Prod.mk.injEq] at hlim
    simp only [Assignable, hlim]
  have hturns : ∀ b, e.pre.turns b = r.pre.turns b := turns_congr (hcur₂.trans hcur) hlim
  -- the allocation takes the first free address
  rw [hgot] at halloc
  have hfirst : e.pre.Assignable c ∧ e.pre.leases.get c = none ∧
      ∀ b, e.pre.Assignable b → e.pre.turns b < e.pre.turns c → (e.pre.leases.get b).isSome := by
    obtain ⟨now', -, heq⟩ := step_eq_allocated halloc
    obtain ⟨hb, hfree, -⟩ := allocate_eq_some hvalid₂ heq
    exact ⟨hb, hfree, allocate_first hvalid₂ heq⟩
  obtain ⟨hc, hcfree, hfirst⟩ := hfirst
  have hahead : ∀ b, e.pre.Assignable b → e.pre.leases.get b = none →
      e.pre.turns b < e.pre.turns a → c ≠ a := by
    rintro b hb hfree hlt rfl
    simpa [hfree] using hfirst b hb hlt
  refine ⟨⟨?_, ?_⟩, ?_⟩
  · intro hne
    refine ⟨c, hc, by rw [isLeased, hcfree]; rfl, ?_⟩
    have hnot : ¬ e.pre.turns a < e.pre.turns c := by
      intro hlt
      simpa [hkept₂ a hgone] using hfirst a ((hsame a).2 hassign) hlt
    have hdiff : e.pre.turns c ≠ e.pre.turns a := fun heq =>
      hne (turns_inj hvalid₂ hc ((hsame a).2 hassign) heq)
    omega
  · rintro ⟨b, hb, hfree, hlt⟩
    exact hahead b hb (by simpa [isLeased] using hfree) hlt
  · intro b hb hfree hlt
    refine hahead b ((hsame b).2 hb) (hkept₂ b (hkept b (by simpa [isLeased] using hfree))) ?_
    rw [hturns, hturns]
    exact hlt

/-- Five addresses are leased in turn and the first of them is refreshed, so that one reap
frees the second, `10.9.0.3`, and the next one the other four. -/
def Sample.wrapped : LeasePool :=
  (new 0x0A090001 0xFFFFFFF8 10).after
    [.allocate 0, .allocate 1, .allocate 2, .allocate 3, .allocate 4, .refresh 0x0A090002 5,
      .reap IterOrder.stored 12]

theorem wrapped_run : ∃ (es : History) (r e : Entry LeasePool PoolCall PoolOut) (t : LeasePool)
    (freed : List Ipv4Addr),
    Run LeasePool.step (new 0x0A090001 0xFFFFFFF8 10) (es ++ r :: ([] ++ [e])) t ∧
    r.pre = Sample.wrapped ∧ r.input = .reap IterOrder.stored 16 ∧ r.out = .reaped freed ∧
    0x0A090002 ∈ freed ∧ 0x0A090005 ∈ freed ∧ e.out = .allocated (some 0x0A090002) := by
  obtain ⟨es, hr⟩ := run_after (new 0x0A090001 0xFFFFFFF8 10)
    [.allocate 0, .allocate 1, .allocate 2, .allocate 3, .allocate 4, .refresh 0x0A090002 5,
      .reap IterOrder.stored 12]
  have hfreed : 0x0A090002 ∈ (Sample.wrapped.reap IterOrder.stored 16).2 ∧
      0x0A090005 ∈ (Sample.wrapped.reap IterOrder.stored 16).2 := by
    decide +kernel
  have hnext : ((Sample.wrapped.reap IterOrder.stored 16).1.allocate 17).2 =
      some 0x0A090002 := by
    decide +kernel
  have hrun := (Run.snoc (i := .reap IterOrder.stored 16) hr rfl).snoc (i := .allocate 17) rfl
  rw [List.append_assoc] at hrun
  exact ⟨es, _, _, _, _, hrun, rfl, rfl, rfl, hfreed.1, hfreed.2, congrArg PoolOut.allocated hnext⟩

theorem wrapped_free : Sample.wrapped.Assignable 0x0A090003 ∧
    Sample.wrapped.isLeased 0x0A090003 = false ∧
    Sample.wrapped.turns 0x0A090003 < Sample.wrapped.turns 0x0A090005 := by
  refine ⟨?_, by decide +kernel, by decide +kernel⟩
  change Sample.wrapped.start ≤ 0x0A090003 ∧ 0x0A090003 ≤ Sample.wrapped.end_ ∧
    0x0A090003 ≠ Sample.wrapped.serverIp
  decide +kernel

/-- The cursor has gone round to the front when the first address is freed, so that address
is next, although `10.9.0.3` has been free for longer. -/
theorem freed_next_at_once : ∃ (es : History) (r e : Entry LeasePool PoolCall PoolOut)
    (t : LeasePool) (order : IterOrder Ipv4Addr Instant) (now : Instant) (freed : List Ipv4Addr)
    (a b : Ipv4Addr),
    Run LeasePool.step (new 0x0A090001 0xFFFFFFF8 10) (es ++ r :: ([] ++ [e])) t ∧
    r.input = .reap order now ∧ r.out = .reaped freed ∧ a ∈ freed ∧
    b ≠ a ∧ r.pre.Assignable b ∧ r.pre.isLeased b = false ∧ e.out = .allocated (some a) := by
  obtain ⟨es, r, e, t, freed, hrun, hpre, hin, hout, hmem, -, hgot⟩ := wrapped_run
  obtain ⟨hassign, hfree, -⟩ := wrapped_free
  rw [← hpre] at hassign hfree
  exact ⟨es, r, e, t, _, _, freed, 0x0A090002, 0x0A090003, hrun, hin, hout, hmem, by decide,
    hassign, hfree, hgot⟩

/-- Of the addresses that the same reap frees, one behind `10.9.0.3` is not next. -/
theorem freed_not_next_behind : ∃ (es : History) (r e : Entry LeasePool PoolCall PoolOut)
    (t : LeasePool) (freed : List Ipv4Addr) (b c : Ipv4Addr),
    Run LeasePool.step (new 0x0A090001 0xFFFFFFF8 10) (es ++ r :: ([] ++ [e])) t ∧
    r.out = .reaped freed ∧ 0x0A090005 ∈ freed ∧ r.pre.isLeased b = false ∧
    r.pre.turns b < r.pre.turns 0x0A090005 ∧ e.out = .allocated (some c) ∧ c ≠ 0x0A090005 := by
  obtain ⟨es, r, e, t, freed, hrun, hpre, hin, hout, -, hmem, hgot⟩ := wrapped_run
  obtain ⟨hassign, hfree, hlt⟩ := wrapped_free
  rw [← hpre] at hassign hfree hlt
  exact ⟨es, r, e, t, freed, 0x0A090003, _, hrun, hout, hmem, hfree, hlt, hgot,
    (freed_not_next hrun hin hout hmem (by simp) hgot).2 _ hassign hfree hlt⟩

end LeasePool

end ShadowVpn
