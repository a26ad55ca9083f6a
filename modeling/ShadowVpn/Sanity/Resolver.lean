import ShadowVpn.Sanity.Cache
import ShadowVpn.Sanity.Hostname
import ShadowVpn.Spec.Resolver

/-! Where an answer of the resolver comes from. Every call, cached entry and saved entry is
traced through the history to the response of an upstream and the decision about it. -/

namespace ShadowVpn

open Lib

/-! Names in lower case. -/

/-- No upper-case letter. -/
def Lower (s : Text) : Prop := ∀ c ∈ s, c.toLower = c

theorem Lower.map_eq {s : Text} (h : Lower s) : s.map Char.toLower = s := by
  rw [List.map_congr_left h, List.map_id']

theorem lower_map (s : Text) : Lower (s.map Char.toLower) := by
  intro c hc
  obtain ⟨a, -, rfl⟩ := List.mem_map.1 hc
  exact Char.toLower_toLower_eq_toLower a

theorem lower_append {s t : Text} : Lower (s ++ t) ↔ Lower s ∧ Lower t := List.forall_mem_append

theorem lower_intercalate {ls : List Text} (h : ∀ l ∈ ls, Lower l) : Lower (['.'].intercalate ls) := by
  induction ls with
  | nil => exact List.forall_mem_nil _
  | cons l ls ih =>
    obtain ⟨hl, hls⟩ := List.forall_mem_cons.1 h
    cases ls with
    | nil => rwa [List.intercalate_singleton]
    | cons l' ls =>
      rw [List.intercalate_cons_cons]
      exact lower_append.2 ⟨lower_append.2 ⟨hl, List.forall_mem_singleton.2 rfl⟩, ih hls⟩

theorem Dns.lower_of_question {msg : Bytes} {k : CacheKey} (h : question msg = some k) : Lower k.1 := by
  rw [question_eq, Option.map_eq_some_iff] at h
  obtain ⟨a, -, rfl⟩ := h
  refine lower_intercalate fun l hl => ?_
  obtain ⟨label, -, rfl⟩ := List.mem_map.1 hl
  exact lower_map _

theorem lower_sanitizeHostname (raw : Text) : Lower (sanitizeHostname raw) := by
  intro c hc
  exact (emit_of_isLabelChar ((isLabel_sanitizeHostname raw).chars c hc)).2.2.2

/-- The suffix that is configured is neither empty nor in upper case. -/
theorem sanitizeSuffix_eq_some {raw suffix : Text} (h : sanitizeSuffix raw = some suffix) :
    suffix ≠ [] ∧ Lower suffix := by
  simp only [sanitizeSuffix] at h
  split_ifs at h with hempty hnone
  cases h
  exact ⟨fun hnil => hnone (List.isEmpty_iff.2 hnil), lower_sanitizeHostname raw⟩

/-! Decisions. -/

/-- What may be decided about a query, and which upstream has to have answered. -/
inductive Decides (p : Resolver) (query : Bytes) : Upstream → Decided → Prop
  | listed (hmode : p.mode ≠ .full) (hmatch : p.matchesName query = true) (r : Bytes) :
      Decides p query .dnsRemote ⟨r, Dns.aRecords r⟩
  | unlisted (hmode : p.mode = .gfwList) (hmatch : p.matchesName query = false) (r : Bytes) :
      Decides p query .dnsLocal ⟨r, []⟩
  | domestic (hmode : p.mode = .chinaDns) (hmatch : p.matchesName query = false) {r : Bytes}
      {ip : Ipv4Addr} (hip : ip ∈ Dns.aRecords r) (hchn : p.chnroute.contains ip = true) :
      Decides p query .dnsLocal ⟨r, []⟩
  | foreign (hmode : p.mode = .chinaDns) (hmatch : p.matchesName query = false) (u : Upstream)
      (r : Bytes) : Decides p query u ⟨r, Dns.aRecords r⟩

/-- A decision goes with the question, and does not look at the id of the response. -/
theorem Decides.replay {p : Resolver} {query query' : Bytes} {u : Upstream} {r : Bytes}
    {ips : List Ipv4Addr} {k : CacheKey} (h : Decides p query' u ⟨r, ips⟩)
    (hkey : Dns.question query = some k) (hkey' : Dns.question query' = some k) :
    Decides p query u ⟨DnsCache.stamp query r, ips⟩ := by
  obtain ⟨-, hname, -⟩ := Dns.question_eq_some hkey
  obtain ⟨-, hname', -⟩ := Dns.question_eq_some hkey'
  have hsame : p.matchesName query' = p.matchesName query := by
    rw [Resolver.matchesName, hname', Resolver.matchesName, hname]
  have hrec := Dns.aRecords_of_sameBody (Dns.sameBody_stamp query r)
  cases h with
  | listed hmode hmatch => exact hrec ▸ .listed hmode (hsame ▸ hmatch) _
  | unlisted hmode hmatch => exact .unlisted hmode (hsame ▸ hmatch) _
  | domestic hmode hmatch hip hchn => exact .domestic hmode (hsame ▸ hmatch) (hrec.symm ▸ hip) hchn
  | foreign hmode hmatch => exact hrec ▸ .foreign hmode (hsame ▸ hmatch) u _

namespace Client

abbrev Trace := List (Entry Client Event Out)

variable {es : Trace} {c c' : Client} {event : Event} {out : Out} {e : Entry Client Event Out}
  {p : Resolver} {id : ℕ} {q r : Bytes} {ip : Ipv4Addr} {u : Upstream} {d : Decided}
  {k : CacheKey} {ips : List Ipv4Addr}

/-- Call `id` is for this query. -/
def Asked (es : Trace) (id : ℕ) (q : Bytes) : Prop :=
  ∃ e ∈ es, e.input = .resolve q ∧ e.pre.next = id

/-- An upstream has answered call `id`. -/
def Received (es : Trace) (id : ℕ) (u : Upstream) (r : Bytes) : Prop :=
  ∃ e ∈ es, e.input = .upstream id u (some r)

/-- Call `id` has passed the address to the sink. -/
def Sunk (es : Trace) (id : ℕ) (ip : Ipv4Addr) : Prop := ∃ e ∈ es, e.out = .sunk id ip

/-- A response was put under the key, as its call had decided under the policy of then. -/
def Stored (es : Trace) (k : CacheKey) (r : Bytes) (ips : List Ipv4Addr) : Prop :=
  ∃ e ∈ es, ∃ id pruned now q u, e.input = .put id pruned now ∧ Asked es id q ∧
    Dns.question q = some k ∧ Received es id u r ∧ Decides e.pre.resolver q u ⟨r, ips⟩

/-- A fresh decision is about a response of the call, and another one was stored for its
question. -/
def Origin (es : Trace) (p : Resolver) (id : ℕ) (q : Bytes) (d : Decided) : Bool → Prop
  | true => ∃ u, Received es id u d.response ∧ Decides p q u d
  | false => ∃ k r, Dns.question q = some k ∧ Stored es k r d.tunnelIps ∧
      d.response = DnsCache.stamp q r

/-- What a call knows at each point. -/
def PhaseOk (es : Trace) (p : Resolver) (id : ℕ) (q : Bytes) : Phase → Prop
  | .lookup => ∀ ip, ¬ Sunk es id ip
  | .forward => (∀ ip, ¬ Sunk es id ip) ∧ p.mode = .full
  | .waiting u tunnel => (∀ ip, ¬ Sunk es id ip) ∧
      ∀ r, Decides p q u ⟨r, if tunnel then Dns.aRecords r else []⟩
  | .racing remoteRes => (∀ ip, ¬ Sunk es id ip) ∧ p.mode = .chinaDns ∧ p.matchesName q = false ∧
      ∀ r, remoteRes = some (some r) → Received es id .dnsRemote r
  | .awaitingRemote localRes => (∀ ip, ¬ Sunk es id ip) ∧ p.mode = .chinaDns ∧
      p.matchesName q = false ∧ ∀ r, localRes = some r → Received es id .dnsLocal r
  | .tunnelling d rest fresh => (∀ ip, ip ∈ d.tunnelIps ↔ Sunk es id ip ∨ ip ∈ rest) ∧
      Origin es p id q d fresh

/-- Only in full mode does a call return a response before its addresses are passed on. -/
def NextOk (es : Trace) (p : Resolver) (id : ℕ) (q : Bytes) : Next → Prop
  | .go phase => PhaseOk es p id q phase
  | .done response => p.mode = .full ∨ response = none

theorem NextOk.go {next : Next} (h : NextOk es p id q next) (phase : Phase)
    (hnext : next = .go phase) : PhaseOk es p id q phase := by
  rw [hnext] at h
  exact h

structure CallOk (es : Trace) (p : Resolver) (id : ℕ) (call : Call) : Prop where
  asked : ∀ q, Asked es id q ↔ q = call.query
  phase : PhaseOk es p id call.query call.phase

/-- Every call under way, every cached and every saved entry is accounted for. -/
structure Tracked (es : Trace) (c : Client) : Prop where
  asked_lt : ∀ id q, Asked es id q → id < c.next
  sunk_lt : ∀ id ip, Sunk es id ip → id < c.next
  calls : ∀ id call, c.calls.get id = some call → CallOk es c.resolver id call
  cached : ∀ k v, c.host.cache.map.get k = some v → Stored es k v.response v.tunnelIps
  saved : ∀ file, c.host.file = some file → ∀ s ∈ file.snapshot,
    Stored es s.key s.response s.tunnelIps

/-! The history grows. -/

theorem asked_snoc :
    Asked (es ++ [e]) id q ↔ Asked es id q ∨ (e.input = .resolve q ∧ e.pre.next = id) := by
  simp [Asked, or_and_right, exists_or]

theorem sunk_snoc : Sunk (es ++ [e]) id ip ↔ Sunk es id ip ∨ e.out = .sunk id ip := by
  simp [Sunk, or_and_right, exists_or]

theorem sunk_keep (hout : ∀ ip, e.out ≠ .sunk id ip) (ip : Ipv4Addr) :
    Sunk (es ++ [e]) id ip ↔ Sunk es id ip :=
  sunk_snoc.trans (or_iff_left (hout ip))

theorem received_snoc :
    Received (es ++ [e]) id u r ↔ Received es id u r ∨ e.input = .upstream id u (some r) := by
  simp [Received, or_and_right, exists_or]

theorem Received.keep (h : Received es id u r) : Received (es ++ [e]) id u r :=
  received_snoc.2 (Or.inl h)

theorem Stored.keep (h : Stored es k r ips) : Stored (es ++ [e]) k r ips := by
  obtain ⟨f, hf, id, pruned, now, q, u, hput, hask, hkey, hrec, hdec⟩ := h
  exact ⟨f, List.mem_append_left _ hf, id, pruned, now, q, u, hput, asked_snoc.2 (Or.inl hask), hkey,
    hrec.keep, hdec⟩

theorem Origin.keep {fresh : Bool} (h : Origin es p id q d fresh) :
    Origin (es ++ [e]) p id q d fresh := by
  cases fresh with
  | true =>
    obtain ⟨u, hrec, hdec⟩ := h
    exact ⟨u, hrec.keep, hdec⟩
  | false =>
    obtain ⟨k, r, hkey, hstored, hr⟩ := h
    exact ⟨k, r, hkey, hstored.keep, hr⟩

theorem PhaseOk.keep {phase : Phase} (h : PhaseOk es p id q phase) (hout : ∀ ip, e.out ≠ .sunk id ip) :
    PhaseOk (es ++ [e]) p id q phase := by
  have hsunk : ∀ ip, Sunk (es ++ [e]) id ip ↔ Sunk es id ip := sunk_keep hout
  cases phase with
  | lookup => simpa only [PhaseOk, hsunk] using h
  | forward => simpa only [PhaseOk, hsunk] using h
  | waiting u tunnel => simpa only [PhaseOk, hsunk] using h
  | racing remoteRes =>
    obtain ⟨hnone, hmode, hmatch, hres⟩ := h
    exact ⟨by simpa only [hsunk] using hnone, hmode, hmatch, fun r hr => (hres r hr).keep⟩
  | awaitingRemote localRes =>
    obtain ⟨hnone, hmode, hmatch, hres⟩ := h
    exact ⟨by simpa only [hsunk] using hnone, hmode, hmatch, fun r hr => (hres r hr).keep⟩
  | tunnelling d rest fresh =>
    obtain ⟨hips, horigin⟩ := h
    exact ⟨by simpa only [hsunk] using hips, horigin.keep⟩

theorem CallOk.keep_asked {call : Call} (h : CallOk es p id call)
    (hask : ∀ q, e.input = .resolve q → e.pre.next ≠ id) (q : Bytes) :
    Asked (es ++ [e]) id q ↔ q = call.query := by
  rw [asked_snoc, h.asked q, or_iff_left]
  rintro ⟨hq, hid⟩
  exact hask q hq hid

theorem CallOk.keep {call : Call} (h : CallOk es p id call)
    (hask : ∀ q, e.input = .resolve q → e.pre.next ≠ id) (hout : ∀ ip, e.out ≠ .sunk id ip) :
    CallOk (es ++ [e]) p id call :=
  ⟨h.keep_asked hask, h.phase.keep hout⟩

/-! What the decisions know. -/

theorem nextOk_decided (hsunk : ∀ ip, ¬ Sunk es id ip) (hrec : Received es id u r)
    (hdec : Decides p q u ⟨r, ips⟩) : NextOk es p id q (Decided.next ⟨r, ips⟩) :=
  ⟨fun ip => (or_iff_right (hsunk ip)).symm, u, hrec, hdec⟩

theorem nextOk_ask (hsunk : ∀ ip, ¬ Sunk es id ip) : NextOk es p id q (p.ask q) := by
  unfold Resolver.ask
  cases hmode : p.mode with
  | full => exact Or.inl hmode
  | gfwList =>
    refine ⟨hsunk, fun r => ?_⟩
    cases hmatch : p.matchesName q with
    | true => exact .listed (by simp [hmode]) hmatch r
    | false => exact .unlisted hmode hmatch r
  | chinaDns =>
    dsimp only
    split_ifs with hmatch
    · exact ⟨hsunk, fun r => .listed (by simp [hmode]) hmatch r⟩
    · exact ⟨hsunk, hmode, Bool.eq_false_iff.2 hmatch, fun r hr => by cases hr⟩

theorem nextOk_settle {remoteRes localRes : Option Bytes} (hsunk : ∀ ip, ¬ Sunk es id ip)
    (hmode : p.mode = .chinaDns) (hmatch : p.matchesName q = false)
    (hremote : ∀ r, remoteRes = some r → Received es id .dnsRemote r)
    (hlocal : ∀ r, localRes = some r → Received es id .dnsLocal r) :
    NextOk es p id q (settle remoteRes localRes) := by
  unfold settle
  cases remoteRes with
  | some r => exact nextOk_decided hsunk (hremote r rfl) (.foreign hmode hmatch _ r)
  | none =>
    cases localRes with
    | some r => exact nextOk_decided hsunk (hlocal r rfl) (.foreign hmode hmatch _ r)
    | none => exact Or.inr rfl

theorem nextOk_settleLocal {remoteRes : Option (Option Bytes)} {localRes : Option Bytes}
    (hsunk : ∀ ip, ¬ Sunk es id ip) (hmode : p.mode = .chinaDns) (hmatch : p.matchesName q = false)
    (hremote : ∀ r, remoteRes = some (some r) → Received es id .dnsRemote r)
    (hlocal : ∀ r, localRes = some r → Received es id .dnsLocal r) :
    NextOk es p id q (p.settleLocal remoteRes localRes) := by
  unfold Resolver.settleLocal
  dsimp only
  split
  next response hdecision =>
    -- a domestic answer has an address of the ranges
    unfold chinadnsDecision at hdecision
    split_ifs at hdecision with hany
    obtain ⟨ip, hip, hchn⟩ := List.any_eq_true.1 hany
    exact nextOk_decided hsunk (hlocal response rfl) (.domestic hmode hmatch hip hchn)
  next =>
    cases remoteRes with
    | none => exact ⟨hsunk, hmode, hmatch, hlocal⟩
    | some remoteRes =>
      exact nextOk_settle hsunk hmode hmatch (fun r hr => hremote r (congrArg some hr)) hlocal

theorem PhaseOk.receive {phase : Phase} {res : Option Bytes} {next : Next}
    (h : PhaseOk es p id q phase) (hres : ∀ r, res = some r → Received es id u r)
    (hnext : phase.receive p u res = some next) : NextOk es p id q next := by
  unfold Phase.receive at hnext
  split at hnext
  · cases hnext
    exact Or.inl h.2
  · obtain ⟨hsunk, hdec⟩ := h
    split at hnext
    next hu =>
      subst hu
      cases res with
      | none =>
        cases hnext
        exact Or.inr rfl
      | some r =>
        cases hnext
        exact nextOk_decided hsunk (hres r rfl) (hdec r)
    next => cases hnext
  · cases hnext
    obtain ⟨hsunk, hmode, hmatch, -⟩ := h
    exact ⟨hsunk, hmode, hmatch, fun r hr => hres r (Option.some.inj hr)⟩
  · cases hnext
    obtain ⟨hsunk, hmode, hmatch, hremote⟩ := h
    exact nextOk_settleLocal hsunk hmode hmatch hremote hres
  · cases hnext
    obtain ⟨hsunk, hmode, hmatch, hlocal⟩ := h
    exact nextOk_settle hsunk hmode hmatch hres hlocal
  · cases hnext

/-! What a step can do. -/

theorem proceed_resolver (c : Client) (id : ℕ) (q : Bytes) (next : Next) :
    (c.proceed id q next).1.resolver = c.resolver := by
  cases next <;> rfl

theorem proceed_next (c : Client) (id : ℕ) (q : Bytes) (next : Next) :
    (c.proceed id q next).1.next = c.next := by
  cases next <;> rfl

theorem proceed_not_sunk (c : Client) (id : ℕ) (q : Bytes) (next : Next) (id' : ℕ) (ip : Ipv4Addr) :
    (c.proceed id q next).2 ≠ .sunk id' ip := by
  cases next <;> exact Out.noConfusion

inductive Steps (c : Client) : Event → Client × Out → Prop
  | magic {query response : Bytes} (h : c.answerMagic query = some response) :
      Steps c (.resolve query) ({ c with next := c.next + 1 }, .returned c.next (some response))
  | start {query : Bytes} (h : c.answerMagic query = none) :
      Steps c (.resolve query) ({ c with
        calls := c.calls.insert c.next
          ⟨query, if c.resolver.mode = .full then .forward else .lookup⟩
        next := c.next + 1 }, .quiet)
  | hit {id : ℕ} {now : Instant} {query response : Bytes} {ips : List Ipv4Addr}
      (hcall : c.calls.get id = some ⟨query, .lookup⟩)
      (h : (c.host.cache.get query now).2 = some (response, ips)) :
      Steps c (.get id now) ((c.setCache (c.host.cache.get query now).1).proceed id query
        (.go (.tunnelling ⟨response, ips⟩ ips false)))
  | miss {id : ℕ} {now : Instant} {query : Bytes}
      (hcall : c.calls.get id = some ⟨query, .lookup⟩) :
      Steps c (.get id now) ((c.setCache (c.host.cache.get query now).1).proceed id query
        (c.resolver.ask query))
  | receive {id : ℕ} {call : Call} {server : Upstream} {res : Option Bytes} {next : Next}
      (hcall : c.calls.get id = some call)
      (h : call.phase.receive c.resolver server res = some next) :
      Steps c (.upstream id server res) (c.proceed id call.query next)
  | sink {id : ℕ} {query : Bytes} {d : Decided} {ip : Ipv4Addr} {rest : List Ipv4Addr}
      {fresh : Bool} (hcall : c.calls.get id = some ⟨query, .tunnelling d (ip :: rest) fresh⟩) :
      Steps c (.sink id)
        ({ c with calls := c.calls.insert id ⟨query, .tunnelling d rest fresh⟩ }, .sunk id ip)
  | put {id : ℕ} {query : Bytes} {d : Decided} {pruned now : Instant} {cache : DnsCache}
      (hcall : c.calls.get id = some ⟨query, .tunnelling d [] true⟩)
      (h : c.host.cache.put query d.response d.tunnelIps pruned now = .ok cache) :
      Steps c (.put id pruned now)
        ((c.setCache cache).proceed id query (.done (some d.response)))
  | ret {id : ℕ} {query : Bytes} {d : Decided}
      (hcall : c.calls.get id = some ⟨query, .tunnelling d [] false⟩) :
      Steps c (.ret id) (c.proceed id query (.done (some d.response)))
  | peers {push : List PeerEntry} {magic : Option MagicDns} :
      Steps c (.peers push) ({ c with magic := magic }, .quiet)
  | save {order : IterOrder CacheKey CacheEntry} {write : CacheHost.Write} {now : Instant}
      {host : CacheHost} {out : CacheHost.Out}
      (h : c.host.step (.save order write now) = .ok (host, out)) :
      Steps c (.save order write now) ({ c with host := host }, .quiet)
  | restart {resolver : Resolver} {suffix : Option Text} {now : Instant} {host : CacheHost}
      {magic : Option MagicDns} {out : CacheHost.Out}
      (h : c.host.step (.restart now) = .ok (host, out)) :
      Steps c (.restart resolver suffix now) (⟨resolver, magic, host, ∅, c.next⟩, .quiet)

theorem steps_of_step {post : Client × Out} (hs : step c event = .ok post) : Steps c event post := by
  cases event with
  | resolve query =>
    cases h : c.answerMagic query with
    | some response =>
      simp only [step, h] at hs
      cases hs
      exact .magic h
    | none =>
      simp only [step, h] at hs
      cases hs
      exact .start h
  | get id now =>
    simp only [step] at hs
    split at hs
    next query hcall =>
      split at hs
      next response ips h =>
        cases hs
        exact .hit hcall h
      next =>
        cases hs
        exact .miss hcall
    next => cases hs
  | upstream id server res =>
    simp only [step] at hs
    split at hs
    next call hcall =>
      split at hs
      next next h =>
        cases hs
        exact .receive hcall h
      next => cases hs
    next => cases hs
  | sink id =>
    simp only [step] at hs
    split at hs
    next hcall =>
      cases hs
      exact .sink hcall
    next => cases hs
  | put id pruned now =>
    simp only [step] at hs
    split at hs
    next hcall =>
      split at hs
      next => cases hs
      next h =>
        cases hs
        exact .put hcall h
    next => cases hs
  | ret id =>
    simp only [step] at hs
    split at hs
    next hcall =>
      cases hs
      exact .ret hcall
    next => cases hs
  | peers push =>
    cases hs
    exact .peers
  | save order write now =>
    simp only [step] at hs
    split at hs
    next => cases hs
    next h =>
      cases hs
      exact .save h
  | restart resolver suffix now =>
    simp only [step] at hs
    split at hs
    next => cases hs
    next h =>
      cases hs
      exact .restart h

theorem step_miss {now : Instant} {phase : Phase} (hcall : c.calls.get id = some ⟨q, .lookup⟩)
    (hget : (c.host.cache.get q now).2 = none) (hask : c.resolver.ask q = .go phase) :
    step c (.get id now) = .ok ({ c.setCache (c.host.cache.get q now).1 with
      calls := c.calls.insert id ⟨q, phase⟩ }, .quiet) := by
  simp only [step, hcall, hget, hask]
  rfl

/-- The last step of a call with a fresh answer. -/
theorem step_put {pruned now : Instant} {t : Duration}
    (hcall : c.calls.get id = some ⟨q, .tunnelling d [] true⟩) (hkey : Dns.question q = some k)
    (hlife : DnsCache.lifetime d.response = t) (hend : now + t < INSTANT_END) :
    step c (.put id pruned now) = .ok ((c.setCache ⟨(c.host.cache.makeRoom k pruned).insert k
      ⟨d.response, d.tunnelIps, now + t⟩⟩).proceed id q (.done (some d.response))) := by
  simp only [step, hcall, DnsCache.put_of_question c.host.cache hkey hlife hend]

/-- Only a restart changes the configuration. -/
theorem Steps.resolver_eq {post : Client × Out} (hs : Steps c event post)
    (hone : ∀ resolver suffix now, event ≠ .restart resolver suffix now) :
    post.1.resolver = c.resolver := by
  cases hs with
  | magic => rfl
  | start => rfl
  | hit => rfl
  | miss => exact proceed_resolver _ _ _ _
  | receive => exact proceed_resolver _ _ _ _
  | sink => rfl
  | put => rfl
  | ret => rfl
  | peers => rfl
  | save => rfl
  | restart => exact absurd rfl (hone _ _ _)

/-- How many numbers an event takes. -/
def Event.asks : Event → ℕ
  | .resolve _ => 1
  | _ => 0

theorem Steps.next_eq {post : Client × Out} (hs : Steps c event post) :
    post.1.next = c.next + event.asks := by
  cases hs with
  | magic => rfl
  | start => rfl
  | hit => rfl
  | miss => exact proceed_next _ _ _ _
  | receive => exact proceed_next _ _ _ _
  | sink => rfl
  | put => rfl
  | ret => rfl
  | peers => rfl
  | save => rfl
  | restart => rfl

/-- Only a call under way passes an address on. -/
theorem Steps.call_of_sunk {post : Client × Out} (hs : Steps c event post)
    (hout : post.2 = .sunk id ip) : ∃ call, c.calls.get id = some call := by
  cases hs with
  | magic => cases hout
  | start => cases hout
  | hit => cases hout
  | miss => exact absurd hout (proceed_not_sunk _ _ _ _ _ _)
  | receive => exact absurd hout (proceed_not_sunk _ _ _ _ _ _)
  | sink hcall =>
    cases hout
    exact ⟨_, hcall⟩
  | put => cases hout
  | ret => cases hout
  | peers => cases hout
  | save => cases hout
  | restart => cases hout

theorem resolver_of_run {magic : Option MagicDns} (hrun : Run step (.new p magic) es c)
    (hone : ∀ e ∈ es, ∀ resolver suffix now, e.input ≠ .restart resolver suffix now) :
    c.resolver = p ∧ ∀ e ∈ es, e.pre.resolver = p := by
  induction hrun with
  | nil => exact ⟨rfl, fun _ he => by cases he⟩
  | snoc _ hs ih =>
    rw [List.forall_mem_append, List.forall_mem_singleton] at hone
    obtain ⟨heq, hall⟩ := ih hone.1
    refine ⟨((steps_of_step hs).resolver_eq hone.2).trans heq, ?_⟩
    rw [List.forall_mem_append, List.forall_mem_singleton]
    exact ⟨hall, heq⟩

/-! Every step keeps track. -/

theorem tracked_new (p : Resolver) (magic : Option MagicDns) : Tracked [] (.new p magic) where
  asked_lt := by simp [Asked]
  sunk_lt := by simp [Sunk]
  calls := fun _ _ hcall => by cases hcall
  cached := fun _ _ hv => by cases hv
  saved := fun _ hfile => by cases hfile

namespace Tracked

variable {post : Client × Out}

theorem call_lt (h : Tracked es c) {call : Call} (hcall : c.calls.get id = some call) :
    id < c.next :=
  h.asked_lt id call.query (((h.calls id call hcall).asked _).2 rfl)

/-- Numbers stay below the next one. -/
theorem asked_lt_snoc (h : Tracked es c) (hs : Steps c event post) (id : ℕ) (q : Bytes)
    (ha : Asked (es ++ [⟨c, event, post.2, post.1⟩]) id q) : id < post.1.next := by
  rw [hs.next_eq]
  rcases asked_snoc.1 ha with hold | ⟨rfl, rfl⟩
  · exact Nat.lt_add_right _ (h.asked_lt id q hold)
  · exact Nat.lt_succ_self _

theorem sunk_lt_snoc (h : Tracked es c) (hs : Steps c event post) (id : ℕ) (ip : Ipv4Addr)
    (hsunk : Sunk (es ++ [⟨c, event, post.2, post.1⟩]) id ip) : id < post.1.next := by
  rw [hs.next_eq]
  apply Nat.lt_add_right
  rcases sunk_snoc.1 hsunk with hold | hnew
  · exact h.sunk_lt id ip hold
  · obtain ⟨call, hcall⟩ := hs.call_of_sunk hnew
    exact h.call_lt hcall

/-- A step that passes nothing on leaves the other calls as they were. -/
theorem keep_call (h : Tracked es c) (hpre : e.pre = c) (hout : ∀ id ip, e.out ≠ .sunk id ip)
    {call : Call} (hcall : c.calls.get id = some call) : CallOk (es ++ [e]) c.resolver id call := by
  refine (h.calls id call hcall).keep (fun q _ hid => ?_) (hout id)
  rw [hpre] at hid
  exact Nat.ne_of_gt (h.call_lt hcall) hid

theorem keep_cached (h : Tracked es c) (k : CacheKey) (v : CacheEntry)
    (hv : c.host.cache.map.get k = some v) : Stored (es ++ [e]) k v.response v.tunnelIps :=
  (h.cached k v hv).keep

theorem keep_saved (h : Tracked es c) (file : CacheFile) (hfile : c.host.file = some file)
    (s : SnapEntry) (hs : s ∈ file.snapshot) : Stored (es ++ [e]) s.key s.response s.tunnelIps :=
  (h.saved file hfile s hs).keep

/-- A call goes on, or returns. -/
theorem proceed {cache : DnsCache} {call : Call} {next : Next} (h : Tracked es c)
    (hs : Steps c event post) (hcall : c.calls.get id = some call)
    (hpost : post = (c.setCache cache).proceed id call.query next)
    (hcached : ∀ k v, cache.map.get k = some v →
      Stored (es ++ [⟨c, event, post.2, post.1⟩]) k v.response v.tunnelIps)
    (hnext : ∀ phase, next = .go phase →
      PhaseOk (es ++ [⟨c, event, post.2, post.1⟩]) c.resolver id call.query phase) :
    Tracked (es ++ [⟨c, event, post.2, post.1⟩]) post.1 := by
  have hkeep : ∀ id' call', c.calls.get id' = some call' →
      CallOk (es ++ [⟨c, event, post.2, post.1⟩]) c.resolver id' call' := by
    intro id' call' hcall'
    refine h.keep_call rfl (fun id ip => ?_) hcall'
    rw [hpost]
    exact proceed_not_sunk _ _ _ _ _ _
  have hasked := h.asked_lt_snoc hs
  have hsunk := h.sunk_lt_snoc hs
  have hsaved := h.keep_saved (e := ⟨c, event, post.2, post.1⟩)
  generalize es ++ [⟨c, event, post.2, post.1⟩] = fs at *
  subst hpost
  cases next with
  | go phase =>
    refine ⟨hasked, hsunk, fun id' call' hcall' => ?_, hcached, hsaved⟩
    simp only [Client.proceed, HashMap.get_insert] at hcall'
    split_ifs at hcall' with hid
    · cases hcall'
      subst hid
      exact ⟨(hkeep _ call hcall).asked, hnext phase rfl⟩
    · exact hkeep id' call' hcall'
  | done response =>
    refine ⟨hasked, hsunk, fun id' call' hcall' => ?_, hcached, hsaved⟩
    simp only [Client.proceed, HashMap.get_erase] at hcall'
    split_ifs at hcall'
    exact hkeep id' call' hcall'

theorem of_steps (h : Tracked es c) (hs : Steps c event post) :
    Tracked (es ++ [⟨c, event, post.2, post.1⟩]) post.1 := by
  have hasked := h.asked_lt_snoc hs
  have hsunk := h.sunk_lt_snoc hs
  have hstep := hs
  cases hs with
  | magic =>
    exact ⟨hasked, hsunk, fun _ _ => h.keep_call rfl fun _ _ => Out.noConfusion, h.keep_cached,
      h.keep_saved⟩
  | @start query =>
    refine ⟨hasked, hsunk, fun id call hcall => ?_, h.keep_cached, h.keep_saved⟩
    rw [HashMap.get_insert] at hcall
    split at hcall
    next hid =>
      -- the number is new, so nothing was asked or passed on under it
      cases hcall
      subst hid
      have hnone : ∀ ip, ¬ Sunk es c.next ip := fun ip hold => Nat.lt_irrefl _ (h.sunk_lt _ ip hold)
      refine ⟨fun q => ?_, PhaseOk.keep ?_ fun _ => Out.noConfusion⟩
      · rw [asked_snoc, or_iff_right fun ha => Nat.lt_irrefl _ (h.asked_lt _ q ha)]
        simp [eq_comm]
      · dsimp only
        split_ifs with hfull
        · exact ⟨hnone, hfull⟩
        · exact hnone
    next => exact h.keep_call rfl (fun _ _ => Out.noConfusion) hcall
  | @hit id now query response ips hcall hget =>
    obtain ⟨k, v, hkey, hv, -, heq⟩ := DnsCache.get_eq_some hget
    cases heq
    refine h.proceed hstep hcall rfl (fun k v hv => h.keep_cached k v (DnsCache.of_get hv))
      (NextOk.go ?_)
    have hnone : ∀ ip, ¬ Sunk es id ip := (h.calls id _ hcall).phase
    refine ⟨fun ip => ?_, k, v.response, hkey, h.keep_cached k v hv, rfl⟩
    rw [sunk_keep (proceed_not_sunk _ _ _ _ _), or_iff_right (hnone ip)]
  | @miss id now query hcall =>
    refine h.proceed hstep hcall rfl (fun k v hv => h.keep_cached k v (DnsCache.of_get hv))
      (nextOk_ask fun ip => ?_).go
    rw [sunk_keep (proceed_not_sunk _ _ _ _ _)]
    exact (h.calls id _ hcall).phase ip
  | @receive id call server res next hcall hres =>
    refine h.proceed hstep hcall rfl h.keep_cached (PhaseOk.receive ?_ ?_ hres).go
    · exact (h.calls id call hcall).phase.keep (proceed_not_sunk _ _ _ _ _)
    · rintro r rfl
      exact received_snoc.2 (Or.inr rfl)
  | @sink id query d ip rest fresh hcall =>
    refine ⟨hasked, hsunk, fun id' call hcall' => ?_, h.keep_cached, h.keep_saved⟩
    rw [HashMap.get_insert] at hcall'
    split_ifs at hcall' with hid
    · cases hcall'
      subst hid
      have hok := h.calls _ _ hcall
      obtain ⟨hips, horigin⟩ := hok.phase
      refine ⟨hok.keep_asked fun _ => Event.noConfusion, fun ip' => ?_, horigin.keep⟩
      rw [hips ip', sunk_snoc, List.mem_cons, or_assoc]
      simp [eq_comm]
    · refine (h.calls id' call hcall').keep (fun _ => Event.noConfusion) fun _ hout => ?_
      cases hout
      exact hid rfl
  | @put id query d pruned now cache hcall hput =>
    refine h.proceed hstep hcall rfl (fun k v hv => ?_) (fun _ => Next.noConfusion)
    rcases DnsCache.of_put hput hv with ⟨hkey, rfl⟩ | hold
    · have hok := h.calls id _ hcall
      obtain ⟨u, hrec, hdec⟩ := hok.phase.2
      exact ⟨_, List.mem_append_right _ List.mem_cons_self, id, pruned, now, query, u, rfl,
        asked_snoc.2 (Or.inl ((hok.asked _).2 rfl)), hkey, hrec.keep, hdec⟩
    · exact h.keep_cached k v hold
  | ret hcall => exact h.proceed hstep hcall rfl h.keep_cached (fun _ => Next.noConfusion)
  | peers =>
    exact ⟨hasked, hsunk, fun _ _ => h.keep_call rfl fun _ _ => Out.noConfusion, h.keep_cached,
      h.keep_saved⟩
  | @save order write now host out hsave =>
    cases hsave
    refine ⟨hasked, hsunk, fun _ _ => h.keep_call rfl fun _ _ => Out.noConfusion, h.keep_cached, ?_⟩
    cases write with
    | written =>
      intro file hfile s hs
      cases hfile
      obtain ⟨v, hv, hr, hi, -⟩ := DnsCache.of_save hs
      rw [hr, hi]
      exact h.keep_cached s.key v hv
    | failed => exact h.keep_saved
    | torn =>
      intro file hfile
      cases hfile
  | restart hrestart =>
    obtain ⟨r, hload, heq⟩ := bind_eq_ok.1 hrestart
    cases heq
    refine ⟨hasked, hsunk, fun id call hcall => ?_, fun k v hv => ?_, h.keep_saved⟩
    · cases hcall
    · obtain ⟨ss, hss, s, hs, rfl, rfl⟩ := DnsCache.of_load hload hv
      obtain ⟨file, hfile, rfl⟩ := Option.map_eq_some_iff.1 hss
      exact h.keep_saved file hfile s hs

end Tracked

theorem run_tracked {magic : Option MagicDns} (hrun : Run step (.new p magic) es c) :
    Tracked es c := by
  induction hrun with
  | nil => exact tracked_new p magic
  | snoc _ hs ih => exact ih.of_steps (steps_of_step hs)

/-- Before a call returns a response it passes on the addresses of the decision, and no
others. -/
theorem Tracked.of_returned {post : Client × Out} (h : Tracked es c) (hs : Steps c event post)
    (hout : post.2 = .returned id (some r)) (hask : Asked es id q) (hmode : c.resolver.mode ≠ .full) :
    ∃ d fresh, d.response = r ∧ (∀ ip, ip ∈ d.tunnelIps ↔ Sunk es id ip) ∧
      Origin es c.resolver id q d fresh := by
  -- a decision that is not passed on yet returns nothing
  have hearly : ∀ {fs : Trace} {cache id' query next}, NextOk fs c.resolver id' query next →
      ((c.setCache cache).proceed id' query next).2 ≠ .returned id (some r) := by
    intro fs cache id' query next hnext hret
    cases next with
    | go phase => cases hret
    | done response =>
      cases hret
      rcases hnext with hfull | hnone
      · exact hmode hfull
      · cases hnone
  have hdone : ∀ {d fresh query}, c.calls.get id = some ⟨query, .tunnelling d [] fresh⟩ →
      d.response = r → ∃ d fresh, d.response = r ∧ (∀ ip, ip ∈ d.tunnelIps ↔ Sunk es id ip) ∧
        Origin es c.resolver id q d fresh := by
    intro d fresh query hcall hr
    have hok := h.calls id _ hcall
    cases (hok.asked q).1 hask
    refine ⟨d, fresh, hr, fun ip => ?_, hok.phase.2⟩
    rw [hok.phase.1 ip, or_iff_left List.not_mem_nil]
  cases hs with
  | magic hmagic =>
    cases hout
    exact absurd (h.asked_lt _ q hask) (Nat.lt_irrefl _)
  | start hmagic => cases hout
  | hit hcall hget => cases hout
  | miss hcall => exact absurd hout (hearly (nextOk_ask (h.calls _ _ hcall).phase))
  | @receive id' call server res next hcall hres =>
    let e : Entry Client Event Out := ⟨c, .upstream id' server res, .quiet, c⟩
    have hphase : PhaseOk (es ++ [e]) c.resolver id' call.query call.phase :=
      (h.calls id' call hcall).phase.keep fun _ hsunk => by cases hsunk
    refine absurd hout (hearly (hphase.receive ?_ hres))
    rintro r rfl
    exact received_snoc.2 (Or.inr rfl)
  | sink hcall => cases hout
  | put hcall hput =>
    cases hout
    exact hdone hcall rfl
  | ret hcall =>
    cases hout
    exact hdone hcall rfl
  | peers => cases hout
  | save hsave => cases hout
  | restart hrestart => cases hout

/-- A response that is returned was received by a call for the question, and decided on under
one of the policies of the history. -/
theorem Origin.received {D : Upstream → Decided → Prop} {fresh : Bool}
    (h : Origin es p id q d fresh) (hself : ∀ u d, Decides p q u d → D u d)
    (hputs : ∀ e ∈ es, ∀ id' pruned now q', e.input = .put id' pruned now → Asked es id' q' →
      Dns.question q' = Dns.question q → ∀ u d, Decides e.pre.resolver q u d → D u d) :
    ∃ u, D u d ∧ (Received es id u d.response ∨ ∃ k id' q' r, Dns.question q = some k ∧
      Asked es id' q' ∧ Dns.question q' = some k ∧ Received es id' u r ∧
      d.response = DnsCache.stamp q r) := by
  cases fresh with
  | true =>
    obtain ⟨u, hrec, hdec⟩ := h
    exact ⟨u, hself u d hdec, Or.inl hrec⟩
  | false =>
    obtain ⟨k, r, hkey, ⟨e, he, id', pruned, now, q', u, hput, hask, hkey', hrec, hdec⟩, hr⟩ := h
    refine ⟨u, ?_, Or.inr ⟨k, id', q', r, hkey, hask, hkey', hrec, hr⟩⟩
    apply hputs e he id' pruned now q' hput hask (hkey'.trans hkey.symm)
    have hd : d = ⟨DnsCache.stamp q r, d.tunnelIps⟩ := by rw [← hr]
    rw [hd]
    exact hdec.replay hkey hkey'

end Client

end ShadowVpn
