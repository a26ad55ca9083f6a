import ShadowVpn.Proofs.Cache
import ShadowVpn.Sanity.Resolver

/-! The split-DNS resolver: which upstream an answer is from and which addresses go to the
sink, within one process and after a restart; the names that never reach an upstream; and
the source ports of its own queries. -/

namespace ShadowVpn

open Lib

namespace Sample

def addressReply (query : Bytes) (ip : Ipv4Addr) : Bytes :=
  query.take 2 ++ [0x81, 0x80, 0, 1, 0, 1] ++ query.drop 8 ++ Dns.answerRecord 60 (.v4 ip)

def listA : GfwList := ⟨(∅ : HashSet Text).insert ['a'] ()⟩

def gfwResolver (gfwlist : GfwList) : Resolver := ⟨.gfwList, gfwlist, ⟨[]⟩⟩

end Sample

namespace Client

variable {es : Trace} {c c' : Client} {event : Event} {p : Resolver} {magic : Option MagicDns}
  {id : ℕ} {q r : Bytes} {u : Upstream}

/-- The response was received from the upstream up to its id: by this call, or by a call for
the same question. -/
def ReceivedFor (es : Trace) (id : ℕ) (q : Bytes) (u : Upstream) (r : Bytes) : Prop :=
  Received es id u r ∨ ∃ id' q' r', Asked es id' q' ∧ (Dns.question q).isSome ∧
    Dns.question q' = Dns.question q ∧ Received es id' u r' ∧ CacheHost.Stamped q r' r

theorem returned_decided {D : Upstream → Decided → Prop} (hrun : Run step (.new p magic) es c)
    (hs : step c event = .ok (c', .returned id (some r))) (hask : Asked es id q)
    (hmode : c.resolver.mode ≠ .full) (hself : ∀ u d, Decides c.resolver q u d → D u d)
    (hputs : ∀ e ∈ es, ∀ id' pruned now q', e.input = .put id' pruned now → Asked es id' q' →
      Dns.question q' = Dns.question q → ∀ u d, Decides e.pre.resolver q u d → D u d) :
    ∃ u ips, D u ⟨r, ips⟩ ∧ ReceivedFor es id q u r ∧ ∀ ip, ip ∈ ips ↔ Sunk es id ip := by
  obtain ⟨d, fresh, rfl, hips, horigin⟩ :=
    (run_tracked hrun).of_returned (steps_of_step hs) rfl hask hmode
  obtain ⟨u, hd, hrec⟩ := horigin.received hself hputs
  refine ⟨u, d.tunnelIps, hd, ?_, hips⟩
  rcases hrec with hown | ⟨k, id', q', r', hkey, hask', hkey', hrec, hr⟩
  · exact Or.inl hown
  · refine Or.inr ⟨id', q', r', hask', by rw [hkey]; rfl, hkey'.trans hkey.symm, hrec, ?_⟩
    rw [hr]
    exact CacheHost.stamped_stamp hkey r'

/-- Within one process that starts with an empty cache: a name of the list is answered by the
remote upstream and its addresses are passed on, any other name is answered by the local one
and nothing is passed on; and where both are asked, an address is left out only of a local
answer with a domestic address. A query that Magic DNS answers returns as it is asked, and so
is none of those asked before. -/
theorem split_dns_coherent (hrun : Run step (.new p magic) es c)
    (hone : ∀ e ∈ es, ∀ resolver suffix now, e.input ≠ .restart resolver suffix now)
    (hs : step c event = .ok (c', .returned id (some r))) (hask : Asked es id q) :
    (p.mode = .gfwList →
      (p.matchesName q = true →
        ReceivedFor es id q .dnsRemote r ∧ ∀ ip ∈ Dns.aRecords r, Sunk es id ip) ∧
      (p.matchesName q = false → ReceivedFor es id q .dnsLocal r ∧ ∀ ip, ¬ Sunk es id ip)) ∧
    (p.mode = .chinaDns → ∀ ip ∈ Dns.aRecords r, ¬ Sunk es id ip →
      p.matchesName q = false ∧ ReceivedFor es id q .dnsLocal r ∧
        ∃ ip' ∈ Dns.aRecords r, p.chnroute.contains ip' = true) := by
  obtain ⟨hp, hpre⟩ := resolver_of_run hrun hone
  have hdecided : p.mode ≠ .full → ∃ u ips, Decides p q u ⟨r, ips⟩ ∧ ReceivedFor es id q u r ∧
      ∀ ip, ip ∈ ips ↔ Sunk es id ip := by
    intro hmode
    refine returned_decided hrun hs hask (by rwa [hp]) (fun u d hd => hp ▸ hd) ?_
    intro e he _ _ _ _ _ _ _ u d hd
    exact hpre e he ▸ hd
  refine ⟨fun hmode => ⟨fun hmatch => ?_, fun hmatch => ?_⟩, fun hmode ip hip hnot => ?_⟩
  all_goals
    obtain ⟨u, ips, hd, hrec, hips⟩ := hdecided (by simp [hmode])
  · cases hd with
    | listed => exact ⟨hrec, fun ip hip => (hips ip).1 hip⟩
    | unlisted _ hno => simp [hmatch] at hno
    | domestic hchina => simp [hmode] at hchina
    | foreign hchina => simp [hmode] at hchina
  · cases hd with
    | listed _ hyes => simp [hmatch] at hyes
    | unlisted => exact ⟨hrec, fun ip hsunk => List.not_mem_nil ((hips ip).2 hsunk)⟩
    | domestic hchina => simp [hmode] at hchina
    | foreign hchina => simp [hmode] at hchina
  · cases hd with
    | listed => exact absurd ((hips ip).1 hip) hnot
    | unlisted hgfw => simp [hmode] at hgfw
    | domestic _ hno hip' hchn => exact ⟨hno, hrec, _, hip', hchn⟩
    | foreign => exact absurd ((hips ip).1 hip) hnot

theorem split_dns_coherent_hit : ∃ es c c' r,
    Run step (.new (Sample.gfwResolver Sample.listA) none) es c ∧
    step c (.ret 1) = .ok (c', .returned 1 (some r)) ∧
    Asked es 1 (Sample.query 2 [[0x41]]) ∧ Dns.aRecords r = [0x08080808#32] ∧
    ReceivedFor es 1 (Sample.query 2 [[0x41]]) .dnsRemote r ∧
    ∀ ip ∈ Dns.aRecords r, Sunk es 1 ip := by
  have hsteps : ∃ c₁ c₂ c₃ c₄ c₅ c₆ c₇ c₈ c₉ r r',
      step (.new (Sample.gfwResolver Sample.listA) none) (.resolve (Sample.query 1 [[0x61]])) =
        .ok (c₁, .quiet) ∧
      step c₁ (.get 0 0) = .ok (c₂, .quiet) ∧
      step c₂ (.upstream 0 .dnsRemote
        (some (Sample.addressReply (Sample.query 1 [[0x61]]) 0x08080808#32))) = .ok (c₃, .quiet) ∧
      step c₃ (.sink 0) = .ok (c₄, .sunk 0 0x08080808#32) ∧
      step c₄ (.put 0 0 0) = .ok (c₅, .returned 0 (some r)) ∧
      step c₅ (.resolve (Sample.query 2 [[0x41]])) = .ok (c₆, .quiet) ∧ c₅.next = 1 ∧
      step c₆ (.get 1 1) = .ok (c₇, .quiet) ∧
      step c₇ (.sink 1) = .ok (c₈, .sunk 1 0x08080808#32) ∧
      step c₈ (.ret 1) = .ok (c₉, .returned 1 (some r')) ∧
      Dns.aRecords r' = [0x08080808#32] :=
    ⟨_, _, _, _, _, _, _, _, _, _, _, rfl, rfl, rfl, rfl,
      step_put (k := (['a'], 1, 1)) (t := 60000000000) rfl (by decide +kernel) (by decide +kernel)
        (by decide +kernel), rfl, rfl, rfl, rfl, rfl, by decide +kernel⟩
  obtain ⟨c₁, c₂, c₃, c₄, c₅, c₆, c₇, c₈, c₉, r, r', h1, h2, h3, h4, h5, h6, hnext, h7, h8, h9,
    hrec⟩ := hsteps
  have hrun := (((((((Run.single h1).snoc h2).snoc h3).snoc h4).snoc h5).snoc h6).snoc h7).snoc h8
  refine ⟨_, c₈, c₉, r', hrun, h9, ?asked, hrec,
    ((split_dns_coherent hrun (by simp) h9 ?asked).1 rfl).1 (by decide +kernel)⟩
  exact asked_snoc.2 (Or.inl (asked_snoc.2 (Or.inl (asked_snoc.2 (Or.inr ⟨rfl, hnext⟩)))))

/-- Whatever was saved and loaded: a name of the current list is answered by a remote upstream
and its addresses are passed on, if every answer to the question was put under a list with
the name. -/
theorem restored_cache_obeys (hrun : Run step (.new p magic) es c)
    (hs : step c event = .ok (c', .returned id (some r))) (hask : Asked es id q)
    (hmode : c.resolver.mode ≠ .full) (hmatch : c.resolver.matchesName q = true)
    (hputs : ∀ e ∈ es, ∀ id' pruned now q', e.input = .put id' pruned now → Asked es id' q' →
      Dns.question q' = Dns.question q → e.pre.resolver.matchesName q = true) :
    ReceivedFor es id q .dnsRemote r ∧ ∀ ip ∈ Dns.aRecords r, Sunk es id ip := by
  have hlisted : ∀ {p : Resolver} {u d}, p.matchesName q = true → Decides p q u d →
      u = .dnsRemote ∧ d.tunnelIps = Dns.aRecords d.response := by
    intro p u d hyes hd
    cases hd with
    | listed => exact ⟨rfl, rfl⟩
    | unlisted _ hno => simp [hyes] at hno
    | domestic _ hno => simp [hyes] at hno
    | foreign _ hno => simp [hyes] at hno
  obtain ⟨u, ips, ⟨rfl, hall⟩, hrec, hips⟩ := returned_decided hrun hs hask hmode
    (fun u d hd => hlisted hmatch hd)
    (fun e he id' pruned now q' hput hask' hkey u d hd =>
      hlisted (hputs e he id' pruned now q' hput hask' hkey) hd)
  refine ⟨hrec, fun ip hip => (hips ip).1 ?_⟩
  rw [show ips = Dns.aRecords r from hall]
  exact hip

theorem restored_cache_obeys_same : ∃ es c c' r,
    Run step (.new (Sample.gfwResolver Sample.listA) none) es c ∧
    step c (.ret 1) = .ok (c', .returned 1 (some r)) ∧
    Asked es 1 (Sample.query 2 [[0x41]]) ∧ Dns.aRecords r = [0x08080808#32] ∧
    ReceivedFor es 1 (Sample.query 2 [[0x41]]) .dnsRemote r ∧
    ∀ ip ∈ Dns.aRecords r, Sunk es 1 ip := by
  have hsteps : ∃ c₁ c₂ c₃ c₄ c₅ c₆ c₇ c₈ c₉ c₁₀ c₁₁ r r',
      step (.new (Sample.gfwResolver Sample.listA) none) (.resolve (Sample.query 1 [[0x61]])) =
        .ok (c₁, .quiet) ∧
      step c₁ (.get 0 0) = .ok (c₂, .quiet) ∧
      step c₂ (.upstream 0 .dnsRemote
        (some (Sample.addressReply (Sample.query 1 [[0x61]]) 0x08080808#32))) = .ok (c₃, .quiet) ∧
      step c₃ (.sink 0) = .ok (c₄, .sunk 0 0x08080808#32) ∧
      step c₄ (.put 0 0 0) = .ok (c₅, .returned 0 (some r)) ∧
      step c₅ (.save .stored .written 1000000000) = .ok (c₆, .quiet) ∧
      step c₆ (.restart (Sample.gfwResolver Sample.listA) none 1000000000) = .ok (c₇, .quiet) ∧
      step c₇ (.resolve (Sample.query 2 [[0x41]])) = .ok (c₈, .quiet) ∧
      step c₈ (.get 1 2000000000) = .ok (c₉, .quiet) ∧
      step c₉ (.sink 1) = .ok (c₁₀, .sunk 1 0x08080808#32) ∧
      step c₁₀ (.ret 1) = .ok (c₁₁, .returned 1 (some r')) ∧
      c₄.resolver = Sample.gfwResolver Sample.listA ∧
      c₁₀.resolver = Sample.gfwResolver Sample.listA ∧ c₇.next = 1 ∧
      Dns.aRecords r' = [0x08080808#32] :=
    ⟨_, _, _, _, _, _, _, _, _, _, _, _, _, rfl, rfl, rfl, rfl,
      step_put (k := (['a'], 1, 1)) (t := 60000000000) rfl (by decide +kernel) (by decide +kernel)
        (by decide +kernel), rfl, rfl, rfl, rfl, rfl, rfl, rfl, rfl, rfl, by decide +kernel⟩
  obtain ⟨c₁, c₂, c₃, c₄, c₅, c₆, c₇, c₈, c₉, c₁₀, c₁₁, r, r', h1, h2, h3, h4, h5, h6, h7, h8, h9,
    h10, h11, hold, hnew, hnext, hrec⟩ := hsteps
  have hrun := (((((((((Run.single h1).snoc h2).snoc h3).snoc h4).snoc h5).snoc h6).snoc h7).snoc
    h8).snoc h9).snoc h10
  have hmatch : (Sample.gfwResolver Sample.listA).matchesName (Sample.query 2 [[0x41]]) = true := by
    decide +kernel
  refine ⟨_, c₁₀, c₁₁, r', hrun, h11, ?asked, hrec,
    restored_cache_obeys hrun h11 ?asked (by rw [hnew]; decide) (by rwa [hnew]) ?_⟩
  · exact asked_snoc.2 (Or.inl (asked_snoc.2 (Or.inl (asked_snoc.2 (Or.inr ⟨rfl, hnext⟩)))))
  · simp [hold, hmatch]

/-- `a` is resolved while it is on no list, and saved. After a restart with a list that has
it, its address is returned and not passed on. -/
theorem restored_cache_bypasses : ∃ es c c' r,
    Run step (.new (Sample.gfwResolver ⟨∅⟩) none) es c ∧
    step c (.ret 1) = .ok (c', .returned 1 (some r)) ∧
    Asked es 1 (Sample.query 2 [[0x41]]) ∧ c.resolver = Sample.gfwResolver Sample.listA ∧
    c.resolver.matchesName (Sample.query 2 [[0x41]]) = true ∧
    Dns.aRecords r = [0x08080808#32] ∧ ¬ Sunk es 1 0x08080808#32 ∧
    ∀ id r', ¬ Received es id .dnsRemote r' := by
  have hdirect : (Sample.gfwResolver ⟨∅⟩).ask (Sample.query 1 [[0x61]]) =
      .go (.waiting .dnsLocal false) := by
    have hno : (Sample.gfwResolver ⟨∅⟩).matchesName (Sample.query 1 [[0x61]]) = false := by
      decide +kernel
    simp only [Resolver.ask, hno]
    rfl
  have hsteps : ∃ c₁ c₂ c₃ c₄ c₅ c₆ c₇ c₈ c₉ r r',
      step (.new (Sample.gfwResolver ⟨∅⟩) none) (.resolve (Sample.query 1 [[0x61]])) =
        .ok (c₁, .quiet) ∧
      step c₁ (.get 0 0) = .ok (c₂, .quiet) ∧
      step c₂ (.upstream 0 .dnsLocal
        (some (Sample.addressReply (Sample.query 1 [[0x61]]) 0x08080808#32))) = .ok (c₃, .quiet) ∧
      step c₃ (.put 0 0 0) = .ok (c₄, .returned 0 (some r)) ∧
      step c₄ (.save .stored .written 1000000000) = .ok (c₅, .quiet) ∧
      step c₅ (.restart (Sample.gfwResolver Sample.listA) none 1000000000) = .ok (c₆, .quiet) ∧
      step c₆ (.resolve (Sample.query 2 [[0x41]])) = .ok (c₇, .quiet) ∧
      step c₇ (.get 1 2000000000) = .ok (c₈, .quiet) ∧
      step c₈ (.ret 1) = .ok (c₉, .returned 1 (some r')) ∧
      c₈.resolver = Sample.gfwResolver Sample.listA ∧ c₆.next = 1 ∧
      Dns.aRecords r' = [0x08080808#32] :=
    ⟨_, _, _, _, _, _, _, _, _, _, _, rfl, step_miss rfl rfl hdirect, rfl,
      step_put (k := (['a'], 1, 1)) (t := 60000000000) rfl (by decide +kernel) (by decide +kernel)
        (by decide +kernel), rfl, rfl, rfl, rfl, rfl, rfl, rfl, by decide +kernel⟩
  obtain ⟨c₁, c₂, c₃, c₄, c₅, c₆, c₇, c₈, c₉, r, r', h1, h2, h3, h4, h5, h6, h7, h8, h9, hnew, hnext,
    hrec⟩ := hsteps
  have hrun := (((((((Run.single h1).snoc h2).snoc h3).snoc h4).snoc h5).snoc h6).snoc h7).snoc h8
  refine ⟨_, c₈, c₉, r', hrun, h9, ?_, hnew, ?_, hrec, ?_, ?_⟩
  · exact asked_snoc.2 (Or.inl (asked_snoc.2 (Or.inr ⟨rfl, hnext⟩)))
  · rw [hnew]
    decide +kernel
  · simp [Sunk]
  · simp [Received]

end Client

/-! Magic names. -/

def InZone (suffix name : Text) : Prop :=
  name.map Char.toLower = suffix.map Char.toLower ∨
    '.' :: suffix.map Char.toLower <:+ name.map Char.toLower

theorem isMagicSuffixName_of_inZone {suffix name : Text} (hne : suffix ≠ []) (hsuffix : Lower suffix)
    (hname : Lower name) (h : InZone suffix name) : isMagicSuffixName name suffix = true := by
  unfold InZone at h
  rw [hsuffix.map_eq, hname.map_eq] at h
  rw [isMagicSuffixName, if_neg fun hempty => hne (List.isEmpty_iff.1 hempty), Bool.or_eq_true,
    beq_iff_eq, List.isSuffixOf_iff_suffix]
  exact h

/-- A name of a peer or of the zone is answered at once, whatever the mode: the cache stays as
it is, and no call to an upstream is begun. A peer's name gets an answer without error, and any
other name of the zone gets none. -/
theorem magic_names_stay (peers : PeerTable) {raw suffix name : Text} {qtype : UInt16} {q : Bytes}
    (hsuffix : sanitizeSuffix raw = some suffix)
    (hq : Dns.question q = some (name, qtype, Dns.CLASS_IN))
    (hname : (peers.lookup name).isSome ∨ InZone suffix name) :
    ∃ r, MagicDns.answerMagic ⟨peers, suffix⟩ q = some r ∧
      (∀ c : Client, c.magic = some ⟨peers, suffix⟩ → c.step (.resolve q) =
        .ok ({ c with next := c.next + 1 }, .returned c.next (some r))) ∧
      ((peers.lookup name).isSome → Dns.rcode r = 0) ∧
      (peers.lookup name = none → Dns.rcode r = 3 ∧ Dns.answerCount r = 0) := by
  have hreturns : ∀ r, MagicDns.answerMagic ⟨peers, suffix⟩ q = some r →
      ∀ c : Client, c.magic = some ⟨peers, suffix⟩ → c.step (.resolve q) =
        .ok ({ c with next := c.next + 1 }, .returned c.next (some r)) := by
    intro r hr c hc
    simp only [Client.step, Client.answerMagic, hc, hr]
  cases hpeer : peers.lookup name with
  | some addrs =>
    obtain ⟨r, hr, hcode⟩ := Dns.buildResponse_of_question hq
      (if qtype = Dns.TYPE_A then [.v4 addrs.ip4]
        else if qtype = Dns.TYPE_AAAA then (addrs.ip6.map IpAddr.v6).toList else []) MAGIC_TTL_SECS
    have hanswer : MagicDns.answerMagic ⟨peers, suffix⟩ q = some r := by
      simp only [MagicDns.answerMagic, hq, hpeer]
      simpa using hr
    exact ⟨r, hanswer, hreturns r hanswer, fun _ => hcode, fun hnone => by cases hnone⟩
  | none =>
    obtain ⟨r, hr, hcode, hcount⟩ := Dns.buildNxdomain_of_question hq
    obtain ⟨hne, hlower⟩ := sanitizeSuffix_eq_some hsuffix
    have hzone : isMagicSuffixName name suffix = true := by
      rcases hname with hkey | hzone
      · simp [hpeer] at hkey
      · exact isMagicSuffixName_of_inZone hne hlower (Dns.lower_of_question hq) hzone
    have hanswer : MagicDns.answerMagic ⟨peers, suffix⟩ q = some r := by
      simp only [MagicDns.answerMagic, hq, hpeer, hzone]
      simpa using hr
    exact ⟨r, hanswer, hreturns r hanswer, (fun hkey => by cases hkey), fun _ => ⟨hcode, hcount⟩⟩

def Sample.svpn : Text := ['s', 'v', 'p', 'n']

theorem magic_names_stay_unknown : ∃ r,
    MagicDns.answerMagic ⟨.replace [⟨['a'], 0x0A090002#32, none⟩] Sample.svpn, Sample.svpn⟩
      (Sample.query 1 [[0x42], [0x53, 0x56, 0x50, 0x4E]]) = some r ∧
    Dns.rcode r = 3 ∧ Dns.answerCount r = 0 := by
  have hsuffix : sanitizeSuffix ['S', 'v', 'p', 'n'] = some Sample.svpn := by decide +kernel
  have hq : Dns.question (Sample.query 1 [[0x42], [0x53, 0x56, 0x50, 0x4E]]) =
      some ('b' :: '.' :: Sample.svpn, 1, Dns.CLASS_IN) := by
    decide +kernel
  have hzone : InZone Sample.svpn ('b' :: '.' :: Sample.svpn) := Or.inr (by decide +kernel)
  obtain ⟨r, hanswer, -, -, hunknown⟩ := magic_names_stay
    (.replace [⟨['a'], 0x0A090002#32, none⟩] Sample.svpn) hsuffix hq (Or.inr hzone)
  exact ⟨r, hanswer, hunknown (by decide +kernel)⟩

/-! Source ports. -/

namespace Inflight

variable {s s' : Inflight}

def Owned (s : Inflight) : Prop :=
  ∀ id sock, s.sockets.get id = some sock → sock.stage = .registered →
    s.ownsSourcePort sock.port = true

/-- A guard is dropped while another one holds the same port. -/
def DropsShared (s : Inflight) : Event → Prop
  | .drop id => ∃ id' sock sock', id' ≠ id ∧ s.sockets.get id = some sock ∧
      s.sockets.get id' = some sock' ∧ sock'.stage = .registered ∧ sock'.port = sock.port
  | _ => False

theorem owned_insert (h : s.Owned) (id : ℕ) {sock : Socket} (hstage : sock.stage ≠ .registered) :
    Owned { s with sockets := s.sockets.insert id sock } := by
  intro id' sock' hget hstage'
  rw [HashMap.get_insert] at hget
  split_ifs at hget
  · cases hget
    exact absurd hstage' hstage
  · exact h id' sock' hget hstage'

theorem owned_step_iff {event : Event} {out : Unit} (h : s.Owned)
    (hs : s.step event = .ok (s', out)) : s'.Owned ↔ ¬ s.DropsShared event := by
  cases event with
  | bind id server port =>
    simp only [step] at hs
    split_ifs at hs
    cases hs
    exact iff_of_true (owned_insert h id (by simp)) not_false
  | register id =>
    simp only [step] at hs
    split at hs
    next addr port hsock =>
      split_ifs at hs
      · cases hs
        refine iff_of_true (fun id' sock hget hstage => ?_) not_false
        rw [HashMap.get_insert] at hget
        rw [ownsSourcePort, HashMap.get_insert]
        split at hget
        next =>
          cases hget
          rw [if_pos rfl]
          rfl
        next =>
          split_ifs
          · rfl
          · exact h id' sock hget hstage
      · cases hs
        exact iff_of_true (owned_insert h id (by simp)) not_false
    next => cases hs
  | drop id =>
    simp only [step] at hs
    split at hs
    next addr port hsock =>
      cases hs
      constructor
      · rintro howned ⟨id', sock, sock', hne, hget, hget', hstage, hport⟩
        cases hsock.symm.trans hget
        have hknown := howned id' sock' (by rw [HashMap.get_insert, if_neg hne]; exact hget') hstage
        rw [ownsSourcePort, HashMap.get_erase, if_pos hport] at hknown
        cases hknown
      · intro hno id' sock' hget hstage
        rw [HashMap.get_insert] at hget
        split_ifs at hget with hid
        · cases hget
          cases hstage
        · have hport : sock'.port ≠ port := fun heq =>
            hno ⟨id', _, sock', hid, hsock, hget, hstage, heq⟩
          rw [ownsSourcePort, HashMap.get_erase, if_neg hport]
          exact h id' sock' hget hstage
    next => cases hs
  | close id =>
    simp only [step] at hs
    split at hs
    next =>
      cases hs
      refine iff_of_true (fun id' sock hget hstage => ?_) not_false
      rw [HashMap.get_erase] at hget
      split_ifs at hget
      exact h id' sock hget hstage
    next => cases hs

end Inflight

/-- The resolver knows the port of every upstream socket that it holds a guard for, all along,
exactly when no guard is dropped while another one holds the same port. -/
theorem source_port_owned_iff (localBind remoteBind : IpAddr)
    {es : List (Entry Inflight Inflight.Event Unit)} {s : Inflight}
    (hrun : Run Inflight.step (.new localBind remoteBind) es s) :
    (∀ e ∈ es, ¬ e.pre.DropsShared e.input) ↔ ∀ e ∈ es, e.post.Owned := by
  refine hrun.forall_iff (I := fun _ => True) (fun _ _ _ _ _ _ => trivial)
    (fun _ _ _ _ _ h hs => Inflight.owned_step_iff h hs) trivial ?_
  intro id sock hget
  cases hget

theorem source_port_owned_iff_apart : ∃ es s,
    Run Inflight.step (.new (.v4 0xC0A80002#32) (.v4 0x0A090002#32)) es s ∧ es.length = 5 ∧
      ∀ e ∈ es, e.post.Owned := by
  have hsteps : ∃ s₁ s₂ s₃ s₄ s₅,
      (Inflight.new (.v4 0xC0A80002#32) (.v4 0x0A090002#32)).step (.bind 0 .dnsLocal 5000) =
        .ok (s₁, ()) ∧
      s₁.step (.register 0) = .ok (s₂, ()) ∧ s₂.step (.bind 1 .dnsRemote 5001) = .ok (s₃, ()) ∧
      s₃.step (.register 1) = .ok (s₄, ()) ∧ s₄.step (.drop 0) = .ok (s₅, ()) ∧
      s₄.sockets.get 0 = some ⟨.v4 0xC0A80002#32, 5000, .registered⟩ ∧
      s₄.sockets.get 1 = some ⟨.v4 0x0A090002#32, 5001, .registered⟩ ∧ s₄.sockets.keys = [1, 0] :=
    ⟨_, _, _, _, _, rfl, rfl, rfl, rfl, rfl, rfl, rfl, rfl⟩
  obtain ⟨s₁, s₂, s₃, s₄, s₅, h1, h2, h3, h4, h5, hlocal, hremote, hkeys⟩ := hsteps
  have hrun := ((((Run.single h1).snoc h2).snoc h3).snoc h4).snoc h5
  refine ⟨_, s₅, hrun, rfl, (source_port_owned_iff _ _ hrun).1 ?_⟩
  simp only [List.forall_mem_append, List.forall_mem_singleton]
  refine ⟨⟨⟨⟨id, id⟩, id⟩, id⟩, ?_⟩
  rintro ⟨id', sock, sock', hne, hget, hget', -, hport⟩
  have hmem : id' ∈ s₄.sockets.keys := HashMap.mem_keys.2 (by rw [hget']; rfl)
  rw [hkeys, List.mem_pair, or_iff_left hne] at hmem
  subst hmem
  cases hlocal.symm.trans hget
  cases hremote.symm.trans hget'
  cases hport

/-- Both upstreams are asked from one port, each at its own address, and the local one
answers first. -/
theorem source_port_forgotten : ∃ es s,
    Run Inflight.step (.new (.v4 0xC0A80002#32) (.v4 0x0A090002#32)) es s ∧
      s.sockets.get 1 = some ⟨.v4 0x0A090002#32, 5000, .registered⟩ ∧
      s.ownsSourcePort 5000 = false := by
  have hsteps : ∃ s₁ s₂ s₃ s₄ s₅,
      (Inflight.new (.v4 0xC0A80002#32) (.v4 0x0A090002#32)).step (.bind 0 .dnsLocal 5000) =
        .ok (s₁, ()) ∧
      s₁.step (.register 0) = .ok (s₂, ()) ∧ s₂.step (.bind 1 .dnsRemote 5000) = .ok (s₃, ()) ∧
      s₃.step (.register 1) = .ok (s₄, ()) ∧ s₄.step (.drop 0) = .ok (s₅, ()) ∧
      s₅.sockets.get 1 = some ⟨.v4 0x0A090002#32, 5000, .registered⟩ ∧
      s₅.ownsSourcePort 5000 = false :=
    ⟨_, _, _, _, _, rfl, rfl, rfl, rfl, rfl, rfl, rfl⟩
  obtain ⟨s₁, s₂, s₃, s₄, s₅, h1, h2, h3, h4, h5, hsock, hport⟩ := hsteps
  exact ⟨_, s₅, ((((Run.single h1).snoc h2).snoc h3).snoc h4).snoc h5, hsock, hport⟩

end ShadowVpn
