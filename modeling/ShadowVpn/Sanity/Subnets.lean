import ShadowVpn.Lib.Table
import ShadowVpn.Sanity.Encode
import ShadowVpn.Sanity.Routing
import ShadowVpn.Spec.Routes

/-! The subnet-route table is a map from networks to routes. One turn of the loop in
`advertise` writes one network, the loop writes the advertised ones, and a lookup finds
the one longest match. -/

namespace ShadowVpn

open Lib

namespace SubnetTable

variable {P : Platform} {approval : RouteApproval} {peer : SocketAddr} {now : Instant}
  {t : SubnetTable} {net : IpNetwork} {r : SubnetRoute}

/-! The table as a map. -/

theorem held_eq_none : t.held net = none ↔ ∀ r ∈ t.routes, r.net ≠ net := by
  simp [held]

theorem Valid.eq_of_net_eq (h : t.Valid) {r r' : SubnetRoute} (hr : r ∈ t.routes)
    (hr' : r' ∈ t.routes) (hnet : r.net = r'.net) : r = r' :=
  List.inj_on_of_nodup_map h.nodup hr hr' hnet

theorem Valid.held_eq_some (h : t.Valid) : t.held net = some r ↔ r ∈ t.routes ∧ r.net = net :=
  find_key_iff h.nodup

theorem Valid.owner_eq_some (h : t.Valid) {q : SocketAddr} :
    t.owner net = some q ↔ ∃ r ∈ t.routes, r.net = net ∧ r.peer = q := by
  unfold owner
  simp only [Option.map_eq_some_iff, h.held_eq_some, and_assoc]

theorem owner_eq_none : t.owner net = none ↔ t.held net = none := by
  simp [owner]

theorem Valid.filter (h : t.Valid) (keep : SubnetRoute → Bool) : Valid ⟨t.routes.filter keep⟩ where
  nodup := h.nodup.sublist (List.filter_sublist.map _)
  canonical := fun r hr => h.canonical r (List.mem_of_mem_filter hr)

/-! One turn of the loop. -/

/-- The route that an advert writes. -/
def written (P : Platform) (approval : RouteApproval) (peer : SocketAddr) (now : Instant)
    (net : IpNetwork) : SubnetRoute :=
  ⟨net, peer, approval.approves P net, now⟩

/-- A network that is held is rewritten where it stands. -/
theorem advertiseOne_some (h : t.Valid) (hr : t.held net = some r) (o : AdvertOutcome) :
    advertiseOne P approval peer now (t, o) net =
      (⟨t.routes.map fun x => if x.net = net then written P approval peer now net else x⟩,
        if r.peer ≠ peer then { o with moved := o.moved ++ [net] } else o) := by
  obtain ⟨hmem, rfl⟩ := h.held_eq_some.1 hr
  obtain ⟨i, hidx, hi⟩ := exists_findIdx h.nodup hmem rfl
  unfold advertiseOne
  simp only [hidx, hi, Option.any_some, decide_eq_true_eq]
  rw [modify_eq_map h.nodup hi]
  congr 2
  apply List.map_congr_left
  intro x _
  split_ifs with hx
  · rw [written, hx]
  · rfl

/-- Any other is pushed. -/
theorem advertiseOne_none (hr : t.held net = none) (o : AdvertOutcome) :
    advertiseOne P approval peer now (t, o) net =
      (⟨t.routes ++ [written P approval peer now net]⟩,
        if approval.approves P net then { o with approved := o.approved ++ [net] }
        else { o with awaiting := o.awaiting ++ [net] }) := by
  have hidx : (t.routes.findIdx? fun x => x.net = net) = none := by
    rw [List.findIdx?_eq_none_iff]
    intro x hx
    simpa using held_eq_none.1 hr x hx
  unfold advertiseOne
  simp only [hidx]
  rfl

theorem valid_advertiseOne (h : t.Valid) (hnet : canonical net = net) (o : AdvertOutcome) :
    (advertiseOne P approval peer now (t, o) net).1.Valid := by
  cases hr : t.held net with
  | none =>
    rw [advertiseOne_none hr]
    have hnew := held_eq_none.1 hr
    constructor
    · rw [List.map_append, List.nodup_append']
      refine ⟨h.nodup, by simp, ?_⟩
      simpa [List.disjoint_singleton, written] using hnew
    · intro x hx
      rcases List.mem_append.1 hx with hx | hx
      · exact h.canonical x hx
      · rw [List.mem_singleton.1 hx]
        exact hnet
  | some r =>
    rw [advertiseOne_some h hr]
    have hnets : (t.routes.map fun x =>
        if x.net = net then written P approval peer now net else x).map SubnetRoute.net =
          t.routes.map SubnetRoute.net := by
      rw [List.map_map]
      apply List.map_congr_left
      intro x _
      simp only [Function.comp]
      split_ifs with hx
      · exact hx.symm
      · rfl
    constructor
    · rw [hnets]
      exact h.nodup
    · intro x hx
      obtain ⟨y, hy, rfl⟩ := List.mem_map.1 hx
      split_ifs with hxy
      · exact hnet
      · exact h.canonical y hy

theorem mem_advertiseOne (h : t.Valid) (o : AdvertOutcome) :
    r ∈ (advertiseOne P approval peer now (t, o) net).1.routes ↔
      r = written P approval peer now net ∨ (r ∈ t.routes ∧ r.net ≠ net) := by
  cases hr : t.held net with
  | none =>
    rw [advertiseOne_none hr]
    have hnew := held_eq_none.1 hr
    simp only [List.mem_append, List.mem_singleton]
    constructor
    · rintro (hmem | rfl)
      · exact Or.inr ⟨hmem, hnew r hmem⟩
      · exact Or.inl rfl
    · rintro (rfl | ⟨hmem, -⟩)
      · exact Or.inr rfl
      · exact Or.inl hmem
  | some x =>
    obtain ⟨hx, hxnet⟩ := h.held_eq_some.1 hr
    rw [advertiseOne_some h hr, List.mem_map]
    constructor
    · rintro ⟨y, hy, rfl⟩
      split_ifs with hyn
      · exact Or.inl rfl
      · exact Or.inr ⟨hy, hyn⟩
    · rintro (rfl | ⟨hmem, hne⟩)
      · exact ⟨x, hx, if_pos hxnet⟩
      · exact ⟨r, hmem, if_neg hne⟩

/-- The table afterwards, as a map. -/
theorem held_advertiseOne (h : t.Valid) (hnet : canonical net = net) (o : AdvertOutcome)
    (n : IpNetwork) : (advertiseOne P approval peer now (t, o) net).1.held n =
      if n = net then some (written P approval peer now net) else t.held n := by
  apply Option.ext
  intro x
  rw [(valid_advertiseOne h hnet o).held_eq_some, mem_advertiseOne h]
  split_ifs with hn
  · subst hn
    constructor
    · rintro ⟨rfl | ⟨-, hne⟩, hx⟩
      · rfl
      · exact absurd hx hne
    · rintro ⟨⟩
      exact ⟨Or.inl rfl, rfl⟩
  · rw [h.held_eq_some]
    constructor
    · rintro ⟨rfl | ⟨hmem, -⟩, rfl⟩
      · exact absurd rfl hn
      · exact ⟨hmem, rfl⟩
    · rintro ⟨hmem, rfl⟩
      exact ⟨Or.inr ⟨hmem, hn⟩, rfl⟩

/-! The loop. -/

/-- What the loop has reported after the networks `done`, from the table `t₀`. -/
structure Reported (P : Platform) (approval : RouteApproval) (peer : SocketAddr)
    (t₀ : SubnetTable) (withdrawn done : List IpNetwork) (o : AdvertOutcome) : Prop where
  moved : Collects (fun n => ∃ r, t₀.held n = some r ∧ r.peer ≠ peer) done o.moved
  approved : Collects (fun n => t₀.held n = none ∧ approval.approves P n = true) done o.approved
  awaiting : Collects (fun n => t₀.held n = none ∧ approval.approves P n = false) done o.awaiting
  withdrawn : o.withdrawn = withdrawn

/-- Where the loop stands then. -/
structure Progress (P : Platform) (approval : RouteApproval) (peer : SocketAddr) (now : Instant)
    (t₀ : SubnetTable) (withdrawn done : List IpNetwork) (s : SubnetTable × AdvertOutcome) :
    Prop where
  valid : s.1.Valid
  held : ∀ n, s.1.held n =
    if n ∈ done then some (written P approval peer now n) else t₀.held n
  report : Reported P approval peer t₀ withdrawn done s.2

variable {t₀ : SubnetTable} {withdrawn done : List IpNetwork} {s : SubnetTable × AdvertOutcome}

theorem Progress.start (h : t₀.Valid) :
    Progress P approval peer now t₀ withdrawn [] (t₀, ⟨[], [], [], withdrawn⟩) where
  valid := h
  held := by simp
  report := ⟨Collects.nil _, Collects.nil _, Collects.nil _, rfl⟩

theorem Progress.step (h : Progress P approval peer now t₀ withdrawn done s)
    (hnet : canonical net = net) :
    Progress P approval peer now t₀ withdrawn (done ++ [net])
      (advertiseOne P approval peer now s net) := by
  obtain ⟨t, o⟩ := s
  obtain ⟨hmoved, happroved, hawaiting, hwithdrawn⟩ := h.report
  have hheld : ∀ n, (advertiseOne P approval peer now (t, o) net).1.held n =
      if n ∈ done ++ [net] then some (written P approval peer now n) else t₀.held n := by
    intro n
    rw [held_advertiseOne h.valid hnet, h.held]
    by_cases hn : n = net
    · simp [hn]
    · simp [hn]
  refine ⟨valid_advertiseOne h.valid hnet o, hheld, ?_⟩
  by_cases hd : net ∈ done
  · -- a repeated network is the peer's own already
    have hr : t.held net = some (written P approval peer now net) := by
      rw [h.held, if_pos hd]
    rw [advertiseOne_some h.valid hr, if_neg (by simp [written])]
    exact ⟨hmoved.skip (Or.inl hd), happroved.skip (Or.inl hd), hawaiting.skip (Or.inl hd),
      hwithdrawn⟩
  have hsame : t.held net = t₀.held net := by rw [h.held, if_neg hd]
  cases hr : t₀.held net with
  | none =>
    replace hmoved := hmoved.skip (k := net) (Or.inr (by simp [hr]))
    rw [advertiseOne_none (hsame.trans hr)]
    by_cases ha : approval.approves P net = true
    · rw [if_pos ha]
      exact ⟨hmoved, happroved.push hd ⟨hr, ha⟩, hawaiting.skip (Or.inr (by simp [ha])), hwithdrawn⟩
    · rw [if_neg ha]
      exact ⟨hmoved, happroved.skip (Or.inr (by simp [ha])),
        hawaiting.push hd ⟨hr, by simpa using ha⟩, hwithdrawn⟩
  | some r =>
    replace happroved := happroved.skip (k := net) (Or.inr (by simp [hr]))
    replace hawaiting := hawaiting.skip (k := net) (Or.inr (by simp [hr]))
    rw [advertiseOne_some h.valid (hsame.trans hr)]
    by_cases hp : r.peer = peer
    · rw [if_neg (by simpa using hp)]
      exact ⟨hmoved.skip (Or.inr (by simp [hr, hp])), happroved, hawaiting, hwithdrawn⟩
    · rw [if_pos hp]
      exact ⟨hmoved.push hd ⟨r, hr, hp⟩, happroved, hawaiting, hwithdrawn⟩

theorem Progress.loop (h : Progress P approval peer now t₀ withdrawn done s) {nets : List IpNetwork}
    (hnets : ∀ n ∈ nets, canonical n = n) :
    Progress P approval peer now t₀ withdrawn (done ++ nets)
      (nets.foldl (advertiseOne P approval peer now) s) := by
  induction nets generalizing done s with
  | nil => simpa using h
  | cons net nets ih =>
    obtain ⟨hnet, hnets⟩ := List.forall_mem_cons.1 hnets
    have hrest := ih (h.step hnet) hnets
    rwa [List.append_assoc, List.singleton_append] at hrest

/-! The whole call. -/

theorem held_filter (h : t.Valid) (keep : SubnetRoute → Bool) (n : IpNetwork) :
    held ⟨t.routes.filter keep⟩ n = (t.held n).filter keep := by
  apply Option.ext
  intro r
  rw [(h.filter keep).held_eq_some, Option.filter_eq_some_iff, h.held_eq_some, List.mem_filter]
  tauto

variable {nets : List IpNetwork}

/-- The table without the networks that the peer stopped advertising. -/
def kept (t : SubnetTable) (peer : SocketAddr) (nets : List IpNetwork) : SubnetTable :=
  ⟨t.routes.filter fun r => r.peer ≠ peer ∨ r.net ∈ nets.map canonical⟩

/-- Those networks. -/
def stopped (t : SubnetTable) (peer : SocketAddr) (nets : List IpNetwork) : List IpNetwork :=
  (t.routes.filter fun r => ¬ (r.peer ≠ peer ∨ r.net ∈ nets.map canonical)).map SubnetRoute.net

theorem progress_advertise (h : t.Valid) :
    Progress P approval peer now (t.kept peer nets) (t.stopped peer nets) (nets.map canonical)
      (t.advertise P peer nets approval now) := by
  have hstart : Progress P approval peer now (t.kept peer nets) (t.stopped peer nets) []
      (t.kept peer nets, ⟨[], [], [], t.stopped peer nets⟩) := Progress.start (h.filter _)
  apply hstart.loop
  intro n hn
  obtain ⟨m, -, rfl⟩ := List.mem_map.1 hn
  exact canonical_idem m

/-- The advertised networks are written, and of the others the peer keeps none. -/
theorem held_advertise (h : t.Valid) (n : IpNetwork) :
    (t.advertise P peer nets approval now).1.held n =
      if n ∈ nets.map canonical then some (written P approval peer now n)
      else (t.held n).filter fun r => r.peer ≠ peer := by
  rw [(progress_advertise h).held, kept, held_filter h]
  split_ifs with hn
  · rfl
  · cases hr : t.held n with
    | none => rfl
    | some r =>
      obtain ⟨-, rfl⟩ := h.held_eq_some.1 hr
      simp only [Option.filter_some, hn, or_false]

theorem owner_advertise (h : t.Valid) (n : IpNetwork) :
    (t.advertise P peer nets approval now).1.owner n =
      if n ∈ nets.map canonical then some peer else (t.owner n).filter (· ≠ peer) := by
  unfold owner
  rw [held_advertise h]
  split_ifs with hn
  · rfl
  · cases t.held n with
    | none => rfl
    | some r =>
      by_cases hp : r.peer = peer
      · simp [hp, Option.filter_some]
      · simp [hp, Option.filter_some]

/-- While it runs over the advertised networks, the loop sees their former routes. -/
theorem held_kept (h : t.Valid) {n : IpNetwork} (hn : n ∈ nets.map canonical) :
    (t.kept peer nets).held n = t.held n := by
  rw [kept, held_filter h]
  cases hr : t.held n with
  | none => rfl
  | some r =>
    obtain ⟨-, rfl⟩ := h.held_eq_some.1 hr
    simp only [Option.filter_some]
    rw [if_pos (by simpa using Or.inr hn)]

theorem mem_stopped (h : t.Valid) (n : IpNetwork) :
    n ∈ t.stopped peer nets ↔ t.owner n = some peer ∧ n ∉ nets.map canonical := by
  rw [stopped, h.owner_eq_some, List.mem_map]
  constructor
  · rintro ⟨r, hr, rfl⟩
    have hmem := List.mem_filter.1 hr
    simp only [not_or, not_not, decide_eq_true_eq] at hmem
    exact ⟨⟨r, hmem.1, rfl, hmem.2.1⟩, hmem.2.2⟩
  · rintro ⟨⟨r, hr, rfl, hp⟩, hn⟩
    refine ⟨r, List.mem_filter.2 ⟨hr, ?_⟩, rfl⟩
    simp only [not_or, not_not, decide_eq_true_eq]
    exact ⟨hp, hn⟩

theorem isQuiet_iff (o : AdvertOutcome) : o.isQuiet = true ↔
    (∀ n, n ∉ o.approved) ∧ (∀ n, n ∉ o.awaiting) ∧ (∀ n, n ∉ o.moved) ∧ ∀ n, n ∉ o.withdrawn := by
  simp only [AdvertOutcome.isQuiet, Bool.and_eq_true, List.isEmpty_iff,
    List.eq_nil_iff_forall_not_mem, and_assoc]

theorem mem_routes_advertise (h : t.Valid) :
    r ∈ (t.advertise P peer nets approval now).1.routes ↔
      (r.net ∈ nets.map canonical ∧ r = written P approval peer now r.net) ∨
        (r.net ∉ nets.map canonical ∧ r ∈ t.routes ∧ r.peer ≠ peer) := by
  have hprogress : Progress P approval peer now (t.kept peer nets) (t.stopped peer nets)
      (nets.map canonical) (t.advertise P peer nets approval now) := progress_advertise h
  have hvalid := hprogress.valid
  have hheld : r ∈ (t.advertise P peer nets approval now).1.routes ↔
      (t.advertise P peer nets approval now).1.held r.net = some r := by
    rw [hvalid.held_eq_some]
    simp
  rw [hheld, held_advertise h]
  split_ifs with hn
  · simp [hn, eq_comm]
  · rw [Option.filter_eq_some_iff, h.held_eq_some]
    simp [hn]

/-- Nothing is reported exactly when every network stays with its owner. -/
theorem quiet_iff_owner {o : AdvertOutcome} {t' : SubnetTable}
    (howner : ∀ n, t'.owner n =
      if n ∈ nets.map canonical then some peer else (t.owner n).filter (· ≠ peer))
    (hw : ∀ n, n ∈ o.withdrawn ↔ t.owner n = some peer ∧ n ∉ nets.map canonical)
    (hm : ∀ n, n ∈ o.moved ↔ n ∈ nets.map canonical ∧ ∃ q, t.owner n = some q ∧ q ≠ peer)
    (ha : ∀ n, n ∈ o.approved ↔
      n ∈ nets.map canonical ∧ t.owner n = none ∧ approval.approves P n = true)
    (hu : ∀ n, n ∈ o.awaiting ↔
      n ∈ nets.map canonical ∧ t.owner n = none ∧ approval.approves P n = false) :
    o.isQuiet = true ↔ ∀ n, t'.owner n = t.owner n := by
  rw [isQuiet_iff]
  constructor
  · rintro ⟨hna, hnu, hnm, hnw⟩ n
    rw [howner]
    split_ifs with hn
    · cases hq : t.owner n with
      | none =>
        cases happ : approval.approves P n with
        | true => exact absurd ((ha n).2 ⟨hn, hq, happ⟩) (hna n)
        | false => exact absurd ((hu n).2 ⟨hn, hq, happ⟩) (hnu n)
      | some q =>
        by_cases hqp : q = peer
        · rw [hqp]
        · exact absurd ((hm n).2 ⟨hn, q, hq, hqp⟩) (hnm n)
    · cases hq : t.owner n with
      | none => rfl
      | some q =>
        have hqp : q ≠ peer := by
          rintro rfl
          exact hnw n ((hw n).2 ⟨hq, hn⟩)
        simp [Option.filter_some, hqp]
  · intro hsame
    have hown : ∀ n, n ∈ nets.map canonical → t.owner n = some peer := by
      intro n hn
      rw [← hsame, howner, if_pos hn]
    refine ⟨fun n hn => ?_, fun n hn => ?_, fun n hn => ?_, fun n hn => ?_⟩
    · obtain ⟨hmem, hnone, -⟩ := (ha n).1 hn
      rw [hown n hmem] at hnone
      cases hnone
    · obtain ⟨hmem, hnone, -⟩ := (hu n).1 hn
      rw [hown n hmem] at hnone
      cases hnone
    · obtain ⟨hmem, q, hq, hqp⟩ := (hm n).1 hn
      rw [hown n hmem] at hq
      exact hqp (Option.some.inj hq).symm
    · obtain ⟨hq, hmem⟩ := (hw n).1 hn
      have hkept := hsame n
      rw [howner, if_neg hmem, hq] at hkept
      simp [Option.filter_some] at hkept

theorem exists_owner_ne {n : IpNetwork} :
    (∃ q, t.owner n = some q ∧ q ≠ peer) ↔ ∃ r, t.held n = some r ∧ r.peer ≠ peer := by
  unfold owner
  constructor
  · rintro ⟨q, hq, hne⟩
    obtain ⟨r, hr, rfl⟩ := Option.map_eq_some_iff.1 hq
    exact ⟨r, hr, hne⟩
  · rintro ⟨r, hr, hne⟩
    exact ⟨r.peer, by rw [hr]; rfl, hne⟩

/-- The advertiser owns what it advertised. -/
theorem owner_advertise_self (h : t.Valid) (n : IpNetwork) :
    (t.advertise P peer nets approval now).1.owner n = some peer ↔ n ∈ nets.map canonical := by
  rw [owner_advertise h]
  split_ifs with hn
  · simp [hn]
  · simp [hn, Option.filter_eq_some_iff]

/-- The other peers keep what was not. -/
theorem mem_routes_advertise_ne (h : t.Valid) (hp : r.peer ≠ peer) :
    r ∈ (t.advertise P peer nets approval now).1.routes ↔
      r ∈ t.routes ∧ r.net ∉ nets.map canonical := by
  rw [mem_routes_advertise h]
  constructor
  · rintro (⟨-, heq⟩ | ⟨hn, hr, -⟩)
    · exact absurd (congrArg SubnetRoute.peer heq) hp
    · exact ⟨hr, hn⟩
  · rintro ⟨hr, hn⟩
    exact Or.inr ⟨hn, hr, hp⟩

theorem reconciled_advertise (h : t.Valid) :
    Reconciled P t peer nets approval now (t.advertise P peer nets approval now).1
      (t.advertise P peer nets approval now).2 := by
  have hprogress : Progress P approval peer now (t.kept peer nets) (t.stopped peer nets)
      (nets.map canonical) (t.advertise P peer nets approval now) := progress_advertise h
  obtain ⟨hvalid, -, hmoved, happroved, hawaiting, hwithdrawn⟩ := hprogress
  -- the reports are about the table that the loop started from, which holds the same
  replace hmoved := hmoved.congr fun n hn => by rw [held_kept h hn, ← exists_owner_ne]
  replace happroved := happroved.congr fun n hn => by rw [held_kept h hn, ← owner_eq_none]
  replace hawaiting := hawaiting.congr fun n hn => by rw [held_kept h hn, ← owner_eq_none]
  have hw : ∀ n, n ∈ (t.advertise P peer nets approval now).2.withdrawn ↔
      t.owner n = some peer ∧ n ∉ nets.map canonical := by
    intro n
    rw [hwithdrawn, mem_stopped h]
  refine ⟨hvalid, owner_advertise_self h, ?_, fun r hp => mem_routes_advertise_ne h hp, ⟨?_, hw⟩,
    hmoved, happroved, hawaiting,
    quiet_iff_owner (owner_advertise h) hw hmoved.2 happroved.2 hawaiting.2⟩
  · intro r hr hp
    rcases (mem_routes_advertise h).1 hr with ⟨-, heq⟩ | ⟨-, -, hne⟩
    · rw [heq]
      exact ⟨rfl, rfl⟩
    · exact absurd hp hne
  · rw [hwithdrawn]
    exact h.nodup.sublist (List.filter_sublist.map _)

/-! Every table that the calls build. -/

theorem Valid.empty : Valid ⟨[]⟩ := ⟨List.nodup_nil, by simp⟩

theorem Valid.advertise (h : t.Valid) : (t.advertise P peer nets approval now).1.Valid :=
  (reconciled_advertise h).valid

theorem Valid.expire (h : t.Valid) (ttl : Duration) : (t.expire ttl now).1.Valid := h.filter _

theorem Valid.apply (h : t.Valid) (op : Op) : (t.apply P op).Valid := by
  cases op with
  | advertise peer nets approval now => exact h.advertise
  | expire ttl now => exact h.expire ttl

theorem valid_run (P : Platform) (ops : List Op) : (run P ops).Valid := by
  induction ops using List.reverseRecOn with
  | nil => exact Valid.empty
  | append_singleton ops op ih =>
    rw [run, List.foldl_append]
    exact ih.apply op

/-! Lookups. -/

variable {dst : IpAddr}

/-- Networks of one length either coincide or share no address. -/
theorem net_eq_of_contains {m n : IpNetwork} (hm : ShadowVpn.canonical m = m)
    (hn : ShadowVpn.canonical n = n) (hlen : prefixLen m = prefixLen n)
    (ha : contains m dst = true) (hb : contains n dst = true) : m = n := by
  cases dst with
  | v4 a =>
    cases m with
    | v6 m => cases ha
    | v4 m =>
      cases n with
      | v6 n => cases hb
      | v4 n =>
        have heq := Cidr.eq_of_contains (IpNetwork.v4.inj hm) (IpNetwork.v4.inj hn)
          (UInt8.toNat_inj.1 hlen) ha hb
        rw [heq]
  | v6 a =>
    cases m with
    | v4 m => cases ha
    | v6 m =>
      cases n with
      | v4 n => cases hb
      | v6 n =>
        have heq := Cidr.eq_of_contains (IpNetwork.v6.inj hm) (IpNetwork.v6.inj hn)
          (UInt8.toNat_inj.1 hlen) ha hb
        rw [heq]

theorem mem_matching :
    r ∈ (t.routes.filter fun r => r.approved && contains r.net dst) ↔ Matches dst t r := by
  rw [List.mem_filter, Bool.and_eq_true]
  exact ⟨fun ⟨hm, ha, hc⟩ => ⟨hm, ha, hc⟩, fun ⟨hm, ha, hc⟩ => ⟨hm, ha, hc⟩⟩

theorem Valid.best_unique (h : t.Valid) {r r' : SubnetRoute} (hr : Best dst t r)
    (hr' : Matches dst t r') (hlen : prefixLen r'.net = prefixLen r.net) : r' = r := by
  apply h.eq_of_net_eq hr'.mem hr.mem
  exact net_eq_of_contains (h.canonical r' hr'.mem) (h.canonical r hr.mem) hlen hr'.contains
    hr.contains

theorem maxByPrefix_eq (rs : List SubnetRoute) :
    maxByPrefix rs = maxByKey (fun r => prefixLen r.net) rs := by
  unfold maxByPrefix maxByKey
  congr 1
  funext best r
  cases best with
  | none => rfl
  | some b => rfl

/-- The fold over the matching routes ends at the longest, wherever it stands. -/
theorem Valid.lookup_of_best (h : t.Valid) (hr : Best dst t r) : t.lookup dst = some r.peer := by
  have hmax : maxByPrefix (t.routes.filter fun r => r.approved && contains r.net dst) = some r := by
    rw [maxByPrefix_eq]
    apply maxByKey_eq_some (mem_matching.2 hr.toMatches)
    · intro x hx
      exact hr.longest x (mem_matching.1 hx)
    · intro x hx hlen
      exact h.best_unique hr (mem_matching.1 hx) hlen
  rw [lookup, hmax]
  rfl

theorem lookup_of_no_match (h : ∀ r, ¬ Matches dst t r) : t.lookup dst = none := by
  have hnil : (t.routes.filter fun r => r.approved && contains r.net dst) = [] := by
    rw [List.eq_nil_iff_forall_not_mem]
    intro r hr
    exact h r (mem_matching.1 hr)
  rw [lookup, hnil]
  rfl

theorem exists_best (h : ∃ r, Matches dst t r) : ∃ r, Best dst t r := by
  obtain ⟨r, hr⟩ := h
  rcases maxByKey_spec (fun r : SubnetRoute => prefixLen r.net)
      (t.routes.filter fun r => r.approved && contains r.net dst) with ⟨hnil, -⟩ | ⟨m, hm, -, hmax⟩
  · have hmem := mem_matching.2 hr
    rw [hnil] at hmem
    cases hmem
  · exact ⟨m, mem_matching.1 hm, fun x hx => hmax x (mem_matching.2 hx)⟩

theorem Valid.lookup_eq_some (h : t.Valid) {p : SocketAddr} :
    t.lookup dst = some p ↔ ∃ r, Best dst t r ∧ r.peer = p := by
  constructor
  · intro hp
    by_cases hex : ∃ r, Matches dst t r
    · obtain ⟨r, hr⟩ := exists_best hex
      rw [h.lookup_of_best hr] at hp
      exact ⟨r, hr, Option.some.inj hp⟩
    · rw [lookup_of_no_match (not_exists.1 hex)] at hp
      cases hp
  · rintro ⟨r, hr, rfl⟩
    exact h.lookup_of_best hr

theorem Valid.lookup_eq_none (h : t.Valid) : t.lookup dst = none ↔ ∀ r, ¬ Matches dst t r := by
  refine ⟨?_, lookup_of_no_match⟩
  intro hnone r hr
  obtain ⟨m, hm⟩ := exists_best ⟨r, hr⟩
  rw [h.lookup_of_best hm] at hnone
  cases hnone

theorem Valid.perm (h : t.Valid) {routes : List SubnetRoute} (hp : routes.Perm t.routes) :
    Valid ⟨routes⟩ where
  nodup := (hp.map _).nodup_iff.2 h.nodup
  canonical := fun r hr => h.canonical r (hp.mem_iff.1 hr)

theorem best_perm {routes : List SubnetRoute} (hp : routes.Perm t.routes) :
    Best dst ⟨routes⟩ r ↔ Best dst t r := by
  have hmatch : ∀ x, Matches dst ⟨routes⟩ x ↔ Matches dst t x := by
    intro x
    exact ⟨fun ⟨hm, ha, hc⟩ => ⟨hp.mem_iff.1 hm, ha, hc⟩, fun ⟨hm, ha, hc⟩ => ⟨hp.mem_iff.2 hm, ha, hc⟩⟩
  constructor
  · rintro ⟨hm, hl⟩
    exact ⟨(hmatch r).1 hm, fun x hx => hl x ((hmatch x).2 hx)⟩
  · rintro ⟨hm, hl⟩
    exact ⟨(hmatch r).2 hm, fun x hx => hl x ((hmatch x).1 hx)⟩

theorem Valid.lookup_perm (h : t.Valid) {routes : List SubnetRoute} (hp : routes.Perm t.routes) :
    lookup ⟨routes⟩ dst = t.lookup dst := by
  apply Option.ext
  intro p
  rw [(h.perm hp).lookup_eq_some, h.lookup_eq_some]
  simp only [best_perm hp]

/-- Routes that await approval are never consulted. -/
theorem lookup_approved (t : SubnetTable) (dst : IpAddr) :
    lookup ⟨t.routes.filter SubnetRoute.approved⟩ dst = t.lookup dst := by
  unfold lookup
  rw [List.filter_filter]
  congr 2
  apply List.filter_congr
  intro r _
  cases r.approved with
  | true => simp
  | false => rfl

theorem mem_routesFor : net ∈ t.routesFor peer ↔
    ∃ r ∈ t.routes, r.net = net ∧ r.approved = true ∧ r.peer ≠ peer := by
  simp only [routesFor, List.mem_map, List.mem_filter, Bool.and_eq_true, decide_eq_true_eq]
  constructor
  · rintro ⟨r, ⟨hr, ha, hp⟩, rfl⟩
    exact ⟨r, hr, rfl, ha, hp⟩
  · rintro ⟨r, hr, rfl, ha, hp⟩
    exact ⟨r, ⟨hr, ha, hp⟩, rfl⟩

theorem Valid.nodup_routesFor (h : t.Valid) (peer : SocketAddr) : (t.routesFor peer).Nodup :=
  h.nodup.sublist (List.filter_sublist.map _)

end SubnetTable

theorem Learned.valid_run (P : Platform) (ops : List Learned.Op) :
    (Learned.run P ops).subnets.Valid := by
  induction ops using List.reverseRecOn with
  | nil => exact SubnetTable.Valid.empty
  | append_singleton ops op ih =>
    rw [Learned.run, List.foldl_append]
    cases op with
    | learn src peer now => exact (learn_subnets _ src peer now).symm ▸ ih
    | unlearn ip lastPeer now ttl => exact (unlearn_subnets _ ip lastPeer now ttl).symm ▸ ih
    | expireClients ttl now => exact ih
    | subnets op => exact ih.apply op

end ShadowVpn
