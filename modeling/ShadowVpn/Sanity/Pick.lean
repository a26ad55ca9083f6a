import ShadowVpn.Spec.Book

/-! Address selection. `tryIp4` answers exactly for the usable addresses, and the probe loop,
which starts anywhere in the range and wraps once, tries every address of it. -/

namespace ShadowVpn

open Lib

namespace Assigner

variable {s : Assigner} {b : Book} {n : NodeId} {ip : Ipv4Addr} {want : Bool}

/-- An address that the tables let `n` have. -/
structure Usable (s : Assigner) (n : NodeId) (want : Bool) (ip : Ipv4Addr) : Prop where
  legal : s.policy.Legal ip
  free4 : ∀ m, s.byIp4.get ip = some m → m = n
  server6 : ∀ net, want → s.policy.embedNet = some net → embedIp4 net ip ≠ net.ip
  free6 : ∀ m a, s.policy.derive want ip = some a → s.byIp6.get a = some m → m = n

/-- Where the tables say what the book says, the same addresses are usable. -/
theorem usable_iff (hr : Refines s b) : s.Usable n want ip ↔ b.Usable s.policy n want ip := by
  have h4 : (∀ m, s.byIp4.get ip = some m → m = n) ↔
      ∀ m l, b.held m = some l → l.ip4 = ip → m = n := by
    simp only [hr.ip4 ip, hr.held, Option.some.injEq]
    constructor
    · intro h m l hl he
      exact h m ⟨l, hl, he⟩
    · rintro h m ⟨l, hl, he⟩
      exact h m l hl he
  have h6 : (∀ m a, s.policy.derive want ip = some a → s.byIp6.get a = some m → m = n) ↔
      ∀ m l a, b.held m = some l → s.policy.derive want ip = some a → l.ip6 = some a → m = n := by
    constructor
    · intro h m l a hl ha he
      exact h m a ha ((hr.ip6 a m).2 ⟨l, by rw [hr.held]; exact hl, he⟩)
    · intro h m a ha hm
      obtain ⟨l, hl, he⟩ := (hr.ip6 a m).1 hm
      rw [hr.held] at hl
      exact h m l a hl ha he
  exact ⟨fun h => ⟨h.1, h4.1 h.2, h.3, h6.1 h.4⟩, fun h => ⟨h.1, h4.2 h.2, h.3, h6.2 h.4⟩⟩

theorem usableIp4_iff :
    s.usableIp4 ip n = true ↔ s.policy.Legal ip ∧ ∀ m, s.byIp4.get ip = some m → m = n := by
  have hlegal : s.policy.Legal ip ↔
      inRange ip s.start s.end_ = true ∧ ¬ (ip = s.serverIp ∨ ip ∈ s.reserved) := by
    simp only [inRange, Bool.and_eq_true, decide_eq_true_eq, not_or]
    exact ⟨fun h => ⟨⟨h.1, h.2⟩, h.3, h.4⟩, fun h => ⟨h.1.1, h.1.2, h.2.1, h.2.2⟩⟩
  rw [hlegal]
  unfold usableIp4
  by_cases h1 : inRange ip s.start s.end_ = true
  · by_cases h2 : ip = s.serverIp ∨ ip ∈ s.reserved
    · simp [h1, h2]
    · cases s.byIp4.get ip <;> simp [h1, h2]
  · simp [h1]

theorem ip6For_of_no_net (h : want = false ∨ s.policy.embedNet = none) :
    s.ip6For ip n want = .none := by
  unfold ip6For
  rcases h with rfl | h
  · rfl
  · cases h6 : s.serverIp6 with
    | none => simp
    | some net =>
      have hp : net.prefixLen > 96 := by
        simpa [Policy.embedNet, policy, h6, Option.filter_some] using h
      simp [hp]

theorem ip6For_of_net {net : Ipv6Network} (h : s.policy.embedNet = some net) :
    s.ip6For ip n true =
      if embedIp4 net ip = net.ip then .skipV4
      else if ∀ m, s.byIp6.get (embedIp4 net ip) = some m → m = n then .some (embedIp4 net ip)
      else .skipV4 := by
  obtain ⟨h6, hp⟩ := Option.filter_eq_some_iff.1 h
  have h6' : s.serverIp6 = some net := h6
  have hp' : ¬ net.prefixLen > 96 := UInt8.not_lt.2 (by simpa using hp)
  unfold ip6For
  simp only [h6', hp', Bool.not_true, Bool.false_eq_true, if_false]
  congr 1
  cases s.byIp6.get (embedIp4 net ip) with
  | none => simp
  | some owner => by_cases hn : owner = n <;> simp [hn]

theorem derive_of_no_net {p : Policy} (h : want = false ∨ p.embedNet = none) :
    p.derive want ip = none := by
  unfold Policy.derive
  rcases h with rfl | h
  · rfl
  · simp [h]

/-- An address is offered exactly when it is usable, with its derived companion. -/
theorem tryIp4_iff {pair : Ipv4Addr × Option Ipv6Addr} :
    s.tryIp4 n ip want = some pair ↔
      s.Usable n want ip ∧ pair = (ip, s.policy.derive want ip) := by
  have hsplit : s.Usable n want ip ↔ s.usableIp4 ip n = true ∧
      (∀ net, want → s.policy.embedNet = some net → embedIp4 net ip ≠ net.ip) ∧
      ∀ m a, s.policy.derive want ip = some a → s.byIp6.get a = some m → m = n := by
    rw [usableIp4_iff]
    exact ⟨fun h => ⟨⟨h.1, h.2⟩, h.3, h.4⟩, fun h => ⟨h.1.1, h.1.2, h.2.1, h.2.2⟩⟩
  rw [hsplit]
  unfold tryIp4
  by_cases h4 : s.usableIp4 ip n = true
  swap
  · simp [h4]
  by_cases hno : want = false ∨ s.policy.embedNet = none
  · have hserver : ∀ net, want → s.policy.embedNet = some net → embedIp4 net ip ≠ net.ip := by
      intro net hw hnet
      rcases hno with rfl | hno
      · cases hw
      · rw [hno] at hnet
        cases hnet
    simp only [h4, ip6For_of_no_net hno, derive_of_no_net hno, Bool.not_true, Bool.false_eq_true,
      if_false]
    refine ⟨fun h => ⟨⟨trivial, hserver, fun m a ha => by cases ha⟩, (Option.some.inj h).symm⟩, ?_⟩
    rintro ⟨-, rfl⟩
    rfl
  · obtain ⟨hw, hnet⟩ := not_or.1 hno
    obtain ⟨net, hnet⟩ := Option.ne_none_iff_exists'.1 hnet
    have hwant : want = true := by simpa using hw
    subst hwant
    have hd : s.policy.derive true ip = some (embedIp4 net ip) := by
      simp [Policy.derive, hnet]
    have howner : (∀ m a, s.policy.derive true ip = some a → s.byIp6.get a = some m → m = n) ↔
        ∀ m, s.byIp6.get (embedIp4 net ip) = some m → m = n := by
      simp [hd]
    have hserver : (∀ net', true = true → s.policy.embedNet = some net' →
        embedIp4 net' ip ≠ net'.ip) ↔ embedIp4 net ip ≠ net.ip := by
      simp [hnet]
    rw [howner, hserver, ip6For_of_net hnet, hd]
    by_cases h5 : embedIp4 net ip = net.ip
    · simp [h4, h5]
    · by_cases h6 : ∀ m, s.byIp6.get (embedIp4 net ip) = some m → m = n
      · simp only [h4, h5, if_pos h6, Bool.not_true, Bool.false_eq_true, if_false]
        refine ⟨fun h => ⟨⟨trivial, h5, h6⟩, (Option.some.inj h).symm⟩, ?_⟩
        rintro ⟨-, rfl⟩
        rfl
      · simp only [h4, h5, if_neg h6, Bool.not_true, Bool.false_eq_true, if_false]
        simp [h6]

theorem tryIp4_eq_none_iff : s.tryIp4 n ip want = none ↔ ¬ s.Usable n want ip := by
  rw [Option.eq_none_iff_forall_ne_some]
  constructor
  · intro h husable
    exact h _ (tryIp4_iff.2 ⟨husable, rfl⟩)
  · intro h pair hp
    exact h (tryIp4_iff.1 hp).1

/-! The probe loop. Candidates are counted from `start`, modulo the span. -/

theorem tryIp4_eq_none_of_range (h : ¬ (s.start ≤ ip ∧ ip ≤ s.end_)) :
    s.tryIp4 n ip want = none :=
  tryIp4_eq_none_iff.2 fun hu => h ⟨hu.legal.ge_start, hu.legal.le_end⟩

/-- The wrap of the loop stays in the range and never overflows. -/
theorem next_cand (P : Platform) {cand : BitVec 32} {r : ℕ} (hse : s.start ≤ s.end_)
    (hc : cand.toNat = s.start.toNat + r) (hrlt : r < s.end_.toNat - s.start.toNat + 1) :
    ∃ next : BitVec 32, s.nextCand P cand = .ok next ∧
      next.toNat = s.start.toNat + (r + 1) % (s.end_.toNat - s.start.toNat + 1) := by
  have hse' : s.start.toNat ≤ s.end_.toNat := hse
  have hend := s.end_.isLt
  by_cases hge : cand ≥ s.end_
  · have hge' : s.end_.toNat ≤ cand.toNat := hge
    refine ⟨s.start, by simp [nextCand, hge], ?_⟩
    rw [show r + 1 = s.end_.toNat - s.start.toNat + 1 by omega, Nat.mod_self, Nat.add_zero]
  · have hlt : cand.toNat < s.end_.toNat := Nat.lt_of_not_le hge
    have hone : (1 : BitVec 32).toNat = 1 := rfl
    refine ⟨cand + 1, ?_, ?_⟩
    · rw [nextCand, if_neg hge, Platform.addU32, if_pos (Or.inl (by omega))]
    · rw [BitVec.toNat_add, hone, Nat.mod_eq_of_lt (by omega), Nat.mod_eq_of_lt (by omega)]
      omega

/-- `k` turns from offset `r` either find an address or have tried `k` of them. -/
theorem probe_cases (P : Platform) (n : NodeId) (want : Bool) (hse : s.start ≤ s.end_) :
    ∀ (k r : ℕ) (cand : BitVec 32), cand.toNat = s.start.toNat + r →
      r < s.end_.toNat - s.start.toNat + 1 →
      (∃ pair ip, s.probe P n want k cand = .ok (some pair) ∧ s.tryIp4 n ip want = some pair) ∨
      (s.probe P n want k cand = .ok none ∧
        ∀ j < k, ∀ ip : BitVec 32,
          ip.toNat = s.start.toNat + (r + j) % (s.end_.toNat - s.start.toNat + 1) →
            s.tryIp4 n ip want = none) := by
  intro k
  induction k with
  | zero =>
    intro r cand _ _
    exact Or.inr ⟨rfl, fun j hj => absurd hj (Nat.not_lt_zero j)⟩
  | succ k ih =>
    intro r cand hc hrlt
    cases ht : s.tryIp4 n cand want with
    | some pair => exact Or.inl ⟨pair, cand, by simp [probe, ht], ht⟩
    | none =>
      obtain ⟨next, hnext, hval⟩ := next_cand P hse hc hrlt
      have hstep : s.probe P n want (k + 1) cand = s.probe P n want k next := by
        simp only [probe, ht, hnext]
        rfl
      rw [hstep]
      rcases ih _ next hval (Nat.mod_lt _ (by omega)) with hfound | ⟨hnone, htried⟩
      · exact Or.inl hfound
      · refine Or.inr ⟨hnone, fun j hj ip hip => ?_⟩
        rcases Nat.eq_zero_or_pos j with rfl | hpos
        · have heq : ip = cand := by
            apply BitVec.eq_of_toNat_eq
            rw [hip, hc, Nat.add_zero, Nat.mod_eq_of_lt hrlt]
          rw [heq]
          exact ht
        · apply htried (j - 1) (by omega) ip
          rw [hip, Nat.mod_add_mod, show r + 1 + (j - 1) = r + j by omega]

/-- What `end - start + 1` comes to when the remainder by it is defined. -/
theorem span_toNat {P : Platform} {span offset : BitVec 32} (hse : s.start ≤ s.end_)
    (hs : s.span P = .ok span) (ho : sha256Offset P n span = .ok offset) :
    span.toNat = s.end_.toNat - s.start.toNat + 1 ∧ offset.toNat < span.toNat := by
  have hse' : s.start.toNat ≤ s.end_.toNat := hse
  have hend := s.end_.isLt
  have hsub : (s.end_ - s.start).toNat = s.end_.toNat - s.start.toNat :=
    BitVec.toNat_sub_of_le hse
  have hone : (1 : BitVec 32).toNat = 1 := rfl
  unfold sha256Offset at ho
  split_ifs at ho with hzero
  unfold Assigner.span Platform.addU32 at hs
  split_ifs at hs
  cases hs
  cases ho
  have hpos : s.end_ - s.start + 1 ≠ 0 := hzero
  have hval : (s.end_ - s.start + 1).toNat = (s.end_.toNat - s.start.toNat + 1) % 2 ^ 32 := by
    rw [BitVec.toNat_add, hsub, hone]
  have hne : (s.end_ - s.start + 1).toNat ≠ 0 := by
    intro h
    exact hpos (BitVec.eq_of_toNat_eq h)
  have hsmall : s.end_.toNat - s.start.toNat + 1 < 2 ^ 32 := by
    by_contra hbig
    have hfull : s.end_.toNat - s.start.toNat + 1 = 2 ^ 32 := by omega
    rw [hval, hfull, Nat.mod_self] at hne
    exact hne rfl
  refine ⟨by rw [hval, Nat.mod_eq_of_lt hsmall], ?_⟩
  rw [BitVec.toNat_umod]
  exact Nat.mod_lt _ (Nat.pos_of_ne_zero hne)

/-- What is left of a selection once the hint is refused: the loop, from the offset on. -/
theorem pickAddrs_eq_probe {P : Platform} {hint : Ipv4Addr} {span offset : BitVec 32}
    (ht : s.tryIp4 n hint want = none) (hse : s.start ≤ s.end_) (hs : s.span P = .ok span)
    (ho : sha256Offset P n span = .ok offset) :
    (s.start + offset).toNat = s.start.toNat + offset.toNat ∧
      s.pickAddrs P n hint want = s.probe P n want span.toNat (s.start + offset) := by
  obtain ⟨hspan, hlt⟩ := span_toNat hse hs ho
  have hse' : s.start.toNat ≤ s.end_.toNat := hse
  have hend := s.end_.isLt
  have hcand : P.addU32 s.start offset = .ok (s.start + offset) := by
    rw [Platform.addU32, if_pos (Or.inl (by omega))]
  refine ⟨by rw [BitVec.toNat_add, Nat.mod_eq_of_lt (by omega)], ?_⟩
  simp only [pickAddrs, ht, if_neg (BitVec.not_lt.2 hse), hs, ho, hcand, bind, Except.bind]

/-- A pick is an offered address, and no pick means that none is offered. -/
theorem pickAddrs_cases {P : Platform} {hint : Ipv4Addr}
    {r : Option (Ipv4Addr × Option Ipv6Addr)} (h : s.pickAddrs P n hint want = .ok r) :
    (∃ pair ip, r = some pair ∧ s.tryIp4 n ip want = some pair) ∨
      (r = none ∧ ∀ ip, s.tryIp4 n ip want = none) := by
  have hpick := h
  unfold pickAddrs at h
  cases ht : s.tryIp4 n hint want with
  | some pair =>
    rw [ht] at h
    cases h
    exact Or.inl ⟨pair, hint, rfl, ht⟩
  | none =>
    simp only [ht] at h
    split_ifs at h with hempty
    · cases h
      refine Or.inr ⟨rfl, fun ip => tryIp4_eq_none_of_range ?_⟩
      rintro ⟨h1, h2⟩
      have h1' : s.start.toNat ≤ ip.toNat := h1
      have h2' : ip.toNat ≤ s.end_.toNat := h2
      have h3' : s.end_.toNat < s.start.toNat := hempty
      omega
    · have hse : s.start ≤ s.end_ := Nat.le_of_not_lt hempty
      obtain ⟨span, hs, hrest⟩ := bind_eq_ok.1 h
      obtain ⟨offset, ho, -⟩ := bind_eq_ok.1 hrest
      obtain ⟨hspan, hlt⟩ := span_toNat hse hs ho
      obtain ⟨hcval, heq⟩ := pickAddrs_eq_probe ht hse hs ho
      rw [heq] at hpick
      rcases probe_cases P n want hse span.toNat offset.toNat _ hcval (by omega) with
        ⟨pair, ip, hp, htry⟩ | ⟨hp, htried⟩
      · rw [hp] at hpick
        cases hpick
        exact Or.inl ⟨pair, ip, rfl, htry⟩
      · rw [hp] at hpick
        cases hpick
        refine Or.inr ⟨rfl, fun ip => ?_⟩
        by_cases hin : s.start ≤ ip ∧ ip ≤ s.end_
        · have h1 : s.start.toNat ≤ ip.toNat := hin.1
          have h2 : ip.toNat ≤ s.end_.toNat := hin.2
          -- the turn at which the loop, started at `offset`, comes to `ip`
          apply htried ((ip.toNat - s.start.toNat + span.toNat - offset.toNat) % span.toNat)
            (Nat.mod_lt _ (by omega)) ip
          rw [← hspan, Nat.add_mod_mod,
            show offset.toNat + (ip.toNat - s.start.toNat + span.toNat - offset.toNat) =
              ip.toNat - s.start.toNat + span.toNat by omega,
            Nat.add_mod_right, Nat.mod_eq_of_lt (by omega)]
          omega
        · exact tryIp4_eq_none_of_range hin

/-- The arithmetic of a selection stays within the word unless the range is all of it. -/
theorem pickAddrs_total (P : Platform) (n : NodeId) (hint : Ipv4Addr) (want : Bool)
    (hfit : s.end_.toNat - s.start.toNat + 1 < 2 ^ 32) :
    ∃ r, s.pickAddrs P n hint want = .ok r := by
  cases ht : s.tryIp4 n hint want with
  | some pair => exact ⟨some pair, by simp only [pickAddrs, ht]⟩
  | none =>
    by_cases hempty : s.end_ < s.start
    · exact ⟨none, by simp only [pickAddrs, ht, if_pos hempty]⟩
    · have hse : s.start ≤ s.end_ := BitVec.not_lt.1 hempty
      have hone : (1 : BitVec 32).toNat = 1 := rfl
      have hsub : (s.end_ - s.start).toNat = s.end_.toNat - s.start.toNat :=
        BitVec.toNat_sub_of_le hse
      have hs : s.span P = .ok (s.end_ - s.start + 1) := by
        rw [Assigner.span, Platform.addU32, if_pos (Or.inl (by omega))]
      have hne : s.end_ - s.start + 1 ≠ 0 := by
        intro hzero
        have htoNat := congrArg BitVec.toNat hzero
        rw [BitVec.toNat_add, hsub, hone, Nat.mod_eq_of_lt hfit] at htoNat
        cases htoNat
      obtain ⟨offset, ho⟩ : ∃ offset, sha256Offset P n (s.end_ - s.start + 1) = .ok offset := by
        unfold sha256Offset
        rw [if_neg hne]
        exact ⟨_, rfl⟩
      obtain ⟨hspan, hlt⟩ := span_toNat hse hs ho
      obtain ⟨hcval, heq⟩ := pickAddrs_eq_probe ht hse hs ho
      rw [heq]
      rcases probe_cases P n want hse (s.end_ - s.start + 1).toNat offset.toNat _ hcval (by omega)
        with ⟨pair, ip, hp, -⟩ | ⟨hp, -⟩
      · exact ⟨_, hp⟩
      · exact ⟨_, hp⟩

end Assigner

end ShadowVpn
