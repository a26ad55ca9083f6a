import ShadowVpn.Lib.Mask
import ShadowVpn.Spec.Policy

/-! The domestic ranges: what a line stands for, what merging keeps, and what the search finds. -/

namespace ShadowVpn

open Lib

abbrev AddrRange := Ipv4Addr × Ipv4Addr

/-! Lines. -/

/-- A line that is an address and a length, apart from blanks. -/
structure LineNetwork (parseAddr : Text → Option Ipv4Addr) (line : Text) (net : Ipv4Network) :
    Prop where
  uncommented : (trim line).head? ≠ some '#'
  fields : ∃ addr len, trim line = addr ++ '/' :: len ∧ '/' ∉ addr ∧
    parseAddr (trim addr) = some net.ip ∧ parseU32 (trim len) = some net.prefixLen.toNat

theorem splitOnce_cons (sep c : Char) (s : Text) :
    splitOnce sep (c :: s) =
      if c = sep then some ([], s) else (splitOnce sep s).map fun p => (c :: p.1, p.2) := by
  by_cases hc : c = sep
  · simp [splitOnce, hc]
  · simp only [splitOnce, if_neg hc]
    rw [List.dropWhile_cons_of_pos (by simpa using hc), List.takeWhile_cons_of_pos (by simpa using hc)]
    cases s.dropWhile fun c => c ≠ sep <;> rfl

theorem splitOnce_eq_some {sep : Char} {s addr len : Text} :
    splitOnce sep s = some (addr, len) ↔ s = addr ++ sep :: len ∧ sep ∉ addr := by
  induction s generalizing addr with
  | nil => simp [splitOnce]
  | cons c s ih =>
    rw [splitOnce_cons]
    by_cases hc : c = sep
    · rw [if_pos hc]
      cases addr with
      | nil => simp [hc]
      | cons d addr =>
        simp only [List.cons_append, List.cons.injEq, List.mem_cons, not_or]
        refine ⟨(fun h => by cases h), ?_⟩
        rintro ⟨⟨rfl, -⟩, hne, -⟩
        exact absurd hc.symm hne
    · rw [if_neg hc, Option.map_eq_some_iff]
      cases addr with
      | nil =>
        refine ⟨?_, ?_⟩
        · rintro ⟨p, -, hp⟩
          cases hp
        · rintro ⟨h, -⟩
          exact absurd (List.cons.inj h).1 hc
      | cons d addr =>
        simp only [List.cons_append, List.cons.injEq, List.mem_cons, not_or]
        refine ⟨?_, ?_⟩
        · rintro ⟨⟨addr', len'⟩, hsplit, heq⟩
          cases heq
          obtain ⟨rfl, hnot⟩ := ih.1 hsplit
          exact ⟨⟨rfl, rfl⟩, Ne.symm hc, hnot⟩
        · rintro ⟨⟨rfl, hs⟩, -, hnot⟩
          exact ⟨(addr, len), ih.2 ⟨hs, hnot⟩, rfl⟩

theorem contiguous_mask (net : Ipv4Network) : Mask.Contiguous net.mask := by
  intro j hj i hij hset
  simp only [Cidr.mask, BitVec.getLsbD_shiftLeft, BitVec.getLsbD_allOnes, Bool.and_eq_true,
    decide_eq_true_eq, Bool.not_eq_true', decide_eq_false_iff_not] at hset ⊢
  omega

theorem contains_iff (net : Ipv4Network) (ip : Ipv4Addr) :
    net.contains ip = true ↔ net.network ≤ ip ∧ ip ≤ net.network ||| ~~~net.mask := by
  rw [Cidr.contains, beq_iff_eq]
  refine ⟨?_, ?_⟩
  · intro h
    rw [← h]
    exact ⟨Mask.first_le, Mask.le_last⟩
  · rintro ⟨hlo, hhi⟩
    exact (contiguous_mask net).and_eq_of_between hlo hhi

/-- The mask as it is computed, where a shift by the whole width is avoided. -/
theorem mask_eq (net : Ipv4Network) :
    (if net.prefixLen.toNat = 0 then (0 : Ipv4Addr)
      else BitVec.allOnes 32 <<< (32 - net.prefixLen.toNat)) = net.mask := by
  rw [Cidr.mask]
  split_ifs with hzero
  · rw [hzero]
    rfl
  · rfl

/-- The range of a line is its network, from the first address to the last. -/
theorem parseCidr_eq_some {parseAddr : Text → Option Ipv4Addr} {line : Text} {r : AddrRange} :
    parseCidr parseAddr line = some r ↔
      ∃ net, LineNetwork parseAddr line net ∧ r = (net.network, net.network ||| ~~~net.mask) := by
  refine ⟨?_, ?_⟩
  · intro h
    unfold parseCidr at h
    dsimp only at h
    split at h
    · cases h
    rename_i htest
    obtain ⟨⟨addr, len⟩, hsplit, h⟩ := Option.bind_eq_some_iff.1 h
    obtain ⟨base, hbase, h⟩ := Option.bind_eq_some_iff.1 h
    obtain ⟨n, hn, h⟩ := Option.bind_eq_some_iff.1 h
    split at h
    · cases h
    rename_i hle
    obtain ⟨hfields, hslash⟩ := splitOnce_eq_some.1 hsplit
    obtain ⟨bits, rfl⟩ : ∃ bits : UInt8, bits.toNat = n := by
      refine ⟨UInt8.ofNat n, ?_⟩
      rw [UInt8.toNat_ofNat']
      omega
    have hmask : (if bits.toNat = 0 then (0 : Ipv4Addr)
        else BitVec.allOnes 32 <<< (32 - bits.toNat)) =
          Cidr.mask ⟨base, bits, Nat.le_of_not_lt hle⟩ :=
      mask_eq ⟨base, bits, Nat.le_of_not_lt hle⟩
    rw [hmask] at h
    refine ⟨⟨base, bits, Nat.le_of_not_lt hle⟩, ⟨?_, addr, len, hfields, hslash, hbase, hn⟩,
      (Option.some.inj h).symm⟩
    intro hhead
    simp [hhead] at htest
  · rintro ⟨net, ⟨hhead, addr, len, hfields, hslash, hbase, hlen⟩, rfl⟩
    have htest : ¬ ((trim line).isEmpty || (trim line).head? == some '#') = true := by
      rw [Bool.or_eq_true, beq_iff_eq, or_iff_left hhead, hfields]
      simp
    have hle := net.len_le
    unfold parseCidr
    dsimp only
    rw [if_neg htest, splitOnce_eq_some.2 ⟨hfields, hslash⟩]
    simp only [Option.bind_eq_bind, Option.bind_some, hbase, hlen, mask_eq, if_neg (Nat.not_lt.2 hle)]
    rfl

/-! Merging. -/

theorem rangeLe_iff (a b : AddrRange) : rangeLe a b = true ↔
    a.1.toNat < b.1.toNat ∨ (a.1.toNat = b.1.toNat ∧ a.2.toNat ≤ b.2.toNat) := by
  simp [rangeLe, BitVec.lt_def, BitVec.le_def, BitVec.toNat_inj]

theorem rangeLe_trans (a b c : AddrRange) (hab : rangeLe a b = true) (hbc : rangeLe b c = true) :
    rangeLe a c = true := by
  rw [rangeLe_iff] at *
  omega

theorem rangeLe_total (a b : AddrRange) : (rangeLe a b || rangeLe b a) = true := by
  rw [Bool.or_eq_true, rangeLe_iff, rangeLe_iff]
  omega

theorem meetsLast_iff (a b : Ipv4Addr) :
    meetsLast a b = true ↔ b.toNat ≤ a.toNat ∨ a.toNat ⋖ b.toNat := by
  have hb := b.isLt
  have hmax : a ≠ BitVec.allOnes 32 ↔ a.toNat + 1 < 2 ^ 32 := by
    rw [Ne, ← BitVec.toNat_inj, BitVec.toNat_allOnes]
    have ha := a.isLt
    omega
  have hnext : a.toNat + 1 < 2 ^ 32 → (b = a + 1 ↔ a.toNat + 1 = b.toNat) := by
    intro hlt
    have hone : (1 : BitVec 32).toNat = 1 := rfl
    rw [← BitVec.toNat_inj, BitVec.toNat_add, hone, Nat.mod_eq_of_lt hlt]
    exact eq_comm
  simp only [meetsLast, Bool.or_eq_true, Bool.and_eq_true, bne_iff_ne, beq_iff_eq,
    decide_eq_true_eq, hmax, BitVec.le_def, Nat.covBy_iff_add_one_eq]
  by_cases hlt : a.toNat + 1 < 2 ^ 32
  · rw [hnext hlt]
    omega
  · omega

theorem merged_merge {ranges : List AddrRange} (h : ∀ r ∈ ranges, r.1 ≤ r.2) :
    Merged BitVec.toNat (ranges.mergeSort rangeLe) (merge ranges) := by
  refine merged_foldl meetsLast_iff ?_ _ ?_ ?_
  · intro a b
    rw [decide_eq_true_eq, BitVec.lt_def]
  · intro r hr
    exact BitVec.le_def.1 (h r (List.mem_mergeSort.1 hr))
  · refine (List.pairwise_mergeSort rangeLe_trans rangeLe_total ranges).imp ?_
    intro a b hab
    rw [rangeLe_iff] at hab
    omega

/-! Searching. -/

theorem compare_toNat (a b : Ipv4Addr) : compare a b = compare a.toNat b.toNat := by
  simp only [compare, compareOfLessAndEq, BitVec.lt_def, BitVec.toNat_inj]

theorem sorted_of_separated {out : List AddrRange} (h : Separated BitVec.toNat out) :
    out.Pairwise fun a b => a.1.toNat ≤ b.1.toNat := by
  refine h.apart.imp_of_mem ?_
  intro a b ha _ hab
  exact le_of_lt (lt_of_le_of_lt (h.nonempty a ha) hab.1)

theorem apart_getElem? {out : List AddrRange} (h : Separated BitVec.toNat out) {i j : ℕ}
    {a b : AddrRange} (hij : i < j) (ha : out[i]? = some a) (hb : out[j]? = some b) :
    a.2.toNat < b.1.toNat := by
  obtain ⟨hi, rfl⟩ := List.getElem?_eq_some_iff.1 ha
  obtain ⟨hj, rfl⟩ := List.getElem?_eq_some_iff.1 hb
  exact (List.pairwise_iff_getElem.1 h.apart i j hi hj hij).1

theorem search_correct {t : ChnRoute} (h : Separated BitVec.toNat t.ranges) (ip : Ipv4Addr) :
    (binarySearchBy (fun range : AddrRange => compare range.1 ip) t.ranges).Correct
      (fun r => r.1.toNat) ip.toNat t.ranges :=
  binarySearchBy_correct (fun r => compare_toNat r.1 ip) (sorted_of_separated h)

/-- Counting the ranges that start before an address is as good as searching. -/
theorem checked_contains {t : ChnRoute} (h : Separated BitVec.toNat t.ranges) (ip : Ipv4Addr) :
    Checked.contains t ip = .ok (t.contains ip) := by
  have hsearch := search_correct h ip
  unfold Checked.contains ChnRoute.contains
  cases hfound : binarySearchBy (fun range : AddrRange => compare range.1 ip) t.ranges with
  | found i =>
    rw [hfound] at hsearch
    obtain ⟨r, hr, heq⟩ := hsearch
    have hany : (t.ranges.any fun range => decide (range.1 = ip)) = true :=
      List.any_eq_true.2 ⟨r, List.mem_of_getElem? hr, decide_eq_true (BitVec.toNat_inj.1 heq)⟩
    rw [if_pos hany]
  | insert i =>
    rw [hfound] at hsearch
    have hany : ¬ (t.ranges.any fun range => decide (range.1 = ip)) = true := by
      intro hany
      obtain ⟨r, hmem, heq⟩ := List.any_eq_true.1 hany
      obtain ⟨j, hj⟩ := List.getElem?_of_mem hmem
      have hip : r.1.toNat = ip.toNat := congrArg BitVec.toNat (of_decide_eq_true heq)
      exact hsearch.ne hj hip
    have hcount : (t.ranges.countP fun range => decide (range.1 < ip)) = i := by
      rw [← hsearch.countP]
      rfl
    rw [if_neg hany, hcount]
    cases i with
    | zero => rfl
    | succ idx =>
      have hidx : idx < t.ranges.length := hsearch.le_length
      dsimp only
      rw [List.getElem?_eq_getElem hidx]
      rfl

/-- The table holds the addresses of its ranges: the last range that starts at or before an
address is the only one that can hold it. -/
theorem contains_iff_covers {t : ChnRoute} (h : Separated BitVec.toNat t.ranges) (ip : Ipv4Addr) :
    t.contains ip = true ↔ Covers BitVec.toNat t.ranges ip.toNat := by
  have hok := checked_contains h ip
  have hsearch := search_correct h ip
  unfold Checked.contains at hok
  cases hfound : binarySearchBy (fun range : AddrRange => compare range.1 ip) t.ranges with
  | found i =>
    rw [hfound] at hsearch hok
    obtain ⟨r, hr, heq⟩ := hsearch
    have hmem := List.mem_of_getElem? hr
    rw [← Except.ok.inj hok]
    exact ⟨fun _ => ⟨r, hmem, le_of_eq heq, heq ▸ h.nonempty r hmem⟩, fun _ => rfl⟩
  | insert i =>
    rw [hfound] at hsearch hok
    cases i with
    | zero =>
      rw [← Except.ok.inj hok]
      refine ⟨(fun hf => by cases hf), ?_⟩
      rintro ⟨r, hmem, hlo, -⟩
      obtain ⟨j, hj⟩ := List.getElem?_of_mem hmem
      exact absurd hlo (not_le_of_gt (hsearch.above j r (Nat.zero_le _) hj))
    | succ idx =>
      have hidx : idx < t.ranges.length := hsearch.le_length
      have hget := List.getElem?_eq_getElem hidx
      dsimp only at hok
      rw [hget] at hok
      rw [← Except.ok.inj hok, decide_eq_true_eq, BitVec.le_def]
      have hstart := hsearch.below idx _ (Nat.lt_succ_self idx) hget
      refine ⟨fun hle => ⟨_, List.getElem_mem hidx, le_of_lt hstart, hle⟩, ?_⟩
      rintro ⟨r, hmem, hlo, hhi⟩
      obtain ⟨j, hj⟩ := List.getElem?_of_mem hmem
      -- a range further on starts after the address, one further back ends before it
      rcases Nat.lt_trichotomy j idx with hlt | rfl | hgt
      · have hbefore := apart_getElem? h hlt hj hget
        omega
      · cases hget.symm.trans hj
        exact hhi
      · exact absurd hlo (not_le_of_gt (hsearch.above j r hgt hj))

end ShadowVpn
