import ShadowVpn.Sanity.Wire
import ShadowVpn.Spec.Nat

/-! Rewriting an address: which fields of a packet it writes, and what the adjusted
checksums are modulo the one's-complement sum. -/

namespace ShadowVpn

open Lib

variable {pkt : Bytes} {off pos k n : ℕ} {old new : Bytes} {a ip : Ipv4Addr}

/-! Accepted packets. -/

/-- An IPv4 header that fits the packet. -/
structure WellFormed (pkt : Bytes) : Prop where
  version : pkt.getD 0 0 >>> 4 = 4
  ihl_ge : 20 ≤ ihl pkt
  ihl_le : ihl pkt ≤ pkt.length

theorem addrAt_eq_some :
    addrAt pkt off = some a ↔ WellFormed pkt ∧ BitVec.ofNat 32 (wordAt pkt off 4) = a := by
  unfold addrAt
  split_ifs with h1 h2
  · refine iff_of_false (by simp) ?_
    rintro ⟨hw, -⟩
    have h20 := hw.ihl_ge
    have hle := hw.ihl_le
    rcases h1 with h1 | h1
    · omega
    · exact absurd hw.version h1
  · refine iff_of_false (by simp) ?_
    rintro ⟨hw, -⟩
    have h20 := hw.ihl_ge
    have hle := hw.ihl_le
    omega
  · rw [not_or, not_not] at h1
    rw [Option.some.injEq, and_iff_right]
    exact ⟨h1.2, by omega, by omega⟩

theorem addrAt_eq_none : addrAt pkt off = none ↔ ¬ WellFormed pkt := by
  constructor
  · intro hnone hw
    have hsome : addrAt pkt off = some _ := addrAt_eq_some.2 ⟨hw, rfl⟩
    rw [hnone] at hsome
    cases hsome
  · intro hw
    rw [Option.eq_none_iff_forall_ne_some]
    intro a ha
    exact hw (addrAt_eq_some.1 ha).1

theorem WellFormed.length_ge (h : WellFormed pkt) : 20 ≤ pkt.length :=
  h.ihl_ge.trans h.ihl_le

/-! Fields. -/

theorem wordAt_eq_ofBE (pkt : Bytes) (off n : ℕ) :
    wordAt pkt off n = ofBE ((pkt.drop off).take n) := rfl

/-- A field apart from the one written reads as before. -/
theorem field_splice_of_disjoint (h : pos + new.length ≤ pkt.length)
    (hd : off + n ≤ pos ∨ pos + new.length ≤ off) :
    ((splice pkt pos new).drop off).take n = (pkt.drop off).take n := by
  apply List.ext_getElem?
  intro j
  rw [List.getElem?_take, List.getElem?_take, List.getElem?_drop, List.getElem?_drop,
    getElem?_splice h]
  split_ifs <;> first | rfl | omega

/-- A field of a front part is a field of the whole. -/
theorem field_take (h : off + n ≤ k) : ((pkt.take k).drop off).take n = (pkt.drop off).take n := by
  rw [List.drop_take, List.take_take, Nat.min_eq_left (by omega)]

theorem wordAt_splice_of_disjoint (h : pos + new.length ≤ pkt.length)
    (hd : off + n ≤ pos ∨ pos + new.length ≤ off) :
    wordAt (splice pkt pos new) off n = wordAt pkt off n := by
  rw [wordAt_eq_ofBE, field_splice_of_disjoint h hd, wordAt_eq_ofBE]

theorem getD_splice_of_disjoint {d : UInt8} (h : pos + new.length ≤ pkt.length)
    (hd : k < pos ∨ pos + new.length ≤ k) : (splice pkt pos new).getD k d = pkt.getD k d := by
  rw [List.getD_eq_getElem?_getD, getElem?_splice h, if_neg (by omega),
    List.getD_eq_getElem?_getD]

theorem ihl_splice (h : pos + new.length ≤ pkt.length) (hpos : 0 < pos) :
    ihl (splice pkt pos new) = ihl pkt := by
  rw [ihl, getD_splice_of_disjoint h (Or.inl hpos), ihl]

/-- Two bytes summed are the word they spell. -/
theorem wordSum_of_length_two {w : Bytes} (h : w.length = 2) : wordSum w = ofBE w := by
  obtain ⟨a, b, rfl⟩ := List.length_eq_two.1 h
  simp [wordSum, ofBE]

theorem wordAt_lt (pkt : Bytes) (pos : ℕ) : wordAt pkt pos 2 < 65536 := by
  have hlt := ofBE_lt ((pkt.drop pos).take 2)
  have hlen : ((pkt.drop pos).take 2).length ≤ 2 := List.length_take_le _ _
  have hpow := Nat.pow_le_pow_right (show 0 < 256 by decide) hlen
  rw [wordAt_eq_ofBE]
  omega

/-! Adjusted checksums. -/

theorem adjustSum_add (sum : ℕ) (hlen : old.length = new.length) (heven : old.length % 2 = 0) :
    adjustSum sum old new + wordSum old = sum + wordSum new + 65535 * (old.length / 2) := by
  induction sum, old, new using adjustSum.induct with
  | case1 sum a b old c d new ih =>
    simp only [List.length_cons] at hlen heven ⊢
    have hsum := ih (by omega) (by omega)
    have ha := a.toNat_lt
    have hb := b.toNat_lt
    have hab : ofBE [a, b] = a.toNat * 256 + b.toNat := by simp [ofBE]
    have hcd : ofBE [c, d] = c.toNat * 256 + d.toNat := by simp [ofBE]
    rw [adjustSum, wordSum, wordSum]
    omega
  | case2 old sum new hno =>
    -- words of the same even length either both go on or are both over
    rcases old with _ | ⟨a, _ | ⟨b, old⟩⟩
    · obtain rfl : new = [] := List.length_eq_zero_iff.1 hlen.symm
      simp [adjustSum, wordSum]
    · simp at heven
    · rcases new with _ | ⟨c, _ | ⟨d, new⟩⟩
      · simp at hlen
      · simp at hlen
      · exact (hno a b old c d new rfl rfl).elim

theorem adjustChecksum_lt (check : ℕ) (old new : Bytes) :
    adjustChecksum check old new < 256 ^ 2 := by
  unfold adjustChecksum
  omega

/-- The checksum and the field it covers move in opposite directions. -/
theorem adjustChecksum_modEq {check : ℕ} (hck : check < 65536) (hlen : old.length = new.length)
    (heven : old.length % 2 = 0) :
    adjustChecksum check old new + wordSum new ≡ check + wordSum old [MOD 65535] := by
  have hsum := adjustSum_add (0xFFFF - check) hlen heven
  have hlt := foldCarry_lt (adjustSum (0xFFFF - check) old new)
  have hmod := foldCarry_modEq (adjustSum (0xFFFF - check) old new)
  unfold Nat.ModEq at hmod ⊢
  unfold adjustChecksum
  omega

theorem length_adjustAt (old new : Bytes) (h : pos + 2 ≤ pkt.length) :
    (adjustAt pkt pos old new).length = pkt.length :=
  length_splice (by simpa using h)

theorem wordAt_adjustAt (h : pos + 2 ≤ pkt.length) :
    wordAt (adjustAt pkt pos old new) pos 2 = adjustChecksum (wordAt pkt pos 2) old new := by
  have hlt := adjustChecksum_lt (wordAt pkt pos 2) old new
  have hfit : pos + (toBE 2 (adjustChecksum (wordAt pkt pos 2) old new)).length ≤ pkt.length := by
    simpa using h
  have hback := take_drop_splice hfit
  rw [length_toBE] at hback
  rw [wordAt_eq_ofBE, adjustAt, hback, ofBE_toBE hlt]

theorem take_adjustAt (old new : Bytes) (h : pos + 2 ≤ k) (hk : k ≤ pkt.length) :
    (adjustAt pkt pos old new).take k = adjustAt (pkt.take k) pos old new := by
  have hword : wordAt (pkt.take k) pos 2 = wordAt pkt pos 2 := congrArg ofBE (field_take h)
  rw [adjustAt, take_splice (by rwa [length_toBE]) hk, adjustAt, hword]

theorem take_adjustAt_of_le (old new : Bytes) (h : k ≤ pos) (hl : pos + 2 ≤ pkt.length) :
    (adjustAt pkt pos old new).take k = pkt.take k :=
  take_splice_of_le h (by rwa [length_toBE])

theorem drop_adjustAt (old new : Bytes) (h : k ≤ pos) (hl : pos + 2 ≤ pkt.length) :
    (adjustAt pkt pos old new).drop k = adjustAt (pkt.drop k) (pos - k) old new := by
  have hword : wordAt (pkt.drop k) (pos - k) 2 = wordAt pkt pos 2 := by
    rw [wordAt_eq_ofBE, List.drop_drop, wordAt_eq_ofBE, Nat.add_sub_cancel' h]
  rw [adjustAt, drop_splice h (by rwa [length_toBE]), adjustAt, hword]

theorem drop_adjustAt_of_le (old new : Bytes) (h : pos + 2 ≤ k) (hl : k ≤ pkt.length) :
    (adjustAt pkt pos old new).drop k = pkt.drop k :=
  drop_splice_of_le (by rwa [length_toBE]) (by rw [length_toBE]; omega)

theorem field_adjustAt (old new : Bytes) (h : pos + 2 ≤ pkt.length)
    (hd : off + n ≤ pos ∨ pos + 2 ≤ off) :
    ((adjustAt pkt pos old new).drop off).take n = (pkt.drop off).take n :=
  field_splice_of_disjoint (by rwa [length_toBE]) (by rwa [length_toBE])

/-- An adjusted checksum makes up for the words that change. -/
theorem wordSum_adjustAt (hlen : old.length = new.length) (heven : old.length % 2 = 0)
    (hpos : pos % 2 = 0) (h : pos + 2 ≤ pkt.length) :
    wordSum (adjustAt pkt pos old new) + wordSum new ≡ wordSum pkt + wordSum old [MOD 65535] := by
  have hadj := adjustChecksum_modEq (wordAt_lt pkt pos) hlen heven
  have hlt := adjustChecksum_lt (wordAt pkt pos 2) old new
  have hsplice : wordSum (adjustAt pkt pos old new) + wordSum ((pkt.drop pos).take 2) =
      wordSum pkt + wordSum (toBE 2 (adjustChecksum (wordAt pkt pos 2) old new)) :=
    wordSum_splice hpos (length_toBE _ _) rfl h
  have hfield : ((pkt.drop pos).take 2).length = 2 := by
    rw [List.length_take, List.length_drop]
    omega
  rw [wordSum_of_length_two hfield, wordSum_of_length_two (length_toBE _ _), ofBE_toBE hlt,
    ← wordAt_eq_ofBE] at hsplice
  unfold Nat.ModEq at hadj ⊢
  omega

/-! The rewrite as a whole. -/

/-- The transport checksum that covers the addresses: that of a TCP segment, or of a UDP
datagram that has one, in a packet that is not a later fragment. -/
structure Covered (pkt : Bytes) (pos : ℕ) : Prop where
  first : wordAt pkt 6 2 &&& 0x1FFF = 0
  kind : (pkt.getD 9 0 = 6 ∧ ihl pkt + 18 ≤ pkt.length ∧ pos = ihl pkt + 16) ∨
    (pkt.getD 9 0 = 17 ∧ ihl pkt + 8 ≤ pkt.length ∧ wordAt pkt (ihl pkt + 6) 2 ≠ 0 ∧
      pos = ihl pkt + 6)

theorem Covered.le_length (h : Covered pkt pos) : ihl pkt ≤ pos ∧ pos + 2 ≤ pkt.length := by
  rcases h.kind with ⟨-, hlen, rfl⟩ | ⟨-, hlen, -, rfl⟩
  · omega
  · omega

theorem Covered.even (h : Covered pkt pos) : (pos - ihl pkt) % 2 = 0 := by
  rcases h.kind with ⟨-, -, rfl⟩ | ⟨-, -, -, rfl⟩
  · omega
  · omega

/-- The header checksum is adjusted, then the transport checksum if one covers the
addresses, and the address is written last. -/
theorem rewriteAddr_eq (h : WellFormed pkt) (off : ℕ) (ip : Ipv4Addr) :
    (∃ pos, Covered pkt pos ∧ rewriteAddr pkt off ip =
      splice (adjustAt (adjustAt pkt 10 ((pkt.drop off).take 4) (octets4 ip)) pos
        ((pkt.drop off).take 4) (octets4 ip)) off (octets4 ip)) ∨
    ((∀ pos, ¬ Covered pkt pos) ∧ rewriteAddr pkt off ip =
      splice (adjustAt pkt 10 ((pkt.drop off).take 4) (octets4 ip)) off (octets4 ip)) := by
  have h20 := h.ihl_ge
  have hlen := h.length_ge
  have hfit : ∀ w, 10 + (toBE 2 w).length ≤ pkt.length := by
    intro w
    rw [length_toBE]
    omega
  -- what decides the case lies apart from the header checksum
  have hihl : ihl (adjustAt pkt 10 ((pkt.drop off).take 4) (octets4 ip)) = ihl pkt :=
    ihl_splice (hfit _) (by omega)
  have hfrag : wordAt (adjustAt pkt 10 ((pkt.drop off).take 4) (octets4 ip)) 6 2 = wordAt pkt 6 2 :=
    wordAt_splice_of_disjoint (hfit _) (Or.inl (by omega))
  have hproto : (adjustAt pkt 10 ((pkt.drop off).take 4) (octets4 ip)).getD 9 0 = pkt.getD 9 0 :=
    getD_splice_of_disjoint (hfit _) (Or.inl (by omega))
  have hsize : (adjustAt pkt 10 ((pkt.drop off).take 4) (octets4 ip)).length = pkt.length :=
    length_adjustAt _ _ (by omega)
  have hudp : wordAt (adjustAt pkt 10 ((pkt.drop off).take 4) (octets4 ip)) (ihl pkt + 6) 2 =
      wordAt pkt (ihl pkt + 6) 2 :=
    wordAt_splice_of_disjoint (hfit _) (Or.inr (by rw [length_toBE]; omega))
  unfold rewriteAddr
  dsimp only
  rw [hihl, hfrag, hproto, hsize, hudp]
  split_ifs with hf htcp hudp' hck
  · exact Or.inr ⟨fun pos hc => hf hc.first, rfl⟩
  · exact Or.inl ⟨_, ⟨not_not.1 hf, Or.inl ⟨htcp.1, htcp.2, rfl⟩⟩, rfl⟩
  · exact Or.inl ⟨_, ⟨not_not.1 hf, Or.inr ⟨hudp'.1, hudp'.2, hck, rfl⟩⟩, rfl⟩
  · refine Or.inr ⟨fun pos hc => ?_, rfl⟩
    rcases hc.kind with ⟨h6, hl, -⟩ | ⟨-, -, hne, -⟩
    · exact htcp ⟨h6, hl⟩
    · exact hck hne
  · refine Or.inr ⟨fun pos hc => ?_, rfl⟩
    rcases hc.kind with ⟨h6, hl, -⟩ | ⟨h17, hl, -, -⟩
    · exact htcp ⟨h6, hl⟩
    · exact hudp' ⟨h17, hl⟩

/-- What becomes of a packet when its checksums are adjusted. -/
structure Adjusts (old new pkt q : Bytes) : Prop where
  head : q.take (ihl pkt) = adjustAt (pkt.take (ihl pkt)) 10 old new
  covered : ∀ pos, Covered pkt pos →
    q.drop (ihl pkt) = adjustAt (pkt.drop (ihl pkt)) (pos - ihl pkt) old new
  rest : (∀ pos, ¬ Covered pkt pos) → q.drop (ihl pkt) = pkt.drop (ihl pkt)

theorem Covered.unique (h : Covered pkt pos) (h' : Covered pkt k) : pos = k := by
  rcases h.kind with ⟨h6, -, rfl⟩ | ⟨h17, -, -, rfl⟩
  · rcases h'.kind with ⟨-, -, rfl⟩ | ⟨h17, -, -, -⟩
    · rfl
    · rw [h6] at h17
      exact absurd h17 (by decide)
  · rcases h'.kind with ⟨h6, -, -⟩ | ⟨-, -, -, rfl⟩
    · rw [h17] at h6
      exact absurd h6 (by decide)
    · rfl

theorem rewriteAddr_adjusts (h : WellFormed pkt) (off : ℕ) (ip : Ipv4Addr) :
    ∃ q, Adjusts ((pkt.drop off).take 4) (octets4 ip) pkt q ∧ q.length = pkt.length ∧
      rewriteAddr pkt off ip = splice q off (octets4 ip) := by
  have h20 := h.ihl_ge
  have hle := h.ihl_le
  have hfit : 10 + 2 ≤ ihl pkt := by omega
  have hhead := take_adjustAt ((pkt.drop off).take 4) (octets4 ip) hfit hle
  have htail := drop_adjustAt_of_le ((pkt.drop off).take 4) (octets4 ip) hfit hle
  have hlen := length_adjustAt ((pkt.drop off).take 4) (octets4 ip) (hfit.trans hle)
  rcases rewriteAddr_eq h off ip with ⟨pos, hc, heq⟩ | ⟨hno, heq⟩
  · have hpos := hc.le_length
    refine ⟨_, ⟨?_, ?_, fun hno => absurd hc (hno pos)⟩, ?_, heq⟩
    · rw [take_adjustAt_of_le _ _ hpos.1 (by omega), hhead]
    · intro pos' hc'
      rw [← hc.unique hc', drop_adjustAt _ _ hpos.1 (by omega), htail]
    · rw [length_adjustAt _ _ (by omega), hlen]
  · exact ⟨_, ⟨hhead, fun pos hc => absurd hc (hno pos), fun _ => htail⟩, hlen, heq⟩

theorem length_rewriteAddr (h : WellFormed pkt) (hoff : off + 4 ≤ 20) (ip : Ipv4Addr) :
    (rewriteAddr pkt off ip).length = pkt.length := by
  have hlen := h.length_ge
  obtain ⟨q, -, hq, heq⟩ := rewriteAddr_adjusts h off ip
  rw [heq, length_splice (by rw [length_octets4]; omega), hq]

/-- The header of a rewritten packet. -/
theorem take_rewriteAddr (h : WellFormed pkt) (hoff : off + 4 ≤ 20) (ip : Ipv4Addr) :
    (rewriteAddr pkt off ip).take (ihl pkt) =
      splice (adjustAt (pkt.take (ihl pkt)) 10 ((pkt.drop off).take 4) (octets4 ip)) off
        (octets4 ip) := by
  have h20 := h.ihl_ge
  have hle := h.ihl_le
  obtain ⟨q, hadj, hq, heq⟩ := rewriteAddr_adjusts h off ip
  rw [heq, take_splice (by rw [length_octets4]; omega) (by omega), hadj.head]

/-- What follows the header, when its checksum covers the addresses. -/
theorem drop_rewriteAddr (h : WellFormed pkt) (hoff : off + 4 ≤ 20) (ip : Ipv4Addr)
    (hc : Covered pkt pos) :
    (rewriteAddr pkt off ip).drop (ihl pkt) =
      adjustAt (pkt.drop (ihl pkt)) (pos - ihl pkt) ((pkt.drop off).take 4) (octets4 ip) := by
  have h20 := h.ihl_ge
  have hle := h.ihl_le
  obtain ⟨q, hadj, hq, heq⟩ := rewriteAddr_adjusts h off ip
  rw [heq, drop_splice_of_le (by rw [length_octets4]; omega) (by rw [length_octets4]; omega),
    hadj.covered pos hc]

theorem getElem?_adjustAt (old new : Bytes) (h : pos + 2 ≤ pkt.length)
    (hk : ¬ (pos ≤ k ∧ k < pos + 2)) : (adjustAt pkt pos old new)[k]? = pkt[k]? := by
  rw [adjustAt, getElem?_splice (by rwa [length_toBE]), if_neg (by rwa [length_toBE])]

/-- Nothing is written but the address and the checksums that cover it. -/
theorem getElem?_rewriteAddr (h : WellFormed pkt) (hoff : off + 4 ≤ 20) (ip : Ipv4Addr)
    (hck : ¬ (10 ≤ k ∧ k < 12)) (hip : ¬ (off ≤ k ∧ k < off + 4))
    (hc : ∀ pos, Covered pkt pos → ¬ (pos ≤ k ∧ k < pos + 2)) :
    (rewriteAddr pkt off ip)[k]? = pkt[k]? := by
  have hlen := h.length_ge
  have hhead := length_adjustAt ((pkt.drop off).take 4) (octets4 ip)
    (show 10 + 2 ≤ pkt.length by omega)
  have hout : ¬ (off ≤ k ∧ k < off + (octets4 ip).length) := by rwa [length_octets4]
  rcases rewriteAddr_eq h off ip with ⟨pos, hpos, heq⟩ | ⟨-, heq⟩
  · have hfit := hpos.le_length.2
    rw [heq, getElem?_splice (by rw [length_octets4, length_adjustAt _ _ (by omega)]; omega),
      if_neg hout, getElem?_adjustAt _ _ (by omega) (hc pos hpos),
      getElem?_adjustAt _ _ (by omega) hck]
  · rw [heq, getElem?_splice (by rw [length_octets4]; omega), if_neg hout,
      getElem?_adjustAt _ _ (by omega) hck]

/-! Fields one after another. -/

section Sequence

variable {r rest : Bytes}

theorem drop_of_drop {front : Bytes} (h : r.drop pos = front ++ rest) :
    r.drop (pos + front.length) = rest := by
  rw [← List.drop_drop, h, List.drop_left]

/-- A field that is read, and what follows it. -/
theorem field_of_drop {new : Bytes} (h : r.drop pos = new ++ rest) :
    wordAt r pos new.length = ofBE new ∧ r.drop (pos + new.length) = rest := by
  refine ⟨?_, drop_of_drop h⟩
  rw [wordAt, h, List.take_left, ofBE]

theorem word_of_drop {n v : ℕ} (h : r.drop pos = toBE n v ++ rest) (hv : v < 256 ^ n) :
    wordAt r pos n = v ∧ r.drop (pos + n) = rest := by
  have hfield := field_of_drop h
  rwa [length_toBE, ofBE_toBE hv] at hfield

end Sequence

/-! The pseudo-header. -/

/-- The words of the pseudo-header: both addresses, the protocol, and a length. -/
def pseudoHeader (pkt : Bytes) (len : ℕ) : Bytes :=
  (pkt.drop SRC_OFFSET).take 8 ++ ([0, pkt.getD 9 0] ++ toBE 2 len)

theorem wordSum_pseudoHeader (h : 20 ≤ pkt.length) (len : ℕ) (seg : Bytes) :
    wordSum (pseudoHeader pkt len ++ seg) =
      wordSum ((pkt.drop SRC_OFFSET).take 8) + wordSum seg +
        ((pkt.getD 9 0).toNat + wordSum (toBE 2 len)) := by
  have haddr : ((pkt.drop SRC_OFFSET).take 8).length = 8 := by
    rw [List.length_take, List.length_drop]
    have hsrc : SRC_OFFSET = 12 := rfl
    omega
  have hproto : wordSum [0, pkt.getD 9 0] = (pkt.getD 9 0).toNat := by simp [wordSum]
  have hrest : ([0, pkt.getD 9 0] ++ toBE 2 len).length = 4 := by simp
  rw [pseudoHeader, List.append_assoc, wordSum_append _ (by rw [haddr]),
    wordSum_append _ (by rw [hrest]), wordSum_append _ (by simp), hproto]
  omega

end ShadowVpn
