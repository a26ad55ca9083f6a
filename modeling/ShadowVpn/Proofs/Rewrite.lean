import ShadowVpn.Sanity.Rewrite

/-! What a rewrite owes to the receiver: checksums that were right stay right, nothing
else changes, and a datagram with a checksum keeps one. -/

namespace ShadowVpn

open Lib

variable {pkt : Bytes} {off pos : ℕ} {old ip : Ipv4Addr}

/-! Sums. -/

theorem offset_bounds (hoff : off = SRC_OFFSET ∨ off = DST_OFFSET) :
    12 ≤ off ∧ off + 4 ≤ 20 ∧ off % 2 = 0 := by
  rcases hoff with rfl | rfl
  · decide
  · decide

theorem length_field (h : off + 4 ≤ pkt.length) : ((pkt.drop off).take 4).length = 4 := by
  rw [List.length_take, List.length_drop]
  omega

/-- In the header, the adjusted checksum and the new address cancel out. -/
theorem header_modEq (h : WellFormed pkt) (hoff : off = SRC_OFFSET ∨ off = DST_OFFSET)
    (ip : Ipv4Addr) :
    wordSum ((rewriteAddr pkt off ip).take (ihl pkt)) ≡ wordSum (pkt.take (ihl pkt)) [MOD 65535] := by
  obtain ⟨h12, hend, heven⟩ := offset_bounds hoff
  have h20 := h.ihl_ge
  have hle := h.ihl_le
  have hhead : (pkt.take (ihl pkt)).length = ihl pkt := by
    rw [List.length_take]
    omega
  have hold : ((pkt.drop off).take 4).length = 4 := length_field (by omega)
  -- the header checksum lies apart from the address
  have hfield : ((adjustAt (pkt.take (ihl pkt)) 10 ((pkt.drop off).take 4) (octets4 ip)).drop off).take
      4 = (pkt.drop off).take 4 := by
    rw [field_adjustAt _ _ (by omega) (Or.inr h12), field_take (by omega)]
  have hsplice := wordSum_splice heven (length_octets4 ip) rfl
    (show off + 4 ≤ (adjustAt (pkt.take (ihl pkt)) 10 ((pkt.drop off).take 4) (octets4 ip)).length by
      rw [length_adjustAt _ _ (by omega)]; omega)
  have hadj := wordSum_adjustAt (hold.trans (length_octets4 ip).symm) (by rw [hold])
    (show 10 % 2 = 0 from rfl) (show 10 + 2 ≤ (pkt.take (ihl pkt)).length by omega)
  rw [take_rewriteAddr h hend]
  rw [hfield] at hsplice
  unfold Nat.ModEq at hadj ⊢
  omega

theorem addresses_rewriteAddr (h : WellFormed pkt) (hoff : off = SRC_OFFSET ∨ off = DST_OFFSET)
    (ip : Ipv4Addr) :
    ((rewriteAddr pkt off ip).drop SRC_OFFSET).take 8 =
      splice ((pkt.drop SRC_OFFSET).take 8) (off - SRC_OFFSET) (octets4 ip) := by
  obtain ⟨h12, hend, -⟩ := offset_bounds hoff
  have hsrc : SRC_OFFSET = 12 := rfl
  have h20 := h.ihl_ge
  have hle := h.ihl_le
  have hlen := length_octets4 ip
  obtain ⟨q, hadj, hq, heq⟩ := rewriteAddr_adjusts h off ip
  -- no adjusted checksum reaches into the addresses
  have hfield : (q.drop SRC_OFFSET).take 8 = (pkt.drop SRC_OFFSET).take 8 := by
    rw [← field_take (show SRC_OFFSET + 8 ≤ ihl pkt by omega), hadj.head,
      field_adjustAt _ _ (by rw [List.length_take]; omega) (Or.inr (by omega)),
      field_take (by omega)]
  rw [heq, drop_splice (by omega) (by omega), take_splice (by omega) (by rw [List.length_drop]; omega),
    hfield]

theorem addresses_sum (h : WellFormed pkt) (hoff : off = SRC_OFFSET ∨ off = DST_OFFSET)
    (ip : Ipv4Addr) :
    wordSum (((rewriteAddr pkt off ip).drop SRC_OFFSET).take 8) + wordSum ((pkt.drop off).take 4) =
      wordSum ((pkt.drop SRC_OFFSET).take 8) + wordSum (octets4 ip) := by
  obtain ⟨h12, hend, heven⟩ := offset_bounds hoff
  have hsrc : SRC_OFFSET = 12 := rfl
  have hlen := h.length_ge
  have hfield : (((pkt.drop SRC_OFFSET).take 8).drop (off - SRC_OFFSET)).take 4 =
      (pkt.drop off).take 4 := by
    rw [field_take (by omega), List.drop_drop, Nat.add_sub_cancel' (by omega)]
  rw [addresses_rewriteAddr h hoff, ← hfield]
  exact wordSum_splice (by omega) (length_octets4 ip) rfl
    (by rw [List.length_take, List.length_drop]; omega)

/-- With the pseudo-header, the adjusted transport checksum and the new address cancel
out. -/
theorem segment_modEq (h : WellFormed pkt) (hoff : off = SRC_OFFSET ∨ off = DST_OFFSET)
    (ip : Ipv4Addr) (hc : Covered pkt pos) {e : ℕ} (hpos : pos + 2 ≤ e) (he : e ≤ pkt.length) :
    wordSum (((rewriteAddr pkt off ip).drop SRC_OFFSET).take 8) +
        wordSum (((rewriteAddr pkt off ip).take e).drop (ihl pkt)) ≡
      wordSum ((pkt.drop SRC_OFFSET).take 8) + wordSum ((pkt.take e).drop (ihl pkt)) [MOD 65535] := by
  obtain ⟨h12, hend, -⟩ := offset_bounds hoff
  have hlen := h.length_ge
  have hstart := hc.le_length.1
  have hold : ((pkt.drop off).take 4).length = 4 := length_field (by omega)
  have hsum := addresses_sum h hoff ip
  have hseg : ((rewriteAddr pkt off ip).take e).drop (ihl pkt) =
      adjustAt ((pkt.take e).drop (ihl pkt)) (pos - ihl pkt) ((pkt.drop off).take 4)
        (octets4 ip) := by
    rw [List.drop_take, drop_rewriteAddr h hend ip hc, List.drop_take,
      take_adjustAt _ _ (by omega) (by rw [List.length_drop]; omega)]
  have hadj := wordSum_adjustAt (hold.trans (length_octets4 ip).symm) (by rw [hold]) hc.even
    (show pos - ihl pkt + 2 ≤ ((pkt.take e).drop (ihl pkt)).length by
      rw [List.length_drop, List.length_take]; omega)
  rw [hseg]
  unfold Nat.ModEq at hadj ⊢
  omega

/-! Checksums that hold before hold after, and nothing else is written. -/

/-- The first byte carries the version, so no header sums to zero. -/
theorem WellFormed.header_pos (h : WellFormed pkt) : 0 < wordSum (pkt.take (ihl pkt)) := by
  have h20 := h.ihl_ge
  have hlen := h.length_ge
  have hver := h.version
  rw [List.getD_eq_getElem?_getD, List.getElem?_eq_getElem (by omega), Option.getD_some] at hver
  have hne : pkt[0] ≠ 0 := by
    intro hzero
    rw [hzero] at hver
    exact absurd hver (by decide)
  refine wordSum_pos (k := 0) ?_ hne
  rw [List.getElem?_take_of_lt (by omega), List.getElem?_eq_getElem (by omega)]

theorem getD_rewriteAddr (h : WellFormed pkt) (hoff : off = SRC_OFFSET ∨ off = DST_OFFSET)
    (ip : Ipv4Addr) {k : ℕ} (hk : k < 10) : (rewriteAddr pkt off ip).getD k 0 = pkt.getD k 0 := by
  obtain ⟨h12, hend, -⟩ := offset_bounds hoff
  have h20 := h.ihl_ge
  rw [List.getD_eq_getElem?_getD, getElem?_rewriteAddr h hend ip (by omega) (by omega),
    List.getD_eq_getElem?_getD]
  intro pos hc
  have hpos := hc.le_length.1
  omega

theorem ihl_rewriteAddr (h : WellFormed pkt) (hoff : off = SRC_OFFSET ∨ off = DST_OFFSET)
    (ip : Ipv4Addr) : ihl (rewriteAddr pkt off ip) = ihl pkt := by
  rw [ihl, getD_rewriteAddr h hoff ip (by omega), ihl]

theorem WellFormed.rewriteAddr (h : WellFormed pkt) (hoff : off = SRC_OFFSET ∨ off = DST_OFFSET)
    (ip : Ipv4Addr) : WellFormed (rewriteAddr pkt off ip) := by
  refine ⟨?_, ?_, ?_⟩
  · rw [getD_rewriteAddr h hoff ip (by omega)]
    exact h.version
  · rw [ihl_rewriteAddr h hoff ip]
    exact h.ihl_ge
  · rw [ihl_rewriteAddr h hoff ip, length_rewriteAddr h (offset_bounds hoff).2.1]
    exact h.ihl_le

theorem addrAt_rewriteAddr (h : WellFormed pkt) (hoff : off = SRC_OFFSET ∨ off = DST_OFFSET)
    (ip : Ipv4Addr) : addrAt (rewriteAddr pkt off ip) off = some ip := by
  have hend := (offset_bounds hoff).2.1
  have hlen := h.length_ge
  obtain ⟨q, -, hq, heq⟩ := rewriteAddr_adjusts h off ip
  have hback : ((splice q off (octets4 ip)).drop off).take (octets4 ip).length = octets4 ip :=
    take_drop_splice (by rw [length_octets4]; omega)
  rw [length_octets4] at hback
  refine addrAt_eq_some.2 ⟨h.rewriteAddr hoff ip, ?_⟩
  rw [wordAt_eq_ofBE, heq, hback]
  exact (eq_octets4_iff.1 rfl).2

/-- A rewrite keeps the header checksum right or wrong, whichever it was, and so the
transport checksum that covers the addresses, over any segment that holds it. It writes
the address, the header checksum and that transport checksum. -/
theorem rewriteAddr_preserves_checksums (hpkt : addrAt pkt off = some old)
    (hoff : off = SRC_OFFSET ∨ off = DST_OFFSET) (ip : Ipv4Addr) :
    (onesSum ((rewriteAddr pkt off ip).take (ihl (rewriteAddr pkt off ip))) = 0xFFFF ↔
      onesSum (pkt.take (ihl pkt)) = 0xFFFF) ∧
    (∀ pos e len, Covered pkt pos → pos + 2 ≤ e → e ≤ pkt.length →
      (onesSum (pseudoHeader (rewriteAddr pkt off ip) len ++
          ((rewriteAddr pkt off ip).take e).drop (ihl pkt)) = 0xFFFF ↔
        onesSum (pseudoHeader pkt len ++ (pkt.take e).drop (ihl pkt)) = 0xFFFF)) ∧
    (rewriteAddr pkt off ip).length = pkt.length ∧
    ∀ k, (rewriteAddr pkt off ip)[k]? ≠ pkt[k]? →
      (10 ≤ k ∧ k < 12) ∨ (off ≤ k ∧ k < off + 4) ∨
        ∃ pos, Covered pkt pos ∧ pos ≤ k ∧ k < pos + 2 := by
  have h := (addrAt_eq_some.1 hpkt).1
  have hend := (offset_bounds hoff).2.1
  have hlen := length_rewriteAddr h hend ip
  have h' := h.rewriteAddr hoff ip
  refine ⟨?_, ?_, hlen, ?_⟩
  · refine onesSum_max_congr ?_ h'.header_pos h.header_pos
    rw [ihl_rewriteAddr h hoff]
    exact header_modEq h hoff ip
  · intro pos e len hc hpos he
    -- the protocol number keeps the sum away from zero
    have hproto : 0 < (pkt.getD 9 0).toNat := by
      rcases hc.kind with ⟨h6, -⟩ | ⟨h17, -⟩
      · rw [h6]
        decide
      · rw [h17]
        decide
    have hseg := segment_modEq h hoff ip hc hpos he
    refine onesSum_max_congr ?_ ?_ ?_
    · rw [wordSum_pseudoHeader h'.length_ge, wordSum_pseudoHeader h.length_ge,
        getD_rewriteAddr h hoff ip (by omega)]
      exact hseg.add_right _
    · rw [wordSum_pseudoHeader h'.length_ge, getD_rewriteAddr h hoff ip (by omega)]
      omega
    · rw [wordSum_pseudoHeader h.length_ge]
      omega
  · intro k hne
    by_contra hout
    rw [not_or, not_or] at hout
    apply hne
    refine getElem?_rewriteAddr h hend ip hout.1 hout.2.1 ?_
    intro pos hc hk
    exact hout.2.2 ⟨pos, hc, hk⟩

def Sample.datagram : Bytes :=
  [0x45, 0x00, 0x00, 0x1E, 0x00, 0x00, 0x00, 0x00, 0x40, 0x11, 0x60, 0xB5, 0x0A, 0x09, 0x00, 0x02,
    0x08, 0x08, 0x08, 0x08, 0x04, 0x57, 0x00, 0x35, 0x00, 0x0A, 0x00, 0x23, 0xE1, 0x10]

theorem rewriteAddr_preserves_checksums_datagram :
    onesSum (Sample.datagram.take 20) = 0xFFFF ∧
    onesSum ((rewriteAddr Sample.datagram SRC_OFFSET 0x0A090009).take
      (ihl (rewriteAddr Sample.datagram SRC_OFFSET 0x0A090009))) = 0xFFFF ∧
    onesSum (pseudoHeader (rewriteAddr Sample.datagram SRC_OFFSET 0x0A090009) 10 ++
      ((rewriteAddr Sample.datagram SRC_OFFSET 0x0A090009).take 30).drop 20) = 0xFFFF := by
  have haddr : addrAt Sample.datagram SRC_OFFSET = some 0x0A090002 := by decide
  have hcov : Covered Sample.datagram 26 :=
    ⟨by decide, Or.inr ⟨by decide, by decide, by decide, by decide⟩⟩
  have hkeep := rewriteAddr_preserves_checksums haddr (Or.inl rfl) 0x0A090009
  exact ⟨by decide +kernel, hkeep.1.2 (by decide +kernel),
    (hkeep.2.1 26 30 10 hcov (by decide) (by decide)).2 (by decide +kernel)⟩

/-! Datagrams without a checksum. -/

theorem wordSum_octets4 (ip : Ipv4Addr) :
    wordSum (octets4 ip) = ip.toNat / 65536 + ip.toNat % 65536 := by
  have hlt := ip.isLt
  simp only [octets4, toBE, List.nil_append, List.cons_append, wordSum, UInt8.toNat_ofNat']
  omega

/-- The adjusted checksum is zero when old and new sum agree, unless everything that is
added up is. -/
theorem adjustChecksum_eq_zero {check : ℕ} (hck : check < 65536) (a ip : Ipv4Addr) :
    adjustChecksum check (octets4 a) (octets4 ip) = 0 ↔
      check + wordSum (octets4 a) ≡ wordSum (octets4 ip) [MOD 65535] ∧
        ¬ (check = 0xFFFF ∧ a = 0xFFFFFFFF ∧ ip = 0) := by
  have hlen : (octets4 a).length = (octets4 ip).length := by simp
  have hsum := adjustSum_add (0xFFFF - check) hlen (by simp)
  have hlt := foldCarry_lt (adjustSum (0xFFFF - check) (octets4 a) (octets4 ip))
  have hmax := foldCarry_eq_max (adjustSum (0xFFFF - check) (octets4 a) (octets4 ip))
  have ha : a = 0xFFFFFFFF ↔ a.toNat = 0xFFFFFFFF := by
    rw [← BitVec.toNat_inj]
    rfl
  have hip : ip = 0 ↔ ip.toNat = 0 := by
    rw [← BitVec.toNat_inj]
    rfl
  have halt := a.isLt
  have hiplt := ip.isLt
  rw [length_octets4] at hsum
  rw [wordSum_octets4, wordSum_octets4] at hsum ⊢
  unfold adjustChecksum
  unfold Nat.ModEq at hmax ⊢
  rw [ha, hip]
  omega

theorem wordAt_rewriteAddr (h : WellFormed pkt) (hoff : off + 4 ≤ 20) (ip : Ipv4Addr)
    (hc : Covered pkt pos) :
    wordAt (rewriteAddr pkt off ip) pos 2 =
      adjustChecksum (wordAt pkt pos 2) ((pkt.drop off).take 4) (octets4 ip) := by
  obtain ⟨hstart, hfit⟩ := hc.le_length
  have hsplit : ∀ p : Bytes, wordAt p pos 2 = wordAt (p.drop (ihl pkt)) (pos - ihl pkt) 2 := by
    intro p
    rw [wordAt_eq_ofBE, wordAt_eq_ofBE, List.drop_drop, Nat.add_sub_cancel' hstart]
  rw [hsplit, drop_rewriteAddr h hoff ip hc, wordAt_adjustAt (by rw [List.length_drop]; omega),
    ← hsplit]

/-- A datagram that has a checksum still has one after the rewrite exactly if the sum of
its checksum and the old address differs from the new address, up to the case where all
that is added up is zero. -/
theorem udp_checksum_survives_iff (hpkt : addrAt pkt off = some old)
    (hoff : off = SRC_OFFSET ∨ off = DST_OFFSET) (ip : Ipv4Addr) (hudp : pkt.getD 9 0 = 17)
    (hfirst : wordAt pkt 6 2 &&& 0x1FFF = 0) (hlen : ihl pkt + 8 ≤ pkt.length)
    (hck : wordAt pkt (ihl pkt + 6) 2 ≠ 0) :
    wordAt (rewriteAddr pkt off ip) (ihl pkt + 6) 2 ≠ 0 ↔
      (wordAt pkt (ihl pkt + 6) 2 + wordSum (octets4 old) ≡ wordSum (octets4 ip) [MOD 65535] →
        wordAt pkt (ihl pkt + 6) 2 = 0xFFFF ∧ old = 0xFFFFFFFF ∧ ip = 0) := by
  obtain ⟨h, hold⟩ := addrAt_eq_some.1 hpkt
  have hend := (offset_bounds hoff).2.1
  have h20 := h.length_ge
  have hfield : (pkt.drop off).take 4 = octets4 old :=
    eq_octets4_iff.2 ⟨length_field (by omega), hold⟩
  have hc : Covered pkt (ihl pkt + 6) := ⟨hfirst, Or.inr ⟨hudp, hlen, hck, rfl⟩⟩
  rw [wordAt_rewriteAddr h hend ip hc, hfield, Ne, adjustChecksum_eq_zero (wordAt_lt _ _), not_and,
    not_not]

theorem udp_checksum_survives_iff_datagram :
    wordAt Sample.datagram 26 2 ≠ 0 ∧
      wordAt (rewriteAddr Sample.datagram SRC_OFFSET 0x0A090009) 26 2 ≠ 0 := by
  have haddr : addrAt Sample.datagram SRC_OFFSET = some 0x0A090002 := by decide
  refine ⟨by decide, (udp_checksum_survives_iff haddr (Or.inl rfl) 0x0A090009 (by decide)
    (by decide) (by decide) (by decide)).2 ?_⟩
  intro h
  exact absurd h (by decide)

/-- A datagram that is rewritten to `10.9.0.37` has no checksum any more: a receiver will not
check it. -/
theorem udp_checksum_lost :
    addrAt Sample.datagram SRC_OFFSET = some 0x0A090002 ∧ Sample.datagram.getD 9 0 = 17 ∧
    wordAt Sample.datagram 6 2 &&& 0x1FFF = 0 ∧ ihl Sample.datagram + 8 ≤ Sample.datagram.length ∧
    wordAt Sample.datagram 26 2 = 0x23 ∧
    onesSum (pseudoHeader Sample.datagram 10 ++ Sample.datagram.drop 20) = 0xFFFF ∧
    wordAt (rewriteAddr Sample.datagram SRC_OFFSET 0x0A090025) 26 2 = 0 := by
  decide +kernel

end ShadowVpn
