import ShadowVpn.Sanity.Checked
import ShadowVpn.Sanity.Rewrite
import ShadowVpn.Spec.Intercept

/-! The packets of the DNS intercept field by field: what `classify` tests and reads, and the
fields that `build_reply` writes, with the sums of their words. -/

namespace ShadowVpn

open Lib

/-! Checksums. -/

theorem Platform.addU32_ofNat (P : Platform) {a : BitVec 32} {n : ℕ} (h : a.toNat + n < 2 ^ 32) :
    ∃ s, P.addU32 a (BitVec.ofNat 32 n) = .ok s ∧ s.toNat = a.toNat + n := by
  have hn : (BitVec.ofNat 32 n).toNat = n := Nat.mod_eq_of_lt (by omega)
  refine ⟨a + BitVec.ofNat 32 n, if_pos (Or.inl (by omega)), ?_⟩
  rw [BitVec.toNat_add, hn, Nat.mod_eq_of_lt h]

theorem addWords_eq (P : Platform) (sum : BitVec 32) (bytes : Bytes)
    (h : sum.toNat + wordSum bytes < 2 ^ 32) :
    ∃ s, addWords P sum bytes = .ok s ∧ s.toNat = sum.toNat + wordSum bytes := by
  induction bytes using wordSum.induct generalizing sum with
  | case1 => exact ⟨sum, rfl, by simp [wordSum]⟩
  | case2 a => exact P.addU32_ofNat h
  | case3 a b bytes ih =>
    have hbe : ofBE [a, b] = a.toNat * 256 + b.toNat := by simp [ofBE]
    rw [wordSum, ← hbe] at h
    obtain ⟨s, hs, hval⟩ := P.addU32_ofNat (a := sum) (n := ofBE [a, b]) (by omega)
    obtain ⟨t, ht, hsum⟩ := ih s (by omega)
    refine ⟨t, ?_, ?_⟩
    · rw [addWords, hs]
      exact ht
    · rw [hsum, hval, hbe, wordSum]
      omega

theorem checksum_eq (P : Platform) {bytes : Bytes} (h : wordSum bytes < 2 ^ 32) :
    checksum P bytes = .ok (65535 - onesSum bytes) := by
  obtain ⟨s, hs, hval⟩ := addWords_eq P 0 bytes (by simpa using h)
  rw [checksum, hs]
  simp [bind, Except.bind, complement, hval, onesSum]

theorem udpChecksum_eq (P : Platform) (pkt : Bytes) (hlen : 20 ≤ pkt.length)
    (hmax : pkt.length - 20 < 65536) (hproto : pkt.getD 9 0 = PROTO_UDP) :
    udpChecksum P pkt =
      .ok (65535 - onesSum (pseudoHeader pkt (pkt.length - 20) ++ pkt.drop 20)) := by
  have hpseudo := wordSum_pseudoHeader hlen (pkt.length - 20) (pkt.drop 20)
  rw [wordSum_toBE hmax, hproto, SRC_OFFSET] at hpseudo
  have haddrs := wordSum_le ((pkt.drop 12).take 8)
  have hsegment := wordSum_le (pkt.drop 20)
  rw [List.length_take, List.length_drop] at haddrs
  rw [List.length_drop] at hsegment
  have hudp : PROTO_UDP.toNat = 17 := rfl
  have hzero : (0 : BitVec 32).toNat = 0 := rfl
  obtain ⟨s₁, h₁, hval₁⟩ := addWords_eq P 0 ((pkt.drop 12).take 8) (by omega)
  obtain ⟨s₂, h₂, hval₂⟩ := P.addU32_ofNat (a := s₁) (n := PROTO_UDP.toNat) (by omega)
  obtain ⟨s₃, h₃, hval₃⟩ := P.addU32_ofNat (a := s₂) (n := pkt.length - 20) (by omega)
  obtain ⟨s₄, h₄, hval₄⟩ := addWords_eq P s₃ (pkt.drop 20) (by omega)
  have hsub : P.subUsize pkt.length 20 = .ok (pkt.length - 20) := if_pos hlen
  have hsum : s₄.toNat = wordSum (pseudoHeader pkt (pkt.length - 20) ++ pkt.drop 20) := by omega
  simp only [udpChecksum, h₁, h₂, hsub, h₃, h₄, bind, Except.bind, complement, hsum, onesSum]

/-! The fields of a reply. -/

def ipHeader (query : DnsQuery) (total ck : ℕ) : Bytes :=
  [IPV4_VIHL, 0] ++ toBE 2 total ++ [0, 0, 0, 0, REPLY_TTL, PROTO_UDP] ++ toBE 2 ck ++
    octets4 query.dst ++ octets4 query.src

def udpHeader (query : DnsQuery) (udpLen ck : ℕ) : Bytes :=
  toBE 2 query.dstPort.toNat ++ toBE 2 query.srcPort.toNat ++ toBE 2 udpLen ++ toBE 2 ck

section Fields

variable (query : DnsQuery) (response : Bytes)

theorem splice_ipHeader (total n : ℕ) :
    splice (splice (splice (splice (splice (splice (List.replicate (20 + n) 0) 0 [IPV4_VIHL]) 2
      (toBE 2 total)) 8 [REPLY_TTL]) 9 [PROTO_UDP]) 12 (octets4 query.dst)) 16 (octets4 query.src) =
      ipHeader query total 0 ++ List.replicate n 0 := by
  rw [List.replicate_add]
  rfl

theorem length_ipHeader (total ck : ℕ) : (ipHeader query total ck).length = 20 := by
  simp [ipHeader, octets4]

theorem length_udpHeader (udpLen ck : ℕ) : (udpHeader query udpLen ck).length = 8 := by
  simp [udpHeader]

theorem splice_ipChecksum (total ck : ℕ) (rest : Bytes) :
    splice (ipHeader query total 0 ++ rest) 10 (toBE 2 ck) = ipHeader query total ck ++ rest := by
  have hzero : toBE 2 0 = [0, 0] := rfl
  simp only [ipHeader, List.append_assoc]
  rw [← List.append_assoc (toBE 2 total), ← List.append_assoc,
    splice_append (by simp) (by simp)]
  simp only [List.append_assoc]

theorem splice_udpHeader (total ck udpLen n : ℕ) :
    splice (splice (splice (ipHeader query total ck ++ List.replicate (8 + n) 0) 20
      (toBE 2 query.dstPort.toNat)) 22 (toBE 2 query.srcPort.toNat)) 24 (toBE 2 udpLen) =
      ipHeader query total ck ++ udpHeader query udpLen 0 ++ List.replicate n 0 := by
  have hzero : List.replicate (8 + n) (0 : UInt8) =
      [0, 0] ++ ([0, 0] ++ ([0, 0] ++ (toBE 2 0 ++ List.replicate n 0))) := by
    rw [List.replicate_add]
    rfl
  rw [hzero, splice_append (length_ipHeader query total ck) (by simp),
    splice_append (by simp [length_ipHeader]) (by simp),
    splice_append (by simp [length_ipHeader]) (by simp), udpHeader]
  simp only [List.append_assoc]

theorem splice_payload (total ck udpLen : ℕ) :
    splice (ipHeader query total ck ++ udpHeader query udpLen 0 ++
      List.replicate response.length 0) 28 response =
      ipHeader query total ck ++ udpHeader query udpLen 0 ++ response := by
  have hlen : (ipHeader query total ck ++ udpHeader query udpLen 0).length = 28 := by
    simp [length_ipHeader, length_udpHeader]
  have hsplice := splice_append (b := []) hlen
    (List.length_replicate (n := response.length) (a := (0 : UInt8)))
  rwa [List.append_nil, List.append_nil] at hsplice

theorem splice_udpChecksum (total ck udpLen udpCk : ℕ) :
    splice (ipHeader query total ck ++ udpHeader query udpLen 0 ++ response) 26 (toBE 2 udpCk) =
      ipHeader query total ck ++ udpHeader query udpLen udpCk ++ response := by
  have hsplit : ∀ c, ipHeader query total ck ++ udpHeader query udpLen c ++ response =
      ipHeader query total ck ++ (toBE 2 query.dstPort.toNat ++ toBE 2 query.srcPort.toNat ++
        toBE 2 udpLen) ++ (toBE 2 c ++ response) := by
    intro c
    simp only [udpHeader, List.append_assoc]
  rw [hsplit, hsplit, splice_append (by simp [length_ipHeader]) (by simp), List.append_assoc]

theorem wordSum_ipHeader {total ck : ℕ} (hck : ck < 65536) :
    wordSum (ipHeader query total ck) = wordSum (ipHeader query total 0) + ck := by
  have hsum : ∀ c, c < 65536 → wordSum (ipHeader query total c) =
      wordSum ([IPV4_VIHL, 0] ++ toBE 2 total ++ [0, 0, 0, 0, REPLY_TTL, PROTO_UDP]) + c +
        wordSum (octets4 query.dst ++ octets4 query.src) := by
    intro c hc
    rw [ipHeader, List.append_assoc, wordSum_append _ (by simp), wordSum_append _ (by simp),
      wordSum_toBE hc]
  rw [hsum ck hck, hsum 0 (by decide)]
  omega

theorem wordSum_udpHeader {udpLen ck : ℕ} (hck : ck < 65536) :
    wordSum (udpHeader query udpLen ck ++ response) =
      wordSum (udpHeader query udpLen 0 ++ response) + ck := by
  have hsum : ∀ c, c < 65536 → wordSum (udpHeader query udpLen c ++ response) =
      wordSum (toBE 2 query.dstPort.toNat ++ toBE 2 query.srcPort.toNat ++ toBE 2 udpLen) + c +
        wordSum response := by
    intro c hc
    rw [udpHeader, wordSum_append _ (by simp), wordSum_append _ (by simp), wordSum_toBE hc]
  rw [hsum ck hck, hsum 0 (by decide)]
  omega

/-! A packet of these fields. -/

def packet (total ck udpLen udpCk : ℕ) : Bytes :=
  ipHeader query total ck ++ udpHeader query udpLen udpCk ++ response

section Packet

variable (total ck udpLen udpCk : ℕ)

theorem length_packet : (packet query response total ck udpLen udpCk).length = 28 + response.length := by
  simp only [packet, List.length_append, length_ipHeader, length_udpHeader]

theorem take_packet : (packet query response total ck udpLen udpCk).take 20 = ipHeader query total ck := by
  rw [packet, List.append_assoc, List.take_left' (length_ipHeader query total ck)]

theorem drop_packet : (packet query response total ck udpLen udpCk).drop 20 =
    udpHeader query udpLen udpCk ++ response := by
  rw [packet, List.append_assoc, List.drop_left' (length_ipHeader query total ck)]

theorem payload_packet : (packet query response total ck udpLen udpCk).drop 28 = response := by
  rw [packet, List.drop_left' (by simp [length_ipHeader, length_udpHeader])]

theorem proto_packet : (packet query response total ck udpLen udpCk).getD 9 0 = PROTO_UDP := rfl

theorem pseudoHeader_packet (len : ℕ) :
    pseudoHeader (packet query response total ck udpLen udpCk) len =
      (ipHeader query total ck).drop 12 ++ ([0, PROTO_UDP] ++ toBE 2 len) := by
  rw [pseudoHeader, proto_packet, SRC_OFFSET, ← take_packet query response total ck udpLen udpCk,
    List.drop_take]

/-- What is read from the packet. -/
theorem words_packet (htotal : total < 65536) (hudpLen : udpLen < 65536) (hudpCk : udpCk < 65536) :
    let r := packet query response total ck udpLen udpCk
    wordAt r 2 2 = total ∧ wordAt r 12 4 = query.dst.toNat ∧ wordAt r 16 4 = query.src.toNat ∧
      wordAt r 20 2 = query.dstPort.toNat ∧ wordAt r 22 2 = query.srcPort.toNat ∧
      wordAt r 24 2 = udpLen ∧ wordAt r 26 2 = udpCk := by
  intro r
  have hstart : r.drop 0 = [IPV4_VIHL, 0] ++ (toBE 2 total ++ ([0, 0, 0, 0, REPLY_TTL, PROTO_UDP] ++
      (toBE 2 ck ++ (octets4 query.dst ++ (octets4 query.src ++ (toBE 2 query.dstPort.toNat ++
        (toBE 2 query.srcPort.toNat ++ (toBE 2 udpLen ++ (toBE 2 udpCk ++ response))))))))) := by
    simp only [r, packet, ipHeader, udpHeader, List.drop_zero, List.append_assoc]
  obtain ⟨htot, h⟩ := word_of_drop (drop_of_drop hstart) htotal
  have hck : r.drop 10 = _ := drop_of_drop h
  have haddrs : r.drop 12 = _ := drop_of_drop hck
  obtain ⟨hdst, h⟩ := word_of_drop haddrs query.dst.isLt
  obtain ⟨hsrc, h⟩ := word_of_drop h query.src.isLt
  obtain ⟨hdstPort, h⟩ := word_of_drop h query.dstPort.toNat_lt
  obtain ⟨hsrcPort, h⟩ := word_of_drop h query.srcPort.toNat_lt
  obtain ⟨hlen, h⟩ := word_of_drop h hudpLen
  obtain ⟨hsum, -⟩ := word_of_drop h hudpCk
  exact ⟨htot, hdst, hsrc, hdstPort, hsrcPort, hlen, hsum⟩

end Packet

/-! The checksums that are written. -/

theorem onesSum_ipHeader (total : ℕ) :
    onesSum (ipHeader query total (65535 - onesSum (ipHeader query total 0))) = 65535 := by
  rw [onesSum, wordSum_ipHeader query (by omega)]
  exact foldCarry_add_complement _

/-- All bits are set in place of a checksum of zero. -/
def nonzero (ck : ℕ) : ℕ := if ck = 0 then 0xFFFF else ck

theorem nonzero_spec {ck : ℕ} (h : ck < 65536) : nonzero ck ≠ 0 ∧ nonzero ck < 65536 := by
  unfold nonzero
  split_ifs <;> omega

theorem onesSum_udpHeader {front : Bytes} (hfront : front.length % 2 = 0) (udpLen : ℕ) :
    onesSum (front ++ (udpHeader query udpLen
      (nonzero (65535 - onesSum (front ++ (udpHeader query udpLen 0 ++ response)))) ++ response)) =
        65535 := by
  obtain ⟨-, hlt⟩ := nonzero_spec
    (show 65535 - onesSum (front ++ (udpHeader query udpLen 0 ++ response)) < 65536 by omega)
  rw [onesSum, wordSum_append _ hfront, wordSum_udpHeader query response hlt, ← Nat.add_assoc,
    ← wordSum_append _ hfront, nonzero]
  split_ifs with hzero
  · exact foldCarry_add_max hzero
  · exact foldCarry_add_complement _

/-- The reply is the packet of the query's fields. -/
theorem buildReply_eq (P : Platform) (h : response.length ≤ 65507) :
    let udpLen := 8 + response.length
    let ck := 65535 - onesSum (ipHeader query (20 + udpLen) 0)
    let front := (ipHeader query (20 + udpLen) ck).drop 12 ++ ([0, PROTO_UDP] ++ toBE 2 udpLen)
    buildReply P query response = .ok (packet query response (20 + udpLen) ck udpLen
      (nonzero (65535 - onesSum (front ++ (udpHeader query udpLen 0 ++ response))))) := by
  intro udpLen ck front
  have hip := wordSum_le (ipHeader query (20 + udpLen) 0)
  rw [length_ipHeader] at hip
  have hchecksum : checksum P (ipHeader query (20 + udpLen) 0) = .ok ck := checksum_eq P (by omega)
  have hpkt := length_packet query response (20 + udpLen) ck udpLen 0
  have hsub : (packet query response (20 + udpLen) ck udpLen 0).length - 20 = udpLen := by omega
  have hudp := udpChecksum_eq P (packet query response (20 + udpLen) ck udpLen 0) (by omega)
    (by omega) rfl
  rw [hsub, drop_packet, pseudoHeader_packet] at hudp
  have htake : (ipHeader query (20 + udpLen) 0 ++ List.replicate udpLen 0).take 20 =
      ipHeader query (20 + udpLen) 0 := List.take_left' (length_ipHeader query _ _)
  have hwritten : splice (splice (splice (splice (splice (ipHeader query (20 + udpLen) 0 ++
      List.replicate udpLen 0) 10 (toBE 2 ck)) 20 (toBE 2 query.dstPort.toNat)) 22
        (toBE 2 query.srcPort.toNat)) 24 (toBE 2 udpLen)) 28 response =
      packet query response (20 + udpLen) ck udpLen 0 := by
    rw [splice_ipChecksum, splice_udpHeader, splice_payload, packet]
  simp only [buildReply, splice_ipHeader]
  rw [htake, hchecksum]
  simp only [bind, Except.bind]
  rw [hwritten, hudp]
  simp only
  rw [packet, splice_udpChecksum, packet, nonzero]

/-- The reply is a packet whose sums come out. -/
theorem exists_packet (P : Platform) (h : response.length ≤ 65507) :
    ∃ ck udpCk, udpCk ≠ 0 ∧ udpCk < 65536 ∧
      buildReply P query response =
        .ok (packet query response (20 + (8 + response.length)) ck (8 + response.length) udpCk) ∧
      onesSum (ipHeader query (20 + (8 + response.length)) ck) = 65535 ∧
      onesSum (pseudoHeader (packet query response (20 + (8 + response.length)) ck
        (8 + response.length) udpCk) (8 + response.length) ++
          (udpHeader query (8 + response.length) udpCk ++ response)) = 65535 := by
  obtain ⟨hne, hlt⟩ := nonzero_spec (Nat.lt_succ_of_le (Nat.sub_le 65535 _))
  refine ⟨_, _, hne, hlt, buildReply_eq query response P h, onesSum_ipHeader query _, ?_⟩
  rw [pseudoHeader_packet]
  exact onesSum_udpHeader query response (by simp [length_ipHeader]) _

end Fields

/-! What a query is. -/

/-- The datagram in a packet is for port 53, its length is inside the packet's, and this is what
is taken from the two. -/
structure IsDatagram (pkt : Bytes) (q : DnsQuery) : Prop where
  port : wordAt pkt (ihl pkt + 2) 2 = DNS_PORT.toNat
  udpLen_ge : 8 ≤ wordAt pkt (ihl pkt + 4) 2
  udpLen_le : ihl pkt + wordAt pkt (ihl pkt + 4) 2 ≤ wordAt pkt 2 2
  src : q.src = BitVec.ofNat 32 (wordAt pkt 12 4)
  dst : q.dst = BitVec.ofNat 32 (wordAt pkt 16 4)
  srcPort : q.srcPort = UInt16.ofNat (wordAt pkt (ihl pkt) 2)
  dstPort : q.dstPort = DNS_PORT
  payload : q.payload = (pkt.drop (ihl pkt + 8)).take (wordAt pkt (ihl pkt + 4) 2 - 8)

/-- A whole packet of IPv4 with such a datagram. -/
structure IsQuery (pkt : Bytes) (q : DnsQuery) : Prop extends IsDatagram pkt q where
  header : 20 ≤ pkt.length
  version : pkt.getD 0 0 >>> 4 = 4
  ihl_ge : 20 ≤ ihl pkt
  proto : pkt.getD 9 0 = PROTO_UDP
  first : wordAt pkt 6 2 &&& 0x1FFF = 0
  last : wordAt pkt 6 2 &&& 0x2000 = 0
  total_ge : ihl pkt + 8 ≤ wordAt pkt 2 2
  total_le : wordAt pkt 2 2 ≤ pkt.length

namespace Checked

variable {buf : Bytes}

theorem index_getD {i : ℕ} (h : i < buf.length) : index buf i = .ok (buf.getD i 0) := by
  rw [index_eq h, List.getD_eq_getElem _ _ h]

theorem u16At_eq {i : ℕ} (h : i + 2 ≤ buf.length) :
    u16At buf i = .ok (UInt16.ofNat (wordAt buf i 2)) := by
  rw [u16At, index_eq (by omega), index_eq (by omega), wordAt,
    List.drop_eq_getElem_cons (by omega), List.drop_eq_getElem_cons (by omega)]
  rfl

theorem toNat_wordAt (buf : Bytes) (i : ℕ) :
    (UInt16.ofNat (wordAt buf i 2)).toNat = wordAt buf i 2 := by
  rw [UInt16.toNat_ofNat', Nat.mod_eq_of_lt (wordAt_lt buf i)]

theorem and_eq_zero_iff (buf : Bytes) (i : ℕ) (mask : UInt16) :
    UInt16.ofNat (wordAt buf i 2) &&& mask = 0 ↔ wordAt buf i 2 &&& mask.toNat = 0 := by
  rw [← UInt16.toNat_inj, UInt16.toNat_and, toNat_wordAt]
  rfl

theorem wordAt_part {a len i n : ℕ} (h : i + n ≤ len) :
    wordAt ((buf.drop a).take len) i n = wordAt buf (a + i) n := by
  rw [wordAt, List.drop_take, List.take_take, List.drop_drop, Nat.min_eq_left (by omega), wordAt]

/-- A packet that is refused is no query. -/
theorem refuse {α : Type} {p : α → Prop} (h : ∀ a, ¬ p a) :
    ∃ o : Option α, ask none = ask o ∧ ∀ a, o = some a ↔ p a :=
  ⟨none, rfl, fun a => ⟨(fun hsome => by cases hsome), fun ha => absurd ha (h a)⟩⟩

end Checked

section Classify

open Checked

/-- The part of `classify` that looks at the datagram. -/
def classifyUdp (pkt : Bytes) (ihl total : ℕ) : Checked DnsQuery := do
  let udp ← range pkt ihl total
  let dstPort ← u16At udp 2
  if dstPort ≠ DNS_PORT then ask none
  else
    let udpLen ← u16At udp 4
    if udpLen.toNat < 8 ∨ udpLen.toNat > udp.length then ask none
    else
      let src ← ipv4At pkt 12
      let dst ← ipv4At pkt 16
      let srcPort ← u16At udp 0
      let payload ← range udp 8 udpLen.toNat
      pure ⟨src, dst, srcPort, dstPort, payload⟩

theorem classifyUdp_spec {pkt : Bytes} (hlen : 20 ≤ pkt.length)
    (hge : ihl pkt + 8 ≤ wordAt pkt 2 2) (hle : wordAt pkt 2 2 ≤ pkt.length) :
    ∃ o, classifyUdp pkt (ihl pkt) (wordAt pkt 2 2) = ask o ∧
      ∀ q, o = some q ↔ IsDatagram pkt q := by
  have hudp : ((pkt.drop (ihl pkt)).take (wordAt pkt 2 2 - ihl pkt)).length =
      wordAt pkt 2 2 - ihl pkt := by
    rw [List.length_take, List.length_drop]
    omega
  rw [classifyUdp, range_eq (by omega) hle, ok_bind, u16At_eq (by omega), ok_bind,
    wordAt_part (by omega)]
  by_cases hport : UInt16.ofNat (wordAt pkt (ihl pkt + 2) 2) ≠ DNS_PORT
  · rw [if_pos hport]
    refine refuse fun q hq => hport ?_
    rw [hq.port]
    rfl
  rw [if_neg hport, u16At_eq (by omega), ok_bind, toNat_wordAt, wordAt_part (by omega), hudp]
  by_cases hlens : wordAt pkt (ihl pkt + 4) 2 < 8 ∨
      wordAt pkt (ihl pkt + 4) 2 > wordAt pkt 2 2 - ihl pkt
  · rw [if_pos hlens]
    refine refuse fun q hq => ?_
    have hge := hq.udpLen_ge
    have hle := hq.udpLen_le
    omega
  rw [if_neg hlens, ipv4At_eq (by omega), ok_bind, ipv4At_eq (by omega), ok_bind,
    u16At_eq (by omega), ok_bind, wordAt_part (by omega), range_eq (by omega) (by omega), ok_bind,
    not_not.1 hport]
  refine ⟨_, rfl, fun q => ⟨?_, ?_⟩⟩
  · intro hq
    cases hq
    refine ⟨?_, by omega, by omega, rfl, rfl, rfl, rfl, ?_⟩
    · rw [← not_not.1 hport, toNat_wordAt]
    · rw [List.drop_take, List.take_take, List.drop_drop, Nat.min_eq_left (by omega)]
  · intro hq
    obtain ⟨src, dst, srcPort, dstPort, payload⟩ := q
    obtain ⟨-, -, -, hsrc, hdst, hsrcPort, hdstPort, hpayload⟩ := hq
    dsimp only at hsrc hdst hsrcPort hdstPort hpayload
    rw [hsrc, hdst, hsrcPort, hdstPort, hpayload, List.drop_take, List.take_take, List.drop_drop,
      Nat.min_eq_left (by omega)]
    rfl

/-- No index of `classify` is out of bounds, and it finds a query where there is one. -/
theorem classify_spec (pkt : Bytes) :
    ∃ o, classify pkt = ask o ∧ ∀ q, o = some q ↔ IsQuery pkt q := by
  unfold classify
  by_cases hlen : pkt.length < 20
  · rw [if_pos hlen]
    exact refuse fun q hq => absurd hq.header (Nat.not_le.2 hlen)
  rw [if_neg hlen, index_getD (by omega), ok_bind]
  by_cases hversion : pkt.getD 0 0 >>> 4 ≠ 4
  · rw [if_pos hversion]
    exact refuse fun q hq => hversion hq.version
  simp only [if_neg hversion, show (pkt.getD 0 0 &&& 0x0F).toNat * 4 = ihl pkt from rfl]
  by_cases hihl : ihl pkt < 20 ∨ ihl pkt > pkt.length
  · rw [if_pos hihl]
    refine refuse fun q hq => ?_
    have hge := hq.ihl_ge
    have htotal := hq.total_ge
    have hle := hq.total_le
    omega
  rw [if_neg hihl, index_getD (by omega), ok_bind]
  by_cases hproto : pkt.getD 9 0 ≠ PROTO_UDP
  · rw [if_pos hproto]
    exact refuse fun q hq => hproto hq.proto
  rw [if_neg hproto, u16At_eq (by omega), ok_bind]
  by_cases hfirst : UInt16.ofNat (wordAt pkt 6 2) &&& 0x1FFF ≠ 0
  · rw [if_pos hfirst]
    exact refuse fun q hq => hfirst ((and_eq_zero_iff pkt 6 0x1FFF).2 hq.first)
  rw [if_neg hfirst]
  by_cases hlast : UInt16.ofNat (wordAt pkt 6 2) &&& 0x2000 ≠ 0
  · rw [if_pos hlast]
    exact refuse fun q hq => hlast ((and_eq_zero_iff pkt 6 0x2000).2 hq.last)
  rw [if_neg hlast, u16At_eq (by omega), ok_bind, toNat_wordAt]
  by_cases htotal : wordAt pkt 2 2 < ihl pkt + 8 ∨ wordAt pkt 2 2 > pkt.length
  · rw [if_pos htotal]
    refine refuse fun q hq => ?_
    have hge := hq.total_ge
    have hle := hq.total_le
    omega
  rw [if_neg htotal]
  obtain ⟨o, ho, hspec⟩ := classifyUdp_spec (Nat.le_of_not_lt hlen)
    (show ihl pkt + 8 ≤ wordAt pkt 2 2 by omega) (by omega)
  refine ⟨o, ho, fun q => (hspec q).trans ⟨fun hq => ?_, fun hq => hq.toIsDatagram⟩⟩
  exact ⟨hq, by omega, not_not.1 hversion, by omega, not_not.1 hproto,
    (and_eq_zero_iff pkt 6 0x1FFF).1 (not_not.1 hfirst),
    (and_eq_zero_iff pkt 6 0x2000).1 (not_not.1 hlast), by omega, by omega⟩

end Classify

end ShadowVpn
