import ShadowVpn.Sanity.Intercept

/-! What the intercept owes to the host: it takes whole DNS queries only, and answers each with a
packet that the host's stack accepts. -/

namespace ShadowVpn

open Lib

/-- For any packet, `classify` reads inside its bounds and finds exactly the DNS queries. A query
that it finds is answered without an overflow by a packet with right lengths and checksums, the
ends of the query exchanged, and the response as its payload. -/
theorem intercept_wellFormed (P : Platform) :
    (∀ pkt q response, classify pkt = Checked.ask (some q) → response.length ≤ 65507 →
      ∃ r, buildReply P q response = .ok r ∧ r.length = 28 + response.length ∧
        r.getD 0 0 = 0x45 ∧ r.getD 9 0 = PROTO_UDP ∧
        wordAt r 2 2 = r.length ∧ wordAt r 24 2 = r.length - 20 ∧
        onesSum (r.take 20) = 0xFFFF ∧
        onesSum (pseudoHeader r (r.length - 20) ++ r.drop 20) = 0xFFFF ∧ wordAt r 26 2 ≠ 0 ∧
        wordAt r 12 4 = q.dst.toNat ∧ wordAt r 16 4 = q.src.toNat ∧
        wordAt r 20 2 = q.dstPort.toNat ∧ wordAt r 22 2 = q.srcPort.toNat ∧
        r.drop 28 = response) ∧
    ∀ pkt, ∃ o, classify pkt = Checked.ask o ∧ (∀ q, o = some q ↔ IsQuery pkt q) ∧
      ∀ q, o = some q → q.payload.length = wordAt pkt (ihl pkt + 4) 2 - 8 := by
  refine ⟨?_, ?_⟩
  · intro pkt q response _ hlen
    obtain ⟨ck, udpCk, hne, hlt, hbuild, hip, hudp⟩ := exists_packet q response P hlen
    obtain ⟨htotal, hdst, hsrc, hdstPort, hsrcPort, hudpLen, hudpCk⟩ :=
      words_packet q response (20 + (8 + response.length)) ck (8 + response.length) udpCk (by omega)
        (by omega) hlt
    have hsize := length_packet q response (20 + (8 + response.length)) ck (8 + response.length) udpCk
    refine ⟨_, hbuild, hsize, rfl, rfl, ?_, ?_, ?_, ?_, ?_, hdst, hsrc, hdstPort, hsrcPort,
      payload_packet q response _ _ _ _⟩
    · rw [htotal, hsize]
      omega
    · rw [hudpLen, hsize]
      omega
    · rw [take_packet]
      exact hip
    · rw [hsize, show 28 + response.length - 20 = 8 + response.length by omega, drop_packet]
      exact hudp
    · rw [hudpCk]
      exact hne
  · intro pkt
    obtain ⟨o, ho, hspec⟩ := classify_spec pkt
    refine ⟨o, ho, hspec, ?_⟩
    intro q hq
    have hquery := (hspec q).1 hq
    have hle := hquery.udpLen_le
    have htotal := hquery.total_le
    rw [hquery.payload, List.length_take, List.length_drop]
    omega

namespace Sample

/-- 10.9.0.2:5000 asks 8.8.8.8 with three bytes. -/
def dnsPacket : Bytes :=
  [0x45, 0, 0, 31, 0, 0, 0, 0, 64, 17, 0, 0, 10, 9, 0, 2, 8, 8, 8, 8] ++
    [0x13, 0x88, 0, 53, 0, 11, 0, 0] ++ [1, 2, 3]

def dnsQuery : DnsQuery := ⟨0x0A090002, 0x08080808, 5000, 53, [1, 2, 3]⟩

end Sample

theorem intercept_wellFormed_sample :
    classify Sample.dnsPacket = Checked.ask (some Sample.dnsQuery) ∧
    ∀ P, ∃ r, buildReply P Sample.dnsQuery [9, 9, 9] = .ok r ∧ onesSum (r.take 20) = 0xFFFF := by
  have h : classify Sample.dnsPacket = Checked.ask (some Sample.dnsQuery) := rfl
  refine ⟨h, fun P => ?_⟩
  obtain ⟨r, hr, -, -, -, -, -, hsum, -⟩ :=
    (intercept_wellFormed P).1 Sample.dnsPacket Sample.dnsQuery [9, 9, 9] h (by decide)
  exact ⟨r, hr, hsum⟩

end ShadowVpn
