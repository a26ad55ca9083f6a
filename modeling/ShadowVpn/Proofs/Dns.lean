import ShadowVpn.Sanity.DnsReplies

/-! Names, answers and queries of DNS messages: which names are read, what a reply that the server
makes up says, and what a query asks for. -/

namespace ShadowVpn

open Lib

namespace Dns

/-- Names are read and skipped without a panic and in finitely many turns. A name is read if
and only if its walk comes to a zero byte, and skipping it ends where reading it does. -/
theorem readName_walk (msg : Bytes) (start : ℕ) :
    Checked.readName msg start = Checked.ask (readName msg start) ∧
    (∀ turns, msg.length < turns →
      Checked.skipLoop msg turns start = some (.ok (skipName msg start))) ∧
    ((readName msg start).isSome ↔ ∃ n, Ends (move msg) start n) ∧
    ∀ name end_, readName msg start = some (name, end_) → skipName msg start = some end_ := by
  refine ⟨Checked.readName_eq msg start, ?_, readName_isSome_iff msg start, ?_⟩
  · intro turns hturns
    rw [Checked.skipLoop_eq (by omega) (by omega), skipName_turns hturns]
  · intro name end_ h
    exact skipName_of_readName h

theorem readName_walk_pointer :
    readName [1, 0x41, 0, 0xC0, 0] 3 = some (['a'], 5) ∧
    skipName [1, 0x41, 0, 0xC0, 0] 3 = some 5 ∧
    Checked.skipLoop [1, 0x41, 0, 0xC0, 0] 6 3 = some (.ok (skipName [1, 0x41, 0, 0xC0, 0] 3)) := by
  have h : readName [1, 0x41, 0, 0xC0, 0] 3 = some (['a'], 5) := by decide
  have hwalk := readName_walk [1, 0x41, 0, 0xC0, 0] 3
  exact ⟨h, hwalk.2.2.2 _ _ h, hwalk.2.1 6 (by decide)⟩

example : readName [0xC0, 0] 0 = none := by decide

/-- A reply that is made up for a question parses back to the question and to the addresses of
its type, with the TTL that was given, and the refusal of a name to the question and nothing. -/
theorem buildResponse_parses {query : Bytes} {end_ : ℕ} {k : CacheKey}
    (hname : Uncompressed query HEADER_LEN end_) (h : question query = some k)
    (addrs : List IpAddr) (haddrs : addrs.length ≤ 65535) (ttl : UInt32) :
    (∃ r, buildResponse query addrs ttl = some r ∧ r.take 2 = query.take 2 ∧
      r.getD 2 0 &&& 0x80 ≠ 0 ∧ rcode r = 0 ∧ question r = some k ∧
      aRecords r =
        (if k.2.1 = TYPE_A ∧ k.2.2 = CLASS_IN then addrs.filterMap asV4 else []) ∧
      aaaaRecords r =
        (if k.2.1 = TYPE_AAAA ∧ k.2.2 = CLASS_IN then addrs.filterMap asV6 else []) ∧
      (minTtl r = some ttl.toNat ↔ 0 < answerCount r)) ∧
    ∃ r, buildNxdomain query = some r ∧ r.take 2 = query.take 2 ∧ r.getD 2 0 &&& 0x80 ≠ 0 ∧
      rcode r = 3 ∧ question r = some k ∧ answerCount r = 0 ∧ wordAt r 8 2 = 0 ∧ wordAt r 10 2 = 0 ∧
      aRecords r = [] ∧ aaaaRecords r = [] ∧ minTtl r = none := by
  obtain ⟨hskip, hfit⟩ := fits_of_question hname h
  have hheader := header_of_skipName hskip hfit
  have hid : (query.take (end_ + 4)).take 2 = query.take 2 := by
    rw [List.take_take, Nat.min_eq_left (by omega)]
  refine ⟨?_, ?_⟩
  · have hcount := length_answersOf_le k.2.1 k.2.2 addrs
    have hcarries := carries_reply hname hfit 0x80 ttl
      (show (answersOf k.2.1 k.2.2 addrs).length < 65536 by omega)
    obtain ⟨htake, hqr, hcode, -⟩ := reply_header 0x80 (answersOf k.2.1 k.2.2 addrs).length hheader
      ((answersOf k.2.1 k.2.2 addrs).flatMap (answerRecord ttl))
    refine ⟨_, buildResponse_eq h hskip hfit addrs ttl, htake.trans hid, ?_, hcode,
      question_reply hname h hfit _ _ _, ?_, ?_, ?_⟩
    · rw [hqr]
      decide
    · rw [hcarries.aRecords, filterMap_answersOf asV4_isSome]
    · rw [hcarries.aaaaRecords, filterMap_answersOf asV6_isSome]
    · rw [hcarries.minTtl, hcarries.count, List.length_pos_iff]
      split_ifs with hnil
      · simp [hnil]
      · simp [hnil]
  · have hcarries := carries_reply hname hfit 0x83 ttl (show ([] : List IpAddr).length < 65536 by decide)
    obtain ⟨htake, hqr, hcode, -, hns, har⟩ := reply_header 0x83 0 hheader []
    have hquestion := question_reply hname h hfit 0x83 0 []
    rw [List.flatMap_nil, List.length_nil] at hcarries
    have hbuild := buildNxdomain_eq hskip hfit
    rw [← List.append_nil (reply _ _ _)] at hbuild
    refine ⟨_, hbuild, htake.trans hid, ?_, hcode, hquestion, hcarries.count, hns, har,
      hcarries.aRecords, hcarries.aaaaRecords, hcarries.minTtl⟩
    rw [hqr]
    decide

theorem buildResponse_parses_one : ∃ r,
    buildResponse [7, 7, 1, 0, 0, 1, 0, 0, 0, 0, 0, 0, 1, 0x41, 0, 0, 1, 0, 1]
      [.v6 1#128, .v4 0x0A090002#32] 60 = some r ∧ aRecords r = [0x0A090002#32] := by
  have hname : Uncompressed [7, 7, 1, 0, 0, 1, 0, 0, 0, 0, 0, 0, 1, 0x41, 0, 0, 1, 0, 1]
      HEADER_LEN 15 := by
    refine .label (show _ = some 1 from rfl) (by decide) (by decide) ?_
    exact .root rfl
  have hquestion : question [7, 7, 1, 0, 0, 1, 0, 0, 0, 0, 0, 0, 1, 0x41, 0, 0, 1, 0, 1] =
      some (['a'], TYPE_A, CLASS_IN) := by
    decide +kernel
  obtain ⟨r, hr, -, -, -, -, ha, -⟩ := (buildResponse_parses hname hquestion
    [.v6 1#128, .v4 0x0A090002#32] (by decide) 60).1
  exact ⟨r, hr, ha⟩

/-- A query for a name whose parts fit is read as the question for the parts that are not empty, and
begins with its id. -/
theorem buildQuery_question (id : UInt16) (name : Text)
    (h : ∀ part ∈ nameParts name, byteLen part ≤ 63) :
    question (buildQuery id name) =
        some ((['.'].intercalate (nameParts name)).map Char.toLower, TYPE_A, CLASS_IN) ∧
      (buildQuery id name).take 2 = toBE 2 id.toNat := by
  refine ⟨question_query id h, ?_⟩
  rw [buildQuery_eq id h]
  exact List.take_left' (length_toBE 2 id.toNat)

theorem buildQuery_question_umlaut :
    question (buildQuery 7 ['Ü', '.', 'D', 'e', '.']) =
      some (['Ü', '.', 'd', 'e'], TYPE_A, CLASS_IN) ∧
    (buildQuery 7 ['Ü', '.', 'D', 'e', '.']).take 2 = [0, 7] := by
  have hparts : nameParts ['Ü', '.', 'D', 'e', '.'] = [['Ü'], ['D', 'e']] := by decide
  have h := buildQuery_question 7 ['Ü', '.', 'D', 'e', '.'] (by rw [hparts]; decide)
  rw [hparts] at h
  exact h

end Dns

end ShadowVpn
