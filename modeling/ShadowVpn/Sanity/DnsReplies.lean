import ShadowVpn.Sanity.DnsNames
import ShadowVpn.Sanity.Rewrite

/-! What the readers of DNS messages find in a query, and in a reply: the question that was
asked, and the records one after another. -/

namespace ShadowVpn

open Lib

namespace Dns

/-! Names without pointers. -/

/-- The labels from `pos` on are stored there, and the name ends before `end_`. -/
inductive Uncompressed (msg : Bytes) : ℕ → ℕ → Prop
  | root {pos : ℕ} (h : msg[pos]? = some 0) : Uncompressed msg pos (pos + 1)
  | label {pos end_ : ℕ} {len : UInt8} (h : msg[pos]? = some len) (hne : len ≠ 0) (hle : len ≤ 63)
      (hrest : Uncompressed msg (pos + 1 + len.toNat) end_) : Uncompressed msg pos end_

/-- The same bytes from `pos` up to `end_`. -/
def Agree (msg msg' : Bytes) (pos end_ : ℕ) : Prop :=
  ∀ i, pos ≤ i → i < end_ → msg'[i]? = msg[i]?

namespace Uncompressed

variable {msg : Bytes} {pos end_ : ℕ}

theorem lt (h : Uncompressed msg pos end_) : pos < end_ := by
  induction h with
  | root => omega
  | label => omega

theorem last (h : Uncompressed msg pos end_) : msg[end_ - 1]? = some 0 := by
  induction h with
  | root h => exact h
  | label _ _ _ _ ih => exact ih

/-- A message that has the bytes of the name reaches to the end of it. -/
theorem le_length {msg' : Bytes} (h : Uncompressed msg pos end_) (hagree : Agree msg msg' pos end_) :
    end_ ≤ msg'.length := by
  have hlt := h.lt
  have hlast := hagree (end_ - 1) (by omega) (by omega)
  rw [h.last] at hlast
  obtain ⟨hlen, -⟩ := List.getElem?_eq_some_iff.1 hlast
  omega

/-- Where the bytes of the name are the same, the same labels are read. -/
theorem readLoop {α : Type} (f : Bytes → α) (h : Uncompressed msg pos end_) :
    ∃ ls, ∀ msg', Agree msg msg' pos end_ → ∀ budget after labels, end_ ≤ budget + pos →
      Dns.readLoop f msg' budget pos false after labels = some (labels ++ ls, end_) := by
  induction h with
  | @root pos h =>
    refine ⟨[], ?_⟩
    intro msg' hagree budget after labels hbudget
    obtain ⟨budget, rfl⟩ := Nat.exists_eq_succ_of_ne_zero (show budget ≠ 0 by omega)
    rw [readLoop_root ((hagree pos (Nat.le_refl _) (by omega)).trans h), List.append_nil]
    rfl
  | @label pos end_ len h hne hle hrest ih =>
    obtain ⟨ls, hls⟩ := ih
    have hlt := hrest.lt
    refine ⟨f ((msg.drop (pos + 1)).take len.toNat) :: ls, ?_⟩
    intro msg' hagree budget after labels hbudget
    obtain ⟨budget, rfl⟩ := Nat.exists_eq_succ_of_ne_zero (show budget ≠ 0 by omega)
    have hlater : Agree msg msg' (pos + 1 + len.toNat) end_ := by
      intro i hi hend
      exact hagree i (by omega) hend
    have hin : pos + 1 + len.toNat ≤ msg'.length := by
      have hend := hrest.le_length hlater
      omega
    have hbytes : (msg'.drop (pos + 1)).take len.toNat = (msg.drop (pos + 1)).take len.toNat := by
      apply List.ext_getElem?
      intro i
      rw [List.getElem?_take, List.getElem?_take, List.getElem?_drop, List.getElem?_drop]
      split_ifs with hi
      · exact hagree _ (by omega) (by omega)
      · rfl
    rw [readLoop_label ((hagree pos (Nat.le_refl _) (by omega)).trans h) hne hle hin, hbytes,
      hls msg' hlater budget _ _ (by omega), List.append_assoc, List.singleton_append]

theorem readName (h : Uncompressed msg pos end_) :
    ∃ name, ∀ msg', Agree msg msg' pos end_ → Dns.readName msg' pos = some (name, end_) := by
  obtain ⟨ls, hls⟩ := h.readLoop labelText
  refine ⟨['.'].intercalate ls, ?_⟩
  intro msg' hagree
  have hlen := h.le_length hagree
  rw [Dns.readName, hls msg' hagree _ _ _ (by omega)]
  rfl

end Uncompressed

theorem wordAt_of_agree {msg msg' : Bytes} {pos end_ off n : ℕ} (h : Agree msg msg' pos end_)
    (hoff : pos ≤ off) (hend : off + n ≤ end_) : wordAt msg' off n = wordAt msg off n := by
  have hbytes : (msg'.drop off).take n = (msg.drop off).take n := by
    apply List.ext_getElem?
    intro i
    rw [List.getElem?_take, List.getElem?_take, List.getElem?_drop, List.getElem?_drop]
    split_ifs with hi
    · exact h _ (by omega) (by omega)
    · rfl
  rw [wordAt, hbytes, wordAt]

/-- A message with one question or more, and the bytes of the first one, has the same question. -/
theorem question_of_agree {msg msg' : Bytes} {end_ : ℕ} {k : CacheKey}
    (hname : Uncompressed msg HEADER_LEN end_) (h : question msg = some k)
    (hagree : Agree msg msg' HEADER_LEN (end_ + 4)) (hlen : end_ + 4 ≤ msg'.length)
    (hcount : wordAt msg' 4 2 ≠ 0) : question msg' = some k := by
  obtain ⟨name, hread⟩ := hname.readName
  have hlt := hname.lt
  have hmsg := hread msg fun i _ _ => rfl
  have hmsg' := hread msg' fun i hi hend => hagree i hi (by omega)
  simp only [question, hmsg] at h
  split_ifs at h
  rw [question, if_neg (by omega), if_neg hcount, hmsg']
  dsimp only
  rw [if_neg (by omega), wordAt_of_agree hagree (by omega) (by omega),
    wordAt_of_agree hagree (by omega) (by omega)]
  exact h

/-- A reply has the question of the query. -/
theorem agree_reply {msg body : Bytes} {end_ count : ℕ} {code : UInt8}
    (hend : HEADER_LEN ≤ end_) (hfit : end_ + 4 ≤ msg.length) :
    Agree msg (reply (msg.take (end_ + 4)) code count ++ body) HEADER_LEN (end_ + 4) := by
  intro i hi hlt
  have hlen : (msg.take (end_ + 4)).length = end_ + 4 := by
    rw [List.length_take]
    omega
  rw [← List.head?_drop, drop_reply (by omega) hi (by omega), List.head?_append,
    List.head?_drop, List.getElem?_take_of_lt hlt, List.getElem?_eq_getElem (by omega)]
  rfl

/-! Records. -/

/-- The type of the record of an address. -/
def rtypeOf : IpAddr → UInt16
  | .v4 _ => TYPE_A
  | .v6 _ => TYPE_AAAA

/-- The data of the record of an address. -/
def rdataOf : IpAddr → Bytes
  | .v4 ip => toBE 4 ip.toNat
  | .v6 ip => toBE 16 ip.toNat

theorem answerRecord_eq (ttl : UInt32) (addr : IpAddr) :
    answerRecord ttl addr = [0xC0, 0x0C] ++ toBE 2 (rtypeOf addr).toNat ++ toBE 2 CLASS_IN.toNat ++
      toBE 4 ttl.toNat ++ toBE 2 (rdataOf addr).length ++ rdataOf addr := by
  cases addr with
  | v4 ip => rw [rdataOf, length_toBE, answerRecord, rtypeOf]
  | v6 ip => rw [rdataOf, length_toBE, answerRecord, rtypeOf]

/-- What the readers find where a record stands. -/
structure RecordAt (r : Bytes) (ttl : UInt32) (addr : IpAddr) (pos : ℕ) : Prop where
  skip : skipName r pos = some (pos + 2)
  fits : pos + 12 + (rdataOf addr).length ≤ r.length
  rtype : wordAt r (pos + 2) 2 = (rtypeOf addr).toNat
  rclass : wordAt r (pos + 4) 2 = CLASS_IN.toNat
  ttl : wordAt r (pos + 6) 4 = ttl.toNat
  rdlength : wordAt r (pos + 10) 2 = (rdataOf addr).length
  rdata : wordAt r (pos + 12) (rdataOf addr).length = ofBE (rdataOf addr)

section Records

variable {r rest : Bytes} {ttl : UInt32} {addr : IpAddr} {pos : ℕ}

theorem rdataOf_length_lt (addr : IpAddr) : (rdataOf addr).length < 256 ^ 2 := by
  cases addr <;> simp [rdataOf]

theorem recordAt_of_drop (h : r.drop pos = answerRecord ttl addr ++ rest) :
    RecordAt r ttl addr pos ∧ r.drop (pos + 12 + (rdataOf addr).length) = rest := by
  have hlen := congrArg List.length h
  rw [answerRecord_eq] at h hlen
  simp only [List.append_assoc] at h
  simp only [List.length_drop, List.length_append, length_toBE, List.length_cons,
    List.length_nil] at hlen
  have hfirst : r[pos]? = some 0xC0 := by
    rw [← List.head?_drop, h]
    rfl
  have hptr : r.drop (pos + 2) = _ := drop_of_drop h
  obtain ⟨htype, h⟩ := word_of_drop hptr (rtypeOf addr).toNat_lt
  obtain ⟨hclass, h⟩ := word_of_drop h CLASS_IN.toNat_lt
  obtain ⟨httl, h⟩ := word_of_drop h ttl.toNat_lt
  obtain ⟨hrdlength, h⟩ := word_of_drop h (rdataOf_length_lt addr)
  obtain ⟨hrdata, h⟩ := field_of_drop h
  refine ⟨⟨?_, by omega, htype, hclass, httl, hrdlength, hrdata⟩, h⟩
  rw [skipName, skipLoop, hfirst]
  dsimp only
  rw [if_neg (by decide), if_pos (by decide), if_pos (by omega)]

/-! The loops over the records. -/

theorem recordsLoop_step {α : Type} {rtype : UInt16} {len count : ℕ} {read : ℕ → α} {out : List α}
    (h : RecordAt r ttl addr pos) :
    recordsLoop rtype len read r (count + 1) pos out =
      recordsLoop rtype len read r count (pos + 12 + (rdataOf addr).length)
        (if rtypeOf addr = rtype ∧ (rdataOf addr).length = len then out ++ [read (pos + 12)]
          else out) := by
  have hfits := h.fits
  have hrd : wordAt r (pos + 2 + 8) 2 = (rdataOf addr).length := h.rdlength
  have hty : wordAt r (pos + 2) 2 = (rtypeOf addr).toNat := h.rtype
  have hcl : wordAt r (pos + 2 + 2) 2 = CLASS_IN.toNat := h.rclass
  rw [recordsLoop, h.skip]
  dsimp only
  rw [if_neg (by omega), hrd, if_neg (by omega), hty, hcl, UInt16.ofNat_toNat, UInt16.ofNat_toNat]
  simp only [true_and]

theorem minTtlLoop_step {count : ℕ} {min : Option ℕ} (h : RecordAt r ttl addr pos) :
    minTtlLoop r (count + 1) pos min =
      minTtlLoop r count (pos + 12 + (rdataOf addr).length)
        (some (min.elim ttl.toNat fun m => Nat.min m ttl.toNat)) := by
  have hfits := h.fits
  have hrd : wordAt r (pos + 2 + 8) 2 = (rdataOf addr).length := h.rdlength
  have htt : wordAt r (pos + 2 + 4) 4 = ttl.toNat := h.ttl
  rw [minTtlLoop, h.skip]
  dsimp only
  rw [if_neg (by omega), hrd, htt]
  cases min <;> rfl

/-- The records are read in order; `pick` says which of them count. -/
theorem recordsLoop_records {α : Type} {rtype : UInt16} {len : ℕ} {read : ℕ → α}
    {pick : IpAddr → Option α}
    (hpick : ∀ addr pos, RecordAt r ttl addr pos →
      (if rtypeOf addr = rtype ∧ (rdataOf addr).length = len then [read (pos + 12)] else []) =
        (pick addr).toList)
    (recs : List IpAddr) {pos : ℕ} {out : List α}
    (h : r.drop pos = recs.flatMap (answerRecord ttl)) :
    recordsLoop rtype len read r recs.length pos out = out ++ recs.filterMap pick := by
  induction recs generalizing pos out with
  | nil => simp [recordsLoop]
  | cons addr recs ih =>
    rw [List.flatMap_cons] at h
    obtain ⟨hrec, hrest⟩ := recordAt_of_drop h
    have hout : (if rtypeOf addr = rtype ∧ (rdataOf addr).length = len then out ++ [read (pos + 12)]
        else out) = out ++ (pick addr).toList := by
      rw [← hpick addr pos hrec]
      split_ifs
      · rfl
      · rw [List.append_nil]
    rw [List.length_cons, recordsLoop_step hrec, hout, ih hrest, List.append_assoc]
    cases hp : pick addr with
    | none => simp [hp]
    | some a => simp [hp]

theorem minTtlLoop_records (recs : List IpAddr) {pos : ℕ} {min : Option ℕ}
    (hmin : min = none ∨ min = some ttl.toNat)
    (h : r.drop pos = recs.flatMap (answerRecord ttl)) :
    minTtlLoop r recs.length pos min = if recs = [] then min else some ttl.toNat := by
  induction recs generalizing pos min with
  | nil => rfl
  | cons addr recs ih =>
    rw [List.flatMap_cons] at h
    obtain ⟨hrec, hrest⟩ := recordAt_of_drop h
    have hleast : (min.elim ttl.toNat fun m => Nat.min m ttl.toNat) = ttl.toNat := by
      rcases hmin with rfl | rfl
      · rfl
      · exact Nat.min_self _
    rw [List.length_cons, minTtlLoop_step hrec, hleast, ih (Or.inr rfl) hrest]
    simp

end Records

/-! Whole replies. -/

def asV4 : IpAddr → Option Ipv4Addr
  | .v4 ip => some ip
  | .v6 _ => none

def asV6 : IpAddr → Option Ipv6Addr
  | .v4 _ => none
  | .v6 ip => some ip

/-- The message says how many records it has, and they stand after its questions. -/
structure Carries (r : Bytes) (ttl : UInt32) (recs : List IpAddr) (pos : ℕ) : Prop where
  header : HEADER_LEN ≤ r.length
  questions : skipQuestions r (wordAt r 4 2) HEADER_LEN = some pos
  count : answerCount r = recs.length
  body : r.drop pos = recs.flatMap (answerRecord ttl)

namespace Carries

variable {r : Bytes} {ttl : UInt32} {recs : List IpAddr} {pos : ℕ}

theorem records {α : Type} {rtype : UInt16} {len : ℕ} {read : ℕ → α} {pick : IpAddr → Option α}
    (h : Carries r ttl recs pos)
    (hpick : ∀ addr pos, RecordAt r ttl addr pos →
      (if rtypeOf addr = rtype ∧ (rdataOf addr).length = len then [read (pos + 12)] else []) =
        (pick addr).toList) :
    Dns.records rtype len read r = recs.filterMap pick := by
  have hcount : wordAt r 6 2 = recs.length := h.count
  rw [Dns.records, if_neg (Nat.not_lt.2 h.header), h.questions, hcount]
  exact recordsLoop_records hpick recs h.body

theorem aRecords (h : Carries r ttl recs pos) : Dns.aRecords r = recs.filterMap asV4 := by
  refine h.records fun addr pos hrec => ?_
  cases addr with
  | v4 ip =>
    have hword : wordAt r (pos + 12) 4 = ip.toNat := by
      have hrdata := hrec.rdata
      rwa [rdataOf, length_toBE, ofBE_toBE ip.isLt] at hrdata
    rw [if_pos ⟨rfl, length_toBE 4 _⟩, hword, BitVec.ofNat_toNat, BitVec.setWidth_eq]
    rfl
  | v6 ip =>
    rw [if_neg fun hc => absurd hc.1 (show TYPE_AAAA ≠ TYPE_A by decide)]
    rfl

theorem aaaaRecords (h : Carries r ttl recs pos) : Dns.aaaaRecords r = recs.filterMap asV6 := by
  refine h.records fun addr pos hrec => ?_
  cases addr with
  | v4 ip =>
    rw [if_neg fun hc => absurd hc.1 (show TYPE_A ≠ TYPE_AAAA by decide)]
    rfl
  | v6 ip =>
    have hword : wordAt r (pos + 12) 16 = ip.toNat := by
      have hrdata := hrec.rdata
      rwa [rdataOf, length_toBE, ofBE_toBE ip.isLt] at hrdata
    rw [if_pos ⟨rfl, length_toBE 16 _⟩, hword, BitVec.ofNat_toNat, BitVec.setWidth_eq]
    rfl

theorem minTtl (h : Carries r ttl recs pos) :
    Dns.minTtl r = if recs = [] then none else some ttl.toNat := by
  have hcount : wordAt r 6 2 = recs.length := h.count
  rw [Dns.minTtl, if_neg (Nat.not_lt.2 h.header), h.questions, hcount]
  exact minTtlLoop_records recs (Or.inl rfl) h.body

end Carries

section Reply

variable {query : Bytes} {end_ : ℕ}

/-- A query up to the end of its question. -/
theorem Uncompressed.length_take (hname : Uncompressed query HEADER_LEN end_)
    (hfit : end_ + 4 ≤ query.length) :
    (query.take (end_ + 4)).length = end_ + 4 ∧ HEADER_LEN ≤ (query.take (end_ + 4)).length := by
  have hlt := hname.lt
  rw [List.length_take]
  omega

/-- A reply with the question of a query carries the records that are put after it. -/
theorem carries_reply (hname : Uncompressed query HEADER_LEN end_) (hfit : end_ + 4 ≤ query.length)
    (code : UInt8) (ttl : UInt32) {recs : List IpAddr} (hrecs : recs.length < 65536) :
    Carries (reply (query.take (end_ + 4)) code recs.length ++ recs.flatMap (answerRecord ttl)) ttl
      recs (end_ + 4) := by
  have hlt := hname.lt
  obtain ⟨hlen, hheader⟩ := hname.length_take hfit
  have hagree : Agree query (reply (query.take (end_ + 4)) code recs.length ++
      recs.flatMap (answerRecord ttl)) HEADER_LEN (end_ + 4) := agree_reply (by omega) hfit
  obtain ⟨-, -, -, hone, -⟩ := reply_header code recs.length hheader (recs.flatMap (answerRecord ttl))
  obtain ⟨name, hread⟩ := hname.readName
  have hskip := skipName_of_readName (hread _ fun i hi hend => hagree i hi (by omega))
  have htotal : end_ + 4 ≤ (reply (query.take (end_ + 4)) code recs.length ++
      recs.flatMap (answerRecord ttl)).length := by
    rw [List.length_append, length_reply hheader, hlen]
    omega
  refine ⟨by omega, ?_, answerCount_reply code hheader hrecs _, ?_⟩
  · rw [hone, skipQuestions, hskip]
    exact if_neg (Nat.not_lt.2 htotal)
  · rw [drop_reply hheader (by omega) (by omega), List.drop_eq_nil_of_le (by omega),
      List.nil_append]

theorem question_reply {k : CacheKey} (hname : Uncompressed query HEADER_LEN end_)
    (h : question query = some k) (hfit : end_ + 4 ≤ query.length) (code : UInt8) (count : ℕ)
    (body : Bytes) : question (reply (query.take (end_ + 4)) code count ++ body) = some k := by
  have hlt := hname.lt
  obtain ⟨hlen, hheader⟩ := hname.length_take hfit
  obtain ⟨-, -, -, hone, -⟩ := reply_header code count hheader body
  refine question_of_agree hname h (agree_reply (by omega) hfit) ?_ ?_
  · rw [List.length_append, length_reply hheader, hlen]
    omega
  · rw [hone]
    decide

/-- The first question of a query is inside the query. -/
theorem fits_of_question {k : CacheKey} (hname : Uncompressed query HEADER_LEN end_)
    (h : question query = some k) :
    skipName query HEADER_LEN = some end_ ∧ end_ + 4 ≤ query.length := by
  obtain ⟨name, hread⟩ := hname.readName
  obtain ⟨pos, -, hskip, -, hfit⟩ := question_eq_some h
  have hend := skipName_of_readName (hread query fun i _ _ => rfl)
  cases hskip.symm.trans hend
  exact ⟨hend, hfit⟩

end Reply

/-- Of one family there are answers only to a question of its type. -/
theorem filterMap_answersOf {α : Type} {pick : IpAddr → Option α} {rtype : UInt16}
    (hpick : ∀ addr, (pick addr).isSome → rtypeOf addr = rtype) (qtype qclass : UInt16)
    (addrs : List IpAddr) :
    (answersOf qtype qclass addrs).filterMap pick =
      if qtype = rtype ∧ qclass = CLASS_IN then addrs.filterMap pick else [] := by
  by_cases hclass : qclass = CLASS_IN
  · have hsame : ∀ addr, (if answersType qtype addr = true then pick addr else none) =
        if qtype = rtype then pick addr else none := by
      intro addr
      cases hp : pick addr with
      | none => simp
      | some a =>
        have htype : answersType qtype addr = decide (qtype = rtypeOf addr) := by
          cases addr <;> rfl
        rw [htype, hpick addr (by rw [hp]; rfl)]
        simp
    rw [answersOf, if_pos hclass, List.filterMap_filter]
    simp only [hsame, hclass, and_true]
    split_ifs
    · rfl
    · exact List.filterMap_eq_nil_iff.2 fun _ _ => rfl
  · simp [answersOf, hclass]

theorem asV4_isSome (addr : IpAddr) (h : (asV4 addr).isSome) : rtypeOf addr = TYPE_A := by
  cases addr with
  | v4 => rfl
  | v6 => cases h

theorem asV6_isSome (addr : IpAddr) (h : (asV6 addr).isSome) : rtypeOf addr = TYPE_AAAA := by
  cases addr with
  | v4 => cases h
  | v6 => rfl

theorem length_answersOf_le (qtype qclass : UInt16) (addrs : List IpAddr) :
    (answersOf qtype qclass addrs).length ≤ addrs.length := by
  unfold answersOf
  split_ifs
  · exact List.length_filter_le _ _
  · exact Nat.zero_le _

/-! A query. -/

section Query

variable {α : Type} {msg rest : Bytes}

/-- A label as a message carries it. -/
def wireLabel (label : Bytes) : Bytes := UInt8.ofNat label.length :: label

theorem length_le_wireLabels (labels : List Bytes) :
    labels.length ≤ (labels.flatMap wireLabel).length := by
  induction labels with
  | nil => exact Nat.le_refl 0
  | cons l labels ih =>
    rw [List.flatMap_cons, List.length_append, wireLabel, List.length_cons, List.length_cons]
    omega

/-- Labels one after another and a zero byte are read as these labels. -/
theorem readLoop_labels (f : Bytes → α) {labels : List Bytes}
    (hlabels : ∀ l ∈ labels, l ≠ [] ∧ l.length ≤ 63) {budget pos after : ℕ} {out : List α}
    (hdrop : msg.drop pos = labels.flatMap wireLabel ++ 0 :: rest) (hbudget : labels.length < budget) :
    readLoop f msg budget pos false after out =
      some (out ++ labels.map f, pos + (labels.flatMap wireLabel).length + 1) := by
  induction labels generalizing pos budget out with
  | nil =>
    obtain ⟨budget, rfl⟩ := Nat.exists_eq_succ_of_ne_zero (Nat.ne_zero_of_lt hbudget)
    have hfirst : msg[pos]? = some 0 := by
      rw [← List.head?_drop, hdrop]
      rfl
    rw [readLoop_root hfirst, List.map_nil, List.append_nil]
    rfl
  | cons l labels ih =>
    obtain ⟨budget, rfl⟩ := Nat.exists_eq_succ_of_ne_zero (Nat.ne_zero_of_lt hbudget)
    obtain ⟨⟨hne, hle⟩, hrest⟩ := List.forall_mem_cons.1 hlabels
    have hpos := List.length_pos_iff.2 hne
    have hlen : (UInt8.ofNat l.length).toNat = l.length := Utf8.toNat_ofNat_of_lt (by omega)
    rw [List.flatMap_cons, wireLabel, List.cons_append, List.cons_append, List.append_assoc] at hdrop
    have hfirst : msg[pos]? = some (UInt8.ofNat l.length) := by
      rw [← List.head?_drop, hdrop]
      rfl
    have htail : msg.drop (pos + 1) = l ++ (labels.flatMap wireLabel ++ 0 :: rest) := by
      rw [← List.drop_drop, hdrop]
      rfl
    have hfit : pos + 1 + l.length ≤ msg.length := by
      have hlength := congrArg List.length htail
      rw [List.length_drop, List.length_append, List.length_append, List.length_cons] at hlength
      omega
    have hzero : UInt8.ofNat l.length ≠ 0 := by
      intro heq
      rw [heq] at hlen
      exact absurd hlen (Nat.ne_of_lt hpos)
    rw [readLoop_label hfirst hzero (UInt8.le_iff_toNat_le.2 (by rw [hlen]; exact hle))
      (by rw [hlen]; exact hfit), hlen, htail, List.take_left,
      ih hrest (drop_of_drop htail) (Nat.lt_of_succ_lt_succ hbudget), List.flatMap_cons, wireLabel,
      List.map_cons, List.append_assoc, List.singleton_append, List.length_append, List.length_cons]
    congr 2
    omega

theorem labelText_encode (s : Text) : labelText (Utf8.encode s) = s.map Char.toLower := by
  rw [labelText, Utf8.lossy_encode]

/-- The parts of a name that are not empty. -/
def nameParts (name : Text) : List Text := (name.splitOn '.').filter fun part => !part.isEmpty

theorem queryLabel_eq {part : Text} (hne : part ≠ []) (hle : byteLen part ≤ 63) :
    queryLabel part = wireLabel (Utf8.encode part) := by
  rw [queryLabel, if_neg (not_or.2 ⟨hne, Nat.not_lt.2 hle⟩), wireLabel, ← asBytes, length_asBytes]

theorem flatMap_queryLabel {parts : List Text}
    (h : ∀ part ∈ parts.filter (fun part => !part.isEmpty), byteLen part ≤ 63) :
    parts.flatMap queryLabel =
      ((parts.filter fun part => !part.isEmpty).map Utf8.encode).flatMap wireLabel := by
  induction parts with
  | nil => rfl
  | cons part parts ih =>
    cases part with
    | nil => exact ih h
    | cons c part =>
      rw [List.filter_cons_of_pos rfl] at h ⊢
      obtain ⟨hle, hrest⟩ := List.forall_mem_cons.1 h
      rw [List.flatMap_cons, queryLabel_eq (List.cons_ne_nil c part) hle, ih hrest, List.map_cons,
        List.flatMap_cons]

/-- The labels of a query. -/
theorem wireLabels_nameParts {name : Text} (h : ∀ part ∈ nameParts name, byteLen part ≤ 63) :
    ∀ l ∈ (nameParts name).map Utf8.encode, l ≠ [] ∧ l.length ≤ 63 := by
  intro l hl
  obtain ⟨part, hpart, rfl⟩ := List.mem_map.1 hl
  refine ⟨?_, (length_asBytes part).trans_le (h part hpart)⟩
  intro hnil
  rw [Utf8.encode_injective (t := []) hnil] at hpart
  exact absurd (List.mem_filter.1 hpart).2 (by decide)

theorem buildQuery_eq (id : UInt16) {name : Text} (h : ∀ part ∈ nameParts name, byteLen part ≤ 63) :
    buildQuery id name = toBE 2 id.toNat ++ ([0x01, 0x00] ++ (toBE 2 1 ++ ([0, 0, 0, 0, 0, 0] ++
      (((nameParts name).map Utf8.encode).flatMap wireLabel ++
        0 :: (toBE 2 TYPE_A.toNat ++ toBE 2 CLASS_IN.toNat))))) := by
  rw [buildQuery, flatMap_queryLabel h]
  simp only [List.append_assoc, List.singleton_append]
  rfl

/-- A query says what was asked for. -/
theorem question_query (id : UInt16) {name : Text}
    (h : ∀ part ∈ nameParts name, byteLen part ≤ 63) :
    question (buildQuery id name) =
      some ((['.'].intercalate (nameParts name)).map Char.toLower, TYPE_A, CLASS_IN) := by
  have heq := buildQuery_eq id h
  generalize buildQuery id name = msg at heq
  have hlength := congrArg List.length heq
  simp only [List.length_append, length_toBE, List.length_cons, List.length_nil] at hlength
  have h2 : msg.drop 2 = _ := drop_of_drop (show msg.drop 0 = _ from heq)
  have h4 : msg.drop 4 = _ := drop_of_drop h2
  obtain ⟨hcount, h6⟩ := word_of_drop h4 (by decide)
  have h12 : msg.drop HEADER_LEN = _ := drop_of_drop h6
  have hshort := length_le_wireLabels ((nameParts name).map Utf8.encode)
  have hread : readLoop labelText msg msg.length HEADER_LEN false HEADER_LEN [] = _ :=
    readLoop_labels labelText (wireLabels_nameParts h) h12 (by omega)
  have hend : msg.drop (HEADER_LEN + (((nameParts name).map Utf8.encode).flatMap wireLabel).length + 1) =
      toBE 2 TYPE_A.toNat ++ (toBE 2 CLASS_IN.toNat ++ []) := by
    rw [← List.drop_drop, drop_of_drop h12, List.append_nil]
    rfl
  obtain ⟨htype, hclass⟩ := word_of_drop hend TYPE_A.toNat_lt
  obtain ⟨hclass, -⟩ := word_of_drop hclass CLASS_IN.toNat_lt
  have hname : ((nameParts name).map Utf8.encode).map labelText =
      (nameParts name).map (List.map Char.toLower) := by
    rw [List.map_map]
    exact List.map_congr_left fun part _ => labelText_encode part
  rw [question, if_neg (by rw [HEADER_LEN]; omega), hcount, if_neg (by decide), readName, hread, hname]
  dsimp only [Option.map_some, HEADER_LEN] at htype hclass ⊢
  rw [if_neg (by omega), htype, hclass, List.nil_append, Utf8.map_intercalate]
  rfl

end Query

end Dns

end ShadowVpn
