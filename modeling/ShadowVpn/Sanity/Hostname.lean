import ShadowVpn.Lib.Lossy
import ShadowVpn.Lib.Trim
import ShadowVpn.Sanity.NodeText
import ShadowVpn.Spec.Magic

/-! What `sanitize_hostname` writes. Each character of the first label stands for a letter or
digit, for a hyphen, or for nothing; the loop writes these with one hyphen for each run, as far as
there is room. The result is a DNS label, and labels are what it leaves as they are. -/

namespace ShadowVpn

open Lib

/-! Characters. -/

def isLabelChar (c : Char) : Bool := ('a' ≤ c && c ≤ 'z') || ('0' ≤ c && c ≤ '9') || c == '-'

/-- What a character of the host name stands for. -/
def emit (c : Char) : Option Char :=
  if isAsciiAlphanumeric c.toLower then some c.toLower
  else if c.toLower = '-' || c.toLower = '_' || isWhitespace c.toLower then some '-'
  else none

theorem ascii_of_alphanumeric {c : Char} (h : isAsciiAlphanumeric c = true) : c.toNat < 128 := by
  simp only [isAsciiAlphanumeric, Bool.or_eq_true, Bool.and_eq_true, decide_eq_true_eq] at h
  rcases h with (⟨-, h⟩ | ⟨-, h⟩) | ⟨-, h⟩
  · exact Nat.lt_of_le_of_lt (toNat_le_of_le h) (by decide)
  · exact Nat.lt_of_le_of_lt (toNat_le_of_le h) (by decide)
  · exact Nat.lt_of_le_of_lt (toNat_le_of_le h) (by decide)

theorem isLabelChar_cases {c : Char} (h : isLabelChar c = true) :
    isAsciiAlphanumeric c = true ∨ c = '-' := by
  simp only [isLabelChar, Bool.or_eq_true, beq_iff_eq] at h
  simp only [isAsciiAlphanumeric, Bool.or_eq_true]
  tauto

theorem emit_of_isLabelChar {c : Char} (h : isLabelChar c = true) :
    emit c = some c ∧ c.utf8Size = 1 ∧ c ≠ '.' ∧ c.toLower = c := by
  have hascii : c.toNat < 128 := by
    rcases isLabelChar_cases h with halnum | rfl
    · exact ascii_of_alphanumeric halnum
    · decide
  revert h
  refine Utf8.forall_ascii ?_ c hascii
  decide +kernel

theorem isLabelChar_of_toLower {c : Char} (h : isAsciiAlphanumeric c.toLower = true) :
    isLabelChar c.toLower = true ∧ c.toLower ≠ '-' := by
  have hlower : c.toLower.toLower = c.toLower := Char.toLower_toLower_eq_toLower c
  revert h hlower
  generalize c.toLower = d
  intro h
  have hascii := ascii_of_alphanumeric h
  revert h
  refine Utf8.forall_ascii ?_ d hascii
  decide +kernel

theorem isLabelChar_of_emit {c d : Char} (h : emit c = some d) : isLabelChar d = true := by
  unfold emit at h
  split_ifs at h with halnum
  · obtain rfl := Option.some.inj h
    exact (isLabelChar_of_toLower halnum).1
  · obtain rfl := Option.some.inj h
    rfl

/-- Neither a letter or digit nor what stands for a hyphen. -/
def isSilent (c : Char) : Bool :=
  !(isAsciiAlphanumeric c || c == '-' || c == '_' || isWhitespace c)

theorem toLower_classes (c : Char) :
    isAsciiAlphanumeric c.toLower = isAsciiAlphanumeric c ∧ (c.toLower = '-' ↔ c = '-') ∧
      (c.toLower = '_' ↔ c = '_') ∧ isWhitespace c.toLower = isWhitespace c := by
  rcases Nat.lt_or_ge c.toNat 128 with hascii | hother
  · refine Utf8.forall_ascii ?_ c hascii
    decide +kernel
  · rw [Utf8.toLower_of_le hother]
    simp

theorem emit_eq_none_iff {c : Char} : emit c = none ↔ isSilent c = true := by
  obtain ⟨halnum, hhyphen, hunder, hspace⟩ := toLower_classes c
  simp only [emit, isSilent, halnum, hhyphen, hunder, hspace, Bool.not_eq_true', Bool.or_eq_false_iff,
    Bool.or_eq_true, decide_eq_true_eq, beq_eq_false_iff_ne]
  split_ifs with hletter hsep
  · simp [hletter]
  · simp only [false_iff]
    rintro ⟨⟨⟨-, hne⟩, hnu⟩, hns⟩
    rcases hsep with (hsep | hsep) | hsep
    · exact hne hsep
    · exact hnu hsep
    · rw [hns] at hsep
      cases hsep
  · simp only [true_iff]
    rw [not_or, not_or] at hsep
    exact ⟨⟨⟨Bool.eq_false_iff.2 hletter, hsep.1.1⟩, hsep.1.2⟩, Bool.eq_false_iff.2 hsep.2⟩

theorem exists_emit_of_alphanumeric {c : Char} (h : isAsciiAlphanumeric c = true) :
    ∃ d, emit c = some d ∧ d = c.toLower ∧ d ≠ '-' ∧ isLabelChar d = true := by
  have hlower : isAsciiAlphanumeric c.toLower = true := by rwa [(toLower_classes c).1]
  obtain ⟨hlabel, hne⟩ := isLabelChar_of_toLower hlower
  exact ⟨c.toLower, if_pos hlower, rfl, hne, hlabel⟩

/-- The three kinds of characters. -/
inductive Kind (c : Char) : Prop
  | letter {d : Char} (hc : isAsciiAlphanumeric c = true) (hd : emit c = some d)
  | hyphen (hc : isAsciiAlphanumeric c = false) (hd : emit c = some '-')
  | silent (hc : isAsciiAlphanumeric c = false) (hs : isSilent c = true)

theorem kind (c : Char) : Kind c := by
  cases halnum : isAsciiAlphanumeric c with
  | true =>
    obtain ⟨d, hd, -⟩ := exists_emit_of_alphanumeric halnum
    exact .letter halnum hd
  | false =>
    cases hs : isSilent c with
    | true => exact .silent halnum hs
    | false =>
      have hsome : emit c ≠ none := fun hnone => by
        rw [emit_eq_none_iff, hs] at hnone
        cases hnone
      refine .hyphen halnum ?_
      unfold emit at hsome ⊢
      rw [(toLower_classes c).1, halnum, if_neg Bool.false_ne_true] at hsome ⊢
      split_ifs at hsome ⊢ with hsep
      · rfl
      · exact absurd rfl hsome

/-! The loop. -/

/-- What the loop writes for a label, if there is room. -/
def written (label : Text) : Text := squeeze '-' true (label.filterMap emit)

/-- One turn with room left, by what the character stands for. -/
theorem sanitizeLoop_cons {out : Text} (hroom : byteLen out < MAX_NAME_LEN) (c : Char) (cs : Text)
    (prevHyphen : Bool) : sanitizeLoop (c :: cs) out prevHyphen =
      match emit c with
      | none => sanitizeLoop cs out prevHyphen
      | some d =>
        if d = '-' then
          if prevHyphen || out.isEmpty then sanitizeLoop cs out prevHyphen
          else sanitizeLoop cs (out ++ ['-']) true
        else sanitizeLoop cs (out ++ [d]) false := by
  rw [sanitizeLoop, if_neg (Nat.not_le.2 hroom)]
  dsimp only
  by_cases halnum : isAsciiAlphanumeric c.toLower = true
  · have hne := (isLabelChar_of_toLower halnum).2
    simp [emit, halnum, hne]
  · by_cases hhyphen : c.toLower = '-'
    · simp [emit, hhyphen]
    · by_cases hsep : (c.toLower = '_' || isWhitespace c.toLower) = true
      · simp only [emit, halnum, hhyphen, hsep, decide_false, Bool.false_or, Bool.or_false]
        simp
      · simp only [emit, halnum, hhyphen, hsep, decide_false, Bool.false_or, Bool.or_false]
        simp

theorem sanitizeLoop_eq {cs out : Text} {prevHyphen : Bool} (hout : ∀ c ∈ out, isLabelChar c = true)
    (hlen : out.length ≤ MAX_NAME_LEN) :
    sanitizeLoop cs out prevHyphen =
      (out ++ squeeze '-' (prevHyphen || out.isEmpty) (cs.filterMap emit)).take MAX_NAME_LEN := by
  induction cs generalizing out prevHyphen with
  | nil => rw [sanitizeLoop, List.filterMap_nil, squeeze_nil, List.append_nil, List.take_of_length_le hlen]
  | cons c cs ih =>
    have hbytes : byteLen out = out.length :=
      byteLen_ascii fun c hc => (emit_of_isLabelChar (hout c hc)).2.1
    rcases Nat.lt_or_ge (byteLen out) MAX_NAME_LEN with hroom | hfull
    · have hpush : ∀ d prev, isLabelChar d = true → sanitizeLoop cs (out ++ [d]) prev =
          (out ++ d :: squeeze '-' prev (cs.filterMap emit)).take MAX_NAME_LEN := by
        intro d prev hd
        have hchars : ∀ c ∈ out ++ [d], isLabelChar c = true :=
          List.forall_mem_append.2 ⟨hout, List.forall_mem_singleton.2 hd⟩
        have hnext : sanitizeLoop cs (out ++ [d]) prev = _ :=
          ih hchars (by rw [List.length_append, List.length_singleton]; omega)
        have hempty : (out ++ [d]).isEmpty = false := by simp
        rwa [hempty, Bool.or_false, List.append_assoc] at hnext
      rw [sanitizeLoop_cons hroom, List.filterMap_cons]
      split
      · rename_i hnone
        rw [hnone]
        exact ih hout hlen
      · rename_i d hsome
        rw [hsome]
        dsimp only
        split_ifs with hd hskip
        · rw [hd, hskip, squeeze_true_self, ← hskip]
          exact ih hout hlen
        · rw [hd, Bool.eq_false_iff.2 hskip, squeeze_false_self]
          exact hpush '-' true rfl
        · rw [squeeze_cons_ne hd]
          exact hpush d false (isLabelChar_of_emit hsome)
    · have hexact : MAX_NAME_LEN = out.length := by omega
      rw [sanitizeLoop, if_pos hfull, hexact, List.take_left]

def firstLabel (raw : Text) : Text := ((raw.splitOn '.').find? fun s => !s.isEmpty).getD []

/-- The name for a host whose own name leaves nothing. -/
def orNode (s : Text) : Text := if s.isEmpty then ['n', 'o', 'd', 'e'] else s

theorem sanitizeHostname_eq (raw : Text) : sanitizeHostname raw =
    orNode (trimEnd '-' ((written (firstLabel raw)).take MAX_NAME_LEN)) := by
  have hloop : sanitizeLoop (firstLabel raw) [] false = _ :=
    sanitizeLoop_eq (List.forall_mem_nil _) (Nat.zero_le _)
  have htrim : trimEndHyphens (sanitizeLoop (firstLabel raw) [] false) =
      trimEnd '-' ((written (firstLabel raw)).take MAX_NAME_LEN) := congrArg (trimEnd '-') hloop
  unfold orNode
  rw [← htrim]
  rfl

/-! Labels. -/

/-- What the front part of a label has. -/
structure LabelFront (s : Text) : Prop where
  chars : ∀ c ∈ s, isLabelChar c = true
  head : s.head? ≠ some '-'
  single : Single '-' s

/-- A DNS label as the mesh uses them. -/
structure IsLabel (s : Text) : Prop where
  nonempty : s ≠ []
  short : byteLen s ≤ MAX_NAME_LEN
  chars : ∀ c ∈ s, isLabelChar c = true
  head : s.head? ≠ some '-'
  last : s.getLast? ≠ some '-'
  single : ¬ ['-', '-'] <:+: s

theorem LabelFront.of_isPrefix {s t : Text} (h : LabelFront s) (ht : t <+: s) : LabelFront t where
  chars := fun c hc => h.chars c (ht.subset hc)
  head := by
    cases t with
    | nil => simp
    | cons c t =>
      obtain ⟨r, rfl⟩ := ht
      exact h.head
  single := List.IsChain.prefix h.single ht

theorem byteLen_of_chars {s : Text} (h : ∀ c ∈ s, isLabelChar c = true) : byteLen s = s.length :=
  byteLen_ascii fun c hc => (emit_of_isLabelChar (h c hc)).2.1

/-- What is left of a front part without the hyphens at its end is a label, if anything is. -/
theorem LabelFront.trimEnd {s : Text} (h : LabelFront s) (hs : s.length ≤ MAX_NAME_LEN)
    (hne : trimEnd '-' s ≠ []) : IsLabel (trimEnd '-' s) := by
  have hfront := h.of_isPrefix (trimEnd_isPrefix '-' s)
  refine ⟨hne, ?_, hfront.chars, hfront.head, getLast?_trimEnd '-' s, single_iff.1 hfront.single⟩
  rw [byteLen_of_chars hfront.chars]
  exact Nat.le_trans (trimEnd_isPrefix '-' s).length_le hs

theorem IsLabel.front {s : Text} (h : IsLabel s) : LabelFront s :=
  ⟨h.chars, h.head, single_iff.2 h.single⟩

theorem IsLabel.length_le {s : Text} (h : IsLabel s) : s.length ≤ MAX_NAME_LEN := by
  rw [← byteLen_of_chars h.chars]
  exact h.short

theorem labelFront_written (label : Text) : LabelFront (written label) where
  chars := by
    intro c hc
    obtain ⟨d, -, hd⟩ := List.mem_filterMap.1 (mem_of_mem_squeeze hc)
    exact isLabelChar_of_emit hd
  head := head?_squeeze '-' _
  single := single_squeeze '-' true _

/-- Letters and digits alone. -/
theorem isLabel_of_alphanumeric {s : Text} (hne : s ≠ []) (hlen : s.length ≤ MAX_NAME_LEN)
    (h : (s.all fun c => isLabelChar c && c != '-') = true) : IsLabel s := by
  simp only [List.all_eq_true, Bool.and_eq_true, bne_iff_ne] at h
  have hchars : ∀ c ∈ s, isLabelChar c = true := fun c hc => (h c hc).1
  have hhyphen : '-' ∉ s := fun hmem => (h '-' hmem).2 rfl
  refine ⟨hne, ?_, hchars, ?_, ?_, ?_⟩
  · rwa [byteLen_of_chars hchars]
  · exact fun hhead => hhyphen (List.mem_of_mem_head? hhead)
  · exact fun hlast => hhyphen (List.mem_of_mem_getLast? hlast)
  · exact fun hsub => hhyphen (hsub.subset (List.mem_cons_self ..))

theorem isLabel_sanitizeHostname (raw : Text) : IsLabel (sanitizeHostname raw) := by
  rw [sanitizeHostname_eq, orNode]
  split_ifs with hempty
  · exact isLabel_of_alphanumeric (List.cons_ne_nil _ _) (by decide) (by decide)
  · have htake := List.take_prefix MAX_NAME_LEN (written (firstLabel raw))
    refine ((labelFront_written _).of_isPrefix htake).trimEnd ?_ (by simpa using hempty)
    exact List.length_take_le _ _

theorem IsLabel.firstLabel_eq {s : Text} (h : IsLabel s) : firstLabel s = s := by
  have hsplit : s.splitOn '.' = [s] := by
    refine List.splitOnP_eq_singleton fun c hc => ?_
    simpa using (emit_of_isLabelChar (h.chars c hc)).2.2.1
  have hne : (!s.isEmpty) = true := by simpa using h.nonempty
  rw [firstLabel, hsplit, List.find?_cons, hne]
  rfl

theorem LabelFront.written_eq {s : Text} (h : LabelFront s) : written s = s := by
  have hemit : s.filterMap emit = s := by
    rw [List.filterMap_congr fun c hc => (emit_of_isLabelChar (h.chars c hc)).1, List.filterMap_some]
  rw [written, hemit]
  exact squeeze_of_single h.single fun _ => h.head

theorem IsLabel.sanitizeHostname_eq {s : Text} (h : IsLabel s) : sanitizeHostname s = s := by
  rw [ShadowVpn.sanitizeHostname_eq, h.firstLabel_eq, h.front.written_eq,
    List.take_of_length_le h.length_le, trimEnd_of_getLast? h.last, orNode, if_neg]
  simpa using h.nonempty

/-! Labels with a tag. -/

/-- Two labels with a hyphen between them. -/
theorem IsLabel.join {s t : Text} (hs : IsLabel s) (ht : IsLabel t)
    (hlen : s.length + 1 + t.length ≤ MAX_NAME_LEN) : IsLabel (s ++ '-' :: t) := by
  have hchars : ∀ c ∈ s ++ '-' :: t, isLabelChar c = true :=
    List.forall_mem_append.2 ⟨hs.chars, List.forall_mem_cons.2 ⟨rfl, ht.chars⟩⟩
  refine ⟨by simp, ?_, hchars, ?_, ?_, single_iff.1 ?_⟩
  · rw [byteLen_of_chars hchars, List.length_append, List.length_cons]
    omega
  · obtain ⟨c, s, rfl⟩ := List.exists_cons_of_ne_nil hs.nonempty
    exact hs.head
  · rw [List.getLast?_append_of_ne_nil _ (List.cons_ne_nil _ _),
      List.getLast?_cons_of_ne_nil ht.nonempty]
    exact ht.last
  · refine hs.front.single.append (ht.front.single.cons ?_) ?_
    · rintro c hc ⟨-, rfl⟩
      exact ht.head hc
    · rintro c hc d - ⟨rfl, -⟩
      exact hs.last hc

/-- Cut to make room for a tag. -/
theorem IsLabel.fitLabel {base tag : Text} (hbase : IsLabel base) (htag : IsLabel tag)
    (hlen : tag.length < MAX_NAME_LEN) : IsLabel (fitLabel base ('-' :: tag)) := by
  have hbytes : byteLen ('-' :: tag) = tag.length + 1 := by
    rw [byteLen_of_chars (List.forall_mem_cons.2 ⟨rfl, htag.chars⟩), List.length_cons]
  have hhead : trimEndHyphens (base.take (MAX_NAME_LEN - (tag.length + 1))) =
      trimEnd '-' (base.take (MAX_NAME_LEN - (tag.length + 1))) := rfl
  simp only [ShadowVpn.fitLabel, hbytes, hhead]
  split_ifs with hempty
  · have htrim : trimStartHyphens ('-' :: tag) = tag :=
      trimStart_eq_iff.2 ⟨1, rfl, htag.head⟩
    rwa [htrim]
  · have hcut := List.length_take_le (MAX_NAME_LEN - (tag.length + 1)) base
    have htrim := (trimEnd_isPrefix '-' (base.take (MAX_NAME_LEN - (tag.length + 1)))).length_le
    refine IsLabel.join ?_ htag (by omega)
    have htake := List.take_prefix (MAX_NAME_LEN - (tag.length + 1)) base
    exact (hbase.front.of_isPrefix htake).trimEnd (by omega) (by simpa using hempty)

theorem isLabel_collisionSuffix (nodeId : Option NodeId) (ip4 : Ipv4Addr) :
    IsLabel (collisionSuffix nodeId ip4) ∧ (collisionSuffix nodeId ip4).length ≤ 4 := by
  have hhex : ∀ bs, ((fmtBytes bs).all fun c => isLabelChar c && c != '-') = true := by
    intro bs
    have hall : (lowerHex.all fun c => isLabelChar c && c != '-') = true := by decide
    exact List.all_eq_true.2 fun c hc => List.all_eq_true.1 hall c (mem_fmtBytes hc)
  have hlen : ∀ bs, (fmtBytes bs).length = 2 * bs.length := by
    intro bs
    induction bs with
    | nil => rfl
    | cons b bs ih =>
      have hcons : fmtBytes (b :: bs) = fmtByte b ++ fmtBytes bs := rfl
      rw [hcons, List.length_append, ih, List.length_cons]
      simp only [fmtByte, List.length_cons, List.length_nil]
      omega
  have hlabel : ∀ bs : List UInt8, 0 < bs.length → bs.length ≤ 2 →
      IsLabel (fmtBytes bs) ∧ (fmtBytes bs).length ≤ 4 := by
    intro bs hpos hle
    have hbs := hlen bs
    refine ⟨isLabel_of_alphanumeric ?_ (by rw [hbs, MAX_NAME_LEN]; omega) (hhex bs), by omega⟩
    intro hnil
    rw [hnil, List.length_nil] at hbs
    omega
  cases nodeId with
  | none =>
    have hone : fmtBytes [UInt8.ofNat ip4.toNat] = fmtByte (UInt8.ofNat ip4.toNat) := rfl
    have h := hlabel [UInt8.ofNat ip4.toNat] Nat.zero_lt_one (Nat.le_succ 1)
    rwa [hone] at h
  | some id =>
    have hid := id.len
    refine hlabel (id.bytes.take 2) ?_ ?_
    · rw [List.length_take]
      omega
    · exact List.length_take_le _ _

theorem isLabel_toDigits {n : ℕ} (h : n ∈ List.range' 2 254) :
    IsLabel (Nat.toDigits 10 n) ∧ (Nat.toDigits 10 n).length ≤ 3 := by
  have hall : ∀ n < 256, (Nat.toDigits 10 n).length ≤ 3 ∧
      ((Nat.toDigits 10 n).all fun c => isLabelChar c && c != '-') = true := by decide +kernel
  obtain ⟨hlen, hchars⟩ := hall n (List.mem_range'_1.1 h).2
  exact ⟨isLabel_of_alphanumeric (by simp) (Nat.le_trans hlen (by decide)) hchars, hlen⟩

end ShadowVpn
