import ShadowVpn.Spec.Cache

/-! The question that a DNS message carries, and how much of it the cache's key keeps. -/

namespace ShadowVpn

open Lib

namespace Dns

variable {msg : Bytes}

/-- A question with the bytes of its labels. -/
structure Question where
  labels : List Bytes
  qtype : UInt16
  qclass : UInt16
deriving DecidableEq

/-- The first question of a message, as it stands there. -/
def firstQuestion (msg : Bytes) : Option Question :=
  if msg.length < HEADER_LEN then none
  else if wordAt msg 4 2 = 0 then none
  else
    match readLoop id msg msg.length HEADER_LEN false HEADER_LEN [] with
    | none => none
    | some (labels, pos) =>
      if pos + 4 > msg.length then none
      else some ⟨labels, UInt16.ofNat (wordAt msg pos 2), UInt16.ofNat (wordAt msg (pos + 2) 2)⟩

/-- What the cache files it under. -/
def Question.key (a : Question) : CacheKey :=
  (['.'].intercalate (a.labels.map labelText), a.qtype, a.qclass)

/-! Walking a name. -/

/-- The walk does not depend on what is kept of a label. -/
theorem readLoop_map {α : Type} (f : Bytes → α) (msg : Bytes) (budget pos : ℕ) (jumped : Bool) (afterPtr : ℕ)
    (labels : List Bytes) :
    readLoop f msg budget pos jumped afterPtr (labels.map f) =
      (readLoop id msg budget pos jumped afterPtr labels).map fun r => (r.1.map f, r.2) := by
  induction budget generalizing pos jumped afterPtr labels with
  | zero => rfl
  | succ budget ih =>
    rw [readLoop, readLoop]
    cases msg[pos]? with
    | none => rfl
    | some len =>
      dsimp only
      generalize (if jumped = true then afterPtr else pos + 1) = ended
      generalize (if jumped = true then afterPtr else pos + 2) = left
      split_ifs
      · rfl
      · rfl
      · rw [← ih, List.map_append, List.map_singleton, id]
      · cases msg[pos + 1]? with
        | none => rfl
        | some low =>
          dsimp only
          split_ifs
          · rfl
          · exact ih _ _ _ _
      · rfl

/-- A turn of a walk that ends well: the end of the name, a label that fits, or a pointer. -/
theorem readLoop_cases {α : Type} {f : Bytes → α} {budget pos after end_ : ℕ} {jumped : Bool}
    {labels labels' : List α}
    (h : readLoop f msg (budget + 1) pos jumped after labels = some (labels', end_)) :
    ∃ len, msg[pos]? = some len ∧
      ((len = 0 ∧ labels' = labels ∧ end_ = if jumped then after else pos + 1) ∨
      (len &&& 0xC0 = 0 ∧ len ≠ 0 ∧ pos + 1 + len.toNat ≤ msg.length ∧
        readLoop f msg budget (pos + 1 + len.toNat) jumped after
          (labels ++ [f ((msg.drop (pos + 1)).take len.toNat)]) = some (labels', end_)) ∨
      (len &&& 0xC0 = 0xC0 ∧ pos + 1 < msg.length ∧ ∃ ptr,
        readLoop f msg budget ptr true (if jumped then after else pos + 2) labels =
          some (labels', end_))) := by
  rw [readLoop] at h
  split at h
  · cases h
  rename_i len hlen
  refine ⟨len, hlen, ?_⟩
  -- the two ends are not to be split
  generalize (if jumped = true then after else pos + 1) = ended at h ⊢
  generalize (if jumped = true then after else pos + 2) = left at h ⊢
  split_ifs at h with hlabel hend hcut hptr
  · cases h
    exact Or.inl ⟨hend, rfl, rfl⟩
  · exact Or.inr (Or.inl ⟨hlabel, hend, Nat.not_lt.1 hcut, h⟩)
  · split at h
    · cases h
    rename_i low hlow
    dsimp only at h
    split_ifs at h
    exact Or.inr (Or.inr ⟨hptr, (List.getElem?_eq_some_iff.1 hlow).1, _, h⟩)

/-- A name has no empty label but its end. -/
theorem nil_not_mem_of_readLoop {budget pos after end_ : ℕ} {jumped : Bool}
    {labels labels' : List Bytes} (hlabels : [] ∉ labels)
    (h : readLoop id msg budget pos jumped after labels = some (labels', end_)) : [] ∉ labels' := by
  induction budget generalizing pos jumped after labels with
  | zero => cases h
  | succ budget ih =>
    obtain ⟨len, -, ⟨-, rfl, -⟩ | ⟨-, hne, hfit, h⟩ | ⟨-, -, ptr, h⟩⟩ := readLoop_cases h
    · exact hlabels
    · refine ih ?_ h
      have hpos : len.toNat ≠ 0 := fun hz => hne (UInt8.toNat_inj.1 hz)
      have hfull : (List.take len.toNat (List.drop (pos + 1) msg)).length = len.toNat := by
        rw [List.length_take, List.length_drop]
        omega
      rw [List.mem_append, List.mem_singleton, not_or]
      refine ⟨hlabels, ?_⟩
      intro hnil
      have hzero := congrArg List.length hnil
      rw [id, hfull, List.length_nil] at hzero
      exact hpos hzero.symm
    · exact ih hlabels h

/-- A turn more changes nothing once the turns reach past the message. -/
theorem skipLoop_succ {turns pos : ℕ} (h : msg.length < turns + pos) :
    skipLoop msg (turns + 1) pos = skipLoop msg turns pos := by
  induction turns generalizing pos with
  | zero =>
    have hend : msg[pos]? = none := List.getElem?_eq_none (by omega)
    simp only [skipLoop, hend]
  | succ turns ih =>
    rw [skipLoop, skipLoop]
    cases msg[pos]? with
    | none => rfl
    | some len =>
      dsimp only
      rw [ih (by omega)]

/-- However many turns it is given, skipping a name ends where it does. -/
theorem skipName_turns {turns : ℕ} (h : msg.length < turns) (start : ℕ) :
    skipLoop msg turns start = skipName msg start := by
  induction turns, h using Nat.le_induction with
  | base => rfl
  | succ turns hle ih => rw [skipLoop_succ (by omega), ih]

theorem lt_of_skipLoop {turns pos end_ : ℕ} (h : skipLoop msg turns pos = some end_) :
    pos < end_ := by
  induction turns generalizing pos with
  | zero => cases h
  | succ turns ih =>
    rw [skipLoop] at h
    cases hlen : msg[pos]? with
    | none =>
      rw [hlen] at h
      cases h
    | some len =>
      rw [hlen] at h
      dsimp only at h
      split_ifs at h
      · cases h
        omega
      · have := ih h
        omega
      · cases h
        omega

/-- Once a pointer was followed, the end of the name is known. -/
theorem end_of_jumped {α : Type} {f : Bytes → α} {budget pos after end_ : ℕ} {labels labels' : List α}
    (h : readLoop f msg budget pos true after labels = some (labels', end_)) : end_ = after := by
  induction budget generalizing pos labels with
  | zero => cases h
  | succ budget ih =>
    obtain ⟨len, -, ⟨-, -, hend⟩ | ⟨-, -, -, h⟩ | ⟨-, -, ptr, h⟩⟩ := readLoop_cases h
    · exact hend
    · exact ih h
    · exact ih h

/-- Where a name can be read, it can be skipped, to the same end. -/
theorem skipLoop_of_readLoop {α : Type} {f : Bytes → α} {budget pos after end_ : ℕ}
    {labels labels' : List α}
    (h : readLoop f msg budget pos false after labels = some (labels', end_)) :
    skipLoop msg budget pos = some end_ := by
  induction budget generalizing pos labels with
  | zero => cases h
  | succ budget ih =>
    obtain ⟨len, hlen, ⟨rfl, -, rfl⟩ | ⟨hlabel, hne, -, h⟩ | ⟨hptr, hfit, ptr, h⟩⟩ :=
      readLoop_cases h
    · simp [skipLoop, hlen]
    · simp only [skipLoop, hlen, if_pos hlabel, if_neg hne]
      exact ih h
    · rw [end_of_jumped h]
      simp [skipLoop, hlen, hptr, hfit]

/-- A turn more loses no end that was found. -/
theorem skipLoop_mono {turns pos end_ : ℕ} (h : skipLoop msg turns pos = some end_) :
    skipLoop msg (turns + 1) pos = some end_ := by
  induction turns generalizing pos with
  | zero => cases h
  | succ turns ih =>
    rw [skipLoop] at h ⊢
    cases hlen : msg[pos]? with
    | none =>
      rw [hlen] at h
      cases h
    | some len =>
      rw [hlen] at h
      dsimp only at h ⊢
      split_ifs at h ⊢
      · exact h
      · exact ih h
      · exact h

theorem skipName_of_readName {start end_ : ℕ} {name : Text}
    (h : readName msg start = some (name, end_)) : skipName msg start = some end_ := by
  obtain ⟨⟨labels, pos⟩, hloop, heq⟩ := Option.map_eq_some_iff.1 h
  cases heq
  exact skipLoop_mono (skipLoop_of_readLoop hloop)

/-! Questions and keys. -/

/-- What a question says of its message. -/
theorem question_eq_some {k : CacheKey} (h : question msg = some k) :
    ∃ pos, questionName msg = some k.1 ∧ skipName msg HEADER_LEN = some pos ∧
      HEADER_LEN < pos ∧ pos + 4 ≤ msg.length := by
  unfold question at h
  unfold questionName
  split_ifs at h ⊢
  cases hread : readName msg HEADER_LEN with
  | none =>
    rw [hread] at h
    cases h
  | some r =>
    obtain ⟨name, pos⟩ := r
    rw [hread] at h
    dsimp only at h
    split_ifs at h with hfit
    cases h
    have hskip := skipName_of_readName hread
    exact ⟨pos, rfl, hskip, lt_of_skipLoop hskip, Nat.not_lt.1 hfit⟩

theorem question_eq (msg : Bytes) : question msg = (firstQuestion msg).map Question.key := by
  have hloop := readLoop_map labelText msg msg.length HEADER_LEN false HEADER_LEN []
  rw [List.map_nil] at hloop
  unfold question firstQuestion readName
  rw [hloop]
  split_ifs
  · rfl
  · rfl
  · cases readLoop id msg msg.length HEADER_LEN false HEADER_LEN [] with
    | none => rfl
    | some r =>
      dsimp only [Option.map_some]
      split_ifs
      · rfl
      · rfl

theorem nil_not_mem_labels {a : Question} (h : firstQuestion msg = some a) : [] ∉ a.labels := by
  unfold firstQuestion at h
  split_ifs at h
  split at h
  · cases h
  · rename_i labels pos hloop
    split_ifs at h
    cases h
    exact nil_not_mem_of_readLoop List.not_mem_nil hloop

/-- A label that is text without a dot. -/
structure Plain (label : Bytes) : Prop where
  text : ∃ s, label = Utf8.encode s
  dot : 0x2E ∉ label

/-- The same labels but for ASCII case. -/
def SameLabels (a b : Question) : Prop :=
  a.labels.map (List.map Utf8.lowerByte) = b.labels.map (List.map Utf8.lowerByte)

instance (a b : Question) : Decidable (SameLabels a b) := inferInstanceAs (Decidable (_ = _))

theorem Plain.encode_labelText {label : Bytes} (h : Plain label) :
    Utf8.encode (labelText label) = label.map Utf8.lowerByte := by
  obtain ⟨s, rfl⟩ := h.text
  rw [labelText, Utf8.lossy_encode, Utf8.encode_map_toLower]

theorem Plain.dot_not_mem {label : Bytes} (h : Plain label) : '.' ∉ labelText label := by
  intro hdot
  have hbyte : (0x2E : UInt8) ∈ Utf8.encode (labelText label) :=
    List.mem_flatMap.2 ⟨'.', hdot, by decide⟩
  rw [h.encode_labelText] at hbyte
  obtain ⟨b, hb, hlower⟩ := List.mem_map.1 hbyte
  have hall : ∀ n < 256, Utf8.lowerByte (UInt8.ofNat n) = 0x2E → UInt8.ofNat n = 0x2E := by
    decide +kernel
  have hb' := hall b.toNat b.toNat_lt
  rw [UInt8.ofNat_toNat] at hb'
  exact h.dot (hb' hlower ▸ hb)

theorem Plain.labelText_ne_nil {label : Bytes} (h : Plain label) (hne : label ≠ []) :
    labelText label ≠ [] := by
  intro hnil
  have henc := h.encode_labelText
  rw [hnil, Utf8.encode_nil] at henc
  exact hne (List.map_eq_nil_iff.1 henc.symm)

/-- A key determines the labels if they are plain. -/
theorem sameLabels_of_key {msg msg' : Bytes} {a b : Question} (ha : firstQuestion msg = some a)
    (hb : firstQuestion msg' = some b) (hpa : ∀ l ∈ a.labels, Plain l)
    (hpb : ∀ l ∈ b.labels, Plain l) (h : a.key = b.key) : SameLabels a b := by
  have hdot : ∀ {ls : List Bytes}, (∀ l ∈ ls, Plain l) → ∀ t ∈ ls.map labelText, '.' ∉ t := by
    intro ls hls t ht
    obtain ⟨l, hl, rfl⟩ := List.mem_map.1 ht
    exact (hls l hl).dot_not_mem
  have hne : ∀ {ls : List Bytes}, [] ∉ ls → (∀ l ∈ ls, Plain l) → [] ∉ ls.map labelText := by
    intro ls hnil hls hmem
    obtain ⟨l, hl, heq⟩ := List.mem_map.1 hmem
    refine (hls l hl).labelText_ne_nil ?_ heq
    rintro rfl
    exact hnil hl
  have henc : ∀ {ls : List Bytes}, (∀ l ∈ ls, Plain l) →
      (ls.map labelText).map Utf8.encode = ls.map (List.map Utf8.lowerByte) := by
    intro ls hls
    rw [List.map_map]
    exact List.map_congr_left fun l hl => (hls l hl).encode_labelText
  have htexts : a.labels.map labelText = b.labels.map labelText :=
    Utf8.intercalate_injective (hdot hpa) (hdot hpb) (hne (nil_not_mem_labels ha) hpa)
      (hne (nil_not_mem_labels hb) hpb) (congrArg Prod.fst h)
  rw [SameLabels, ← henc hpa, ← henc hpb, htexts]

/-! Answers. -/

/-- The same message but for its first two bytes, the id. -/
structure SameBody (msg msg' : Bytes) : Prop where
  length : msg.length = msg'.length
  body : msg.drop 2 = msg'.drop 2

namespace SameBody

variable {msg' : Bytes}

theorem drop (h : SameBody msg msg') {off : ℕ} (hoff : 2 ≤ off) : msg.drop off = msg'.drop off := by
  obtain ⟨k, rfl⟩ := Nat.exists_eq_add_of_le hoff
  rw [← List.drop_drop, h.body, List.drop_drop]

theorem getElem? (h : SameBody msg msg') {i : ℕ} (hi : 2 ≤ i) : msg[i]? = msg'[i]? := by
  rw [← List.head?_drop, ← List.head?_drop, h.drop hi]

theorem wordAt (h : SameBody msg msg') {off : ℕ} (hoff : 2 ≤ off) (n : ℕ) :
    ShadowVpn.wordAt msg off n = ShadowVpn.wordAt msg' off n := by
  rw [ShadowVpn.wordAt, h.drop hoff, ShadowVpn.wordAt]

theorem skipLoop (h : SameBody msg msg') (turns : ℕ) {pos : ℕ} (hpos : 2 ≤ pos) :
    Dns.skipLoop msg turns pos = Dns.skipLoop msg' turns pos := by
  induction turns generalizing pos with
  | zero => rfl
  | succ turns ih =>
    rw [Dns.skipLoop, Dns.skipLoop, h.getElem? hpos, h.length]
    cases msg'[pos]? with
    | none => rfl
    | some len =>
      dsimp only
      rw [ih (by omega)]

theorem skipName (h : SameBody msg msg') {pos : ℕ} (hpos : 2 ≤ pos) :
    Dns.skipName msg pos = Dns.skipName msg' pos := by
  rw [Dns.skipName, h.skipLoop _ hpos, h.length, Dns.skipName]

theorem skipQuestions (h : SameBody msg msg') (count : ℕ) {pos : ℕ} (hpos : 2 ≤ pos) :
    Dns.skipQuestions msg count pos = Dns.skipQuestions msg' count pos := by
  induction count generalizing pos with
  | zero => rfl
  | succ count ih =>
    rw [Dns.skipQuestions, Dns.skipQuestions, h.skipName hpos, h.length]
    cases hskip : Dns.skipName msg' pos with
    | none => rfl
    | some end_ =>
      dsimp only
      rw [ih (by have := lt_of_skipLoop hskip; omega)]

theorem recordsLoop {α : Type} (h : SameBody msg msg') {read read' : ℕ → α}
    (hread : ∀ pos, 2 ≤ pos → read pos = read' pos) (rtype : UInt16) (len count : ℕ) {pos : ℕ}
    (hpos : 2 ≤ pos) (out : List α) :
    Dns.recordsLoop rtype len read msg count pos out =
      Dns.recordsLoop rtype len read' msg' count pos out := by
  induction count generalizing pos out with
  | zero => rfl
  | succ count ih =>
    rw [Dns.recordsLoop, Dns.recordsLoop, h.skipName hpos, h.length]
    cases hskip : Dns.skipName msg' pos with
    | none => rfl
    | some end_ =>
      have hend : 2 ≤ end_ := by
        have := lt_of_skipLoop hskip
        omega
      dsimp only
      rw [h.wordAt (show 2 ≤ end_ + 8 by omega), h.wordAt hend, h.wordAt (show 2 ≤ end_ + 2 by omega),
        hread _ (show 2 ≤ end_ + 10 by omega), ih (by omega)]

end SameBody

theorem skipQuestions_le {count pos end_ : ℕ} (h : skipQuestions msg count pos = some end_) :
    pos ≤ end_ := by
  induction count generalizing pos with
  | zero =>
    cases h
    exact le_rfl
  | succ count ih =>
    rw [skipQuestions] at h
    cases hskip : skipName msg pos with
    | none =>
      rw [hskip] at h
      cases h
    | some next =>
      rw [hskip] at h
      dsimp only at h
      split_ifs at h
      have hlt := lt_of_skipLoop hskip
      have hle := ih h
      omega

/-- The addresses of a response do not depend on its id. -/
theorem aRecords_of_sameBody {msg' : Bytes} (h : SameBody msg msg') : aRecords msg = aRecords msg' := by
  have hread : ∀ pos, 2 ≤ pos →
      BitVec.ofNat 32 (wordAt msg pos 4) = BitVec.ofNat 32 (wordAt msg' pos 4) := by
    intro pos hpos
    rw [h.wordAt hpos]
  unfold aRecords records
  rw [h.length, h.wordAt (by decide), h.wordAt (by decide), h.skipQuestions _ (by decide)]
  split_ifs
  · rfl
  · cases hskip : skipQuestions msg' (wordAt msg' 4 2) HEADER_LEN with
    | none => rfl
    | some pos =>
      have hle := skipQuestions_le hskip
      exact h.recordsLoop hread TYPE_A 4 _ (Nat.le_trans (by decide) hle) []

theorem sameBody_stamp (query response : Bytes) :
    SameBody (DnsCache.stamp query response) response := by
  rcases query with _ | ⟨q₀, _ | ⟨q₁, query⟩⟩
  · exact ⟨rfl, rfl⟩
  · exact ⟨rfl, rfl⟩
  · rcases response with _ | ⟨r₀, _ | ⟨r₁, response⟩⟩
    · exact ⟨rfl, rfl⟩
    · exact ⟨rfl, rfl⟩
    · exact ⟨rfl, rfl⟩

/-- The response code of a message. -/
def rcode (msg : Bytes) : UInt8 := msg.getD 3 0 &&& 0x0F

/-- How many answers a message says that it has. -/
def answerCount (msg : Bytes) : ℕ := wordAt msg 6 2

/-! Replies. -/

/-- The header and the question of a query, with the header of a reply. -/
def reply (m : Bytes) (code : UInt8) (count : ℕ) : Bytes :=
  m.take 2 ++ [0x81, code] ++ toBE 2 1 ++ toBE 2 count ++ [0, 0, 0, 0] ++ m.drop HEADER_LEN

/-- The addresses that answer a question. -/
def answersOf (qtype qclass : UInt16) (addrs : List IpAddr) : List IpAddr :=
  if qclass = CLASS_IN then addrs.filter (answersType qtype) else []

section Reply

variable {m : Bytes} {code : UInt8} {count : ℕ}

theorem exists_header (h : HEADER_LEN ≤ m.length) :
    ∃ b₀ b₁ b₂ b₃ b₄ b₅ b₆ b₇ b₈ b₉ b₁₀ b₁₁ rest,
      m = [b₀, b₁, b₂, b₃, b₄, b₅, b₆, b₇, b₈, b₉, b₁₀, b₁₁] ++ rest := by
  rcases m with _ | ⟨b₀, _ | ⟨b₁, _ | ⟨b₂, _ | ⟨b₃, _ | ⟨b₄, _ | ⟨b₅, _ | ⟨b₆, _ | ⟨b₇, _ | ⟨b₈,
    _ | ⟨b₉, _ | ⟨b₁₀, _ | ⟨b₁₁, rest⟩⟩⟩⟩⟩⟩⟩⟩⟩⟩⟩⟩
  rotate_right
  · exact ⟨b₀, b₁, b₂, b₃, b₄, b₅, b₆, b₇, b₈, b₉, b₁₀, b₁₁, rest, rfl⟩
  all_goals exact absurd h (by simp [HEADER_LEN])

theorem splice_response (h : HEADER_LEN ≤ m.length) :
    splice (splice (splice (splice (splice m 2 [0x81]) 3 [code]) 4 (toBE 2 1)) 8 [0, 0, 0, 0]) 6
      (toBE 2 count) = reply m code count := by
  obtain ⟨b₀, b₁, b₂, b₃, b₄, b₅, b₆, b₇, b₈, b₉, b₁₀, b₁₁, rest, rfl⟩ := exists_header h
  rfl

theorem splice_nxdomain (h : HEADER_LEN ≤ m.length) :
    splice (splice (splice (splice m 2 [0x81]) 3 [code]) 4 (toBE 2 1)) 6 [0, 0, 0, 0, 0, 0] =
      reply m code 0 := by
  obtain ⟨b₀, b₁, b₂, b₃, b₄, b₅, b₆, b₇, b₈, b₉, b₁₀, b₁₁, rest, rfl⟩ := exists_header h
  rfl

/-- What the header of a reply says. -/
theorem reply_header (code : UInt8) (count : ℕ) (h : HEADER_LEN ≤ m.length) (body : Bytes) :
    let r := reply m code count ++ body
    r.take 2 = m.take 2 ∧ r.getD 2 0 = 0x81 ∧ rcode r = code &&& 0x0F ∧ wordAt r 4 2 = 1 ∧
      wordAt r 8 2 = 0 ∧ wordAt r 10 2 = 0 := by
  obtain ⟨b₀, b₁, b₂, b₃, b₄, b₅, b₆, b₇, b₈, b₉, b₁₀, b₁₁, rest, rfl⟩ := exists_header h
  exact ⟨rfl, rfl, rfl, rfl, rfl, rfl⟩

theorem answerCount_reply (code : UInt8) (h : HEADER_LEN ≤ m.length) (hcount : count < 65536)
    (body : Bytes) :
    answerCount (reply m code count ++ body) = count := by
  obtain ⟨b₀, b₁, b₂, b₃, b₄, b₅, b₆, b₇, b₈, b₉, b₁₀, b₁₁, rest, rfl⟩ := exists_header h
  have hback : ofBE (toBE 2 count) = count := ofBE_toBE (n := 2) hcount
  exact hback

theorem length_reply (h : HEADER_LEN ≤ m.length) : (reply m code count).length = m.length := by
  obtain ⟨b₀, b₁, b₂, b₃, b₄, b₅, b₆, b₇, b₈, b₉, b₁₀, b₁₁, rest, rfl⟩ := exists_header h
  rfl

/-- After its header a reply is the question, and then its records. -/
theorem drop_reply (h : HEADER_LEN ≤ m.length) {off : ℕ} (hoff : HEADER_LEN ≤ off)
    (hle : off ≤ m.length) (body : Bytes) :
    (reply m code count ++ body).drop off = m.drop off ++ body := by
  have hhead : (reply m code count).drop HEADER_LEN = m.drop HEADER_LEN := by
    obtain ⟨b₀, b₁, b₂, b₃, b₄, b₅, b₆, b₇, b₈, b₉, b₁₀, b₁₁, rest, rfl⟩ := exists_header h
    rfl
  obtain ⟨k, rfl⟩ := Nat.exists_eq_add_of_le hoff
  rw [List.drop_append_of_le_length (by rw [length_reply h]; exact hle), ← List.drop_drop, hhead,
    List.drop_drop]

end Reply

section Build

variable {pos : ℕ}

theorem header_of_skipName (hskip : skipName msg HEADER_LEN = some pos)
    (hfit : pos + 4 ≤ msg.length) : HEADER_LEN ≤ (msg.take (pos + 4)).length := by
  have hlt := lt_of_skipLoop hskip
  rw [List.length_take]
  omega

theorem buildResponse_eq {k : CacheKey} (h : question msg = some k)
    (hskip : skipName msg HEADER_LEN = some pos) (hfit : pos + 4 ≤ msg.length)
    (addrs : List IpAddr) (ttl : UInt32) :
    buildResponse msg addrs ttl =
      some (reply (msg.take (pos + 4)) 0x80 (answersOf k.2.1 k.2.2 addrs).length ++
        (answersOf k.2.1 k.2.2 addrs).flatMap (answerRecord ttl)) := by
  obtain ⟨name, qtype, qclass⟩ := k
  have hlen := header_of_skipName hskip hfit
  simp only [buildResponse, h, hskip, if_neg (Nat.not_lt.2 hfit), splice_response hlen, answersOf]
  by_cases hclass : qclass = CLASS_IN
  · rw [if_neg (not_not_intro hclass), if_pos hclass]
  · rw [if_pos hclass, if_neg hclass, List.length_nil, List.flatMap_nil, List.append_nil]

theorem buildNxdomain_eq (hskip : skipName msg HEADER_LEN = some pos)
    (hfit : pos + 4 ≤ msg.length) :
    buildNxdomain msg = some (reply (msg.take (pos + 4)) 0x83 0) := by
  have hlen := header_of_skipName hskip hfit
  simp only [buildNxdomain, hskip, if_neg (Nat.not_lt.2 hfit), splice_nxdomain hlen]

/-- A reply is built for every question, and reports no error. -/
theorem buildResponse_of_question {k : CacheKey} (h : question msg = some k) (addrs : List IpAddr)
    (ttl : UInt32) : ∃ r, buildResponse msg addrs ttl = some r ∧ rcode r = 0 := by
  obtain ⟨pos, -, hskip, -, hfit⟩ := question_eq_some h
  obtain ⟨-, -, hcode, -⟩ := reply_header 0x80 (answersOf k.2.1 k.2.2 addrs).length
    (header_of_skipName hskip hfit) ((answersOf k.2.1 k.2.2 addrs).flatMap (answerRecord ttl))
  exact ⟨_, buildResponse_eq h hskip hfit addrs ttl, hcode⟩

/-- The refusal of a name is built for every question, without answers. -/
theorem buildNxdomain_of_question {k : CacheKey} (h : question msg = some k) :
    ∃ r, buildNxdomain msg = some r ∧ rcode r = 3 ∧ answerCount r = 0 := by
  obtain ⟨pos, -, hskip, -, hfit⟩ := question_eq_some h
  have hlen := header_of_skipName hskip hfit
  obtain ⟨-, -, hcode, -⟩ := reply_header 0x83 0 hlen []
  have hcount := answerCount_reply 0x83 hlen (show 0 < 65536 by decide) []
  rw [List.append_nil] at hcode hcount
  exact ⟨_, buildNxdomain_eq hskip hfit, hcode, hcount⟩

end Build

end Dns

end ShadowVpn
