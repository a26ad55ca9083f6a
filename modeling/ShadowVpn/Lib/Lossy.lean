import ShadowVpn.Lib.Utf8

/-! Text made of bytes that need not be text: a decoder that replaces what is not UTF-8,
ASCII case, and labels that are joined with a separator. -/

namespace Lib

namespace Utf8

/-- U+FFFD, which stands for bytes that are no character. -/
def replacement : Char := Char.ofNat 0xFFFD

/-- The second byte that a lead byte of three or four allows. -/
def isSecond (lead b : UInt8) : Bool :=
  if lead.toNat = 0xE0 then 0xA0 ≤ b.toNat && b.toNat ≤ 0xBF
  else if lead.toNat = 0xED then 0x80 ≤ b.toNat && b.toNat ≤ 0x9F
  else if lead.toNat = 0xF0 then 0x90 ≤ b.toNat && b.toNat ≤ 0xBF
  else if lead.toNat = 0xF4 then 0x80 ≤ b.toNat && b.toNat ≤ 0x8F
  else isContinuation b

/-- The value of a character, from the payload of its lead byte and its other bytes. -/
def codePoint (lead : Nat) (conts : Bytes) : Nat :=
  conts.foldl (fun acc b => acc * 64 + b.toNat % 64) lead

/-- The first character of `b :: rest` and what comes after it. Bytes that are no character
are replaced, up to the byte that could not follow. -/
def lossyStep (b : UInt8) (rest : Bytes) : Char × Bytes :=
  if b.toNat < 0x80 then (Char.ofNat b.toNat, rest)
  else if 0xC2 ≤ b.toNat && b.toNat ≤ 0xDF then
    match rest with
    | c :: rest₁ =>
      if isContinuation c then (Char.ofNat (codePoint (b.toNat % 32) [c]), rest₁)
      else (replacement, rest)
    | [] => (replacement, rest)
  else if 0xE0 ≤ b.toNat && b.toNat ≤ 0xEF then
    match rest with
    | c :: rest₁ =>
      if isSecond b c then
        match rest₁ with
        | d :: rest₂ =>
          if isContinuation d then (Char.ofNat (codePoint (b.toNat % 16) [c, d]), rest₂)
          else (replacement, rest₁)
        | [] => (replacement, rest₁)
      else (replacement, rest)
    | [] => (replacement, rest)
  else if 0xF0 ≤ b.toNat && b.toNat ≤ 0xF4 then
    match rest with
    | c :: rest₁ =>
      if isSecond b c then
        match rest₁ with
        | d :: rest₂ =>
          if isContinuation d then
            match rest₂ with
            | e :: rest₃ =>
              if isContinuation e then (Char.ofNat (codePoint (b.toNat % 8) [c, d, e]), rest₃)
              else (replacement, rest₂)
            | [] => (replacement, rest₂)
          else (replacement, rest₁)
        | [] => (replacement, rest₁)
      else (replacement, rest)
    | [] => (replacement, rest)
  else (replacement, rest)

/-- At most `n` characters. -/
def lossyLoop : Nat → Bytes → List Char
  | 0, _ => []
  | _, [] => []
  | n + 1, b :: rest => (lossyStep b rest).1 :: lossyLoop n (lossyStep b rest).2

/-- Every byte string read as text: what is not UTF-8 turns into `replacement`. A string has
no more characters than bytes. -/
def lossy (w : Bytes) : List Char := lossyLoop w.length w

theorem isSecond_iff (lead b : UInt8) : isSecond lead b = true ↔
    128 ≤ b.toNat ∧ b.toNat < 192 ∧ (lead.toNat = 0xE0 → 0xA0 ≤ b.toNat) ∧
      (lead.toNat = 0xED → b.toNat ≤ 0x9F) ∧ (lead.toNat = 0xF0 → 0x90 ≤ b.toNat) ∧
      (lead.toNat = 0xF4 → b.toNat ≤ 0x8F) := by
  unfold isSecond
  split_ifs <;> simp only [Bool.and_eq_true, decide_eq_true_eq, isContinuation_iff] <;> omega

/-- A byte with a known value. -/
theorem toNat_ofNat_of_lt {n : Nat} (h : n < 256) : (UInt8.ofNat n).toNat = n := by
  rw [UInt8.toNat_ofNat']
  exact Nat.mod_eq_of_lt h

theorem lossyStep_one {b : UInt8} (rest : Bytes) (hb : b.toNat < 0x80) :
    lossyStep b rest = (Char.ofNat b.toNat, rest) := by
  unfold lossyStep
  rw [if_pos hb]

theorem lossyStep_two {b c : UInt8} (rest : Bytes) (hb : 0xC2 ≤ b.toNat ∧ b.toNat ≤ 0xDF)
    (hc : isContinuation c = true) :
    lossyStep b (c :: rest) = (Char.ofNat (b.toNat % 32 * 64 + c.toNat % 64), rest) := by
  unfold lossyStep
  rw [if_neg (by omega), if_pos (by simpa using hb)]
  dsimp only
  rw [if_pos hc]
  rfl

theorem lossyStep_three {b c d : UInt8} (rest : Bytes) (hb : 0xE0 ≤ b.toNat ∧ b.toNat ≤ 0xEF)
    (hc : isSecond b c = true) (hd : isContinuation d = true) :
    lossyStep b (c :: d :: rest) =
      (Char.ofNat ((b.toNat % 16 * 64 + c.toNat % 64) * 64 + d.toNat % 64), rest) := by
  unfold lossyStep
  rw [if_neg (by omega), if_neg (by simp; omega), if_pos (by simpa using hb)]
  dsimp only
  rw [if_pos hc, if_pos hd]
  rfl

theorem lossyStep_four {b c d e : UInt8} (rest : Bytes) (hb : 0xF0 ≤ b.toNat ∧ b.toNat ≤ 0xF4)
    (hc : isSecond b c = true) (hd : isContinuation d = true) (he : isContinuation e = true) :
    lossyStep b (c :: d :: e :: rest) =
      (Char.ofNat (((b.toNat % 8 * 64 + c.toNat % 64) * 64 + d.toNat % 64) * 64 + e.toNat % 64),
        rest) := by
  unfold lossyStep
  rw [if_neg (by omega), if_neg (by simp; omega), if_neg (by simp; omega),
    if_pos (by simpa using hb)]
  dsimp only
  rw [if_pos hc, if_pos hd, if_pos he]
  rfl

/-- The bytes of a character are read back as that character. -/
theorem lossyStep_encode (c : Char) : ∃ b conts, String.utf8EncodeChar c = b :: conts ∧
    ∀ rest, lossyStep b (conts ++ rest) = (c, rest) := by
  have hval : ∀ n, n = c.val.toNat → Char.ofNat n = c := by
    rintro n rfl
    exact Char.ofNat_toNat c
  have hvalid : c.val.toNat < 0xD800 ∨ (0xDFFF < c.val.toNat ∧ c.val.toNat < 0x110000) := c.valid
  have hcont : ∀ n, isContinuation (UInt8.ofNat (n % 64 + 128)) = true := by
    intro n
    rw [isContinuation_iff, toNat_ofNat_of_lt (by omega)]
    omega
  unfold String.utf8EncodeChar
  generalize c.val.toNat = v at hval hvalid
  dsimp only
  split_ifs with h1 h2 h3
  · refine ⟨_, _, rfl, fun rest => ?_⟩
    have hb := toNat_ofNat_of_lt (show v < 256 by omega)
    rw [List.nil_append, lossyStep_one _ (by omega), hb, hval v rfl]
  · refine ⟨_, _, rfl, fun rest => ?_⟩
    have hb : (UInt8.ofNat (v / 64 % 32 + 192)).toNat = v / 64 + 192 := by
      rw [toNat_ofNat_of_lt (by omega)]
      omega
    rw [List.cons_append, List.nil_append, lossyStep_two _ (by omega) (hcont v), hb,
      toNat_ofNat_of_lt (by omega), hval _ (by omega)]
  · refine ⟨_, _, rfl, fun rest => ?_⟩
    have hb : (UInt8.ofNat (v / 4096 % 16 + 224)).toNat = v / 4096 + 224 := by
      rw [toNat_ofNat_of_lt (by omega)]
      omega
    have hc : (UInt8.ofNat (v / 64 % 64 + 128)).toNat = v / 64 % 64 + 128 :=
      toNat_ofNat_of_lt (by omega)
    have hsecond : isSecond (UInt8.ofNat (v / 4096 % 16 + 224))
        (UInt8.ofNat (v / 64 % 64 + 128)) = true := by
      rw [isSecond_iff, hb, hc]
      omega
    rw [List.cons_append, List.cons_append, List.nil_append,
      lossyStep_three _ (by omega) hsecond (hcont v), hb, hc, toNat_ofNat_of_lt (by omega),
      hval _ (by omega)]
  · refine ⟨_, _, rfl, fun rest => ?_⟩
    have hb : (UInt8.ofNat (v / 262144 % 8 + 240)).toNat = v / 262144 + 240 := by
      rw [toNat_ofNat_of_lt (by omega)]
      omega
    have hc : (UInt8.ofNat (v / 4096 % 64 + 128)).toNat = v / 4096 % 64 + 128 :=
      toNat_ofNat_of_lt (by omega)
    have hsecond : isSecond (UInt8.ofNat (v / 262144 % 8 + 240))
        (UInt8.ofNat (v / 4096 % 64 + 128)) = true := by
      rw [isSecond_iff, hb, hc]
      omega
    rw [List.cons_append, List.cons_append, List.cons_append, List.nil_append,
      lossyStep_four _ (by omega) hsecond (hcont _) (hcont v), hb, hc, toNat_ofNat_of_lt (by omega),
      toNat_ofNat_of_lt (by omega), hval _ (by omega)]

theorem length_le_encode (s : List Char) : s.length ≤ (encode s).length := by
  induction s with
  | nil => simp
  | cons c s ih =>
    obtain ⟨b, conts, henc, -⟩ := lossyStep_encode c
    rw [encode_cons, henc, List.length_append, List.length_cons, List.length_cons]
    omega

theorem lossyLoop_encode {s : List Char} {n : Nat} (h : s.length ≤ n) :
    lossyLoop n (encode s) = s := by
  induction s generalizing n with
  | nil => cases n <;> rfl
  | cons c s ih =>
    obtain ⟨b, conts, henc, hstep⟩ := lossyStep_encode c
    cases n with
    | zero => simp at h
    | succ n =>
      rw [encode_cons, henc, List.cons_append, lossyLoop, hstep, ih (by simpa using h)]

/-- What is UTF-8 is read as the text it stands for. -/
theorem lossy_encode (s : List Char) : lossy (encode s) = s :=
  lossyLoop_encode (length_le_encode s)

example : lossy [0x61, 0xFF, 0x62] = ['a', replacement, 'b'] := by decide

/-! ASCII case. -/

def lowerByte (b : UInt8) : UInt8 := if 0x41 ≤ b.toNat ∧ b.toNat ≤ 0x5A then b + 0x20 else b

theorem lowerByte_of_le {b : UInt8} (h : 128 ≤ b.toNat) : lowerByte b = b :=
  if_neg (by omega)

/-- Beyond ASCII every byte of a character is. -/
theorem le_toNat_of_mem {c : Char} (h : 128 ≤ c.toNat) {b : UInt8}
    (hb : b ∈ String.utf8EncodeChar c) : 128 ≤ b.toNat := by
  obtain ⟨lead, conts, henc, hconts, hlead⟩ := utf8EncodeChar_shape c
  rw [henc] at hb
  rcases List.mem_cons.1 hb with rfl | hb
  · rcases hlead with ⟨rfl, -⟩ | ⟨-, hle⟩
    · have hsize := congrArg List.length henc
      have hval : 127 < c.val.toNat := h
      unfold String.utf8EncodeChar at hsize
      dsimp only at hsize
      rw [if_neg (by omega)] at hsize
      split_ifs at hsize <;> cases hsize
    · omega
  · exact ((isContinuation_iff b).1 (hconts b hb)).1

/-- What holds of the first 128 characters holds of every character below 128. -/
@[elab_as_elim]
theorem forall_ascii {motive : Char → Prop} (h : ∀ n < 128, motive (Char.ofNat n)) (c : Char)
    (hc : c.toNat < 128) : motive c := by
  have hp := h c.toNat hc
  rwa [Char.ofNat_toNat] at hp

theorem toLower_of_le {c : Char} (h : 128 ≤ c.toNat) : c.toLower = c := by
  unfold Char.toLower
  rw [dif_neg]
  rintro ⟨-, hle⟩
  have hz : c.toNat ≤ 90 := hle
  omega

theorem utf8EncodeChar_toLower (c : Char) :
    String.utf8EncodeChar c.toLower = (String.utf8EncodeChar c).map lowerByte := by
  rcases Nat.lt_or_ge c.toNat 128 with hascii | hother
  · refine forall_ascii ?_ c hascii
    decide +kernel
  · have hmap : (String.utf8EncodeChar c).map lowerByte = (String.utf8EncodeChar c).map id :=
      List.map_congr_left fun b hb => lowerByte_of_le (le_toNat_of_mem hother hb)
    rw [toLower_of_le hother, hmap, List.map_id]

/-- Lower case of the text is lower case of its bytes. -/
theorem encode_map_toLower (s : List Char) :
    encode (s.map Char.toLower) = (encode s).map lowerByte := by
  induction s with
  | nil => rfl
  | cons c s ih =>
    rw [List.map_cons, encode_cons, encode_cons, List.map_append, utf8EncodeChar_toLower, ih]

/-! Joined labels. -/

theorem map_intercalate {α β : Type} (f : α → β) (x : α) (ls : List (List α)) :
    ([x].intercalate ls).map f = [f x].intercalate (ls.map (List.map f)) := by
  induction ls with
  | nil => rfl
  | cons l ls ih =>
    cases ls with
    | nil => simp [List.intercalate]
    | cons l' ls =>
      simp only [List.intercalate, List.intersperse_cons_cons, List.flatten_cons, List.map_append,
        List.map_cons] at ih ⊢
      rw [ih]
      rfl

/-- The labels of a joined text, if none is empty and none has the separator in it. -/
theorem intercalate_injective {α : Type} [DecidableEq α] {x : α} {ls ls' : List (List α)}
    (hx : ∀ l ∈ ls, x ∉ l) (hx' : ∀ l ∈ ls', x ∉ l) (hne : [] ∉ ls) (hne' : [] ∉ ls')
    (h : [x].intercalate ls = [x].intercalate ls') : ls = ls' := by
  have hempty : ∀ {ks : List (List α)}, [] ∉ ks → [x].intercalate ks = [] → ks = [] := by
    intro ks hks heq
    cases ks with
    | nil => rfl
    | cons k ks =>
      cases ks with
      | nil => simp_all [List.intercalate]
      | cons k' ks => simp [List.intercalate] at heq
  by_cases hls : ls = []
  · subst hls
    exact (hempty hne' h.symm).symm
  by_cases hls' : ls' = []
  · subst hls'
    exact hempty hne h
  rw [← List.splitOn_intercalate x hx hls, h, List.splitOn_intercalate x hx' hls']

end Utf8

end Lib
