import ShadowVpn.Spec.NodeId

/-! `parse_node_id` reads back what `fmt_node` writes. The text is plain ASCII, so the
byte offsets of the pair loop are character offsets, and dropping the hyphens leaves
two digits for each byte. -/

namespace ShadowVpn

/-! Plain text. -/

/-- Hex digits of a byte, as `fmt_node` writes them. -/
def lowerHex : Text :=
  ['0', '1', '2', '3', '4', '5', '6', '7', '8', '9', 'a', 'b', 'c', 'd', 'e', 'f']

theorem digitChar_mem {n : ℕ} (h : n < 16) : Nat.digitChar n ∈ lowerHex := by
  have hall : ∀ n : Fin 16, Nat.digitChar n ∈ lowerHex := by decide
  exact hall ⟨n, h⟩

theorem mem_fmtBytes {bs : List UInt8} {c : Char} (h : c ∈ fmtBytes bs) : c ∈ lowerHex := by
  obtain ⟨b, -, hc⟩ := List.mem_flatMap.1 h
  have hb := b.toNat_lt
  simp only [fmtByte, List.mem_cons, List.not_mem_nil, or_false] at hc
  rcases hc with rfl | rfl
  · exact digitChar_mem (by omega)
  · exact digitChar_mem (by omega)

theorem lowerHex_ascii {c : Char} (h : c ∈ lowerHex) : c.utf8Size = 1 ∧ c ≠ '-' := by
  have hall : (lowerHex.all fun c => c.utf8Size = 1 ∧ c ≠ '-') = true := by decide
  simpa using List.all_eq_true.1 hall c h

theorem byteLen_ascii {s : Text} (h : ∀ c ∈ s, c.utf8Size = 1) : byteLen s = s.length := by
  induction s with
  | nil => rfl
  | cons c s ih =>
    have hs := ih fun d hd => h d (List.mem_cons_of_mem c hd)
    have hc := h c (List.mem_cons_self ..)
    simp only [byteLen, List.map_cons, List.sum_cons, List.length_cons] at hs ⊢
    omega

/-- In plain text a byte offset is a character offset. -/
theorem splitBytes_ascii {s : Text} (h : ∀ c ∈ s, c.utf8Size = 1) {n : ℕ} (hn : n ≤ s.length) :
    splitBytes n s = some (s.take n, s.drop n) := by
  induction s generalizing n with
  | nil =>
    obtain rfl : n = 0 := by simpa using hn
    rfl
  | cons c s ih =>
    cases n with
    | zero => rfl
    | succ n =>
      have hc := h c (List.mem_cons_self ..)
      have hs := ih (fun d hd => h d (List.mem_cons_of_mem c hd)) (Nat.le_of_succ_le_succ hn)
      simp [splitBytes, hc, hs]

theorem slice_ascii {s : Text} (h : ∀ c ∈ s, c.utf8Size = 1) {i j : ℕ} (hij : i ≤ j)
    (hj : j ≤ s.length) : slice s i j = .ok ((s.drop i).take (j - i)) := by
  have hrest : ∀ c ∈ s.drop i, c.utf8Size = 1 := fun c hc => h c (List.mem_of_mem_drop hc)
  have hlen : j - i ≤ (s.drop i).length := by
    rw [List.length_drop]
    omega
  simp [slice, splitBytes_ascii h (Nat.le_trans hij hj), splitBytes_ascii hrest hlen]

/-! Bytes. -/

theorem fromStrRadix16_fmtByte (b : UInt8) : fromStrRadix16 (fmtByte b) = some b := by
  have hall : ∀ n : Fin 256, fromStrRadix16 (fmtByte (UInt8.ofNat n)) = some (UInt8.ofNat n) := by
    decide +kernel
  have hb := hall ⟨b.toNat, b.toNat_lt⟩
  simpa using hb

theorem length_fmtBytes (bs : List UInt8) : (fmtBytes bs).length = 2 * bs.length := by
  induction bs with
  | nil => rfl
  | cons b bs ih =>
    simp only [fmtBytes, List.flatMap_cons, List.length_append, fmtByte, List.length_cons,
      List.length_nil] at ih ⊢
    omega

theorem drop_fmtBytes (bs : List UInt8) (i : ℕ) :
    (fmtBytes bs).drop (i * 2) = fmtBytes (bs.drop i) := by
  induction i generalizing bs with
  | zero => simp
  | succ i ih =>
    cases bs with
    | nil => simp [fmtBytes]
    | cons b bs =>
      have hb := ih bs
      simpa [fmtBytes, fmtByte, Nat.succ_mul] using hb

/-- The pair at index `i` is the text of byte `i`. -/
theorem slice_fmtBytes {bs : List UInt8} {i : ℕ} (hi : i < bs.length) :
    slice (fmtBytes bs) (i * 2) (i * 2 + 2) = .ok (fmtByte bs[i]) := by
  have hascii : ∀ c ∈ fmtBytes bs, c.utf8Size = 1 := fun c hc => (lowerHex_ascii (mem_fmtBytes hc)).1
  rw [slice_ascii hascii (by omega) (by rw [length_fmtBytes]; omega), drop_fmtBytes,
    List.drop_eq_getElem_cons hi, Nat.add_sub_cancel_left]
  rfl

/-- The loop over the remaining indices collects the remaining bytes. -/
theorem parsePairs_fmtBytes (bs : List UInt8) : ∀ k i, i + k = bs.length →
    parsePairs (fmtBytes bs) (List.range' i k) = .ok (some (bs.drop i)) := by
  intro k
  induction k with
  | zero =>
    intro i hi
    rw [Nat.add_zero] at hi
    rw [List.drop_eq_nil_of_le (Nat.le_of_eq hi.symm)]
    rfl
  | succ k ih =>
    intro i hi
    have hlt : i < bs.length := by omega
    rw [List.range'_succ, parsePairs, slice_fmtBytes hlt]
    simp only [fromStrRadix16_fmtByte, ih (i + 1) (by omega)]
    rw [List.drop_eq_getElem_cons hlt]

/-! Node identities. -/

theorem filter_fmtBytes (bs : List UInt8) :
    (fmtBytes bs).filter (fun c => c ≠ '-') = fmtBytes bs := by
  rw [List.filter_eq_self]
  intro c hc
  simpa using (lowerHex_ascii (mem_fmtBytes hc)).2

theorem fmtBytes_split (bs : List UInt8) (n : ℕ) :
    fmtBytes bs = fmtBytes (bs.take n) ++ fmtBytes (bs.drop n) := by
  rw [fmtBytes, fmtBytes, fmtBytes, ← List.flatMap_append, List.take_append_drop]

theorem filter_fmtNode (id : NodeId) :
    (fmtNode id).filter (fun c => c ≠ '-') = fmtBytes id.bytes := by
  have hsplit : fmtBytes id.bytes = fmtBytes (id.bytes.take 4) ++
      fmtBytes ((id.bytes.drop 4).take 2) ++ fmtBytes ((id.bytes.drop 6).take 2) ++
        fmtBytes ((id.bytes.drop 8).take 2) ++ fmtBytes (id.bytes.drop 10) := by
    rw [fmtBytes_split id.bytes 4, fmtBytes_split (id.bytes.drop 4) 2, List.drop_drop,
      fmtBytes_split (id.bytes.drop 6) 2, List.drop_drop, fmtBytes_split (id.bytes.drop 8) 2,
      List.drop_drop]
    simp only [List.append_assoc]
  rw [fmtNode, hsplit]
  simp only [List.filter_append, List.filter_cons, filter_fmtBytes]
  simp

theorem parseNodeId_fmtNode (id : NodeId) : parseNodeId (fmtNode id) = .ok (some id) := by
  have hlen : byteLen (fmtBytes id.bytes) = 32 := by
    rw [byteLen_ascii fun c hc => (lowerHex_ascii (mem_fmtBytes hc)).1, length_fmtBytes, id.len]
  have hpairs := parsePairs_fmtBytes id.bytes 16 0 (by simp [id.len])
  rw [← List.range_eq_range'] at hpairs
  unfold parseNodeId
  simp only [filter_fmtNode, hlen, hpairs]
  simp [id.len]

/-! Any text. The loop is read over what remains of it, two bytes at a time. -/

def readPairs : ℕ → Text → Except Panic (Option (List UInt8))
  | 0, _ => .ok (some [])
  | k + 1, s =>
    match splitBytes 2 s with
    | none => .error .charBoundary
    | some (pair, rest) =>
      match fromStrRadix16 pair with
      | none => .ok none
      | some b =>
        match readPairs k rest with
        | .error e => .error e
        | .ok none => .ok none
        | .ok (some bs) => .ok (some (b :: bs))

theorem splitBytes_add {m n : ℕ} {s left rest : Text} (h : splitBytes m s = some (left, rest)) :
    splitBytes (m + n) s = (splitBytes n rest).map fun p => (left ++ p.1, p.2) := by
  induction s generalizing m left with
  | nil =>
    cases m with
    | zero =>
      obtain ⟨rfl, rfl⟩ : [] = left ∧ [] = rest := by simpa [splitBytes] using h
      simp
    | succ m => simp [splitBytes] at h
  | cons c s ih =>
    cases m with
    | zero =>
      obtain ⟨rfl, rfl⟩ : [] = left ∧ c :: s = rest := by simpa [splitBytes] using h
      simp
    | succ m =>
      simp only [splitBytes] at h
      split at h
      · rename_i hc
        obtain ⟨⟨l, r⟩, hsplit, heq⟩ := Option.map_eq_some_iff.1 h
        obtain ⟨rfl, rfl⟩ := Prod.mk.inj heq
        have hlt : c.utf8Size ≤ m + n + 1 := by omega
        have hsum : m + n + 1 - c.utf8Size = m + 1 - c.utf8Size + n := by omega
        rw [Nat.add_right_comm, splitBytes, if_pos hlt, hsum, ih hsplit, Option.map_map]
        rfl
      · cases h

theorem parsePairs_eq (hex : Text) : ∀ k i left rest, splitBytes (i * 2) hex = some (left, rest) →
    parsePairs hex (List.range' i k) = readPairs k rest := by
  intro k
  induction k with
  | zero => intro i left rest _; rfl
  | succ k ih =>
    intro i left rest h
    have hslice : slice hex (i * 2) (i * 2 + 2) =
        (splitBytes 2 rest).elim (.error .charBoundary) fun p => .ok p.1 := by
      simp only [slice, h, Nat.add_sub_cancel_left]
      cases splitBytes 2 rest with
      | none => rfl
      | some p => rfl
    rw [List.range'_succ, parsePairs, readPairs, hslice]
    cases hnext : splitBytes 2 rest with
    | none => rfl
    | some p =>
      have hi : splitBytes ((i + 1) * 2) hex = some (left ++ p.1, p.2) := by
        rw [Nat.succ_mul, splitBytes_add h, hnext, Option.map_some]
      have htail := ih (i + 1) _ _ hi
      generalize parsePairs hex (List.range' (i + 1) k) = tail at htail ⊢
      subst htail
      rfl

theorem parsePairs_range (hex : Text) : parsePairs hex (List.range 16) = readPairs 16 hex := by
  rw [List.range_eq_range']
  exact parsePairs_eq hex 16 0 [] hex (by rw [Nat.zero_mul, splitBytes])

/-! One pair. -/

theorem toNat_le_of_le {c d : Char} (h : c ≤ d) : c.toNat ≤ d.toNat :=
  UInt32.le_iff_toNat_le.1 (Char.le_def.1 h)

theorem utf8Size_of_toNat {c : Char} (h : c.toNat ≤ 127) : c.utf8Size = 1 :=
  Char.utf8Size_eq_one_iff.2 (UInt32.le_iff_toNat_le.2 h)

/-- A digit is below 16, and is a character of one byte other than `+`. -/
theorem hexVal_spec {c : Char} {x : ℕ} (h : hexVal c = some x) :
    x < 16 ∧ c.utf8Size = 1 ∧ c ≠ '+' := by
  have hbounds : x < 16 ∧ 48 ≤ c.toNat ∧ c.toNat ≤ 127 := by
    unfold hexVal at h
    split_ifs at h with h09 haf hAF
    · have hlo : 48 ≤ c.toNat := toNat_le_of_le h09.1
      have hhi : c.toNat ≤ 57 := toNat_le_of_le h09.2
      have hx : c.toNat - 48 = x := Option.some.inj h
      omega
    · have hlo : 97 ≤ c.toNat := toNat_le_of_le haf.1
      have hhi : c.toNat ≤ 102 := toNat_le_of_le haf.2
      have hx : c.toNat - 97 + 10 = x := Option.some.inj h
      omega
    · have hlo : 65 ≤ c.toNat := toNat_le_of_le hAF.1
      have hhi : c.toNat ≤ 70 := toNat_le_of_le hAF.2
      have hx : c.toNat - 65 + 10 = x := Option.some.inj h
      omega
  refine ⟨hbounds.1, utf8Size_of_toNat hbounds.2.2, ?_⟩
  rintro rfl
  exact absurd hbounds.2.1 (by decide)

theorem hexVal_plus : hexVal '+' = none := by decide

theorem hexDigits_one (d : Char) : hexDigits 0 [d] = hexVal d := by
  cases hd : hexVal d with
  | none => simp [hexDigits, hd]
  | some y =>
    have hy := (hexVal_spec hd).1
    simp [hexDigits, hd, show y < 256 by omega]

theorem hexDigits_two (c d : Char) :
    hexDigits 0 [c, d] = (hexVal c).bind fun x => (hexVal d).map fun y => x * 16 + y := by
  cases hc : hexVal c with
  | none => simp [hexDigits, hc]
  | some x =>
    have hx := (hexVal_spec hc).1
    cases hd : hexVal d with
    | none => simp [hexDigits, hc, hd]
    | some y =>
      have hy := (hexVal_spec hd).1
      simp [hexDigits, hc, hd, show x < 256 by omega, show x * 16 + y < 256 by omega]

theorem fromStrRadix16_of_ne {c : Char} (s : Text) (hc : c ≠ '+') :
    fromStrRadix16 (c :: s) = (hexDigits 0 (c :: s)).map UInt8.ofNat := by
  unfold fromStrRadix16
  split <;> simp_all

theorem ofNat_eq_iff {n : ℕ} {b : UInt8} (hn : n < 256) : UInt8.ofNat n = b ↔ b.toNat = n := by
  rw [← UInt8.toNat_inj, UInt8.toNat_ofNat', Nat.mod_eq_of_lt hn]
  exact eq_comm

/-- The byte that `from_str_radix` makes of two characters: two digits, or a sign and a digit. -/
inductive PairOf (c d : Char) (b : UInt8) : Prop
  | digits {x y : ℕ} (hc : hexVal c = some x) (hd : hexVal d = some y) (hb : b.toNat = x * 16 + y)
  | plus {y : ℕ} (hc : c = '+') (hd : hexVal d = some y) (hb : b.toNat = y)

theorem fromStrRadix16_pair {c d : Char} {b : UInt8} :
    fromStrRadix16 [c, d] = some b ↔ PairOf c d b := by
  by_cases hplus : c = '+'
  · subst hplus
    have hread : fromStrRadix16 ['+', d] = (hexVal d).map UInt8.ofNat := by
      rw [fromStrRadix16, hexDigits_one]
      exact List.cons_ne_nil d []
    rw [hread, Option.map_eq_some_iff]
    refine ⟨?_, ?_⟩
    · rintro ⟨y, hd, hb⟩
      have hy := (hexVal_spec hd).1
      exact .plus rfl hd ((ofNat_eq_iff (by omega)).1 hb)
    · intro h
      cases h with
      | digits hc => exact absurd hc (by simp [hexVal_plus])
      | plus _ hd hb =>
        have hy := (hexVal_spec hd).1
        exact ⟨_, hd, (ofNat_eq_iff (by omega)).2 hb⟩
  · rw [fromStrRadix16_of_ne [d] hplus, hexDigits_two]
    refine ⟨?_, ?_⟩
    · intro h
      obtain ⟨n, hn, hb⟩ := Option.map_eq_some_iff.1 h
      obtain ⟨x, hc, hxy⟩ := Option.bind_eq_some_iff.1 hn
      obtain ⟨y, hd, rfl⟩ := Option.map_eq_some_iff.1 hxy
      have hx := (hexVal_spec hc).1
      have hy := (hexVal_spec hd).1
      exact .digits hc hd ((ofNat_eq_iff (by omega)).1 hb)
    · intro h
      cases h with
      | digits hc hd hb =>
        have hx := (hexVal_spec hc).1
        have hy := (hexVal_spec hd).1
        rw [hc, hd]
        exact congrArg some ((ofNat_eq_iff (show _ * 16 + _ < 256 by omega)).2 hb)
      | plus hc => exact absurd hc hplus

theorem fromStrRadix16_wide {c : Char} (hc : c.utf8Size ≠ 1) : fromStrRadix16 [c] = none := by
  have hplus : c ≠ '+' := by
    rintro rfl
    exact hc rfl
  have hval : hexVal c = none := by
    cases h : hexVal c with
    | none => rfl
    | some x => exact absurd (hexVal_spec h).2.1 hc
  rw [fromStrRadix16_of_ne [] hplus, hexDigits_one, hval]
  rfl

/-! The pairs of a text. -/

/-- The text is two digits for each of the bytes. -/
inductive SpellsBytes : Text → List UInt8 → Prop
  | nil : SpellsBytes [] []
  | pair {c d : Char} {x y : ℕ} {b : UInt8} {s : Text} {bs : List UInt8} (hc : hexVal c = some x)
      (hd : hexVal d = some y) (hb : b.toNat = x * 16 + y) (h : SpellsBytes s bs) :
      SpellsBytes (c :: d :: s) (b :: bs)

/-- The text is a pair that `from_str_radix` takes for each of the bytes. -/
inductive Accepts : Text → List UInt8 → Prop
  | nil : Accepts [] []
  | pair {c d : Char} {b : UInt8} {s : Text} {bs : List UInt8} (hpair : PairOf c d b)
      (h : Accepts s bs) : Accepts (c :: d :: s) (b :: bs)

/-- A character that the next two bytes cut. -/
inductive CutNext : Text → Prop
  | wide {c : Char} {s : Text} (hc : 2 < c.utf8Size) : CutNext (c :: s)
  | second {c d : Char} {s : Text} (hc : c.utf8Size = 1) (hd : 1 < d.utf8Size) :
      CutNext (c :: d :: s)

theorem byteLen_cons (c : Char) (s : Text) : byteLen (c :: s) = c.utf8Size + byteLen s := by
  simp [byteLen]

theorem PairOf.ascii {c d : Char} {b : UInt8} (h : PairOf c d b) :
    c.utf8Size = 1 ∧ d.utf8Size = 1 := by
  cases h with
  | digits hc hd => exact ⟨(hexVal_spec hc).2.1, (hexVal_spec hd).2.1⟩
  | plus hc hd => exact ⟨by rw [hc]; rfl, (hexVal_spec hd).2.1⟩

theorem splitBytes_ascii_pair {c d : Char} (s : Text) (hc : c.utf8Size = 1) (hd : d.utf8Size = 1) :
    splitBytes 2 (c :: d :: s) = some ([c, d], s) := by
  simp [splitBytes, hc, hd]

theorem splitBytes_cut {s : Text} (h : CutNext s) : splitBytes 2 s = none := by
  cases h with
  | wide hc => simp [splitBytes, Nat.not_le.2 hc]
  | second hc hd => simp [splitBytes, hc, Nat.not_le.2 hd]

/-- The next two bytes are two characters or one, or they cut one. -/
theorem next_cases {s : Text} {k : ℕ} (h : byteLen s = 2 * (k + 1)) :
    (∃ c d rest, s = c :: d :: rest ∧ c.utf8Size = 1 ∧ d.utf8Size = 1 ∧ byteLen rest = 2 * k) ∨
    (∃ c rest, s = c :: rest ∧ c.utf8Size = 2) ∨ CutNext s := by
  cases s with
  | nil => exact absurd h (by simp [byteLen])
  | cons c s =>
    rw [byteLen_cons] at h
    by_cases hone : c.utf8Size = 1
    · cases s with
      | nil => exact absurd h (by simp only [byteLen, List.map_nil, List.sum_nil]; omega)
      | cons d rest =>
        rw [byteLen_cons] at h
        by_cases hd : d.utf8Size = 1
        · exact .inl ⟨c, d, rest, rfl, hone, hd, by omega⟩
        · have hpos := d.utf8Size_pos
          exact .inr (.inr (.second hone (by omega)))
    · have hpos := c.utf8Size_pos
      by_cases htwo : c.utf8Size = 2
      · exact .inr (.inl ⟨c, s, rfl, htwo⟩)
      · exact .inr (.inr (.wide (by omega)))

/-! What the loop makes of a text. -/

theorem readPairs_pair {c d : Char} {b : UInt8} (k : ℕ) (s : Text) (h : PairOf c d b) :
    readPairs (k + 1) (c :: d :: s) = (readPairs k s).map (Option.map (b :: ·)) := by
  rw [readPairs, splitBytes_ascii_pair s h.ascii.1 h.ascii.2]
  simp only [fromStrRadix16_pair.2 h]
  cases readPairs k s with
  | error e => rfl
  | ok r => cases r <;> rfl

theorem readPairs_append {head : Text} {bs : List UInt8} (k : ℕ) (rest : Text)
    (h : Accepts head bs) :
    readPairs (k + bs.length) (head ++ rest) = (readPairs k rest).map (Option.map (bs ++ ·)) := by
  induction h with
  | nil =>
    rw [List.length_nil, Nat.add_zero, List.nil_append]
    cases readPairs k rest <;> simp [Except.map]
  | pair hpair h ih =>
    rw [List.length_cons, ← Nat.add_assoc, List.cons_append, List.cons_append,
      readPairs_pair _ _ hpair, ih]
    cases readPairs k rest <;> simp [Except.map, Function.comp_def]

theorem readPairs_accepts {s : Text} {bs : List UInt8} (h : Accepts s bs) :
    readPairs bs.length s = .ok (some bs) := by
  have hread := readPairs_append 0 [] h
  simpa [readPairs, Except.map] using hread

theorem readPairs_cut {head rest : Text} {bs : List UInt8} (k : ℕ) (h : Accepts head bs)
    (hcut : CutNext rest) : readPairs (k + 1 + bs.length) (head ++ rest) = .error .charBoundary := by
  rw [readPairs_append _ _ h, readPairs, splitBytes_cut hcut]
  rfl

theorem byteLen_append (s t : Text) : byteLen (s ++ t) = byteLen s + byteLen t := by
  simp [byteLen]

theorem Accepts.byteLen {s : Text} {bs : List UInt8} (h : Accepts s bs) :
    ShadowVpn.byteLen s = 2 * bs.length := by
  induction h with
  | nil => rfl
  | pair hpair h ih =>
    have hascii := hpair.ascii
    rw [byteLen_cons, byteLen_cons, List.length_cons]
    omega

/-- Every pair is taken, or one is refused, or a character is cut before that. -/
theorem readPairs_cases {k : ℕ} {s : Text} (h : byteLen s = 2 * k) :
    (∃ bs, Accepts s bs) ∨ readPairs k s = .ok none ∨
    ∃ head bs rest, s = head ++ rest ∧ Accepts head bs ∧ CutNext rest := by
  induction k generalizing s with
  | zero =>
    cases s with
    | nil => exact .inl ⟨[], .nil⟩
    | cons c s =>
      have hpos := c.utf8Size_pos
      rw [byteLen_cons] at h
      omega
  | succ k ih =>
    obtain ⟨c, d, rest, rfl, hc, hd, hrest⟩ | ⟨c, rest, rfl, hc⟩ | hcut := next_cases h
    · cases hpair : fromStrRadix16 [c, d] with
      | none =>
        refine .inr (.inl ?_)
        rw [readPairs, splitBytes_ascii_pair rest hc hd]
        simp only [hpair]
      | some b =>
        rw [fromStrRadix16_pair] at hpair
        rw [readPairs_pair k rest hpair]
        obtain ⟨bs, hbs⟩ | hnone | ⟨head, bs, tail, rfl, hbs, hcut⟩ := ih hrest
        · exact .inl ⟨b :: bs, .pair hpair hbs⟩
        · exact .inr (.inl (by rw [hnone]; rfl))
        · exact .inr (.inr ⟨c :: d :: head, b :: bs, tail, rfl, .pair hpair hbs, hcut⟩)
    · refine .inr (.inl ?_)
      have hsplit : splitBytes 2 (c :: rest) = some ([c], rest) := by simp [splitBytes, hc]
      rw [readPairs, hsplit]
      simp only [fromStrRadix16_wide (show c.utf8Size ≠ 1 by omega)]
    · exact .inr (.inr ⟨[], [], s, rfl, .nil, hcut⟩)

/-! Digits only. -/

theorem SpellsBytes.accepts {s : Text} {bs : List UInt8} (h : SpellsBytes s bs) : Accepts s bs := by
  induction h with
  | nil => exact .nil
  | pair hc hd hb _ ih => exact .pair (.digits hc hd hb) ih

theorem SpellsBytes.no_plus {s : Text} {bs : List UInt8} (h : SpellsBytes s bs) : '+' ∉ s := by
  induction h with
  | nil => exact List.not_mem_nil
  | pair hc hd hb _ ih =>
    simp only [List.mem_cons, not_or]
    exact ⟨(hexVal_spec hc).2.2.symm, (hexVal_spec hd).2.2.symm, ih⟩

theorem Accepts.spells {s : Text} {bs : List UInt8} (h : Accepts s bs) (hplus : '+' ∉ s) :
    SpellsBytes s bs := by
  induction h with
  | nil => exact .nil
  | pair hpair _ ih =>
    simp only [List.mem_cons, not_or] at hplus
    cases hpair with
    | digits hc hd hb => exact .pair hc hd hb (ih hplus.2.2)
    | plus hc => exact absurd hc.symm hplus.1

end ShadowVpn
