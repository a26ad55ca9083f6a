import ShadowVpn.Lib.Base64
import ShadowVpn.Lib.Run
import ShadowVpn.Sanity.Checked
import ShadowVpn.Spec.Obfs

/-! The two layers of the carrier: what is sealed is opened again and nothing else is, and
each disguise comes off as it went on. -/

namespace ShadowVpn

open Lib Base64

/-! The envelope. -/

theorem lift_ok_bind {α β : Type} (a : α) (k : α → ExceptT CryptoError (Except Panic) β) :
    (ExceptT.lift (.ok a) >>= k) = k a := rfl

section

variable (L : Primitives)

def Primitives.subkey (cipher : Cipher) (masterKey salt : List UInt8) : List UInt8 :=
  (L.hkdfSha1 salt masterKey SS_SUBKEY_INFO cipher.keyLen).1

/-- What comes after the salt: the sealed packet and its tag. -/
def Primitives.seal (cipher : Cipher) (masterKey salt plaintext : List UInt8) :
    Option (List UInt8) :=
  ((L.aead cipher).encryptDetached (L.subkey cipher masterKey salt) ZERO_NONCE [] plaintext).map
    fun r => r.1 ++ r.2

variable {L} {P : Platform} {cipher : Cipher} {masterKey datagram plaintext sealed : List UInt8}

theorem subkey_length (salt : List UInt8) :
    (L.subkey cipher masterKey salt).length = cipher.keyLen :=
  (L.hkdfSha1 salt masterKey SS_SUBKEY_INFO cipher.keyLen).2

theorem subkeyFor_eq (cipher : Cipher) (masterKey salt : List UInt8) :
    subkeyFor L cipher masterKey salt = pure (L.subkey cipher masterKey salt) := by
  cases cipher <;> rfl

theorem seal_length {salt : List UInt8} (h : L.seal cipher masterKey salt plaintext = some sealed) :
    sealed.length = plaintext.length + TAG_LEN := by
  obtain ⟨⟨c, t⟩, hseal, rfl⟩ := Option.map_eq_some_iff.1 h
  obtain ⟨hc, ht⟩ := (L.aead cipher).length_eq hseal
  rw [List.length_append, hc, ht]

theorem encryptPacket_eq (plaintext : List UInt8) (salt : Salt cipher) :
    encryptPacket L cipher masterKey plaintext salt =
      .ok (match L.seal cipher masterKey salt.1 plaintext with
        | some sealed => .ok (salt.1 ++ sealed)
        | none => .error .aead) := by
  unfold encryptPacket
  rw [subkeyFor_eq, pure_bind]
  simp only [List.take_left' salt.2, List.drop_left' salt.2, aeadSealInPlace, subkey_length,
    if_true, Primitives.seal]
  cases (L.aead cipher).encryptDetached (L.subkey cipher masterKey salt.1) ZERO_NONCE [] plaintext
    with
  | none => rfl
  | some r => exact congrArg (fun d => Except.ok (Except.ok d)) (List.append_assoc _ _ _)

/-- The packet and the tag of a datagram that is long enough. -/
def body (cipher : Cipher) (datagram : List UInt8) : List UInt8 × List UInt8 :=
  let rest := datagram.drop cipher.saltLen
  (rest.take (rest.length - TAG_LEN), rest.drop (rest.length - TAG_LEN))

theorem body_append {salt sealed tag : List UInt8} (hsalt : salt.length = cipher.saltLen)
    (htag : tag.length = TAG_LEN) : body cipher (salt ++ (sealed ++ tag)) = (sealed, tag) := by
  have hlen : (sealed ++ tag).length - TAG_LEN = sealed.length := by
    rw [List.length_append, htag, Nat.add_sub_cancel]
  simp only [body, List.drop_left' hsalt, hlen, List.take_left, List.drop_left]

theorem decryptPacket_eq (datagram : List UInt8) :
    decryptPacket L P cipher masterKey datagram =
      .ok (if datagram.length < cipher.saltLen + TAG_LEN then
          .error (.tooShort datagram.length (cipher.saltLen + TAG_LEN))
        else match (L.aead cipher).decryptDetached
            (L.subkey cipher masterKey (datagram.take cipher.saltLen)) ZERO_NONCE []
            (body cipher datagram).1 (body cipher datagram).2 with
          | some plaintext => .ok plaintext
          | none => .error .aead) := by
  unfold decryptPacket
  by_cases hshort : datagram.length < cipher.saltLen + TAG_LEN
  · simp only [if_pos hshort]
    rfl
  · have hlen : TAG_LEN ≤ (datagram.drop cipher.saltLen).length := by
      rw [List.length_drop]
      omega
    have hsalt : Checked.splitAt datagram cipher.saltLen =
        .ok (datagram.take cipher.saltLen, datagram.drop cipher.saltLen) :=
      if_pos (by omega)
    have hmid : P.subUsize (datagram.drop cipher.saltLen).length TAG_LEN =
        .ok ((datagram.drop cipher.saltLen).length - TAG_LEN) :=
      if_pos hlen
    have hbody : Checked.splitAt (datagram.drop cipher.saltLen)
        ((datagram.drop cipher.saltLen).length - TAG_LEN) = .ok (body cipher datagram) :=
      if_pos (Nat.sub_le _ _)
    have htag : (body cipher datagram).2.length = TAG_LEN := by
      simp only [body, List.length_drop] at hlen ⊢
      omega
    simp only [if_neg hshort, hsalt, lift_ok_bind, subkeyFor_eq, pure_bind, hmid, hbody,
      aeadOpenInPlace, subkey_length, htag, and_self, if_true]
    rfl

/-- A datagram is opened exactly if it is its salt followed by what is sealed under it. -/
theorem decryptPacket_eq_ok :
    decryptPacket L P cipher masterKey datagram = .ok (.ok plaintext) ↔
      ∃ sealed, L.seal cipher masterKey (datagram.take cipher.saltLen) plaintext = some sealed ∧
        datagram = datagram.take cipher.saltLen ++ sealed := by
  have hopen : ∀ c t, (L.aead cipher).decryptDetached
      (L.subkey cipher masterKey (datagram.take cipher.saltLen)) ZERO_NONCE [] c t = some plaintext ↔
      _ := fun c t => (L.aead cipher).decrypt_iff
  rw [decryptPacket_eq]
  constructor
  · intro h
    have hres := Except.ok.inj h
    split_ifs at hres with hshort
    split at hres
    · next p hp =>
      cases hres
      refine ⟨(body cipher datagram).1 ++ (body cipher datagram).2, ?_, ?_⟩
      · rw [Primitives.seal, (hopen _ _).1 hp]
        rfl
      · simp only [body, List.take_append_drop]
    · cases hres
  · rintro ⟨sealed, hseal, heq⟩
    obtain ⟨⟨c, t⟩, henc, rfl⟩ := Option.map_eq_some_iff.1 hseal
    obtain ⟨hc, ht⟩ := (L.aead cipher).length_eq henc
    have hlong : cipher.saltLen + TAG_LEN ≤ datagram.length := by
      have hpos : TAG_LEN = 16 := rfl
      have hlen := congrArg List.length heq
      rw [List.length_append, List.length_append, ht, List.length_take] at hlen
      omega
    have hbody : body cipher datagram = (c, t) := by
      rw [heq]
      exact body_append (by rw [List.length_take]; omega) ht
    rw [if_neg (by omega), hbody, (hopen c t).2 henc]

end

/-! The QUIC header. -/

theorem QuicObfs.wrap_length (q : QuicObfs) (rnd : UInt8) (datagram : List UInt8) :
    (q.wrap rnd datagram).2.length = 1 + q.dcidLen + PN_LEN + datagram.length := by
  simp only [QuicObfs.wrap, List.length_append, List.length_singleton, List.length_drop,
    length_toBE, q.length_dcid]
  rfl

/-- The form bits of the first byte, whatever the random ones are. -/
theorem first_byte : ∀ rnd : UInt8,
    let first := 0x40 ||| (rnd &&& 0x3C) ||| ((UInt8.ofNat PN_LEN - 1) &&& 0x03)
    ¬ (first &&& 0x80 ≠ 0 ∨ first &&& 0x40 = 0) ∧ (first &&& 0x03).toNat + 1 = PN_LEN := by
  decide +kernel

/-- The datagram behind the header, if there is one. -/
def QuicObfs.inner (q : QuicObfs) (pkt : List UInt8) : Option (List UInt8) :=
  match pkt.head? with
  | none => none
  | some first =>
    if first &&& 0x80 ≠ 0 ∨ first &&& 0x40 = 0 then none
    else if pkt.length < 1 + q.dcidLen + ((first &&& 0x03).toNat + 1) then none
    else some (pkt.drop (1 + q.dcidLen + ((first &&& 0x03).toNat + 1)))

theorem QuicObfs.unwrap_eq (q : QuicObfs) (pkt : List UInt8) :
    q.unwrap pkt = Checked.ask (q.inner pkt) := by
  unfold QuicObfs.unwrap QuicObfs.inner
  cases pkt.head? with
  | none => rfl
  | some first =>
    rw [Checked.ask_some_bind]
    dsimp only
    split_ifs with hform hshort
    · rfl
    · rfl
    · rw [Checked.range_from pkt (by omega)]
      rfl

/-- The other end takes the header off if its own id is as long. -/
theorem QuicObfs.inner_wrap (q q' : QuicObfs) (rnd : UInt8) (datagram : List UInt8)
    (h : q'.dcidLen = q.dcidLen) : q'.inner (q.wrap rnd datagram).2 = some datagram := by
  obtain ⟨hform, hpn⟩ := first_byte rnd
  have hlen := q.wrap_length rnd datagram
  have hdrop : (q.wrap rnd datagram).2.drop (1 + q.dcidLen + PN_LEN) = datagram := by
    refine List.drop_left' ?_
    simp only [List.length_append, List.length_singleton, List.length_drop, length_toBE,
      q.length_dcid]
    rfl
  have hhead : (q.wrap rnd datagram).2.head? =
      some (0x40 ||| (rnd &&& 0x3C) ||| ((UInt8.ofNat PN_LEN - 1) &&& 0x03)) := rfl
  simp only [QuicObfs.inner, hhead]
  rw [if_neg hform, hpn, h, if_neg (by omega), hdrop]

/-! Base64. -/

/-- The byte of a place: a symbol of the alphabet, or padding. -/
def place : Option (Fin 64) → UInt8
  | some v => B64.getD v 0
  | none => 0x3D

/-- A symbol is found again in the reverse table, is not the padding, and prints. -/
theorem place_some : ∀ v : Fin 64,
    Checked.index B64 v = .ok (place (some v)) ∧
    Checked.index B64_REV (place (some v)).toNat = .ok (UInt8.ofNat v) ∧
    place (some v) ≠ 0x3D ∧ UInt8.ofNat v ≠ 0xFF ∧
    String.utf8EncodeChar (Char.ofNat (place (some v)).toNat) = [place (some v)] ∧
    0x20 ≤ place (some v) ∧ place (some v) ≤ 0x7E := by
  decide +kernel

theorem place_printable (d : Option (Fin 64)) : 0x20 ≤ place d ∧ place d ≤ 0x7E := by
  cases d with
  | none => decide
  | some v => exact (place_some v).2.2.2.2.2

/-- The character of a place. -/
def placeChar (d : Option (Fin 64)) : Char := Char.ofNat (place d).toNat

theorem encode_placeChar (ds : List (Option (Fin 64))) :
    Utf8.encode (ds.map placeChar) = ds.map place := by
  induction ds with
  | nil => rfl
  | cons d ds ih =>
    have hd : String.utf8EncodeChar (placeChar d) = [place d] := by
      cases d with
      | none => decide
      | some v => exact (place_some v).2.2.2.2.1
    rw [List.map_cons, Utf8.encode_cons, hd, ih]
    rfl

theorem b64Char_eq {i : BitVec 32} {v : Fin 64} (h : i.toNat = v) :
    b64Char i = .ok (placeChar (some v)) := by
  rw [b64Char, h, (place_some v).1]
  rfl

/-- The word that a chunk makes. -/
theorem toNat_chunk (a b c : UInt8) :
    (BitVec.ofNat 32 a.toNat <<< 16 ||| BitVec.ofNat 32 b.toNat <<< 8 |||
      BitVec.ofNat 32 c.toNat).toNat = group a b c := by
  have ha := a.toNat_lt
  have hb := b.toNat_lt
  have hc := c.toNat_lt
  have hlow : (BitVec.ofNat 32 b.toNat <<< 8 ||| BitVec.ofNat 32 c.toNat).toNat =
      b.toNat * 256 + c.toNat := by
    rw [toNat_shiftLeft_or _ (by decide) (by rw [BitVec.toNat_ofNat]; omega), BitVec.toNat_ofNat,
      BitVec.toNat_ofNat]
    omega
  rw [BitVec.or_assoc, toNat_shiftLeft_or _ (by decide) (by rw [hlow]; omega), hlow,
    BitVec.toNat_ofNat, group]
  omega

/-- Its four digits. -/
theorem toNat_digits {n : BitVec 32} {g : ℕ} (h : n.toNat = g) :
    ((n >>> 18) &&& 63).toNat = digit g 0 ∧ ((n >>> 12) &&& 63).toNat = digit g 1 ∧
    ((n >>> 6) &&& 63).toNat = digit g 2 ∧ (n &&& 63).toNat = digit g 3 := by
  have hcut : ∀ s, (n >>> s &&& 63).toNat = g / 2 ^ s % 2 ^ 6 := by
    intro s
    rw [← h]
    exact toNat_ushiftRight_and (k := 6) n s (by decide)
  refine ⟨hcut 18, hcut 12, hcut 6, ?_⟩
  have hzero := hcut 0
  rw [BitVec.ushiftRight_zero] at hzero
  exact hzero

/-- A chunk of one or two bytes is read as if zeros followed, and padded. -/
theorem encodeChunk_cons (a : UInt8) (rest : List UInt8) {g : ℕ}
    (hg : g = group a (rest[0]?.getD 0) (rest[1]?.getD 0)) :
    encodeChunk (a :: rest) = .ok ([some (digit g 0), some (digit g 1),
      if rest.length > 0 then some (digit g 2) else none,
      if rest.length > 1 then some (digit g 3) else none].map placeChar) := by
  obtain ⟨h0, h1, h2, h3⟩ := toNat_digits (toNat_chunk a (rest[0]?.getD 0) (rest[1]?.getD 0))
  rw [← hg] at h0 h1 h2 h3
  have hfirst : Checked.index (a :: rest) 0 = .ok a := rfl
  have hmore : ∀ k, rest.length + 1 > k + 1 ↔ rest.length > k := fun k => Nat.succ_lt_succ_iff
  unfold encodeChunk
  simp only [hfirst, List.getElem?_cons_succ, List.length_cons, bind, Except.bind,
    b64Char_eq h0, b64Char_eq h1, b64Char_eq h2, b64Char_eq h3, hmore 0, hmore 1]
  split_ifs <;> rfl

/-- The text of a datagram is its digits, place by place. -/
theorem base64Encode_eq (data : List UInt8) :
    base64Encode data = .ok ((digits data).map placeChar) := by
  induction data using digits.induct with
  | case1 => rfl
  | case2 a =>
    simp only [base64Encode, chunks3, List.mapM_cons, List.mapM_nil, encodeChunk_cons a [] rfl]
    rfl
  | case3 a b =>
    simp only [base64Encode, chunks3, List.mapM_cons, List.mapM_nil, encodeChunk_cons a [b] rfl]
    rfl
  | case4 a b c rest ih =>
    simp only [base64Encode, chunks3, List.mapM_cons, encodeChunk_cons a [b, c] rfl] at ih ⊢
    cases hrest : (chunks3 rest).mapM encodeChunk with
    | error e =>
      rw [hrest] at ih
      cases ih
    | ok out =>
      rw [hrest] at ih
      have hout : out.flatten = (digits rest).map placeChar := Except.ok.inj ih
      refine congrArg Except.ok ?_
      rw [List.flatten_cons, hout]
      rfl

theorem toNat_add_six {bits : BitVec 32} (hbits : bits.toNat < 8) :
    (bits + 6).toNat = bits.toNat + 6 := by
  have hsix : (6 : BitVec 32).toNat = 6 := rfl
  rw [BitVec.toNat_add, hsix, Nat.mod_eq_of_lt (by omega)]

/-- One turn of the decoder, with fewer than eight bits waiting. -/
theorem decodeLoop_cons (P : Platform) {c v : UInt8} (hc : c ≠ 0x3D)
    (hv : Checked.index B64_REV c.toNat = .ok v) (rest : List UInt8) (buf : BitVec 32)
    {bits : BitVec 32} (hbits : bits.toNat < 8) (out : List UInt8) :
    decodeLoop P (c :: rest) buf bits out =
      if v = 0xFF then Checked.ask none
      else if bits + 6 ≥ 8 then
        decodeLoop P rest (buf <<< 6 ||| BitVec.ofNat 32 v.toNat) (bits + 6 - 8)
          (out ++ [UInt8.ofNat ((buf <<< 6 ||| BitVec.ofNat 32 v.toNat) >>>
            (bits + 6 - 8).toNat).toNat])
      else decodeLoop P rest (buf <<< 6 ||| BitVec.ofNat 32 v.toNat) (bits + 6) out := by
  have hsix : (6 : BitVec 32).toNat = 6 := rfl
  have hadd : P.addU32 bits 6 = .ok (bits + 6) := by
    rw [Platform.addU32, if_pos (Or.inl (by omega))]
  have hsum := toNat_add_six hbits
  rw [decodeLoop, if_neg hc, hv, Checked.ok_bind]
  split_ifs with hff hge
  · rfl
  · have hle : (8 : BitVec 32) ≤ bits + 6 := hge
    have hsub : (bits + 6 - 8).toNat = bits.toNat + 6 - 8 := by
      rw [BitVec.toNat_sub_of_le hle, hsum]
      rfl
    have hshr : ∀ x : BitVec 32, shrU32 P x (bits + 6 - 8) = .ok (x >>> (bits + 6 - 8).toNat) := by
      intro x
      rw [shrU32, if_pos (Or.inl (by omega)), Nat.mod_eq_of_lt (by omega)]
    dsimp only
    rw [hadd, Checked.ok_bind, if_pos hge, hshr, Checked.ok_bind]
  · dsimp only
    rw [hadd, Checked.ok_bind, if_neg hge]

/-- Up to the padding, if there is any, a text has only symbols of the alphabet. -/
def Readable (input : List UInt8) : Prop :=
  ∀ c ∈ input.takeWhile (· ≠ 0x3D), B64.contains c = true

theorem readable_cons {c : UInt8} (hc : c ≠ 0x3D) (rest : List UInt8) :
    Readable (c :: rest) ↔ B64.contains c = true ∧ Readable rest := by
  rw [Readable, List.takeWhile_cons_of_pos (by simpa using hc), List.forall_mem_cons, Readable]

theorem exists_place {c : UInt8} (h : B64.contains c = true) : ∃ d : Fin 64, place (some d) = c := by
  obtain ⟨i, hi, rfl⟩ := List.getElem_of_mem (List.contains_iff_mem.1 h)
  have hlen : B64.length = 64 := by decide +kernel
  exact ⟨⟨i, hi.trans_eq hlen⟩, List.getD_eq_getElem B64 0 hi⟩

/-- The reverse table marks the bytes outside the alphabet. -/
theorem rev_eq_ff {c v : UInt8} (hv : Checked.index B64_REV c.toNat = .ok v) :
    v = 0xFF ↔ ¬ B64.contains c = true := by
  refine ⟨?_, ?_⟩
  · rintro rfl h
    obtain ⟨d, rfl⟩ := exists_place h
    obtain ⟨-, hrev, -, hff, -⟩ := place_some d
    exact hff (Except.ok.inj (hrev.symm.trans hv))
  · intro h
    -- only the entries of the symbols are written
    have hframe : B64_REV[c.toNat]? = (List.replicate 256 0xFF)[c.toNat]? := by
      refine foldl_frame (fun t : List UInt8 => t[c.toNat]?) ?_ _
      intro t e he
      refine List.getElem?_set_ne fun heq => h ?_
      rw [← UInt8.toNat_inj.1 heq]
      exact List.contains_iff_mem.2 (List.fst_mem_of_mem_zipIdx he)
    rw [Checked.index, hframe, List.getElem?_replicate_of_lt c.toNat_lt] at hv
    exact (Except.ok.inj hv).symm

/-- The decoder never panics, and reads exactly the texts of the alphabet. -/
theorem decodeLoop_readable (P : Platform) (input : List UInt8) : ∀ (buf bits : BitVec 32)
    (out : List UInt8), bits.toNat < 8 →
    ∃ r, decodeLoop P input buf bits out = Checked.ask r ∧ (r.isSome = true ↔ Readable input) := by
  induction input with
  | nil =>
    intro buf bits out _
    exact ⟨some out, rfl, iff_of_true rfl (List.forall_mem_nil _)⟩
  | cons c rest ih =>
    intro buf bits out hbits
    by_cases hc : c = 0x3D
    · refine ⟨some out, by rw [decodeLoop, if_pos hc]; rfl, iff_of_true rfl ?_⟩
      rw [Readable, List.takeWhile_cons_of_neg (by simpa using hc)]
      exact List.forall_mem_nil _
    · have height : (8 : BitVec 32).toNat = 8 := rfl
      have hlen : B64_REV.length = 256 := by decide +kernel
      have hlt := c.toNat_lt
      have hindex : Checked.index B64_REV c.toNat = _ := Checked.index_eq (by omega)
      have hrev := rev_eq_ff hindex
      rw [decodeLoop_cons P hc hindex rest buf hbits out, readable_cons hc]
      split_ifs with hff hge
      · exact ⟨none, rfl, iff_of_false Bool.false_ne_true fun h => hrev.1 hff h.1⟩
      all_goals
        rw [and_iff_right (not_not.1 (mt hrev.2 hff))]
        apply ih
      · rw [BitVec.toNat_sub_of_le hge, toNat_add_six hbits]
        omega
      · have hlt' := BitVec.lt_def.1 (BitVec.not_le.1 hge)
        rw [height] at hlt'
        exact hlt'

/-- The accumulator after one more digit. -/
def push (buf : BitVec 32) (d : Fin 64) : BitVec 32 := buf <<< 6 ||| BitVec.ofNat 32 d

theorem toNat_push (buf : BitVec 32) (d : Fin 64) :
    (push buf d).toNat = (buf.toNat * 64 + d) % 2 ^ 32 := by
  have hd : (BitVec.ofNat 32 d).toNat = d := by
    rw [BitVec.toNat_ofNat, Nat.mod_eq_of_lt (by omega)]
  rw [push, toNat_shiftLeft_or (k := 6) buf (by decide) (by rw [hd]; exact d.isLt), hd]
  rfl

theorem toNat_ofNat_digit (d : Fin 64) : (UInt8.ofNat d).toNat = d := by
  rw [UInt8.toNat_ofNat', Nat.mod_eq_of_lt (by omega)]

/-- A digit that completes no byte. -/
theorem decodeLoop_first (P : Platform) (d : Fin 64) (rest : List UInt8) (buf : BitVec 32)
    (out : List UInt8) :
    decodeLoop P (place (some d) :: rest) buf 0 out = decodeLoop P rest (push buf d) 6 out := by
  obtain ⟨-, hrev, hne, hff, -⟩ := place_some d
  rw [decodeLoop_cons P hne hrev rest buf (by decide) out, if_neg hff, if_neg (by decide),
    toNat_ofNat_digit]
  rfl

/-- A digit that completes the byte `x`, and leaves `k` bits waiting. -/
theorem decodeLoop_byte (P : Platform) (d : Fin 64) (rest : List UInt8) (buf : BitVec 32)
    {bits : BitVec 32} {k : ℕ} (hbits : bits.toNat < 8 ∧ 8 ≤ bits + 6)
    (hk : bits + 6 - 8 = BitVec.ofNat 32 k ∧ k < 32) (out : List UInt8) {x : UInt8}
    (hx : (push buf d).toNat / 2 ^ k % 256 = x.toNat) :
    decodeLoop P (place (some d) :: rest) buf bits out =
      decodeLoop P rest (push buf d) (BitVec.ofNat 32 k) (out ++ [x]) := by
  obtain ⟨-, hrev, hne, hff, -⟩ := place_some d
  have hwait : (BitVec.ofNat 32 k).toNat = k := by
    rw [BitVec.toNat_ofNat, Nat.mod_eq_of_lt (by omega)]
  have hbyte : UInt8.ofNat (push buf d >>> (BitVec.ofNat 32 k).toNat).toNat = x := by
    apply UInt8.toNat_inj.1
    rw [UInt8.toNat_ofNat', BitVec.toNat_ushiftRight, Nat.shiftRight_eq_div_pow, hwait]
    exact hx
  rw [decodeLoop_cons P hne hrev rest buf hbits.1 out, if_neg hff, if_pos hbits.2,
    toNat_ofNat_digit, hk.1, show buf <<< 6 ||| BitVec.ofNat 32 d = push buf d from rfl, hbyte]

/-- The accumulator keeps the digits of a group, whatever was in it before. -/
theorem push_bytes (a b c : UInt8) (buf : BitVec 32) :
    (push (push buf (digit (group a b c) 0)) (digit (group a b c) 1)).toNat / 2 ^ 4 % 256 = a.toNat ∧
    (push (push (push buf (digit (group a b c) 0)) (digit (group a b c) 1))
      (digit (group a b c) 2)).toNat / 2 ^ 2 % 256 = b.toNat ∧
    (push (push (push (push buf (digit (group a b c) 0)) (digit (group a b c) 1))
      (digit (group a b c) 2)) (digit (group a b c) 3)).toNat / 2 ^ 0 % 256 = c.toNat := by
  obtain ⟨ha, hb, hc⟩ := group_bytes a b c buf.toNat
  simp only [toNat_push]
  refine ⟨?_, ?_, ?_⟩
  · omega
  · omega
  · omega

/-- A whole group leaves nothing waiting. -/
theorem decodeLoop_group (P : Platform) (a b c : UInt8) (rest : List UInt8) (buf : BitVec 32)
    (out : List UInt8) :
    ∃ buf', decodeLoop P (place (some (digit (group a b c) 0)) ::
      place (some (digit (group a b c) 1)) :: place (some (digit (group a b c) 2)) ::
      place (some (digit (group a b c) 3)) :: rest) buf 0 out =
        decodeLoop P rest buf' 0 (out ++ [a, b, c]) := by
  obtain ⟨ha, hb, hc⟩ := push_bytes a b c buf
  rw [decodeLoop_first, decodeLoop_byte P _ _ _ (by decide) (by decide) out ha,
    decodeLoop_byte P _ _ _ (by decide) (by decide) _ hb,
    decodeLoop_byte P _ _ _ (by decide) (by decide) _ hc, List.append_assoc, List.append_assoc]
  exact ⟨_, rfl⟩

/-- The digits of a datagram decode to it. -/
theorem decodeLoop_digits (P : Platform) (data : List UInt8) : ∀ (buf : BitVec 32)
    (out : List UInt8), decodeLoop P ((digits data).map place) buf 0 out = pure (out ++ data) := by
  induction data using digits.induct with
  | case1 =>
    intro buf out
    rw [List.append_nil]
    rfl
  | case2 a =>
    intro buf out
    obtain ⟨ha, -, -⟩ := push_bytes a 0 0 buf
    simp only [digits, List.map_cons]
    rw [decodeLoop_first, decodeLoop_byte P _ _ _ (by decide) (by decide) out ha]
    rfl
  | case3 a b =>
    intro buf out
    obtain ⟨ha, hb, -⟩ := push_bytes a b 0 buf
    simp only [digits, List.map_cons]
    rw [decodeLoop_first, decodeLoop_byte P _ _ _ (by decide) (by decide) out ha,
      decodeLoop_byte P _ _ _ (by decide) (by decide) _ hb, List.append_assoc]
    rfl
  | case4 a b c rest ih =>
    intro buf out
    simp only [digits, List.map_cons]
    obtain ⟨buf', heq⟩ := decodeLoop_group P a b c ((digits rest).map place) buf out
    rw [heq, ih, List.append_assoc]
    rfl

/-- A text of whole groups, of which the last may be padded and then ends in zero bits. -/
def CanonicalText (input : List UInt8) : Prop := ∃ ds, Canonical ds ∧ ds.map place = input

/-- The canonical texts are those that the encoder writes, and it writes what they decode to. -/
theorem base64Encode_of_canonical (P : Platform) {input d : List UInt8} (h : CanonicalText input)
    (hd : base64Decode P input = Checked.ask (some d)) :
    (base64Encode d).map Utf8.encode = .ok input := by
  obtain ⟨ds, hcanonical, rfl⟩ := h
  obtain ⟨data, rfl⟩ := exists_digits hcanonical
  have hdata : base64Decode P ((digits data).map place) = Checked.ask (some data) :=
    decodeLoop_digits P data 0 []
  rw [hdata] at hd
  obtain rfl : data = d := Option.some.inj (Except.ok.inj hd)
  rw [base64Encode_eq]
  exact congrArg Except.ok (encode_placeChar (digits data))

theorem canonicalText_of_base64Encode {input d : List UInt8}
    (h : (base64Encode d).map Utf8.encode = .ok input) : CanonicalText input := by
  rw [base64Encode_eq] at h
  refine ⟨digits d, canonical_digits d, ?_⟩
  rw [← encode_placeChar]
  exact Except.ok.inj h

end ShadowVpn
