import ShadowVpn.Sanity.Carrier

/-! Packets over the wire: both layers together give a packet back, and whatever arrives is
dropped unless it is a packet sealed under its own salt. -/

namespace ShadowVpn

open Lib Base64

variable {L : Primitives} {P : Platform} {cipher : Cipher} {masterKey : List UInt8}

/-- The same disguise at both ends, with connection ids of eight bytes. -/
inductive Obfuscator.Agrees : Option Obfuscator → Option Obfuscator → Prop
  | plain : Agrees none none
  | quic {q q' : QuicObfs} (h : q.dcidLen = DEFAULT_DCID_LEN) (h' : q'.dcidLen = DEFAULT_DCID_LEN) :
      Agrees (some (.quic q)) (some (.quic q'))
  | base64 : Agrees (some .base64) (some .base64)

theorem Obfuscator.fromName_agrees (name : Option Text)
    (dcid dcid' : { d : List UInt8 // d.length = DEFAULT_DCID_LEN }) (pn pn' : BitVec 32) :
    Agrees (name.bind (fromName · dcid pn)) (name.bind (fromName · dcid' pn')) := by
  cases name with
  | none => exact .plain
  | some name =>
    simp only [Option.bind_some, fromName]
    split_ifs
    · exact .quic rfl rfl
    · exact .base64
    · exact .plain

def wireLength (o : Option Obfuscator) (n : ℕ) : ℕ :=
  match o with
  | none => n
  | some (.quic _) => n + 11
  | some .base64 => 4 * ((n + 2) / 3)

def Printable (o : Option Obfuscator) (wire : List UInt8) : Prop :=
  o = some .base64 → ∀ b ∈ wire, 0x20 ≤ b ∧ b ≤ 0x7E

theorem Obfuscator.unwrap_wrap {o o' : Obfuscator} (h : Agrees (some o) (some o')) (rnd : UInt8)
    (datagram : List UInt8) :
    ∃ r, o.wrap rnd datagram = .ok r ∧ o'.unwrap P r.2 = pure datagram ∧
      r.2.length = wireLength (some o) datagram.length ∧ Printable (some o) r.2 := by
  cases h with
  | @quic q q' hlen hlen' =>
    refine ⟨_, rfl, ?_, ?_, fun h => by cases h⟩
    · change q'.unwrap (q.wrap rnd datagram).2 = _
      rw [QuicObfs.unwrap_eq, QuicObfs.inner_wrap q q' rnd datagram (hlen'.trans hlen.symm)]
      rfl
    · rw [QuicObfs.wrap_length, hlen, Nat.add_comm]
      rfl
  | base64 =>
    refine ⟨(.base64, (digits datagram).map place), ?_, decodeLoop_digits P datagram 0 [], ?_, ?_⟩
    · simp only [Obfuscator.wrap, base64Encode_eq, bind, Except.bind, encode_placeChar]
      rfl
    · rw [List.length_map, length_digits]
      rfl
    · intro _ b hb
      obtain ⟨d, -, rfl⟩ := List.mem_map.1 hb
      exact place_printable d

theorem deobfuscate_total (P : Platform) (o : Option Obfuscator) (pkt : List UInt8) :
    ∃ r, deobfuscate P o pkt = Checked.ask r := by
  cases o with
  | none => exact ⟨some pkt, rfl⟩
  | some o =>
    cases o with
    | quic q => exact ⟨q.inner pkt, q.unwrap_eq pkt⟩
    | base64 =>
      obtain ⟨r, hr, -⟩ := decodeLoop_readable P pkt 0 0 [] (by decide)
      exact ⟨r, hr⟩

theorem receivePacket_eq {o : Option Obfuscator} {pkt datagram : List UInt8}
    {r : Except CryptoError (List UInt8)} (h : deobfuscate P o pkt = pure datagram)
    (hr : decryptPacket L P cipher masterKey datagram = .ok r) :
    receivePacket L P cipher masterKey o pkt = .ok (match r with
      | .ok plaintext => .packet plaintext
      | .error e => .undecryptable e) := by
  have hrun : (decryptPacket L P cipher masterKey datagram).run = .ok r := hr
  have hdatagram : (deobfuscate P o pkt).run = .ok (some datagram) := by
    rw [h]
    rfl
  simp only [receivePacket, hdatagram, hrun, bind, Except.bind]
  cases r <;> rfl

theorem receivePacket_total (L : Primitives) (P : Platform) (cipher : Cipher)
    (masterKey : List UInt8) (o : Option Obfuscator) (pkt : List UInt8) :
    ∃ r, receivePacket L P cipher masterKey o pkt = .ok r := by
  obtain ⟨r, hr⟩ := deobfuscate_total P o pkt
  cases r with
  | none =>
    refine ⟨.notObfs, ?_⟩
    simp only [receivePacket, hr]
    rfl
  | some datagram => exact ⟨_, receivePacket_eq hr (decryptPacket_eq datagram)⟩

/-- What the carrier makes of a packet: nothing if the cipher refuses to seal it, and
otherwise a packet of the wire that the other end opens again. -/
theorem sendPacket_cases (plaintext : List UInt8) (salt : Salt cipher) {o o' : Option Obfuscator}
    (h : Obfuscator.Agrees o o') (rnd : UInt8) :
    (L.seal cipher masterKey salt.1 plaintext = none ∧
      sendPacket L cipher masterKey plaintext salt o rnd = .ok (.error .aead)) ∨
    ∃ r, sendPacket L cipher masterKey plaintext salt o rnd = .ok (.ok r) ∧
      receivePacket L P cipher masterKey o' r.2 = .ok (.packet plaintext) ∧
      r.2.length = wireLength o (cipher.saltLen + plaintext.length + TAG_LEN) ∧
      Printable o r.2 := by
  cases hseal : L.seal cipher masterKey salt.1 plaintext with
  | none =>
    refine Or.inl ⟨rfl, ?_⟩
    rw [sendPacket, encryptPacket_eq, hseal]
    rfl
  | some sealed =>
    right
    have hlen : (salt.1 ++ sealed).length = cipher.saltLen + plaintext.length + TAG_LEN := by
      rw [List.length_append, salt.2, seal_length hseal, Nat.add_assoc]
    have hopen : decryptPacket L P cipher masterKey (salt.1 ++ sealed) = .ok (.ok plaintext) := by
      refine decryptPacket_eq_ok.2 ⟨sealed, ?_, ?_⟩
      · rw [List.take_left' salt.2]
        exact hseal
      · rw [List.take_left' salt.2]
    have hsome : ∀ {x y : Obfuscator}, Obfuscator.Agrees (some x) (some y) →
        ∃ r, sendPacket L cipher masterKey plaintext salt (some x) rnd = .ok (.ok r) ∧
          receivePacket L P cipher masterKey (some y) r.2 = .ok (.packet plaintext) ∧
          r.2.length = wireLength (some x) (cipher.saltLen + plaintext.length + TAG_LEN) ∧
          Printable (some x) r.2 := by
      intro x y hxy
      obtain ⟨r, hwrap, hunwrap, hwire, hprint⟩ :=
        Obfuscator.unwrap_wrap (P := P) hxy rnd (salt.1 ++ sealed)
      refine ⟨(some r.1, r.2), ?_, receivePacket_eq (o := some y) hunwrap hopen, by rw [← hlen]; exact hwire,
        hprint⟩
      rw [sendPacket, encryptPacket_eq, hseal]
      change (ExceptT.lift (x.wrap rnd (salt.1 ++ sealed)) >>= fun r =>
        (pure (some r.1, r.2) : ExceptT CryptoError (Except Panic) _)) = _
      rw [hwrap]
      rfl
    cases h with
    | plain =>
      refine ⟨(none, salt.1 ++ sealed), ?_, receivePacket_eq rfl hopen, hlen, fun h => by cases h⟩
      rw [sendPacket, encryptPacket_eq, hseal]
      rfl
    | quic h h' => exact hsome (.quic h h')
    | base64 => exact hsome .base64

/-- With both ends set up from the same name, each with its own connection id and packet
number, a packet that the cipher seals reaches the other end, and its length on the wire is
that of the salt, the packet and the tag under the disguise; base64 is printable. Whatever
arrives, no panic comes of it, and a datagram is opened only if it is its salt followed by
the packet sealed under that salt. -/
theorem carrier_sound (L : Primitives) (P : Platform) (cipher : Cipher)
    (masterKey plaintext : List UInt8) (salt : Salt cipher) (name : Option Text)
    (dcid dcid' : { d : List UInt8 // d.length = DEFAULT_DCID_LEN }) (pn pn' : BitVec 32)
    (rnd : UInt8) :
    ((L.seal cipher masterKey salt.1 plaintext = none ∧
        sendPacket L cipher masterKey plaintext salt
          (name.bind (Obfuscator.fromName · dcid pn)) rnd = .ok (.error .aead)) ∨
      ∃ r, sendPacket L cipher masterKey plaintext salt
          (name.bind (Obfuscator.fromName · dcid pn)) rnd = .ok (.ok r) ∧
        receivePacket L P cipher masterKey (name.bind (Obfuscator.fromName · dcid' pn')) r.2 =
          .ok (.packet plaintext) ∧
        r.2.length = wireLength (name.bind (Obfuscator.fromName · dcid pn))
          (cipher.saltLen + plaintext.length + 16) ∧
        Printable (name.bind (Obfuscator.fromName · dcid pn)) r.2) ∧
    (∀ o pkt, (∃ r, (deobfuscate P o pkt).run = .ok r) ∧
      ∃ r, receivePacket L P cipher masterKey o pkt = .ok r) ∧
    ∀ datagram, ∃ r, decryptPacket L P cipher masterKey datagram = .ok r ∧
      ∀ p, r = .ok p → ∃ sealed,
        L.seal cipher masterKey (datagram.take cipher.saltLen) p = some sealed ∧
          datagram = datagram.take cipher.saltLen ++ sealed := by
  refine ⟨sendPacket_cases plaintext salt (Obfuscator.fromName_agrees name dcid dcid' pn pn') rnd,
    ?_, ?_⟩
  · intro o pkt
    obtain ⟨r, hr⟩ := deobfuscate_total P o pkt
    exact ⟨⟨r, by rw [hr]; rfl⟩, receivePacket_total L P cipher masterKey o pkt⟩
  · intro datagram
    refine ⟨_, decryptPacket_eq datagram, ?_⟩
    intro p hp
    exact (decryptPacket_eq_ok (P := P)).1 (by rw [decryptPacket_eq, hp])

/-- A cipher that hides nothing, with a fixed tag. -/
def Sample.aead (tag : List UInt8) (h : tag.length = TAG_LEN) : Aead where
  encryptDetached _ _ _ buf := some (buf, tag)
  decryptDetached _ _ _ buf t := if t = tag then some buf else none
  length_eq := by
    intro key nonce aad buf sealed t heq
    cases heq
    exact ⟨rfl, h⟩
  decrypt_iff := by
    intro key nonce aad buf sealed t
    rw [Option.some.injEq, Prod.mk.injEq]
    split_ifs with ht
    · exact ⟨fun heq => ⟨(Option.some.inj heq).symm, ht.symm⟩, fun heq => congrArg some heq.1.symm⟩
    · exact ⟨fun heq => (by cases heq), fun heq => absurd heq.2.symm ht⟩

def Sample.primitives : Primitives where
  aead _ := Sample.aead (List.replicate 16 0xAA) rfl
  hkdfSha1 _ _ _ len := ⟨List.replicate len 0, List.length_replicate⟩
  md5 _ := ⟨List.replicate 16 0, rfl⟩

def Sample.bare : Platform where
  sha256 _ := ⟨List.replicate 32 0, rfl⟩
  isSupernetOf4 _ _ := false
  isSupernetOf6 _ _ := false
  overflowChecks := true

/-- A packet of one byte, disguised as base64: with the salt and the tag it is 33 bytes. -/
theorem carrier_sound_base64 : ∃ r : Option Obfuscator × List UInt8,
    sendPacket Sample.primitives .aes128Gcm [1, 2] [0x45] ⟨List.replicate 16 7, rfl⟩ (some .base64)
      0 = .ok (.ok r) ∧
    r.2.length = 44 ∧ Printable (some .base64) r.2 ∧
    ∀ P, receivePacket Sample.primitives P .aes128Gcm [1, 2] (some .base64) r.2 =
      .ok (.packet [0x45]) := by
  obtain ⟨r, hr⟩ : ∃ r, sendPacket Sample.primitives .aes128Gcm [1, 2] [0x45]
      ⟨List.replicate 16 7, rfl⟩ (some .base64) 0 = .ok (.ok r) ∧ r.2.length = 44 :=
    ⟨_, rfl, by decide +kernel⟩
  have hall : ∀ P, Printable (some .base64) r.2 ∧
      receivePacket Sample.primitives P .aes128Gcm [1, 2] (some .base64) r.2 =
        .ok (.packet [0x45]) := by
    intro P
    obtain ⟨hsent, -, -⟩ := carrier_sound Sample.primitives P .aes128Gcm [1, 2] [0x45]
      ⟨List.replicate 16 7, rfl⟩ (some "base64".toList) ⟨List.replicate DEFAULT_DCID_LEN 0, rfl⟩
      ⟨List.replicate DEFAULT_DCID_LEN 1, rfl⟩ 0 1 0
    rcases hsent with ⟨hnone, -⟩ | ⟨r', hsend, hreceive, -, hprintable⟩
    · cases hnone
    · cases hr.1.symm.trans hsend
      exact ⟨hprintable, hreceive⟩
  exact ⟨r, hr.1, hr.2, (hall Sample.bare).1, fun P => (hall P).2⟩

/-! Base64 as a code. -/

/-- What the decoder takes is what the encoder writes, exactly if the text is canonical as soon as
the decoder can read it. On canonical texts the decoder is injective. -/
theorem base64_canonical_iff (P : Platform) (x y : List UInt8) :
    ((∀ d, base64Decode P x = Checked.ask (some d) → (base64Encode d).map Utf8.encode = .ok x) ↔
      (Readable x → CanonicalText x)) ∧
    (CanonicalText x → CanonicalText y → ∀ d, base64Decode P x = Checked.ask (some d) →
      base64Decode P y = Checked.ask (some d) → x = y) := by
  obtain ⟨r, hr, hreadable⟩ := decodeLoop_readable P x 0 0 [] (by decide)
  refine ⟨⟨?_, ?_⟩, ?_⟩
  · intro h hx
    obtain ⟨d, rfl⟩ := Option.isSome_iff_exists.1 (hreadable.2 hx)
    exact canonicalText_of_base64Encode (h d hr)
  · intro h d hd
    refine base64Encode_of_canonical P (h (hreadable.1 ?_)) hd
    obtain rfl : r = some d := Except.ok.inj (hr.symm.trans hd)
    rfl
  · intro hx hy d hdx hdy
    exact Except.ok.inj ((base64Encode_of_canonical P hx hdx).symm.trans
      (base64Encode_of_canonical P hy hdy))

/-- `QQ==` is what the byte 0x41 is written as. Without padding, with bits left over, and with
anything after the padding it is read as the same byte, and a lone symbol as nothing. -/
theorem base64_not_canonical :
    (base64Encode [0x41]).map Utf8.encode = .ok [0x51, 0x51, 0x3D, 0x3D] ∧
    ∀ P, base64Decode P [0x51, 0x51, 0x3D, 0x3D] = Checked.ask (some [0x41]) ∧
      base64Decode P [0x51, 0x51] = Checked.ask (some [0x41]) ∧
      base64Decode P [0x51, 0x52, 0x3D, 0x3D] = Checked.ask (some [0x41]) ∧
      base64Decode P [0x51, 0x51, 0x3D, 0x21] = Checked.ask (some [0x41]) ∧
      base64Decode P [0x51] = Checked.ask (some []) := by
  refine ⟨by decide +kernel, ?_⟩
  intro P
  exact ⟨rfl, rfl, rfl, rfl, rfl⟩

end ShadowVpn
