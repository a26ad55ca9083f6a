import ShadowVpn.Spec.Wire

/-! The envelope of a packet (`crypto.rs`): a random salt, and the packet sealed under a key
derived from the master key and the salt. -/

namespace ShadowVpn

open Lib

def NONCE_LEN : ℕ := 12

def TAG_LEN : ℕ := 16

def MAX_KEY_LEN : ℕ := 32

def SS_SUBKEY_INFO : List UInt8 := asBytes "ss-subkey".toList

inductive CryptoError where
  | unknownCipher (name : Text)
  | tooShort (got need : ℕ)
  | hkdf
  | aead
deriving DecidableEq

inductive Cipher where
  | aes128Gcm
  | aes256Gcm
  | chaCha20Poly1305
deriving DecidableEq

namespace Cipher

def fromName (name : Text) : Except CryptoError Cipher :=
  if name = "aes-128-gcm".toList then .ok .aes128Gcm
  else if name = "aes-256-gcm".toList then .ok .aes256Gcm
  else if name = "chacha20-poly1305".toList ∨ name = "chacha20-ietf-poly1305".toList then
    .ok .chaCha20Poly1305
  else .error (.unknownCipher name)

def keyLen : Cipher → ℕ
  | aes128Gcm => 16
  | aes256Gcm => 32
  | chaCha20Poly1305 => 32

def saltLen (c : Cipher) : ℕ := c.keyLen

end Cipher

/-- An algorithm of the AEAD libraries, which works in place with a detached tag. It opens
exactly what it seals; it may refuse to seal, as they do beyond a length. -/
structure Aead where
  encryptDetached : (key nonce aad buf : List UInt8) → Option (List UInt8 × List UInt8)
  decryptDetached : (key nonce aad buf tag : List UInt8) → Option (List UInt8)
  length_eq : ∀ {key nonce aad buf sealed tag},
    encryptDetached key nonce aad buf = some (sealed, tag) →
      sealed.length = buf.length ∧ tag.length = TAG_LEN
  decrypt_iff : ∀ {key nonce aad buf sealed tag},
    decryptDetached key nonce aad sealed tag = some buf ↔
      encryptDetached key nonce aad buf = some (sealed, tag)

/-- The primitives that come from other crates. -/
structure Primitives where
  aead : Cipher → Aead
  hkdfSha1 : (salt ikm info : List UInt8) → (len : ℕ) → { okm : List UInt8 // okm.length = len }
  md5 : List UInt8 → { digest : List UInt8 // digest.length = 16 }

section

variable (L : Primitives)

/-- The loop of `evp_bytes_to_key`. -/
def evpLoop (password : List UInt8) (keyLen : ℕ) (key prev : List UInt8) : List UInt8 :=
  if key.length < keyLen then
    evpLoop password keyLen (key ++ (L.md5 (prev ++ password)).1) (L.md5 (prev ++ password)).1
  else key.take keyLen
termination_by keyLen - key.length
decreasing_by
  rw [List.length_append, (L.md5 (prev ++ password)).2]
  omega

def evpBytesToKey (password : List UInt8) (keyLen : ℕ) : List UInt8 :=
  evpLoop L password keyLen [] []

/-- `len` is the length of the caller's slice; HKDF gives at most 255 digests. -/
def deriveSubkey (masterKey salt : List UInt8) (len : ℕ) : Except CryptoError (List UInt8) :=
  if len ≤ 255 * 20 then .ok (L.hkdfSha1 salt masterKey SS_SUBKEY_INFO len).1 else .error .hkdf

def ZERO_NONCE : List UInt8 := List.replicate NONCE_LEN 0

def aeadSealInPlace (cipher : Cipher) (subkey buf : List UInt8) :
    Except CryptoError (List UInt8 × List UInt8) :=
  if subkey.length = cipher.keyLen then
    match (L.aead cipher).encryptDetached subkey ZERO_NONCE [] buf with
    | some r => .ok r
    | none => .error .aead
  else .error .aead

def aeadOpenInPlace (cipher : Cipher) (subkey buf tag : List UInt8) :
    Except CryptoError (List UInt8) :=
  if subkey.length = cipher.keyLen ∧ tag.length = TAG_LEN then
    match (L.aead cipher).decryptDetached subkey ZERO_NONCE [] buf tag with
    | some r => .ok r
    | none => .error .aead
  else .error .aead

/-- `&mut subkey[..cipher.key_len()]` of the array on the stack, and what is written to it. -/
def subkeyFor (cipher : Cipher) (masterKey salt : List UInt8) :
    ExceptT CryptoError (Except Panic) (List UInt8) := do
  let slice ← ExceptT.lift (Checked.range (List.replicate MAX_KEY_LEN 0) 0 cipher.keyLen)
  ExceptT.mk (.ok (deriveSubkey L masterKey salt slice.length))

/-- What the random generator writes to the front of a datagram. -/
abbrev Salt (cipher : Cipher) := { salt : List UInt8 // salt.length = cipher.saltLen }

def encryptPacket (cipher : Cipher) (masterKey plaintext : List UInt8) (salt : Salt cipher) :
    ExceptT CryptoError (Except Panic) (List UInt8) := do
  let subkey ← subkeyFor L cipher masterKey salt.1
  let datagram := salt.1 ++ plaintext
  let r ← ExceptT.mk (.ok (aeadSealInPlace L cipher subkey (datagram.drop cipher.saltLen)))
  return datagram.take cipher.saltLen ++ r.1 ++ r.2

def decryptPacket (P : Platform) (cipher : Cipher) (masterKey datagram : List UInt8) :
    ExceptT CryptoError (Except Panic) (List UInt8) :=
  let need := cipher.saltLen + TAG_LEN
  if datagram.length < need then throw (.tooShort datagram.length need)
  else do
    let front ← ExceptT.lift (Checked.splitAt datagram cipher.saltLen)
    let subkey ← subkeyFor L cipher masterKey front.1
    let mid ← ExceptT.lift (P.subUsize front.2.length TAG_LEN)
    let rest ← ExceptT.lift (Checked.splitAt front.2 mid)
    ExceptT.mk (.ok (aeadOpenInPlace L cipher subkey rest.1 rest.2))

end

end ShadowVpn
