import ShadowVpn.Spec.Crypto

/-! What a datagram looks like on the wire (`obfs.rs`): as it is, behind the header of a QUIC
packet, or as base64. -/

namespace ShadowVpn

open Lib

def DEFAULT_DCID_LEN : ℕ := 8

def PN_LEN : ℕ := 2

/-- The connection id and the packet number of one end. -/
structure QuicObfs where
  dcid : List UInt8
  dcidLen : ℕ
  pn : BitVec 32
  length_dcid : dcid.length = dcidLen

namespace QuicObfs

/-- The id and the seed are random. -/
def new (dcidLen : ℕ) (dcid : { d : List UInt8 // d.length = dcidLen }) (seed : BitVec 32) :
    QuicObfs :=
  ⟨dcid.1, dcidLen, seed, dcid.2⟩

/-- `rnd` is the random byte. The packet number wraps, as an atomic counter does. -/
def wrap (q : QuicObfs) (rnd : UInt8) (datagram : List UInt8) : QuicObfs × List UInt8 :=
  let first := 0x40 ||| (rnd &&& 0x3C) ||| ((UInt8.ofNat PN_LEN - 1) &&& 0x03)
  ({ q with pn := q.pn + 1 },
    [first] ++ q.dcid ++ (toBE 4 q.pn.toNat).drop (4 - PN_LEN) ++ datagram)

def unwrap (q : QuicObfs) (pkt : List UInt8) : Checked (List UInt8) := do
  let first ← Checked.ask pkt.head?
  if first &&& 0x80 ≠ 0 ∨ first &&& 0x40 = 0 then Checked.ask none
  else
    let pnLen := (first &&& 0x03).toNat + 1
    let hdr := 1 + q.dcidLen + pnLen
    if pkt.length < hdr then Checked.ask none
    else
      let datagram ← Checked.range pkt hdr pkt.length
      return datagram

end QuicObfs

/-! Base64. -/

def B64 : List UInt8 :=
  "ABCDEFGHIJKLMNOPQRSTUVWXYZabcdefghijklmnopqrstuvwxyz0123456789+/".toList.map fun c =>
    UInt8.ofNat c.toNat

/-- The table from a byte to its digit; 0xFF marks the bytes outside the alphabet. -/
def B64_REV : List UInt8 :=
  (B64.zipIdx).foldl (fun t e => t.set e.1.toNat (UInt8.ofNat e.2)) (List.replicate 256 0xFF)

/-- `data.chunks(3)`. -/
def chunks3 : List UInt8 → List (List UInt8)
  | [] => []
  | [a] => [[a]]
  | [a, b] => [[a, b]]
  | a :: b :: c :: rest => [a, b, c] :: chunks3 rest

/-- `B64[i] as char`. -/
def b64Char (i : BitVec 32) : Except Panic Char := do
  let byte ← Checked.index B64 i.toNat
  return Char.ofNat byte.toNat

/-- The body of the loop over the chunks. -/
def encodeChunk (chunk : List UInt8) : Except Panic Text := do
  let b0 ← Checked.index chunk 0
  let b1 := (chunk[1]?).getD 0
  let b2 := (chunk[2]?).getD 0
  let n : BitVec 32 :=
    BitVec.ofNat 32 b0.toNat <<< 16 ||| BitVec.ofNat 32 b1.toNat <<< 8 ||| BitVec.ofNat 32 b2.toNat
  let c0 ← b64Char ((n >>> 18) &&& 63)
  let c1 ← b64Char ((n >>> 12) &&& 63)
  let c2 ← if chunk.length > 1 then b64Char ((n >>> 6) &&& 63) else pure '='
  let c3 ← if chunk.length > 2 then b64Char (n &&& 63) else pure '='
  return [c0, c1, c2, c3]

def base64Encode (data : List UInt8) : Except Panic Text := do
  let out ← (chunks3 data).mapM encodeChunk
  return out.flatten

/-- `buf >> bits`, which panics if nothing of the word is left. -/
def shrU32 (P : Platform) (buf bits : BitVec 32) : Except Panic (BitVec 32) :=
  if bits.toNat < 32 ∨ P.overflowChecks = false then .ok (buf >>> (bits.toNat % 32))
  else .error .overflow

/-- The loop of `base64_decode`. -/
def decodeLoop (P : Platform) :
    List UInt8 → BitVec 32 → BitVec 32 → List UInt8 → Checked (List UInt8)
  | [], _, _, out => pure out
  | c :: rest, buf, bits, out =>
    if c = 0x3D then pure out
    else do
      let v ← Checked.index B64_REV c.toNat
      if v = 0xFF then Checked.ask none
      else
        let buf := buf <<< 6 ||| BitVec.ofNat 32 v.toNat
        let bits ← P.addU32 bits 6
        if bits ≥ 8 then
          let bits := bits - 8
          let byte ← shrU32 P buf bits
          decodeLoop P rest buf bits (out ++ [UInt8.ofNat byte.toNat])
        else decodeLoop P rest buf bits out

def base64Decode (P : Platform) (input : List UInt8) : Checked (List UInt8) :=
  decodeLoop P input 0 0 []

/-! The carrier. -/

inductive Obfuscator where
  | quic (q : QuicObfs)
  | base64

namespace Obfuscator

def fromName (name : Text) (dcid : { d : List UInt8 // d.length = DEFAULT_DCID_LEN })
    (seed : BitVec 32) : Option Obfuscator :=
  if name = "quic".toList then some (.quic (.new DEFAULT_DCID_LEN dcid seed))
  else if name = "base64".toList then some .base64
  else none

def wrap (o : Obfuscator) (rnd : UInt8) (datagram : List UInt8) :
    Except Panic (Obfuscator × List UInt8) :=
  match o with
  | .quic q => .ok (.quic (q.wrap rnd datagram).1, (q.wrap rnd datagram).2)
  | .base64 => do
    let text ← base64Encode datagram
    return (.base64, Utf8.encode text)

def unwrap (P : Platform) (o : Obfuscator) (pkt : List UInt8) : Checked (List UInt8) :=
  match o with
  | .quic q => q.unwrap pkt
  | .base64 => base64Decode P pkt

end Obfuscator

/-! How a relay uses the two layers (`client.rs`, `server.rs`). -/

section

variable (L : Primitives)

/-- From a packet to the wire; an encryption error drops the packet. -/
def sendPacket (cipher : Cipher) (masterKey plaintext : List UInt8) (salt : Salt cipher)
    (o : Option Obfuscator) (rnd : UInt8) :
    ExceptT CryptoError (Except Panic) (Option Obfuscator × List UInt8) := do
  let datagram ← encryptPacket L cipher masterKey plaintext salt
  match o with
  | some o =>
    let r ← ExceptT.lift (o.wrap rnd datagram)
    return (some r.1, r.2)
  | none => return (none, datagram)

inductive Received where
  | notObfs
  | undecryptable (e : CryptoError)
  | packet (plaintext : List UInt8)
deriving DecidableEq

/-- The datagram in a packet of the wire. -/
def deobfuscate (P : Platform) (o : Option Obfuscator) (pkt : List UInt8) : Checked (List UInt8) :=
  match o with
  | some o => o.unwrap P pkt
  | none => pure pkt

/-- From the wire to a packet. -/
def receivePacket (P : Platform) (cipher : Cipher) (masterKey : List UInt8)
    (o : Option Obfuscator) (pkt : List UInt8) : Except Panic Received := do
  match ← (deobfuscate P o pkt).run with
  | none => return .notObfs
  | some datagram =>
    match ← (decryptPacket L P cipher masterKey datagram).run with
    | .ok plaintext => return .packet plaintext
    | .error e => return .undecryptable e

end

end ShadowVpn
