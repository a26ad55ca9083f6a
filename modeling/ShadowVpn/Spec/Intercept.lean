import ShadowVpn.Spec.Nat

/-! DNS queries on the TUN path (`policy/intercept.rs`): which packets are taken, and the packet
that answers one. -/

namespace ShadowVpn

open Lib

def DNS_PORT : UInt16 := 53

/-- Version 4, a header of five words. -/
def IPV4_VIHL : UInt8 := 0x45

def PROTO_UDP : UInt8 := 17

def REPLY_TTL : UInt8 := 64

structure DnsQuery where
  src : Ipv4Addr
  dst : Ipv4Addr
  srcPort : UInt16
  dstPort : UInt16
  payload : Bytes
deriving DecidableEq

/-- `u16::from_be_bytes([buf[i], buf[i + 1]])`. -/
def Checked.u16At (buf : Bytes) (i : ℕ) : Except Panic UInt16 := do
  let a ← index buf i
  let b ← index buf (i + 1)
  .ok (UInt16.ofNat (ofBE [a, b]))

open Checked in
def classify (pkt : Bytes) : Checked DnsQuery :=
  if pkt.length < 20 then ask none
  else do
    let vihl ← index pkt 0
    if vihl >>> 4 ≠ 4 then ask none
    else
      let ihl := (vihl &&& 0x0F).toNat * 4
      if ihl < 20 ∨ ihl > pkt.length then ask none
      else
        let proto ← index pkt 9
        if proto ≠ PROTO_UDP then ask none
        else
          let frag ← u16At pkt 6
          if frag &&& 0x1FFF ≠ 0 then ask none
          else if frag &&& 0x2000 ≠ 0 then ask none
          else
            let total ← u16At pkt 2
            if total.toNat < ihl + 8 ∨ total.toNat > pkt.length then ask none
            else
              let udp ← range pkt ihl total.toNat
              let dstPort ← u16At udp 2
              if dstPort ≠ DNS_PORT then ask none
              else
                let udpLen ← u16At udp 4
                if udpLen.toNat < 8 ∨ udpLen.toNat > udp.length then ask none
                else
                  let src ← ipv4At pkt 12
                  let dst ← ipv4At pkt 16
                  let srcPort ← u16At udp 0
                  let payload ← range udp 8 udpLen.toNat
                  pure ⟨src, dst, srcPort, dstPort, payload⟩

/-! Checksums, in a `u32` that must not overflow. -/

/-- The loop over the words of a buffer, and the last byte of one of odd length. -/
def addWords (P : Platform) : BitVec 32 → Bytes → Except Panic (BitVec 32)
  | sum, [] => .ok sum
  | sum, [a] => P.addU32 sum (BitVec.ofNat 32 (a.toNat * 256))
  | sum, a :: b :: bytes => do
    let sum ← P.addU32 sum (BitVec.ofNat 32 (ofBE [a, b]))
    addWords P sum bytes

/-- The carries added back in, which cannot overflow, and the complement of what is left. -/
def complement (sum : BitVec 32) : ℕ := 0xFFFF - foldCarry sum.toNat

def checksum (P : Platform) (bytes : Bytes) : Except Panic ℕ := do
  let sum ← addWords P 0 bytes
  .ok (complement sum)

/-- Over the addresses, the protocol and the length, and then the segment. -/
def udpChecksum (P : Platform) (pkt : Bytes) : Except Panic ℕ := do
  let sum ← addWords P 0 ((pkt.drop 12).take 8)
  let sum ← P.addU32 sum (BitVec.ofNat 32 PROTO_UDP.toNat)
  let udpLen ← P.subUsize pkt.length 20
  let sum ← P.addU32 sum (BitVec.ofNat 32 udpLen)
  let sum ← addWords P sum (pkt.drop 20)
  .ok (complement sum)

def buildReply (P : Platform) (query : DnsQuery) (dnsResponse : Bytes) : Except Panic Bytes := do
  let udpLen := 8 + dnsResponse.length
  let total := 20 + udpLen
  let p := List.replicate total 0
  let p := splice p 0 [IPV4_VIHL]
  let p := splice p 2 (toBE 2 total)
  let p := splice p 8 [REPLY_TTL]
  let p := splice p 9 [PROTO_UDP]
  let p := splice p 12 (octets4 query.dst)
  let p := splice p 16 (octets4 query.src)
  let ipCk ← checksum P (p.take 20)
  let p := splice p 10 (toBE 2 ipCk)
  let p := splice p 20 (toBE 2 query.dstPort.toNat)
  let p := splice p 22 (toBE 2 query.srcPort.toNat)
  let p := splice p 24 (toBE 2 udpLen)
  let p := splice p 28 dnsResponse
  let udpCk ← udpChecksum P p
  -- a checksum of zero would stand for none
  let udpCk := if udpCk = 0 then 0xFFFF else udpCk
  .ok (splice p 26 (toBE 2 udpCk))

end ShadowVpn
