import ShadowVpn.Lib.Checksum
import ShadowVpn.Lib.Lossy
import ShadowVpn.Spec.Server
import ShadowVpn.Spec.Wire

/-! DNS messages (`policy/dns.rs`): queries for a name, the first question of a message, the
smallest TTL of its answers and their addresses, and the messages that answer a query. -/

namespace ShadowVpn

open Lib

namespace Dns

def HEADER_LEN : ℕ := 12
def TYPE_A : UInt16 := 1
def TYPE_AAAA : UInt16 := 28
def CLASS_IN : UInt16 := 1

/-- What a query carries of a part of its name: nothing if it is empty or too long. -/
def queryLabel (label : Text) : Bytes :=
  if label = [] ∨ byteLen label > 63 then []
  else UInt8.ofNat (byteLen label) :: Utf8.encode label

/-- A recursive query for the IPv4 addresses of a name. -/
def buildQuery (id : UInt16) (name : Text) : Bytes :=
  toBE 2 id.toNat ++
    [0x01, 0x00] ++ -- flags: recursion desired
    [0x00, 0x01] ++ -- one question
    [0, 0, 0, 0, 0, 0] ++ (name.splitOn '.').flatMap queryLabel ++
    [0] ++ -- the root label
    toBE 2 TYPE_A.toNat ++ toBE 2 CLASS_IN.toNat

/-- The loop of `read_name`, with `f` applied to the bytes of each label. `afterPtr` is
where the name ends in the original stream, once a pointer was followed. -/
def readLoop {α : Type} (f : Bytes → α) (msg : Bytes) :
    (budget pos : ℕ) → (jumped : Bool) → (afterPtr : ℕ) → List α → Option (List α × ℕ)
  | 0, _, _, _, _ => none
  | budget + 1, pos, jumped, afterPtr, labels =>
    match msg[pos]? with
    | none => none
    | some len =>
      if len &&& 0xC0 = 0x00 then
        if len = 0 then some (labels, if jumped then afterPtr else pos + 1)
        else if pos + 1 + len.toNat > msg.length then none
        else readLoop f msg budget (pos + 1 + len.toNat) jumped afterPtr
          (labels ++ [f ((msg.drop (pos + 1)).take len.toNat)])
      else if len &&& 0xC0 = 0xC0 then
        match msg[pos + 1]? with
        | none => none
        | some low =>
          let ptr := (len &&& 0x3F).toNat * 256 + low.toNat
          if ptr ≥ msg.length then none
          else readLoop f msg budget ptr true (if jumped then afterPtr else pos + 2) labels
      else none -- `0x40` and `0x80` are reserved

/-- A label as `read_name` keeps it. -/
def labelText (label : Bytes) : Text := (Utf8.lossy label).map Char.toLower

def readName (msg : Bytes) (start : ℕ) : Option (Text × ℕ) :=
  (readLoop labelText msg msg.length start false start []).map fun r => (['.'].intercalate r.1, r.2)

def questionName (msg : Bytes) : Option Text :=
  if msg.length < HEADER_LEN then none
  else if wordAt msg 4 2 = 0 then none
  else (readName msg HEADER_LEN).map Prod.fst

/-- The first question: name, type and class. -/
def question (msg : Bytes) : Option (Text × UInt16 × UInt16) :=
  if msg.length < HEADER_LEN then none
  else if wordAt msg 4 2 = 0 then none
  else
    match readName msg HEADER_LEN with
    | none => none
    | some (name, pos) =>
      if pos + 4 > msg.length then none
      else some (name, UInt16.ofNat (wordAt msg pos 2), UInt16.ofNat (wordAt msg (pos + 2) 2))

/-- The loop of `skip_name`. It moves on at every turn, so that it leaves the message
before it runs out of turns. -/
def skipLoop (msg : Bytes) : (turns pos : ℕ) → Option ℕ
  | 0, _ => none
  | turns + 1, pos =>
    match msg[pos]? with
    | none => none
    | some len =>
      if len &&& 0xC0 = 0x00 then
        if len = 0 then some (pos + 1) else skipLoop msg turns (pos + 1 + len.toNat)
      else if len &&& 0xC0 = 0xC0 then
        if pos + 1 < msg.length then some (pos + 2) else none
      else none

def skipName (msg : Bytes) (start : ℕ) : Option ℕ := skipLoop msg (msg.length + 1) start

def skipQuestions (msg : Bytes) : (count pos : ℕ) → Option ℕ
  | 0, pos => some pos
  | count + 1, pos =>
    match skipName msg pos with
    | none => none
    | some pos => if pos + 4 > msg.length then none else skipQuestions msg count (pos + 4)

/-- The loop over the answers: a name that cannot be skipped spoils the result, a record
that is cut off only ends it. -/
def minTtlLoop (msg : Bytes) : (count pos : ℕ) → (min : Option ℕ) → Option ℕ
  | 0, _, min => min
  | count + 1, pos, min =>
    match skipName msg pos with
    | none => none
    | some pos =>
      if pos + 10 > msg.length then min
      else
        let ttl := wordAt msg (pos + 4) 4
        minTtlLoop msg count (pos + 10 + wordAt msg (pos + 8) 2)
          (some (match min with
            | some m => Nat.min m ttl
            | none => ttl))

/-- The smallest TTL across the answer section, in seconds. -/
def minTtl (msg : Bytes) : Option ℕ :=
  if msg.length < HEADER_LEN then none
  else
    match skipQuestions msg (wordAt msg 4 2) HEADER_LEN with
    | none => none
    | some pos => minTtlLoop msg (wordAt msg 6 2) pos none

/-- The loop over the answers in `a_records` and `aaaa_records`: the addresses up to the first
record that is cut off. `read` takes the address at an offset. -/
def recordsLoop {α : Type} (rtype : UInt16) (len : ℕ) (read : ℕ → α) (msg : Bytes) :
    (count pos : ℕ) → List α → List α
  | 0, _, out => out
  | count + 1, pos, out =>
    match skipName msg pos with
    | none => out
    | some pos =>
      if pos + 10 > msg.length then out
      else
        let rdlength := wordAt msg (pos + 8) 2
        if pos + 10 + rdlength > msg.length then out
        else recordsLoop rtype len read msg count (pos + 10 + rdlength)
          (if UInt16.ofNat (wordAt msg pos 2) = rtype ∧
              UInt16.ofNat (wordAt msg (pos + 2) 2) = CLASS_IN ∧ rdlength = len then
            out ++ [read (pos + 10)]
          else out)

def records {α : Type} (rtype : UInt16) (len : ℕ) (read : ℕ → α) (msg : Bytes) : List α :=
  if msg.length < HEADER_LEN then []
  else
    match skipQuestions msg (wordAt msg 4 2) HEADER_LEN with
    | none => []
    | some pos => recordsLoop rtype len read msg (wordAt msg 6 2) pos []

def aRecords (msg : Bytes) : List Ipv4Addr :=
  records TYPE_A 4 (fun pos => BitVec.ofNat 32 (wordAt msg pos 4)) msg

def aaaaRecords (msg : Bytes) : List Ipv6Addr :=
  records TYPE_AAAA 16 (fun pos => BitVec.ofNat 128 (wordAt msg pos 16)) msg

/-- Whether an address answers a question of this type. -/
def answersType (qtype : UInt16) : IpAddr → Bool
  | .v4 _ => qtype = TYPE_A
  | .v6 _ => qtype = TYPE_AAAA

/-- A record for the name of the question, which stands at offset 12. -/
def answerRecord (ttl : UInt32) : IpAddr → Bytes
  | .v4 ip => [0xC0, 0x0C] ++ toBE 2 TYPE_A.toNat ++ toBE 2 CLASS_IN.toNat ++ toBE 4 ttl.toNat ++
      toBE 2 4 ++ toBE 4 ip.toNat
  | .v6 ip => [0xC0, 0x0C] ++ toBE 2 TYPE_AAAA.toNat ++ toBE 2 CLASS_IN.toNat ++ toBE 4 ttl.toNat ++
      toBE 2 16 ++ toBE 16 ip.toNat

def buildResponse (query : Bytes) (addrs : List IpAddr) (ttl : UInt32) : Option Bytes :=
  match question query with
  | none => none
  | some (_, qtype, qclass) =>
    match skipName query HEADER_LEN with
    | none => none
    | some pos =>
      if pos + 4 > query.length then none
      else
        let m := query.take (pos + 4)
        let m := splice m 2 [0x81] -- QR, RD
        let m := splice m 3 [0x80] -- RA, no error
        let m := splice m 4 (toBE 2 1)
        let m := splice m 8 [0, 0, 0, 0]
        if qclass ≠ CLASS_IN then some (splice m 6 (toBE 2 0))
        else
          let records := addrs.filter (answersType qtype)
          some (splice m 6 (toBE 2 records.length) ++ records.flatMap (answerRecord ttl))

def buildNxdomain (query : Bytes) : Option Bytes :=
  match skipName query HEADER_LEN with
  | none => none
  | some pos =>
    if pos + 4 > query.length then none
    else
      let m := query.take (pos + 4)
      let m := splice m 2 [0x81]
      let m := splice m 3 [0x83] -- RA, no such name
      let m := splice m 4 (toBE 2 1)
      some (splice m 6 [0, 0, 0, 0, 0, 0])

end Dns

/-! The two loops over a name once more, with the bounds tests and the indexing of the source. -/

namespace Checked

open Dns

def readLoop (msg : Bytes) : (budget pos : ℕ) → (jumped : Bool) → (afterPtr : ℕ) →
    List Text → Checked (List Text × ℕ)
  | 0, _, _, _, _ => ask none
  | budget + 1, pos, jumped, afterPtr, labels =>
    if pos ≥ msg.length then ask none
    else do
      let len ← index msg pos
      if len &&& 0xC0 = 0x00 then
        if len = 0 then pure (labels, if jumped then afterPtr else pos + 1)
        else if pos + 1 + len.toNat > msg.length then ask none
        else do
          let label ← range msg (pos + 1) (pos + 1 + len.toNat)
          readLoop msg budget (pos + 1 + len.toNat) jumped afterPtr (labels ++ [labelText label])
      else if len &&& 0xC0 = 0xC0 then
        if pos + 1 ≥ msg.length then ask none
        else do
          let low ← index msg (pos + 1)
          let ptr := (len &&& 0x3F).toNat * 256 + low.toNat
          if ptr ≥ msg.length then ask none
          else readLoop msg budget ptr true (if jumped then afterPtr else pos + 2) labels
      else ask none

def readName (msg : Bytes) (start : ℕ) : Checked (Text × ℕ) := do
  let (labels, afterPtr) ← readLoop msg msg.length start false start []
  pure (['.'].intercalate labels, afterPtr)

/-- The loop of `skip_name`, which has no budget: `none` while it has not returned. -/
def skipLoop (msg : Bytes) : (turns pos : ℕ) → Option (Except Panic (Option ℕ))
  | 0, _ => none
  | turns + 1, pos =>
    if pos ≥ msg.length then some (.ok none)
    else
      match index msg pos with
      | .error e => some (.error e)
      | .ok len =>
        if len &&& 0xC0 = 0x00 then
          if len = 0 then some (.ok (some (pos + 1))) else skipLoop msg turns (pos + 1 + len.toNat)
        else if len &&& 0xC0 = 0xC0 then
          some (.ok (if pos + 1 < msg.length then some (pos + 2) else none))
        else some (.ok none)

end Checked

end ShadowVpn
