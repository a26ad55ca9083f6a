import ShadowVpn.Spec.Basic

/-! The text form of a node identity (`assign.rs`): `fmt_node` writes it, and
`parse_node_id` reads it back from lease and state files. -/

namespace ShadowVpn

/-- `{:02x}`. -/
def fmtByte (b : UInt8) : Text := [Nat.digitChar (b.toNat / 16), Nat.digitChar (b.toNat % 16)]

def fmtBytes (bs : List UInt8) : Text := bs.flatMap fmtByte

/-- Groups of 4, 2, 2, 2 and 6 bytes, joined by hyphens. -/
def fmtNode (id : NodeId) : Text :=
  fmtBytes (id.bytes.take 4) ++ '-' :: fmtBytes ((id.bytes.drop 4).take 2) ++
    '-' :: fmtBytes ((id.bytes.drop 6).take 2) ++ '-' :: fmtBytes ((id.bytes.drop 8).take 2) ++
    '-' :: fmtBytes (id.bytes.drop 10)

/-- `char::to_digit(16)`. -/
def hexVal (c : Char) : Option ℕ :=
  if '0' ≤ c ∧ c ≤ '9' then some (c.toNat - '0'.toNat)
  else if 'a' ≤ c ∧ c ≤ 'f' then some (c.toNat - 'a'.toNat + 10)
  else if 'A' ≤ c ∧ c ≤ 'F' then some (c.toNat - 'A'.toNat + 10)
  else none

/-- The digit loop of `u8::from_str_radix`, with its overflow check. -/
def hexDigits : ℕ → Text → Option ℕ
  | acc, [] => some acc
  | acc, c :: s =>
    match hexVal c with
    | none => none
    | some d => if acc * 16 + d < 256 then hexDigits (acc * 16 + d) s else none

/-- `u8::from_str_radix(s, 16).ok()`: a leading `+` is skipped, but not alone. -/
def fromStrRadix16 : Text → Option UInt8
  | [] => none
  | ['+'] => none
  | '+' :: s => (hexDigits 0 s).map UInt8.ofNat
  | s => (hexDigits 0 s).map UInt8.ofNat

/-- The loop `for i in 0..16`, over the indices that remain. -/
def parsePairs (hex : Text) : List ℕ → Except Panic (Option (List UInt8))
  | [] => .ok (some [])
  | i :: is =>
    match slice hex (i * 2) (i * 2 + 2) with
    | .error e => .error e
    | .ok pair =>
      match fromStrRadix16 pair with
      | none => .ok none
      | some b =>
        match parsePairs hex is with
        | .error e => .error e
        | .ok none => .ok none
        | .ok (some bs) => .ok (some (b :: bs))

def parseNodeId (s : Text) : Except Panic (Option NodeId) :=
  let hex := s.filter fun c => c ≠ '-'
  if byteLen hex ≠ 32 then .ok none
  else
    match parsePairs hex (List.range 16) with
    | .error e => .error e
    | .ok none => .ok none
    | .ok (some bs) => .ok (if h : bs.length = 16 then some ⟨bs, h⟩ else none)

/-! `client.rs` has both functions again, for its state file. -/

def Client.fmtNode (id : NodeId) : Text := ShadowVpn.fmtNode id

def Client.parseNodeId (s : Text) : Except Panic (Option NodeId) := ShadowVpn.parseNodeId s

end ShadowVpn
