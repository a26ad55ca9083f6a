import ShadowVpn.Lib.Ranges
import ShadowVpn.Lib.Search
import ShadowVpn.Lib.Trim
import ShadowVpn.Spec.Routes

/-! What decides the way of a name (`policy/mod.rs`, `gfwlist.rs`, `chnroute.rs`): the mode,
the list of names for the tunnel, and the ranges of domestic addresses. -/

namespace ShadowVpn

open Lib

inductive Mode where
  | full
  | gfwList
  | chinaDns
deriving DecidableEq

def Mode.isEnabled (m : Mode) : Bool := m ≠ .full

inductive PolicyError where
  | unknownMode (name : Text)
deriving DecidableEq

/-- `Mode::from_name`, which ignores the case of ASCII letters. -/
def Mode.fromName (name : Text) : Except PolicyError Mode :=
  let name := name.map Char.toLower
  if name = "full".toList ∨ name = "off".toList ∨ name = "none".toList then .ok .full
  else if name = "gfwlist".toList then .ok .gfwList
  else if name = "chinadns".toList ∨ name = "china".toList then .ok .chinaDns
  else .error (.unknownMode name)

structure GfwList where
  suffixes : HashSet Text

namespace GfwList

/-- `trim_end_matches('.')`. -/
def trimEndDots (s : Text) : Text := (s.reverse.dropWhile fun c => c = '.').reverse

/-- What follows each dot. -/
def afterDots : Text → List Text
  | [] => []
  | c :: s => if c = '.' then s :: afterDots s else afterDots s

/-- The name itself or a parent of it is on the list. -/
def matchesDomain (l : GfwList) (domain : Text) : Bool :=
  let domain := (trimEndDots domain).map Char.toLower
  if domain.isEmpty then false
  else if (l.suffixes.get domain).isSome then true
  else (afterDots domain).any fun parent => (l.suffixes.get parent).isSome

/-- The loop over the bytes, with the slice after each dot. -/
def Checked.parentLoop (l : GfwList) (domain : Text) : ℕ → Bytes → Except Panic Bool
  | _, [] => .ok false
  | i, b :: bytes =>
    if b = 0x2E then
      match slice domain (i + 1) (byteLen domain) with
      | .error e => .error e
      | .ok parent =>
        if (l.suffixes.get parent).isSome then .ok true else parentLoop l domain (i + 1) bytes
    else parentLoop l domain (i + 1) bytes

def Checked.matchesDomain (l : GfwList) (domain : Text) : Except Panic Bool :=
  let domain := (trimEndDots domain).map Char.toLower
  if domain.isEmpty then .ok false
  else if (l.suffixes.get domain).isSome then .ok true
  else parentLoop l domain 0 (Utf8.encode domain)

/-- `trim_start_matches("*.")`. -/
def trimStars : Text → Text
  | '*' :: '.' :: s => trimStars s
  | s => s

/-- The suffix that a line stands for; comments and blanks have none. -/
def normalize (line : Text) : Option Text :=
  let line := trim line
  if line.isEmpty || line.head? == some '#' || line.head? == some '!' then none
  else
    let line := (trimEndDots (trimStart '.' (trimStars line))).map Char.toLower
    if line.isEmpty then none else some line

def fromLines (lines : List Text) : GfwList :=
  ⟨lines.foldl (fun suffixes line => suffixes.insertOpt (normalize line) ()) ∅⟩

end GfwList

/-- First and last address of each range, sorted by the first. -/
structure ChnRoute where
  ranges : List (Ipv4Addr × Ipv4Addr)

/-- The binary search finds a range that starts at the address, or counts those that start
before it. -/
def ChnRoute.contains (r : ChnRoute) (ip : Ipv4Addr) : Bool :=
  if r.ranges.any fun range => range.1 = ip then true
  else
    match r.ranges.countP fun range => range.1 < ip with
    | 0 => false
    | idx + 1 => r.ranges[idx]?.any fun range => ip ≤ range.2

/-- The same with the search of the standard library, and the index of the source. -/
def Checked.contains (r : ChnRoute) (ip : Ipv4Addr) : Except Panic Bool :=
  match binarySearchBy (fun range => compare range.1 ip) r.ranges with
  | .found _ => .ok true
  | .insert 0 => .ok false
  | .insert (idx + 1) =>
    match r.ranges[idx]? with
    | none => .error .outOfBounds
    | some range => .ok (ip ≤ range.2)

/-! The files of ranges. -/

/-- The digits of a `u32`, with the overflow check. -/
def decimalDigits : ℕ → Text → Option ℕ
  | acc, [] => some acc
  | acc, c :: s =>
    if '0' ≤ c ∧ c ≤ '9' then
      if acc * 10 + (c.toNat - '0'.toNat) < 4294967296 then
        decimalDigits (acc * 10 + (c.toNat - '0'.toNat)) s
      else none
    else none

/-- `str::parse::<u32>`: a leading `+` is skipped, but not alone. -/
def parseU32 : Text → Option ℕ
  | [] => none
  | ['+'] => none
  | '+' :: s => decimalDigits 0 s
  | s => decimalDigits 0 s

/-- `str::split_once`. -/
def splitOnce (sep : Char) (s : Text) : Option (Text × Text) :=
  match s.dropWhile fun c => c ≠ sep with
  | [] => none
  | _ :: rest => some (s.takeWhile fun c => c ≠ sep, rest)

/-- One line; `parseAddr` is the parser of the standard library. -/
def parseCidr (parseAddr : Text → Option Ipv4Addr) (line : Text) : Option (Ipv4Addr × Ipv4Addr) :=
  let line := trim line
  if line.isEmpty || line.head? == some '#' then none
  else do
    let (addr, len) ← splitOnce '/' line
    let base ← parseAddr (trim addr)
    let len ← parseU32 (trim len)
    if len > 32 then none
    else
      let mask : Ipv4Addr := if len = 0 then 0 else BitVec.allOnes 32 <<< (32 - len)
      let start := base &&& mask
      let end_ := start ||| ~~~mask
      some (start, end_)

/-- The order of pairs. -/
def rangeLe (a b : Ipv4Addr × Ipv4Addr) : Bool := a.1 < b.1 || (a.1 == b.1 && a.2 ≤ b.2)

/-- A range that starts inside the last one or right after it. -/
def meetsLast (lastEnd start : Ipv4Addr) : Bool :=
  start ≤ lastEnd || (lastEnd != BitVec.allOnes 32 && start == lastEnd + 1)

def merge (ranges : List (Ipv4Addr × Ipv4Addr)) : List (Ipv4Addr × Ipv4Addr) :=
  (ranges.mergeSort rangeLe).foldl (pushRange meetsLast fun lastEnd end_ => lastEnd < end_) []

def ChnRoute.fromLines (parseAddr : Text → Option Ipv4Addr) (lines : List Text) : ChnRoute :=
  ⟨merge (lines.filterMap (parseCidr parseAddr))⟩

def ChnRoute.fromRanges (ranges : List (Ipv4Addr × Ipv4Addr)) : ChnRoute := ⟨merge ranges⟩

inductive Decision where
  | direct
  | tunnel
deriving DecidableEq

def chinadnsDecision (localIps : List Ipv4Addr) (chnroute : ChnRoute) : Decision :=
  if localIps.any chnroute.contains then .direct else .tunnel

def DEFAULT_PREWARM : List Text :=
  ["google.com", "www.google.com", "www.gstatic.com", "fonts.gstatic.com", "ssl.gstatic.com",
    "www.googleapis.com", "ajax.googleapis.com", "accounts.google.com", "www.youtube.com",
    "youtube.com", "i.ytimg.com", "googlevideo.com", "twitter.com", "x.com", "abs.twimg.com",
    "pbs.twimg.com", "www.facebook.com", "static.xx.fbcdn.net", "www.instagram.com",
    "www.wikipedia.org", "en.wikipedia.org", "upload.wikimedia.org", "github.com",
    "raw.githubusercontent.com", "objects.githubusercontent.com", "telegram.org",
    "web.telegram.org", "www.reddit.com", "duckduckgo.com"].map String.toList

structure PolicyConfig where
  mode : Mode
  dnsListen : SocketAddr
  dnsLocal : SocketAddr
  dnsRemote : SocketAddr
  gfwlist : Option Text
  chnroute : Option Text
  geoip : Option Text
  geoipCountry : Text
  prewarm : List Text
  cacheFile : Option Text
  dnsTimeout : Duration
  magicDns : Bool
  magicDnsSuffix : Text

end ShadowVpn
