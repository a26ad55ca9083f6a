import ShadowVpn.Lib.Trim
import ShadowVpn.Spec.Config
import ShadowVpn.Spec.Profiles

/-! The link to a configuration: `src/uri.rs`, and its copy in the desktop app. -/

namespace ShadowVpn

open Lib

namespace Uri

def SCHEME : Text := "shadowvpn://".toList

/-- The URL-safe alphabet. -/
def ALPHABET : Text :=
  "ABCDEFGHIJKLMNOPQRSTUVWXYZabcdefghijklmnopqrstuvwxyz0123456789-_".toList

/-- `URL_SAFE_NO_PAD` of the `base64` crate. It takes neither padding nor bits that are left over,
so that a text is that of the bytes which it is read as. -/
structure Engine where
  encode : Bytes → Text
  decode : Text → Option Bytes
  decode_eq_some : ∀ {t data}, decode t = some data ↔ t = encode data
  mem_alphabet : ∀ {data c}, c ∈ encode data → c ∈ ALPHABET
  encode_nil : encode [] = []

/-- `serde_json` for one type of configuration. -/
structure JsonText (τ : Type) where
  toText : τ → Text
  fromText : Text → Option τ
  fromText_toText : ∀ cfg, fromText (toText cfg) = some cfg
  fromText_nil : fromText [] = none

inductive UriError where
  | scheme
  | base64
  | utf8
  | json
  /-- Of the app only. -/
  | empty
deriving DecidableEq

/-- `Display`, with that of the error inside, if there is one. -/
def UriError.display (inner : String) : UriError → String
  | .scheme => "not a shadowvpn:// URI (expected the `" ++ String.ofList SCHEME ++ "` scheme)"
  | .base64 => "invalid Base64 in URI: " ++ inner
  | .utf8 => "URI payload is not valid UTF-8: " ++ inner
  | .json => "URI payload is not a valid config: " ++ inner
  | .empty => "URI has an empty payload"

def stripScheme (t : Text) : Option Text :=
  if t.take SCHEME.length = SCHEME then some (t.drop SCHEME.length) else none

def stops (c : Char) : Bool := c = '#' || isWhitespace c

/-- What is between the scheme and the first blank or fragment. -/
def payload (uri : Text) : Option Text :=
  (stripScheme (trim uri)).map fun body => body.takeWhile fun c => !stops c

section

variable {τ : Type} (B64 : Engine) (codec : JsonText τ)

/-- The bytes of a payload as a configuration. -/
def read (payload : Text) : Except UriError τ :=
  match B64.decode payload with
  | none => .error .base64
  | some bytes =>
    match Utf8.decode bytes with
    | none => .error .utf8
    | some text =>
      match codec.fromText text with
      | none => .error .json
      | some cfg => .ok cfg

def write (cfg : τ) : Text := SCHEME ++ B64.encode (Utf8.encode (codec.toText cfg))

end

section

variable (B64 : Engine)

def encode (codec : JsonText FileConfig) (cfg : FileConfig) : Text := write B64 codec cfg

def decode (codec : JsonText FileConfig) (uri : Text) : Except UriError FileConfig :=
  match payload uri with
  | none => .error .scheme
  | some payload => read B64 codec payload

def exportUri (codec : JsonText ProfileConfig) (config : ProfileConfig) : Text :=
  write B64 codec config

/-- The app takes padding as well, and tells an empty payload from one that is no configuration. -/
def importUri (codec : JsonText ProfileConfig) (inner : UriError → String) (uri : Text) :
    Except String ProfileConfig :=
  match payload uri with
  | none => .error (UriError.scheme.display "")
  | some payload =>
    let payload := trimEnd '=' payload
    if payload.isEmpty then .error (UriError.empty.display "")
    else (read B64 codec payload).mapError fun e => e.display (inner e)

end

end Uri

end ShadowVpn
