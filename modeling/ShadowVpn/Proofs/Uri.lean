import ShadowVpn.Lib.Base64
import ShadowVpn.Sanity.State
import ShadowVpn.Spec.Uri

/-! Links to a configuration: which texts the client's tool and the desktop app read, and what they
read from them. -/

namespace ShadowVpn

open Lib

namespace Uri

section

variable {B64 : Engine} {data : Bytes} {text : Text}

theorem Engine.encode_injective (B64 : Engine) : Function.Injective B64.encode := by
  intro data data' h
  have hdata := B64.decode_eq_some.2 (rfl : B64.encode data = _)
  rw [B64.decode_eq_some.2 h] at hdata
  exact (Option.some.inj hdata).symm

theorem alphabet_plain : ∀ c ∈ ALPHABET, stops c = false ∧ c ≠ '=' := by
  have hall : ALPHABET.all (fun c => !stops c && c != '=') = true := by
    decide +kernel
  simpa using hall

theorem Engine.plain {c : Char} (h : c ∈ B64.encode data) : stops c = false ∧ c ≠ '=' :=
  alphabet_plain c (B64.mem_alphabet h)

theorem Engine.encode_eq_nil : B64.encode (Utf8.encode text) = [] ↔ text = [] := by
  constructor
  · intro h
    exact Utf8.encode_injective (B64.encode_injective (h.trans B64.encode_nil.symm))
  · rintro rfl
    exact B64.encode_nil

end

/-! The payload of a text. -/

/-- Blanks, the scheme and the payload; what follows begins with a blank or is a fragment. -/
structure Wraps (uri payload before after : Text) : Prop where
  eq : uri = before ++ (SCHEME ++ (payload ++ after))
  before : ∀ c ∈ before, isWhitespace c = true
  after : ∀ c ∈ after.head?, stops c = true

theorem stops_of_isWhitespace {c : Char} (h : isWhitespace c = true) : stops c = true := by
  rw [stops, h, Bool.or_true]

theorem trim_eq (s : Text) : ∃ before after, s = before ++ (trim s ++ after) ∧
    (∀ c ∈ before, isWhitespace c = true) ∧ ∀ c ∈ after, isWhitespace c = true := by
  refine ⟨s.takeWhile isWhitespace,
    ((s.dropWhile isWhitespace).reverse.takeWhile isWhitespace).reverse, ?_, ?_, ?_⟩
  · rw [trim, ← List.reverse_append, List.takeWhile_append_dropWhile, List.reverse_reverse,
      List.takeWhile_append_dropWhile]
  · exact fun c hc => List.mem_takeWhile_imp hc
  · exact fun c hc => List.mem_takeWhile_imp (List.mem_reverse.1 hc)

theorem takeWhile_payload {p after : Text} (hp : ∀ c ∈ p, stops c = false)
    (hafter : ∀ c ∈ after.head?, stops c = true) :
    (p ++ after).takeWhile (fun c => !stops c) = p := by
  have hnil : after.takeWhile (fun c => !stops c) = [] := by
    cases after with
    | nil => rfl
    | cons c rest =>
      have hc := hafter c rfl
      rw [List.takeWhile_cons_of_neg]
      simp [hc]
  rw [List.takeWhile_append_of_pos (fun c hc => by simp [hp c hc]), hnil, List.append_nil]

theorem trim_scheme (rest : Text) {before : Text} (hbefore : ∀ c ∈ before, isWhitespace c = true) :
    ∃ body white, trim (before ++ (SCHEME ++ rest)) = SCHEME ++ body ∧ rest = body ++ white ∧
      ∀ c ∈ white, isWhitespace c = true := by
  have hstart : (before ++ (SCHEME ++ rest)).dropWhile isWhitespace = SCHEME ++ rest := by
    rw [List.dropWhile_append_of_pos hbefore]
    rfl
  refine ⟨(rest.reverse.dropWhile isWhitespace).reverse,
    (rest.reverse.takeWhile isWhitespace).reverse, ?_, ?_, ?_⟩
  · rw [trim, hstart, List.reverse_append, List.dropWhile_append]
    split_ifs with hempty
    · rw [List.isEmpty_iff.1 hempty, List.reverse_nil, List.append_nil]
      rfl
    · rw [List.reverse_append, List.reverse_reverse]
  · rw [← List.reverse_append, List.takeWhile_append_dropWhile, List.reverse_reverse]
  · exact fun c hc => List.mem_takeWhile_imp (List.mem_reverse.1 hc)

theorem stripScheme_eq_some {t body : Text} : stripScheme t = some body ↔ t = SCHEME ++ body := by
  unfold stripScheme
  constructor
  · intro h
    split_ifs at h with htake
    cases h
    have hparts := List.take_append_drop SCHEME.length t
    rw [htake] at hparts
    exact hparts.symm
  · rintro rfl
    rw [List.take_left, if_pos rfl, List.drop_left]

theorem payload_eq_some {uri p : Text} : payload uri = some p ↔
    (∀ c ∈ p, stops c = false) ∧ ∃ before after, Wraps uri p before after := by
  rw [payload, Option.map_eq_some_iff]
  constructor
  · rintro ⟨body, hbody, rfl⟩
    obtain ⟨before, white, heq, hbefore, hwhite⟩ := trim_eq uri
    rw [stripScheme_eq_some.1 hbody] at heq
    refine ⟨fun c hc => by simpa using List.mem_takeWhile_imp hc, before,
      body.dropWhile (fun c => !stops c) ++ white, ?_, hbefore, ?_⟩
    · rw [← List.append_assoc (body.takeWhile _), List.takeWhile_append_dropWhile, heq,
        List.append_assoc]
    · intro c hc
      cases hrest : body.dropWhile fun c => !stops c with
      | nil =>
        rw [hrest, List.nil_append] at hc
        exact stops_of_isWhitespace (hwhite c (List.mem_of_mem_head? hc))
      | cons d rest =>
        rw [hrest] at hc
        cases hc
        have hhead := List.head?_dropWhile_not (fun c => !stops c) body
        rw [hrest] at hhead
        simpa using hhead
  · rintro ⟨hp, before, after, rfl, hbefore, hafter⟩
    obtain ⟨body, white, htrim, heq, hwhite⟩ := trim_scheme (p ++ after) hbefore
    refine ⟨body, stripScheme_eq_some.2 htrim, ?_⟩
    -- the blanks that went would have ended the payload too
    have hwhole := takeWhile_payload hp hafter
    rw [heq, List.takeWhile_append] at hwhole
    split_ifs at hwhole with hall
    · have hnone := takeWhile_payload (List.forall_mem_nil _)
        (fun c hc => stops_of_isWhitespace (hwhite c (List.mem_of_mem_head? hc)))
      rw [List.nil_append] at hnone
      rw [hnone, List.append_nil] at hwhole
      rw [← hwhole]
      have hfront : body.takeWhile (fun c => !stops c) <+: body := List.takeWhile_prefix _
      exact hfront.eq_of_length hall
    · exact hwhole

/-! The readers. -/

section

variable {τ : Type} {B64 : Engine} {codec : JsonText τ} {cfg : τ} {p text before after : Text}

theorem read_eq_ok : read B64 codec p = .ok cfg ↔
    ∃ text, p = B64.encode (Utf8.encode text) ∧ codec.fromText text = some cfg := by
  unfold read
  constructor
  · intro h
    cases hbytes : B64.decode p with
    | none =>
      rw [hbytes] at h
      cases h
    | some bytes =>
      rw [hbytes] at h
      dsimp only at h
      cases htext : Utf8.decode bytes with
      | none =>
        rw [htext] at h
        cases h
      | some text =>
        rw [htext] at h
        dsimp only at h
        cases hcfg : codec.fromText text with
        | none =>
          rw [hcfg] at h
          cases h
        | some cfg' =>
          rw [hcfg] at h
          cases h
          refine ⟨text, ?_, hcfg⟩
          rw [B64.decode_eq_some.1 hbytes, Utf8.decode_eq_some.1 htext]
  · rintro ⟨text, rfl, hcfg⟩
    rw [B64.decode_eq_some.2 rfl]
    dsimp only
    rw [Utf8.decode_eq_some.2 rfl]
    dsimp only
    rw [hcfg]

theorem read_text : read B64 codec (B64.encode (Utf8.encode text)) = .ok cfg ↔
    codec.fromText text = some cfg := by
  rw [read_eq_ok]
  constructor
  · rintro ⟨text', heq, hcfg⟩
    rw [Utf8.encode_injective (B64.encode_injective heq)]
    exact hcfg
  · exact fun hcfg => ⟨text, rfl, hcfg⟩

/-- A link may stand between blanks, or before a fragment. -/
theorem wraps_write (B64 : Engine) (codec : JsonText τ) (cfg : τ)
    (hbefore : ∀ c ∈ before, isWhitespace c = true) (hafter : ∀ c ∈ after.head?, stops c = true) :
    Wraps (before ++ (write B64 codec cfg ++ after))
      (B64.encode (Utf8.encode (codec.toText cfg))) before after where
  eq := by rw [write, List.append_assoc]
  before := hbefore
  after := hafter

theorem payload_of_wraps {data : Bytes} {n : ℕ} {uri : Text}
    (h : Wraps uri (B64.encode data ++ List.replicate n '=') before after) :
    payload uri = some (B64.encode data ++ List.replicate n '=') := by
  refine payload_eq_some.2 ⟨?_, before, after, h⟩
  intro c hc
  rcases List.mem_append.1 hc with hc | hc
  · exact (Engine.plain hc).1
  · rw [List.eq_of_mem_replicate hc]
    decide

theorem payload_of_wraps_digits {data : Bytes} {uri : Text}
    (h : Wraps uri (B64.encode data) before after) : payload uri = some (B64.encode data) := by
  rw [← List.append_nil (B64.encode data)] at h ⊢
  exact payload_of_wraps (n := 0) h

end

theorem decode_eq_ok {B64 : Engine} {codec : JsonText FileConfig} {uri : Text} {cfg : FileConfig} :
    decode B64 codec uri = .ok cfg ↔ ∃ text before after,
      Wraps uri (B64.encode (Utf8.encode text)) before after ∧ codec.fromText text = some cfg := by
  unfold decode
  constructor
  · intro h
    cases hp : payload uri with
    | none =>
      rw [hp] at h
      cases h
    | some p =>
      rw [hp] at h
      obtain ⟨text, rfl, hcfg⟩ := read_eq_ok.1 h
      obtain ⟨-, before, after, hwraps⟩ := payload_eq_some.1 hp
      exact ⟨text, before, after, hwraps, hcfg⟩
  · rintro ⟨text, before, after, hwraps, hcfg⟩
    rw [payload_of_wraps_digits hwraps]
    exact read_text.2 hcfg

section

variable {B64 : Engine} {codec : JsonText ProfileConfig} {inner : UriError → String}
  {uri text before after : Text} {profile : ProfileConfig}

theorem importUri_of_wraps {n : ℕ}
    (h : Wraps uri (B64.encode (Utf8.encode text) ++ List.replicate n '=') before after) :
    importUri B64 codec inner uri = .ok profile ↔ codec.fromText text = some profile := by
  have htrim : trimEnd '=' (B64.encode (Utf8.encode text) ++ List.replicate n '=') =
      B64.encode (Utf8.encode text) := by
    refine trimEnd_eq_iff.2 ⟨n, rfl, ?_⟩
    intro hlast
    exact (Engine.plain (List.mem_of_getLast? hlast)).2 rfl
  unfold importUri
  rw [payload_of_wraps h]
  dsimp only
  rw [htrim]
  split_ifs with hempty
  · rw [List.isEmpty_iff, Engine.encode_eq_nil] at hempty
    rw [hempty, codec.fromText_nil]
    constructor <;> (intro h; cases h)
  · have hread : read B64 codec (B64.encode (Utf8.encode text)) = .ok profile ↔ _ := read_text
    rw [← hread]
    cases read B64 codec (B64.encode (Utf8.encode text)) with
    | error e => constructor <;> (intro h; cases h)
    | ok c => constructor <;> (intro h; cases h; rfl)

theorem importUri_eq_ok : importUri B64 codec inner uri = .ok profile ↔
    ∃ text n before after,
      Wraps uri (B64.encode (Utf8.encode text) ++ List.replicate n '=') before after ∧
        codec.fromText text = some profile := by
  constructor
  · intro h
    have hread := h
    unfold importUri at hread
    cases hp : payload uri with
    | none =>
      rw [hp] at hread
      cases hread
    | some p =>
      rw [hp] at hread
      dsimp only at hread
      split_ifs at hread with hempty
      cases hr : read B64 codec (trimEnd '=' p) with
      | error e =>
        rw [hr] at hread
        cases hread
      | ok c =>
        obtain ⟨text, heq, -⟩ := read_eq_ok.1 hr
        obtain ⟨n, rfl, -⟩ := trimEnd_eq_iff.1 heq
        obtain ⟨-, before, after, hwraps⟩ := payload_eq_some.1 hp
        exact ⟨text, n, before, after, hwraps, (importUri_of_wraps hwraps).1 h⟩
  · rintro ⟨text, n, before, after, hwraps, hprofile⟩
    exact (importUri_of_wraps hwraps).2 hprofile

theorem importUri_of_wraps_digits (h : Wraps uri (B64.encode (Utf8.encode text)) before after) :
    importUri B64 codec inner uri = .ok profile ↔ codec.fromText text = some profile := by
  rw [← List.append_nil (B64.encode _)] at h
  exact importUri_of_wraps (n := 0) h

end

/-! An engine and a codec. -/

def b64Char (d : Fin 64) : Char := ALPHABET.getD d.val 'A'

def b64Digit (c : Char) : Option (Fin 64) := (List.finRange 64).find? fun d => b64Char d = c

theorem b64Char_injective : ∀ d e : Fin 64, b64Char d = b64Char e → d = e := by
  decide +kernel

theorem b64Char_mem : ∀ d : Fin 64, b64Char d ∈ ALPHABET := by
  decide +kernel

theorem b64Digit_eq_some {c : Char} {d : Fin 64} : b64Digit c = some d ↔ c = b64Char d := by
  constructor
  · intro h
    have hfound := List.find?_some h
    exact (of_decide_eq_true hfound).symm
  · rintro rfl
    cases hfind : b64Digit (b64Char d) with
    | none =>
      have hnone := List.find?_eq_none.1 hfind d (List.mem_finRange d)
      simp at hnone
    | some e =>
      have hfound := List.find?_some hfind
      rw [b64Char_injective e d (of_decide_eq_true hfound)]

theorem mapM_b64Digit {t : Text} {ds : List (Fin 64)} :
    t.mapM b64Digit = some ds ↔ t = ds.map b64Char := by
  rw [mapM_eq_some_iff]
  induction t generalizing ds with
  | nil => cases ds <;> simp
  | cons c t ih =>
    cases ds with
    | nil => simp
    | cons d ds => simp only [List.map_cons, List.cons.injEq, b64Digit_eq_some, ih]

/-- Digits of six bits, as the alphabet writes them, are such an engine. -/
def Engine.urlSafe : Engine where
  encode data := (Base64.unpadded data).map b64Char
  decode t := (t.mapM b64Digit).bind Base64.bytes
  decode_eq_some {t data} := by
    rw [Option.bind_eq_some_iff]
    constructor
    · rintro ⟨ds, hds, hbytes⟩
      rw [mapM_b64Digit.1 hds, Base64.bytes_eq_some.1 hbytes]
    · rintro rfl
      exact ⟨_, mapM_b64Digit.2 rfl, Base64.bytes_unpadded data⟩
  mem_alphabet {data c} h := by
    obtain ⟨d, -, rfl⟩ := List.mem_map.1 h
    exact b64Char_mem d
  encode_nil := rfl

example : Engine.urlSafe.encode [0xFB, 0xFF] = ['-', '_', '8'] := by decide +kernel

/-- Bits that are left over have to be zero. -/
example : Engine.urlSafe.decode ['-', '_', '9'] = none := by decide +kernel

/-- Any values that can be counted are texts of themselves. -/
theorem JsonText.nonempty_of_countable {τ : Type} [Countable τ] : Nonempty (JsonText τ) := by
  classical
  obtain ⟨number, hnumber⟩ := exists_injective_nat τ
  refine ⟨⟨fun a => List.replicate (number a + 1) '1',
    fun t => if h : ∃ a, t.length = number a + 1 then some h.choose else none, ?_, ?_⟩⟩
  · intro a
    have hex : ∃ b, (List.replicate (number a + 1) '1').length = number b + 1 :=
      ⟨a, List.length_replicate⟩
    rw [dif_pos hex]
    have hlength := List.length_replicate.symm.trans hex.choose_spec
    rw [← hnumber (Nat.succ.inj hlength)]
  · refine dif_neg ?_
    rintro ⟨a, ha⟩
    cases ha

deriving instance Countable for IpNetwork, FileConfig, ProfileConfig

/-! The links. -/

end Uri

end ShadowVpn
