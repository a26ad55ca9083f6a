import ShadowVpn.Sanity.Checked
import ShadowVpn.Sanity.Encode

/-! The control codec: the parser against the documented formats, round trips of the
address messages, and the names that survive one. -/

namespace ShadowVpn

open Lib

/-! Round trips. -/

/-- Encoding and parsing gives the normal form, an encoding is never taken for a keepalive,
and a parsed message is in normal form and comes back unchanged. -/
structure RoundTrips {M : Type} (encode : M → List UInt8) (normalise : M → M) (wrap : M → Control) :
    Prop where
  forth : ∀ m, parseControl (encode m) = some (wrap (normalise m))
  length : ∀ m, (encode m).length ≠ 1 ∧ (encode m).length ≠ 5
  back : ∀ b m, parseControl b = some (wrap m) →
    normalise m = m ∧ parseControl (encode m) = some (wrap m)

theorem RoundTrips.of_body {M : Type} {encode : M → List UInt8} {normalise : M → M}
    {wrap : M → Control} (ty : UInt8) (Body : List UInt8 → M → Prop)
    (hspells : ∀ {body m}, Body body m → Spells (0 :: ty :: body) (wrap m))
    (hbody : ∀ {b m}, Spells b (wrap m) → ∃ body, Body body m)
    (hlen : ∀ {body m}, Body body m → body.length ≠ 3)
    (hnormal : ∀ {body m}, Body body m → normalise m = m)
    (hencode : ∀ m, ∃ body, encode m = 0 :: ty :: body ∧ Body body (normalise m)) :
    RoundTrips encode normalise wrap := by
  have hforth : ∀ m, parseControl (encode m) = some (wrap (normalise m)) := by
    intro m
    obtain ⟨body, heq, hm⟩ := hencode m
    rw [heq]
    exact parseControl_eq_some.2 (hspells hm)
  refine ⟨hforth, ?_, ?_⟩
  · intro m
    obtain ⟨body, heq, hm⟩ := hencode m
    have hne := hlen hm
    rw [heq, List.length_cons, List.length_cons]
    omega
  · intro b m hb
    obtain ⟨body, hm⟩ := hbody (parseControl_eq_some.1 hb)
    have heq := hnormal hm
    have hm' := hforth m
    rw [heq] at hm'
    exact ⟨heq, hm'⟩

theorem control_codec_round_trips :
    RoundTrips RouteAdvert.encode RouteAdvert.normalise .routeAdvert ∧
      RoundTrips RoutePush.encode RoutePush.normalise .routePush ∧
      RoundTrips AssignReq.encode AssignReq.normalise .assignReq ∧
      RoundTrips Assign.encode Assign.normalise .assign := by
  refine ⟨?_, ?_, ?_, ?_⟩
  · apply RoundTrips.of_body 1 RouteAdvertBody Spells.routeAdvert
    · intro b m h
      cases h with
      | routeAdvert hbody => exact ⟨_, hbody⟩
    · exact RouteAdvertBody.length_ne
    · exact RouteAdvertBody.normalise_eq
    · exact RouteAdvert.encode_body
  · apply RoundTrips.of_body 2 RoutePushBody Spells.routePush
    · intro b m h
      cases h with
      | routePush hbody => exact ⟨_, hbody⟩
    · exact RoutePushBody.length_ne
    · exact RoutePushBody.normalise_eq
    · exact RoutePush.encode_body
  · apply RoundTrips.of_body 3 AssignReqBody Spells.assignReq
    · intro b m h
      cases h with
      | assignReq hbody => exact ⟨_, hbody⟩
    · intro body m h
      have hlen := h.length_eq
      omega
    · exact AssignReqBody.normalise_eq
    · exact AssignReq.encode_body
  · apply RoundTrips.of_body 4 AssignBody Spells.assign
    · intro b m h
      cases h with
      | assign hbody => exact ⟨_, hbody⟩
    · intro body m h
      have hlen := h.length_eq
      omega
    · exact AssignBody.normalise_eq
    · exact Assign.encode_body

/-! Names. -/

/-- `t` is the longest front part of `name` with at most 32 bytes. -/
structure LongestFront (name t : Text) : Prop where
  front : t <+: name
  fits : (asBytes t).length ≤ MAX_NAME_LEN
  longest : ∀ u, u <+: name → (asBytes u).length ≤ MAX_NAME_LEN → u <+: t

theorem cutName_longest (name : Text) : LongestFront name (cutName name) where
  front := Utf8.takeBytes_prefix _ _
  fits := Utf8.length_takeBytes_le _ _
  longest := fun _ hu hle => Utf8.prefix_takeBytes hu hle

structure NameField (name : Text) : Prop where
  front : nameBytes name <+: asBytes name
  valid : ValidUtf8 (nameBytes name) ↔ AsciiCut name
  cut : AsciiCut name → nameBytes name = asBytes (cutName name)
  short : (asBytes name).length ≤ MAX_NAME_LEN →
    (nameBytes name = asBytes name ↔ AsciiCut name)

theorem nameField (name : Text) : NameField name := by
  refine ⟨nameBytes_front name, ⟨asciiCut_of_valid, ?_⟩, nameBytes_of_asciiCut, ?_⟩
  · intro h
    exact ⟨_, nameBytes_of_asciiCut h⟩
  · intro hlen
    constructor
    · intro heq
      exact asciiCut_of_valid ⟨name, heq⟩
    · intro h
      rw [nameBytes_of_asciiCut h, cutName_of_le hlen]

theorem eq_ite_of_eq_some_iff {α : Type} {o : Option α} {p : Prop} [Decidable p] {v : α}
    (h : ∀ c, o = some c ↔ p ∧ c = v) : o = if p then some v else none := by
  split_ifs with hp
  · exact (h v).2 ⟨hp, rfl⟩
  · rw [Option.eq_none_iff_forall_ne_some]
    intro c hc
    exact hp ((h c).1 hc).1

/-- A name message comes back, in normal form, exactly when each of its name fields ends in
an ASCII byte. Any other is dropped by the receiver. -/
theorem names_round_trip_iff_ascii_cut (name : Text) (advert : NameAdvert) (push : PeerPush) :
    NameField name ∧ LongestFront name (cutName name) ∧
      (parseControl advert.encode =
        if AsciiCut advert.name then some (.nameAdvert advert.normalise) else none) ∧
      (parseControl push.encode =
        if ∀ p ∈ push.peers.take MAX_PEERS, AsciiCut p.name then some (.peerPush push.normalise)
        else none) ∧
      (∀ b, parseControl b = some (.nameAdvert advert) →
        (parseControl advert.encode = some (.nameAdvert advert) ↔ AsciiCut advert.name)) ∧
      (∀ b, parseControl b = some (.peerPush push) →
        (parseControl push.encode = some (.peerPush push) ↔ ∀ p ∈ push.peers, AsciiCut p.name)) := by
  refine ⟨nameField name, cutName_longest name, ?_, ?_, ?_, ?_⟩
  · exact eq_ite_of_eq_some_iff fun _ => advert.parseControl_encode
  · exact eq_ite_of_eq_some_iff fun _ => push.parseControl_encode
  · intro b hb
    cases parseControl_eq_some.1 hb with
    | nameAdvert hbody =>
      rw [advert.parseControl_encode, hbody.normalise_eq]
      simp
  · intro b hb
    cases parseControl_eq_some.1 hb with
    | peerPush hbody =>
      rw [push.parseControl_encode, hbody.normalise_eq, List.take_of_length_le hbody.length_le]
      simp

/-- The two bytes of `é` are cut to the first. -/
theorem e_acute_is_split :
    nameBytes ['é'] = [0xc3] ∧ (asBytes ['é']).length ≤ MAX_NAME_LEN ∧
      ¬ ValidUtf8 (nameBytes ['é']) ∧
      parseControl (NameAdvert.encode ⟨false, 0x0a09000a#32, none, ['é']⟩) = none ∧
      (∃ b, parseControl b = some (.nameAdvert ⟨false, 0x0a09000a#32, none, ['é']⟩)) ∧
      parseControl (PeerPush.encode ⟨[⟨['a'], 0x0a090001#32, none⟩,
        ⟨['é'], 0x0a09000a#32, none⟩]⟩) = none := by
  have hcut : ¬ AsciiCut ['é'] := by decide
  refine ⟨by decide, by decide, fun h => hcut (asciiCut_of_valid h), ?_, ?_, ?_⟩
  · rw [Option.eq_none_iff_forall_ne_some]
    intro c hc
    exact hcut ((NameAdvert.parseControl_encode _).1 hc).1
  · have hbody := NameAdvertBody.body 0 0x0a09000a#32 0 ['é'] (by decide)
    exact ⟨_, parseControl_eq_some.2 (Spells.nameAdvert hbody)⟩
  · rw [Option.eq_none_iff_forall_ne_some]
    intro c hc
    have hall := ((PeerPush.parseControl_encode _).1 hc).1
    exact hcut (hall ⟨['é'], 0x0a09000a#32, none⟩ (by simp [MAX_PEERS]))

/-! The grammar. -/

/-- `parse_control` panics on no payload, and accepts those of the documented formats. -/
theorem parse_control_accepts_documented (b : List UInt8) :
    ∃ r, (Checked.parseControl b).run = .ok r ∧ r = parseControl b ∧
      (r.isSome = true ↔ Documented b) := by
  refine ⟨parseControl b, ?_, rfl, ?_⟩
  · rw [Checked.parseControl_eq]
    rfl
  · rw [Option.isSome_iff_exists, documented_iff]
    simp only [parseControl_eq_some]

end ShadowVpn
