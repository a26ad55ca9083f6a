import ShadowVpn.Sanity.NodeText

/-! How exact the reader of node identities is. It counts bytes and cuts the text every two
of them, and the integer parser behind it takes a sign. -/

namespace ShadowVpn

def hexOf (s : Text) : Text := s.filter fun c => c ≠ '-'

def ReadsExactly (parse : Text → Except Panic (Option NodeId)) (s : Text) : Prop :=
  ∃ r, parse s = .ok r ∧ ∀ id, r = some id ↔ SpellsBytes (hexOf s) id.bytes

/-- Sixteen pairs of two digits or of a sign and a digit, with a sign among them. -/
def Signed (hex : Text) : Prop := '+' ∈ hex ∧ ∃ bs, bs.length = 16 ∧ Accepts hex bs

/-- Such pairs, and then a character that the next two bytes cut, 32 bytes in all. -/
def Cut (hex : Text) : Prop :=
  byteLen hex = 32 ∧ ∃ head bs rest, hex = head ++ rest ∧ Accepts head bs ∧ CutNext rest

theorem parseNodeId_of_len {s : Text} (h : byteLen (hexOf s) ≠ 32) : parseNodeId s = .ok none :=
  if_pos h

theorem parseNodeId_eq {s : Text} (h : byteLen (hexOf s) = 32) :
    parseNodeId s = (readPairs 16 (hexOf s)).map fun r =>
      r.bind fun bs => if h : bs.length = 16 then some ⟨bs, h⟩ else none := by
  have hif : parseNodeId s = _ := if_neg (not_not_intro h)
  rw [hif, ← parsePairs_range, ← hexOf]
  cases parsePairs (hexOf s) (List.range 16) with
  | error e => rfl
  | ok r => cases r <;> rfl

theorem parseNodeId_of_accepts {s : Text} {id : NodeId} (h : Accepts (hexOf s) id.bytes) :
    parseNodeId s = .ok (some id) := by
  have hread := readPairs_accepts h
  rw [id.len] at hread
  rw [parseNodeId_eq (by rw [h.byteLen, id.len]), hread]
  simp [Except.map, id.len]

theorem parseNodeId_of_cut {s : Text} (h : Cut (hexOf s)) :
    parseNodeId s = .error .charBoundary := by
  obtain ⟨hlen, head, bs, rest, heq, hhead, hcut⟩ := h
  have hbytes := hhead.byteLen
  have hrest : 0 < byteLen rest := by
    cases hcut with
    | wide hc => rw [byteLen_cons]; omega
    | second hc _ => rw [byteLen_cons]; omega
  have hk : 15 - bs.length + 1 + bs.length = 16 := by
    rw [heq, byteLen_append] at hlen
    omega
  have hread := readPairs_cut (15 - bs.length) hhead hcut
  rw [hk, ← heq] at hread
  rw [parseNodeId_eq hlen, hread]
  rfl

theorem parseNodeId_cases (s : Text) :
    (∃ id : NodeId, Accepts (hexOf s) id.bytes) ∨ parseNodeId s = .ok none ∨ Cut (hexOf s) := by
  by_cases hlen : byteLen (hexOf s) = 32
  · obtain ⟨bs, hbs⟩ | hnone | hcut := readPairs_cases (k := 16) hlen
    · have h16 : bs.length = 16 := by
        have hbytes := hbs.byteLen
        omega
      exact .inl ⟨⟨bs, h16⟩, hbs⟩
    · exact .inr (.inl (by rw [parseNodeId_eq hlen, hnone]; rfl))
    · exact .inr (.inr ⟨hlen, hcut⟩)
  · exact .inr (.inl (parseNodeId_of_len hlen))

/-- The reader is exact on a text if and only if it is not one of signed pairs, and has no
character that is cut. -/
theorem readsExactly_iff (s : Text) :
    ReadsExactly parseNodeId s ↔ ¬ Signed (hexOf s) ∧ ¬ Cut (hexOf s) := by
  obtain ⟨id, hid⟩ | hnone | hcut := parseNodeId_cases s
  · have hread := parseNodeId_of_accepts hid
    have hnocut : ¬ Cut (hexOf s) := by
      intro hcut
      rw [parseNodeId_of_cut hcut] at hread
      cases hread
    refine ⟨?_, ?_⟩
    · rintro ⟨r, hr, hexact⟩
      rw [hread] at hr
      cases hr
      exact ⟨fun hsigned => ((hexact id).1 rfl).no_plus hsigned.1, hnocut⟩
    · rintro ⟨hsigned, -⟩
      have hplus : '+' ∉ hexOf s := fun h => hsigned ⟨h, id.bytes, id.len, hid⟩
      refine ⟨some id, hread, fun id' => ⟨?_, ?_⟩⟩
      · intro heq
        cases heq
        exact hid.spells hplus
      · intro hspells
        have hread' := parseNodeId_of_accepts hspells.accepts
        rw [hread] at hread'
        exact Except.ok.inj hread'
  · have hno : ∀ id : NodeId, ¬ Accepts (hexOf s) id.bytes := by
      intro id hid
      rw [parseNodeId_of_accepts hid] at hnone
      cases hnone
    refine ⟨fun _ => ⟨?_, ?_⟩, fun _ => ⟨none, hnone, fun id => ⟨?_, ?_⟩⟩⟩
    · rintro ⟨-, bs, hlen, hbs⟩
      exact hno ⟨bs, hlen⟩ hbs
    · intro hcut
      rw [parseNodeId_of_cut hcut] at hnone
      cases hnone
    · intro hsome
      cases hsome
    · intro hspells
      exact absurd hspells.accepts (hno id)
  · refine ⟨?_, fun h => absurd hcut h.2⟩
    rintro ⟨r, hr, -⟩
    rw [parseNodeId_of_cut hcut] at hr
    cases hr

/-- Both readers are exact on the texts that are neither signed nor cut, and on no others, and
they read back every identity that is written. -/
theorem parseNodeId_exact_iff (s : Text) (id : NodeId) :
    (ReadsExactly parseNodeId s ↔ ¬ Signed (hexOf s) ∧ ¬ Cut (hexOf s)) ∧
    (ReadsExactly Client.parseNodeId s ↔ ¬ Signed (hexOf s) ∧ ¬ Cut (hexOf s)) ∧
    parseNodeId (fmtNode id) = .ok (some id) ∧
    Client.parseNodeId (Client.fmtNode id) = .ok (some id) :=
  ⟨readsExactly_iff s, readsExactly_iff s, parseNodeId_fmtNode id, parseNodeId_fmtNode id⟩

/-- A euro sign at the start of 32 bytes stops the reader, and `+1` sixteen times is taken for an
identity. -/
theorem parseNodeId_inexact :
    parseNodeId ('€' :: List.replicate 29 '0') = .error .charBoundary ∧
    parseNodeId (List.replicate 16 ['+', '1']).flatten = .ok (some ⟨List.replicate 16 1, rfl⟩) := by
  refine ⟨?_, ?_⟩
  · decide
  · decide

end ShadowVpn
