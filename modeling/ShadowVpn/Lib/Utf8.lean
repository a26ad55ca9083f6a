import Mathlib.Data.List.DropRight
import ShadowVpn.Lib.Bytes

/-! UTF-8 text as bytes. A character is a lead byte followed by continuation bytes, so a
text that is cut at an arbitrary byte ends inside some character, or right after one. -/

namespace Lib

namespace Utf8

def encode (s : List Char) : Bytes := s.flatMap String.utf8EncodeChar

def decode (w : Bytes) : Option (List Char) := (String.fromUTF8? ⟨w.toArray⟩).map String.toList

/-- `10xxxxxx`. -/
def isContinuation (b : UInt8) : Bool := b &&& 0b11000000 == 0b10000000

/-- The longest front part of at most `n` bytes that ends between characters. -/
def takeBytes : Nat → List Char → List Char
  | _, [] => []
  | n, c :: s => if c.utf8Size ≤ n then c :: takeBytes (n - c.utf8Size) s else []

@[simp] theorem encode_nil : encode [] = [] := rfl

@[simp] theorem encode_cons (c : Char) (s : List Char) :
    encode (c :: s) = String.utf8EncodeChar c ++ encode s := rfl

@[simp] theorem encode_append (s t : List Char) : encode (s ++ t) = encode s ++ encode t := by
  simp [encode]

theorem decode_eq_some {w : Bytes} {s : List Char} : decode w = some s ↔ w = encode s := by
  have hbytes : ∀ v : Bytes, v.toByteArray = ⟨v.toArray⟩ := by
    intro v
    apply ByteArray.ext
    simp
  constructor
  · intro h
    obtain ⟨str, hstr, rfl⟩ := Option.map_eq_some_iff.1 h
    unfold String.fromUTF8? at hstr
    split at hstr
    · rename_i hv
      cases hstr
      have hlist := congrArg String.toByteArray (String.ofList_toList (s := String.fromUTF8 _ hv))
      have hdata : (encode (String.fromUTF8 _ hv).toList).toByteArray = ⟨w.toArray⟩ := hlist
      rw [hbytes] at hdata
      simpa using (ByteArray.mk.inj hdata).symm
    · cases hstr
  · rintro rfl
    have hv : ByteArray.IsValidUTF8 ⟨(encode s).toArray⟩ := ⟨s, (hbytes _).symm⟩
    have hstr : String.fromUTF8 _ hv = String.ofList s := by
      apply String.toByteArray_inj.1
      exact (hbytes (encode s)).symm
    unfold decode String.fromUTF8?
    rw [dif_pos hv, hstr]
    simp

theorem encode_injective {s t : List Char} (h : encode s = encode t) : s = t := by
  have hs := decode_eq_some.2 (rfl : encode s = encode s)
  rw [h, decode_eq_some.2 rfl] at hs
  exact (Option.some.inj hs).symm

theorem isContinuation_iff (b : UInt8) :
    isContinuation b = true ↔ 128 ≤ b.toNat ∧ b.toNat < 192 := by
  have hall : ∀ n < 256, isContinuation (UInt8.ofNat n) = true ↔ 128 ≤ n ∧ n < 192 := by
    decide +kernel
  have hb := hall b.toNat b.toNat_lt
  rwa [UInt8.ofNat_toNat] at hb

/-- One ASCII byte, or a lead byte above the continuation bytes and some of those. -/
theorem utf8EncodeChar_shape (c : Char) : ∃ lead conts,
    String.utf8EncodeChar c = lead :: conts ∧ (∀ b ∈ conts, isContinuation b = true) ∧
      ((conts = [] ∧ lead.toNat < 128) ∨ (conts ≠ [] ∧ 192 ≤ lead.toNat)) := by
  have hcont : ∀ x, isContinuation (UInt8.ofNat (x % 0x40 + 0x80)) = true := by
    intro x
    rw [isContinuation_iff, UInt8.toNat_ofNat']
    omega
  have hcont₁ : ∀ x, ∀ b ∈ [UInt8.ofNat (x % 0x40 + 0x80)], isContinuation b = true := by
    intro x b hb
    rw [List.mem_singleton.1 hb]
    exact hcont x
  have hmore : ∀ x bs, (∀ b ∈ bs, isContinuation b = true) →
      ∀ b ∈ UInt8.ofNat (x % 0x40 + 0x80) :: bs, isContinuation b = true := by
    intro x bs hbs b hb
    rcases List.mem_cons.1 hb with rfl | hb
    · exact hcont x
    · exact hbs b hb
  unfold String.utf8EncodeChar
  dsimp only
  split_ifs with h1 h2 h3
  · refine ⟨_, _, rfl, by simp, Or.inl ⟨rfl, ?_⟩⟩
    rw [UInt8.toNat_ofNat']
    omega
  · refine ⟨_, _, rfl, hcont₁ _, Or.inr ⟨by simp, ?_⟩⟩
    rw [UInt8.toNat_ofNat']
    omega
  · refine ⟨_, _, rfl, hmore _ _ (hcont₁ _), Or.inr ⟨by simp, ?_⟩⟩
    rw [UInt8.toNat_ofNat']
    omega
  · refine ⟨_, _, rfl, hmore _ _ (hmore _ _ (hcont₁ _)), Or.inr ⟨by simp, ?_⟩⟩
    rw [UInt8.toNat_ofNat']
    omega

/-- No text ends in a lead byte of more than one. -/
theorem getLast?_encode {s : List Char} {b : UInt8} (h : (encode s).getLast? = some b) :
    b.toNat < 192 := by
  induction s using List.reverseRecOn with
  | nil => cases h
  | append_singleton s c _ =>
    obtain ⟨lead, conts, henc, hconts, hlead⟩ := utf8EncodeChar_shape c
    have hlast : (lead :: conts).getLast? = some b := by
      rw [← h, encode_append, encode_cons, encode_nil, List.append_nil, henc,
        List.getLast?_append_of_ne_nil _ (by simp)]
    rcases hlead with ⟨rfl, hlt⟩ | ⟨hne, -⟩
    · have hb : lead = b := by simpa using hlast
      rw [← hb]
      omega
    · have hmem : b ∈ conts := by
        rw [List.getLast?_cons, List.getLast?_eq_getLast_of_ne_nil hne] at hlast
        cases hlast
        exact List.getLast_mem hne
      exact ((isContinuation_iff b).1 (hconts b hmem)).2

/-- A non-empty front part of an encoding ends in or right after some character. -/
theorem take_encode {s : List Char} {n : Nat} (h : (encode s).take n ≠ []) :
    ∃ t c r k, s = t ++ c :: r ∧ 0 < k ∧ k ≤ (String.utf8EncodeChar c).length ∧
      (encode s).take n = encode t ++ (String.utf8EncodeChar c).take k := by
  induction s generalizing n with
  | nil => simp at h
  | cons c s ih =>
    by_cases hrest : (encode s).take (n - (String.utf8EncodeChar c).length) = []
    · refine ⟨[], c, s, min n (String.utf8EncodeChar c).length, rfl, ?_, by omega, ?_⟩
      · have hn : n ≠ 0 := by
          intro hn
          simp [hn] at h
        have hlen := String.length_utf8EncodeChar c
        have hpos := c.utf8Size_pos
        omega
      · rw [encode_cons, List.take_append, hrest, encode_nil, List.nil_append, List.append_nil]
        exact List.take_eq_take_min
    · obtain ⟨t, d, r, k, rfl, hk, hle, htake⟩ := ih hrest
      refine ⟨c :: t, d, r, k, rfl, hk, hle, ?_⟩
      have hn : (String.utf8EncodeChar c).length ≤ n := by
        by_contra hlt
        have hzero : n - (String.utf8EncodeChar c).length = 0 := by omega
        rw [hzero] at hrest
        exact hrest rfl
      rw [encode_cons, List.take_append, htake, List.take_of_length_le hn, encode_cons,
        List.append_assoc]

theorem takeBytes_eq_of_take {s t : List Char} {n : Nat} (ht : t <+: s)
    (h : (encode s).take n = encode t) : takeBytes n s = t := by
  induction s generalizing n t with
  | nil =>
    obtain rfl : t = [] := List.prefix_nil.1 ht
    rfl
  | cons c s ih =>
    have hpos := c.utf8Size_pos
    have hlen := String.length_utf8EncodeChar c
    cases t with
    | nil =>
      have hn : n = 0 := by
        have hnil : (encode (c :: s)).take n = [] := h
        rcases List.take_eq_nil_iff.1 hnil with hn | hn
        · exact hn
        · have := congrArg List.length hn
          simp at this
          omega
      rw [takeBytes, if_neg (by omega)]
    | cons d t =>
      obtain ⟨rfl, hts⟩ := List.cons_prefix_cons.1 ht
      rw [encode_cons, encode_cons, List.take_append] at h
      have hn : d.utf8Size ≤ n := by
        by_contra hlt
        have hshort := congrArg List.length h
        simp [hlen] at hshort
        omega
      rw [List.take_of_length_le (by omega)] at h
      rw [takeBytes, if_pos hn, ih hts (by rw [← hlen]; exact List.append_cancel_left h)]

/-! The longest front part of whole characters. -/

theorem takeBytes_prefix (n : Nat) (s : List Char) : takeBytes n s <+: s := by
  induction s generalizing n with
  | nil => exact List.prefix_rfl
  | cons c s ih =>
    rw [takeBytes]
    split_ifs
    · exact List.cons_prefix_cons.2 ⟨rfl, ih _⟩
    · exact List.nil_prefix

theorem length_takeBytes_le (n : Nat) (s : List Char) : (encode (takeBytes n s)).length ≤ n := by
  induction s generalizing n with
  | nil => exact Nat.zero_le n
  | cons c s ih =>
    rw [takeBytes]
    split_ifs with hc
    · have hle := ih (n - c.utf8Size)
      rw [encode_cons, List.length_append, String.length_utf8EncodeChar]
      omega
    · exact Nat.zero_le n

theorem prefix_takeBytes {n : Nat} {s t : List Char} (ht : t <+: s) (h : (encode t).length ≤ n) :
    t <+: takeBytes n s := by
  induction s generalizing n t with
  | nil => exact ht
  | cons c s ih =>
    cases t with
    | nil => exact List.nil_prefix
    | cons d t =>
      obtain ⟨rfl, hts⟩ := List.cons_prefix_cons.1 ht
      rw [encode_cons, List.length_append, String.length_utf8EncodeChar] at h
      rw [takeBytes, if_pos (by omega)]
      exact List.cons_prefix_cons.2 ⟨rfl, ih hts (by omega)⟩

theorem takeBytes_of_le {n : Nat} {s : List Char} (h : (encode s).length ≤ n) :
    takeBytes n s = s :=
  takeBytes_eq_of_take List.prefix_rfl (List.take_of_length_le h)

/-! Cutting an encoding at a byte and then dropping the continuation bytes at its end. -/

/-- In plain text bytes are characters. -/
theorem takeBytes_ascii {n : Nat} {s : List Char} (h : ∀ c ∈ s, c.utf8Size = 1) :
    takeBytes n s = s.take n := by
  induction s generalizing n with
  | nil => cases n <;> rfl
  | cons c s ih =>
    obtain ⟨hc, hs⟩ := List.forall_mem_cons.1 h
    cases n with
    | zero => simp [takeBytes, hc]
    | succ n => simp [takeBytes, hc, ih hs]

theorem rdropWhile_append_cons {α : Type} {p : α → Bool} {l tail : List α} {x : α}
    (hx : ¬ p x = true) (htail : ∀ b ∈ tail, p b = true) :
    (l ++ x :: tail).rdropWhile p = l ++ [x] := by
  induction tail using List.reverseRecOn with
  | nil => rw [List.rdropWhile_concat, if_neg hx]
  | append_singleton tail b ih =>
    have hassoc : l ++ x :: (tail ++ [b]) = (l ++ x :: tail) ++ [b] := by simp
    rw [hassoc, List.rdropWhile_concat, if_pos (htail b (by simp))]
    apply ih
    intro b' hb'
    exact htail b' (by simp [hb'])

/-- After an ASCII byte the cut is clean. Elsewhere what remains ends in a lead byte. -/
theorem rdropWhile_take_encode (n : Nat) (s : List Char) :
    ((∀ b, ((encode s).take n).getLast? = some b → b.toNat < 128) ∧
        ((encode s).take n).rdropWhile isContinuation = encode (takeBytes n s)) ∨
      ((∃ b, ((encode s).take n).getLast? = some b ∧ 128 ≤ b.toNat) ∧
        ∃ lead, (((encode s).take n).rdropWhile isContinuation).getLast? = some lead ∧
          192 ≤ lead.toNat) := by
  by_cases hnil : (encode s).take n = []
  · left
    have hcut : takeBytes n s = [] := takeBytes_eq_of_take List.nil_prefix hnil
    rw [hnil, hcut]
    exact ⟨by simp, rfl⟩
  obtain ⟨t, c, r, k, rfl, hk, hle, htake⟩ := take_encode hnil
  obtain ⟨lead, conts, henc, hconts, hlead⟩ := utf8EncodeChar_shape c
  obtain ⟨k, rfl⟩ : ∃ j, k = j + 1 := ⟨k - 1, by omega⟩
  rw [henc, List.take_succ_cons] at htake
  have hnot : ∀ b : UInt8, b.toNat < 128 ∨ 192 ≤ b.toNat → ¬ isContinuation b = true := by
    intro b hb
    rw [isContinuation_iff]
    omega
  rcases hlead with ⟨rfl, hlt⟩ | ⟨-, hlead⟩
  · left
    have hwhole : encode t ++ [lead] = encode (t ++ [c]) := by
      rw [encode_append, encode_cons, encode_nil, List.append_nil, henc]
    have hcut : takeBytes n (t ++ c :: r) = t ++ [c] :=
      takeBytes_eq_of_take ⟨r, by simp⟩ (by rw [htake, ← hwhole, List.take_nil])
    rw [htake, hcut, ← hwhole, List.take_nil]
    refine ⟨by simp [hlt], ?_⟩
    rw [List.rdropWhile_concat, if_neg (hnot lead (Or.inl hlt))]
  · right
    have htail : ∀ b ∈ conts.take k, isContinuation b = true := by
      intro b hb
      exact hconts b (List.mem_of_mem_take hb)
    rw [htake, rdropWhile_append_cons (hnot lead (Or.inr hlead)) htail]
    refine ⟨⟨(lead :: conts.take k).getLast (by simp), ?_, ?_⟩, lead, by simp, hlead⟩
    · rw [List.getLast?_append_of_ne_nil _ (by simp), List.getLast?_eq_getLast_of_ne_nil]
    · rcases List.mem_cons.1 (List.getLast_mem (l := lead :: conts.take k) (by simp)) with hb | hb
      · rw [hb]
        omega
      · exact ((isContinuation_iff _).1 (htail _ hb)).1

end Utf8

end Lib
