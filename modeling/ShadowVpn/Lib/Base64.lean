import Mathlib.Data.Nat.Bitwise
import Mathlib.Data.BitVec
import Mathlib.Data.List.ReduceOption

/-! Bytes as digits of six bits. Three bytes make four digits; a last group of one or two
bytes is filled with zero bits to whole digits, and then with padding to four places. -/

namespace Lib

/-! Words built and cut by shifts. -/

/-- To shift and to fill the gap is to multiply and to add. -/
theorem toNat_shiftLeft_or {w k : ℕ} (x : BitVec w) {v : BitVec w} (hk : k ≤ w)
    (hv : v.toNat < 2 ^ k) : (x <<< k ||| v).toNat = (x.toNat * 2 ^ k + v.toNat) % 2 ^ w := by
  have hw : 2 ^ w = 2 ^ (w - k) * 2 ^ k := by
    rw [← Nat.pow_add, Nat.sub_add_cancel hk]
  have hcut : x.toNat * 2 ^ k % 2 ^ w = x.toNat % 2 ^ (w - k) * 2 ^ k := by
    rw [hw, Nat.mul_mod_mul_right]
  have hsum : (x <<< k ||| v).toNat = x.toNat * 2 ^ k % 2 ^ w + v.toNat := by
    rw [BitVec.toNat_or, BitVec.toNat_shiftLeft, Nat.shiftLeft_eq, hcut, ← Nat.shiftLeft_eq,
      ← Nat.shiftLeft_add_eq_or_of_lt hv]
  have hlt := (x <<< k ||| v).isLt
  rw [hsum] at hlt
  rw [hsum, ← Nat.mod_add_mod, Nat.mod_eq_of_lt hlt]

theorem toNat_ushiftRight_and {w : ℕ} (x : BitVec w) (s : ℕ) {k : ℕ} (hk : k ≤ w) :
    (x >>> s &&& BitVec.ofNat w (2 ^ k - 1)).toNat = x.toNat / 2 ^ s % 2 ^ k := by
  have hlt : 2 ^ k - 1 < 2 ^ w := by
    have := Nat.pow_le_pow_right (n := 2) (by decide) hk
    have := Nat.two_pow_pos k
    omega
  rw [BitVec.toNat_and, BitVec.toNat_ofNat, Nat.mod_eq_of_lt hlt, Nat.and_two_pow_sub_one_eq_mod,
    BitVec.toNat_ushiftRight, Nat.shiftRight_eq_div_pow]

namespace Base64

/-- The `i`-th digit, from the left, of a group of 24 bits. -/
def digit (n i : ℕ) : Fin 64 := ⟨n / 64 ^ (3 - i) % 64, Nat.mod_lt _ (by decide)⟩

/-- A group as a number. -/
def group (a b c : UInt8) : ℕ := a.toNat * 65536 + b.toNat * 256 + c.toNat

/-- The digits of a text; `none` is padding. -/
def digits : List UInt8 → List (Option (Fin 64))
  | [] => []
  | [a] => [some (digit (group a 0 0) 0), some (digit (group a 0 0) 1), none, none]
  | [a, b] =>
    [some (digit (group a b 0) 0), some (digit (group a b 0) 1), some (digit (group a b 0) 2), none]
  | a :: b :: c :: rest =>
    some (digit (group a b c) 0) :: some (digit (group a b c) 1) :: some (digit (group a b c) 2) ::
      some (digit (group a b c) 3) :: digits rest

theorem length_digits (data : List UInt8) : (digits data).length = 4 * ((data.length + 2) / 3) := by
  induction data using digits.induct with
  | case1 => rfl
  | case2 a => simp [digits]
  | case3 a b => simp [digits]
  | case4 a b c rest ih =>
    rw [digits, List.length_cons, List.length_cons, List.length_cons, List.length_cons, ih,
      List.length_cons, List.length_cons, List.length_cons]
    omega

/-- What an accumulator of digits gives back: each byte lies in two of them. -/
theorem group_bytes (a b c : UInt8) (buf : ℕ) :
    ((buf * 64 + digit (group a b c) 0) * 64 + digit (group a b c) 1) / 16 % 256 = a.toNat ∧
    (((buf * 64 + digit (group a b c) 0) * 64 + digit (group a b c) 1) * 64 +
      digit (group a b c) 2) / 4 % 256 = b.toNat ∧
    ((((buf * 64 + digit (group a b c) 0) * 64 + digit (group a b c) 1) * 64 +
      digit (group a b c) 2) * 64 + digit (group a b c) 3) % 256 = c.toNat := by
  have ha := a.toNat_lt
  have hb := b.toNat_lt
  have hc := c.toNat_lt
  simp only [digit, group]
  refine ⟨?_, ?_, ?_⟩ <;> omega

/-- Four digits as a group. -/
def number (d₀ d₁ d₂ d₃ : Fin 64) : ℕ := ((d₀ * 64 + d₁) * 64 + d₂) * 64 + d₃

theorem digit_number (d₀ d₁ d₂ d₃ : Fin 64) :
    digit (number d₀ d₁ d₂ d₃) 0 = d₀ ∧ digit (number d₀ d₁ d₂ d₃) 1 = d₁ ∧
    digit (number d₀ d₁ d₂ d₃) 2 = d₂ ∧ digit (number d₀ d₁ d₂ d₃) 3 = d₃ := by
  simp only [digit, number, Fin.ext_iff]
  refine ⟨?_, ?_, ?_, ?_⟩ <;> omega

/-- Every group of digits is that of three bytes. -/
theorem group_number (d₀ d₁ d₂ d₃ : Fin 64) :
    group (UInt8.ofNat (number d₀ d₁ d₂ d₃ / 65536)) (UInt8.ofNat (number d₀ d₁ d₂ d₃ / 256))
      (UInt8.ofNat (number d₀ d₁ d₂ d₃)) = number d₀ d₁ d₂ d₃ := by
  simp only [group, number, UInt8.toNat_ofNat']
  omega

/-- Whole groups of digits, and a last one that may be padded and then ends in zero bits. -/
def Canonical : List (Option (Fin 64)) → Prop
  | [] => True
  | [some _, some b, none, none] => b.val % 16 = 0
  | [some _, some _, some c, none] => c.val % 4 = 0
  | some _ :: some _ :: some _ :: some _ :: rest => Canonical rest
  | _ => False

theorem canonical_digits (data : List UInt8) : Canonical (digits data) := by
  induction data using digits.induct with
  | case1 => trivial
  | case2 a =>
    simp only [digits, Canonical, digit, group, UInt8.toNat_zero]
    omega
  | case3 a b =>
    simp only [digits, Canonical, digit, group, UInt8.toNat_zero]
    omega
  | case4 a b c rest ih =>
    rw [digits, Canonical]
    exact ih

theorem ofNat_eq_zero {n : ℕ} (h : n % 256 = 0) : UInt8.ofNat n = 0 := by
  apply UInt8.toNat_inj.1
  rw [UInt8.toNat_ofNat', h]
  rfl

/-! Digits as those of bytes, by the size of the last group. -/

theorem digits_one (d₀ : Fin 64) {d₁ : Fin 64} (h : d₁.val % 16 = 0) :
    digits [UInt8.ofNat (number d₀ d₁ 0 0 / 65536)] = [some d₀, some d₁, none, none] := by
  obtain ⟨h₀, h₁, -, -⟩ := digit_number d₀ d₁ 0 0
  have hlow : number d₀ d₁ 0 0 % 256 = 0 ∧ number d₀ d₁ 0 0 / 256 % 256 = 0 := by
    simp only [number, Fin.coe_ofNat_eq_mod]
    omega
  have hgroup := group_number d₀ d₁ 0 0
  rw [ofNat_eq_zero hlow.1, ofNat_eq_zero hlow.2] at hgroup
  rw [digits, hgroup, h₀, h₁]

theorem digits_two (d₀ d₁ : Fin 64) {d₂ : Fin 64} (h : d₂.val % 4 = 0) :
    digits [UInt8.ofNat (number d₀ d₁ d₂ 0 / 65536), UInt8.ofNat (number d₀ d₁ d₂ 0 / 256)] =
      [some d₀, some d₁, some d₂, none] := by
  obtain ⟨h₀, h₁, h₂, -⟩ := digit_number d₀ d₁ d₂ 0
  have hlow : number d₀ d₁ d₂ 0 % 256 = 0 := by
    simp only [number, Fin.coe_ofNat_eq_mod]
    omega
  have hgroup := group_number d₀ d₁ d₂ 0
  rw [ofNat_eq_zero hlow] at hgroup
  rw [digits, hgroup, h₀, h₁, h₂]

theorem digits_three (d₀ d₁ d₂ d₃ : Fin 64) (data : List UInt8) :
    digits (UInt8.ofNat (number d₀ d₁ d₂ d₃ / 65536) :: UInt8.ofNat (number d₀ d₁ d₂ d₃ / 256) ::
      UInt8.ofNat (number d₀ d₁ d₂ d₃) :: data) =
      some d₀ :: some d₁ :: some d₂ :: some d₃ :: digits data := by
  obtain ⟨h₀, h₁, h₂, h₃⟩ := digit_number d₀ d₁ d₂ d₃
  rw [digits, group_number, h₀, h₁, h₂, h₃]

/-- The canonical texts are those that bytes are written as. -/
theorem exists_digits {ds : List (Option (Fin 64))} (h : Canonical ds) :
    ∃ data, digits data = ds := by
  induction ds using Canonical.induct with
  | case1 => exact ⟨[], rfl⟩
  | case2 d₀ d₁ => exact ⟨_, digits_one d₀ h⟩
  | case3 d₀ d₁ d₂ => exact ⟨_, digits_two d₀ d₁ h⟩
  | case4 d₀ d₁ d₂ d₃ rest ih =>
    rw [Canonical] at h
    obtain ⟨data, rfl⟩ := ih h
    exact ⟨_, digits_three d₀ d₁ d₂ d₃ data⟩
  | case5 ds hnil htwo hthree hfour =>
    rw [Canonical.eq_5 ds hnil htwo hthree hfour] at h
    exact h.elim

/-! Texts without padding. -/

/-- The digits without the padding. -/
def unpadded (data : List UInt8) : List (Fin 64) := (digits data).reduceOption

/-- The bytes of digits without padding; bits that are left over are zero. -/
def bytes : List (Fin 64) → Option (List UInt8)
  | [] => some []
  | [_] => none
  | [d₀, d₁] =>
    if d₁.val % 16 = 0 then some [UInt8.ofNat (number d₀ d₁ 0 0 / 65536)] else none
  | [d₀, d₁, d₂] =>
    if d₂.val % 4 = 0 then
      some [UInt8.ofNat (number d₀ d₁ d₂ 0 / 65536), UInt8.ofNat (number d₀ d₁ d₂ 0 / 256)]
    else none
  | d₀ :: d₁ :: d₂ :: d₃ :: rest =>
    (bytes rest).map fun data =>
      UInt8.ofNat (number d₀ d₁ d₂ d₃ / 65536) :: UInt8.ofNat (number d₀ d₁ d₂ d₃ / 256) ::
        UInt8.ofNat (number d₀ d₁ d₂ d₃) :: data

theorem unpadded_of_bytes {ds : List (Fin 64)} {data : List UInt8} (h : bytes ds = some data) :
    unpadded data = ds := by
  induction ds using bytes.induct generalizing data with
  | case1 =>
    cases h
    rfl
  | case2 d => cases h
  | case3 d₀ d₁ hzero =>
    rw [bytes, if_pos hzero] at h
    cases h
    rw [unpadded, digits_one d₀ hzero]
    rfl
  | case4 d₀ d₁ hzero =>
    rw [bytes, if_neg hzero] at h
    cases h
  | case5 d₀ d₁ d₂ hzero =>
    rw [bytes, if_pos hzero] at h
    cases h
    rw [unpadded, digits_two d₀ d₁ hzero]
    rfl
  | case6 d₀ d₁ d₂ hzero =>
    rw [bytes, if_neg hzero] at h
    cases h
  | case7 d₀ d₁ d₂ d₃ rest ih =>
    rw [bytes] at h
    obtain ⟨data, hdata, rfl⟩ := Option.map_eq_some_iff.1 h
    rw [unpadded, digits_three d₀ d₁ d₂ d₃ data, ← ih hdata]
    rfl

/-- The digits of a group make it up again. -/
theorem number_digit {n : ℕ} (h : n < 2 ^ 24) :
    number (digit n 0) (digit n 1) (digit n 2) (digit n 3) = n := by
  simp only [number, digit]
  omega

theorem group_lt (a b c : UInt8) : group a b c < 2 ^ 24 := by
  have ha := a.toNat_lt
  have hb := b.toNat_lt
  have hc := c.toNat_lt
  simp only [group]
  omega

theorem bytes_group (a b c : UInt8) : UInt8.ofNat (group a b c / 65536) = a ∧
    UInt8.ofNat (group a b c / 256) = b ∧ UInt8.ofNat (group a b c) = c := by
  have ha := a.toNat_lt
  have hb := b.toNat_lt
  have hc := c.toNat_lt
  refine ⟨?_, ?_, ?_⟩ <;>
  · apply UInt8.toNat_inj.1
    rw [UInt8.toNat_ofNat', group]
    omega

theorem bytes_unpadded (data : List UInt8) : bytes (unpadded data) = some data := by
  induction data using digits.induct with
  | case1 => rfl
  | case2 a =>
    have h₂ : digit (group a 0 0) 2 = 0 ∧ digit (group a 0 0) 3 = 0 := by
      simp only [digit, group, UInt8.toNat_zero, Fin.ext_iff, Fin.coe_ofNat_eq_mod]
      omega
    have hzero : (digit (group a 0 0) 1).val % 16 = 0 := canonical_digits [a]
    have hnumber := number_digit (group_lt a 0 0)
    rw [h₂.1, h₂.2] at hnumber
    have hunpadded : unpadded [a] = [digit (group a 0 0) 0, digit (group a 0 0) 1] := rfl
    rw [hunpadded, bytes, if_pos hzero, hnumber, (bytes_group a 0 0).1]
  | case3 a b =>
    have h₃ : digit (group a b 0) 3 = 0 := by
      simp only [digit, group, UInt8.toNat_zero, Fin.ext_iff, Fin.coe_ofNat_eq_mod]
      omega
    have hzero : (digit (group a b 0) 2).val % 4 = 0 := canonical_digits [a, b]
    have hnumber := number_digit (group_lt a b 0)
    rw [h₃] at hnumber
    have hunpadded : unpadded [a, b] =
        [digit (group a b 0) 0, digit (group a b 0) 1, digit (group a b 0) 2] := rfl
    rw [hunpadded, bytes, if_pos hzero, hnumber, (bytes_group a b 0).1, (bytes_group a b 0).2.1]
  | case4 a b c rest ih =>
    have hunpadded : unpadded (a :: b :: c :: rest) = digit (group a b c) 0 ::
        digit (group a b c) 1 :: digit (group a b c) 2 :: digit (group a b c) 3 ::
        unpadded rest := rfl
    obtain ⟨ha, hb, hc⟩ := bytes_group a b c
    rw [hunpadded, bytes, number_digit (group_lt a b c), ih, ha, hb, hc]
    rfl

theorem bytes_eq_some {ds : List (Fin 64)} {data : List UInt8} :
    bytes ds = some data ↔ ds = unpadded data := by
  refine ⟨fun h => (unpadded_of_bytes h).symm, ?_⟩
  rintro rfl
  exact bytes_unpadded data

end Base64

end Lib
