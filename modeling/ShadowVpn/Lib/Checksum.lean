import Mathlib.Data.Nat.ModEq
import ShadowVpn.Lib.Bytes

/-! The Internet checksum. Sixteen-bit words are added with end-around carry, so a sum
stands for its class modulo `2 ^ 16 - 1`, and of the two representatives of zero only an
empty sum gives `0`. Overwriting a field at an even offset moves the sum by the difference
of the words. -/

namespace Lib

/-! Overwriting a part of a buffer. -/

section Splice

variable {α : Type}

/-- Write `new` over what stands at `pos`. -/
def splice (l : List α) (pos : Nat) (new : List α) : List α :=
  l.take pos ++ new ++ l.drop (pos + new.length)

variable {l new : List α} {pos k : Nat}

@[simp] theorem length_splice (h : pos + new.length ≤ l.length) :
    (splice l pos new).length = l.length := by
  simp only [splice, List.length_append, List.length_take, List.length_drop]
  omega

theorem getElem?_splice (h : pos + new.length ≤ l.length) :
    (splice l pos new)[k]? = if pos ≤ k ∧ k < pos + new.length then new[k - pos]? else l[k]? := by
  have hpos : min pos l.length = pos := by omega
  unfold splice
  rw [List.append_assoc]
  by_cases hlt : k < pos
  · rw [List.getElem?_append_left (by simp; omega), List.getElem?_take_of_lt hlt,
      if_neg (by omega)]
  rw [List.getElem?_append_right (by simp; omega), List.length_take, hpos]
  by_cases hin : k < pos + new.length
  · rw [List.getElem?_append_left (by omega), if_pos (by omega)]
  · rw [List.getElem?_append_right (by omega), List.getElem?_drop, if_neg (by omega)]
    congr 1
    omega

/-- A field between what comes before and after it. -/
theorem splice_append {a old b : List α} (hpos : a.length = pos) (h : old.length = new.length) :
    splice (a ++ (old ++ b)) pos new = a ++ new ++ b := by
  rw [← hpos, splice, List.take_left, ← List.drop_drop, List.drop_left, ← h, List.drop_left]

/-- What was written is read back. -/
theorem take_drop_splice (h : pos + new.length ≤ l.length) :
    ((splice l pos new).drop pos).take new.length = new := by
  have hpos : (l.take pos).length = pos := by
    rw [List.length_take]
    omega
  unfold splice
  rw [List.append_assoc, List.drop_left' hpos, List.take_left' rfl]

/-- A front part that holds all of the field. -/
theorem take_splice (h : pos + new.length ≤ k) (hk : k ≤ l.length) :
    (splice l pos new).take k = splice (l.take k) pos new := by
  apply List.ext_getElem?
  intro j
  rw [getElem?_splice (by rw [List.length_take]; omega), List.getElem?_take, List.getElem?_take,
    getElem?_splice (by omega)]
  split_ifs <;> first | rfl | omega

/-- A front part that ends before the field. -/
theorem take_splice_of_le (h : k ≤ pos) (hl : pos + new.length ≤ l.length) :
    (splice l pos new).take k = l.take k := by
  apply List.ext_getElem?
  intro j
  rw [List.getElem?_take, List.getElem?_take, getElem?_splice hl]
  split_ifs <;> first | rfl | omega

/-- A rear part that starts before the field. -/
theorem drop_splice (h : k ≤ pos) (hl : pos + new.length ≤ l.length) :
    (splice l pos new).drop k = splice (l.drop k) (pos - k) new := by
  apply List.ext_getElem?
  intro j
  rw [getElem?_splice (by rw [List.length_drop]; omega), List.getElem?_drop, List.getElem?_drop,
    getElem?_splice hl]
  by_cases hin : pos ≤ k + j ∧ k + j < pos + new.length
  · rw [if_pos hin, if_pos (by omega)]
    congr 1
    omega
  · rw [if_neg hin, if_neg (by omega)]

/-- A rear part that starts after the field. -/
theorem drop_splice_of_le (h : pos + new.length ≤ k) (hl : pos + new.length ≤ l.length) :
    (splice l pos new).drop k = l.drop k := by
  apply List.ext_getElem?
  intro j
  rw [List.getElem?_drop, List.getElem?_drop, getElem?_splice hl, if_neg (by omega)]

end Splice

/-! Sums of words. -/

/-- The big-endian words of a buffer added up, a last odd byte padded with a zero. -/
def wordSum : Bytes → Nat
  | [] => 0
  | [a] => a.toNat * 256
  | a :: b :: w => a.toNat * 256 + b.toNat + wordSum w

theorem wordSum_append {v : Bytes} (w : Bytes) (h : v.length % 2 = 0) :
    wordSum (v ++ w) = wordSum v + wordSum w := by
  induction v using wordSum.induct with
  | case1 => simp [wordSum]
  | case2 a => simp at h
  | case3 a b v ih =>
    have hv : v.length % 2 = 0 := by
      rw [List.length_cons, List.length_cons] at h
      omega
    simp only [List.cons_append, wordSum, ih hv]
    omega

theorem wordSum_le (w : Bytes) : wordSum w ≤ 65535 * ((w.length + 1) / 2) := by
  induction w using wordSum.induct with
  | case1 => simp [wordSum]
  | case2 a =>
    have ha := a.toNat_lt
    simp only [wordSum, List.length_singleton]
    omega
  | case3 a b w ih =>
    have ha := a.toNat_lt
    have hb := b.toNat_lt
    simp only [wordSum, List.length_cons]
    omega

theorem wordSum_toBE {v : Nat} (h : v < 65536) : wordSum (toBE 2 v) = v := by
  have hhigh : (UInt8.ofNat (v / 256)).toNat = v / 256 := by
    rw [UInt8.toNat_ofNat']
    omega
  have hlow : (UInt8.ofNat v).toNat = v % 256 := UInt8.toNat_ofNat'
  change (UInt8.ofNat (v / 256)).toNat * 256 + (UInt8.ofNat v).toNat + 0 = v
  omega

theorem wordSum_splice {w new : Bytes} {pos n : Nat} (hpos : pos % 2 = 0)
    (hn : new.length = n) (hnew : n % 2 = 0) (h : pos + n ≤ w.length) :
    wordSum (splice w pos new) + wordSum ((w.drop pos).take n) = wordSum w + wordSum new := by
  subst hn
  have hhead : (w.take pos).length % 2 = 0 := by
    rw [List.length_take]
    omega
  have hfield : ((w.drop pos).take new.length).length % 2 = 0 := by
    rw [List.length_take, List.length_drop]
    omega
  have hw : w = w.take pos ++ ((w.drop pos).take new.length ++ w.drop (pos + new.length)) := by
    rw [← List.drop_drop, List.take_append_drop, List.take_append_drop]
  have hsum : wordSum w = wordSum (w.take pos) + (wordSum ((w.drop pos).take new.length) +
      wordSum (w.drop (pos + new.length))) := by
    conv_lhs => rw [hw]
    rw [wordSum_append _ hhead, wordSum_append _ hfield]
  rw [hsum, splice, List.append_assoc, wordSum_append _ hhead, wordSum_append _ hnew]
  omega

/-- A byte that is not zero makes the sum positive. -/
theorem wordSum_pos {w : Bytes} {k : Nat} {b : UInt8} (hk : w[k]? = some b) (hb : b ≠ 0) :
    0 < wordSum w := by
  have hpos : 0 < b.toNat := by
    apply Nat.pos_of_ne_zero
    intro h0
    exact hb (UInt8.toNat_inj.1 h0)
  induction w using wordSum.induct generalizing k with
  | case1 => simp at hk
  | case2 a =>
    cases k with
    | zero =>
      cases hk
      simp only [wordSum]
      omega
    | succ k => simp at hk
  | case3 a c w ih =>
    cases k with
    | zero =>
      cases hk
      simp only [wordSum]
      omega
    | succ k =>
      cases k with
      | zero =>
        cases hk
        simp only [wordSum]
        omega
      | succ k =>
        have := ih hk
        simp only [wordSum]
        omega

/-! End-around carry. -/

/-- Add the carry back in until the sum fits sixteen bits. -/
def foldCarry (n : Nat) : Nat :=
  if n / 65536 ≠ 0 then foldCarry (n % 65536 + n / 65536) else n
termination_by n
decreasing_by omega

theorem foldCarry_lt (n : Nat) : foldCarry n < 65536 := by
  induction n using foldCarry.induct with
  | case1 n h ih =>
    rw [foldCarry, if_pos h]
    exact ih
  | case2 n h =>
    rw [foldCarry, if_neg h]
    omega

theorem foldCarry_modEq (n : Nat) : foldCarry n ≡ n [MOD 65535] := by
  induction n using foldCarry.induct with
  | case1 n h ih =>
    rw [foldCarry, if_pos h]
    refine ih.trans ?_
    unfold Nat.ModEq
    omega
  | case2 n h => rw [foldCarry, if_neg h]

theorem foldCarry_eq_zero (n : Nat) : foldCarry n = 0 ↔ n = 0 := by
  induction n using foldCarry.induct with
  | case1 n h ih =>
    rw [foldCarry, if_pos h, ih]
    omega
  | case2 n h => rw [foldCarry, if_neg h]

/-- All bits are set exactly for the positive multiples of the modulus. -/
theorem foldCarry_eq_max (n : Nat) : foldCarry n = 65535 ↔ 0 < n ∧ n ≡ 0 [MOD 65535] := by
  have hlt := foldCarry_lt n
  have hmod := foldCarry_modEq n
  have hzero := foldCarry_eq_zero n
  unfold Nat.ModEq at hmod ⊢
  omega

/-- A sum with its checksum has all bits set, also when all bits stand for a checksum of zero. -/
theorem foldCarry_add_complement (n : Nat) : foldCarry (n + (65535 - foldCarry n)) = 65535 := by
  have hlt := foldCarry_lt n
  have hmod := foldCarry_modEq n
  have hzero := foldCarry_eq_zero n
  rw [foldCarry_eq_max]
  unfold Nat.ModEq at hmod ⊢
  omega

theorem foldCarry_add_max {n : Nat} (h : 65535 - foldCarry n = 0) :
    foldCarry (n + 65535) = 65535 := by
  have hlt := foldCarry_lt n
  have hmod := foldCarry_modEq n
  rw [foldCarry_eq_max]
  unfold Nat.ModEq at hmod ⊢
  omega

/-- The one's-complement sum of a buffer. -/
def onesSum (w : Bytes) : Nat := foldCarry (wordSum w)

/-- Two buffers of one class, neither of them all zero, agree on whether the sum has all
bits set. -/
theorem onesSum_max_congr {v w : Bytes} (h : wordSum v ≡ wordSum w [MOD 65535])
    (hv : 0 < wordSum v) (hw : 0 < wordSum w) : onesSum v = 65535 ↔ onesSum w = 65535 := by
  rw [onesSum, onesSum, foldCarry_eq_max, foldCarry_eq_max]
  unfold Nat.ModEq at h ⊢
  omega

end Lib
