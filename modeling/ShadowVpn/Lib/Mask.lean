import Mathlib.Data.List.TakeWhile
import Mathlib.Data.Nat.Bitwise

/-! Masks of a fixed width. The addresses that agree with `a` under the mask `m` lie between
`a &&& m` and `a &&& m ||| ~~~m`, and they are all that lie there only if the ones of the mask
come first. -/

namespace Lib

/-! The run at the beginning of a range. -/

section

variable {p : ℕ → Bool} {n : ℕ}

theorem length_takeWhile_range_le : ((List.range n).takeWhile p).length ≤ n := by
  simpa using (List.takeWhile_prefix p (l := List.range n)).length_le

theorem of_lt_takeWhile_range {i : ℕ} (hi : i < ((List.range n).takeWhile p).length) :
    p i = true := by
  have hmem := List.getElem_mem hi
  rw [(List.takeWhile_prefix p).getElem hi, List.getElem_range] at hmem
  exact List.mem_takeWhile_imp hmem

theorem takeWhile_range_stop (h : ((List.range n).takeWhile p).length < n) :
    p ((List.range n).takeWhile p).length = false := by
  induction n with
  | zero => simp at h
  | succ n ih =>
    rw [List.range_succ, List.takeWhile_append, List.length_range] at h ⊢
    split_ifs at h ⊢ with hall
    · cases hp : p n
      · simp [hp]
      · simp [hp] at h
    · have hle := length_takeWhile_range_le (p := p) (n := n)
      exact ih (by omega)

end

namespace Mask

variable {w : ℕ} {a m n x y : BitVec w} {i : ℕ}

/-- No clear bit above a set one. -/
def Contiguous (m : BitVec w) : Prop :=
  ∀ j < w, ∀ i ≤ j, m.getLsbD i = true → m.getLsbD j = true

instance (m : BitVec w) : Decidable (Contiguous m) :=
  inferInstanceAs (Decidable (∀ j < w, ∀ i ≤ j, m.getLsbD i = true → m.getLsbD j = true))

def leadingOnes (m : BitVec w) : ℕ := ((List.range w).takeWhile m.getMsbD).length

def trailingZeros (m : BitVec w) : ℕ := ((List.range w).takeWhile fun i => !m.getLsbD i).length

/-- A contiguous mask is told by its trailing zeros. -/
theorem Contiguous.getLsbD (hm : Contiguous m) (hi : i < w) :
    m.getLsbD i = decide (trailingZeros m ≤ i) := by
  by_cases hlt : i < trailingZeros m
  · have hzero := of_lt_takeWhile_range hlt
    rw [decide_eq_false (by omega)]
    simpa using hzero
  · have hstop : (!m.getLsbD (trailingZeros m)) = false :=
      takeWhile_range_stop (p := fun i => !m.getLsbD i)
        (show trailingZeros m < w by omega)
    rw [decide_eq_true (by omega)]
    exact hm i hi (trailingZeros m) (by omega) (by simpa using hstop)

theorem contiguous_iff : leadingOnes m + trailingZeros m = w ↔ Contiguous m := by
  have hzeros : trailingZeros m ≤ w := length_takeWhile_range_le
  have hones : leadingOnes m ≤ w := length_takeWhile_range_le
  constructor
  · intro hsum j hj i hij hset
    have hge : ¬ i < trailingZeros m := by
      intro hlt
      have hzero := of_lt_takeWhile_range hlt
      rw [hset] at hzero
      cases hzero
    have hone : m.getMsbD (w - 1 - j) = true :=
      of_lt_takeWhile_range (show w - 1 - j < leadingOnes m by omega)
    rw [BitVec.getMsbD_eq_getLsbD] at hone
    simp only [Bool.and_eq_true] at hone
    rw [show w - 1 - (w - 1 - j) = j by omega] at hone
    exact hone.2
  · intro hm
    by_contra hne
    rcases Nat.lt_or_gt_of_ne hne with hlt | hgt
    · have hstop : m.getMsbD (leadingOnes m) = false :=
        takeWhile_range_stop (p := m.getMsbD) (show leadingOnes m < w by omega)
      rw [BitVec.getMsbD_eq_getLsbD, hm.getLsbD (by omega), decide_eq_true (by omega),
        decide_eq_true (by omega)] at hstop
      cases hstop
    · have hone : m.getMsbD (w - trailingZeros m) = true :=
        of_lt_takeWhile_range (show w - trailingZeros m < leadingOnes m by omega)
      rw [BitVec.getMsbD_eq_getLsbD, hm.getLsbD (by omega)] at hone
      simp only [Bool.and_eq_true, decide_eq_true_eq] at hone
      omega

/-- A contiguous mask is its trailing zeros below ones. -/
theorem Contiguous.eq_shiftLeft (hm : Contiguous m) :
    m = BitVec.allOnes w <<< trailingZeros m := by
  apply BitVec.eq_of_getLsbD_eq
  intro i hi
  rw [hm.getLsbD hi]
  simp only [BitVec.getLsbD_shiftLeft, BitVec.getLsbD_allOnes]
  by_cases hle : trailingZeros m ≤ i
  · simp [hi, hle, show i - trailingZeros m < w by omega]
  · simp [hle]

/-! Between the first and the last address. -/

theorem toNat_or_of_and_eq_zero (h : x &&& y = 0) : (x ||| y).toNat = x.toNat + y.toNat := by
  rw [← BitVec.add_eq_or_of_and_eq_zero x y h, BitVec.toNat_add_of_and_eq_zero h]

theorem and_not_self_eq_zero : a &&& m &&& ~~~m = 0 := by
  rw [BitVec.and_assoc, BitVec.and_not_self]
  exact BitVec.and_zero

theorem toNat_last : (a &&& m ||| ~~~m).toNat = (a &&& m).toNat + (~~~m).toNat :=
  toNat_or_of_and_eq_zero and_not_self_eq_zero

theorem last_and : (a &&& m ||| ~~~m) &&& m = a &&& m := by
  apply BitVec.eq_of_getLsbD_eq
  intro i hi
  simp only [BitVec.getLsbD_and, BitVec.getLsbD_or, BitVec.getLsbD_not]
  cases m.getLsbD i <;> simp

theorem first_le : y &&& m ≤ y := by
  rw [BitVec.le_def, BitVec.toNat_and]
  exact Nat.and_le_left

theorem le_last : y ≤ y &&& m ||| ~~~m := by
  rw [BitVec.le_def, BitVec.toNat_or]
  apply Nat.le_of_testBit
  intro i hi
  have hlt : i < w := by
    by_contra hge
    rw [BitVec.testBit_toNat, BitVec.getLsbD_of_ge y i (by omega)] at hi
    cases hi
  rw [BitVec.testBit_toNat] at hi
  rw [Nat.testBit_or, BitVec.testBit_toNat, BitVec.testBit_toNat]
  simp [hi, hlt]

theorem Contiguous.toNat_and (hm : Contiguous m) :
    (x &&& m).toNat = x.toNat / 2 ^ trailingZeros m * 2 ^ trailingZeros m := by
  have hshift : x &&& m = x >>> trailingZeros m <<< trailingZeros m := by
    apply BitVec.eq_of_getLsbD_eq
    intro i hi
    rw [BitVec.getLsbD_and, hm.getLsbD hi, BitVec.getLsbD_shiftLeft, BitVec.getLsbD_ushiftRight]
    by_cases hle : trailingZeros m ≤ i
    · simp [hi, hle, show trailingZeros m + (i - trailingZeros m) = i by omega]
    · simp [hle, show i < trailingZeros m by omega]
  have hle : x.toNat / 2 ^ trailingZeros m * 2 ^ trailingZeros m ≤ x.toNat := Nat.div_mul_le_self _ _
  rw [hshift, BitVec.toNat_shiftLeft, BitVec.toNat_ushiftRight, Nat.shiftLeft_eq,
    Nat.shiftRight_eq_div_pow, Nat.mod_eq_of_lt (by omega)]

theorem Contiguous.toNat_not_lt (hm : Contiguous m) : (~~~m).toNat < 2 ^ trailingZeros m := by
  apply Nat.lt_pow_two_of_testBit
  intro i hi
  rw [BitVec.testBit_toNat, BitVec.getLsbD_not]
  by_cases hlt : i < w
  · simp [hm.getLsbD hlt, hi]
  · simp [hlt]

theorem Contiguous.and_eq_of_between (hm : Contiguous m) (hlo : a &&& m ≤ x)
    (hhi : x ≤ a &&& m ||| ~~~m) : x &&& m = a &&& m := by
  have hlast := BitVec.le_def.1 hhi
  have hfirst := BitVec.le_def.1 hlo
  have hhost := hm.toNat_not_lt
  rw [toNat_last] at hlast
  apply BitVec.eq_of_toNat_eq
  rw [hm.toNat_and, hm.toNat_and] at *
  have hpos : 0 < 2 ^ trailingZeros m := Nat.two_pow_pos _
  congr 1
  exact Nat.div_eq_of_lt_le hfirst (by rw [Nat.succ_mul]; omega)

theorem toNat_setBit (hi : i < w) (hx : x.getLsbD i = false) :
    (x ||| BitVec.twoPow w i).toNat = x.toNat + 2 ^ i := by
  have hzero : x &&& BitVec.twoPow w i = 0 := by
    rw [BitVec.and_twoPow, hx]
    rfl
  rw [toNat_or_of_and_eq_zero hzero, BitVec.toNat_twoPow,
    Nat.mod_eq_of_lt (Nat.pow_lt_pow_right (by omega) hi)]

theorem toNat_clearBit (hi : i < w) (hx : x.getLsbD i = true) :
    (x &&& ~~~BitVec.twoPow w i).toNat + 2 ^ i = x.toNat := by
  have hbits : x &&& ~~~BitVec.twoPow w i ||| BitVec.twoPow w i = x := by
    apply BitVec.eq_of_getLsbD_eq
    intro k hk
    simp only [BitVec.getLsbD_or, BitVec.getLsbD_and, BitVec.getLsbD_not, BitVec.getLsbD_twoPow]
    by_cases heq : i = k
    · subst heq
      simp [hi, hx]
    · simp [hk, heq]
  rw [← toNat_setBit hi (by simp [hi]), hbits]

/-- A mask with a hole leaves strictly between the two an address of another subnet. -/
theorem exists_between (hm : ¬ Contiguous m) (a : BitVec w) :
    ∃ x, a &&& m < x ∧ x < a &&& m ||| ~~~m ∧ x &&& m ≠ a &&& m := by
  obtain ⟨j, hj, i, hij, hset, hclear⟩ :
      ∃ j < w, ∃ i ≤ j, m.getLsbD i = true ∧ m.getLsbD j = false := by
    simpa [Contiguous] using hm
  have hlt : i < j := by
    refine lt_of_le_of_ne hij ?_
    rintro rfl
    rw [hset] at hclear
    cases hclear
  have hi : i < w := by omega
  -- The hosts reach above the bit `i`, which belongs to the network.
  have hhost : 2 ^ i < (~~~m).toNat := by
    have hbit : (~~~m).toNat.testBit j = true := by
      rw [BitVec.testBit_toNat, BitVec.getLsbD_not, hclear]
      simp [hj]
    exact lt_of_lt_of_le (Nat.pow_lt_pow_right (by omega) hlt) (Nat.ge_two_pow_of_testBit hbit)
  have hlast := toNat_last (a := a) (m := m)
  have hpos : 0 < 2 ^ i := Nat.two_pow_pos i
  simp only [BitVec.lt_def]
  cases hbit : a.getLsbD i
  · have hx := toNat_setBit hi (show (a &&& m).getLsbD i = false by simp [hbit])
    refine ⟨a &&& m ||| BitVec.twoPow w i, by omega, by omega, ?_⟩
    intro heq
    have hbits := congrArg (BitVec.getLsbD · i) heq
    simp only [BitVec.getLsbD_and, BitVec.getLsbD_or, BitVec.getLsbD_twoPow, hbit, hset, hi] at hbits
    simp at hbits
  · have hx := toNat_clearBit hi (show (a &&& m ||| ~~~m).getLsbD i = true by simp [hbit, hset])
    refine ⟨(a &&& m ||| ~~~m) &&& ~~~BitVec.twoPow w i, by omega, by omega, ?_⟩
    intro heq
    have hbits := congrArg (BitVec.getLsbD · i) heq
    simp only [BitVec.getLsbD_and, BitVec.getLsbD_or, BitVec.getLsbD_not, BitVec.getLsbD_twoPow,
      hbit, hset, hi] at hbits
    simp at hbits

end Mask

end Lib
