import Mathlib.Data.List.Basic
import Mathlib.Order.Compare
import Mathlib.Order.Lattice
import Mathlib.Tactic.Common

/-! Binary search in a sorted list, as the standard library of the modelled language does it:
the half that cannot hold the value is dropped, until the value is found or nothing is left. -/

namespace Lib

/-- A place with the value, or the place where it would go. -/
inductive Search where
  | found (i : ℕ)
  | insert (i : ℕ)
deriving DecidableEq

variable {α β : Type}

/-- The loop over `left` and `right`. Each turn leaves less between them, so there are enough
turns if there are as many as places. -/
def searchLoop (cmp : α → Ordering) (l : List α) : (turns left right : ℕ) → Search
  | 0, left, _ => .insert left
  | turns + 1, left, right =>
    if left < right then
      let mid := left + (right - left) / 2
      match l[mid]? with
      | none => .insert left
      | some a =>
        match cmp a with
        | .lt => searchLoop cmp l turns (mid + 1) right
        | .gt => searchLoop cmp l turns left mid
        | .eq => .found mid
    else .insert left

def binarySearchBy (cmp : α → Ordering) (l : List α) : Search := searchLoop cmp l l.length 0 l.length

section Correct

variable [LinearOrder β] {val : α → β} {v : β} {l : List α}

/-- What is before `left` is smaller, and what is from `right` on is larger. -/
structure Between (val : α → β) (v : β) (l : List α) (left right : ℕ) : Prop where
  le : left ≤ right
  le_length : right ≤ l.length
  below : ∀ i a, i < left → l[i]? = some a → val a < v
  above : ∀ i a, right ≤ i → l[i]? = some a → v < val a

theorem Between.ne {i j : ℕ} {a : α} (h : Between val v l i i) (ha : l[j]? = some a) :
    val a ≠ v := by
  rcases Nat.lt_or_ge j i with hlt | hge
  · exact ne_of_lt (h.below j a hlt ha)
  · exact ne_of_gt (h.above j a hge ha)

/-- The place of a value is the number of what is smaller. -/
theorem Between.countP {i : ℕ} (h : Between val v l i i) :
    (l.countP fun a => decide (val a < v)) = i := by
  have hlow : (l.take i).countP (fun a => decide (val a < v)) = i := by
    rw [List.countP_eq_length.2, List.length_take, Nat.min_eq_left h.le_length]
    intro a ha
    obtain ⟨j, hj⟩ := List.getElem?_of_mem ha
    rw [List.getElem?_take] at hj
    split_ifs at hj with hlt
    exact decide_eq_true (h.below j a hlt hj)
  have hhigh : (l.drop i).countP (fun a => decide (val a < v)) = 0 := by
    rw [List.countP_eq_zero]
    intro a ha
    obtain ⟨j, hj⟩ := List.getElem?_of_mem ha
    rw [List.getElem?_drop] at hj
    simpa using le_of_lt (h.above (i + j) a (Nat.le_add_right i j) hj)
  rw [← List.take_append_drop i l, List.countP_append, hlow, hhigh]
  simp

/-- What the answer of a search says. -/
def Search.Correct (val : α → β) (v : β) (l : List α) : Search → Prop
  | .found i => ∃ a, l[i]? = some a ∧ val a = v
  | .insert i => Between val v l i i

theorem sorted_getElem? (hsorted : l.Pairwise fun a b => val a ≤ val b) {i j : ℕ} {a b : α}
    (hij : i ≤ j) (ha : l[i]? = some a) (hb : l[j]? = some b) : val a ≤ val b := by
  obtain ⟨hi, rfl⟩ := List.getElem?_eq_some_iff.1 ha
  obtain ⟨hj, rfl⟩ := List.getElem?_eq_some_iff.1 hb
  rcases Nat.lt_or_eq_of_le hij with hlt | rfl
  · exact List.pairwise_iff_getElem.1 hsorted i j hi hj hlt
  · exact le_rfl

theorem searchLoop_correct {cmp : α → Ordering} (hcmp : ∀ a, cmp a = compare (val a) v)
    (hsorted : l.Pairwise fun a b => val a ≤ val b) {turns left right : ℕ}
    (hturns : right - left ≤ turns) (h : Between val v l left right) :
    (searchLoop cmp l turns left right).Correct val v l := by
  induction turns generalizing left right with
  | zero =>
    obtain rfl : left = right := Nat.le_antisymm h.le (by omega)
    exact h
  | succ turns ih =>
    have hle := h.le
    have hlen := h.le_length
    rw [searchLoop]
    by_cases hlt : left < right
    · have hmid : left + (right - left) / 2 < l.length := by omega
      have hget := List.getElem?_eq_getElem hmid
      rw [if_pos hlt]
      dsimp only
      rw [hget]
      dsimp only
      cases hc : cmp l[left + (right - left) / 2] with
      | lt =>
        rw [hcmp, compare_lt_iff_lt] at hc
        refine ih ?_ ⟨by omega, hlen, ?_, h.above⟩
        · omega
        intro i a hi ha
        exact lt_of_le_of_lt (sorted_getElem? hsorted (Nat.le_of_lt_succ hi) ha hget) hc
      | gt =>
        rw [hcmp, compare_gt_iff_gt] at hc
        refine ih ?_ ⟨by omega, by omega, h.below, ?_⟩
        · omega
        intro i a hi ha
        exact lt_of_lt_of_le hc (sorted_getElem? hsorted hi hget ha)
      | eq =>
        rw [hcmp, compare_eq_iff_eq] at hc
        exact ⟨_, hget, hc⟩
    · obtain rfl : left = right := Nat.le_antisymm hle (Nat.le_of_not_lt hlt)
      rw [if_neg hlt]
      exact h

/-- In a sorted list the search finds the value or its place. -/
theorem binarySearchBy_correct {cmp : α → Ordering} (hcmp : ∀ a, cmp a = compare (val a) v)
    (hsorted : l.Pairwise fun a b => val a ≤ val b) :
    (binarySearchBy cmp l).Correct val v l := by
  refine searchLoop_correct hcmp hsorted (by omega) ⟨Nat.zero_le _, Nat.le_refl _, ?_, ?_⟩
  · intro i a hi
    omega
  · intro i a hi ha
    obtain ⟨hlt, -⟩ := List.getElem?_eq_some_iff.1 ha
    omega

end Correct

end Lib
