import Mathlib.Data.Finset.Card
import Mathlib.Tactic.Choose

/-! Walks that go from place to place, each place saying where to go next. A walk that stops
never comes to a place twice, so it makes fewer moves than there are places. -/

namespace Lib

/-- What there is to do at a place. -/
inductive Move (α : Type) where
  | go (next : α)
  | stop
  | fail
deriving DecidableEq

variable {α : Type} {move : α → Move α} {a b : α} {m n : ℕ}

/-- The walk from a place stops after `n` moves. -/
inductive Ends (move : α → Move α) : α → ℕ → Prop
  | stop {a : α} (h : move a = .stop) : Ends move a 0
  | go {a b : α} {n : ℕ} (h : move a = .go b) (hb : Ends move b n) : Ends move a (n + 1)

namespace Ends

theorem ne_fail (h : Ends move a n) : move a ≠ .fail := by
  cases h with
  | stop h => simp [h]
  | go h _ => simp [h]

theorem unique (h : Ends move a m) (h' : Ends move a n) : m = n := by
  induction h generalizing n with
  | stop hstop =>
    cases h' with
    | stop => rfl
    | go hgo => exact absurd (hstop.symm.trans hgo) (by simp)
  | go hgo _ ih =>
    cases h' with
    | stop hstop => exact absurd (hgo.symm.trans hstop) (by simp)
    | go hgo' hb' =>
      cases hgo.symm.trans hgo'
      rw [ih hb']

/-- On its way the walk is at a place with `m` moves left, for each smaller `m`. -/
theorem earlier (h : Ends move a n) (hm : m ≤ n) : ∃ b, Ends move b m := by
  induction h with
  | stop hstop =>
    obtain rfl := Nat.le_zero.1 hm
    exact ⟨_, .stop hstop⟩
  | @go a b n hgo hb ih =>
    by_cases heq : m = n + 1
    · subst heq
      exact ⟨a, .go hgo hb⟩
    · exact ih (by omega)

/-- The places on the way differ in the moves that are left. -/
theorem lt_card {places : Finset α} (hplaces : ∀ a, move a ≠ .fail → a ∈ places)
    (h : Ends move a n) : n < places.card := by
  have hway : ∀ m, ∃ b, m ≤ n → Ends move b m := by
    intro m
    by_cases hm : m ≤ n
    · obtain ⟨b, hb⟩ := h.earlier hm
      exact ⟨b, fun _ => hb⟩
    · exact ⟨a, fun hle => absurd hle hm⟩
  choose place hat using hway
  have hle : (Finset.range (n + 1)).card ≤ places.card := by
    refine Finset.card_le_card_of_injOn place ?_ ?_
    · intro m hm
      exact hplaces _ (hat m (Nat.lt_succ_iff.1 (Finset.mem_range.1 hm))).ne_fail
    · intro m hm m' hm' heq
      have hends := hat m (Nat.lt_succ_iff.1 (Finset.mem_range.1 hm))
      have hends' := hat m' (Nat.lt_succ_iff.1 (Finset.mem_range.1 hm'))
      rw [← heq] at hends'
      exact hends.unique hends'
  rw [Finset.card_range] at hle
  omega

end Ends

end Lib
