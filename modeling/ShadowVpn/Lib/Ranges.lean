import Mathlib.Data.List.Basic
import Mathlib.Data.List.Induction
import Mathlib.Order.Cover
import Mathlib.Order.Interval.Set.Basic
import Mathlib.Tactic.Common

/-! Ranges with both ends, put together where they meet. Over ranges in the order of their starts
one pass is enough: a range meets the last one that was kept, or none of them. -/

namespace Lib

variable {α β : Type}

/-- Keep a range, or let the last one grow by it. `meets` tells from the last end and the new start
whether the two overlap or touch. -/
def pushRange (meets less : α → α → Bool) (out : List (α × α)) (r : α × α) : List (α × α) :=
  match out.getLast? with
  | none => out ++ [r]
  | some last =>
    if meets last.2 r.1 then
      if less last.2 r.2 then out.dropLast ++ [(last.1, r.2)] else out
    else out ++ [r]

section Cover

variable [LinearOrder β]

/-- What a range holds. -/
def span (val : α → β) (r : α × α) : Set β := Set.Icc (val r.1) (val r.2)

/-- One range ends before the other starts, and there is something between the two. -/
def Apart (val : α → β) (r s : α × α) : Prop := val r.2 < val s.1 ∧ ¬ val r.2 ⋖ val s.1

/-- Ranges in order, none of them empty, with gaps between them. -/
structure Separated (val : α → β) (out : List (α × α)) : Prop where
  nonempty : ∀ r ∈ out, val r.1 ≤ val r.2
  apart : out.Pairwise (Apart val)

/-- Some range of the list holds the value. -/
def Covers (val : α → β) (out : List (α × α)) (x : β) : Prop := ∃ r ∈ out, x ∈ span val r

variable {val : α → β} {init out : List (α × α)} {last s : α × α} {x : β}

theorem separated_concat : Separated val (out ++ [s]) ↔
    Separated val out ∧ val s.1 ≤ val s.2 ∧ ∀ r ∈ out, Apart val r s := by
  refine ⟨?_, ?_⟩
  · intro h
    obtain ⟨hout, -, hapart⟩ := List.pairwise_append.1 h.apart
    refine ⟨⟨fun r hr => h.nonempty r (List.mem_append_left _ hr), hout⟩,
      h.nonempty s (List.mem_append_right _ (List.mem_singleton_self s)), ?_⟩
    intro r hr
    exact hapart r hr s (List.mem_singleton_self s)
  · rintro ⟨hout, hs, hapart⟩
    refine ⟨?_, List.pairwise_append.2 ⟨hout.apart, List.pairwise_singleton _ _, ?_⟩⟩
    · intro r hr
      rcases List.mem_append.1 hr with hr | hr
      · exact hout.nonempty r hr
      · rw [List.mem_singleton.1 hr]
        exact hs
    · intro r hr t ht
      rw [List.mem_singleton.1 ht]
      exact hapart r hr

theorem covers_concat : Covers val (out ++ [s]) x ↔ Covers val out x ∨ x ∈ span val s := by
  simp only [Covers, List.mem_append, List.mem_singleton, or_and_right, exists_or, exists_eq_left]

/-- Two ranges that meet hold what the range from the first start to the second end holds. -/
theorem span_join (hstart : val last.1 ≤ val s.1)
    (hmeets : val s.1 ≤ val last.2 ∨ val last.2 ⋖ val s.1) (hless : val last.2 < val s.2) :
    x ∈ span val (last.1, s.2) ↔ x ∈ span val last ∨ x ∈ span val s := by
  refine ⟨?_, ?_⟩
  · rintro ⟨hlo, hhi⟩
    by_cases hx : x ≤ val last.2
    · exact .inl ⟨hlo, hx⟩
    · have hlt := lt_of_not_ge hx
      refine .inr ⟨?_, hhi⟩
      rcases hmeets with hle | hcov
      · exact le_of_lt (lt_of_le_of_lt hle hlt)
      · exact hcov.ge_of_gt hlt
  · rintro (⟨hlo, hhi⟩ | ⟨hlo, hhi⟩)
    · exact ⟨hlo, le_of_lt (lt_of_le_of_lt hhi hless)⟩
    · exact ⟨le_trans hstart hlo, hhi⟩

theorem span_subset (hstart : val last.1 ≤ val s.1) (hless : ¬ val last.2 < val s.2)
    (hx : x ∈ span val s) : x ∈ span val last :=
  ⟨le_trans hstart hx.1, le_trans hx.2 (le_of_not_gt hless)⟩

theorem Apart.trans {r : α × α} (h : Apart val r last) (hlast : val last.1 ≤ val last.2)
    (hs : val last.2 < val s.1) : Apart val r s := by
  have hbefore : val last.1 < val s.1 := lt_of_le_of_lt hlast hs
  exact ⟨lt_trans h.1 hbefore, fun hcov => hcov.2 h.1 hbefore⟩

/-! The pass over the ranges. -/

section Pass

variable {meets less : α → α → Bool}

theorem pushRange_concat : pushRange meets less (init ++ [last]) s =
    if meets last.2 s.1 then
      if less last.2 s.2 then init ++ [(last.1, s.2)] else init ++ [last]
    else init ++ [last] ++ [s] := by
  simp [pushRange]

/-- What is known after some ranges of the input. -/
structure Merged (val : α → β) (rs out : List (α × α)) : Prop extends Separated val out where
  covers : ∀ x, Covers val out x ↔ Covers val rs x
  starts : ∀ r ∈ out, ∃ d ∈ rs, r.1 = d.1

variable (hmeets : ∀ a b, meets a b = true ↔ val b ≤ val a ∨ val a ⋖ val b)
  (hless : ∀ a b, less a b = true ↔ val a < val b)

include hmeets hless

theorem Merged.push {rs : List (α × α)} (h : Merged val rs out) (hs : val s.1 ≤ val s.2)
    (hsorted : ∀ r ∈ rs, val r.1 ≤ val s.1) :
    Merged val (rs ++ [s]) (pushRange meets less out s) := by
  have hold : ∀ {r : α × α}, (∃ d ∈ rs, r.1 = d.1) → ∃ d ∈ rs ++ [s], r.1 = d.1 :=
    fun ⟨d, hd, heq⟩ => ⟨d, List.mem_append_left _ hd, heq⟩
  have hinput : ∀ x, Covers val (rs ++ [s]) x ↔ Covers val out x ∨ x ∈ span val s := by
    intro x
    rw [covers_concat, h.covers]
  have hself : s ∈ rs ++ [s] := List.mem_append_right _ (List.mem_singleton_self s)
  rcases List.eq_nil_or_concat' out with rfl | ⟨init, last, rfl⟩
  · refine ⟨⟨?_, List.pairwise_singleton _ _⟩, ?_, ?_⟩
    · intro r hr
      rw [List.mem_singleton.1 hr]
      exact hs
    · intro x
      rw [hinput]
      simp [pushRange, Covers]
    · intro r hr
      rw [List.mem_singleton.1 hr]
      exact ⟨s, hself, rfl⟩
  · obtain ⟨hinit, hlast, hapart⟩ := separated_concat.1 h.toSeparated
    have hmem : last ∈ init ++ [last] := List.mem_append_right _ (List.mem_singleton_self last)
    obtain ⟨d, hd, heq⟩ := h.starts last hmem
    have hstart : val last.1 ≤ val s.1 := heq ▸ hsorted d hd
    rw [pushRange_concat]
    split_ifs with hm hl
    · rw [hmeets] at hm
      rw [hless] at hl
      refine ⟨separated_concat.2 ⟨hinit, le_trans hstart hs, hapart⟩, ?_, ?_⟩
      · intro x
        rw [hinput, covers_concat, span_join hstart hm hl, covers_concat, or_assoc]
      · intro r hr
        rcases List.mem_append.1 hr with hr | hr
        · exact hold (h.starts r (List.mem_append_left _ hr))
        · rw [List.mem_singleton.1 hr]
          exact ⟨d, List.mem_append_left _ hd, heq⟩
    · rw [hless] at hl
      refine ⟨h.toSeparated, ?_, fun r hr => hold (h.starts r hr)⟩
      intro x
      rw [hinput, or_iff_left_of_imp]
      intro hx
      exact covers_concat.2 (.inr (span_subset hstart hl hx))
    · rw [Bool.not_eq_true, ← Bool.not_eq_true, hmeets, not_or] at hm
      have hbefore : val last.2 < val s.1 := lt_of_not_ge hm.1
      refine ⟨separated_concat.2 ⟨h.toSeparated, hs, ?_⟩, ?_, ?_⟩
      · intro r hr
        rcases List.mem_append.1 hr with hr | hr
        · exact (hapart r hr).trans hlast hbefore
        · rw [List.mem_singleton.1 hr]
          exact ⟨hbefore, hm.2⟩
      · intro x
        rw [hinput, covers_concat]
      · intro r hr
        rcases List.mem_append.1 hr with hr | hr
        · exact hold (h.starts r hr)
        · rw [List.mem_singleton.1 hr]
          exact ⟨s, hself, rfl⟩

/-- Ranges in the order of their starts become separated ranges that hold the same. -/
theorem merged_foldl (rs : List (α × α)) (hne : ∀ r ∈ rs, val r.1 ≤ val r.2)
    (hsorted : rs.Pairwise fun a b => val a.1 ≤ val b.1) :
    Merged val rs (rs.foldl (pushRange meets less) []) := by
  induction rs using List.reverseRecOn with
  | nil =>
    refine ⟨⟨?_, List.Pairwise.nil⟩, fun x => Iff.rfl, ?_⟩
    · intro r hr
      cases hr
    · intro r hr
      cases hr
  | append_singleton rs s ih =>
    obtain ⟨hrs, -, hlater⟩ := List.pairwise_append.1 hsorted
    have hmem : s ∈ [s] := List.mem_singleton_self s
    rw [List.foldl_append]
    refine Merged.push hmeets hless (ih ?_ hrs) (hne s (List.mem_append_right _ hmem)) ?_
    · intro r hr
      exact hne r (List.mem_append_left _ hr)
    · intro r hr
      exact hlater r hr s hmem

end Pass

end Cover

end Lib
