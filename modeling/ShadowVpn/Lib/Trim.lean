import Mathlib.Data.List.Chain
import Mathlib.Data.List.TakeWhile

/-! Cutting a repeated element off the ends of a list, and leaving one of each run of it within.
What is left after a cut is told apart by its own end: it is the one part whose end is another
element. -/

namespace Lib

variable {α : Type} [DecidableEq α] {x : α} {l r : List α}

def trimStart (x : α) (l : List α) : List α := l.dropWhile fun c => c = x

def trimEnd (x : α) (l : List α) : List α := (trimStart x l.reverse).reverse

theorem trimStart_cons (x c : α) (l : List α) :
    trimStart x (c :: l) = if c = x then trimStart x l else c :: l := by
  by_cases hc : c = x
  · simp [trimStart, hc]
  · simp [trimStart, hc]

theorem trimStart_eq_iff :
    trimStart x l = r ↔ ∃ n, l = List.replicate n x ++ r ∧ r.head? ≠ some x := by
  constructor
  · rintro rfl
    induction l with
    | nil => exact ⟨0, rfl, by simp [trimStart]⟩
    | cons c l ih =>
      rw [trimStart_cons]
      split_ifs with hc
      · obtain ⟨n, hl, hhead⟩ := ih
        refine ⟨n + 1, ?_, hhead⟩
        rw [List.replicate_succ, List.cons_append, ← hl, hc]
      · exact ⟨0, rfl, by simpa using hc⟩
  · rintro ⟨n, rfl, hhead⟩
    induction n with
    | zero =>
      cases r with
      | nil => rfl
      | cons c r =>
        rw [List.replicate_zero, List.nil_append, trimStart_cons, if_neg]
        simpa using hhead
    | succ n ih => rw [List.replicate_succ, List.cons_append, trimStart_cons, if_pos rfl, ih]

theorem trimEnd_eq_iff :
    trimEnd x l = r ↔ ∃ n, l = r ++ List.replicate n x ∧ r.getLast? ≠ some x := by
  have hrev : trimEnd x l = r ↔ trimStart x l.reverse = r.reverse := by
    rw [trimEnd, List.reverse_eq_iff]
  rw [hrev, trimStart_eq_iff]
  refine exists_congr fun n => and_congr ?_ (by rw [List.head?_reverse])
  rw [List.reverse_eq_iff, List.reverse_append, List.reverse_reverse, List.reverse_replicate]

/-- The two ends do not meet while something is left between them. -/
theorem trimEnd_trimStart_eq_iff (hr : r ≠ []) : trimEnd x (trimStart x l) = r ↔
    ∃ m n, l = List.replicate m x ++ (r ++ List.replicate n x) ∧ r.head? ≠ some x ∧
      r.getLast? ≠ some x := by
  have hhead : ∀ n, (r ++ List.replicate n x).head? = r.head? := by
    obtain ⟨c, r, rfl⟩ := List.exists_cons_of_ne_nil hr
    exact fun _ => rfl
  constructor
  · intro h
    obtain ⟨n, hmid, hlast⟩ := trimEnd_eq_iff.1 h
    obtain ⟨m, hl, hne⟩ := trimStart_eq_iff.1 hmid
    exact ⟨m, n, hl, hhead n ▸ hne, hlast⟩
  · rintro ⟨m, n, hl, hne, hlast⟩
    exact trimEnd_eq_iff.2 ⟨n, trimStart_eq_iff.2 ⟨m, hl, hhead n ▸ hne⟩, hlast⟩

theorem trimStart_map {β : Type} [DecidableEq β] {f : α → β} {y : β} (h : ∀ c, f c = y ↔ c = x)
    (l : List α) : trimStart y (l.map f) = (trimStart x l).map f := by
  unfold trimStart
  rw [List.dropWhile_map]
  congr 2
  funext c
  simp [h c]

theorem trimEnd_map {β : Type} [DecidableEq β] {f : α → β} {y : β} (h : ∀ c, f c = y ↔ c = x)
    (l : List α) : trimEnd y (l.map f) = (trimEnd x l).map f := by
  unfold trimEnd
  rw [← List.map_reverse, trimStart_map h, List.map_reverse]

theorem trimEnd_isPrefix (x : α) (l : List α) : trimEnd x l <+: l := by
  obtain ⟨n, hl, -⟩ := trimEnd_eq_iff.1 (rfl : trimEnd x l = _)
  exact ⟨_, hl.symm⟩

theorem getLast?_trimEnd (x : α) (l : List α) : (trimEnd x l).getLast? ≠ some x := by
  obtain ⟨-, -, hlast⟩ := trimEnd_eq_iff.1 (rfl : trimEnd x l = _)
  exact hlast

theorem trimEnd_of_getLast? (h : l.getLast? ≠ some x) : trimEnd x l = l :=
  trimEnd_eq_iff.2 ⟨0, (List.append_nil l).symm, h⟩

theorem trimEnd_eq_nil_iff : trimEnd x l = [] ↔ ∀ c ∈ l, c = x := by
  simp [trimEnd, trimStart]

/-- One more at the end is cut as well. -/
theorem trimEnd_take_concat (x : α) (l : List α) (n : ℕ) :
    trimEnd x ((l ++ [x]).take n) = trimEnd x (l.take n) := by
  rcases Nat.lt_or_ge l.length n with hlong | hle
  · have hone : (l ++ [x]).length ≤ n := by
      rw [List.length_append, List.length_singleton]
      exact hlong
    rw [List.take_of_length_le hone, List.take_of_length_le hlong.le]
    obtain ⟨k, hl, hlast⟩ := trimEnd_eq_iff.1 (rfl : trimEnd x l = _)
    refine trimEnd_eq_iff.2 ⟨k + 1, ?_, hlast⟩
    rw [List.replicate_succ', ← List.append_assoc, ← hl]
  · rw [List.take_append_of_le_length hle]

/-- Two lists that part where one has an `x` and the other does not, and are the same once cut:
the cut comes before they part. -/
theorem le_of_trimEnd_take_eq {front r s : List α} {c : α} {n : ℕ} (hc : c ≠ x)
    (h : trimEnd x ((front ++ c :: r).take n) = trimEnd x ((front ++ x :: s).take n)) :
    n ≤ front.length := by
  by_contra hlt
  rw [Nat.not_le] at hlt
  obtain ⟨j, hleft, -⟩ := trimEnd_eq_iff.1 h
  obtain ⟨k, hright, -⟩ := trimEnd_eq_iff.1 (rfl : trimEnd x ((front ++ x :: s).take n) = _)
  generalize trimEnd x ((front ++ x :: s).take n) = kept at hleft hright
  have hleft := congrArg (fun l => l[front.length]?) hleft
  have hright := congrArg (fun l => l[front.length]?) hright
  simp only [List.getElem?_take_of_lt hlt, List.getElem?_append_right (Nat.le_refl _),
    Nat.sub_self, List.getElem?_cons_zero] at hleft hright
  rcases Nat.lt_or_ge front.length kept.length with hin | hout
  · rw [List.getElem?_append_left hin] at hleft hright
    exact hc (Option.some.inj (hleft.trans hright.symm))
  · rw [List.getElem?_append_right hout] at hleft
    exact hc (List.eq_of_mem_replicate (List.mem_of_getElem? hleft.symm))

/-! Runs. -/

/-- One `x` for each run of them, and none for a run that continues one before the list. -/
def squeeze (x : α) : Bool → List α → List α
  | _, [] => []
  | after, c :: l =>
    if c = x then if after then squeeze x true l else x :: squeeze x true l
    else c :: squeeze x false l

@[simp] theorem squeeze_nil (x : α) (after : Bool) : squeeze x after [] = [] := rfl

@[simp] theorem squeeze_true_self (x : α) (l : List α) :
    squeeze x true (x :: l) = squeeze x true l := by
  simp [squeeze]

@[simp] theorem squeeze_false_self (x : α) (l : List α) :
    squeeze x false (x :: l) = x :: squeeze x true l := by
  simp [squeeze]

theorem squeeze_cons_ne {c : α} (hc : c ≠ x) (after : Bool) (l : List α) :
    squeeze x after (c :: l) = c :: squeeze x false l :=
  if_neg hc

theorem mem_of_mem_squeeze {after : Bool} {c : α} (h : c ∈ squeeze x after l) : c ∈ l := by
  induction l generalizing after with
  | nil => exact h
  | cons d l ih =>
    rw [squeeze] at h
    split_ifs at h with hd hafter
    · exact List.mem_cons_of_mem d (ih h)
    · rcases List.mem_cons.1 h with rfl | h
      · exact hd ▸ List.mem_cons_self
      · exact List.mem_cons_of_mem d (ih h)
    · rcases List.mem_cons.1 h with rfl | h
      · exact List.mem_cons_self
      · exact List.mem_cons_of_mem d (ih h)

theorem head?_squeeze (x : α) (l : List α) : (squeeze x true l).head? ≠ some x := by
  induction l with
  | nil => simp
  | cons c l ih =>
    by_cases hc : c = x
    · subst hc
      rwa [squeeze_true_self]
    · rw [squeeze_cons_ne hc]
      simpa using hc

/-- The run at the front is cut as a run that continues. -/
theorem trimStart_squeeze (x : α) (l : List α) :
    trimStart x (squeeze x false l) = squeeze x true l := by
  cases l with
  | nil => rfl
  | cons c l =>
    by_cases hc : c = x
    · subst hc
      rw [squeeze_false_self, squeeze_true_self, trimStart_cons, if_pos rfl]
      exact trimStart_eq_iff.2 ⟨0, rfl, head?_squeeze c l⟩
    · rw [squeeze_cons_ne hc, squeeze_cons_ne hc, trimStart_cons, if_neg hc]

/-- After another element the rest is squeezed by itself. -/
theorem squeeze_append_cons {c : α} (hc : c ≠ x) (after : Bool) (l r : List α) :
    squeeze x after (l ++ c :: r) = squeeze x after l ++ c :: squeeze x false r := by
  induction l generalizing after with
  | nil => simp [squeeze_cons_ne hc]
  | cons d l ih =>
    by_cases hd : d = x
    · subst hd
      cases after with
      | false => simp [ih]
      | true => simp [ih]
    · simp [squeeze_cons_ne hd, ih]

theorem squeeze_isPrefix (x : α) (after : Bool) (l r : List α) :
    squeeze x after l <+: squeeze x after (l ++ r) := by
  induction l generalizing after with
  | nil => exact List.nil_prefix
  | cons d l ih =>
    by_cases hd : d = x
    · subst hd
      cases after with
      | false => simpa using ih true
      | true => simpa using ih true
    · simpa [squeeze_cons_ne hd] using ih false

/-- Whether one more `x` would continue a run, after `l`. -/
def inRun (x : α) (after : Bool) (l : List α) : Bool :=
  (l.getLast?.map fun c => decide (c = x)).getD after

theorem inRun_cons (x c : α) (after : Bool) (l : List α) :
    inRun x after (c :: l) = inRun x (c = x) l := by
  unfold inRun
  rw [List.getLast?_cons]
  cases l.getLast? <;> rfl

theorem inRun_concat (x c : α) (after : Bool) (l : List α) :
    inRun x after (l ++ [c]) = decide (c = x) := by
  simp [inRun]

theorem squeeze_concat_self (x : α) (after : Bool) (l : List α) :
    squeeze x after (l ++ [x]) =
      squeeze x after l ++ if inRun x after (squeeze x after l) then [] else [x] := by
  induction l generalizing after with
  | nil => cases after <;> simp [inRun]
  | cons d l ih =>
    by_cases hd : d = x
    · subst hd
      cases after with
      | false => simp [ih, inRun_cons]
      | true => simp [ih]
    · simp [squeeze_cons_ne hd, ih, inRun_cons, hd]

/-- No `x` next to another. -/
def Single (x : α) (l : List α) : Prop := l.IsChain fun a b => ¬ (a = x ∧ b = x)

omit [DecidableEq α] in
theorem single_iff : Single x l ↔ ¬ [x, x] <:+: l := by
  constructor
  · intro h hsub
    have hpair : List.IsChain (fun a b => ¬ (a = x ∧ b = x)) [x, x] := List.IsChain.infix h hsub
    exact List.isChain_pair.1 hpair ⟨rfl, rfl⟩
  · intro h
    refine (List.isChain_isInfix l).imp ?_
    rintro a b hab ⟨rfl, rfl⟩
    exact h hab

theorem single_squeeze (x : α) (after : Bool) (l : List α) : Single x (squeeze x after l) := by
  induction l generalizing after with
  | nil => exact List.isChain_nil
  | cons c l ih =>
    rw [squeeze]
    split_ifs with hc hafter
    · exact ih true
    · refine (ih true).cons ?_
      rintro d hd ⟨-, rfl⟩
      exact head?_squeeze d l hd
    · refine (ih false).cons ?_
      rintro d - ⟨hcx, -⟩
      exact hc hcx

theorem squeeze_of_single {after : Bool} (h : Single x l)
    (hhead : after = true → l.head? ≠ some x) : squeeze x after l = l := by
  induction l generalizing after with
  | nil => rfl
  | cons c l ih =>
    have hsingle : Single x l := h.tail
    rw [squeeze]
    split_ifs with hc hafter
    · exact absurd (by rw [hc]; rfl) (hhead hafter)
    · rw [ih hsingle, hc]
      rintro - hd
      exact (h.rel_head? hd) ⟨hc, rfl⟩
    · rw [ih hsingle]
      rintro ⟨⟩

end Lib
