import Mathlib.Data.List.Induction

/-! Runs of a step function that may fail. A run lists what happened at each step
with the states around it, so that a property of a history is a property of the
list. A step that fails ends the process, so a run holds only steps that returned. -/

namespace Lib

/-- One step of a run. -/
structure Entry (σ ι ο : Type) where
  pre : σ
  input : ι
  out : ο
  post : σ

variable {σ ι ο ε : Type}

inductive Run (step : σ → ι → Except ε (σ × ο)) (s₀ : σ) : List (Entry σ ι ο) → σ → Prop
  | nil : Run step s₀ [] s₀
  | snoc {es : List (Entry σ ι ο)} {s s' : σ} {i : ι} {o : ο} :
      Run step s₀ es s → step s i = .ok (s', o) → Run step s₀ (es ++ [⟨s, i, o, s'⟩]) s'

/-- Feed a list of inputs to the step function. -/
def exec (step : σ → ι → Except ε (σ × ο)) : σ → List ι → Except ε (List (Entry σ ι ο) × σ)
  | s, [] => .ok ([], s)
  | s, i :: is =>
    match step s i with
    | .error e => .error e
    | .ok (s', o) =>
      match exec step s' is with
      | .error e => .error e
      | .ok (es, t) => .ok (⟨s, i, o, s'⟩ :: es, t)

/-- Where an element of a list with one more stands: it is the new one, or before it. -/
theorem snoc_eq_append_cons {α : Type} {as pre post : List α} {a b : α}
    (h : as ++ [a] = pre ++ b :: post) :
    (as = pre ∧ a = b ∧ post = []) ∨ ∃ mid, post = mid ++ [a] ∧ as = pre ++ b :: mid := by
  rcases List.eq_nil_or_concat post with rfl | ⟨mid, c, rfl⟩
  · obtain ⟨h1, h2⟩ := List.append_inj' h rfl
    exact Or.inl ⟨h1, List.singleton_inj.1 h2, rfl⟩
  · rw [List.concat_eq_append, ← List.cons_append, ← List.append_assoc] at h
    obtain ⟨h1, h2⟩ := List.append_inj' h rfl
    exact Or.inr ⟨mid, by rw [List.singleton_inj.1 h2, List.concat_eq_append], h1⟩

/-- A computation that succeeds is a first part that does, and then the rest. -/
theorem bind_eq_ok {α β : Type} {x : Except ε α} {f : α → Except ε β} {b : β} :
    x >>= f = .ok b ↔ ∃ a, x = .ok a ∧ f a = .ok b := by
  cases x with
  | error e => simp [bind, Except.bind]
  | ok a => simp [bind, Except.bind]

variable {step : σ → ι → Except ε (σ × ο)}

theorem Run.single {s s' : σ} {i : ι} {o : ο} (h : step s i = .ok (s', o)) :
    Run step s [⟨s, i, o, s'⟩] s' :=
  Run.snoc Run.nil h

theorem Run.trans {a b c : σ} {es fs : List (Entry σ ι ο)} (h : Run step a es b)
    (h' : Run step b fs c) : Run step a (es ++ fs) c := by
  induction h' with
  | nil => simpa using h
  | snoc _ hs ih =>
    rw [← List.append_assoc]
    exact ih.snoc hs

theorem exec_run {s t : σ} {is : List ι} {es : List (Entry σ ι ο)}
    (h : exec step s is = .ok (es, t)) : Run step s es t := by
  induction is generalizing s es with
  | nil =>
    cases h
    exact Run.nil
  | cons i is ih =>
    simp only [exec] at h
    split at h
    · cases h
    · rename_i s' o hs
      split at h
      · cases h
      · rename_i es' t' hes
        cases h
        exact (Run.single hs).trans (ih hes)

theorem ok_of_toOption_any {α : Type} {x : Except ε α} {p : α → Bool}
    (h : x.toOption.any p = true) : ∃ a, x = .ok a ∧ p a = true := by
  cases x with
  | error e => cases h
  | ok a => exact ⟨a, rfl, h⟩

/-- A run on a list of inputs, whose history and end pass a check. -/
theorem exec_check {s : σ} {is : List ι} {p : List (Entry σ ι ο) × σ → Bool}
    (h : (exec step s is).toOption.any p = true) : ∃ es t, Run step s es t ∧ p (es, t) = true := by
  obtain ⟨⟨es, t⟩, hexec, hp⟩ := ok_of_toOption_any h
  exact ⟨es, t, exec_run hexec, hp⟩

/-- The last step of a run, split off. -/
theorem Run.snoc_inv {s₀ s : σ} {es : List (Entry σ ι ο)} {e : Entry σ ι ο}
    (h : Run step s₀ (es ++ [e]) s) :
    Run step s₀ es e.pre ∧ step e.pre e.input = .ok (e.post, e.out) ∧ s = e.post := by
  generalize hg : es ++ [e] = l at h
  cases h with
  | nil => simp at hg
  | snoc hr hs =>
    obtain ⟨rfl, he⟩ := List.append_inj' hg rfl
    cases he
    exact ⟨hr, hs, rfl⟩

theorem Run.nil_inv {s₀ s : σ} (h : Run step s₀ [] s) : s = s₀ := by
  generalize hg : ([] : List (Entry σ ι ο)) = l at h
  cases h with
  | nil => rfl
  | snoc _ _ => simp at hg

theorem Run.split {s₀ s : σ} {es fs : List (Entry σ ι ο)} (h : Run step s₀ (es ++ fs) s) :
    ∃ m, Run step s₀ es m ∧ Run step m fs s := by
  induction fs using List.reverseRecOn generalizing s with
  | nil => exact ⟨s, by simpa using h, Run.nil⟩
  | append_singleton fs e ih =>
    rw [← List.append_assoc] at h
    obtain ⟨hr, hs, rfl⟩ := h.snoc_inv
    obtain ⟨m, h1, h2⟩ := ih hr
    exact ⟨m, h1, h2.snoc hs⟩

/-- The first step of a run, split off. -/
theorem Run.cons_inv {s₀ s : σ} {es : List (Entry σ ι ο)} {e : Entry σ ι ο}
    (h : Run step s₀ (e :: es) s) :
    e.pre = s₀ ∧ step s₀ e.input = .ok (e.post, e.out) ∧ Run step e.post es s := by
  have happ : Run step s₀ ([e] ++ es) s := h
  obtain ⟨m, h1, h2⟩ := happ.split
  have hone : Run step s₀ ([] ++ [e]) m := h1
  obtain ⟨hn, hs, rfl⟩ := hone.snoc_inv
  have hpre : e.pre = s₀ := hn.nil_inv
  exact ⟨hpre, hpre ▸ hs, h2⟩

/-- What holds at the start and is kept by every step holds at the end. -/
theorem Run.invariant {I : σ → Prop}
    (hstep : ∀ s i o s', I s → step s i = .ok (s', o) → I s') {s₀ s : σ}
    {es : List (Entry σ ι ο)} (h : Run step s₀ es s) (h₀ : I s₀) : I s := by
  induction h with
  | nil => exact h₀
  | snoc _ hs ih => exact hstep _ _ _ _ ih hs

/-- If a step keeps `G` exactly when it is not `B`, then `G` holds all along exactly when
no step is. -/
theorem Run.forall_iff {I G : σ → Prop} {B : σ → ι → Prop}
    (hI : ∀ s i o s', I s → step s i = .ok (s', o) → I s')
    (hG : ∀ s i o s', I s → G s → step s i = .ok (s', o) → (G s' ↔ ¬ B s i)) {s₀ s : σ}
    {es : List (Entry σ ι ο)} (h : Run step s₀ es s) (hI₀ : I s₀) (hG₀ : G s₀) :
    (∀ e ∈ es, ¬ B e.pre e.input) ↔ ∀ e ∈ es, G e.post := by
  -- the last state is good as long as the state after each step is
  have hlast : ∀ {fs t}, Run step s₀ fs t → (∀ e ∈ fs, G e.post) → G t := by
    intro fs t hr hall
    cases hr with
    | nil => exact hG₀
    | snoc _ _ => exact hall _ (List.mem_append_right _ (List.mem_singleton_self _))
  induction h with
  | nil => simp
  | @snoc fs t t' i o hr hs ih =>
    have hkeep := hG t i o t' (hr.invariant hI hI₀)
    simp only [List.forall_mem_append, List.forall_mem_singleton, ih]
    exact ⟨fun h => ⟨h.1, (hkeep (hlast hr h.1) hs).2 h.2⟩,
      fun h => ⟨h.1, (hkeep (hlast hr h.1) hs).1 h.2⟩⟩

/-- If every step that is not `B` keeps `G`, and none is, then every step starts in `G`. -/
theorem Run.forall_pre {G : σ → Prop} {B : σ → ι → Prop}
    (hG : ∀ s i o s', G s → step s i = .ok (s', o) → ¬ B s i → G s') {s₀ s : σ}
    {es : List (Entry σ ι ο)} (h : Run step s₀ es s) (hG₀ : G s₀)
    (hB : ∀ e ∈ es, ¬ B e.pre e.input) : (∀ e ∈ es, G e.pre) ∧ G s := by
  induction h with
  | nil => exact ⟨List.forall_mem_nil _, hG₀⟩
  | snoc _ hs ih =>
    rw [List.forall_mem_append, List.forall_mem_singleton] at hB ⊢
    obtain ⟨hpre, hlast⟩ := ih hB.1
    exact ⟨⟨hpre, hlast⟩, hG _ _ _ _ hlast hs hB.2⟩

/-- Every entry of a run is a step taken in a state that some run reaches. -/
theorem Run.entry {s₀ s : σ} {es : List (Entry σ ι ο)} (h : Run step s₀ es s)
    {e : Entry σ ι ο} (he : e ∈ es) :
    (∃ fs, Run step s₀ fs e.pre) ∧ step e.pre e.input = .ok (e.post, e.out) := by
  obtain ⟨l, r, rfl⟩ := List.append_of_mem he
  obtain ⟨m, h1, h2⟩ := h.split
  obtain ⟨rfl, hs, -⟩ := h2.cons_inv
  exact ⟨⟨l, h1⟩, hs⟩

/-! Loops over a list whose turns cannot fail. -/

section Loop

variable {f : σ → ι → σ}

/-- What no turn changes, the loop does not change. -/
theorem foldl_frame {α : Type} (g : σ → α) {l : List ι} (h : ∀ s, ∀ i ∈ l, g (f s i) = g s)
    (s : σ) : g (l.foldl f s) = g s := by
  induction l generalizing s with
  | nil => rfl
  | cons i l ih =>
    rw [List.foldl_cons, ih fun s j hj => h s j (List.mem_cons_of_mem i hj)]
    exact h s i List.mem_cons_self

/-- What a turn can only add is there after the loop if it was before, or if a turn adds it. -/
theorem foldl_or_iff {p : σ → Prop} {q : σ → ι → Prop} (hp : ∀ s i, p (f s i) ↔ p s ∨ q s i)
    (hq : ∀ s i j, q (f s i) j ↔ q s j) (l : List ι) (s : σ) :
    p (l.foldl f s) ↔ p s ∨ ∃ i ∈ l, q s i := by
  induction l generalizing s with
  | nil => simp
  | cons i l ih => simp only [List.foldl_cons, ih, hp, hq, List.mem_cons, exists_eq_or_imp, or_assoc]

/-- What a turn can only take away is there after the loop if it was before, and every turn
leaves it. -/
theorem foldl_and_iff {p : σ → Prop} {q : σ → ι → Prop} (hp : ∀ s i, p (f s i) ↔ p s ∧ q s i)
    (hq : ∀ s i j, q (f s i) j ↔ q s j) (l : List ι) (s : σ) :
    p (l.foldl f s) ↔ p s ∧ ∀ i ∈ l, q s i := by
  induction l generalizing s with
  | nil => simp
  | cons i l ih => simp only [List.foldl_cons, ih, hp, hq, List.forall_mem_cons, and_assoc]

end Loop

end Lib
