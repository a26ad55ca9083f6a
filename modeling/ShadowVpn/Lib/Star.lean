import ShadowVpn.Lib.Pipeline

/-! A hub and its spokes. The medium between them may lose what is sent, double it, hold it up and
let it overtake, but it makes nothing up: what arrives was sent, by the owner of the address that
it comes from, or to an address of the one that it comes to. -/

namespace Lib

variable {κ α μ σ τ ι ι' ω ε ε' : Type}

inductive Star.Event (κ ι ι' : Type) where
  | hub (input : ι)
  | spoke (k : κ) (input : ι')

/-- The spoke that an event is of, if it is not the hub's. -/
def Star.Event.party : Star.Event κ ι ι' → Option κ
  | .hub _ => none
  | .spoke k _ => some k

/-- `owner` says whose an address is, `mail` what of a party's output goes over the medium,
`hears` and `told` which messages an input brings to the hub and to a spoke, and `sound` what is
assumed of an input besides. -/
structure Star (κ α μ σ τ ι ι' ω ε ε' : Type) where
  owner : α → κ
  hub : σ → ι → Except ε (σ × List ω)
  spoke : κ → τ → ι' → Except ε' (τ × List ω)
  mail : ω → Option (α × μ)
  hears : ι → α → μ → Prop
  told : κ → ι' → μ → Prop
  sound : Star.Event κ ι ι' → Prop

namespace Star

/-- The parties, and all that was ever sent. -/
structure State (κ α μ σ τ : Type) where
  hub : σ
  spokes : κ → τ
  up : List (κ × μ)
  down : List (α × μ)

def State.start (hub : σ) (spokes : κ → τ) : State κ α μ σ τ := ⟨hub, spokes, [], []⟩

abbrev History (κ α μ σ τ ι ι' ω : Type) :=
  List (Entry (State κ α μ σ τ) (Event κ ι ι') (List ω))

variable [DecidableEq κ]

/-- A fault of one party is a fault of its step; a run goes on with the others. -/
def step (N : Star κ α μ σ τ ι ι' ω ε ε') (s : State κ α μ σ τ) :
    Event κ ι ι' → Except (ε ⊕ ε') (State κ α μ σ τ × List ω)
  | .hub input =>
    match N.hub s.hub input with
    | .error e => .error (.inl e)
    | .ok (hub, out) => .ok ({ s with hub := hub, down := s.down ++ out.filterMap N.mail }, out)
  | .spoke k input =>
    match N.spoke k (s.spokes k) input with
    | .error e => .error (.inr e)
    | .ok (t, out) =>
      .ok ({ s with
        spokes := Function.update s.spokes k t
        up := s.up ++ (out.filterMap N.mail).map fun m => (k, m.2) }, out)

/-- The medium makes nothing up. -/
def Honest (N : Star κ α μ σ τ ι ι' ω ε ε') (s : State κ α μ σ τ) (event : Event κ ι ι') : Prop :=
  N.sound event ∧
    match event with
    | .hub input => ∀ a m, N.hears input a m → (N.owner a, m) ∈ s.up
    | .spoke k input => ∀ m, N.told k input m → ∃ a, N.owner a = k ∧ (a, m) ∈ s.down

variable {N : Star κ α μ σ τ ι ι' ω ε ε'} {s s' s₀ : State κ α μ σ τ} {event : Event κ ι ι'}
  {out : List ω} {es : History κ α μ σ τ ι ι' ω}

inductive Steps (N : Star κ α μ σ τ ι ι' ω ε ε') (s : State κ α μ σ τ) :
    Event κ ι ι' → State κ α μ σ τ → List ω → Prop
  | hub {input : ι} {hub : σ} {out : List ω} (h : N.hub s.hub input = .ok (hub, out)) :
      Steps N s (.hub input) { s with hub := hub, down := s.down ++ out.filterMap N.mail } out
  | spoke {k : κ} {input : ι'} {t : τ} {out : List ω}
      (h : N.spoke k (s.spokes k) input = .ok (t, out)) :
      Steps N s (.spoke k input) { s with
        spokes := Function.update s.spokes k t
        up := s.up ++ (out.filterMap N.mail).map fun m => (k, m.2) } out

theorem steps_of_step (h : N.step s event = .ok (s', out)) : Steps N s event s' out := by
  cases event with
  | hub input =>
    simp only [step] at h
    split at h
    · cases h
    · cases h
      exact .hub ‹_›
  | spoke k input =>
    simp only [step] at h
    split at h
    · cases h
    · cases h
      exact .spoke ‹_›

theorem step_hub {input : ι} {hub : σ} (h : N.hub s.hub input = .ok (hub, out)) :
    N.step s (.hub input) =
      .ok ({ s with hub := hub, down := s.down ++ out.filterMap N.mail }, out) := by
  simp only [step, h]

theorem step_spoke {k : κ} {input : ι'} {t : τ} (h : N.spoke k (s.spokes k) input = .ok (t, out)) :
    N.step s (.spoke k input) = .ok ({ s with
      spokes := Function.update s.spokes k t
      up := s.up ++ (out.filterMap N.mail).map fun m => (k, m.2) }, out) := by
  simp only [step, h]

/-! Assume and guarantee. -/

/-- What the parties promise each other: what holds of the hub and of each spoke, and what a spoke
asks and the hub answers, each after the history so far. Nothing that was promised is taken
back. -/
structure Contract (N : Star κ α μ σ τ ι ι' ω ε ε') where
  hub : History κ α μ σ τ ι ι' ω → σ → Prop
  spoke : History κ α μ σ τ ι ι' ω → κ → τ → Prop
  asks : History κ α μ σ τ ι ι' ω → κ → μ → Prop
  answers : History κ α μ σ τ ι ι' ω → α → μ → Prop
  hub_mono : ∀ {es h} e, hub es h → hub (es ++ [e]) h
  spoke_mono : ∀ {es k t} e, spoke es k t → spoke (es ++ [e]) k t
  asks_mono : ∀ {es k m} e, asks es k m → asks (es ++ [e]) k m
  answers_mono : ∀ {es a m} e, answers es a m → answers (es ++ [e]) a m

/-- The contract is kept by all, and in all that was sent. -/
structure Contract.Kept (C : Contract N) (es : History κ α μ σ τ ι ι' ω) (s : State κ α μ σ τ) :
    Prop where
  hub : C.hub es s.hub
  spokes : ∀ k, C.spoke es k (s.spokes k)
  up : ∀ x ∈ s.up, C.asks es x.1 x.2
  down : ∀ x ∈ s.down, C.answers es x.1 x.2

/-- If each party keeps its part as long as it hears only what the others promise, all do. -/
theorem Contract.run_kept (C : Contract N)
    (hhub : ∀ {es s input out} s', Run N.step s₀ es s → (∀ e ∈ es, N.Honest e.pre e.input) →
      N.hub s.hub input = .ok (s'.hub, out) → N.sound (.hub input) → C.hub es s.hub →
      (∀ a m, N.hears input a m → C.asks es (N.owner a) m) →
      C.hub (es ++ [⟨s, .hub input, out, s'⟩]) s'.hub ∧
        ∀ x ∈ out.filterMap N.mail, C.answers (es ++ [⟨s, .hub input, out, s'⟩]) x.1 x.2)
    (hspoke : ∀ {es s k input out} s', Run N.step s₀ es s → (∀ e ∈ es, N.Honest e.pre e.input) →
      N.spoke k (s.spokes k) input = .ok (s'.spokes k, out) → N.sound (.spoke k input) →
      C.spoke es k (s.spokes k) →
      (∀ m, N.told k input m → ∃ a, N.owner a = k ∧ C.answers es a m) →
      C.spoke (es ++ [⟨s, .spoke k input, out, s'⟩]) k (s'.spokes k) ∧
        ∀ x ∈ out.filterMap N.mail, C.asks (es ++ [⟨s, .spoke k input, out, s'⟩]) k x.2)
    (h : Run N.step s₀ es s) (h₀ : C.Kept [] s₀) (hes : ∀ e ∈ es, N.Honest e.pre e.input) :
    C.Kept es s := by
  induction h with
  | nil => exact h₀
  | @snoc fs t t' event out hrun hs ih =>
    rw [List.forall_mem_append, List.forall_mem_singleton] at hes
    obtain ⟨hbefore, hsound, hhonest⟩ := hes
    have hk := ih hbefore
    cases steps_of_step hs with
    | @hub input hub _ hstep =>
      obtain ⟨hnew, hout⟩ := hhub { t with hub := hub, down := t.down ++ out.filterMap N.mail }
        hrun hbefore hstep hsound hk.hub fun a m hm => hk.up _ (hhonest a m hm)
      refine ⟨hnew, fun k => C.spoke_mono _ (hk.spokes k),
        fun x hx => C.asks_mono _ (hk.up x hx), ?_⟩
      intro x hx
      rcases List.mem_append.1 hx with hx | hx
      · exact C.answers_mono _ (hk.down x hx)
      · exact hout x hx
    | @spoke k input u _ hstep =>
      have htold : ∀ m, N.told k input m → ∃ a, N.owner a = k ∧ C.answers fs a m := by
        intro m hm
        obtain ⟨a, ha, hmem⟩ := hhonest m hm
        exact ⟨a, ha, hk.down _ hmem⟩
      have hself : N.spoke k (t.spokes k) input = .ok (Function.update t.spokes k u k, out) := by
        rw [Function.update_self]
        exact hstep
      obtain ⟨hnew, hout⟩ := hspoke { t with
          spokes := Function.update t.spokes k u
          up := t.up ++ (out.filterMap N.mail).map fun m => (k, m.2) } hrun hbefore hself
        hsound (hk.spokes k) htold
      refine ⟨C.hub_mono _ hk.hub, ?_, ?_, fun x hx => C.answers_mono _ (hk.down x hx)⟩
      · intro j
        rcases eq_or_ne j k with rfl | hj
        · exact hnew
        · simp only [Function.update_of_ne hj]
          exact C.spoke_mono _ (hk.spokes j)
      · intro x hx
        rcases List.mem_append.1 hx with hx | hx
        · exact C.asks_mono _ (hk.up x hx)
        · obtain ⟨m, hm, rfl⟩ := List.mem_map.1 hx
          exact hout m hm

end Star

/-! Parties of several tasks. -/

variable {ρ ρ' β η η' δ δ' : Type}

/-- A star whose parties are pipelines with jobs of one kind. A reader passes on what it reads, or
drops it. -/
structure TaskStar (κ α μ σ τ ρ ρ' β η η' δ δ' ω ε ε' : Type) where
  owner : α → κ
  hub : Pipeline ρ β σ η δ ω ε
  spoke : κ → Pipeline ρ' β τ η' δ' ω ε'
  mail : ω → Option (α × μ)
  hears : β → α → μ → Prop
  told : κ → β → μ → Prop
  sound : β → Prop
  hub_reads : ∀ {r s input job}, hub.reads r s input = some job → job = input
  spoke_reads : ∀ {k r t input job}, (spoke k).reads r t input = some job → job = input

namespace TaskStar

open Pipeline Lib.Star

variable [DecidableEq κ] [DecidableEq ρ] [DecidableEq ρ']

section

variable (N : TaskStar κ α μ σ τ ρ ρ' β η η' δ δ' ω ε ε')

/-- Each party handles one job at a time. -/
def serial : Star κ α μ σ τ (Input ρ β η δ) (Input ρ' β η' δ') ω ε ε' where
  owner := N.owner
  hub := N.hub.serial
  spoke k := (N.spoke k).serial
  mail := N.mail
  hears
    | .job _ job _ => N.hears job
    | .other _ => fun _ _ => False
  told
    | k, .job _ job _ => N.told k job
    | _, .other _ => fun _ => False
  sound
    | .hub (.job _ job _) => N.sound job
    | .spoke _ (.job _ job _) => N.sound job
    | _ => True

/-- Everything takes turns: the parties, and the tasks of each. -/
def tasks : Star κ α μ (Pipeline.State ρ β σ ω) (Pipeline.State ρ' β τ ω) (Task ρ β η δ)
    (Task ρ' β η' δ') ω ε ε' where
  owner := N.owner
  hub := N.hub.step
  spoke k := (N.spoke k).step
  mail := N.mail
  hears
    | .read _ input => N.hears input
    | _ => fun _ _ => False
  told
    | k, .read _ input => N.told k input
    | _, _ => fun _ => False
  sound
    | .hub (.read _ input) => N.sound input
    | .spoke _ (.read _ input) => N.sound input
    | _ => True

end

abbrev TaskState (κ α μ σ τ ρ ρ' β ω : Type) :=
  Star.State κ α μ (Pipeline.State ρ β σ ω) (Pipeline.State ρ' β τ ω)

abbrev TaskEntry (κ α μ σ τ ρ ρ' β η η' δ δ' ω : Type) :=
  Entry (TaskState κ α μ σ τ ρ ρ' β ω) (Event κ (Task ρ β η δ) (Task ρ' β η' δ')) (List ω)

abbrev SerialEntry (κ α μ σ τ ρ ρ' β η η' δ δ' ω : Type) :=
  Entry (Star.State κ α μ σ τ) (Event κ (Input ρ β η δ) (Input ρ' β η' δ')) (List ω)

/-- The serial event that a task's step is. -/
def serialEvent (s : TaskState κ α μ σ τ ρ ρ' β ω) :
    Event κ (Task ρ β η δ) (Task ρ' β η' δ') → Option (Event κ (Input ρ β η δ) (Input ρ' β η' δ'))
  | .hub task => (serialInput s.hub task).map .hub
  | .spoke k task => (serialInput (s.spokes k) task).map (.spoke k)

/-- An event, with the states of the hub before and after. -/
structure Turn (σ ν : Type) where
  pre : σ
  event : ν
  post : σ

def turnOf (f : SerialEntry κ α μ σ τ ρ ρ' β η η' δ δ' ω) :
    Turn σ (Event κ (Input ρ β η δ) (Input ρ' β η' δ')) :=
  ⟨f.pre.hub, f.input, f.post.hub⟩

/-- The events that a history of the tasks went through, in their order. -/
def turns (es : List (TaskEntry κ α μ σ τ ρ ρ' β η η' δ δ' ω)) :
    List (Turn σ (Event κ (Input ρ β η δ) (Input ρ' β η' δ'))) :=
  es.filterMap fun e => (serialEvent e.pre e.input).map fun event =>
    ⟨e.pre.hub.shared, event, e.post.hub.shared⟩

omit [DecidableEq κ] [DecidableEq ρ] [DecidableEq ρ'] in
theorem of_mem_turns {es : List (TaskEntry κ α μ σ τ ρ ρ' β η η' δ δ' ω)}
    {t : Turn σ (Event κ (Input ρ β η δ) (Input ρ' β η' δ'))} (h : t ∈ turns es) :
    ∃ e ∈ es, serialEvent e.pre e.input = some t.event := by
  obtain ⟨e, he, ht⟩ := List.mem_filterMap.1 h
  obtain ⟨event, hevent, rfl⟩ := Option.map_eq_some_iff.1 ht
  exact ⟨e, he, hevent⟩

variable {N : TaskStar κ α μ σ τ ρ ρ' β η η' δ δ' ω ε ε'}
  {hub : σ} {spokes : κ → τ} {es : List (TaskEntry κ α μ σ τ ρ ρ' β η η' δ δ' ω)}
  {T T' : TaskState κ α μ σ τ ρ ρ' β ω} {fs : List (SerialEntry κ α μ σ τ ρ ρ' β η η' δ δ' ω)}
  {S : Star.State κ α μ σ τ} {event : Event κ (Task ρ β η δ) (Task ρ' β η' δ')} {out : List ω}

/-- A party gave `o` in a step of the serial run. -/
def Gave (fs : List (SerialEntry κ α μ σ τ ρ ρ' β η η' δ δ' ω)) (party : Option κ) (o : ω) : Prop :=
  ∃ f ∈ fs, o ∈ f.out ∧ f.input.party = party

omit [DecidableEq κ] [DecidableEq ρ] [DecidableEq ρ'] in
theorem Gave.snoc {party : Option κ} {o : ω} (h : Gave fs party o)
    (f : SerialEntry κ α μ σ τ ρ ρ' β η η' δ δ' ω) : Gave (fs ++ [f]) party o := by
  obtain ⟨g, hg, ho⟩ := h
  exact ⟨g, List.mem_append_left _ hg, ho⟩

/-- What the hub put out, the serial run gave and sent. -/
def HubSent (N : TaskStar κ α μ σ τ ρ ρ' β η η' δ δ' ω ε ε')
    (fs : List (SerialEntry κ α μ σ τ ρ ρ' β η η' δ δ' ω)) (S : Star.State κ α μ σ τ) (o : ω) :
    Prop :=
  (∀ x, N.mail o = some x → x ∈ S.down) ∧ Gave fs none o

def SpokeSent (N : TaskStar κ α μ σ τ ρ ρ' β η η' δ δ' ω ε ε')
    (fs : List (SerialEntry κ α μ σ τ ρ ρ' β η η' δ δ' ω)) (S : Star.State κ α μ σ τ) (k : κ)
    (o : ω) : Prop :=
  (∀ x, N.mail o = some x → (k, x.2) ∈ S.up) ∧ Gave fs (some k) o

/-- What was sent covers the jobs in flight, and what is to be emitted. -/
def HubFlight (N : TaskStar κ α μ σ τ ρ ρ' β η η' δ δ' ω ε ε')
    (fs : List (SerialEntry κ α μ σ τ ρ ρ' β η η' δ δ' ω)) (S : Star.State κ α μ σ τ)
    (T : Pipeline.State ρ β σ ω) : Prop :=
  InFlight (fun job => N.sound job ∧ ∀ a m, N.hears job a m → (N.owner a, m) ∈ S.up)
    (N.HubSent fs S) T

def SpokeFlight (N : TaskStar κ α μ σ τ ρ ρ' β η η' δ δ' ω ε ε')
    (fs : List (SerialEntry κ α μ σ τ ρ ρ' β η η' δ δ' ω)) (S : Star.State κ α μ σ τ) (k : κ)
    (T : Pipeline.State ρ' β τ ω) : Prop :=
  InFlight
    (fun job => N.sound job ∧ ∀ m, N.told k job m → ∃ a, N.owner a = k ∧ (a, m) ∈ S.down)
    (N.SpokeSent fs S k) T

/-- The serial run behind a run of all tasks: it is in the states that the locks guard, it has sent
what was sent and what is about to be, it went through the same events in the same order, and
whatever a party has put out it gave in one of its steps. -/
structure Follows (N : TaskStar κ α μ σ τ ρ ρ' β η η' δ δ' ω ε ε') (hub : σ) (spokes : κ → τ)
    (es : List (TaskEntry κ α μ σ τ ρ ρ' β η η' δ δ' ω)) (T : TaskState κ α μ σ τ ρ ρ' β ω)
    (fs : List (SerialEntry κ α μ σ τ ρ ρ' β η η' δ δ' ω)) (S : Star.State κ α μ σ τ) :
    Prop where
  run : Run N.serial.step (.start hub spokes) fs S
  honest : ∀ f ∈ fs, N.serial.Honest f.pre f.input
  hub : S.hub = T.hub.shared
  spokes : ∀ k, S.spokes k = (T.spokes k).shared
  up : ∀ x ∈ T.up, x ∈ S.up
  down : ∀ x ∈ T.down, x ∈ S.down
  hubFlight : HubFlight N fs S T.hub
  spokeFlight : ∀ k, SpokeFlight N fs S k (T.spokes k)
  events : turns es = fs.map turnOf
  given : ∀ e ∈ es, ∀ o ∈ e.out, Gave fs e.input.party o

omit [DecidableEq ρ] [DecidableEq ρ'] in
theorem follows_start (N : TaskStar κ α μ σ τ ρ ρ' β η η' δ δ' ω ε ε') (hub : σ) (spokes : κ → τ) :
    N.Follows hub spokes [] (.start (.start hub) fun k => .start (spokes k)) []
      (.start hub spokes) where
  run := .nil
  honest := List.forall_mem_nil _
  hub := rfl
  spokes := fun _ => rfl
  up := List.forall_mem_nil _
  down := List.forall_mem_nil _
  hubFlight := inFlight_start _ _ _
  spokeFlight := fun _ => inFlight_start _ _ _
  events := rfl
  given := List.forall_mem_nil _

omit [DecidableEq κ] [DecidableEq ρ] [DecidableEq ρ'] in
theorem turns_skip (h : turns es = fs.map turnOf) {e : TaskEntry κ α μ σ τ ρ ρ' β η η' δ δ' ω}
    (he : serialEvent e.pre e.input = none) : turns (es ++ [e]) = fs.map turnOf := by
  rw [turns, List.filterMap_append, ← turns, h]
  simp [he]

omit [DecidableEq κ] [DecidableEq ρ] [DecidableEq ρ'] in
theorem turns_snoc (h : turns es = fs.map turnOf) {e : TaskEntry κ α μ σ τ ρ ρ' β η η' δ δ' ω}
    {f : SerialEntry κ α μ σ τ ρ ρ' β η η' δ δ' ω} (he : serialEvent e.pre e.input = some f.input)
    (hpre : e.pre.hub.shared = f.pre.hub) (hpost : e.post.hub.shared = f.post.hub) :
    turns (es ++ [e]) = (fs ++ [f]).map turnOf := by
  rw [turns, List.filterMap_append, ← turns, h]
  simp [he, turnOf, hpre, hpost]

omit [DecidableEq ρ] [DecidableEq ρ'] in
theorem Follows.mem_turns (h : N.Follows hub spokes es T fs S)
    {f : SerialEntry κ α μ σ τ ρ ρ' β η η' δ δ' ω} (hf : f ∈ fs) : turnOf f ∈ turns es := by
  rw [h.events]
  exact List.mem_map_of_mem hf

/-- A job that the hub's reader takes in hand was sent. -/
theorem Follows.hub_accepts (h : N.Follows hub spokes es T fs S) {task : Task ρ β η δ}
    (hhonest : N.tasks.Honest T (.hub task)) :
    ∀ r, ∀ job ∈ N.hub.accepted r T.hub task,
      N.sound job ∧ ∀ a m, N.hears job a m → (N.owner a, m) ∈ S.up := by
  intro r job hjob
  obtain ⟨input, rfl, hread⟩ := of_mem_accepted hjob
  obtain rfl := N.hub_reads hread
  exact ⟨hhonest.1, fun a m hm => h.up _ (hhonest.2 a m hm)⟩

theorem Follows.spoke_accepts (h : N.Follows hub spokes es T fs S) {k : κ} {task : Task ρ' β η' δ'}
    (hhonest : N.tasks.Honest T (.spoke k task)) :
    ∀ r, ∀ job ∈ (N.spoke k).accepted r (T.spokes k) task,
      N.sound job ∧ ∀ m, N.told k job m → ∃ a, N.owner a = k ∧ (a, m) ∈ S.down := by
  intro r job hjob
  obtain ⟨input, rfl, hread⟩ := of_mem_accepted hjob
  obtain rfl := N.spoke_reads hread
  refine ⟨hhonest.1, fun m hm => ?_⟩
  obtain ⟨a, ha, hmem⟩ := hhonest.2 m hm
  exact ⟨a, ha, h.down _ hmem⟩

/-- What is in the medium after a turn: what was there, and what the turn has mailed. -/
theorem forall_mem_mailed {γ : Type} {l : List γ} {f : ω → Option γ} {p : γ → Prop}
    (hold : ∀ x ∈ l, p x) (hnew : ∀ o ∈ out, ∀ x, f o = some x → p x) :
    ∀ x ∈ l ++ out.filterMap f, p x := by
  intro x hx
  rcases List.mem_append.1 hx with hx | hx
  · exact hold x hx
  · obtain ⟨o, ho, hmail⟩ := List.mem_filterMap.1 hx
    exact hnew o ho x hmail

theorem Follows.hub_step (h : N.Follows hub spokes es T fs S) {task : Task ρ β η δ}
    {H : Pipeline.State ρ β σ ω} (hstep : N.hub.step T.hub task = .ok (H, out))
    (hhonest : N.tasks.Honest T (.hub task))
    (hT : T' = { T with hub := H, down := T.down ++ out.filterMap N.mail }) :
    ∃ fs S, N.Follows hub spokes (es ++ [⟨T, .hub task, out, T'⟩]) T' fs S := by
  subst hT
  rcases (Pipeline.steps_of_step hstep).serves h.hubFlight (h.hub_accepts hhonest) with
    ⟨hnone, hshared, hflight, hout⟩ | ⟨input, outs, hin, hserial, hjob, hflight⟩
  · refine ⟨fs, S, h.run, h.honest, h.hub.trans hshared.symm, h.spokes, h.up, ?_, hflight,
      h.spokeFlight, turns_skip h.events ?_, ?_⟩
    · exact forall_mem_mailed h.down fun o ho => (hout o ho).1
    · simp only [serialEvent, hnone, Option.map_none]
    · rw [List.forall_mem_append, List.forall_mem_singleton]
      exact ⟨h.given, fun o ho => (hout o ho).2⟩
  · rw [← h.hub] at hserial
    have hrun := h.run.snoc (N.serial.step_hub hserial)
    set S' := { S with hub := H.shared, down := S.down ++ outs.filterMap N.mail }
    have hold : ∀ o, N.HubSent fs S o → N.HubSent (fs ++ [⟨S, .hub input, outs, S'⟩]) S' o :=
      fun o ho => ⟨fun x hx => List.mem_append_left _ (ho.1 x hx), ho.2.snoc _⟩
    have hnew : ∀ o ∈ outs, N.HubSent (fs ++ [⟨S, .hub input, outs, S'⟩]) S' o := fun o ho =>
      ⟨fun x hx => List.mem_append_right _ (List.mem_filterMap.2 ⟨o, ho, hx⟩),
        _, List.mem_append_right _ (List.mem_singleton_self _), ho, rfl⟩
    obtain ⟨hhub, hout⟩ := hflight hold hnew
    refine ⟨_, _, hrun, ?_, rfl, h.spokes, h.up, ?_, hhub, ?_, ?_, ?_⟩
    · rw [List.forall_mem_append, List.forall_mem_singleton]
      refine ⟨h.honest, ?_⟩
      cases input with
      | job r job env => exact hjob r job env rfl
      | other d => exact ⟨trivial, fun _ _ => False.elim⟩
    · exact forall_mem_mailed (fun x hx => List.mem_append_left _ (h.down x hx))
        fun o ho => (hout o ho).1
    · intro k
      refine (h.spokeFlight k).mono ?_ fun _ ho => ⟨ho.1, ho.2.snoc _⟩
      intro job hj
      refine ⟨hj.1, fun m hm => ?_⟩
      obtain ⟨a, ha, hmem⟩ := hj.2 m hm
      exact ⟨a, ha, List.mem_append_left _ hmem⟩
    · refine turns_snoc h.events ?_ h.hub.symm rfl
      simp only [serialEvent, hin, Option.map_some]
    · rw [List.forall_mem_append, List.forall_mem_singleton]
      exact ⟨fun e he o ho => (h.given e he o ho).snoc _, fun o ho => (hout o ho).2⟩

theorem Follows.spoke_step (h : N.Follows hub spokes es T fs S) {k : κ} {task : Task ρ' β η' δ'}
    {H : Pipeline.State ρ' β τ ω} (hstep : (N.spoke k).step (T.spokes k) task = .ok (H, out))
    (hhonest : N.tasks.Honest T (.spoke k task))
    (hT : T' = { T with
      spokes := Function.update T.spokes k H
      up := T.up ++ (out.filterMap N.mail).map fun m => (k, m.2) }) :
    ∃ fs S, N.Follows hub spokes (es ++ [⟨T, .spoke k task, out, T'⟩]) T' fs S := by
  subst hT
  rcases (Pipeline.steps_of_step hstep).serves (h.spokeFlight k) (h.spoke_accepts hhonest) with
    ⟨hnone, hshared, hflight, hout⟩ | ⟨input, outs, hin, hserial, hjob, hflight⟩
  · refine ⟨fs, S, h.run, h.honest, h.hub, ?_, ?_, h.down, h.hubFlight, ?_,
      turns_skip h.events ?_, ?_⟩
    · intro j
      rcases eq_or_ne j k with rfl | hj
      · simp only [Function.update_self, hshared, h.spokes j]
      · simp only [Function.update_of_ne hj, h.spokes j]
    · rw [List.map_filterMap]
      refine forall_mem_mailed h.up fun o ho x hx => ?_
      obtain ⟨m, hmail, rfl⟩ := Option.map_eq_some_iff.1 hx
      exact (hout o ho).1 m hmail
    · intro j
      rcases eq_or_ne j k with rfl | hj
      · simp only [Function.update_self]
        exact hflight
      · simp only [Function.update_of_ne hj]
        exact h.spokeFlight j
    · simp only [serialEvent, hnone, Option.map_none]
    · rw [List.forall_mem_append, List.forall_mem_singleton]
      exact ⟨h.given, fun o ho => (hout o ho).2⟩
  · rw [← h.spokes k] at hserial
    have hrun := h.run.snoc (N.serial.step_spoke hserial)
    set S' : Star.State κ α μ σ τ := { S with
      spokes := Function.update S.spokes k H.shared
      up := S.up ++ (outs.filterMap N.mail).map fun m => (k, m.2) }
    have hold : ∀ o, N.SpokeSent fs S k o →
        N.SpokeSent (fs ++ [⟨S, .spoke k input, outs, S'⟩]) S' k o :=
      fun o ho => ⟨fun x hx => List.mem_append_left _ (ho.1 x hx), ho.2.snoc _⟩
    have hnew : ∀ o ∈ outs, N.SpokeSent (fs ++ [⟨S, .spoke k input, outs, S'⟩]) S' k o :=
      fun o ho => ⟨fun x hx => List.mem_append_right _
          (List.mem_map.2 ⟨x, List.mem_filterMap.2 ⟨o, ho, hx⟩, rfl⟩),
        _, List.mem_append_right _ (List.mem_singleton_self _), ho, rfl⟩
    obtain ⟨hspoke, hout⟩ := hflight hold hnew
    refine ⟨_, _, hrun, ?_, h.hub, ?_, ?_, h.down, ?_, ?_, ?_, ?_⟩
    · rw [List.forall_mem_append, List.forall_mem_singleton]
      refine ⟨h.honest, ?_⟩
      cases input with
      | job r job env => exact hjob r job env rfl
      | other d => exact ⟨trivial, fun _ => False.elim⟩
    · intro j
      rcases eq_or_ne j k with rfl | hj
      · simp only [Function.update_self]
      · simp only [Function.update_of_ne hj, h.spokes j]
    · rw [List.map_filterMap]
      refine forall_mem_mailed (fun x hx => List.mem_append_left _ (h.up x hx)) fun o ho x hx => ?_
      obtain ⟨m, hmail, rfl⟩ := Option.map_eq_some_iff.1 hx
      exact (hout o ho).1 m hmail
    · refine h.hubFlight.mono ?_ fun _ ho => ⟨ho.1, ho.2.snoc _⟩
      exact fun job hj => ⟨hj.1, fun a m hm => List.mem_append_left _ (hj.2 a m hm)⟩
    · intro j
      rcases eq_or_ne j k with rfl | hj
      · simp only [Function.update_self]
        exact hspoke
      · simp only [Function.update_of_ne hj]
        exact (h.spokeFlight j).mono (fun _ hj => hj) fun o ho =>
          ⟨fun x hx => List.mem_append_left _ (ho.1 x hx), ho.2.snoc _⟩
    · refine turns_snoc h.events ?_ h.hub.symm h.hub.symm
      simp only [serialEvent, hin, Option.map_some]
    · rw [List.forall_mem_append, List.forall_mem_singleton]
      exact ⟨fun e he o ho => (h.given e he o ho).snoc _, fun o ho => (hout o ho).2⟩

/-- However the parties and their tasks take turns, they do what parties do that handle one job at
a time, over the same medium. -/
theorem run_follows
    (h : Run N.tasks.step (.start (.start hub) fun k => .start (spokes k)) es T)
    (hes : ∀ e ∈ es, N.tasks.Honest e.pre e.input) : ∃ fs S, N.Follows hub spokes es T fs S := by
  induction h with
  | nil => exact ⟨[], _, N.follows_start hub spokes⟩
  | @snoc es T T' event out _ hs ih =>
    rw [List.forall_mem_append, List.forall_mem_singleton] at hes
    obtain ⟨fs, S, hfs⟩ := ih hes.1
    cases Star.steps_of_step hs with
    | hub hstep => exact hfs.hub_step hstep hes.2 rfl
    | spoke hstep => exact hfs.spoke_step hstep hes.2 rfl

end TaskStar

end Lib
