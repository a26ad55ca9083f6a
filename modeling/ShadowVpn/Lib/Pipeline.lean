import Mathlib.Logic.Function.Basic
import ShadowVpn.Lib.Run

/-! Tasks around one lock. Each lane has a reader, a bounded queue and one worker: the reader
takes an input in hand and pushes it when there is room, the worker takes a job, works on it under
the lock, and emits what came of it after it has let go. Other tasks take the lock for a step of
their own. Any interleaving of them does what handling the jobs one by one does. -/

namespace Lib

variable {κ α σ η δ ω ε : Type}

/-- What the tasks do: how a reader turns an input into a job, if it does not drop it, what a
worker does under the lock, the steps of the other tasks, and the room in a queue. -/
structure Pipeline (κ α σ η δ ω ε : Type) where
  reads : κ → σ → α → Option α
  work : σ → α → η → Except ε (σ × Option ω)
  other : σ → δ → Except ε (σ × List ω)
  depth : ℕ

inductive Worker (α ω : Type) where
  | idle
  | busy (job : α)
  | done (out : ω)

structure Lane (α ω : Type) where
  hand : Option α
  queue : List α
  worker : Worker α ω

namespace Lane

def empty : Lane α ω := ⟨none, [], .idle⟩

/-- The jobs that still wait for the lock, first the one that comes first. -/
def waiting (l : Lane α ω) : List α :=
  match l.worker with
  | .busy job => job :: (l.queue ++ l.hand.toList)
  | _ => l.queue ++ l.hand.toList

/-- What still has to be emitted. -/
def pending (l : Lane α ω) : List ω :=
  match l.worker with
  | .done out => [out]
  | _ => []

end Lane

namespace Pipeline

structure State (κ α σ ω : Type) where
  shared : σ
  lanes : κ → Lane α ω

/-- Nothing is in flight. -/
def State.start (s : σ) : State κ α σ ω := ⟨s, fun _ => .empty⟩

inductive Task (κ α η δ : Type) where
  | read (k : κ) (input : α)
  | push (k : κ)
  | take (k : κ)
  | work (k : κ) (env : η)
  | emit (k : κ)
  | other (d : δ)

variable [DecidableEq κ]

def State.set (s : State κ α σ ω) (k : κ) (l : Lane α ω) : State κ α σ ω :=
  { s with lanes := Function.update s.lanes k l }

theorem State.lanes_set_of_ne {j k : κ} (h : j ≠ k) (s : State κ α σ ω) (l : Lane α ω) :
    (s.set k l).lanes j = s.lanes j := by
  simp [State.set, h]

/-- A task that cannot move waits. -/
def step (m : Pipeline κ α σ η δ ω ε) (s : State κ α σ ω) :
    Task κ α η δ → Except ε (State κ α σ ω × List ω)
  | .read k input =>
    match (s.lanes k).hand, m.reads k s.shared input with
    | none, some job => .ok (s.set k { s.lanes k with hand := some job }, [])
    | _, _ => .ok (s, [])
  | .push k =>
    match (s.lanes k).hand with
    | some job =>
      if (s.lanes k).queue.length < m.depth then
        .ok (s.set k { s.lanes k with hand := none, queue := (s.lanes k).queue ++ [job] }, [])
      else .ok (s, [])
    | none => .ok (s, [])
  | .take k =>
    match (s.lanes k).worker, (s.lanes k).queue with
    | .idle, job :: rest => .ok (s.set k { s.lanes k with queue := rest, worker := .busy job }, [])
    | _, _ => .ok (s, [])
  | .work k env =>
    match (s.lanes k).worker with
    | .busy job =>
      match m.work s.shared job env with
      | .error e => .error e
      | .ok (shared, out) =>
        .ok (State.set ⟨shared, s.lanes⟩ k { s.lanes k with worker := out.elim .idle .done }, [])
    | _ => .ok (s, [])
  | .emit k =>
    match (s.lanes k).worker with
    | .done out => .ok (s.set k { s.lanes k with worker := .idle }, [out])
    | _ => .ok (s, [])
  | .other d =>
    match m.other s.shared d with
    | .error e => .error e
    | .ok (shared, outs) => .ok ({ s with shared := shared }, outs)

/-! One job after the other. -/

inductive Input (κ α η δ : Type) where
  | job (k : κ) (job : α) (env : η)
  | other (d : δ)

def serial (m : Pipeline κ α σ η δ ω ε) (s : σ) : Input κ α η δ → Except ε (σ × List ω)
  | .job _ job env => (m.work s job env).map fun r => (r.1, r.2.toList)
  | .other d => m.other s d

omit [DecidableEq κ] in
theorem serial_job_eq_ok {m : Pipeline κ α σ η δ ω ε} {s s' : σ} {k : κ} {job : α} {env : η}
    {out : List ω} : m.serial s (.job k job env) = .ok (s', out) ↔
      ∃ o, m.work s job env = .ok (s', o) ∧ out = o.toList := by
  cases hw : m.work s job env with
  | error e => simp [serial, hw, Except.map]
  | ok r =>
    obtain ⟨t, o⟩ := r
    simp only [serial, hw, Except.map, Except.ok.injEq, Prod.mk.injEq]
    refine ⟨fun h => ⟨o, ⟨h.1, rfl⟩, h.2.symm⟩, ?_⟩
    rintro ⟨o', ⟨rfl, rfl⟩, rfl⟩
    exact ⟨rfl, rfl⟩

/-- The part of a serial run that a task's step is. -/
def serialInput (s : State κ α σ ω) : Task κ α η δ → Option (Input κ α η δ)
  | .work k env =>
    match (s.lanes k).worker with
    | .busy job => some (.job k job env)
    | _ => none
  | .other d => some (.other d)
  | _ => none

/-! What a history did on a lane. -/

/-- The job that a task takes in hand. -/
def accepted (m : Pipeline κ α σ η δ ω ε) (k : κ) (s : State κ α σ ω) : Task κ α η δ → List α
  | .read j input =>
    if j = k ∧ (s.lanes k).hand.isNone then (m.reads k s.shared input).toList else []
  | _ => []

def acceptedAll (m : Pipeline κ α σ η δ ω ε) (k : κ)
    (es : List (Entry (State κ α σ ω) (Task κ α η δ) (List ω))) : List α :=
  es.flatMap fun e => m.accepted k e.pre e.input

/-- What a worker emits is put down to its lane. -/
def emitted (k : κ) (input : Task κ α η δ) (out : List ω) : List ω :=
  match input with
  | .emit j => if j = k then out else []
  | _ => []

def emittedAll (k : κ) (es : List (Entry (State κ α σ ω) (Task κ α η δ) (List ω))) : List ω :=
  es.flatMap fun e => emitted k e.input e.out

def asides (es : List (Entry (State κ α σ ω) (Task κ α η δ) (List ω))) : List (δ × List ω) :=
  es.filterMap fun e =>
    match e.input with
    | .other d => some (d, e.out)
    | _ => none

def handled (k : κ) : Input κ α η δ → List α
  | .job j job _ => if j = k then [job] else []
  | .other _ => []

def handledAll (k : κ) (fs : List (Entry σ (Input κ α η δ) (List ω))) : List α :=
  fs.flatMap fun f => handled k f.input

def produced (k : κ) (input : Input κ α η δ) (out : List ω) : List ω :=
  match input with
  | .job j _ _ => if j = k then out else []
  | .other _ => []

def producedAll (k : κ) (fs : List (Entry σ (Input κ α η δ) (List ω))) : List ω :=
  fs.flatMap fun f => produced k f.input f.out

def serialAsides (fs : List (Entry σ (Input κ α η δ) (List ω))) : List (δ × List ω) :=
  fs.filterMap fun f =>
    match f.input with
    | .other d => some (d, f.out)
    | _ => none

/-! One step. -/

variable {m : Pipeline κ α σ η δ ω ε} {s s' : State κ α σ ω} {task : Task κ α η δ} {out : List ω}

theorem of_mem_accepted {k : κ} {job : α} (h : job ∈ m.accepted k s task) :
    ∃ input, task = .read k input ∧ m.reads k s.shared input = some job := by
  cases task with
  | read j input =>
    simp only [accepted] at h
    split_ifs at h with hj
    · obtain ⟨rfl, -⟩ := hj
      exact ⟨input, rfl, Option.mem_toList.1 h⟩
    · cases h
  | push _ => cases h
  | take _ => cases h
  | work _ _ => cases h
  | emit _ => cases h
  | other _ => cases h

/-- What a task does to the lanes and to the state under the lock. -/
inductive Steps (m : Pipeline κ α σ η δ ω ε) (s : State κ α σ ω) :
    Task κ α η δ → State κ α σ ω → List ω → Prop
  | dropped {k : κ} {input : α}
      (h : (s.lanes k).hand.isNone → m.reads k s.shared input = none) :
      Steps m s (.read k input) s []
  | read {k : κ} {input job : α} (hhand : (s.lanes k).hand = none)
      (hread : m.reads k s.shared input = some job) :
      Steps m s (.read k input) (s.set k { s.lanes k with hand := some job }) []
  | push {k : κ} {job : α} (hhand : (s.lanes k).hand = some job)
      (hroom : (s.lanes k).queue.length < m.depth) :
      Steps m s (.push k)
        (s.set k { s.lanes k with hand := none, queue := (s.lanes k).queue ++ [job] }) []
  | take {k : κ} {job : α} {rest : List α} (hidle : (s.lanes k).worker = .idle)
      (hqueue : (s.lanes k).queue = job :: rest) :
      Steps m s (.take k) (s.set k { s.lanes k with queue := rest, worker := .busy job }) []
  | work {k : κ} {env : η} {job : α} {shared : σ} {o : Option ω}
      (hbusy : (s.lanes k).worker = .busy job) (hwork : m.work s.shared job env = .ok (shared, o)) :
      Steps m s (.work k env)
        (State.set ⟨shared, s.lanes⟩ k { s.lanes k with worker := o.elim .idle .done }) []
  | emit {k : κ} {o : ω} (hdone : (s.lanes k).worker = .done o) :
      Steps m s (.emit k) (s.set k { s.lanes k with worker := .idle }) [o]
  | other {d : δ} {shared : σ} {outs : List ω} (hother : m.other s.shared d = .ok (shared, outs)) :
      Steps m s (.other d) { s with shared := shared } outs
  | waitPush {k : κ} : Steps m s (.push k) s []
  | waitTake {k : κ} : Steps m s (.take k) s []
  | waitWork {k : κ} {env : η} (h : serialInput s (.work k env : Task κ α η δ) = none) :
      Steps m s (.work k env) s []
  | waitEmit {k : κ} : Steps m s (.emit k) s []

theorem steps_of_step (h : m.step s task = .ok (s', out)) : Steps m s task s' out := by
  cases task with
  | read k input =>
    simp only [step] at h
    split at h
    · cases h
      exact .read ‹_› ‹_›
    · rename_i hne
      cases h
      refine .dropped fun hhand => ?_
      rw [Option.isNone_iff_eq_none] at hhand
      rw [Option.eq_none_iff_forall_ne_some]
      exact fun job => hne job hhand
  | push k =>
    simp only [step] at h
    split at h
    · split_ifs at h with hroom
      · cases h
        exact .push ‹_› hroom
      · cases h
        exact .waitPush
    · cases h
      exact .waitPush
  | take k =>
    simp only [step] at h
    split at h
    · cases h
      exact .take ‹_› ‹_›
    · cases h
      exact .waitTake
  | work k env =>
    simp only [step] at h
    split at h
    · split at h
      · cases h
      · cases h
        exact .work ‹_› ‹_›
    · rename_i hidle
      cases h
      refine .waitWork ?_
      cases hw : (s.lanes k).worker with
      | idle => simp only [serialInput, hw]
      | busy job => exact absurd hw (hidle job)
      | done _ => simp only [serialInput, hw]
  | emit k =>
    simp only [step] at h
    split at h
    · cases h
      exact .emit ‹_›
    · cases h
      exact .waitEmit
  | other d =>
    simp only [step] at h
    split at h
    · cases h
    · cases h
      exact .other ‹_›

/-- A step against the part of a serial run that answers it: on each lane the jobs that were
waiting, and those that came, are the ones handled and those that wait now, and so it is with what
is to be emitted. -/
structure Moves (m : Pipeline κ α σ η δ ω ε) (s : State κ α σ ω) (task : Task κ α η δ)
    (s' : State κ α σ ω) (out : List ω) (fs : List (Entry σ (Input κ α η δ) (List ω))) : Prop where
  run : Run m.serial s.shared fs s'.shared
  inputs : fs.map Entry.input = (serialInput s task).toList
  jobs : ∀ k, handledAll k fs ++ (s'.lanes k).waiting = (s.lanes k).waiting ++ m.accepted k s task
  outputs : ∀ k, emitted k task out ++ (s'.lanes k).pending = (s.lanes k).pending ++ producedAll k fs
  side : serialAsides fs = asides [⟨s, task, out, s'⟩]
  depth : ∀ k, (s.lanes k).queue.length ≤ m.depth → (s'.lanes k).queue.length ≤ m.depth

/-- A task of one lane that leaves the lock alone. -/
theorem Moves.of_lane {j : κ} {l : Lane α ω} (hnone : serialInput s task = none)
    (hjobs : l.waiting = (s.lanes j).waiting ++ m.accepted j s task)
    (hother : ∀ k, k ≠ j → m.accepted k s task = [] ∧ emitted k task out = [])
    (hout : emitted j task out ++ l.pending = (s.lanes j).pending)
    (hside : asides [⟨s, task, out, s.set j l⟩] = [])
    (hdepth : (s.lanes j).queue.length ≤ m.depth → l.queue.length ≤ m.depth) :
    Moves m s task (s.set j l) out [] where
  run := .nil
  inputs := by
    rw [hnone]
    rfl
  jobs := by
    intro k
    by_cases hk : k = j
    · subst hk
      simpa [State.set, handledAll] using hjobs
    · simp [State.set, handledAll, hk, (hother k hk).1]
  outputs := by
    intro k
    by_cases hk : k = j
    · subst hk
      simpa [State.set, producedAll] using hout
    · simp [State.set, producedAll, hk, (hother k hk).2]
  side := by
    rw [hside]
    rfl
  depth := by
    intro k
    by_cases hk : k = j
    · subst hk
      simpa [State.set] using hdepth
    · simp [State.set, hk]

/-- A task that waits. -/
theorem Moves.of_wait (hnone : serialInput s task = none) (hacc : ∀ k, m.accepted k s task = [])
    (hout : ∀ k, emitted k task ([] : List ω) = [])
    (hside : asides [⟨s, task, ([] : List ω), s⟩] = []) : Moves m s task s [] [] where
  run := .nil
  inputs := by
    rw [hnone]
    rfl
  jobs := by
    intro k
    rw [hacc, List.append_nil]
    rfl
  outputs := by
    intro k
    rw [hout, producedAll, List.flatMap_nil, List.append_nil]
    rfl
  side := by
    rw [hside]
    rfl
  depth := fun _ h => h

theorem Steps.moves (h : Steps m s task s' out) : ∃ fs, Moves m s task s' out fs := by
  cases h with
  | @dropped j input h =>
    refine ⟨[], Moves.of_wait rfl ?_ (fun _ => rfl) rfl⟩
    intro k
    simp only [accepted]
    split_ifs with hk
    · obtain ⟨rfl, hhand⟩ := hk
      rw [h hhand]
      rfl
    · rfl
  | @read j input job hhand hread =>
    refine ⟨[], Moves.of_lane rfl ?_ ?_ ?_ rfl fun h => h⟩
    · cases hw : (s.lanes j).worker with
      | idle => simp [Lane.waiting, accepted, hhand, hread, hw]
      | busy _ => simp [Lane.waiting, accepted, hhand, hread, hw]
      | done _ => simp [Lane.waiting, accepted, hhand, hread, hw]
    · intro k hk
      exact ⟨if_neg fun h => hk h.1.symm, rfl⟩
    · rfl
  | @push j job hhand hroom =>
    refine ⟨[], Moves.of_lane rfl ?_ (fun _ _ => ⟨rfl, rfl⟩) rfl rfl ?_⟩
    · cases hw : (s.lanes j).worker with
      | idle => simp [Lane.waiting, accepted, hhand, hw]
      | busy _ => simp [Lane.waiting, accepted, hhand, hw]
      | done _ => simp [Lane.waiting, accepted, hhand, hw]
    · intro _
      rw [List.length_append]
      exact hroom
  | @take j job rest hidle hqueue =>
    refine ⟨[], Moves.of_lane rfl ?_ (fun _ _ => ⟨rfl, rfl⟩) ?_ rfl ?_⟩
    · simp [Lane.waiting, accepted, hidle, hqueue]
    · simp [Lane.pending, emitted, hidle]
    · intro hle
      rw [hqueue] at hle
      exact Nat.le_of_succ_le hle
  | @work j env job shared o hbusy hwork =>
    -- the one task whose step is a step of the serial run
    have hstep : m.serial s.shared (.job j job env) = .ok (shared, o.toList) := by
      simp [serial, hwork, Except.map]
    refine ⟨[⟨s.shared, .job j job env, o.toList, shared⟩], .single hstep, ?_, ?_, ?_, rfl, ?_⟩
    · simp [serialInput, hbusy]
    · intro k
      by_cases hk : k = j
      · subst hk
        cases o with
        | none => simp [State.set, handledAll, handled, Lane.waiting, accepted, hbusy]
        | some _ => simp [State.set, handledAll, handled, Lane.waiting, accepted, hbusy]
      · simp [State.set, handledAll, handled, accepted, hk, Ne.symm hk]
    · intro k
      by_cases hk : k = j
      · subst hk
        cases o with
        | none => simp [State.set, producedAll, produced, Lane.pending, emitted, hbusy]
        | some _ => simp [State.set, producedAll, produced, Lane.pending, emitted, hbusy]
      · simp [State.set, producedAll, produced, emitted, hk, Ne.symm hk]
    · intro k
      by_cases hk : k = j
      · subst hk
        simp [State.set]
      · simp [State.set, hk]
  | @emit j o hdone =>
    refine ⟨[], Moves.of_lane rfl ?_ ?_ ?_ rfl fun h => h⟩
    · simp [Lane.waiting, accepted, hdone]
    · intro k hk
      exact ⟨rfl, if_neg hk.symm⟩
    · simp [Lane.pending, emitted, hdone]
  | @other d shared _ hother =>
    refine ⟨[⟨s.shared, .other d, out, shared⟩], .single hother, rfl, ?_, ?_, rfl, fun _ h => h⟩
    · intro k
      simp [handledAll, handled, accepted]
    · intro k
      simp [producedAll, produced, emitted]
  | waitPush => exact ⟨[], Moves.of_wait rfl (fun _ => rfl) (fun _ => rfl) rfl⟩
  | waitTake => exact ⟨[], Moves.of_wait rfl (fun _ => rfl) (fun _ => rfl) rfl⟩
  | waitWork h => exact ⟨[], Moves.of_wait h (fun _ => rfl) (fun _ => rfl) rfl⟩
  | waitEmit => exact ⟨[], Moves.of_wait rfl (fun _ => rfl) (fun k => by simp [emitted]) rfl⟩

/-! What is in flight. -/

/-- The jobs that wait satisfy `J`, and what is to be emitted satisfies `Q`. -/
structure InFlight (J : α → Prop) (Q : ω → Prop) (s : State κ α σ ω) : Prop where
  jobs : ∀ k, ∀ job ∈ (s.lanes k).waiting, J job
  outputs : ∀ k, ∀ o ∈ (s.lanes k).pending, Q o

section InFlight

variable {J J' : α → Prop} {Q Q' : ω → Prop} {fs : List (Entry σ (Input κ α η δ) (List ω))}

omit [DecidableEq κ] in
theorem inFlight_start (J : α → Prop) (Q : ω → Prop) (s : σ) :
    InFlight J Q (State.start s : State κ α σ ω) :=
  ⟨fun _ => List.forall_mem_nil _, fun _ => List.forall_mem_nil _⟩

omit [DecidableEq κ] in
theorem InFlight.mono (h : InFlight J Q s) (hJ : ∀ job, J job → J' job) (hQ : ∀ o, Q o → Q' o) :
    InFlight J' Q' s :=
  ⟨fun k job hjob => hJ job (h.jobs k job hjob), fun k o ho => hQ o (h.outputs k o ho)⟩

theorem mem_of_mem_producedAll {k : κ} {o : ω} (h : o ∈ producedAll k fs) :
    ∃ f ∈ fs, o ∈ f.out := by
  obtain ⟨f, hf, ho⟩ := List.mem_flatMap.1 h
  cases hin : f.input with
  | other d =>
    rw [hin] at ho
    cases ho
  | job j job env =>
    simp only [produced, hin] at ho
    split_ifs at ho
    · exact ⟨f, hf, ho⟩
    · cases ho

theorem Moves.outputs_hold (h : Moves m s task s' out fs) (hs : InFlight J Q s)
    (hout : ∀ f ∈ fs, ∀ o ∈ f.out, Q o) {k : κ} {o : ω}
    (ho : o ∈ emitted k task out ++ (s'.lanes k).pending) : Q o := by
  rw [h.outputs k] at ho
  rcases List.mem_append.1 ho with ho | ho
  · exact hs.outputs k o ho
  · obtain ⟨f, hf, ho⟩ := mem_of_mem_producedAll ho
    exact hout f hf o ho

theorem Moves.inFlight (h : Moves m s task s' out fs) (hs : InFlight J Q s)
    (hread : ∀ k, ∀ job ∈ m.accepted k s task, J job) (hout : ∀ f ∈ fs, ∀ o ∈ f.out, Q o) :
    InFlight J Q s' := by
  refine ⟨?_, fun k o ho => h.outputs_hold hs hout (List.mem_append_right _ ho)⟩
  intro k job hjob
  have hmem := List.mem_append_right (handledAll k fs) hjob
  rw [h.jobs k] at hmem
  rcases List.mem_append.1 hmem with hmem | hmem
  · exact hs.jobs k job hmem
  · exact hread k job hmem

/-- What comes out of a step was to be emitted on a lane, or is what another task gave. -/
theorem Steps.mem_out (h : Steps m s task s' out) {o : ω} (ho : o ∈ out) :
    (∃ k, o ∈ emitted k task out) ∨ ∃ d, task = .other d := by
  cases h with
  | @emit k o' hdone => exact Or.inl ⟨k, by simpa [emitted] using ho⟩
  | @other d _ _ _ => exact Or.inr ⟨d, rfl⟩
  | dropped _ => cases ho
  | read _ _ => cases ho
  | push _ _ => cases ho
  | take _ _ => cases ho
  | work _ _ => cases ho
  | waitPush => cases ho
  | waitTake => cases ho
  | waitWork _ => cases ho
  | waitEmit => cases ho

theorem Moves.out_holds (h : Moves m s task s' out fs) (hsteps : Steps m s task s' out)
    (hs : InFlight J Q s) (hout : ∀ f ∈ fs, ∀ o ∈ f.out, Q o) : ∀ o ∈ out, Q o := by
  intro o ho
  rcases hsteps.mem_out ho with ⟨k, hk⟩ | ⟨d, rfl⟩
  · exact h.outputs_hold hs hout (List.mem_append_left _ hk)
  · have hmem : (d, out) ∈ serialAsides fs := by
      rw [h.side]
      exact List.mem_singleton_self _
    obtain ⟨f, hf, heq⟩ := List.mem_filterMap.1 hmem
    cases hin : f.input with
    | job _ _ _ =>
      simp only [hin] at heq
      cases heq
    | other d' =>
      simp only [hin] at heq
      cases heq
      exact hout f hf o ho

/-- A step of the tasks leaves the state under the lock alone, or is a step of the serial run on a
job that was in flight. -/
theorem Steps.serves (h : Steps m s task s' out) (hs : InFlight J Q s)
    (hread : ∀ k, ∀ job ∈ m.accepted k s task, J job) :
    (serialInput s task = none ∧ s'.shared = s.shared ∧ InFlight J Q s' ∧ ∀ o ∈ out, Q o) ∨
    ∃ input outs, serialInput s task = some input ∧
      m.serial s.shared input = .ok (s'.shared, outs) ∧
      (∀ k job env, input = .job k job env → J job) ∧
      ∀ {Q' : ω → Prop}, (∀ o, Q o → Q' o) → (∀ o ∈ outs, Q' o) →
        InFlight J Q' s' ∧ ∀ o ∈ out, Q' o := by
  obtain ⟨fs, hm⟩ := h.moves
  cases hin : serialInput s task with
  | none =>
    have hnil : fs = [] := by simpa [hin] using hm.inputs
    subst hnil
    exact Or.inl ⟨rfl, hm.run.nil_inv, hm.inFlight hs hread (List.forall_mem_nil _),
      hm.out_holds h hs (List.forall_mem_nil _)⟩
  | some input =>
    obtain ⟨f, rfl, hf⟩ : ∃ f, fs = [f] ∧ f.input = input := by simpa [hin] using hm.inputs
    obtain ⟨-, hserial, hrest⟩ := hm.run.cons_inv
    rw [hf, ← hrest.nil_inv] at hserial
    refine Or.inr ⟨input, f.out, rfl, hserial, ?_, ?_⟩
    · -- a job is worked on once it has waited
      intro k job env heq
      have hmem : job ∈ handledAll k [f] ++ (s'.lanes k).waiting := by
        refine List.mem_append_left _ (List.mem_flatMap.2 ⟨f, List.mem_singleton_self f, ?_⟩)
        simp [handled, hf, heq]
      rw [hm.jobs k] at hmem
      rcases List.mem_append.1 hmem with hmem | hmem
      · exact hs.jobs k job hmem
      · exact hread k job hmem
    · intro Q' hQ hout
      have hs' : InFlight J Q' s := hs.mono (fun _ h => h) hQ
      have hout' : ∀ g ∈ [f], ∀ o ∈ g.out, Q' o := by
        intro g hg
        rwa [List.mem_singleton.1 hg]
      exact ⟨hm.inFlight hs' hread hout', hm.out_holds h hs' hout'⟩

end InFlight

/-! Whole runs. -/

/-- The serial run behind a run of the tasks: it is in the state that the lock guards, it has
handled, lane by lane and in their order, the jobs that were read except those still in flight,
and what it produced on a lane is what was emitted there, in order, and what is about to be. -/
structure Follows (m : Pipeline κ α σ η δ ω ε) (s₀ : σ)
    (es : List (Entry (State κ α σ ω) (Task κ α η δ) (List ω))) (s : State κ α σ ω)
    (fs : List (Entry σ (Input κ α η δ) (List ω))) : Prop where
  run : Run m.serial s₀ fs s.shared
  jobs : ∀ k, handledAll k fs ++ (s.lanes k).waiting = m.acceptedAll k es
  outputs : ∀ k, emittedAll k es ++ (s.lanes k).pending = producedAll k fs
  side : serialAsides fs = asides es
  depth : ∀ k, (s.lanes k).queue.length ≤ m.depth

theorem follows_start (m : Pipeline κ α σ η δ ω ε) (s₀ : σ) :
    m.Follows s₀ [] (State.start s₀) [] where
  run := .nil
  jobs := fun _ => rfl
  outputs := fun _ => rfl
  side := rfl
  depth := fun _ => Nat.zero_le _

theorem Follows.snoc {s₀ : σ} {es : List (Entry (State κ α σ ω) (Task κ α η δ) (List ω))}
    {fs gs : List (Entry σ (Input κ α η δ) (List ω))} (h : m.Follows s₀ es s fs)
    (hm : Moves m s task s' out gs) : m.Follows s₀ (es ++ [⟨s, task, out, s'⟩]) s' (fs ++ gs) where
  run := h.run.trans hm.run
  jobs := by
    intro k
    have hfs := h.jobs k
    simp only [handledAll, acceptedAll] at hfs
    simp only [handledAll, acceptedAll, List.flatMap_append, List.flatMap_singleton,
      List.append_assoc]
    rw [← hfs, List.append_assoc, ← hm.jobs k]
    rfl
  outputs := by
    intro k
    have hfs := h.outputs k
    simp only [emittedAll, producedAll] at hfs
    simp only [emittedAll, producedAll, List.flatMap_append, List.flatMap_singleton,
      List.append_assoc]
    rw [← hfs, List.append_assoc, hm.outputs k]
    rfl
  side := by
    have hfs := h.side
    have hgs := hm.side
    simp only [serialAsides, asides] at hfs hgs
    simp only [serialAsides, asides, List.filterMap_append, hfs, hgs]
  depth := fun k => hm.depth k (h.depth k)

/-- Every interleaving of the tasks is a serial run. -/
theorem run_follows {s₀ : σ} {es : List (Entry (State κ α σ ω) (Task κ α η δ) (List ω))}
    (h : Run m.step (State.start s₀) es s) : ∃ fs, m.Follows s₀ es s fs := by
  induction h with
  | nil => exact ⟨[], m.follows_start s₀⟩
  | snoc _ hs ih =>
    obtain ⟨fs, hfs⟩ := ih
    obtain ⟨gs, hgs⟩ := (steps_of_step hs).moves
    exact ⟨fs ++ gs, hfs.snoc hgs⟩

/-! Where an output comes from. -/

/-- A lane came to hold `o` in this step only if its worker made it. -/
theorem Steps.done (h : Steps m s task s' out) {k : κ} {o : ω}
    (ho : (s'.lanes k).worker = .done o) :
    (s.lanes k).worker = .done o ∨ ∃ job env, task = .work k env ∧
      (s.lanes k).worker = .busy job ∧ m.work s.shared job env = .ok (s'.shared, some o) := by
  -- a step changes the lane it is of, so each case is about that lane or leaves `k` alone
  cases h with
  | dropped _ => exact Or.inl ho
  | @read j _ _ _ _ =>
    rcases eq_or_ne k j with rfl | hk
    · exact Or.inl (by simpa [State.set] using ho)
    · rw [State.lanes_set_of_ne hk] at ho
      exact Or.inl ho
  | @push j _ _ _ =>
    rcases eq_or_ne k j with rfl | hk
    · exact Or.inl (by simpa [State.set] using ho)
    · rw [State.lanes_set_of_ne hk] at ho
      exact Or.inl ho
  | @take j _ _ _ _ =>
    rcases eq_or_ne k j with rfl | hk
    · simp [State.set] at ho
    · rw [State.lanes_set_of_ne hk] at ho
      exact Or.inl ho
  | @work j env job shared made hbusy hwork =>
    rcases eq_or_ne k j with rfl | hk
    · refine Or.inr ⟨job, env, rfl, hbusy, ?_⟩
      cases made with
      | none => simp [State.set] at ho
      | some o' =>
        obtain rfl : o' = o := by simpa [State.set] using ho
        exact hwork
    · rw [State.lanes_set_of_ne hk] at ho
      exact Or.inl ho
  | @emit j _ _ =>
    rcases eq_or_ne k j with rfl | hk
    · simp [State.set] at ho
    · rw [State.lanes_set_of_ne hk] at ho
      exact Or.inl ho
  | other _ => exact Or.inl ho
  | waitPush => exact Or.inl ho
  | waitTake => exact Or.inl ho
  | waitWork _ => exact Or.inl ho
  | waitEmit => exact Or.inl ho

theorem Steps.done_of_emitted (h : Steps m s task s' out) {k : κ} {o : ω}
    (ho : o ∈ emitted k task out) : (s.lanes k).worker = .done o := by
  cases h with
  | @emit j o' hdone =>
    simp only [emitted] at ho
    split_ifs at ho with hj
    · subst hj
      rw [List.mem_singleton.1 ho]
      exact hdone
    · cases ho
  | waitEmit =>
    simp only [emitted, ite_self] at ho
    cases ho
  | dropped _ => cases ho
  | read _ _ => cases ho
  | push _ _ => cases ho
  | take _ _ => cases ho
  | work _ _ => cases ho
  | other _ => cases ho
  | waitPush => cases ho
  | waitTake => cases ho
  | waitWork _ => cases ho

/-- The turn `e` in which the worker of a lane made `o`, of a job that its reader had taken
before. -/
structure Made (m : Pipeline κ α σ η δ ω ε)
    (es : List (Entry (State κ α σ ω) (Task κ α η δ) (List ω))) (k : κ) (o : ω)
    (e : Entry (State κ α σ ω) (Task κ α η δ) (List ω)) (job : α) (env : η) : Prop where
  accepted : ∃ before after, es = before ++ e :: after ∧ job ∈ m.acceptedAll k before
  input : e.input = .work k env
  busy : (e.pre.lanes k).worker = .busy job
  work : m.work e.pre.shared job env = .ok (e.post.shared, some o)

section

variable {s₀ : σ} {es : List (Entry (State κ α σ ω) (Task κ α η δ) (List ω))} {k : κ} {job : α}
  {o : ω}

theorem Made.snoc {e : Entry (State κ α σ ω) (Task κ α η δ) (List ω)} {env : η}
    (h : m.Made es k o e job env) (e' : Entry (State κ α σ ω) (Task κ α η δ) (List ω)) :
    m.Made (es ++ [e']) k o e job env := by
  obtain ⟨before, after, rfl, hjob⟩ := h.accepted
  exact ⟨⟨before, after ++ [e'], by simp, hjob⟩, h.input, h.busy, h.work⟩

theorem Made.mem {e : Entry (State κ α σ ω) (Task κ α η δ) (List ω)} {env : η}
    (h : m.Made es k o e job env) : e ∈ es := by
  obtain ⟨before, after, rfl, -⟩ := h.accepted
  simp

/-- A worker is at work on a job that the reader of its lane took. -/
theorem accepted_of_busy (h : Run m.step (State.start s₀) es s)
    (hbusy : (s.lanes k).worker = .busy job) : job ∈ m.acceptedAll k es := by
  obtain ⟨fs, hfs⟩ := run_follows h
  rw [← hfs.jobs k]
  refine List.mem_append_right _ ?_
  rw [Lane.waiting, hbusy]
  exact List.mem_cons_self

theorem made_of_done (h : Run m.step (State.start s₀) es s) (ho : (s.lanes k).worker = .done o) :
    ∃ e job env, m.Made es k o e job env := by
  induction h with
  | nil => cases ho
  | @snoc es t t' task out hrun hs ih =>
    rcases (steps_of_step hs).done ho with hold | ⟨job, env, htask, hbusy, hwork⟩
    · obtain ⟨e, job, env, hmade⟩ := ih hold
      exact ⟨e, job, env, hmade.snoc _⟩
    · exact ⟨_, job, env, ⟨es, [], rfl, accepted_of_busy hrun hbusy⟩, htask, hbusy, hwork⟩

/-- Whatever a lane emits, its worker made in a turn of the run. -/
theorem made_of_emitted (h : Run m.step (State.start s₀) es s) (ho : o ∈ emittedAll k es) :
    ∃ e job env, m.Made es k o e job env := by
  induction h with
  | nil => cases ho
  | @snoc es t t' task out hrun hs ih =>
    rw [emittedAll, List.flatMap_append, List.mem_append, List.flatMap_singleton] at ho
    have hmade : ∃ e job env, m.Made es k o e job env := by
      rcases ho with ho | ho
      · exact ih ho
      · exact made_of_done hrun ((steps_of_step hs).done_of_emitted ho)
    obtain ⟨e, job, env, hmade⟩ := hmade
    exact ⟨e, job, env, hmade.snoc _⟩

/-- A job on which a worker is at work was made by the reader of its lane. -/
theorem reads_of_busy (h : Run m.step (State.start s₀) es s)
    (hbusy : (s.lanes k).worker = .busy job) : ∃ t input, m.reads k t input = some job := by
  obtain ⟨e, -, he⟩ := List.mem_flatMap.1 (accepted_of_busy h hbusy)
  obtain ⟨input, -, hread⟩ := of_mem_accepted he
  exact ⟨_, input, hread⟩

end

end Pipeline

end Lib
