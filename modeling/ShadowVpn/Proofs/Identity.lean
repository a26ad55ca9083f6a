import ShadowVpn.Lib.Run
import ShadowVpn.Sanity.NodeText
import ShadowVpn.Sanity.State

/-! The identity of a client over its lives. `write_private` does not replace the state file
at once, so a client that is killed in the middle of it comes back as another node. Nobody
else can read what a state file holds. -/

namespace ShadowVpn

open Lib

namespace Client

section

variable {os : Os} {codec : StateCodec} {path server : Text} {d₀ d e : Disk Path}
  {entropy id : NodeId} {last : Option LastAssign}

def decoded (os : Os) (codec : StateCodec) (path : Text) (d : Disk Path) :
    Option ClientStateFile :=
  (d.read (os.path path)).bind codec.fromSlice

def Kept (os : Os) (codec : StateCodec) (path : Text) (d : Disk Path) (id : NodeId)
    (last : Option LastAssign) : Prop :=
  ∃ state, decoded os codec path d = some state ∧ parseNodeId state.nodeId = .ok (some id) ∧
    state.lastAssign = last

theorem parseNodeId_fmtNode (id : NodeId) : parseNodeId (fmtNode id) = .ok (some id) :=
  ShadowVpn.parseNodeId_fmtNode id

theorem persistState_safe (hos : os.isWindows = false) (hp : d.Plain (os.path path))
    (id : NodeId) (last : Option LastAssign) :
    Safe False (fun e => e.Plain (os.path path) ∧ (decoded os codec path e = decoded os codec path d ∨
        Kept os codec path e id last ∨ decoded os codec path e = none))
      (persistState os codec path ⟨fmtNode id, server, last⟩) d
      fun _ e => e.Plain (os.path path) ∧ Kept os codec path e id last := by
  have hkept : ∀ {e bytes}, e.read (os.path path) = some bytes →
      codec.fromSlice bytes = some ⟨fmtNode id, server, last⟩ → Kept os codec path e id last := by
    intro e bytes hread hslice
    refine ⟨⟨fmtNode id, server, last⟩, ?_, parseNodeId_fmtNode id, rfl⟩
    rw [decoded, hread]
    exact hslice
  refine (StateFile.writePrivate_safe hos hp).mono (fun e he => ⟨he.plain hp, ?_⟩) ?_
  · rcases he.read hp with heq | ⟨n, hn⟩
    · left
      rw [decoded, decoded, heq]
    · right
      rcases codec.fromSlice_beginning ⟨fmtNode id, server, last⟩ n with hs | hs
      · exact Or.inl (hkept hn hs)
      · right
        rw [decoded, hn]
        exact hs
  · rintro ok e ⟨he, hok, hno⟩
    refine ⟨he.plain hp, ?_⟩
    cases ok with
    | false => exact (hno rfl).elim
    | true => exact hkept (Disk.read_of_file (hok rfl)) (codec.fromSlice_toVecPretty _)

/-- A disk on the way of a start that makes a new identity. -/
def Creating (os : Os) (codec : StateCodec) (path : Text) (entropy : NodeId)
    (d e : Disk Path) : Prop :=
  decoded os codec path e = decoded os codec path d ∨
    Kept os codec path e (generateNodeId entropy) none ∨ decoded os codec path e = none

theorem createState_safe (hos : os.isWindows = false) (hp : d.Plain (os.path path)) :
    Safe False (fun e => e.Plain (os.path path) ∧ Creating os codec path entropy d e)
      (createState os codec path server entropy) d
      fun result e => e.Plain (os.path path) ∧ result = .ok (generateNodeId entropy, none) ∧
        Kept os codec path e (generateNodeId entropy) none := by
  refine Safe.bind (persistState_safe hos hp _ _) ?_
  rintro _ e ⟨hplain, hkept⟩
  exact Safe.ret ⟨hplain, Or.inr (Or.inl hkept)⟩ ⟨hplain, rfl, hkept⟩

/-- A disk on the way of a start: as it was if it has a state file, and else with the new one or
still without one. -/
structure Starting (os : Os) (codec : StateCodec) (path : Text) (entropy : NodeId)
    (d e : Disk Path) : Prop where
  plain : e.Plain (os.path path)
  same : ∀ id last, Kept os codec path d id last → e = d
  fresh : decoded os codec path d = none → decoded os codec path e = none ∨
    Kept os codec path e (generateNodeId entropy) none

theorem starting_refl (hp : d.Plain (os.path path)) : Starting os codec path entropy d d :=
  ⟨hp, fun _ _ _ => rfl, Or.inl⟩

/-- What a start has come to, on the disk `e`, from what the disk `d` had in the file. -/
structure Resumed (os : Os) (codec : StateCodec) (path : Text) (entropy : NodeId)
    (d : Disk Path) (result : Except Panic (NodeId × Option LastAssign)) (e : Disk Path) :
    Prop where
  plain : e.Plain (os.path path)
  written : ∀ id last, result = .ok (id, last) → Kept os codec path e id last
  kept : ∀ id last, Kept os codec path d id last → result = .ok (id, last)
  fresh : decoded os codec path d = none → result = .ok (generateNodeId entropy, none)

theorem Kept.of_decoded {state : ClientStateFile} (h : Kept os codec path d id last)
    (hdec : decoded os codec path d = some state) :
    parseNodeId state.nodeId = .ok (some id) ∧ state.lastAssign = last := by
  obtain ⟨state', hstate', hid, hlast⟩ := h
  cases hdec.symm.trans hstate'
  exact ⟨hid, hlast⟩

/-- A start without an identity in the file makes one. -/
theorem createState_starting (hos : os.isWindows = false) (hp : d.Plain (os.path path))
    (hnot : ∀ id last, ¬ Kept os codec path d id last) :
    Safe False (Starting os codec path entropy d) (createState os codec path server entropy) d
      (Resumed os codec path entropy d) := by
  refine (createState_safe hos hp).mono ?_ ?_
  · rintro e ⟨hplain, hcreating⟩
    refine ⟨hplain, fun id last hk => absurd hk (hnot id last), ?_⟩
    intro hnone
    rcases hcreating with hdec | hkept | hdec
    · exact Or.inl (hdec.trans hnone)
    · exact Or.inr hkept
    · exact Or.inl hdec
  · rintro result e ⟨hplain, rfl, hkept⟩
    refine ⟨hplain, ?_, fun id last hk => absurd hk (hnot id last), fun _ => rfl⟩
    intro id last h
    cases h
    exact hkept

theorem loadOrCreateState_safe (hos : os.isWindows = false) (hp : d.Plain (os.path path)) :
    Safe False (Starting os codec path entropy d) (loadOrCreateState os codec path server entropy) d
      (Resumed os codec path entropy d) := by
  refine Safe.read (starting_refl hp) ?_ fun hf => hf.elim
  change Safe False _ (resumeState os codec path server entropy (decoded os codec path d)) d _
  cases hdec : decoded os codec path d with
  | none =>
    refine createState_starting hos hp ?_
    rintro id last ⟨state, hstate, -⟩
    cases hdec.symm.trans hstate
  | some state =>
    cases hid : parseNodeId state.nodeId with
    | error err =>
      simp only [resumeState, hid]
      refine Safe.ret (starting_refl hp) ⟨hp, fun id last h => (by cases h), ?_, fun h => ?_⟩
      · intro id last hk
        cases hid.symm.trans (hk.of_decoded hdec).1
      · cases hdec.symm.trans h
    | ok found =>
      cases found with
      | some id =>
        simp only [resumeState, hid]
        refine Safe.ret (starting_refl hp) ⟨hp, ?_, ?_, fun h => ?_⟩
        · intro id' last h
          cases h
          exact ⟨state, hdec, hid, rfl⟩
        · intro id' last hk
          obtain ⟨hid', rfl⟩ := hk.of_decoded hdec
          cases hid.symm.trans hid'
          rfl
        · cases hdec.symm.trans h
      | none =>
        simp only [resumeState, hid]
        refine createState_starting hos hp fun id last hk => ?_
        cases hid.symm.trans (hk.of_decoded hdec).1

theorem Kept.starts (h : Kept os codec path d id last) :
    Exec False (loadOrCreateState os codec path server entropy) d (some (.ok (id, last))) d := by
  obtain ⟨state, hstate, hid, rfl⟩ := h
  refine Exec.read ?_
  change Exec False (resumeState os codec path server entropy (decoded os codec path d)) d _ d
  rw [hstate]
  simp only [resumeState, hid]
  exact Exec.ret _ d

end

/-! Lives. -/

inductive LifeEvent where
  | start (entropy : NodeId) (before : Disk Path)
      (result : Option (Except Panic (NodeId × Option LastAssign)))
  | persist (assigned : LastAssign) (before : Disk Path) (result : Option Bool)

def identityOf : Option (Except Panic (NodeId × Option LastAssign)) → Option NodeId
  | some (.ok (id, _)) => some id
  | _ => none

/-- Starts, and assignments that a process keeps under the identity it started with. A process
may be killed at any time; nothing else goes wrong. -/
inductive Lives (os : Os) (codec : StateCodec) (path server : Text) (d₀ : Disk Path) :
    List LifeEvent → Option NodeId → Disk Path → Prop
  | nil : Lives os codec path server d₀ [] none d₀
  | start {es : List LifeEvent} {running : Option NodeId} {d e : Disk Path} {entropy : NodeId}
      {result : Option (Except Panic (NodeId × Option LastAssign))} :
      Lives os codec path server d₀ es running d →
      Exec False (loadOrCreateState os codec path server entropy) d result e →
      Lives os codec path server d₀ (es ++ [.start entropy d result]) (identityOf result) e
  | persist {es : List LifeEvent} {id : NodeId} {d e : Disk Path} {reply : Assign}
      {ip6 : Option Ipv6Network} {unixNow : UInt64} {result : Option Bool} :
      Lives os codec path server d₀ es (some id) d →
      Exec False (persistAssignment os codec path server id reply ip6 unixNow) d result e →
      Lives os codec path server d₀
        (es ++ [.persist ⟨reply.tunIp, reply.netmask, reply.peerIp, ip6, unixNow⟩ d result])
        (result.map fun _ => id) e

def LifeEvent.isStarted : LifeEvent → Bool
  | .start _ _ (some (.ok _)) => true
  | _ => false

def latest (last : Option LastAssign) (es : List LifeEvent) : Option LastAssign :=
  es.foldl (fun l ev => match ev with
    | .persist a _ (some _) => some a
    | _ => l) last

/-- A process was killed in the course of writing this assignment. -/
def CutShort (es : List LifeEvent) (a : LastAssign) : Prop :=
  ∃ m, .persist a m none ∈ es

/-- A start, whether it came back or not, that finds no state file that parses. -/
def StartsWithout (os : Os) (codec : StateCodec) (path : Text) (es : List LifeEvent)
    (entropy : NodeId) : Prop :=
  ∃ m result, .start entropy m result ∈ es ∧ decoded os codec path m = none

variable {os : Os} {codec : StateCodec} {path server : Text} {d₀ d e : Disk Path}
  {es mid : List LifeEvent} {running : Option NodeId} {id : NodeId} {last : Option LastAssign}

theorem CutShort.append {a : LastAssign} (h : CutShort mid a) (es : List LifeEvent) :
    CutShort (mid ++ es) a := by
  obtain ⟨m, hm⟩ := h
  exact ⟨m, List.mem_append_left _ hm⟩

theorem StartsWithout.append {entropy : NodeId} (h : StartsWithout os codec path mid entropy)
    (es : List LifeEvent) : StartsWithout os codec path (mid ++ es) entropy := by
  obtain ⟨m, result, hmem, hnone⟩ := h
  exact ⟨m, result, List.mem_append_left _ hmem, hnone⟩

theorem Kept.decoded_ne (h : Kept os codec path d id last) : decoded os codec path d ≠ none := by
  obtain ⟨state, hstate, -⟩ := h
  rw [hstate]
  exact Option.some_ne_none state

theorem startsWithout_snoc {entropy entropy' : NodeId} {m : Disk Path}
    {result : Option (Except Panic (NodeId × Option LastAssign))} :
    StartsWithout os codec path (mid ++ [.start entropy' m result]) entropy ↔
      StartsWithout os codec path mid entropy ∨
        entropy = entropy' ∧ decoded os codec path m = none := by
  constructor
  · rintro ⟨m', result', hmem, hnone⟩
    rcases List.mem_append.1 hmem with hmem | hmem
    · exact Or.inl ⟨m', result', hmem, hnone⟩
    · cases List.mem_singleton.1 hmem
      exact Or.inr ⟨rfl, hnone⟩
  · rintro (h | ⟨rfl, hnone⟩)
    · exact h.append _
    · exact ⟨m, result, by simp, hnone⟩

theorem Lives.plain (hos : os.isWindows = false) (hp : d₀.Plain (os.path path))
    (h : Lives os codec path server d₀ es running d) : d.Plain (os.path path) := by
  induction h with
  | nil => exact hp
  | start hl he ih => exact (loadOrCreateState_safe hos ih _ _ he).1.plain
  | persist hl he ih => exact (persistState_safe hos ih _ _ _ _ he).1.1

/-- Every start has found a state file, and the file names the node: with what it wrote last, or, if
the process is no longer, with what it was writing. -/
structure Remembered (os : Os) (codec : StateCodec) (path : Text) (id : NodeId)
    (last : Option LastAssign) (mid : List LifeEvent) (running : Option NodeId) (d : Disk Path) :
    Prop where
  found : ∀ entropy, ¬ StartsWithout os codec path mid entropy
  process : running = some id ∨ running = none
  kept : Kept os codec path d id (latest last mid) ∨
    running = none ∧ ∃ a, CutShort mid a ∧ Kept os codec path d id (some a)

/-- A write that was cut short has left no state file, and no more than a start has made of that
since. -/
structure Forgotten (os : Os) (codec : StateCodec) (path : Text)
    (mid : List LifeEvent) (running : Option NodeId) (d : Disk Path) : Prop where
  cut : ∃ a, CutShort mid a
  process : running = none
  left : decoded os codec path d = none ∨ ∃ entropy, StartsWithout os codec path mid entropy ∧
    Kept os codec path d (generateNodeId entropy) none

theorem latest_start (last : Option LastAssign) (mid : List LifeEvent) (entropy : NodeId)
    (m : Disk Path) (result : Option (Except Panic (NodeId × Option LastAssign))) :
    latest last (mid ++ [.start entropy m result]) = latest last mid := by
  rw [latest, List.foldl_append]
  rfl

theorem Remembered.start (hos : os.isWindows = false) (hp : d.Plain (os.path path))
    (h : Remembered os codec path id last mid running d) {entropy : NodeId}
    {result : Option (Except Panic (NodeId × Option LastAssign))}
    (he : Exec False (loadOrCreateState os codec path server entropy) d result e)
    (hdead : identityOf result = none) :
    Remembered os codec path id last (mid ++ [.start entropy d result]) (identityOf result) e := by
  have hsame : ∀ {l}, Kept os codec path d id l → e = d ∧ decoded os codec path d ≠ none :=
    fun hk => ⟨(loadOrCreateState_safe hos hp _ _ he).1.same _ _ hk, hk.decoded_ne⟩
  obtain ⟨rfl, hsome⟩ : e = d ∧ decoded os codec path d ≠ none := by
    rcases h.kept with hk | ⟨-, a, -, hk⟩
    · exact hsame hk
    · exact hsame hk
  refine ⟨?_, Or.inr hdead, ?_⟩
  · intro entropy' hnone
    rcases startsWithout_snoc.1 hnone with hnone | ⟨-, hnone⟩
    · exact h.found entropy' hnone
    · exact hsome hnone
  · rw [latest_start]
    refine h.kept.imp_right ?_
    rintro ⟨-, a, hcut, hk⟩
    exact ⟨hdead, a, hcut.append _, hk⟩

theorem Forgotten.start (hos : os.isWindows = false) (hp : d.Plain (os.path path))
    (h : Forgotten os codec path mid running d) {entropy : NodeId}
    {result : Option (Except Panic (NodeId × Option LastAssign))}
    (he : Exec False (loadOrCreateState os codec path server entropy) d result e)
    (hdead : identityOf result = none) :
    Forgotten os codec path (mid ++ [.start entropy d result]) (identityOf result) e := by
  obtain ⟨a, hcut⟩ := h.cut
  have hstarting := (loadOrCreateState_safe hos hp _ _ he).1
  refine ⟨⟨a, hcut.append _⟩, hdead, ?_⟩
  rcases h.left with hnone | ⟨entropy', hwithout, hkept⟩
  · rcases hstarting.fresh hnone with hstill | hkept
    · exact Or.inl hstill
    · exact Or.inr ⟨entropy, startsWithout_snoc.2 (Or.inr ⟨rfl, hnone⟩), hkept⟩
  · obtain rfl := hstarting.same _ _ hkept
    exact Or.inr ⟨entropy', hwithout.append _, hkept⟩

theorem Remembered.persist (hos : os.isWindows = false) (hp : d.Plain (os.path path))
    (h : Remembered os codec path id last mid (some id) d) {reply : Assign}
    {ip6 : Option Ipv6Network} {unixNow : UInt64} {result : Option Bool} {a : LastAssign}
    (ha : a = ⟨reply.tunIp, reply.netmask, reply.peerIp, ip6, unixNow⟩)
    (he : Exec False (persistAssignment os codec path server id reply ip6 unixNow) d result e) :
    Remembered os codec path id last (mid ++ [.persist a d result]) (result.map fun _ => id) e ∨
      Forgotten os codec path (mid ++ [.persist a d result]) (result.map fun _ => id) e := by
  subst ha
  have hfound : ∀ {a : LastAssign} entropy,
      ¬ StartsWithout os codec path (mid ++ [.persist a d result]) entropy := by
    rintro a entropy ⟨m, r, hmem, hnone⟩
    rcases List.mem_append.1 hmem with hmem | hmem
    · exact h.found entropy ⟨m, r, hmem, hnone⟩
    · cases List.mem_singleton.1 hmem
  have hkept : Kept os codec path d id (latest last mid) :=
    h.kept.resolve_right fun hdead => by cases hdead.1
  obtain ⟨⟨-, hstop⟩, hret⟩ := persistState_safe hos hp _ _ _ _ he
  cases result with
  | some ok =>
    refine Or.inl ⟨hfound, Or.inl rfl, Or.inl ?_⟩
    rw [latest, List.foldl_append]
    exact (hret ok rfl).2
  | none =>
    have hcut : ∀ {a : LastAssign}, CutShort (mid ++ [.persist a d none]) a := ⟨d, by simp⟩
    rcases hstop with hdec | hnew | hnone
    · refine Or.inl ⟨hfound, Or.inr rfl, Or.inl ?_⟩
      rw [latest, List.foldl_append]
      obtain ⟨state, hstate, hrest⟩ := hkept
      exact ⟨state, hdec.trans hstate, hrest⟩
    · exact Or.inl ⟨hfound, Or.inr rfl, Or.inr ⟨rfl, _, hcut, hnew⟩⟩
    · exact Or.inr ⟨⟨_, hcut⟩, rfl, Or.inl hnone⟩

/-- From a start to before the next that comes back: the node is remembered, or a write was cut
short. -/
theorem Lives.since (hos : os.isWindows = false) (hp : d₀.Plain (os.path path))
    (h : Lives os codec path server d₀ es running d) {pre : List LifeEvent} {entropy : NodeId}
    {m : Disk Path} (hes : es = pre ++ .start entropy m (some (.ok (id, last))) :: mid)
    (hmid : mid.all fun ev => !ev.isStarted) :
    Remembered os codec path id last mid running d ∨ Forgotten os codec path mid running d := by
  induction h generalizing mid with
  | nil => simp at hes
  | @start es running d e entropy' result hl he ih =>
    rcases snoc_eq_append_cons hes with ⟨-, hx, rfl⟩ | ⟨front, rfl, hfront⟩
    · cases hx
      have hret := (loadOrCreateState_safe hos (hl.plain hos hp) _ _ he).2 _ rfl
      refine Or.inl ⟨?_, Or.inl rfl, Or.inl (hret.written _ _ rfl)⟩
      rintro _ ⟨_, _, hmem, -⟩
      cases hmem
    · rw [List.all_append, Bool.and_eq_true] at hmid
      have hdead : identityOf result = none := by
        rcases result with _ | (_ | _)
        · rfl
        · rfl
        · simp [LifeEvent.isStarted] at hmid
      exact (ih hfront hmid.1).imp (fun hr => hr.start hos (hl.plain hos hp) he hdead)
        fun hf => hf.start hos (hl.plain hos hp) he hdead
  | @persist es id' d e reply ip6 unixNow result hl he ih =>
    rcases snoc_eq_append_cons hes with ⟨-, hx, -⟩ | ⟨front, rfl, hfront⟩
    · cases hx
    · rw [List.all_append, Bool.and_eq_true] at hmid
      -- the process that writes is the one of the start
      rcases ih hfront hmid.1 with hr | hf
      · obtain ⟨⟩ := hr.process.resolve_right nofun
        exact hr.persist hos (hl.plain hos hp) rfl he
      · cases hf.process

theorem Lives.start_at (h : Lives os codec path server d₀ es running d)
    {front post : List LifeEvent} {entropy : NodeId} {m : Disk Path}
    {result : Option (Except Panic (NodeId × Option LastAssign))}
    (hes : es = front ++ .start entropy m result :: post) :
    ∃ running' e, Lives os codec path server d₀ front running' m ∧
      Exec False (loadOrCreateState os codec path server entropy) m result e := by
  induction h generalizing post with
  | nil => simp at hes
  | start hl he ih =>
    rcases snoc_eq_append_cons hes with ⟨rfl, hx, -⟩ | ⟨mid, -, hfront⟩
    · cases hx
      exact ⟨_, _, hl, he⟩
    · exact ih hfront
  | persist hl he ih =>
    rcases snoc_eq_append_cons hes with ⟨-, hx, -⟩ | ⟨mid, -, hfront⟩
    · cases hx
    · exact ih hfront

/-- Over any number of lives of a client, each killed wherever it is, in its start or later. Between
a start and the next that comes back, either every start has found a state file; then the node
keeps its identity, and the assignment that it wrote last, or was writing. Or a write of an
assignment was cut short, and some start since has found no state file that parses; then, and only
then, the node comes back with an identity from the entropy of such a start. -/
theorem identity_kept_unless_cut_short (hos : os.isWindows = false)
    (hp : d₀.Plain (os.path path)) (h : Lives os codec path server d₀ es running d)
    {pre post : List LifeEvent} {entropy entropy' id' : NodeId} {m m' : Disk Path}
    {last' : Option LastAssign}
    (hes : es = pre ++ .start entropy m (some (.ok (id, last))) ::
      (mid ++ .start entropy' m' (some (.ok (id', last'))) :: post))
    (hmid : mid.all fun ev => !ev.isStarted) :
    ((∀ ent, ¬ StartsWithout os codec path
        (mid ++ [.start entropy' m' (some (.ok (id', last')))]) ent) ∧
      id' = id ∧ (last' = latest last mid ∨ ∃ a, CutShort mid a ∧ last' = some a)) ∨
    ((∃ a, CutShort mid a) ∧ last' = none ∧ ∃ ent, StartsWithout os codec path
        (mid ++ [.start entropy' m' (some (.ok (id', last')))]) ent ∧ id' = generateNodeId ent) := by
  rw [← List.cons_append, ← List.append_assoc] at hes
  obtain ⟨running', e, hl, he⟩ := h.start_at hes
  obtain ⟨-, hret⟩ := loadOrCreateState_safe hos (hl.plain hos hp) _ _ he
  have hsame : ∀ {i l}, Kept os codec path m' i l →
      decoded os codec path m' ≠ none ∧ id' = i ∧ last' = l := by
    intro i l hk
    cases (hret _ rfl).kept i l hk
    exact ⟨hk.decoded_ne, rfl, rfl⟩
  rcases hl.since hos hp rfl hmid with hr | hf
  · obtain ⟨hsome, hid, hlast⟩ : decoded os codec path m' ≠ none ∧ id' = id ∧
        (last' = latest last mid ∨ ∃ a, CutShort mid a ∧ last' = some a) := by
      rcases hr.kept with hk | ⟨-, a, hcut, hk⟩
      · exact ⟨(hsame hk).1, (hsame hk).2.1, Or.inl (hsame hk).2.2⟩
      · exact ⟨(hsame hk).1, (hsame hk).2.1, Or.inr ⟨a, hcut, (hsame hk).2.2⟩⟩
    refine Or.inl ⟨?_, hid, hlast⟩
    intro ent hnone
    rcases startsWithout_snoc.1 hnone with hnone | ⟨-, hnone⟩
    · exact hr.found ent hnone
    · exact hsome hnone
  · refine Or.inr ⟨hf.cut, ?_⟩
    rcases hf.left with hnone | ⟨ent, hwithout, hk⟩
    · cases (hret _ rfl).fresh hnone
      exact ⟨rfl, entropy', startsWithout_snoc.2 (Or.inr ⟨rfl, hnone⟩), rfl⟩
    · obtain ⟨-, rfl, rfl⟩ := hsame hk
      exact ⟨rfl, ent, hwithout.append _, rfl⟩

/-- A client starts for the first time and is assigned an address; it is killed in its next start,
and then comes back with its identity and the address. -/
theorem identity_kept_unless_cut_short_restart : ∃ (codec : StateCodec)
    (entropy id' : NodeId) (assigned : LastAssign) (last' : Option LastAssign) (d m : Disk Path),
    Lives .linux codec ['s'] [] (fun _ => none)
      [.start entropy (fun _ => none) (some (.ok (generateNodeId entropy, none))),
        .persist assigned m (some true), .start entropy d none,
        .start entropy d (some (.ok (id', last')))] (some id') d ∧
      id' = generateNodeId entropy ∧ last' = some assigned := by
  obtain ⟨codec⟩ : Nonempty StateCodec := Codec.nonempty_of_countable _
  let entropy : NodeId := ⟨List.replicate 16 1, rfl⟩
  let reply : Assign := ⟨.ok, 0x0A090003, 0xFFFFFF00, 0x0A090001, none, 0, 0, 3600⟩
  have hplain : Disk.Plain (fun _ => none) (Os.linux.path ['s']) := Disk.plain_of_eq_none rfl
  have h₁ := (loadOrCreateState .linux codec ['s'] [] entropy).exec_run False
    [.done, .done, .done] (fun _ => none) (Or.inr (by decide))
  have hl₁ : Lives .linux codec ['s'] [] (fun _ => none) [.start entropy (fun _ => none)
      (some (.ok (generateNodeId entropy, none)))] (some (generateNodeId entropy)) _ :=
    Lives.nil.start h₁
  have h₂ := (persistAssignment .linux codec ['s'] [] (generateNodeId entropy) reply none 7).exec_run
    False [.done, .done, .done] ((loadOrCreateState .linux codec ['s'] [] entropy).run
      [.done, .done, .done] fun _ => none).2 (Or.inr (by decide))
  have hl₂ : Lives .linux codec ['s'] [] (fun _ => none) ([_] ++ [.persist
      ⟨0x0A090003, 0xFFFFFF00, 0x0A090001, none, 7⟩ _ (some true)]) (some _) _ := hl₁.persist h₂
  -- the write has returned, so that the next start finds the file
  have hr := (hl₂.since rfl hplain (rfl : _ = [] ++ _ :: [_]) rfl).resolve_right
    fun hf => by cases hf.process
  have hkept := hr.kept.resolve_right fun hdead => by cases hdead.1
  have hl₃ := hl₂.start (Exec.killed (loadOrCreateState .linux codec ['s'] [] entropy) _)
  have h₄ : Exec False (loadOrCreateState .linux codec ['s'] [] entropy) _ _ _ := hkept.starts
  have hl₄ := hl₃.start h₄
  obtain ⟨-, hid, hlast⟩ | ⟨⟨a, m, hcut⟩, -⟩ := identity_kept_unless_cut_short rfl hplain hl₄
    (rfl : _ = [] ++ _ :: ([_, _] ++ _ :: [])) rfl
  · exact ⟨codec, entropy, _, _, _, _, _, hl₄, hid, rfl⟩
  · simp at hcut

end Client

/-! Who can read a state file. -/

namespace StateFile

inductive Write where
  | plain (data : Bytes)
  | atomic (data : Bytes)

def Write.prog (os : Os) (path : Text) : Write → Prog Path Bool
  | .plain data => writePrivate os path data
  | .atomic data => writePrivateAtomic os path data

def Guarded (d₀ d : Disk Path) (q : Path) : Prop :=
  d q = d₀ q ∨ d q = none ∨ d q = some (.dir 0o700) ∨
    ∃ f, d q = some (.file f) ∧ (f.mode = 0o600 ∨ f.data = [])

variable {os : Os} {path : Text} {d₀ d m e : Disk Path} {data : Bytes} {p q : Path}

theorem Guarded.of_eq (h : Guarded d₀ d q) (he : e q = d q) : Guarded d₀ e q := by
  unfold Guarded
  rw [he]
  exact h

theorem Guarded.newDirs {n : ℕ} (h : Guarded d₀ d q) (hn : NewDirs n d e) : Guarded d₀ e q := by
  rcases hn q with heq | ⟨-, -, hdir⟩
  · exact h.of_eq heq
  · exact Or.inr (Or.inr (Or.inl hdir))

/-- A file has its mode before it has a byte. -/
theorem Guarded.stage (h : Guarded d₀ d p) (hs : Stage p data d e) : Guarded d₀ e p := by
  cases hs with
  | before => exact h
  | opened mode hmode => exact Or.inr (Or.inr (Or.inr ⟨_, Disk.set_self _, Or.inr rfl⟩))
  | wrote n synced => exact Or.inr (Or.inr (Or.inr ⟨_, Disk.set_self _, Or.inl rfl⟩))

/-- A disk that the writers of one state file leave. -/
structure Kept (os : Os) (path : Text) (d₀ d : Disk Path) : Prop where
  file : d.Plain (os.path path)
  sidecar : d.Plain (tmpPath os path)
  guarded : ∀ q, Guarded d₀ d q

theorem Kept.written (hos : os.isWindows = false) (h : Kept os path d₀ d)
    (hw : Written (os.path path) data d e) : Kept os path d₀ e := by
  obtain ⟨hne, hlen⟩ := tmpPath_beside hos path
  have hplain := hw.plain h.file
  obtain ⟨m, hm, hs⟩ := hw
  refine ⟨hplain, ?_, fun q => ?_⟩
  · unfold Disk.Plain
    rw [hs.other hne, hm.eq hlen]
    exact h.sidecar
  · by_cases hq : q = os.path path
    · rw [hq]
      exact ((h.guarded _).newDirs hm).stage hs
    · exact ((h.guarded q).newDirs hm).of_eq (hs.other hq)

theorem Kept.replacing (h : Kept os path d₀ d)
    (hr : Replacing os path data d e) : Kept os path d₀ e := by
  obtain ⟨h1, h2⟩ := hr.plain h.file h.sidecar
  refine ⟨h1, h2, fun q => ?_⟩
  by_cases hq : q = os.path path
  · rw [hq]
    rcases hr.file with heq | hnew
    · exact (h.guarded _).of_eq heq
    · exact Or.inr (Or.inr (Or.inr ⟨_, hnew, Or.inl rfl⟩))
  · by_cases hq' : q = tmpPath os path
    · rw [hq']
      rcases hr.sidecar with hnone | ⟨m, hm, hs⟩
      · exact Or.inr (Or.inl hnone)
      · exact ((h.guarded _).of_eq hm).stage hs
    · rcases hr.other q hq hq' with heq | ⟨-, hdir⟩
      · exact (h.guarded q).of_eq heq
      · exact Or.inr (Or.inr (Or.inl hdir))

theorem prog_kept (hos : os.isWindows = false) (h : Kept os path d₀ d) (w : Write) :
    Safe True (Kept os path d₀) (w.prog os path) d fun _ => Kept os path d₀ := by
  cases w with
  | plain data =>
    exact (writePrivate_safe hos h.file).mono (fun e he => h.written hos he)
      fun _ e he => h.written hos he.1
  | atomic data =>
    exact (writePrivateAtomic_safe hos h.file h.sidecar).mono (fun e he => h.replacing he)
      fun _ e he => h.replacing he.1

/-- However a state file is written, with whatever errors and kills: no file has a byte in it
that others may read, but for files as they were at first, and every new directory is
closed to others. -/
theorem state_files_private (hos : os.isWindows = false) (hp : d₀.Plain (os.path path))
    (htmp : d₀.Plain (tmpPath os path)) {es : List (Disk.Happened Write Path Bool)}
    (h : Disk.History True False (Write.prog os path) d₀ es d) :
    (∀ q f, d q = some (.file f) → f.mode = 0o600 ∨ f.data = [] ∨ d₀ q = some (.file f)) ∧
      ∀ q mode, d q = some (.dir mode) → mode = 0o700 ∨ d₀ q = some (.dir mode) := by
  have hkept : Kept os path d₀ d := by
    refine (h.invariant (J := fun _ => Kept os path d₀) ⟨hp, htmp, fun q => Or.inl rfl⟩ ?_ ?_ ?_).1
    · exact fun _ _ _ hk => hk
    · exact fun _ w d hk => prog_kept hos hk w
    · exact fun hl => hl.elim
  constructor
  · intro q f hf
    rcases hkept.guarded q with heq | hnone | hdir | ⟨g, hg, hmode⟩
    · exact Or.inr (Or.inr (heq ▸ hf))
    · cases hf.symm.trans hnone
    · cases hf.symm.trans hdir
    · cases hf.symm.trans hg
      exact hmode.imp_right Or.inl
  · intro q mode hm
    rcases hkept.guarded q with heq | hnone | hdir | ⟨g, hg, -⟩
    · exact Or.inr (heq ▸ hm)
    · cases hm.symm.trans hnone
    · cases hm.symm.trans hdir
      exact Or.inl rfl
    · cases hm.symm.trans hg

/-- A file that others could read is written over, and the writer is killed after two bytes. -/
theorem state_files_private_tightened : ∃ (d₀ d : Disk Path) (f g : File),
    Disk.History True False (Write.prog .linux ['s']) d₀ [.ran (.plain [1, 2, 3]) d₀ (some false)] d ∧
      d₀ (Path.parse ['s']) = some (.file f) ∧ f.mode = 0o644 ∧
      d (Path.parse ['s']) = some (.file g) ∧ g.data = [1, 2] ∧ g.mode = 0o600 := by
  let d₀ : Disk Path := fun q => if q = Path.parse ['s'] then some (.file ⟨0o644, [7], true⟩) else none
  have hrun := ((Write.plain [1, 2, 3]).prog .linux ['s']).exec_run True
    [.done, .done, .short 2] d₀ (Or.inl trivial)
  have hes : Disk.History True False (Write.prog .linux ['s']) d₀ ([] ++ [.ran (.plain [1, 2, 3]) d₀ _]) _ :=
    Disk.History.nil.ran hrun
  have hfile : d₀ (Path.parse ['s']) = some (.file ⟨0o644, [7], true⟩) := by simp [d₀]
  have htmp : d₀ (tmpPath .linux ['s']) = none := by decide
  have hprivate := (state_files_private rfl (Disk.plain_of_eq_file hfile)
    (Disk.plain_of_eq_none htmp) hes).1
  refine ⟨d₀, _, _, ⟨0o600, [1, 2], false⟩, hes, hfile, rfl, by decide, rfl, ?_⟩
  rcases hprivate (Path.parse ['s']) ⟨0o600, [1, 2], false⟩ (by decide) with h | h | h
  · exact h
  · cases h
  · cases hfile.symm.trans h

end StateFile

end ShadowVpn
