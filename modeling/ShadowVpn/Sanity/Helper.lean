import ShadowVpn.Spec.Helper

/-! What a request to the helper can do to its clients. -/

namespace ShadowVpn

open Lib

variable {os : Os} {args : HelperArgs} {h h' : Helper}

/-! Where the daemon writes. -/

/-- A path that passed the checks is a name in the canonical form of the requested directory. -/
structure Resolved (os : Os) (fs : Fs) (requested : Text) (kind : WriteKind) (name : Text)
    (canon : Path) : Prop where
  canonicalize : ∃ parent, (os.path requested).parent = some parent ∧
    fs.canonicalize parent = .ok canon
  allows : kind.allows name = true
  app : ∃ c ∈ canon.components, c.text = APP_ID
  home : hasUserHomePrefix os canon = true

theorem resolveWritePath_eq_ok {fs : Fs} {requested : Text} {kind : WriteKind} {p : Path}
    (hok : resolveWritePath os fs requested kind none = .ok p) :
    ∃ name canon, Resolved os fs requested kind name canon ∧ p = canon.join name := by
  unfold resolveWritePath at hok
  dsimp only at hok
  split_ifs at hok
  split at hok
  · cases hok
  rename_i name hname
  split_ifs at hok with hallows
  split at hok
  · cases hok
  rename_i parent hparent
  split_ifs at hok with hruns
  split at hok
  · cases hok
  rename_i canon hcanon
  split_ifs at hok with happ hhome
  cases hok
  refine ⟨name, canon, ⟨⟨parent, hparent, hcanon⟩, ?_, ?_, ?_⟩, rfl⟩
  · simpa using hallows
  · simpa using happ
  · simpa using hhome

/-! Waiting. -/

theorem tryWait_eq_true {f : Fate} {poll : ℕ} (hok : f.tryWait poll = .ok true) :
    f.exit.isSome := by
  unfold Fate.tryWait at hok
  split at hok
  · cases hok
  · cases hexit : f.exit with
    | none =>
      rw [hexit] at hok
      cases hok
    | some exit => rfl

theorem waitWithTimeout_eq_true {f : Fate} {poll left : ℕ}
    (hok : waitWithTimeout f poll left = .ok true) : f.exit.isSome := by
  induction left generalizing poll with
  | zero =>
    unfold waitWithTimeout at hok
    split at hok
    · cases hok
    · rename_i htry
      exact tryWait_eq_true htry
    · cases hok
  | succ left ih =>
    unfold waitWithTimeout at hok
    split at hok
    · cases hok
    · rename_i htry
      exact tryWait_eq_true htry
    · exact ih hok

theorem forceChild_eq_ok {o : Stop} {poll : ℕ} (hok : forceChild o poll = .ok ()) :
    o.fate.exit.isSome := by
  unfold forceChild at hok
  split at hok
  · cases hok
  · rename_i hwait
    exact waitWithTimeout_eq_true hwait
  · cases hok

/-- A client that was stopped has exited. -/
theorem stopChild_eq_ok {o : Stop} (hok : stopChild os o = .ok ()) : o.fate.exit.isSome := by
  unfold stopChild at hok
  split at hok
  · exact forceChild_eq_ok hok
  · split_ifs at hok
    · split at hok
      · cases hok
      · rename_i hwait
        exact waitWithTimeout_eq_true hwait
      · exact forceChild_eq_ok hok
    · exact forceChild_eq_ok hok

namespace Helper

/-! The slot and the clients that are alive. -/

/-- Every client that is alive is the one in the slot. -/
def Holds (h : Helper) : Prop := ∀ id ∈ h.live, h.slot = some id

theorem holds_none_iff (hslot : h.slot = none) : h.Holds ↔ h.live = ∅ := by
  rw [Holds, hslot, Finset.eq_empty_iff_forall_notMem]
  simp

theorem Holds.erase_eq (hh : h.Holds) {id : ℕ} (hslot : h.slot = some id) :
    h.live.erase id = ∅ := by
  rw [Finset.eq_empty_iff_forall_notMem]
  intro j hj
  obtain ⟨hne, hlive⟩ := Finset.mem_erase.1 hj
  have heq := hh j hlive
  rw [hslot] at heq
  exact hne (Option.some.inj heq).symm

theorem Holds.erase (hh : h.Holds) (id : ℕ) : Holds { h with live := h.live.erase id } := by
  intro j hj
  exact hh j (Finset.mem_of_mem_erase hj)

theorem Holds.settle (hh : h.Holds) (id : ℕ) (f : Fate) : (h.settle id f).Holds := by
  unfold Helper.settle
  split_ifs
  · exact hh.erase id
  · exact hh

@[simp] theorem settle_slot (id : ℕ) (f : Fate) : (h.settle id f).slot = h.slot := by
  unfold settle
  split_ifs <;> rfl

theorem settle_live (id : ℕ) (f : Fate) :
    (h.settle id f).live = if f.exit.isSome then h.live.erase id else h.live := by
  unfold settle
  split_ifs <;> rfl

theorem Holds.reap (hh : h.Holds) (exits fails : Bool) : (h.reap exits fails).Holds := by
  unfold Helper.reap
  split
  · exact hh
  · rename_i id hslot
    have hkeep : (if exits then { h with live := h.live.erase id } else h).Holds := by
      split_ifs
      · exact hh.erase id
      · exact hh
    have hslot' : (if exits then { h with live := h.live.erase id } else h).slot = some id := by
      split_ifs <;> exact hslot
    dsimp only
    generalize (if exits then { h with live := h.live.erase id } else h) = g at hkeep hslot' ⊢
    split_ifs with hgone
    · rw [holds_none_iff rfl]
      have hnone := hkeep.erase_eq hslot'
      rwa [Finset.erase_eq_of_notMem hgone.2] at hnone
    · exact hkeep

@[simp] theorem reap_exited (exits fails : Bool) :
    (h.reap exits fails).exited = h.exited := by
  unfold reap
  split
  · rfl
  · cases exits <;> dsimp only <;> split_ifs <;> rfl

theorem fate_isSome_iff {id : ℕ} {f : Fate} :
    (h.fate id f).exit.isSome ↔ (id ∈ h.live → f.exit ≠ none) := by
  unfold fate
  split_ifs with hlive
  · simp [hlive, Option.isSome_iff_ne_none]
  · simp [hlive]

/-! One lemma for each command. -/

/-- The client of a `Connect` whose pid file cannot be written outlives its kill. -/
structure ConnectStrands (os : Os) (args : HelperArgs) (h : Helper) (o : Spawn)
    (log pidFile : Text) : Prop where
  free : h.slot = none
  start : ∃ path, startClient os args o log pidFile = .ok path
  unwritten : ∃ e, o.writePid = .error e
  outlives : o.fate.exit = none

theorem connect_holds_iff {o : Spawn} {profile log pidFile : Text} (hh : h.Holds) :
    (h.connect os args o profile log pidFile).1.Holds ↔ ¬ ConnectStrands os args h o log pidFile := by
  unfold connect
  split_ifs with hsome
  · refine iff_of_true hh ?_
    intro hs
    rw [hs.free] at hsome
    cases hsome
  have hslot : h.slot = none := by simpa using hsome
  have hempty : h.live = ∅ := (holds_none_iff hslot).1 hh
  split
  · rename_i e herr
    refine iff_of_true hh ?_
    intro hs
    obtain ⟨path, hok⟩ := hs.start
    rw [herr] at hok
    cases hok
  · rename_i path hstart
    dsimp only
    split
    · rename_i hwrite
      refine iff_of_true ?_ ?_
      · intro id hid
        rw [hempty] at hid
        rw [Finset.mem_singleton.1 hid]
      · intro hs
        obtain ⟨e, herr⟩ := hs.unwritten
        rw [hwrite] at herr
        cases herr
    · rename_i e hwrite
      rw [holds_none_iff (by rw [settle_slot]; exact hslot), settle_live]
      dsimp only
      rw [hempty]
      cases hexit : o.fate.exit with
      | some k =>
        refine iff_of_true (by simp) ?_
        intro hs
        rw [hs.outlives] at hexit
        cases hexit
      | none =>
        refine iff_of_false (by simp) ?_
        exact fun hn => hn ⟨hslot, ⟨path, hstart⟩, ⟨e, hwrite⟩, hexit⟩

theorem disconnect_holds {o : Stop} (hh : h.Holds) : (h.disconnect os o).1.Holds := by
  unfold disconnect
  split
  · exact hh
  · rename_i id hslot
    dsimp only
    split
    · rename_i hstop
      have hexit := stopChild_eq_ok hstop
      rw [holds_none_iff rfl]
      show (h.settle id (h.fate id o.fate)).live = ∅
      rw [settle_live, if_pos hexit]
      exact hh.erase_eq hslot
    · exact hh.settle _ _

theorem restoreDns_fst {o : Restore} : (h.restoreDns args o).1 = h := by
  unfold restoreDns
  split_ifs
  · rfl
  · dsimp only
    split
    · split_ifs <;> rfl
    · rfl

/-- A client outlives a `Shutdown` of the daemon. -/
structure ShutdownStrands (h : Helper) (o : Stop) : Prop where
  alive : ∃ id, h.slot = some id ∧ id ∈ h.live
  outlives : o.fate.exit = none

theorem shutdown_holds_iff {o : Stop} (hh : h.Holds) :
    (h.shutdown args o).1.Holds ↔ ¬ ShutdownStrands h o := by
  unfold shutdown
  cases hslot : h.slot with
  | none =>
    refine iff_of_true ?_ ?_
    · exact hh
    · intro hs
      obtain ⟨id, hid, -⟩ := hs.alive
      rw [hslot] at hid
      cases hid
  | some id =>
    rw [holds_none_iff rfl]
    show (h.settle id (h.fate id o.fate)).live = ∅ ↔ _
    rw [settle_live]
    by_cases hexit : (h.fate id o.fate).exit.isSome
    · rw [if_pos hexit]
      refine iff_of_true (hh.erase_eq hslot) ?_
      intro hs
      obtain ⟨j, hj, hlive⟩ := hs.alive
      rw [hslot] at hj
      cases hj
      exact fate_isSome_iff.1 hexit hlive hs.outlives
    · rw [if_neg hexit]
      rw [fate_isSome_iff, Classical.not_imp, not_not] at hexit
      refine iff_of_false ?_ ?_
      · intro hempty
        rw [hempty] at hexit
        simp at hexit
      · exact fun hn => hn ⟨⟨id, hslot, hexit.1⟩, hexit.2⟩

/-! Any request. -/

/-- A request after which the helper has let go of a client that is alive. -/
def Strands (os : Os) (args : HelperArgs) (h : Helper) (t : Turn) : Prop :=
  match t.authorised with
  | .ok (.connect _ log pidFile) =>
    ConnectStrands os args (h.reap t.reapExits t.reapFails) t.spawn log pidFile
  | .ok .shutdown => ShutdownStrands (h.reap t.reapExits t.reapFails) t.stop
  | _ => False

theorem respond_holds_iff {t : Turn} (hh : h.Holds) :
    (respond os args h t).1.Holds ↔ ¬ Strands os args h t := by
  have hreap := hh.reap t.reapExits t.reapFails
  unfold respond Strands
  cases t.authorised with
  | error e => exact iff_of_true hh not_false
  | ok cmd =>
    cases cmd with
    | ping => exact iff_of_true hreap not_false
    | connect profile log pidFile => exact connect_holds_iff hreap
    | disconnect => exact iff_of_true (disconnect_holds hreap) not_false
    | restoreDns =>
      refine iff_of_true ?_ not_false
      dsimp only
      rw [restoreDns_fst]
      exact hreap
    | shutdown => exact shutdown_holds_iff hreap

theorem connect_started {o : Spawn} {profile log pidFile : Text} {launch : Launch}
    (hs : (h.connect os args o profile log pidFile).2.started = some launch) :
    h.slot = none ∧ launch.alive = h.live := by
  unfold connect at hs
  split_ifs at hs with hsome
  refine ⟨by simpa using hsome, ?_⟩
  split at hs
  · cases hs
  · dsimp only at hs
    split at hs <;> (cases hs; rfl)

/-- A client is started only with an empty slot. -/
theorem respond_started {t : Turn} {launch : Launch}
    (hs : (respond os args h t).2.started = some launch) :
    (h.reap t.reapExits t.reapFails).slot = none ∧
      launch.alive = (h.reap t.reapExits t.reapFails).live := by
  unfold respond at hs
  cases ha : t.authorised with
  | error e =>
    rw [ha] at hs
    cases hs
  | ok cmd =>
    rw [ha] at hs
    cases cmd with
    | connect profile log pidFile => exact connect_started hs
    | ping => cases hs
    | disconnect =>
      dsimp only at hs
      unfold disconnect at hs
      split at hs
      · cases hs
      · dsimp only at hs
        split at hs <;> cases hs
    | restoreDns =>
      dsimp only at hs
      unfold restoreDns at hs
      split_ifs at hs
      dsimp only at hs
      split at hs
      · split_ifs at hs
      · cases hs
    | shutdown => cases hs

end Helper

end ShadowVpn
