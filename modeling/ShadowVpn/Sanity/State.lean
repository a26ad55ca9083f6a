import ShadowVpn.Spec.State

/-! What the writers of `state.rs` leave on the disk, wherever they are killed. -/

namespace ShadowVpn

open Lib

namespace StateFile

variable {faulty : Prop} {os : Os} {d e : Disk Path} {p q : Path} {data : Bytes} {n : ℕ}

/-! Directories. -/

/-- Nothing is new but private directories, with fewer than `n` components. -/
def NewDirs (n : ℕ) (d e : Disk Path) : Prop :=
  ∀ q, e q = d q ∨ (q.components.length < n ∧ d q = none ∧ e q = some (.dir 0o700))

theorem NewDirs.refl (n : ℕ) (d : Disk Path) : NewDirs n d d := fun _ => Or.inl rfl

theorem NewDirs.mkdir (h : NewDirs n d e) (hlen : p.components.length < n) (hp : e p = none) :
    NewDirs n d (e.set p (some (.dir 0o700))) := by
  intro q
  by_cases hq : q = p
  · subst hq
    rcases h q with heq | ⟨-, -, hdir⟩
    · exact Or.inr ⟨hlen, heq ▸ hp, Disk.set_self _⟩
    · rw [hp] at hdir
      cases hdir
  · rw [Disk.set_of_ne hq]
    exact h q

theorem NewDirs.eq (h : NewDirs n d e) (hq : n ≤ q.components.length) : e q = d q :=
  (h q).resolve_right fun hn => absurd hn.1 (Nat.not_lt.2 hq)

theorem NewDirs.plain (h : NewDirs n d e) (hq : n ≤ q.components.length) (hp : d.Plain q) :
    e.Plain q := by
  unfold Disk.Plain
  rw [h.eq hq]
  exact hp

/-- Directories have been made; without a fault, all that were needed. -/
def Made (faulty : Prop) (n : ℕ) (d : Disk Path) (ok : Bool) (e : Disk Path) : Prop :=
  NewDirs n d e ∧ (ok = false → faulty)

theorem mkdir_safe {dir : Path} (hlen : dir.components.length < n) (h : NewDirs n d e) :
    Safe faulty (NewDirs n d)
      (.op (.mkdir dir 0o700) fun ok => .look fun d => .ret (ok || (d dir).isSome)) e
      (Made faulty n d) := by
  refine Safe.op h (fun _ _ => by simp) (fun e' he => ?_) fun hf => ?_
  · obtain ⟨hnone, rfl⟩ := apply_mkdir he
    have hmade := h.mkdir hlen hnone
    exact Safe.look (Safe.ret hmade ⟨hmade, fun ho => by cases ho⟩) hmade
  · refine Safe.look (Safe.ret h ⟨h, fun ho => ?_⟩) h
    rcases hf with hf | hf
    · rw [apply_mkdir_eq_none hf] at ho
      cases ho
    · exact hf

theorem createDirPrivate_safe (dir : Path) (hlen : dir.components.length < n) {e : Disk Path}
    (h : NewDirs n d e) :
    Safe faulty (NewDirs n d) (createDirPrivate dir) e (Made faulty n d) := by
  rw [createDirPrivate]
  refine Safe.look ?_ h
  split_ifs with hdone
  · exact Safe.ret h ⟨h, fun ho => by cases ho⟩
  · refine Safe.andThen (Q := Made faulty n d) ?_ (fun e' he => mkdir_safe hlen he.1)
      fun e' he => ⟨he.1, he⟩
    split
    · next parent hparent =>
      have hless := Path.length_parent hparent
      exact createDirPrivate_safe parent (hless.trans hlen) h
    · exact Safe.ret h ⟨h, fun ho => by cases ho⟩
termination_by dir.components.length

theorem createParentPrivate_safe (path : Text) (d : Disk Path) :
    Safe faulty (NewDirs (os.path path).components.length d) (createParentPrivate os path) d
      (Made faulty (os.path path).components.length d) := by
  have hnone : Made faulty (os.path path).components.length d true d :=
    ⟨.refl _ _, fun ho => by cases ho⟩
  unfold createParentPrivate
  split
  · next dir hdir =>
    split_ifs
    · exact Safe.ret (.refl _ _) hnone
    · exact createDirPrivate_safe dir (Path.length_parent hdir) (.refl _ _)
  · exact Safe.ret (.refl _ _) hnone

/-! Files. -/

/-- How far a write of `data` to `p` has come. The file has its mode before it has a byte. -/
inductive Stage (p : Path) (data : Bytes) (d : Disk Path) : Disk Path → Prop
  | before : Stage p data d d
  | opened (mode : ℕ) : (mode = 0o600 ∨ ∃ f, d p = some (.file f) ∧ mode = f.mode) →
      Stage p data d (d.set p (some (.file ⟨mode, [], false⟩)))
  | wrote (n : ℕ) (synced : Bool) : (synced = true → data.length ≤ n) →
      Stage p data d (d.set p (some (.file ⟨0o600, data.take n, synced⟩)))

theorem Stage.other (h : Stage p data d e) (hq : q ≠ p) : e q = d q := by
  cases h with
  | before => rfl
  | opened => exact Disk.set_of_ne hq _
  | wrote => exact Disk.set_of_ne hq _

theorem Stage.plain (h : Stage p data d e) (hp : d.Plain p) : e.Plain p := by
  cases h with
  | before => exact hp
  | opened => exact Disk.plain_of_eq_file (Disk.set_self _)
  | wrote => exact Disk.plain_of_eq_file (Disk.set_self _)

/-- What is there once the write has returned. -/
def Settled (faulty : Prop) (p : Path) (data : Bytes) (sync : Bool) (d : Disk Path) (ok : Bool)
    (e : Disk Path) : Prop :=
  Stage p data d e ∧ (ok = true → e = d.set p (some (.file ⟨0o600, data, sync⟩))) ∧
    (ok = false → faulty)

theorem writePrivateTo_safe (hos : os.isWindows = false) (hp : d.Plain p) (sync : Bool) :
    Safe faulty (Stage p data d) (writePrivateTo os p data sync) d
      (Settled faulty p data sync d) := by
  have hfail : ∀ {e}, Stage p data d e → faulty → Settled faulty p data sync d false e :=
    fun hs hf => ⟨hs, fun h => (by cases h), fun _ => hf⟩
  have hwhole : ∀ synced, Stage p data d (d.set p (some (.file ⟨0o600, data, synced⟩))) := by
    intro synced
    have h := Stage.wrote (p := p) (d := d) data.length synced fun _ => le_rfl
    rwa [List.take_length] at h
  unfold writePrivateTo
  simp only [hos, Bool.false_eq_true, if_false]
  -- opened, with the old mode if there was a file
  obtain ⟨mode, hmode, hcreate⟩ := apply_create hp 0o600
  refine Safe.mustDo .before (fun _ _ => by simp) hcreate ?_ (hfail .before)
  -- the mode is set before a byte is written
  refine Safe.mustDo (.opened mode hmode) (fun _ _ => by simp)
    (apply_chmod (Disk.set_self _) 0o600) ?_ (hfail (.opened mode hmode))
  simp only [Disk.set_set]
  have hempty : Stage p data d (d.set p (some (.file ⟨0o600, [], false⟩))) :=
    Stage.wrote 0 false fun h => by cases h
  refine Safe.mustWrite (Disk.set_self _) hempty ?_ (hfail hempty) fun n => ?_
  · simp only [Disk.set_set, List.nil_append]
    cases sync with
    | false => exact Safe.ret (hwhole false) ⟨hwhole false, fun _ => rfl, fun h => by cases h⟩
    | true =>
      refine Safe.mustDo (hwhole false) (fun _ _ => by simp) (apply_sync (Disk.set_self _)) ?_
        (hfail (hwhole false))
      simp only [Disk.set_set]
      exact Safe.ret (hwhole true) ⟨hwhole true, fun _ => rfl, fun h => by cases h⟩
  · simp only [Disk.set_set, List.nil_append]
    have hpart : Stage p data d (d.set p (some (.file ⟨0o600, data.take n, false⟩))) :=
      .wrote n false fun h => by cases h
    exact ⟨hpart, hfail hpart⟩

/-- The state file in the course of `write_private`. -/
def Written (path : Path) (data : Bytes) (d e : Disk Path) : Prop :=
  ∃ m, NewDirs path.components.length d m ∧ Stage path data m e

theorem writePrivate_safe (hos : os.isWindows = false) {path : Text}
    (hp : d.Plain (os.path path)) :
    Safe faulty (Written (os.path path) data d) (writePrivate os path data) d fun ok e =>
      Written (os.path path) data d e ∧
        (ok = true → e (os.path path) = some (.file ⟨0o600, data, false⟩)) ∧
        (ok = false → faulty) := by
  have hdirs : Safe faulty (Written (os.path path) data d) (createParentPrivate os path) d
      (Made faulty (os.path path).components.length d) :=
    (createParentPrivate_safe path d).mono (fun e he => ⟨e, he, .before⟩) fun _ _ h => h
  refine hdirs.andThen (fun m hm => ?_) fun m hm => ⟨⟨m, hm.1, .before⟩, ⟨m, hm.1, .before⟩,
    fun h => (by cases h), hm.2⟩
  refine (writePrivateTo_safe hos (hm.1.plain le_rfl hp) false).mono
    (fun e he => ⟨m, hm.1, he⟩) ?_
  rintro ok e ⟨hs, hok, hno⟩
  refine ⟨⟨m, hm.1, hs⟩, fun h => ?_, hno⟩
  rw [hok h]
  exact Disk.set_self _

theorem Written.plain {path : Path} (h : Written path data d e) (hp : d.Plain path) :
    e.Plain path := by
  obtain ⟨m, hm, hs⟩ := h
  exact hs.plain (hm.plain le_rfl hp)

/-- A reader finds what was there before, or a beginning of the new text. -/
theorem Written.read {path : Path} (h : Written path data d e) (hp : d.Plain path) :
    e.read path = d.read path ∨ ∃ n, e.read path = some (data.take n) := by
  obtain ⟨m, hm, hs⟩ := h
  cases hs with
  | before =>
    left
    unfold Disk.read
    rw [(hm.plain le_rfl hp).resolve, hp.resolve, hm.eq le_rfl]
  | opened mode => exact Or.inr ⟨0, Disk.read_of_file (Disk.set_self _)⟩
  | wrote n => exact Or.inr ⟨n, Disk.read_of_file (Disk.set_self _)⟩

/-! Atomic replacement. -/

theorem path_eq_parse (hos : os.isWindows = false) : os.path = Path.parse := by
  cases os with
  | windows => cases hos
  | _ => rfl

variable (os) in
/-- The file that is renamed. -/
def tmpPath (path : Text) : Path := os.path (tmpSidecar path ".tmp".toList)

theorem tmpPath_beside (hos : os.isWindows = false) (path : Text) :
    tmpPath os path ≠ os.path path ∧
      (os.path path).components.length ≤ (tmpPath os path).components.length := by
  unfold tmpPath tmpSidecar
  rw [path_eq_parse hos]
  exact Path.parse_append (by decide) (by decide) path

/-- The disk in the course of an atomic replacement, and what is there after it. -/
structure Replacing (os : Os) (path : Text) (data : Bytes) (d e : Disk Path) : Prop where
  file : e (os.path path) = d (os.path path) ∨
    e (os.path path) = some (.file ⟨0o600, data, true⟩)
  sidecar : e (tmpPath os path) = none ∨
    ∃ m, m (tmpPath os path) = d (tmpPath os path) ∧ Stage (tmpPath os path) data m e
  other : ∀ q, q ≠ os.path path → q ≠ tmpPath os path → e q = d q ∨
    (d q = none ∧ e q = some (.dir 0o700))

theorem Replacing.plain {path : Text} (h : Replacing os path data d e)
    (hp : d.Plain (os.path path)) (htmp : d.Plain (tmpPath os path)) :
    e.Plain (os.path path) ∧ e.Plain (tmpPath os path) := by
  constructor
  · rcases h.file with heq | hnew
    · unfold Disk.Plain
      rw [heq]
      exact hp
    · exact Disk.plain_of_eq_file hnew
  · rcases h.sidecar with hnone | ⟨m, hm, hs⟩
    · exact Disk.plain_of_eq_none hnone
    · refine hs.plain ?_
      unfold Disk.Plain
      rw [hm]
      exact htmp

theorem writePrivateAtomic_safe (hos : os.isWindows = false) {path : Text}
    (hp : d.Plain (os.path path)) (htmp : d.Plain (tmpPath os path)) :
    Safe faulty (Replacing os path data d) (writePrivateAtomic os path data) d fun ok e =>
      Replacing os path data d e ∧
        (ok = true → e (os.path path) = some (.file ⟨0o600, data, true⟩)) ∧
        (ok = false → e (os.path path) = d (os.path path)) := by
  obtain ⟨hne, hlen⟩ := tmpPath_beside hos path
  -- up to the rename, the path itself is as it was
  have hstage : ∀ {m e}, NewDirs (os.path path).components.length d m →
      Stage (tmpPath os path) data m e →
        Replacing os path data d e ∧ e (os.path path) = d (os.path path) := by
    intro m e hm hs
    have heq : e (os.path path) = d (os.path path) := (hs.other hne.symm).trans (hm.eq le_rfl)
    refine ⟨⟨Or.inl heq, Or.inr ⟨m, hm.eq hlen, hs⟩, fun q _ hq => ?_⟩, heq⟩
    rw [hs.other hq]
    exact (hm q).imp id fun h => h.2
  unfold writePrivateAtomic
  have hdirs : Safe faulty (Replacing os path data d) (createParentPrivate os path) d
      (Made faulty (os.path path).components.length d) :=
    (createParentPrivate_safe path d).mono (fun e he => (hstage he .before).1) fun _ _ h => h
  refine hdirs.andThen (fun m hmade => ?_) fun m hmade => ⟨(hstage hmade.1 .before).1,
    (hstage hmade.1 .before).1, fun h => (by cases h), fun _ => (hstage hmade.1 .before).2⟩
  have hm := hmade.1
  have hwrite : Safe faulty (Replacing os path data d)
      (writePrivateTo os (tmpPath os path) data true) m
      (Settled faulty (tmpPath os path) data true m) :=
    (writePrivateTo_safe hos (hm.plain hlen htmp) true).mono (fun e he => (hstage hm he).1)
      fun _ _ h => h
  refine hwrite.andThen (fun e he => ?_) fun e he => ⟨(hstage hm he.1).1, (hstage hm he.1).1,
    fun h => (by cases h), fun _ => (hstage hm he.1).2⟩
  have hr := hstage hm he.1
  have hunlink : unlinkFirst os (os.path path) = .ret true := by
    unfold unlinkFirst
    simp [hos]
  rw [hunlink]
  refine Safe.andThen (Q := fun ok e' => ok = true ∧ e' = e) (Safe.ret hr.1 ⟨rfl, rfl⟩) ?_ ?_
  · rintro e' ⟨-, rfl⟩
    have hnew : e' (tmpPath os path) = some (.file ⟨0o600, data, true⟩) := by
      rw [he.2.1 rfl]
      exact Disk.set_self _
    refine Safe.op hr.1 (fun _ _ => by simp) (fun e'' he'' => ?_) fun _ => ?_
    · -- renamed
      have hplain : e'.Plain (os.path path) := (hr.1.plain hp htmp).1
      rw [show (Op.rename (os.path (tmpSidecar path ".tmp".toList)) (os.path path)).apply e' = _
        from apply_rename hnew hplain] at he''
      obtain rfl := Option.some.inj he''
      have hat : ∀ i, ((e'.set (tmpPath os path) none).set (os.path path) i)
          (tmpPath os path) = none := fun i => by rw [Disk.set_of_ne hne, Disk.set_self]
      have hdone : Replacing os path data d ((e'.set (tmpPath os path) none).set (os.path path)
          (some (.file ⟨0o600, data, true⟩))) := by
        refine ⟨Or.inr (Disk.set_self _), Or.inl (hat _), fun q hq hq' => ?_⟩
        rw [Disk.set_of_ne hq, Disk.set_of_ne hq']
        exact hr.1.other q hq hq'
      exact Safe.ret hdone ⟨hdone, fun _ => Disk.set_self _, fun h => by cases h⟩
    · -- the temporary file is given up
      simp only [hos, Bool.false_eq_true, if_false]
      have hgone : Replacing os path data d (e'.set (tmpPath os path) none) := by
        refine ⟨?_, Or.inl (Disk.set_self _), fun q hq hq' => ?_⟩
        · rw [Disk.set_of_ne hne.symm]
          exact hr.1.file
        · rw [Disk.set_of_ne hq']
          exact hr.1.other q hq hq'
      refine Safe.op hr.1 (fun _ _ => by simp) (fun e'' he'' => ?_) fun _ =>
        Safe.ret hr.1 ⟨hr.1, fun h => (by cases h), fun _ => hr.2⟩
      obtain rfl := apply_remove he''
      refine Safe.ret hgone ⟨hgone, fun h => (by cases h), fun _ => ?_⟩
      exact (Disk.set_of_ne hne.symm _).trans hr.2
  · rintro e' ⟨h, -⟩
    cases h

end StateFile

namespace Codec

variable {τ : Type} {left : τ → τ}

/-- A beginning of a text is the whole of it, or no text of a value. -/
theorem fromSlice_beginning (codec : Codec τ left) (a : τ) (n : ℕ) :
    codec.fromSlice ((codec.toVecPretty a).take n) = some (left a) ∨
      codec.fromSlice ((codec.toVecPretty a).take n) = none := by
  rcases Nat.lt_or_ge n (codec.toVecPretty a).length with hn | hn
  · exact Or.inr (codec.fromSlice_take a n hn)
  · rw [List.take_of_length_le hn]
    exact Or.inl (codec.fromSlice_toVecPretty a)

/-- Values that can be counted have such texts: the number of what is left, in ones, and a zero. -/
noncomputable def unary (left : τ → τ) (number : τ → ℕ) (h : Function.Injective number) :
    Codec τ left where
  toVecPretty a := List.replicate (number (left a)) 1 ++ [0]
  fromSlice bytes := by
    classical
    exact if h : ∃ a, List.replicate (number (left a)) 1 ++ [0] = bytes then some (left h.choose)
      else none
  fromSlice_toVecPretty a := by
    have hex : ∃ b, List.replicate (number (left b)) (1 : UInt8) ++ [0] =
        List.replicate (number (left a)) 1 ++ [0] := ⟨a, rfl⟩
    rw [dif_pos hex]
    have hlen := congrArg List.length hex.choose_spec
    simp only [List.length_append, List.length_replicate, List.length_singleton] at hlen
    rw [h (Nat.add_right_cancel hlen)]
  fromSlice_take a n hn := by
    simp only [List.length_append, List.length_replicate, List.length_singleton] at hn
    rw [List.take_append_of_le_length (by simpa using Nat.lt_succ_iff.1 hn)]
    refine dif_neg ?_
    rintro ⟨b, hb⟩
    -- there is no zero in a part of the ones
    have hmem : (0 : UInt8) ∈ (List.replicate (number (left a)) (1 : UInt8)).take n := by
      rw [← hb]
      simp
    have := List.eq_of_mem_replicate (List.mem_of_mem_take hmem)
    cases this

theorem nonempty_of_countable [Countable τ] (left : τ → τ) : Nonempty (Codec τ left) := by
  obtain ⟨number, h⟩ := exists_injective_nat τ
  exact ⟨unary left number h⟩

end Codec

/-! Both files can be counted. -/

instance countable_char : Countable Char :=
  Function.Injective.countable (f := Char.toNat) fun _ _ => Char.toNat_inj.1

instance countable_cidr (w : ℕ) : Countable (Cidr w) := by
  refine Function.Injective.countable (f := fun c : Cidr w => (c.ip, c.prefixLen)) ?_
  rintro ⟨ip, len, hlen⟩ ⟨ip', len', hlen'⟩ h
  simpa using h

deriving instance Countable for SocketAddr, PersistLease, PersistFile, LastAssign,
  Client.ClientStateFile

end ShadowVpn
