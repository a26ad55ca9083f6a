import ShadowVpn.Spec.DnsConf

/-! The resolver and its journal, wherever the programs that change them are killed. As long
as the journal is there it says what the resolver was, and without a journal the resolver is
what it was. -/

namespace ShadowVpn

open Lib

namespace DnsConf

/-- What the resolver's file is now. -/
def conf (d : Disk Path) : Restore :=
  match d PATH with
  | some (.link target) => .symlink target
  | some (.file f) => .file f.data
  | _ => .absent

theorem PATH_ne_join {name : Text} (dir : Path) (h : name ≠ "resolv.conf".toList) :
    PATH ≠ dir.join name := by
  intro heq
  have hname : PATH.fileName = some "resolv.conf".toList := by decide
  rw [heq, Path.fileName_join] at hname
  exact h (Option.some.inj hname)

theorem PATH_ne_journal (dir : Path) : PATH ≠ journalPath dir := PATH_ne_join dir (by decide)

theorem PATH_ne_tmp (dir : Path) : PATH ≠ journalTmp dir := PATH_ne_join dir (by decide)

theorem journal_ne_tmp (dir : Path) : journalPath dir ≠ journalTmp dir := by
  intro heq
  have hname := congrArg Path.fileName heq
  rw [journalPath, journalTmp, Path.fileName_join, Path.fileName_join] at hname
  revert hname
  decide

variable {codec : Codec Restore id} {dir : Path} {d₀ d e : Disk Path}

/-- A system whose resolver has not been touched: there is no journal, and the resolver is not
the proxy that a run leaves behind. -/
structure Original (dir : Path) (d₀ : Disk Path) : Prop where
  journal : d₀ (journalPath dir) = none
  tmp : d₀.Plain (journalTmp dir)
  notDir : ∀ mode, d₀ PATH ≠ some (.dir mode)
  file : ∀ content, conf d₀ = .file content → resolvConfIsStaleProxy content = false
  link : ∀ target, conf d₀ = .symlink target → target ≠ PATH ∧ target ≠ journalPath dir ∧
    target ≠ journalTmp dir ∧
    ∀ content, d₀.read PATH = some content → resolvConfIsStaleProxy content = false

/-- What the programs leave alone. -/
structure Outside (dir : Path) (d₀ d : Disk Path) : Prop where
  tmp : d.Plain (journalTmp dir)
  notDir : ∀ mode, d PATH ≠ some (.dir mode)
  plain : ∀ content, conf d₀ = .file content → d.Plain PATH
  target : ∀ target, conf d₀ = .symlink target → d target = d₀ target

/-- No journal, and the resolver as it was. -/
structure Idle (dir : Path) (d₀ d : Disk Path) : Prop extends Outside dir d₀ d where
  journal : d (journalPath dir) = none
  same : conf d = conf d₀

/-- The journal says what the resolver was. -/
structure Journaled (codec : Codec Restore id) (dir : Path) (d₀ d : Disk Path) : Prop
    extends Outside dir d₀ d where
  journal : ∃ f, d (journalPath dir) = some (.file f) ∧ f.data = codec.toVecPretty (conf d₀)

def Recoverable (codec : Codec Restore id) (dir : Path) (d₀ d : Disk Path) : Prop :=
  Idle dir d₀ d ∨ Journaled codec dir d₀ d

theorem conf_file {f : File} (h : d PATH = some (.file f)) : conf d = .file f.data := by
  unfold conf
  rw [h]

theorem conf_none (h : d PATH = none) : conf d = .absent := by
  unfold conf
  rw [h]

theorem conf_link {target : Path} (h : d PATH = some (.link target)) :
    conf d = .symlink target := by
  unfold conf
  rw [h]

theorem eq_link_of_conf {target : Path} (h : conf d = .symlink target) :
    d PATH = some (.link target) := by
  unfold conf at h
  split at h
  · next hp =>
    cases h
    exact hp
  · cases h
  · cases h

theorem eq_file_of_conf {content : Bytes} (h : conf d = .file content) :
    ∃ f, d PATH = some (.file f) ∧ f.data = content := by
  unfold conf at h
  split at h
  · cases h
  · next f hp =>
    cases h
    exact ⟨f, hp, rfl⟩
  · cases h

theorem Original.idle (h : Original dir d₀) : Idle dir d₀ d₀ := by
  refine ⟨⟨h.tmp, h.notDir, fun content hc => ?_, fun _ _ => rfl⟩, h.journal, rfl⟩
  obtain ⟨f, hf, -⟩ := eq_file_of_conf hc
  exact Disk.plain_of_eq_file hf

theorem conf_congr (h : e PATH = d PATH) : conf e = conf d := by
  unfold conf
  rw [h]

theorem Outside.congr (h : Outside dir d₀ d) (hpath : e PATH = d PATH)
    (htmp : e.Plain (journalTmp dir)) (htarget : ∀ t, conf d₀ = .symlink t → e t = d t) :
    Outside dir d₀ e := by
  refine ⟨htmp, ?_, ?_, fun t ht => (htarget t ht).trans (h.target t ht)⟩
  · rw [hpath]
    exact h.notDir
  · unfold Disk.Plain
    rw [hpath]
    exact h.plain

/-- The resolver's file may be removed or written, and the link put back. -/
theorem Journaled.set_path (hd₀ : Original dir d₀) (h : Journaled codec dir d₀ d)
    {i : Option (Item Path)}
    (hi : i = none ∨ (∃ f, i = some (.file f)) ∨ ∃ t, i = some (.link t) ∧ conf d₀ = .symlink t) :
    Journaled codec dir d₀ (d.set PATH i) := by
  refine ⟨⟨?_, ?_, ?_, ?_⟩, ?_⟩
  · unfold Disk.Plain
    rw [Disk.set_of_ne (PATH_ne_tmp dir).symm]
    exact h.tmp
  · intro mode
    rw [Disk.set_self]
    rcases hi with rfl | ⟨f, rfl⟩ | ⟨t, rfl, -⟩ <;> simp
  · intro content hc
    rcases hi with rfl | ⟨f, rfl⟩ | ⟨t, rfl, ht⟩
    · exact Disk.plain_of_eq_none (Disk.set_self _)
    · exact Disk.plain_of_eq_file (Disk.set_self _)
    · cases hc.symm.trans ht
  · intro target ht
    rw [Disk.set_of_ne (hd₀.link target ht).1]
    exact h.target target ht
  · rw [Disk.set_of_ne (PATH_ne_journal dir).symm]
    exact h.journal

/-! The steps. -/

theorem fsWrite_safe {p : Path} {data : Bytes} {I : Disk Path → Prop} (hp : d.Plain p) (hI : I d)
    (hfile : ∀ f, I (d.set p (some (.file f)))) :
    Safe False I (fsWrite p data) d fun ok e =>
      ok = true ∧ ∃ f, e = d.set p (some (.file f)) ∧ f.data = data := by
  obtain ⟨mode, -, hcreate⟩ := apply_create hp 0o666
  refine Safe.mustDo hI (fun _ _ => by simp) hcreate ?_ fun hf => hf.elim
  refine Safe.mustWrite (Disk.set_self _) (hfile _) ?_ (fun hf => hf.elim) fun n => ?_
  · simp only [Disk.set_set]
    exact Safe.ret (hfile _) ⟨rfl, _, rfl, rfl⟩
  · simp only [Disk.set_set]
    exact ⟨hfile _, fun hf => hf.elim⟩

theorem removePath_safe {α : Type} {next : Prog Path α} {Q : α → Disk Path → Prop}
    (hd₀ : Original dir d₀) (h : Journaled codec dir d₀ d)
    (hnext : ∀ e, Journaled codec dir d₀ e → e PATH = none →
      Safe False (Journaled codec dir d₀) next e Q) :
    Safe False (Journaled codec dir d₀) (.op (.remove PATH) fun _ => next) d Q := by
  refine Safe.op h (fun _ _ => by simp) (fun e he => ?_) fun hf => ?_
  · rw [apply_remove he]
    exact hnext _ (h.set_path hd₀ (Or.inl rfl)) (Disk.set_self _)
  · rcases apply_remove_eq_none (hf.resolve_right id) with hnone | ⟨mode, hdir⟩
    · exact hnext d h hnone
    · exact absurd hdir (h.notDir mode)

theorem restore_safe (hd₀ : Original dir d₀) (h : Journaled codec dir d₀ d) :
    Safe False (Journaled codec dir d₀) (restore (conf d₀)) d fun ok e =>
      ok = true ∧ Journaled codec dir d₀ e ∧ conf e = conf d₀ := by
  cases hc : conf d₀ with
  | symlink target =>
    refine removePath_safe hd₀ h fun e he hnone => ?_
    have hlinked := he.set_path hd₀ (Or.inr (Or.inr ⟨target, rfl, hc⟩))
    exact Safe.mustDo he (fun _ _ => by simp) (apply_symlink hnone target)
      (Safe.ret hlinked ⟨rfl, hlinked, conf_link (Disk.set_self _)⟩) fun hf => hf.elim
  | file content =>
    simp only [restore, hd₀.file content hc, Bool.false_eq_true, if_false]
    refine (fsWrite_safe (h.plain content hc) h fun f => h.set_path hd₀ (Or.inr (Or.inl ⟨f, rfl⟩))).mono
      (fun e he => he) ?_
    rintro ok e ⟨hok, f, rfl, rfl⟩
    exact ⟨hok, h.set_path hd₀ (Or.inr (Or.inl ⟨f, rfl⟩)), conf_file (Disk.set_self _)⟩
  | absent =>
    exact removePath_safe hd₀ h fun e he hnone => Safe.ret he ⟨rfl, he, conf_none hnone⟩

theorem removeJournal_safe (hd₀ : Original dir d₀) (h : Journaled codec dir d₀ d)
    (hsame : conf d = conf d₀) :
    Safe False (Recoverable codec dir d₀) (removeJournal dir) d fun _ e => Idle dir d₀ e := by
  obtain ⟨f, hf, -⟩ := h.journal
  have hidle : Idle dir d₀ (d.set (journalPath dir) none) := by
    have hpath : (d.set (journalPath dir) none) PATH = d PATH :=
      Disk.set_of_ne (PATH_ne_journal dir) _
    refine ⟨h.toOutside.congr hpath ?_ fun t ht => Disk.set_of_ne (hd₀.link t ht).2.1 _,
      Disk.set_self _, (conf_congr hpath).trans hsame⟩
    unfold Disk.Plain
    rw [Disk.set_of_ne (journal_ne_tmp dir).symm]
    exact h.tmp
  refine Safe.op (Or.inr h) (fun _ _ => by simp) (fun e he => ?_) fun hf' => ?_
  · rw [apply_remove he]
    exact Safe.ret (Or.inl hidle) hidle
  · rw [apply_remove_file hf] at hf'
    rcases hf' with hf' | hf'
    · cases hf'
    · exact hf'.elim

theorem readJournal_safe (h : Recoverable codec dir d₀ d) :
    Safe False (Recoverable codec dir d₀) (readJournal codec dir) d fun found e => e = d ∧
      ((found = none ∧ Idle dir d₀ d) ∨ (found = some (conf d₀) ∧ Journaled codec dir d₀ d)) := by
  refine Safe.read h ?_ fun hf => hf.elim
  rcases id h with hidle | hj
  · rw [Disk.read_of_none hidle.journal]
    exact Safe.ret h ⟨rfl, Or.inl ⟨rfl, hidle⟩⟩
  · obtain ⟨f, hf, hdata⟩ := hj.journal
    rw [Disk.read_of_file hf, hdata]
    simp only [codec.fromSlice_toVecPretty]
    exact Safe.ret h ⟨rfl, Or.inr ⟨rfl, hj⟩⟩

theorem snapshot_safe (hd₀ : Original dir d₀) (h : Idle dir d₀ d) :
    Safe False (Recoverable codec dir d₀) snapshot d fun r e => e = d ∧ r = conf d₀ := by
  have hrec : Recoverable codec dir d₀ d := Or.inl h
  refine Safe.look ?_ hrec
  rw [← h.same]
  cases hp : d PATH with
  | none => exact Safe.ret hrec ⟨rfl, (conf_none hp).symm⟩
  | some i =>
    cases i with
    | link target => exact Safe.ret hrec ⟨rfl, (conf_link hp).symm⟩
    | dir mode => exact absurd hp (h.notDir mode)
    | file f =>
      refine Safe.read hrec ?_ fun hf => hf.elim
      -- the original is not a file with the marker
      have hfresh := hd₀.file f.data (h.same ▸ conf_file hp)
      have hmark : (Utf8.encode MARKER).isPrefixOf f.data = false := by
        unfold resolvConfIsStaleProxy at hfresh
        exact (Bool.or_eq_false_iff.1 hfresh).1
      rw [Disk.read_of_file hp]
      simp only [Option.getD_some, hmark, Bool.false_eq_true, if_false]
      exact Safe.ret hrec ⟨rfl, (conf_file hp).symm⟩

theorem writeJournal_safe (hd₀ : Original dir d₀) (h : Idle dir d₀ d) :
    Safe False (Recoverable codec dir d₀) (writeJournal codec dir (conf d₀)) d fun _ e =>
      Journaled codec dir d₀ e := by
  have hset : ∀ f, Idle dir d₀ (d.set (journalTmp dir) (some (.file f))) := by
    intro f
    have hpath : (d.set (journalTmp dir) (some (.file f))) PATH = d PATH :=
      Disk.set_of_ne (PATH_ne_tmp dir) _
    exact ⟨h.toOutside.congr hpath (Disk.plain_of_eq_file (Disk.set_self _)) fun t ht =>
      Disk.set_of_ne (hd₀.link t ht).2.2.1 _,
      (Disk.set_of_ne (journal_ne_tmp dir) _).trans h.journal, (conf_congr hpath).trans h.same⟩
  have hwrite : Safe False (Recoverable codec dir d₀)
      (fsWrite (journalTmp dir) (codec.toVecPretty (conf d₀))) d fun ok e => ok = true ∧
        ∃ f, e = d.set (journalTmp dir) (some (.file f)) ∧ f.data = codec.toVecPretty (conf d₀) :=
    fsWrite_safe h.tmp (Or.inl h) fun f => Or.inl (hset f)
  refine hwrite.andThen ?_ fun e he => by cases he.1
  rintro e ⟨-, f, rfl, hdata⟩
  have hplain : (d.set (journalTmp dir) (some (.file f))).Plain (journalPath dir) :=
    Disk.plain_of_eq_none (hset f).journal
  have hdone : Journaled codec dir d₀ (((d.set (journalTmp dir) (some (.file f))).set
      (journalTmp dir) none).set (journalPath dir) (some (.file f))) := by
    have hpath : ((((d.set (journalTmp dir) (some (.file f))).set (journalTmp dir) none).set
        (journalPath dir) (some (.file f)))) PATH = d PATH := by
      rw [Disk.set_of_ne (PATH_ne_journal dir), Disk.set_set, Disk.set_of_ne (PATH_ne_tmp dir)]
    refine ⟨h.toOutside.congr hpath (Disk.plain_of_eq_none ?_) fun t ht => ?_, f, Disk.set_self _,
      hdata⟩
    · rw [Disk.set_of_ne (journal_ne_tmp dir).symm, Disk.set_self]
    · obtain ⟨-, h1, h2, -⟩ := hd₀.link t ht
      rw [Disk.set_of_ne h1, Disk.set_set, Disk.set_of_ne h2]
  exact Safe.mustDo (Or.inl (hset f)) (fun _ _ => by simp)
    (apply_rename (Disk.set_self _) hplain) (Safe.ret (Or.inr hdone) hdone) fun hf => hf.elim

theorem engage_safe (hd₀ : Original dir d₀) (h : Journaled codec dir d₀ d) (proxy : Text) :
    Safe False (Journaled codec dir d₀) (engage proxy) d fun ok e =>
      ok = true ∧ Journaled codec dir d₀ e := by
  refine removePath_safe hd₀ h fun e he hnone => ?_
  refine (fsWrite_safe (Disk.plain_of_eq_none hnone) he
    fun f => he.set_path hd₀ (Or.inr (Or.inl ⟨f, rfl⟩))).mono (fun e he => he) ?_
  rintro ok e' ⟨hok, f, rfl, -⟩
  exact ⟨hok, he.set_path hd₀ (Or.inr (Or.inl ⟨f, rfl⟩))⟩

/-- The resolver is put back and then the journal goes. -/
theorem putBack_safe (hd₀ : Original dir d₀) (h : Journaled codec dir d₀ d) {α : Type}
    {next : Bool → Prog Path α} {Q : α → Disk Path → Prop}
    (hnext : ∀ e, Journaled codec dir d₀ e → conf e = conf d₀ →
      Safe False (Recoverable codec dir d₀) (next true) e Q) :
    Safe False (Recoverable codec dir d₀) ((restore (conf d₀)).bind next) d Q := by
  refine ((restore_safe hd₀ h).mono (fun e he => Or.inr he) fun _ _ hq => hq).bind ?_
  rintro ok e ⟨rfl, hj, hsame⟩
  exact hnext e hj hsame

theorem selfHeal_safe (hd₀ : Original dir d₀) (h : Recoverable codec dir d₀ d) :
    Safe False (Recoverable codec dir d₀) (selfHeal codec dir) d fun _ e => Idle dir d₀ e := by
  refine (readJournal_safe h).bind ?_
  rintro found e ⟨rfl, ⟨rfl, hidle⟩ | ⟨rfl, hj⟩⟩
  · exact Safe.ret h hidle
  · exact putBack_safe hd₀ hj fun e hj hsame => removeJournal_safe hd₀ hj hsame

theorem apply_safe (hd₀ : Original dir d₀) (h : Recoverable codec dir d₀ d) (proxy : Text) :
    Safe False (Recoverable codec dir d₀) (apply codec dir proxy 53) d fun result e =>
      result = .ok (some (conf d₀)) ∧ Journaled codec dir d₀ e := by
  unfold apply
  simp only [ne_eq, not_true_eq_false, if_false]
  refine (selfHeal_safe hd₀ h).bind fun _ e hidle => ?_
  refine (snapshot_safe hd₀ hidle).bind ?_
  rintro r e' ⟨rfl, rfl⟩
  refine (writeJournal_safe hd₀ hidle).bind fun _ e' hj => ?_
  refine ((engage_safe hd₀ hj proxy).mono (fun e he => Or.inr he) fun _ _ hq => hq).bind ?_
  rintro ok e'' ⟨rfl, hj'⟩
  exact Safe.ret (Or.inr hj') ⟨rfl, hj'⟩

theorem session_safe (hd₀ : Original dir d₀) (h : Recoverable codec dir d₀ d) (proxy : Text)
    (port : ℕ) : Safe False (Recoverable codec dir d₀) (session codec dir proxy port) d fun _ e =>
      Recoverable codec dir d₀ e ∧ (port = 53 → Idle dir d₀ e) := by
  by_cases hport : port = 53
  · subst hport
    refine (apply_safe hd₀ h proxy).bind ?_
    rintro result e ⟨rfl, hj⟩
    have hdrop : Safe False (Recoverable codec dir d₀) (dropGuard dir (conf d₀)) e
        fun _ e => Idle dir d₀ e :=
      putBack_safe hd₀ hj fun e hj hsame => removeJournal_safe hd₀ hj hsame
    exact hdrop.bind fun _ e hidle => Safe.ret (Or.inl hidle) ⟨Or.inl hidle, fun _ => hidle⟩
  · unfold session apply
    simp only [ne_eq, hport, not_false_eq_true, if_true]
    exact Safe.ret h ⟨h, fun hp => hp.elim⟩

/-- A resolver that is as it was is not taken for a leftover. -/
theorem healProxyDns_safe (hd₀ : Original dir d₀) (h : Idle dir d₀ d) :
    Safe False (Recoverable codec dir d₀) healProxyDns d fun healed e => healed = false ∧ e = d := by
  have hrec : Recoverable codec dir d₀ d := Or.inl h
  refine Safe.read hrec ?_ fun hf => hf.elim
  cases hread : d.read PATH with
  | none => exact Safe.ret hrec ⟨rfl, rfl⟩
  | some content =>
    have hfresh : resolvConfIsStaleProxy content = false := by
      cases hc : conf d₀ with
      | absent =>
        have hnone : d PATH = none := by
          cases hp : d PATH with
          | none => rfl
          | some i =>
            cases i with
            | link target => cases (conf_link hp).symm.trans (h.same.trans hc)
            | file f => cases (conf_file hp).symm.trans (h.same.trans hc)
            | dir mode => exact absurd hp (h.notDir mode)
        cases (Disk.read_of_none hnone).symm.trans hread
      | file c =>
        obtain ⟨f, hf, hdata⟩ := eq_file_of_conf (h.same.trans hc)
        cases (Disk.read_of_file hf).symm.trans hread
        exact hdata ▸ hd₀.file c hc
      | symlink target =>
        refine (hd₀.link target hc).2.2.2 content ?_
        rw [← hread]
        have hlink := eq_link_of_conf (h.same.trans hc)
        have hlink₀ := eq_link_of_conf hc
        unfold Disk.read Disk.resolve
        simp only [hlink, hlink₀, h.target target hc]
    simp only [hfresh, Bool.false_eq_true, if_false]
    exact Safe.ret hrec ⟨rfl, rfl⟩

theorem restoreStale_safe (hd₀ : Original dir d₀) (h : Recoverable codec dir d₀ d) :
    Safe False (Recoverable codec dir d₀) (restoreStale codec dir) d fun result e =>
      Idle dir d₀ e ∧ ∃ changed, result = .ok changed := by
  have hjournal : Safe False (Recoverable codec dir d₀) (restoreFromJournal codec dir) d
      fun result e => Idle dir d₀ e ∧ ∃ changed, result = .ok changed := by
    refine (readJournal_safe h).bind ?_
    rintro found e ⟨rfl, ⟨rfl, hidle⟩ | ⟨rfl, hj⟩⟩
    · exact Safe.ret h ⟨hidle, false, rfl⟩
    · refine putBack_safe hd₀ hj fun e hj hsame => ?_
      exact (removeJournal_safe hd₀ hj hsame).bind fun _ e hidle =>
        Safe.ret (Or.inl hidle) ⟨hidle, true, rfl⟩
  refine hjournal.bind ?_
  rintro result e ⟨hidle, changed, rfl⟩
  cases changed with
  | true => exact Safe.ret (Or.inl hidle) ⟨hidle, true, rfl⟩
  | false =>
    refine (healProxyDns_safe hd₀ hidle).bind ?_
    rintro healed e' ⟨rfl, rfl⟩
    exact Safe.ret (Or.inl hidle) ⟨hidle, false, rfl⟩

end DnsConf

end ShadowVpn
