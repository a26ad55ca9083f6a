import ShadowVpn.Sanity.Helper

/-! The two promises of the elevated helper: it writes into a `runs` directory of a user, and it
runs one client at a time. -/

namespace ShadowVpn

open Lib

/-! Writes. -/

def UserHome : Os → Path → Prop
  | .macos, home => ∃ user, home.components = [.rootDir, .normal "Users".toList, user]
  | .linux, home => home.components = [.rootDir, .normal "root".toList] ∨
      ∃ user, home.components = [.rootDir, .normal "home".toList, user]
  | .windows _, home => ∃ dir users user, home.components = dir ++ [users, user] ∧
      users.text.map Char.toLower = "users".toList
  | .other, _ => False

/-- An allowed file in a directory named `runs`, below the app's directory and a user's. -/
structure InRuns (os : Os) (kind : WriteKind) (p : Path) : Prop where
  name : ∃ name, p.fileName = some name ∧ kind.allows name = true
  runs : ∃ parent, p.parent = some parent ∧ parent.fileName = some "runs".toList ∧
    (∃ c ∈ parent.components.dropLast, c.text = APP_ID) ∧
    ∃ home, UserHome os home ∧ home.components <+: parent.components

theorem below_of_startsWith {canon : Path} {name : Text} (top : Text)
    (hruns : canon.fileName = some name) (hne : top ≠ name)
    (htop : [.rootDir, .normal top] <+: canon.components) :
    ∃ c, [.rootDir, .normal top, c] <+: canon.components := by
  obtain ⟨rest, hrest⟩ := htop
  cases rest with
  | nil =>
    rw [Path.fileName_eq_some_iff, ← hrest] at hruns
    exact absurd (Component.normal.inj (Option.some.inj hruns)) hne
  | cons c rest => exact ⟨c, rest, by rw [← hrest]; rfl⟩

theorem exists_userHome {os : Os} {canon : Path} (hruns : canon.fileName = some "runs".toList)
    (hhome : hasUserHomePrefix os canon = true) :
    ∃ home, UserHome os home ∧ home.components <+: canon.components := by
  cases os with
  | macos =>
    obtain ⟨c, hc⟩ := below_of_startsWith "Users".toList hruns (by decide)
      (List.isPrefixOf_iff_prefix.1 hhome)
    exact ⟨⟨_⟩, ⟨c, rfl⟩, hc⟩
  | linux =>
    rcases Bool.or_eq_true_iff.1 hhome with hhome | hroot
    · obtain ⟨c, hc⟩ := below_of_startsWith "home".toList hruns (by decide)
        (List.isPrefixOf_iff_prefix.1 hhome)
      exact ⟨⟨_⟩, Or.inr ⟨c, rfl⟩, hc⟩
    · exact ⟨⟨_⟩, Or.inl rfl, List.isPrefixOf_iff_prefix.1 hroot⟩
  | windows parse =>
    obtain ⟨users, hmem, htext⟩ := List.any_eq_true.1 hhome
    have htext : users.text.map Char.toLower = "users".toList := of_decide_eq_true htext
    obtain ⟨dir, rest, hcomp⟩ := List.append_of_mem hmem
    cases rest with
    | nil =>
      rw [Path.fileName_eq_some_iff, hcomp, List.getLast?_concat] at hruns
      cases hruns
      exact absurd htext (by decide)
    | cons user rest =>
      refine ⟨⟨dir ++ [users, user]⟩, ⟨dir, users, user, rfl, htext⟩, rest, ?_⟩
      rw [hcomp]
      simp
  | other => cases hhome

/-- What the daemon may write lies in a `runs` directory exactly when the requested directory,
which has that name, still has it in its canonical form. -/
theorem resolveWritePath_inRuns_iff {os : Os} {fs : Fs} {requested : Text} {kind : WriteKind}
    {p : Path} (h : resolveWritePath os fs requested kind none = .ok p) :
    InRuns os kind p ↔ ∃ parent canon, (os.path requested).parent = some parent ∧
      fs.canonicalize parent = .ok canon ∧ canon.fileName = some "runs".toList := by
  obtain ⟨name, canon, hr, rfl⟩ := resolveWritePath_eq_ok h
  obtain ⟨parent, hparent, hcanon⟩ := hr.canonicalize
  constructor
  · intro hin
    obtain ⟨dir, hdir, hruns, -⟩ := hin.runs
    rw [Path.parent_join] at hdir
    cases hdir
    exact ⟨parent, canon, hparent, hcanon, hruns⟩
  · rintro ⟨parent', canon', hparent', hcanon', hruns⟩
    obtain rfl : parent = parent' := Option.some.inj (hparent.symm.trans hparent')
    obtain rfl : canon = canon' := Except.ok.inj (hcanon.symm.trans hcanon')
    refine ⟨⟨name, Path.fileName_join canon name, hr.allows⟩, canon, Path.parent_join canon name,
      hruns, ?_, exists_userHome hruns hr.home⟩
    obtain ⟨c, hc, happ⟩ := hr.app
    obtain ⟨dir, hdir⟩ := Path.eq_append_of_fileName hruns
    rw [hdir, List.mem_append, List.mem_singleton] at hc
    rw [hdir, List.dropLast_concat]
    rcases hc with hc | rfl
    · exact ⟨c, hc, happ⟩
    · exact absurd happ (by decide)

def Sample.fs (target : Text) : Fs where
  canonicalize _ := .ok (Path.parse target)
  display _ := "path"
  displayParent _ := "directory"

def Sample.runs : Text := "/Users/me/io.github.madeye.shadowvpn.desktop/runs".toList

def Sample.pidFile : Text := Sample.runs ++ "/shadowvpn.pid".toList

theorem resolveWritePath_inRuns_plain : ∃ p,
    resolveWritePath .macos (Sample.fs Sample.runs) Sample.pidFile .pid none = .ok p ∧
      InRuns .macos .pid p := by
  obtain ⟨p, hp⟩ : ∃ p,
      resolveWritePath .macos (Sample.fs Sample.runs) Sample.pidFile .pid none = .ok p := ⟨_, rfl⟩
  exact ⟨p, hp, (resolveWritePath_inRuns_iff hp).2 ⟨_, _, rfl, rfl, rfl⟩⟩

/-- `runs` is a link to the directory of the profiles, and the daemon writes there. -/
theorem resolveWritePath_linked : ∃ p,
    resolveWritePath .macos
      (Sample.fs "/Users/me/io.github.madeye.shadowvpn.desktop/profiles".toList) Sample.pidFile
      .pid none = .ok p ∧ (p.parent.bind Path.fileName) = some "profiles".toList ∧
    ¬ InRuns .macos .pid p := by
  refine ⟨_, rfl, rfl, ?_⟩
  intro hin
  obtain ⟨dir, hdir, hruns, -⟩ := hin.runs
  cases hdir
  exact absurd hruns (by decide)

/-! Clients. -/

def HelperOut.started : HelperOut → Option Launch
  | .handled out => out.started
  | .exited => none

namespace Helper

/-- An event after which the helper has let go of a client that is alive: the client outlives
the stop of a `Shutdown`, or the kill after its pid file could not be written. -/
def Stranding (os : Os) (args : HelperArgs) (h : Helper) : HelperEvent → Prop
  | .request t => Strands os args h t
  | .exit _ => False

theorem step_holds_iff {os : Os} {args : HelperArgs} {h h' : Helper} {ev : HelperEvent}
    {out : HelperOut} (hh : h.Holds) (hs : h.step os args ev = .ok (h', out)) :
    h'.Holds ↔ ¬ Stranding os args h ev := by
  cases ev with
  | request t =>
    simp only [step] at hs
    split_ifs at hs
    cases hs
    exact respond_holds_iff hh
  | exit id =>
    cases hs
    exact iff_of_true (hh.erase id) not_false

theorem step_started {os : Os} {args : HelperArgs} {h h' : Helper} {ev : HelperEvent}
    {out : HelperOut} {launch : Launch} (hh : h.Holds) (hs : h.step os args ev = .ok (h', out))
    (hstarted : out.started = some launch) : launch.alive = ∅ := by
  cases ev with
  | request t =>
    simp only [step] at hs
    split_ifs at hs
    cases hs
    obtain ⟨hslot, halive⟩ := respond_started hstarted
    rw [halive]
    exact (holds_none_iff hslot).1 (hh.reap _ _)
  | exit id =>
    cases hs
    cases hstarted

/-- If no event strands a client, then whenever the helper starts one, all that it started
before have exited. Exactly these events leave one alive that it does not hold. -/
theorem starts_alone {os : Os} {args : HelperArgs} {s : Helper}
    {es : List (Entry Helper HelperEvent HelperOut)} (h : Run (step os args) new es s) :
    ((∀ e ∈ es, ¬ Stranding os args e.pre e.input) →
      ∀ e ∈ es, ∀ launch, e.out.started = some launch → launch.alive = ∅) ∧
    ((∀ e ∈ es, ¬ Stranding os args e.pre e.input) ↔ ∀ e ∈ es, e.post.Holds) := by
  have hnew : new.Holds := (holds_none_iff rfl).2 rfl
  refine ⟨?_, ?_⟩
  · intro hgood e he launch hstarted
    have hpre := (h.forall_pre (fun _ _ _ _ hh hs hB => (step_holds_iff hh hs).2 hB) hnew hgood).1
    obtain ⟨-, hs⟩ := h.entry he
    exact step_started (hpre e he) hs hstarted
  · exact h.forall_iff (I := fun _ => True) (fun _ _ _ _ _ _ => trivial)
      (fun _ _ _ _ _ hh hs => step_holds_iff hh hs) trivial hnew

end Helper

/-- A line with this command and the right token, everything else going well; a client that is
waited for exits at this poll, if at all. -/
def Sample.turn (cmd : Cmd) (exit : Option ℕ) : HelperEvent :=
  .request {
    line := .ok ⟨"key".toList, cmd⟩
    token := some "key".toList
    reapExits := false
    reapFails := false
    spawn := ⟨Sample.fs Sample.runs, Sample.fs Sample.runs, .ok (), .ok (), .ok (), .ok (),
      ⟨exit, fun _ => none⟩⟩
    stop := ⟨⟨exit, fun _ => none⟩, true, 100, 100⟩
    restore := ⟨.ok (), .running, []⟩ }

def Sample.connect : HelperEvent :=
  Sample.turn (.connect "home.json".toList (Sample.runs ++ "/shadowvpn.log".toList) Sample.pidFile)
    none

def Sample.daemon : HelperArgs := ⟨"shadowvpn-client".toList, true, none⟩

namespace Helper

theorem connect_not_stranding (h : Helper) : ¬ Stranding .macos Sample.daemon h Sample.connect := by
  intro hs
  obtain ⟨e, he⟩ := ConnectStrands.unwritten hs
  cases he

theorem starts_alone_after_disconnect : ∃ (es : List (Entry Helper HelperEvent HelperOut))
    (s : Helper) (launch : Launch), Run (step .macos Sample.daemon) new es s ∧
    (∃ e ∈ es, e.out.started = some launch) ∧ launch.id = 1 ∧ launch.alive = ∅ := by
  have h0 : Run (step .macos Sample.daemon) new [] new := Run.nil
  have h1 := h0.snoc (i := Sample.connect) rfl
  have h2 := h1.snoc (i := Sample.turn .disconnect (some 3)) rfl
  have h3 := h2.snoc (i := Sample.connect) rfl
  refine ⟨_, _, _, h3, ⟨_, List.mem_append_right _ (List.mem_singleton_self _), rfl⟩, rfl, ?_⟩
  refine (starts_alone h3).1 ?_ _ (List.mem_append_right _ (List.mem_singleton_self _)) _ rfl
  simp only [List.forall_mem_append, List.forall_mem_singleton]
  exact ⟨⟨⟨List.forall_mem_nil _, connect_not_stranding _⟩, not_false⟩, connect_not_stranding _⟩

/-- The first client outlives the `Shutdown` that should stop it, and the next `Connect` starts
a second one beside it. -/
theorem starts_beside : ∃ (es : List (Entry Helper HelperEvent HelperOut)) (s : Helper)
    (launch : Launch), Run (step .macos Sample.daemon) new es s ∧
    (∃ e ∈ es, e.out.started = some launch) ∧ launch.id = 1 ∧ launch.alive = {0} := by
  have h0 : Run (step .macos Sample.daemon) new [] new := Run.nil
  have h1 := h0.snoc (i := Sample.connect) rfl
  have h2 := h1.snoc (i := Sample.turn .shutdown none) rfl
  have h3 := h2.snoc (i := Sample.connect) rfl
  exact ⟨_, _, _, h3, ⟨_, List.mem_append_right _ (List.mem_singleton_self _), rfl⟩, rfl, rfl⟩

end Helper

end ShadowVpn
