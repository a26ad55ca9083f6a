import ShadowVpn.Proofs.Persistence
import ShadowVpn.Sanity.State

/-! The lease file over crashes. It is always one whole version, and a server that was killed
starts from what it wrote before. -/

namespace ShadowVpn

open Lib

namespace Assigner

variable {P : Platform} {os : Os} {codec : LeaseCodec} {path : Text} {d₀ d e : Disk Path}
  {faulty : Prop} {file : PersistFile} {result : Option Bool}

def Holds (os : Os) (codec : LeaseCodec) (path : Text) (d : Disk Path)
    (file : PersistFile) : Prop :=
  d (os.path path) = some (.file ⟨0o600, codec.toVecPretty file, true⟩)

theorem ofDisk_congr (h : e (os.path path) = d (os.path path)) (hd : d.Plain (os.path path)) :
    LeaseFile.ofDisk codec e (os.path path) = LeaseFile.ofDisk codec d (os.path path) := by
  have he : e.Plain (os.path path) := by
    unfold Disk.Plain
    rw [h]
    exact hd
  unfold LeaseFile.ofDisk Disk.read
  rw [hd.resolve, he.resolve, h]

theorem Holds.ofDisk (h : Holds os codec path d file) :
    LeaseFile.ofDisk codec d (os.path path) = .parsed file.unlabelled := by
  unfold LeaseFile.ofDisk
  rw [Disk.read_of_file h]
  simp only [codec.fromSlice_toVecPretty]

/-- A disk on which the lease file can be replaced: no link or directory is in its place or in
that of the temporary file, and what is there is on the medium. -/
structure Ready (os : Os) (path : Text) (d : Disk Path) : Prop where
  file : d.Plain (os.path path)
  sidecar : d.Plain (StateFile.tmpPath os path)
  synced : ∀ f, d (os.path path) = some (.file f) → f.synced = true

/-- One write, wherever it stops. An error leaves the version there was. -/
theorem writeLeasesTo_step (hos : os.isWindows = false) (hd : Ready os path d)
    (h : Exec faulty (writeLeasesTo os codec path file) d result e) :
    Ready os path e ∧ (e (os.path path) = d (os.path path) ∨ Holds os codec path e file) ∧
      (result = some true → Holds os codec path e file) ∧
      (result = some false → e (os.path path) = d (os.path path)) := by
  obtain ⟨hr, hret⟩ := StateFile.writePrivateAtomic_safe hos hd.file hd.sidecar result e h
  obtain ⟨h1, h2⟩ := hr.plain hd.file hd.sidecar
  refine ⟨⟨h1, h2, fun f hf => ?_⟩, hr.file, fun hok => (hret true hok).2.1 rfl,
    fun hno => (hret false hno).2.2 rfl⟩
  rcases hr.file with heq | hnew
  · exact hd.synced f (heq ▸ hf)
  · rw [hnew] at hf
    cases hf
    rfl

structure Version (os : Os) (codec : LeaseCodec) (path : Text) (d₀ : Disk Path)
    (written : List PersistFile) (d : Disk Path) : Prop where
  ready : Ready os path d
  which : d (os.path path) = d₀ (os.path path) ∨ ∃ file ∈ written, Holds os codec path d file

theorem Version.lostPower {written : List PersistFile}
    (h : ∀ q, ∃ m, Version os codec path d₀ written m ∧ Survives (m q) (e q)) :
    Version os codec path d₀ written e := by
  obtain ⟨m, hm, hs⟩ := h (os.path path)
  have heq : e (os.path path) = m (os.path path) := hs.eq_of_synced hm.ready.synced
  obtain ⟨m', hm', hs'⟩ := h (StateFile.tmpPath os path)
  refine ⟨⟨hs.plain hm.ready.file, hs'.plain hm'.ready.sidecar, ?_⟩, ?_⟩
  · rw [heq]
    exact hm.ready.synced
  · unfold Holds
    rw [heq]
    exact hm.which

theorem history_version (hos : os.isWindows = false) (hd : Ready os path d₀)
    {es : List (Disk.Happened PersistFile Path Bool)}
    (h : Disk.History True True (writeLeasesTo os codec path) d₀ es d) :
    Version os codec path d₀ (es.filterMap Disk.Happened.cmd) d := by
  refine (h.invariant (J := Version os codec path d₀) ⟨hd, Or.inl rfl⟩ ?_ ?_ ?_).1
  · intro written file d hv
    refine ⟨hv.ready, hv.which.imp id ?_⟩
    rintro ⟨old, hmem, hh⟩
    exact ⟨old, List.mem_append_left _ hmem, hh⟩
  · intro written file d hv result e he
    obtain ⟨hr, hwhich, -⟩ := writeLeasesTo_step hos hv.ready he
    have hver : Version os codec path d₀ (written ++ [file]) e := by
      refine ⟨hr, ?_⟩
      rcases hwhich with heq | hnew
      · unfold Holds
        rw [heq]
        exact hv.which.imp id fun ⟨old, hmem, hh⟩ => ⟨old, List.mem_append_left _ hmem, hh⟩
      · exact Or.inr ⟨file, List.mem_append_right _ (List.mem_singleton_self _), hnew⟩
    exact ⟨hver, fun _ _ => hver⟩
  · exact fun _ written e he => Version.lostPower he

/-- Since a write that returned `Ok`, the path holds what it wrote, or what a later one did
that did not return an error. -/
theorem history_latest (hos : os.isWindows = false) (hd : Ready os path d₀)
    {es pre post : List (Disk.Happened PersistFile Path Bool)} {before : Disk Path}
    (h : Disk.History True True (writeLeasesTo os codec path) d₀ es d)
    (hes : es = pre ++ .ran file before (some true) :: post) (hpower : .lostPower ∉ post) :
    ∃ last, (last = file ∨ ∃ m r, .ran last m r ∈ post ∧ r ≠ some false) ∧
      Holds os codec path d last := by
  induction h generalizing post with
  | nil => simp at hes
  | @ran es cmd d e result hh he ih =>
    obtain ⟨-, hwhich, hok, hno⟩ := writeLeasesTo_step hos (history_version hos hd hh).ready he
    rcases snoc_eq_append_cons hes with ⟨-, hx, rfl⟩ | ⟨post, rfl, hfront⟩
    · cases hx
      exact ⟨file, Or.inl rfl, hok rfl⟩
    · obtain ⟨last, hlast, hh'⟩ := ih hfront fun hm => hpower (List.mem_append_left _ hm)
      -- this write's version, or the one before it
      have hkeep : e (os.path path) = d (os.path path) → ∃ last, (last = file ∨
          ∃ m r, .ran last m r ∈ post ++ [.ran cmd d result] ∧ r ≠ some false) ∧
            Holds os codec path e last := by
        intro heq
        refine ⟨last, hlast.imp id ?_, heq.trans hh'⟩
        rintro ⟨m, r, hmem, hr⟩
        exact ⟨m, r, List.mem_append_left _ hmem, hr⟩
      by_cases hr : result = some false
      · exact hkeep (hno hr)
      · rcases hwhich with heq | hnew
        · exact hkeep heq
        · exact ⟨cmd, Or.inr ⟨d, result, by simp, hr⟩, hnew⟩
  | @lostPower es d e hl hh hlost ih =>
    rcases snoc_eq_append_cons hes with ⟨-, hx, -⟩ | ⟨post, rfl, -⟩
    · cases hx
    · exact absurd (by simp) hpower

/-- However writes of the lease file are cut short by errors, kills and losses of power, the file
reads as it did at first or as one of the versions written, whole but for the flow labels of IPv6,
which no text has. Until the power is lost, that is the version of the last write that returned
`Ok` or of one begun after it. -/
theorem lease_file_never_torn (hos : os.isWindows = false) (hd : Ready os path d₀)
    {es : List (Disk.Happened PersistFile Path Bool)}
    (h : Disk.History True True (writeLeasesTo os codec path) d₀ es d) :
    (LeaseFile.ofDisk codec d (os.path path) = LeaseFile.ofDisk codec d₀ (os.path path) ∨
      ∃ file ∈ es.filterMap Disk.Happened.cmd,
        LeaseFile.ofDisk codec d (os.path path) = .parsed file.unlabelled) ∧
    ∀ pre file before post, es = pre ++ .ran file before (some true) :: post →
      .lostPower ∉ post →
      ∃ last, (last = file ∨ ∃ m r, .ran last m r ∈ post ∧ r ≠ some false) ∧
        LeaseFile.ofDisk codec d (os.path path) = .parsed last.unlabelled := by
  refine ⟨?_, fun pre file before post hes hpower => ?_⟩
  · rcases (history_version hos hd h).which with heq | ⟨file, hmem, hh⟩
    · exact Or.inl (ofDisk_congr heq hd.file)
    · exact Or.inr ⟨file, hmem, hh.ofDisk⟩
  · obtain ⟨last, hlast, hh⟩ := history_latest hos hd h hes hpower
    exact ⟨last, hlast, hh.ofDisk⟩

theorem lease_file_never_torn_killed : ∃ (codec : LeaseCodec) (first second : PersistFile)
    (d e : Disk Path), Disk.History True True (writeLeasesTo .linux codec "leases.json".toList)
      (fun _ => none) [.ran first (fun _ => none) (some true), .ran second d none] e ∧
    first ≠ second ∧ ∃ last, (last = first ∨ last = second) ∧
      LeaseFile.ofDisk codec e (Os.linux.path "leases.json".toList) = .parsed last.unlabelled := by
  obtain ⟨codec⟩ := Codec.nonempty_of_countable PersistFile.unlabelled
  have hready : Ready .linux "leases.json".toList fun _ => none :=
    ⟨Disk.plain_of_eq_none rfl, Disk.plain_of_eq_none rfl, fun f hf => by cases hf⟩
  have h1 := (writeLeasesTo .linux codec "leases.json".toList ⟨1, []⟩).exec_run True
    [.done, .done, .done, .done, .done] (fun _ => none) (Or.inl trivial)
  have h2 := (writeLeasesTo .linux codec "leases.json".toList ⟨2, []⟩).exec_run True
    [.done, .done] ((writeLeasesTo .linux codec "leases.json".toList ⟨1, []⟩).run
      [.done, .done, .done, .done, .done] fun _ => none).2 (Or.inl trivial)
  have hes : Disk.History True True _ _ _ _ := (Disk.History.nil.ran h1).ran h2
  obtain ⟨-, hlatest⟩ := lease_file_never_torn rfl hready hes
  obtain ⟨last, hlast, hread⟩ := hlatest [] ⟨1, []⟩ _ _ rfl (by simp)
  refine ⟨codec, ⟨1, []⟩, ⟨2, []⟩, _, _, hes, by simp, last, hlast.imp id ?_, hread⟩
  rintro ⟨m, r, hmem, -⟩
  cases List.mem_singleton.1 hmem
  rfl

/-! The server's life, with its writes on the disk. -/

/-- What a call does to the disk. A write that fails is only logged. -/
inductive Stored (os : Os) (codec : LeaseCodec) (path : Text) (out : CallOut) :
    Disk Path → Disk Path → Prop
  | wrote {d e : Disk Path} (file : PersistFile) : out.wrote = some file →
      Exec True (writeLeasesTo os codec path file) d (some true) e → Stored os codec path out d e
  | failed {d e : Disk Path} (file : PersistFile) : out.wrote = none →
      Exec True (writeLeasesTo os codec path file) d (some false) e → Stored os codec path out d e
  | quiet (d : Disk Path) : out.wrote = none → Stored os codec path out d d

inductive Life (P : Platform) (os : Os) (codec : LeaseCodec) (path : Text) (s : Assigner)
    (d₀ : Disk Path) : History → Assigner → Disk Path → Prop
  | nil : Life P os codec path s d₀ [] s d₀
  | call {es : History} {t t' : Assigner} {d e : Disk Path} {call : Call} {out : CallOut} :
      Life P os codec path s d₀ es t d → step P t call = .ok (t', out) →
      Stored os codec path out d e → Life P os codec path s d₀ (es ++ [⟨t, call, out, t'⟩]) t' e

variable {s t : Assigner}

theorem Stored.holds (hos : os.isWindows = false) (hd : Ready os path d) {out : CallOut}
    (h : Stored os codec path out d e) : Ready os path e ∧
      ((∃ file, out.wrote = some file ∧ Holds os codec path e file) ∨
        out.wrote = none ∧ e (os.path path) = d (os.path path)) := by
  cases h with
  | wrote file hw he =>
    obtain ⟨hr, -, hok, -⟩ := writeLeasesTo_step hos hd he
    exact ⟨hr, Or.inl ⟨file, hw, hok rfl⟩⟩
  | failed file hw he =>
    obtain ⟨hr, -, -, hno⟩ := writeLeasesTo_step hos hd he
    exact ⟨hr, Or.inr ⟨hw, hno rfl⟩⟩
  | quiet hw => exact ⟨hd, Or.inr ⟨hw, rfl⟩⟩

theorem Life.run (hos : os.isWindows = false) (hd : Ready os path d₀) {es : History}
    (h : Life P os codec path s d₀ es t d) : Run (step P) s es t ∧ Ready os path d := by
  induction h with
  | nil => exact ⟨Run.nil, hd⟩
  | call _ hs hst ih => exact ⟨ih.1.snoc hs, (hst.holds hos ih.2).1⟩

/-- Once a call has written, the disk has the version of that call or of a later one, whatever
writes have failed. -/
theorem Life.holds (hos : os.isWindows = false) (hd : Ready os path d₀) {es before since : History}
    {w : Entry Assigner Call CallOut} (h : Life P os codec path s d₀ es t d)
    (hes : es = before ++ w :: since) (hw : w.out.wrote.isSome) :
    ∃ v ∈ w :: since, ∃ file, v.out.wrote = some file ∧ Holds os codec path d file := by
  induction h generalizing since with
  | nil => simp at hes
  | @call es t t' d e call out hlife hs hst ih =>
    obtain ⟨-, hstored⟩ := hst.holds hos (hlife.run hos hd).2
    rcases snoc_eq_append_cons hes with ⟨-, rfl, rfl⟩ | ⟨front, rfl, hfront⟩
    · rcases hstored with ⟨file, hwrote, hholds⟩ | ⟨hnone, -⟩
      · exact ⟨_, List.mem_cons_self, file, hwrote, hholds⟩
      · rw [hnone] at hw
        cases hw
    · rcases hstored with ⟨file, hwrote, hholds⟩ | ⟨-, heq⟩
      · exact ⟨⟨t, call, out, t'⟩, by simp, file, hwrote, hholds⟩
      · obtain ⟨v, hv, file, hwrote, hholds⟩ := ih hfront
        refine ⟨v, ?_, file, hwrote, heq.trans hholds⟩
        rw [← List.cons_append]
        exact List.mem_append_left _ hv

/-- A server that starts with these settings at this time takes the lease of `n` for alive. -/
def Honours (args : Args) (restart : SystemTime) (n : NodeId) (ip : Ipv4Addr) (s : Assigner) :
    Prop :=
  ∃ l, s.byNode.get n = some l ∧ l.ip4 = ip ∧
    restart.nanos - l.lastSeen.nanos + NANOS_PER_SEC ≤ args.ttl

/-- A lease but for the flow label of its last endpoint. -/
def unlabelled (l : Lease) : Lease := { l with lastPeer := l.lastPeer.map SocketAddr.unlabelled }

theorem writeLeases_unlabelled (s : Assigner) (order : IterOrder NodeId Lease) :
    (s.writeLeases order).unlabelled =
      ⟨1, (((order.iter s.byNode).map Sigma.snd).map unlabelled).map .fromLease⟩ := by
  simp only [Assigner.writeLeases, PersistFile.unlabelled, List.map_map]
  rfl

theorem Honours.loads {args : Args} {restart clock : SystemTime} {n : NodeId} {ip : Ipv4Addr}
    {b : Book} (h : Honours args restart n ip s) (hr : Refines s b)
    (order : IterOrder NodeId Lease) (hpath : args.persistPath.isSome) (io : Io) :
    ∃ started, new args clock restart io (.parsed (s.writeLeases order).unlabelled) = .ok started ∧
      ∃ k, started.assigner.byNode.get n = some k ∧ k.ip4 = ip := by
  obtain ⟨l, hl, hip, hrecent⟩ := h
  -- rows conflict by node and address, whatever their endpoints
  have hpairwise : (((order.iter s.byNode).map Sigma.snd).map unlabelled).Pairwise
      fun k l => ¬ k.Conflicts l := (rows_pairwise hr order).map unlabelled fun _ _ hno => hno
  obtain ⟨started, b', hnew, hr', -, hrows, -⟩ := new_rows hpairwise hpath clock restart io
  rw [writeLeases_unlabelled]
  refine ⟨started, hnew, (unlabelled l).reread, ?_, hip⟩
  obtain ⟨hmem, hown⟩ := (mem_rows hr order).2 (show b.held n = some l by rw [← hr.held]; exact hl)
  rw [hr'.held, hrows]
  exact ⟨unlabelled l, List.mem_map_of_mem hmem, hown, live_of_recent hrecent, rfl⟩

theorem wrote_eq {b : Book} {f : Entry Assigner Call CallOut} (hr : Refines f.pre b)
    (hs : step P f.pre f.input = .ok (f.post, f.out)) (hw : f.out.wrote = some file) :
    ∃ b' order, Refines f.post b' ∧ file = f.post.writeLeases order := by
  rcases step_settled hr hs with ⟨start, end_, -, -, hnone⟩ | ⟨b', io, now, -, -, hset, -⟩
  · rw [hnone] at hw
    cases hw
  · exact ⟨b', io.order, hset.refines, hset.wrote_eq hw⟩

/-- The server is killed in the course of a write. Suppose that `n` has held `ip` ever since some
write of this life was done, whatever later writes have failed and however the clock was set, and
holds it in the table that was being written; and that each of its leases since is recent enough
for a start at `restart`. Then a table that loads what is on the disk gives `n` that address. -/
theorem killed_write_keeps_lease (hos : os.isWindows = false) (hd : Ready os path d₀)
    (h : Reachable P s) {es before since : History} {w last : Entry Assigner Call CallOut}
    (hlife : Life P os codec path s d₀ es last.pre d)
    (hstep : step P last.pre last.input = .ok (last.post, last.out))
    (hwrites : last.out.wrote = some file)
    (hkill : Exec True (writeLeasesTo os codec path file) d none e)
    (hes : es = before ++ w :: since) (hw : w.out.wrote.isSome) {args : Args}
    {restart : SystemTime} {n : NodeId} {ip : Ipv4Addr}
    (hheld : ∀ f ∈ w :: since ++ [last], Honours args restart n ip f.post)
    (hpath : args.persistPath.isSome) (clock : SystemTime) (io : Io) :
    ∃ started, new args clock restart io (LeaseFile.ofDisk codec e (os.path path)) = .ok started ∧
      ∃ k, started.assigner.byNode.get n = some k ∧ k.ip4 = ip := by
  obtain ⟨hrun, hready⟩ := hlife.run hos hd
  have href := reachable_refines h
  -- the version on the disk and the one that was being written are of tables that honour the lease
  have hloads : ∀ f ∈ w :: since ++ [last], (∃ b, Refines f.pre b) →
      step P f.pre f.input = .ok (f.post, f.out) → ∀ version, f.out.wrote = some version →
      Holds os codec path e version → ∃ started,
        new args clock restart io (LeaseFile.ofDisk codec e (os.path path)) = .ok started ∧
          ∃ k, started.assigner.byNode.get n = some k ∧ k.ip4 = ip := by
    rintro f hf ⟨b, hb⟩ hs version hwrote hholds
    obtain ⟨b', order, hb', rfl⟩ := wrote_eq hb hs hwrote
    rw [hholds.ofDisk]
    exact (hheld f hf).loads hb' order hpath io
  obtain ⟨-, hwhich, -⟩ := writeLeasesTo_step hos hready hkill
  rcases hwhich with heq | hnew
  · obtain ⟨v, hv, version, hwrote, hholds⟩ := hlife.holds hos hd hes hw
    obtain ⟨⟨gs, hpre⟩, hs⟩ := hrun.entry (by rw [hes]; exact List.mem_append_right _ hv)
    exact hloads v (List.mem_append_left _ hv) (run_refines hpre href) hs version hwrote
      (heq.trans hholds)
  · exact hloads last (by simp) (run_refines hrun href) hstep file hwrites hnew

/-- The write of the first call is done, that of the second fails, and the server is killed while it
writes what node 2 was given; node 1 comes back. -/
theorem killed_write_keeps_lease_other : ∃ (codec : LeaseCodec) (d e : Disk Path)
    (file : PersistFile) (started : Started),
    Exec True (writeLeasesTo .linux codec ['l'] file) d none e ∧ file.leases.length = 3 ∧
    new Sample.args (Sample.time 3) (Sample.time 3) Sample.io
      (LeaseFile.ofDisk codec e (Os.linux.path ['l'])) = .ok started ∧
    ∃ k, started.assigner.byNode.get (Sample.node 1) = some k ∧ k.ip4 = Sample.addr 10 := by
  obtain ⟨codec⟩ := Codec.nonempty_of_countable PersistFile.unlabelled
  have hrun : ∃ first e₀ e₁ e₂ t f₀ f₂ l₀ l₁ l₂,
      new Sample.args (Sample.time 0) (Sample.time 0) Sample.io .notFound = .ok first ∧
      exec (step Sample.platform) first.assigner
        [.allocate (Sample.req 1 10) (Sample.endpoint 1) (Sample.time 2) Sample.io,
          .allocate (Sample.req 3 30) (Sample.endpoint 3) (Sample.time 1)
            { Sample.io with writeOk := false },
          .allocate (Sample.req 2 20) (Sample.endpoint 2) (Sample.time 2) Sample.io] =
        .ok ([e₀, e₁, e₂], t) ∧
      e₀.out.wrote = some f₀ ∧ e₁.out.wrote = none ∧ e₂.out.wrote = some f₂ ∧
      f₂.leases.length = 3 ∧
      e₀.post.byNode.get (Sample.node 1) = some l₀ ∧ e₁.post.byNode.get (Sample.node 1) = some l₁ ∧
      e₂.post.byNode.get (Sample.node 1) = some l₂ ∧
      [l₀, l₁, l₂].map (fun l => (l.ip4, l.lastSeen)) =
        List.replicate 3 (Sample.addr 10, Sample.time 2) :=
    ⟨_, _, _, _, _, _, _, _, _, _, rfl, rfl, rfl, rfl, rfl, rfl, rfl, rfl, rfl, rfl⟩
  obtain ⟨first, e₀, e₁, e₂, t, f₀, f₂, l₀, l₁, l₂, hnew, hexec, hw₀, hw₁, hw₂, hlen, hl₀, hl₁, hl₂,
    hleases⟩ := hrun
  have hreach : Reachable Sample.platform first.assigner :=
    ⟨_, _, _, _, _, first, [], hnew, Run.nil⟩
  have hready : Ready .linux ['l'] fun _ => none :=
    ⟨Disk.plain_of_eq_none rfl, Disk.plain_of_eq_none rfl, fun f hf => by cases hf⟩
  obtain ⟨hpre, hstep₀, hrest⟩ := (exec_run hexec).cons_inv
  obtain ⟨hmid, hstep₁, hrest⟩ := hrest.cons_inv
  obtain ⟨hlast, hstep₂, -⟩ := hrest.cons_inv
  -- the first write is done, the second finds no room, and the third is killed at the opening
  obtain ⟨d₁, d₂, e, h₀, h₁, h₂⟩ : ∃ d₁ d₂ e,
      Exec True (writeLeasesTo .linux codec ['l'] f₀) (fun _ => none) (some true) d₁ ∧
      Exec True (writeLeasesTo .linux codec ['l'] ⟨1, []⟩) d₁ (some false) d₂ ∧
      Exec True (writeLeasesTo .linux codec ['l'] f₂) d₂ none e :=
    ⟨_, _, _, Prog.exec_run True _ [.done, .done, .done, .done, .done] _ (Or.inl trivial),
      Prog.exec_run True _ [.fails] _ (Or.inl trivial),
      Prog.exec_run True _ [.done] _ (Or.inl trivial)⟩
  have hlife : Life Sample.platform .linux codec ['l'] first.assigner (fun _ => none)
      ([] ++ [e₀] ++ [e₁]) e₂.pre d₂ := by
    rw [← hpre, hlast]
    have hfirst : Life Sample.platform .linux codec ['l'] e₀.pre (fun _ => none) [e₀] e₀.post _ :=
      Life.call .nil (hpre ▸ hstep₀) (.wrote f₀ hw₀ h₀)
    rw [← hmid] at hfirst
    exact Life.call hfirst (hmid ▸ hstep₁) (.failed ⟨1, []⟩ hw₁ h₁)
  have hheld : ∀ f ∈ e₀ :: [e₁] ++ [e₂],
      Honours Sample.args (Sample.time 3) (Sample.node 1) (Sample.addr 10) f.post := by
    obtain ⟨⟨h₀, h₀'⟩, ⟨h₁, h₁'⟩, h₂, h₂'⟩ : (l₀.ip4 = _ ∧ l₀.lastSeen = _) ∧
        (l₁.ip4 = _ ∧ l₁.lastSeen = _) ∧ l₂.ip4 = _ ∧ l₂.lastSeen = _ := by
      simpa [List.replicate] using hleases
    have hrecent : (Sample.time 3).nanos - (Sample.time 2).nanos + NANOS_PER_SEC ≤
        Sample.args.ttl := by decide
    simp only [List.cons_append, List.nil_append, List.forall_mem_cons]
    exact ⟨⟨l₀, hl₀, h₀, h₀' ▸ hrecent⟩, ⟨l₁, hl₁, h₁, h₁' ▸ hrecent⟩, ⟨l₂, hl₂, h₂, h₂' ▸ hrecent⟩,
      fun _ h => by cases h⟩
  obtain ⟨started, hstart, hkeep⟩ := killed_write_keeps_lease rfl hready hreach hlife
    (hlast ▸ hstep₂) hw₂ h₂ (rfl : _ = [] ++ e₀ :: [e₁]) (by rw [hw₀]; rfl) hheld rfl
    (Sample.time 3) Sample.io
  exact ⟨codec, d₂, e, f₂, started, h₂, hlen, hstart, hkeep⟩

end Assigner

end ShadowVpn
