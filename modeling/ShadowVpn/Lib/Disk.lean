import Mathlib.Logic.Function.Basic
import Mathlib.Data.Nat.Notation

/-! Programs over a file system. A program may be killed before any of its operations and in
the middle of a write; in a faulty run any operation may fail as well. What holds of a program
is said in two parts: of the disk wherever the program is killed, and of the disk and the
result where it returns. -/

namespace Lib

structure File where
  mode : ℕ
  data : List UInt8
  /-- The data is on the medium, and not only in memory. -/
  synced : Bool
deriving DecidableEq

inductive Item (π : Type) where
  | file (f : File)
  | link (target : π)
  | dir (mode : ℕ)
deriving DecidableEq

abbrev Disk (π : Type) := π → Option (Item π)

variable {π α β : Type}

namespace Disk

variable {d : Disk π} {p q : π}

/-- Where opening `p` leads; one link is followed. -/
def resolve (d : Disk π) (p : π) : π :=
  match d p with
  | some (.link target) => target
  | _ => p

def read (d : Disk π) (p : π) : Option (List UInt8) :=
  match d (d.resolve p) with
  | some (.file f) => some f.data
  | _ => none

/-- `exists` follows a link. -/
def present (d : Disk π) (p : π) : Bool := (d (d.resolve p)).isSome

/-- There is a file of its own at `p`, or nothing. -/
def Plain (d : Disk π) (p : π) : Prop := ∀ i, d p = some i → ∃ f, i = .file f

theorem Plain.resolve (h : d.Plain p) : d.resolve p = p := by
  unfold Disk.resolve
  cases hp : d p with
  | none => rfl
  | some i =>
    obtain ⟨f, rfl⟩ := h i hp
    rfl

theorem plain_of_eq_file {f : File} (h : d p = some (.file f)) : d.Plain p := by
  intro i hi
  rw [h] at hi
  exact ⟨f, (Option.some.inj hi).symm⟩

theorem plain_of_eq_none (h : d p = none) : d.Plain p := by
  intro i hi
  rw [h] at hi
  cases hi

theorem read_of_file {f : File} (h : d p = some (.file f)) : d.read p = some f.data := by
  unfold read
  rw [(plain_of_eq_file h).resolve, h]

theorem read_of_none (h : d p = none) : d.read p = none := by
  unfold read
  rw [(plain_of_eq_none h).resolve, h]

variable [DecidableEq π]

def set (d : Disk π) (p : π) (i : Option (Item π)) : Disk π := Function.update d p i

@[simp] theorem set_self (i : Option (Item π)) : d.set p i p = i := Function.update_self ..

@[simp] theorem set_of_ne (h : q ≠ p) (i : Option (Item π)) : d.set p i q = d q :=
  Function.update_of_ne h ..

@[simp] theorem set_set (i j : Option (Item π)) : (d.set p i).set p j = d.set p j :=
  Function.update_idem ..

def edit (d : Disk π) (p : π) (change : File → File) : Option (Disk π) :=
  match d (d.resolve p) with
  | some (.file f) => some (d.set (d.resolve p) (some (.file (change f))))
  | _ => none

theorem edit_of_file {f : File} (h : d p = some (.file f)) (change : File → File) :
    d.edit p change = some (d.set p (some (.file (change f)))) := by
  unfold edit
  rw [(plain_of_eq_file h).resolve, h]

end Disk

/-! Loss of power. -/

/-- What an item on the way to the medium may have become: data that was not synced may be
anything, and its file may be gone. -/
inductive Survives : Option (Item π) → Option (Item π) → Prop
  | same (i : Option (Item π)) : Survives i i
  | gone {f : File} : f.synced = false → Survives (some (.file f)) none
  | garbled {f g : File} : f.synced = false → g.mode = f.mode → g.synced = false →
      Survives (some (.file f)) (some (.file g))

theorem Survives.plain {i j : Option (Item π)} (h : Survives i j)
    (hi : ∀ k, i = some k → ∃ f, k = .file f) : ∀ k, j = some k → ∃ f, k = .file f := by
  cases h with
  | same => exact hi
  | gone =>
    intro k hk
    cases hk
  | garbled =>
    intro k hk
    exact ⟨_, (Option.some.inj hk).symm⟩

/-- What is on the medium stays through a loss of power. -/
theorem Survives.eq_of_synced {i j : Option (Item π)} (h : Survives i j)
    (hi : ∀ f, i = some (.file f) → f.synced = true) : j = i := by
  cases h with
  | same => rfl
  | gone hf =>
    rw [hi _ rfl] at hf
    cases hf
  | garbled hf =>
    rw [hi _ rfl] at hf
    cases hf

/-! Operations and programs. -/

inductive Op (π : Type) where
  /-- Open for writing: create the file with this mode, or truncate the one there is. -/
  | create (p : π) (mode : ℕ)
  | chmod (p : π) (mode : ℕ)
  | write (p : π) (data : List UInt8)
  | sync (p : π)
  | rename (p q : π)
  | remove (p : π)
  | mkdir (p : π) (mode : ℕ)
  | symlink (target p : π)

/-- A program: operations that tell whether they were done, looks at the disk, and reads of a
whole file. -/
inductive Prog (π α : Type) where
  | ret (a : α)
  | op (o : Op π) (next : Bool → Prog π α)
  | look (next : Disk π → Prog π α)
  | read (p : π) (next : Option (List UInt8) → Prog π α)

namespace Prog

def bind : Prog π α → (α → Prog π β) → Prog π β
  | .ret a, f => f a
  | .op o next, f => .op o fun ok => (next ok).bind f
  | .look next, f => .look fun d => (next d).bind f
  | .read p next, f => .read p fun bytes => (next bytes).bind f

/-- An operation whose failure ends the program with an error. -/
def must (o : Op π) (next : Prog π Bool) : Prog π Bool :=
  .op o fun ok => if ok then next else .ret false

/-- The second program only after the first has succeeded. -/
def andThen (p q : Prog π Bool) : Prog π Bool := p.bind fun ok => if ok then q else .ret false

end Prog

variable [DecidableEq π]

/-- The disk after an operation, where it can be done. -/
def Op.apply (d : Disk π) : Op π → Option (Disk π)
  | .create p mode =>
    match d (d.resolve p) with
    | none => some (d.set (d.resolve p) (some (.file ⟨mode, [], false⟩)))
    | some (.file f) => some (d.set (d.resolve p) (some (.file ⟨f.mode, [], false⟩)))
    | some _ => none
  | .chmod p mode => d.edit p fun f => { f with mode := mode }
  | .write p data => d.edit p fun f => ⟨f.mode, f.data ++ data, false⟩
  | .sync p => d.edit p fun f => { f with synced := true }
  | .rename p q =>
    match d p, d q with
    | none, _ => none
    | some _, some (.dir _) => none
    | some i, _ => some ((d.set p none).set q (some i))
  | .remove p =>
    match d p with
    | some (.file _) => some (d.set p none)
    | some (.link _) => some (d.set p none)
    | _ => none
  | .mkdir p mode =>
    match d p with
    | none => some (d.set p (some (.dir mode)))
    | some _ => none
  | .symlink target p =>
    match d p with
    | none => some (d.set p (some (.link target)))
    | some _ => none

section Apply

variable {d d' : Disk π} {p q : π}

theorem apply_create (h : d.Plain p) (mode : ℕ) :
    ∃ m, (m = mode ∨ ∃ f, d p = some (.file f) ∧ m = f.mode) ∧
      (Op.create p mode).apply d = some (d.set p (some (.file ⟨m, [], false⟩))) := by
  simp only [Op.apply, h.resolve]
  cases hp : d p with
  | none => exact ⟨mode, Or.inl rfl, rfl⟩
  | some i =>
    obtain ⟨f, rfl⟩ := h i hp
    exact ⟨f.mode, Or.inr ⟨f, rfl, rfl⟩, rfl⟩

theorem apply_chmod {f : File} (h : d p = some (.file f)) (mode : ℕ) :
    (Op.chmod p mode).apply d = some (d.set p (some (.file { f with mode := mode }))) :=
  Disk.edit_of_file h _

theorem apply_write {f : File} (h : d p = some (.file f)) (data : List UInt8) :
    (Op.write p data).apply d = some (d.set p (some (.file ⟨f.mode, f.data ++ data, false⟩))) :=
  Disk.edit_of_file h _

theorem apply_sync {f : File} (h : d p = some (.file f)) :
    (Op.sync p).apply d = some (d.set p (some (.file { f with synced := true }))) :=
  Disk.edit_of_file h _

theorem apply_rename {i : Item π} (h : d p = some i) (hq : d.Plain q) :
    (Op.rename p q).apply d = some ((d.set p none).set q (some i)) := by
  cases hi : d q with
  | none => simp only [Op.apply, h, hi]
  | some j =>
    obtain ⟨f, rfl⟩ := hq j hi
    simp only [Op.apply, h, hi]

theorem apply_remove (hd : (Op.remove p).apply d = some d') : d' = d.set p none := by
  simp only [Op.apply] at hd
  split at hd
  · exact (Option.some.inj hd).symm
  · exact (Option.some.inj hd).symm
  · cases hd

theorem apply_remove_eq_none (hd : (Op.remove p).apply d = none) :
    d p = none ∨ ∃ mode, d p = some (.dir mode) := by
  simp only [Op.apply] at hd
  cases hp : d p with
  | none => exact Or.inl rfl
  | some i =>
    rw [hp] at hd
    cases i with
    | file f => cases hd
    | link target => cases hd
    | dir mode => exact Or.inr ⟨mode, rfl⟩

theorem apply_remove_file {f : File} (h : d p = some (.file f)) :
    (Op.remove p).apply d = some (d.set p none) := by
  simp only [Op.apply, h]

theorem apply_symlink (h : d p = none) (target : π) :
    (Op.symlink target p).apply d = some (d.set p (some (.link target))) := by
  simp only [Op.apply, h]

theorem apply_mkdir {mode : ℕ} (hd : (Op.mkdir p mode).apply d = some d') :
    d p = none ∧ d' = d.set p (some (.dir mode)) := by
  simp only [Op.apply] at hd
  split at hd
  · exact ⟨‹_›, (Option.some.inj hd).symm⟩
  · cases hd

theorem apply_mkdir_eq_none {mode : ℕ} (hd : (Op.mkdir p mode).apply d = none) :
    (d p).isSome = true := by
  simp only [Op.apply] at hd
  split at hd
  · cases hd
  · next i hi => rw [hi]; rfl

end Apply

/-- The runs of a program from one disk to another. Without a result, it was killed. -/
inductive Exec (faulty : Prop) : Prog π α → Disk π → Option α → Disk π → Prop
  | ret (a : α) (d : Disk π) : Exec faulty (.ret a) d (some a) d
  | killed (c : Prog π α) (d : Disk π) : Exec faulty c d none d
  | done {o : Op π} {next : Bool → Prog π α} {d d' e : Disk π} {r : Option α} :
      o.apply d = some d' → Exec faulty (next true) d' r e → Exec faulty (.op o next) d r e
  | refused {o : Op π} {next : Bool → Prog π α} {d e : Disk π} {r : Option α} :
      o.apply d = none ∨ faulty → Exec faulty (next false) d r e →
      Exec faulty (.op o next) d r e
  | torn {p : π} {data : List UInt8} {next : Bool → Prog π α} {d d' : Disk π} (n : ℕ) :
      (Op.write p (data.take n)).apply d = some d' →
      Exec faulty (.op (.write p data) next) d none d'
  | short {p : π} {data : List UInt8} {next : Bool → Prog π α} {d d' e : Disk π} {r : Option α}
      (n : ℕ) : faulty → (Op.write p (data.take n)).apply d = some d' →
      Exec faulty (next false) d' r e → Exec faulty (.op (.write p data) next) d r e
  | look {next : Disk π → Prog π α} {d e : Disk π} {r : Option α} :
      Exec faulty (next d) d r e → Exec faulty (.look next) d r e
  | read {p : π} {next : Option (List UInt8) → Prog π α} {d e : Disk π} {r : Option α} :
      Exec faulty (next (d.read p)) d r e → Exec faulty (.read p next) d r e
  | unread {p : π} {next : Option (List UInt8) → Prog π α} {d e : Disk π} {r : Option α} :
      faulty → Exec faulty (next none) d r e → Exec faulty (.read p next) d r e

/-- `I` holds of the disk wherever the program is killed, and `Q` where it returns. -/
def Safe (faulty : Prop) (I : Disk π → Prop) (c : Prog π α) (d : Disk π)
    (Q : α → Disk π → Prop) : Prop :=
  ∀ r e, Exec faulty c d r e → I e ∧ ∀ a, r = some a → Q a e

namespace Safe

variable {faulty : Prop} {I J : Disk π → Prop} {d : Disk π} {Q R : α → Disk π → Prop}

theorem ret {a : α} (hI : I d) (hQ : Q a d) : Safe faulty I (.ret a) d Q := by
  intro r e h
  cases h with
  | ret => exact ⟨hI, fun b hb => Option.some.inj hb ▸ hQ⟩
  | killed => exact ⟨hI, fun b hb => by cases hb⟩

/-- The rule of an operation other than a write. -/
theorem op {o : Op π} {next : Bool → Prog π α} (hI : I d) (ho : ∀ p data, o ≠ .write p data)
    (hdone : ∀ d', o.apply d = some d' → Safe faulty I (next true) d' Q)
    (hfail : o.apply d = none ∨ faulty → Safe faulty I (next false) d Q) :
    Safe faulty I (.op o next) d Q := by
  intro r e h
  cases h with
  | killed => exact ⟨hI, fun b hb => by cases hb⟩
  | done hd he => exact hdone _ hd r e he
  | refused hf he => exact hfail hf r e he
  | torn => exact absurd rfl (ho _ _)
  | short => exact absurd rfl (ho _ _)

/-- A write may stop after any number of bytes. -/
theorem write {p : π} {data : List UInt8} {next : Bool → Prog π α} (hI : I d)
    (hdone : ∀ d', (Op.write p data).apply d = some d' → Safe faulty I (next true) d' Q)
    (hfail : (Op.write p data).apply d = none ∨ faulty → Safe faulty I (next false) d Q)
    (htorn : ∀ n d', (Op.write p (data.take n)).apply d = some d' → I d')
    (hshort : faulty → ∀ n d', (Op.write p (data.take n)).apply d = some d' →
      Safe faulty I (next false) d' Q) :
    Safe faulty I (.op (.write p data) next) d Q := by
  intro r e h
  cases h with
  | killed => exact ⟨hI, fun b hb => by cases hb⟩
  | done hd he => exact hdone _ hd r e he
  | refused hf he => exact hfail hf r e he
  | torn n hn => exact ⟨htorn n _ hn, fun b hb => by cases hb⟩
  | short n hf hn he => exact hshort hf n _ hn r e he

theorem look {next : Disk π → Prog π α} (h : Safe faulty I (next d) d Q) (hI : I d) :
    Safe faulty I (.look next) d Q := by
  intro r e he
  cases he with
  | killed => exact ⟨hI, fun b hb => by cases hb⟩
  | look he => exact h r e he

theorem read {p : π} {next : Option (List UInt8) → Prog π α} (hI : I d)
    (h : Safe faulty I (next (d.read p)) d Q) (hfail : faulty → Safe faulty I (next none) d Q) :
    Safe faulty I (.read p next) d Q := by
  intro r e he
  cases he with
  | killed => exact ⟨hI, fun b hb => by cases hb⟩
  | read he => exact h r e he
  | unread hf he => exact hfail hf r e he

theorem mono {c : Prog π α} (h : Safe faulty I c d Q) (hI : ∀ e, I e → J e)
    (hQ : ∀ a e, Q a e → R a e) : Safe faulty J c d R := by
  intro r e he
  obtain ⟨h1, h2⟩ := h r e he
  exact ⟨hI e h1, fun a ha => hQ a e (h2 a ha)⟩

theorem must {o : Op π} {next : Prog π Bool} {Q : Bool → Disk π → Prop} (hI : I d)
    (ho : ∀ p data, o ≠ .write p data)
    (hdone : ∀ d', o.apply d = some d' → Safe faulty I next d' Q)
    (hfail : o.apply d = none ∨ faulty → Q false d) : Safe faulty I (Prog.must o next) d Q :=
  Safe.op hI ho hdone fun hf => Safe.ret hI (hfail hf)

/-- The rule where the operation can be done. -/
theorem mustDo {o : Op π} {next : Prog π Bool} {Q : Bool → Disk π → Prop} {d' : Disk π}
    (hI : I d) (ho : ∀ p data, o ≠ .write p data) (hd : o.apply d = some d')
    (hdone : Safe faulty I next d' Q) (hfail : faulty → Q false d) :
    Safe faulty I (Prog.must o next) d Q := by
  refine Safe.must hI ho (fun e he => ?_) fun hf => hfail ?_
  · rw [hd] at he
    exact Option.some.inj he ▸ hdone
  · rw [hd] at hf
    exact hf.resolve_left fun h => by cases h

theorem mustWrite {p : π} {data : List UInt8} {next : Prog π Bool} {Q : Bool → Disk π → Prop}
    {f : File} (hf : d p = some (.file f)) (hI : I d)
    (hdone : Safe faulty I next (d.set p (some (.file ⟨f.mode, f.data ++ data, false⟩))) Q)
    (hfail : faulty → Q false d)
    (hshort : ∀ n, I (d.set p (some (.file ⟨f.mode, f.data ++ data.take n, false⟩))) ∧
      (faulty → Q false (d.set p (some (.file ⟨f.mode, f.data ++ data.take n, false⟩))))) :
    Safe faulty I (Prog.must (.write p data) next) d Q := by
  have hdo : ∀ data' d', (Op.write p data').apply d = some d' →
      d' = d.set p (some (.file ⟨f.mode, f.data ++ data', false⟩)) := by
    intro data' d' hd
    rw [apply_write hf] at hd
    exact (Option.some.inj hd).symm
  refine Safe.write hI (fun d' hd => ?_) (fun hn => ?_) (fun n d' hd => ?_) fun hb n d' hd => ?_
  · rw [hdo _ _ hd]
    exact hdone
  · rw [apply_write hf] at hn
    rcases hn with hn | hb
    · cases hn
    · exact Safe.ret hI (hfail hb)
  · rw [hdo _ _ hd]
    exact (hshort n).1
  · rw [hdo _ _ hd]
    exact Safe.ret (hshort n).1 ((hshort n).2 hb)

end Safe

/-- A run of two programs in a row is a run of the first, and then one of the second. -/
theorem exec_bind {faulty : Prop} {c : Prog π α} {f : α → Prog π β} {d e : Disk π} {r : Option β}
    (h : Exec faulty (c.bind f) d r e) : (r = none ∧ Exec faulty c d none e) ∨
      ∃ a m, Exec faulty c d (some a) m ∧ Exec faulty (f a) m r e := by
  induction c generalizing d with
  | ret a => exact Or.inr ⟨a, d, .ret a d, h⟩
  | op o next ih =>
    unfold Prog.bind at h
    cases h with
    | killed => exact Or.inl ⟨rfl, .killed _ _⟩
    | done hd he =>
      rcases ih true he with ⟨hr, hc⟩ | ⟨a, m, hc, hf⟩
      · exact Or.inl ⟨hr, .done hd hc⟩
      · exact Or.inr ⟨a, m, .done hd hc, hf⟩
    | refused hd he =>
      rcases ih false he with ⟨hr, hc⟩ | ⟨a, m, hc, hf⟩
      · exact Or.inl ⟨hr, .refused hd hc⟩
      · exact Or.inr ⟨a, m, .refused hd hc, hf⟩
    | torn n hn => exact Or.inl ⟨rfl, .torn n hn⟩
    | short n hb hn he =>
      rcases ih false he with ⟨hr, hc⟩ | ⟨a, m, hc, hf⟩
      · exact Or.inl ⟨hr, .short n hb hn hc⟩
      · exact Or.inr ⟨a, m, .short n hb hn hc, hf⟩
  | look next ih =>
    unfold Prog.bind at h
    cases h with
    | killed => exact Or.inl ⟨rfl, .killed _ _⟩
    | look he =>
      rcases ih d he with ⟨hr, hc⟩ | ⟨a, m, hc, hf⟩
      · exact Or.inl ⟨hr, .look hc⟩
      · exact Or.inr ⟨a, m, .look hc, hf⟩
  | read p next ih =>
    unfold Prog.bind at h
    cases h with
    | killed => exact Or.inl ⟨rfl, .killed _ _⟩
    | read he =>
      rcases ih _ he with ⟨hr, hc⟩ | ⟨a, m, hc, hf⟩
      · exact Or.inl ⟨hr, .read hc⟩
      · exact Or.inr ⟨a, m, .read hc, hf⟩
    | unread hb he =>
      rcases ih none he with ⟨hr, hc⟩ | ⟨a, m, hc, hf⟩
      · exact Or.inl ⟨hr, .unread hb hc⟩
      · exact Or.inr ⟨a, m, .unread hb hc, hf⟩

theorem Safe.bind {faulty : Prop} {I : Disk π → Prop} {c : Prog π α} {f : α → Prog π β}
    {d : Disk π} {Q : α → Disk π → Prop} {R : β → Disk π → Prop} (h : Safe faulty I c d Q)
    (hf : ∀ a e, Q a e → Safe faulty I (f a) e R) : Safe faulty I (c.bind f) d R := by
  intro r e he
  rcases exec_bind he with ⟨rfl, hc⟩ | ⟨a, m, hc, hfa⟩
  · exact ⟨(h none e hc).1, fun b hb => by cases hb⟩
  · exact hf a m ((h _ m hc).2 a rfl) r e hfa

theorem Safe.andThen {faulty : Prop} {I : Disk π → Prop} {c c' : Prog π Bool} {d : Disk π}
    {Q R : Bool → Disk π → Prop} (h : Safe faulty I c d Q)
    (hok : ∀ e, Q true e → Safe faulty I c' e R) (hI : ∀ e, Q false e → I e ∧ R false e) :
    Safe faulty I (c.andThen c') d R := by
  refine h.bind fun ok e hq => ?_
  cases ok with
  | true => exact hok e hq
  | false => exact Safe.ret (hI e hq).1 (hI e hq).2

/-- Nothing keeps a program from going to its end. -/
theorem exists_exec (faulty : Prop) (c : Prog π α) (d : Disk π) :
    ∃ a e, Exec faulty c d (some a) e := by
  induction c generalizing d with
  | ret a => exact ⟨a, d, .ret a d⟩
  | op o next ih =>
    cases ho : o.apply d with
    | none =>
      obtain ⟨a, e, h⟩ := ih false d
      exact ⟨a, e, .refused (Or.inl ho) h⟩
    | some d' =>
      obtain ⟨a, e, h⟩ := ih true d'
      exact ⟨a, e, .done ho h⟩
  | look next ih =>
    obtain ⟨a, e, h⟩ := ih d d
    exact ⟨a, e, .look h⟩
  | read p next ih =>
    obtain ⟨a, e, h⟩ := ih (d.read p) d
    exact ⟨a, e, .read h⟩

/-! Runs with a given fate for each operation, to evaluate a program. -/

inductive Fate where
  | done
  | fails
  /-- Only this many bytes are written. -/
  | short (n : ℕ)
deriving DecidableEq

/-- A program whose fates run out is killed. -/
def Prog.run : Prog π α → List Fate → Disk π → Option α × Disk π
  | .ret a, _, d => (some a, d)
  | .look next, fates, d => (next d).run fates d
  | .read p next, fates, d => (next (d.read p)).run fates d
  | .op _ _, [], d => (none, d)
  | .op o next, .done :: fates, d =>
    match o.apply d with
    | some d' => (next true).run fates d'
    | none => (next false).run fates d
  | .op _ next, .fails :: fates, d => (next false).run fates d
  | .op (.write p data) next, .short n :: fates, d =>
    match (Op.write p (data.take n)).apply d with
    | some d' => (next false).run fates d'
    | none => (next false).run fates d
  | .op _ next, .short _ :: fates, d => (next false).run fates d

theorem Prog.exec_run (faulty : Prop) (c : Prog π α) (fates : List Fate) (d : Disk π)
    (h : faulty ∨ ∀ fate ∈ fates, fate = .done) :
    Exec faulty c d (c.run fates d).1 (c.run fates d).2 := by
  induction c generalizing fates d with
  | ret a =>
    unfold Prog.run
    exact .ret a d
  | look next ih =>
    unfold Prog.run
    exact .look (ih d fates d h)
  | read p next ih =>
    unfold Prog.run
    exact .read (ih _ fates d h)
  | op o next ih =>
    cases fates with
    | nil =>
      unfold Prog.run
      exact .killed _ d
    | cons fate fates =>
      have htail : faulty ∨ ∀ fate ∈ fates, fate = .done :=
        h.imp id fun h fate hf => h fate (List.mem_cons_of_mem _ hf)
      have hfaulty : fate ≠ .done → faulty := fun hne =>
        h.resolve_right fun h => hne (h fate List.mem_cons_self)
      cases fate with
      | done =>
        cases ho : o.apply d with
        | none =>
          simp only [Prog.run, ho]
          exact .refused (Or.inl ho) (ih false fates d htail)
        | some d' =>
          simp only [Prog.run, ho]
          exact .done ho (ih true fates d' htail)
      | fails =>
        simp only [Prog.run]
        exact .refused (Or.inr (hfaulty (by simp))) (ih false fates d htail)
      | short n =>
        have hf : faulty := hfaulty (by simp)
        cases o with
        | write p data =>
          cases ho : (Op.write p (data.take n)).apply d with
          | none =>
            simp only [Prog.run, ho]
            exact .refused (Or.inr hf) (ih false fates d htail)
          | some d' =>
            simp only [Prog.run, ho]
            exact .short n hf ho (ih false fates d' htail)
        | _ =>
          simp only [Prog.run]
          exact .refused (Or.inr hf) (ih false fates d htail)

/-! Programs one after another on one disk. -/

namespace Disk

variable {γ : Type}

inductive Happened (γ π α : Type) where
  | ran (cmd : γ) (before : Disk π) (result : Option α)
  | lostPower

/-- The commands that were begun. -/
def Happened.cmd : Happened γ π α → Option γ
  | .ran cmd _ _ => some cmd
  | .lostPower => none

variable (faulty lossy : Prop) (prog : γ → Prog π α) (d₀ : Disk π)

/-- The disk has been this one, or may have been in the course of a command. -/
def Visited (es : List (Happened γ π α)) (m : Disk π) : Prop :=
  m = d₀ ∨ ∃ cmd d r, .ran cmd d r ∈ es ∧ Exec faulty (prog cmd) d none m

/-- Commands that return or are killed, and losses of power where there are any. Changes of a
directory reach the medium when they do, so that each path may fall back to what it was. -/
inductive History : List (Happened γ π α) → Disk π → Prop
  | nil : History [] d₀
  | ran {es : List (Happened γ π α)} {cmd : γ} {d e : Disk π} {r : Option α} :
      History es d → Exec faulty (prog cmd) d r e → History (es ++ [.ran cmd d r]) e
  | lostPower {es : List (Happened γ π α)} {d e : Disk π} :
      lossy → History es d →
      (∀ q, ∃ m, Visited faulty prog d₀ es m ∧ Survives (m q) (e q)) →
      History (es ++ [.lostPower]) e

variable {faulty lossy prog d₀}

/-- What holds at first, and of one path of a disk, is kept by every command wherever it is
killed and by a loss of power. It may be about the commands so far. -/
theorem History.invariant {J : List γ → Disk π → Prop} (h0 : J [] d₀)
    (hmono : ∀ cmds cmd d, J cmds d → J (cmds ++ [cmd]) d)
    (hstep : ∀ cmds cmd d, J cmds d →
      Safe faulty (J (cmds ++ [cmd])) (prog cmd) d fun _ => J (cmds ++ [cmd]))
    (hlost : lossy → ∀ cmds e, (∀ q, ∃ m, J cmds m ∧ Survives (m q) (e q)) → J cmds e)
    {es : List (Happened γ π α)} {d : Disk π} (h : History faulty lossy prog d₀ es d) :
    J (es.filterMap Happened.cmd) d ∧
      ∀ m, Visited faulty prog d₀ es m → J (es.filterMap Happened.cmd) m := by
  induction h with
  | nil =>
    refine ⟨h0, fun m hm => ?_⟩
    rcases hm with rfl | ⟨cmd, d, r, hmem, -⟩
    · exact h0
    · cases hmem
  | @ran es cmd d e r hh he ih =>
    obtain ⟨hd, hv⟩ := ih
    rw [List.filterMap_append]
    refine ⟨(hstep _ cmd d hd r e he).1, fun m hm => ?_⟩
    rcases hm with rfl | ⟨cmd', d', r', hmem, hm⟩
    · exact hmono _ cmd _ (hv _ (Or.inl rfl))
    · rcases List.mem_append.1 hmem with hmem | hmem
      · exact hmono _ cmd _ (hv m (Or.inr ⟨cmd', d', r', hmem, hm⟩))
      · cases List.mem_singleton.1 hmem
        exact (hstep _ cmd d hd none m hm).1
  | @lostPower es d e hl hh hlost' ih =>
    obtain ⟨hd, hv⟩ := ih
    have hcmds : (es ++ [Happened.lostPower]).filterMap Happened.cmd =
        es.filterMap Happened.cmd := by
      rw [List.filterMap_append]
      exact List.append_nil _
    rw [hcmds]
    refine ⟨hlost hl _ e fun q => ?_, fun m hm => ?_⟩
    · obtain ⟨m, hm, hs⟩ := hlost' q
      exact ⟨m, hv m hm, hs⟩
    · rcases hm with rfl | ⟨cmd', d', r', hmem, hm⟩
      · exact hv _ (Or.inl rfl)
      · rcases List.mem_append.1 hmem with hmem | hmem
        · exact hv m (Or.inr ⟨cmd', d', r', hmem, hm⟩)
        · cases List.mem_singleton.1 hmem

end Disk

end Lib
