import Mathlib.Algebra.Group.Nat.Defs
import Mathlib.Data.List.Induction

/-! Byte formats. A reader takes a value off the front of its input, and `Reads` says
exactly which words it takes and what they mean. From such laws, one for each field, a
parser written as a chain of readers is read off as a grammar: what it accepts, and what
every accepted input means. -/

namespace Lib

abbrev Bytes := List UInt8

/-! Big-endian words. -/

/-- The number that the bytes spell, most significant first. -/
def ofBE (w : Bytes) : Nat := w.foldl (fun acc b => acc * 256 + b.toNat) 0

/-- The low `n` bytes of a number, most significant first. -/
def toBE : Nat → Nat → Bytes
  | 0, _ => []
  | n + 1, v => toBE n (v / 256) ++ [UInt8.ofNat v]

@[simp] theorem length_toBE (n v : Nat) : (toBE n v).length = n := by
  induction n generalizing v with
  | zero => rfl
  | succ n ih => simp [toBE, ih]

theorem ofBE_append_singleton (w : Bytes) (b : UInt8) : ofBE (w ++ [b]) = ofBE w * 256 + b.toNat := by
  simp [ofBE]

theorem ofBE_toBE {n v : Nat} (h : v < 256 ^ n) : ofBE (toBE n v) = v := by
  induction n generalizing v with
  | zero =>
    have hv : v = 0 := by simpa using h
    subst hv
    rfl
  | succ n ih =>
    have hdiv : v / 256 < 256 ^ n := by
      rw [Nat.div_lt_iff_lt_mul (by omega), ← Nat.pow_succ]
      exact h
    rw [toBE, ofBE_append_singleton, ih hdiv, UInt8.toNat_ofNat']
    omega

theorem ofBE_lt (w : Bytes) : ofBE w < 256 ^ w.length := by
  induction w using List.reverseRecOn with
  | nil => decide
  | append_singleton w b ih =>
    have hb := b.toNat_lt
    rw [ofBE_append_singleton, List.length_append, List.length_singleton, Nat.pow_succ]
    omega

theorem toBE_ofBE (w : Bytes) : toBE w.length (ofBE w) = w := by
  induction w using List.reverseRecOn with
  | nil => rfl
  | append_singleton w b ih =>
    have hb := b.toNat_lt
    rw [ofBE_append_singleton, List.length_append, List.length_singleton, toBE]
    have hdiv : (ofBE w * 256 + b.toNat) / 256 = ofBE w := by omega
    have hmod : UInt8.ofNat (ofBE w * 256 + b.toNat) = b := by
      apply UInt8.toNat_inj.1
      rw [UInt8.toNat_ofNat']
      omega
    rw [hdiv, hmod, ih]

/-- Words of the right length and machine words correspond. -/
theorem eq_toBE_iff {n k : Nat} (hk : 256 ^ n = 2 ^ k) {w : Bytes} {a : BitVec k} :
    w = toBE n a.toNat ↔ w.length = n ∧ BitVec.ofNat k (ofBE w) = a := by
  constructor
  · rintro rfl
    have hlt : a.toNat < 256 ^ n := hk ▸ a.isLt
    rw [ofBE_toBE hlt]
    exact ⟨length_toBE _ _, by simp⟩
  · rintro ⟨rfl, rfl⟩
    have hlt : ofBE w < 2 ^ k := hk ▸ ofBE_lt w
    rw [BitVec.toNat_ofNat, Nat.mod_eq_of_lt hlt, toBE_ofBE]

/-! Readers. -/

variable {α β : Type}

abbrev Reader (α : Type) := Bytes → Option (α × Bytes)

/-- `r` takes exactly the words of `L` off the front of its input, each with a meaning
that `L` gives it. -/
def Reads (r : Reader α) (L : Bytes → α → Prop) : Prop :=
  ∀ buf a rest, r buf = some (a, rest) ↔ ∃ w, L w a ∧ buf = w ++ rest

/-- What follows a reader runs on what the reader left. -/
theorem Reads.bind_eq_some {r : Reader α} {L : Bytes → α → Prop} (h : Reads r L) {buf : Bytes}
    {k : α × Bytes → Option β} {b : β} :
    (r buf >>= k) = some b ↔ ∃ w a rest, L w a ∧ buf = w ++ rest ∧ k (a, rest) = some b := by
  constructor
  · intro hb
    obtain ⟨⟨a, rest⟩, hr, hk⟩ := Option.bind_eq_some_iff.1 hb
    obtain ⟨w, hw, hbuf⟩ := (h buf a rest).1 hr
    exact ⟨w, a, rest, hw, hbuf, hk⟩
  · rintro ⟨w, a, rest, hw, hbuf, hk⟩
    have hr := (h buf a rest).2 ⟨w, hw, hbuf⟩
    rw [hr]
    exact hk

/-- Words one after another, with the list of their meanings. -/
inductive Words (L : Bytes → α → Prop) : Bytes → List α → Prop
  | nil : Words L [] []
  | cons {w ws : Bytes} {a : α} {as : List α} : L w a → Words L ws as → Words L (w ++ ws) (a :: as)

/-- Read `n` values that fill the input. -/
def readAll (r : Reader α) : Bytes → Nat → Option (List α)
  | buf, 0 => if buf.isEmpty then some [] else none
  | buf, n + 1 => do
    let (a, buf) ← r buf
    let as ← readAll r buf n
    some (a :: as)

theorem Reads.readAll_eq_some {r : Reader α} {L : Bytes → α → Prop} (h : Reads r L) {n : Nat}
    {buf : Bytes} {as : List α} :
    readAll r buf n = some as ↔ as.length = n ∧ Words L buf as := by
  induction n generalizing buf as with
  | zero =>
    constructor
    · intro hr
      have hboth : buf = [] ∧ [] = as := by simpa [readAll] using hr
      obtain ⟨rfl, rfl⟩ := hboth
      exact ⟨rfl, Words.nil⟩
    · rintro ⟨hlen, hw⟩
      obtain rfl : as = [] := List.length_eq_zero_iff.1 hlen
      cases hw
      rfl
  | succ n ih =>
    constructor
    · intro hr
      obtain ⟨w, a, rest, hw, rfl, hk⟩ := h.bind_eq_some.1 hr
      obtain ⟨as', hall, hcons⟩ := Option.bind_eq_some_iff.1 hk
      obtain ⟨hlen, hws⟩ := ih.1 hall
      cases hcons
      exact ⟨by simp [hlen], Words.cons hw hws⟩
    · rintro ⟨hlen, hw⟩
      cases hw with
      | nil => cases hlen
      | cons hw hws =>
        apply h.bind_eq_some.2
        refine ⟨_, _, _, hw, rfl, ?_⟩
        have hall := ih.2 ⟨by simpa using hlen, hws⟩
        dsimp only
        rw [hall]
        rfl

theorem Words.map {L : Bytes → α → Prop} (f : β → Bytes) (g : β → α) (h : ∀ b, L (f b) (g b))
    (bs : List β) : Words L (bs.flatMap f) (bs.map g) := by
  induction bs with
  | nil => exact Words.nil
  | cons b bs ih => exact Words.cons (h b) ih

/-- Words are never shorter than the shortest, unless there are none. -/
theorem Words.le_length {L : Bytes → α → Prop} {k : Nat} (hk : ∀ w a, L w a → k ≤ w.length)
    {buf : Bytes} {as : List α} (h : Words L buf as) : buf = [] ∨ k ≤ buf.length := by
  induction h with
  | nil => exact Or.inl rfl
  | cons hw _ _ =>
    have hle := hk _ _ hw
    right
    rw [List.length_append]
    omega

end Lib
