import ShadowVpn.Lib.Lossy
import ShadowVpn.Lib.Run
import ShadowVpn.Sanity.NodeText
import ShadowVpn.Spec.Policy

/-! The names that go through the tunnel: what a line stands for, which suffixes a list of lines
has, and which parents of a name the loop over its bytes comes to. -/

namespace ShadowVpn

open Lib

namespace GfwList

/-! Lines. -/

/-- The suffix of a line: what is between the stars and dots of its front and the dots of its end,
in lower case. -/
structure Normalised (line s : Text) : Prop where
  uncommented : (trim line).head? ≠ some '#' ∧ (trim line).head? ≠ some '!'
  nonempty : s ≠ []
  parts : ∃ stars rest dots name ends,
    trim line = (List.replicate stars ['*', '.']).flatten ++ rest ∧ ¬ ['*', '.'] <+: rest ∧
      rest = List.replicate dots '.' ++ (name ++ List.replicate ends '.') ∧
      name.head? ≠ some '.' ∧ name.getLast? ≠ some '.' ∧ s = name.map Char.toLower

theorem trimStars_eq_iff {s rest : Text} : trimStars s = rest ↔
    ∃ n, s = (List.replicate n ['*', '.']).flatten ++ rest ∧ ¬ ['*', '.'] <+: rest := by
  constructor
  · rintro rfl
    fun_induction trimStars s with
    | case1 s ih =>
      obtain ⟨n, hs, hrest⟩ := ih
      refine ⟨n + 1, ?_, hrest⟩
      rw [List.replicate_succ, List.flatten_cons, List.append_assoc, ← hs]
      rfl
    | case2 s hs =>
      refine ⟨0, rfl, ?_⟩
      rintro ⟨t, rfl⟩
      exact hs t rfl
  · rintro ⟨n, rfl, hrest⟩
    induction n with
    | zero =>
      rw [List.replicate_zero, List.flatten_nil, List.nil_append]
      fun_cases trimStars rest with
      | case1 s => exact absurd ⟨s, rfl⟩ hrest
      | case2 => rfl
    | succ n ih => rw [List.replicate_succ, List.flatten_cons, List.append_assoc]; exact ih

theorem normalize_eq_some {line s : Text} : normalize line = some s ↔ Normalised line s := by
  have hname : ∀ {name : Text}, s = name.map Char.toLower → (name ≠ [] ↔ s ≠ []) := by
    rintro name rfl
    simp
  constructor
  · intro h
    simp only [normalize] at h
    split_ifs at h with hcomment hempty
    obtain rfl := Option.some.inj h
    simp only [Bool.or_eq_true, beq_iff_eq, not_or, List.isEmpty_iff] at hcomment hempty
    obtain ⟨stars, hline, hrest⟩ := trimStars_eq_iff.1 (rfl : trimStars (trim line) = _)
    obtain ⟨dots, ends, hparts, hhead, hlast⟩ :=
      (trimEnd_trimStart_eq_iff ((hname rfl).2 hempty)).1 rfl
    exact ⟨⟨hcomment.1.2, hcomment.2⟩, hempty, stars, _, dots, _, ends, hline, hrest, hparts,
      hhead, hlast, rfl⟩
  · rintro ⟨⟨hhash, hbang⟩, hs, stars, rest, dots, name, ends, hline, hrest, hparts, hhead, hlast,
      hlower⟩
    have hne := (hname hlower).2 hs
    have hstars : trimStars (trim line) = rest := trimStars_eq_iff.2 ⟨stars, hline, hrest⟩
    have htrim : trimEndDots (trimStart '.' rest) = name :=
      (trimEnd_trimStart_eq_iff hne).2 ⟨dots, ends, hparts, hhead, hlast⟩
    have hfull : trim line ≠ [] := by
      rw [hline, hparts]
      simp [hne]
    simp only [normalize, hstars, htrim, ← hlower]
    rw [if_neg (by simp [hfull, hhash, hbang]), if_neg (by simpa using hs)]

/-- A set that only grows: what is in it came from a line. -/
theorem isSome_fromLines {lines : List Text} {s : Text} :
    ((fromLines lines).suffixes.get s).isSome = true ↔ ∃ line ∈ lines, Normalised line s := by
  have hloop := foldl_or_iff (f := fun (m : HashSet Text) line => m.insertOpt (normalize line) ())
    (p := fun m => (m.get s).isSome = true) (q := fun _ line => normalize line = some s)
    (fun m line => by
      rw [HashMap.get_insertOpt]
      split_ifs with h <;> simp [h])
    (fun _ _ _ => Iff.rfl) lines ∅
  simpa [fromLines, normalize_eq_some] using hloop

/-! Parents. -/

theorem mem_afterDots {s parent : Text} : parent ∈ afterDots s ↔ ('.' :: parent) <:+ s := by
  induction s with
  | nil => simp [afterDots]
  | cons c s ih =>
    rw [afterDots, List.suffix_cons_iff]
    split_ifs with hc
    · rw [List.mem_cons, ih, hc, List.cons.injEq]
      simp
    · rw [ih, List.cons.injEq]
      have hne : ¬ '.' = c := fun h => hc h.symm
      simp [hne]

theorem dot_not_mem_utf8EncodeChar {c : Char} (hc : c ≠ '.') : 0x2E ∉ String.utf8EncodeChar c := by
  rcases Nat.lt_or_ge c.toNat 128 with hascii | hother
  · revert hc
    refine Utf8.forall_ascii ?_ c hascii
    decide +kernel
  · intro hmem
    have hle := Utf8.le_toNat_of_mem hother hmem
    exact absurd hle (by decide)

theorem parentLoop_skip (l : GfwList) (domain : Text) {skipped : Bytes} (h : 0x2E ∉ skipped)
    (i : ℕ) (bytes : Bytes) : Checked.parentLoop l domain i (skipped ++ bytes) =
      Checked.parentLoop l domain (i + skipped.length) bytes := by
  induction skipped generalizing i with
  | nil => rfl
  | cons b skipped ih =>
    have hb : b ≠ 0x2E := fun hb => h (hb ▸ List.mem_cons_self)
    rw [List.cons_append, Checked.parentLoop, if_neg hb, ih fun hmem => h (List.mem_cons_of_mem b hmem),
      List.length_cons]
    congr 1
    omega

theorem splitBytes_append (front s : Text) :
    splitBytes (byteLen front) (front ++ s) = some (front, s) := by
  induction front with
  | nil => cases s <;> rfl
  | cons c front ih =>
    have hpos := c.utf8Size_pos
    obtain ⟨n, hn⟩ : ∃ n, byteLen (c :: front) = n + 1 :=
      ⟨byteLen (c :: front) - 1, by rw [byteLen_cons]; omega⟩
    rw [hn, List.cons_append, splitBytes, ← hn, byteLen_cons, if_pos (by omega),
      Nat.add_sub_cancel_left, ih]
    rfl

/-- A slice that starts after whole characters is what follows them. -/
theorem slice_append (front s : Text) :
    slice (front ++ s) (byteLen front) (byteLen (front ++ s)) = .ok s := by
  have hall := splitBytes_append s []
  rw [List.append_nil] at hall
  simp only [slice, splitBytes_append, byteLen_append, Nat.add_sub_cancel_left, hall]

/-- A byte is that of a dot only if the character is a dot, so that no slice cuts a character. -/
theorem parentLoop_eq (l : GfwList) (front s : Text) :
    Checked.parentLoop l (front ++ s) (byteLen front) (Utf8.encode s) =
      .ok ((afterDots s).any fun parent => (l.suffixes.get parent).isSome) := by
  induction s generalizing front with
  | nil => rfl
  | cons c s ih =>
    have hnext := ih (front ++ [c])
    have hlen : byteLen (front ++ [c]) = byteLen front + c.utf8Size := by
      rw [byteLen_append, byteLen_cons]
      rfl
    have happend : front ++ [c] ++ s = front ++ c :: s := List.append_cons .. |>.symm
    rw [happend, hlen] at hnext
    rw [Utf8.encode_cons, afterDots]
    split_ifs with hc
    · subst hc
      have hslice := slice_append (front ++ ['.']) s
      rw [happend, hlen] at hslice
      have hbytes : String.utf8EncodeChar '.' ++ Utf8.encode s = 0x2E :: Utf8.encode s := rfl
      have hone : '.'.utf8Size = 1 := rfl
      rw [hone] at hslice hnext
      rw [hbytes, Checked.parentLoop, if_pos rfl, hslice, List.any_cons]
      dsimp only
      split_ifs with hin
      · rw [hin, Bool.true_or]
      · rw [hnext, Bool.eq_false_iff.2 hin, Bool.false_or]
    · rw [parentLoop_skip l _ (dot_not_mem_utf8EncodeChar hc), String.length_utf8EncodeChar, hnext]

theorem checked_matchesDomain (l : GfwList) (domain : Text) :
    Checked.matchesDomain l domain = .ok (l.matchesDomain domain) := by
  have hloop := parentLoop_eq l [] ((trimEndDots domain).map Char.toLower)
  unfold Checked.matchesDomain matchesDomain
  dsimp only
  split_ifs
  · rfl
  · rfl
  · exact hloop

theorem matchesDomain_iff {l : GfwList} {domain d : Text}
    (hd : d = (trimEndDots domain).map Char.toLower) : l.matchesDomain domain = true ↔
      d ≠ [] ∧ ∃ s, (l.suffixes.get s).isSome = true ∧ (d = s ∨ ('.' :: s) <:+ d) := by
  unfold matchesDomain
  dsimp only
  rw [← hd]
  split_ifs with hempty hfull
  · simp_all
  · simp only [true_iff]
    exact ⟨by simpa using hempty, d, hfull, .inl rfl⟩
  · rw [List.any_eq_true]
    constructor
    · rintro ⟨s, hs, hin⟩
      exact ⟨by simpa using hempty, s, hin, .inr (mem_afterDots.1 hs)⟩
    · rintro ⟨-, s, hin, rfl | hs⟩
      · exact absurd hin hfull
      · exact ⟨s, mem_afterDots.2 hs, hin⟩

theorem toLower_eq_dot (c : Char) : c.toLower = '.' ↔ c = '.' := by
  rcases Nat.lt_or_ge c.toNat 128 with hascii | hother
  · refine Utf8.forall_ascii ?_ c hascii
    decide +kernel
  · rw [Utf8.toLower_of_le hother]

/-- Lower case before the dots of the end are cut, or after. -/
theorem trimEndDots_map_toLower (domain : Text) :
    trimEndDots (domain.map Char.toLower) = (trimEndDots domain).map Char.toLower :=
  trimEnd_map toLower_eq_dot domain

end GfwList

end ShadowVpn
