import Mathlib.Data.List.Infix

/-! File paths as lists of components. -/

namespace Lib

inductive Component where
  /-- A drive or share; one that is not a drive is rooted by itself. -/
  | drive (text : List Char) (rooted : Bool)
  | rootDir
  | curDir
  | parentDir
  | normal (name : List Char)
deriving DecidableEq

namespace Component

def text : Component → List Char
  | drive t _ => t
  | rootDir => ['/']
  | curDir => ['.']
  | parentDir => ['.', '.']
  | normal name => name

end Component

structure Path where
  components : List Component
deriving DecidableEq

namespace Path

/-- The components of a text with `/` between them; empty ones and `.` do not count, but for
a `.` at the beginning. -/
def parse (t : List Char) : Path :=
  let pieces := t.splitOn '/'
  let first :=
    if t.head? = some '/' then [.rootDir] else if pieces.head? = some ['.'] then [.curDir] else []
  ⟨first ++ pieces.filterMap fun piece =>
    if piece = [] ∨ piece = ['.'] then none
    else if piece = ['.', '.'] then some .parentDir
    else some (.normal piece)⟩

/-- The name at the end, if there is a name. -/
def fileName (p : Path) : Option (List Char) :=
  match p.components.getLast? with
  | some (.normal name) => some name
  | _ => none

def parent (p : Path) : Option Path :=
  match p.components.getLast? with
  | some (.normal _) => some ⟨p.components.dropLast⟩
  | some .curDir => some ⟨p.components.dropLast⟩
  | some .parentDir => some ⟨p.components.dropLast⟩
  | _ => none

def join (p : Path) (name : List Char) : Path := ⟨p.components ++ [.normal name]⟩

def startsWith (p q : Path) : Bool := q.components.isPrefixOf p.components

@[simp] theorem fileName_join (p : Path) (name : List Char) :
    (p.join name).fileName = some name := by
  simp [fileName, join]

@[simp] theorem parent_join (p : Path) (name : List Char) : (p.join name).parent = some p := by
  simp [parent, join]

theorem fileName_eq_some_iff {p : Path} {name : List Char} :
    p.fileName = some name ↔ p.components.getLast? = some (.normal name) := by
  unfold fileName
  cases p.components.getLast? with
  | none => simp
  | some c => cases c <;> simp

/-- A path with a name is its directory and the name. -/
theorem eq_append_of_fileName {p : Path} {name : List Char} (h : p.fileName = some name) :
    ∃ dir, p.components = dir ++ [.normal name] :=
  ⟨p.components.dropLast, (List.dropLast_append_getLast? _ (fileName_eq_some_iff.1 h)).symm⟩

theorem length_parent {p dir : Path} (h : p.parent = some dir) :
    dir.components.length < p.components.length := by
  have hdrop : p.components ≠ [] → p.components.dropLast.length < p.components.length := by
    intro hne
    rw [List.length_dropLast]
    have := List.length_pos_iff.2 hne
    omega
  have hne : p.components ≠ [] := by
    intro hnil
    simp [parent, hnil] at h
  unfold parent at h
  split at h <;> cases h <;> exact hdrop hne

/-- What one piece of a text adds to a path. -/
def ofPiece (piece : List Char) : Option Component :=
  if piece = [] ∨ piece = ['.'] then none
  else if piece = ['.', '.'] then some .parentDir
  else some (.normal piece)

/-- A text without a separator goes to the last piece. -/
theorem splitOn_append {s : List Char} (hs : '/' ∉ s) (t : List Char) :
    ∃ front last, t.splitOn '/' = front ++ [last] ∧ (t ++ s).splitOn '/' = front ++ [last ++ s] := by
  induction t with
  | nil =>
    refine ⟨[], [], rfl, ?_⟩
    refine List.splitOnP_eq_singleton fun c hc => ?_
    simp only [beq_eq_false_iff_ne, ne_eq]
    rintro rfl
    exact hs hc
  | cons c t ih =>
    obtain ⟨front, last, h1, h2⟩ := ih
    unfold List.splitOn at h1 h2 ⊢
    simp only [List.cons_append, List.splitOnP_cons_eq_if_modifyHead, h1, h2]
    by_cases hc : (c == '/') = true
    · exact ⟨[] :: front, last, by simp [hc], by simp [hc]⟩
    · cases front with
      | nil => exact ⟨[], c :: last, by simp [hc], by simp [hc]⟩
      | cons piece front => exact ⟨(c :: piece) :: front, last, by simp [hc], by simp [hc]⟩

/-- A longer last piece is a name, whatever the piece was. -/
theorem ofPiece_append {s : List Char} (hlen : 2 < s.length) (piece : List Char) :
    ofPiece (piece ++ s) = some (.normal (piece ++ s)) := by
  have hne : ∀ short : List Char, short.length ≤ 2 → piece ++ s ≠ short := by
    rintro short hshort rfl
    rw [List.length_append] at hshort
    omega
  unfold ofPiece
  rw [if_neg (not_or.2 ⟨hne [] (by simp), hne ['.'] (by simp)⟩), if_neg (hne ['.', '.'] (by simp))]

theorem ofPiece_ne_append {s : List Char} (hlen : 2 < s.length) (piece : List Char) :
    (ofPiece piece).toList ≠ [.normal (piece ++ s)] := by
  unfold ofPiece
  split_ifs with h1 h2
  · simp
  · simp
  · intro h
    simp only [Option.toList_some, List.cons.injEq, Component.normal.injEq, and_true] at h
    have := congrArg List.length h
    rw [List.length_append] at this
    omega

/-- A file beside another: the name of one is the other's with something behind it. -/
theorem parse_append {s : List Char} (hs : '/' ∉ s) (hlen : 2 < s.length) (t : List Char) :
    parse (t ++ s) ≠ parse t ∧
      (parse t).components.length ≤ (parse (t ++ s)).components.length := by
  obtain ⟨front, last, h1, h2⟩ := splitOn_append hs t
  have hroot : ((t ++ s).head? = some '/') = (t.head? = some '/') := by
    cases t with
    | nil =>
      cases s with
      | nil => rfl
      | cons c s =>
        have hc : c ≠ '/' := fun hc => hs (hc ▸ List.mem_cons_self)
        simp [hc]
    | cons c t => rfl
  -- both paths begin alike, and then comes the last piece
  have hends : ∀ lead : List Component,
      lead ++ [Component.normal (last ++ s)] ≠ lead ++ (ofPiece last).toList ∧
        (lead ++ (ofPiece last).toList).length ≤
          (lead ++ [Component.normal (last ++ s)]).length := by
    intro lead
    refine ⟨fun h => ofPiece_ne_append hlen last (List.append_cancel_left h).symm, ?_⟩
    cases ofPiece last <;> simp
  have hparse : ∀ u, (parse u).components =
      (if u.head? = some '/' then [.rootDir]
        else if (u.splitOn '/').head? = some ['.'] then [.curDir] else []) ++
        (u.splitOn '/').filterMap ofPiece := fun u => rfl
  have hlast : [last].filterMap ofPiece = (ofPiece last).toList := by
    cases h : ofPiece last <;> simp [h]
  have hlast' : [last ++ s].filterMap ofPiece = [Component.normal (last ++ s)] := by
    simp [ofPiece_append hlen]
  refine (?_ : (parse (t ++ s)).components ≠ (parse t).components ∧ _).imp
    (fun h he => h (congrArg Path.components he)) id
  rw [hparse, hparse, h1, h2]
  simp only [hroot, List.filterMap_append, hlast, hlast', ← List.append_assoc]
  by_cases hr : t.head? = some '/'
  · simp only [hr, if_true]
    exact hends _
  · simp only [hr, if_false]
    cases front with
    | cons piece front => exact hends _
    | nil =>
      have hdot : last ++ s ≠ ['.'] := by
        intro h
        have := congrArg List.length h
        rw [List.length_append] at this
        simp at this
        omega
      by_cases hl : last = ['.']
      · subst hl
        have hs' : s ≠ [] := List.ne_nil_of_length_pos (by omega)
        simp [ofPiece, hs']
      · simpa [hl, hdot] using hends []

end Path

end Lib
