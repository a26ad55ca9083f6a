import Mathlib.Data.List.Nodup

/-! JSON objects as lists of members, and readers for their optional members. -/

namespace Lib

/-- A JSON value. `other` is what no reader takes: a number that is not a natural one, or an
object. -/
inductive Json where
  | null
  | bool (b : Bool)
  | number (n : ℕ)
  | text (s : List Char)
  | array (items : List Json)
  | other

/-! Lists in which every item is read. -/

section

variable {α β : Type} {f : α → Option β} {as : List α} {bs : List β}

theorem mapM_eq_some_iff : as.mapM f = some bs ↔ as.map f = bs.map some := by
  induction as generalizing bs with
  | nil => cases bs <;> simp
  | cons a as ih =>
    cases bs with
    | nil =>
      rw [List.mapM_cons]
      cases f a <;> cases as.mapM f <;> simp
    | cons b bs =>
      rw [List.mapM_cons, List.map_cons, List.map_cons, List.cons.injEq, ← ih]
      cases f a <;> cases as.mapM f <;> simp

theorem exists_mapM_iff : (∃ bs, as.mapM f = some bs) ↔ ∀ a ∈ as, (f a).isSome := by
  induction as with
  | nil => simp
  | cons a as ih =>
    rw [List.mapM_cons, List.forall_mem_cons, ← ih]
    cases f a <;> cases as.mapM f <;> simp

end

namespace Json

variable {α : Type}

abbrev Object := List (String × Json)

def asBool : Json → Option Bool
  | .bool b => some b
  | _ => none

def asText : Json → Option (List Char)
  | .text s => some s
  | _ => none

def asU16 : Json → Option UInt16
  | .number n => if n < UInt16.size then some (UInt16.ofNat n) else none
  | _ => none

def asU64 : Json → Option UInt64
  | .number n => if n < UInt64.size then some (UInt64.ofNat n) else none
  | _ => none

def ofU16 (n : UInt16) : Json := .number n.toNat

def ofU64 (n : UInt64) : Json := .number n.toNat

def texts (ts : List (List Char)) : Json := .array (ts.map .text)

/-- A text that `parse` reads. -/
def asParsed (parse : List Char → Option α) : Json → Option α
  | .text s => parse s
  | _ => none

def asArray (read : Json → Option α) : Json → Option (List α)
  | .array items => items.mapM read
  | _ => none

@[simp] theorem asU16_ofU16 (n : UInt16) : asU16 (ofU16 n) = some n := by
  rw [ofU16, asU16, if_pos n.toNat_lt_size, UInt16.ofNat_toNat]

@[simp] theorem asU64_ofU64 (n : UInt64) : asU64 (ofU64 n) = some n := by
  rw [ofU64, asU64, if_pos n.toNat_lt_size, UInt64.ofNat_toNat]

theorem asArray_texts (parse : List Char → Option α) (ts : List (List Char)) :
    asArray (asParsed parse) (texts ts) = ts.mapM parse := by
  rw [texts, asArray, List.mapM_map]
  rfl

theorem asArray_asText (ts : List (List Char)) : asArray asText (texts ts) = some ts := by
  rw [texts, asArray, List.mapM_map, mapM_eq_some_iff]
  rfl

namespace Object

/-- An optional member, absent also as `null`. -/
def field (obj : Object) (key : String) (read : Json → Option α) : Option (Option α) :=
  match obj.lookup key with
  | none => some none
  | some .null => some none
  | some v => (read v).map some

/-- No member twice, and no unknown one. -/
def OnlyFields (obj : Object) (known : List String) : Prop :=
  (obj.map Prod.fst).Nodup ∧ ∀ key ∈ obj.map Prod.fst, key ∈ known

instance (obj : Object) (known : List String) : Decidable (obj.OnlyFields known) :=
  inferInstanceAs (Decidable (_ ∧ _))

/-- The object of the members that are there. -/
def ofMembers (members : List (String × Option Json)) : Object :=
  members.filterMap fun m => m.2.map fun v => (m.1, v)

variable {members : List (String × Option Json)} {key : String}

theorem keys_ofMembers_sublist :
    ((ofMembers members).map Prod.fst).Sublist (members.map Prod.fst) := by
  induction members with
  | nil => exact .slnil
  | cons m members ih =>
    obtain ⟨k, o⟩ := m
    cases o with
    | none => exact ih.cons k
    | some v => exact ih.cons_cons k

theorem onlyFields_ofMembers (h : (members.map Prod.fst).Nodup) :
    (ofMembers members).OnlyFields (members.map Prod.fst) :=
  ⟨keys_ofMembers_sublist.nodup h, keys_ofMembers_sublist.subset⟩

theorem lookup_ofMembers (h : (members.map Prod.fst).Nodup) :
    (ofMembers members).lookup key = (members.lookup key).join := by
  induction members with
  | nil => rfl
  | cons m members ih =>
    obtain ⟨k, o⟩ := m
    obtain ⟨hk, hrest⟩ := List.nodup_cons.1 h
    have hcons : ofMembers ((k, o) :: members) =
        (o.map fun v => (k, v)).toList ++ ofMembers members := by
      cases o <;> rfl
    rw [hcons]
    by_cases heq : key = k
    · subst heq
      rw [List.lookup_cons_self]
      cases o with
      | some v => simp
      | none =>
        -- the key does not come again
        apply List.lookup_eq_none_iff.2
        intro p hp
        rw [bne_iff_ne]
        rintro rfl
        exact hk (keys_ofMembers_sublist.subset (List.mem_map_of_mem hp))
    · rw [List.lookup_cons, beq_eq_false_iff_ne.2 heq]
      cases o with
      | some v => simpa [List.lookup_cons, beq_eq_false_iff_ne.2 heq] using ih hrest
      | none => simpa using ih hrest

/-- A member of a written object is read as it was written. -/
theorem field_ofMembers (h : (members.map Prod.fst).Nodup) {o : Option Json}
    (hkey : members.lookup key = some o) (hnull : o ≠ some .null) (read : Json → Option α) :
    (ofMembers members).field key read = o.mapM read := by
  rw [field, lookup_ofMembers h, hkey, Option.join_some]
  cases o with
  | none => rfl
  | some v =>
    cases v with
    | null => exact absurd rfl hnull
    | _ => rfl

/-- A member of a kind that every written value of it is read back. -/
theorem field_ofMembers_some (h : (members.map Prod.fst).Nodup) {o : Option α} {write : α → Json}
    {read : Json → Option α} (hkey : members.lookup key = some (o.map write))
    (hread : ∀ a, read (write a) = some a) (hnull : read .null = none) :
    (ofMembers members).field key read = some o := by
  have hne : o.map write ≠ some .null := by
    intro heq
    obtain ⟨a, -, ha⟩ := Option.map_eq_some_iff.1 heq
    have := hread a
    rw [ha, hnull] at this
    cases this
  rw [field_ofMembers h hkey hne]
  cases o with
  | none => rfl
  | some a => rw [Option.map_some, Option.mapM_some, hread]; rfl

end Object

end Json

end Lib
