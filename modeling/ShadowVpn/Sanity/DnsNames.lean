import ShadowVpn.Lib.Walk
import ShadowVpn.Sanity.Checked
import ShadowVpn.Sanity.Dns

/-! Names in a DNS message as walks over it. The budget of `read_name` cuts off the walks that
never stop and no others, and every index of the two loops is inside the message. -/

namespace ShadowVpn

open Lib

namespace Dns

variable {α : Type} {f : Bytes → α} {msg : Bytes} {pos : ℕ}

/-- What a name says at an offset: its end, a label to go past, or a pointer to follow. -/
def move (msg : Bytes) (pos : ℕ) : Move ℕ :=
  match msg[pos]? with
  | none => .fail
  | some len =>
    if len = 0 then .stop
    else if len ≤ 63 then
      if pos + 1 + len.toNat ≤ msg.length then .go (pos + 1 + len.toNat) else .fail
    else if 0xC0 ≤ len then
      match msg[pos + 1]? with
      | none => .fail
      | some low => .go ((len.toNat - 0xC0) * 256 + low.toNat)
    else .fail

/-! The two top bits of a length. -/

theorem tag_cases (len : UInt8) :
    (len &&& 0xC0 = 0 ∧ len ≤ 63) ∨
    (len &&& 0xC0 = 0xC0 ∧ ¬ len ≤ 63 ∧ 0xC0 ≤ len ∧ (len &&& 0x3F).toNat = len.toNat - 0xC0) ∨
    (len &&& 0xC0 ≠ 0 ∧ len &&& 0xC0 ≠ 0xC0 ∧ ¬ len ≤ 63 ∧ ¬ 0xC0 ≤ len) := by
  have hall : ∀ n : Fin 256,
      (UInt8.ofNat n &&& 0xC0 = 0 ∧ UInt8.ofNat n ≤ 63) ∨
      (UInt8.ofNat n &&& 0xC0 = 0xC0 ∧ ¬ UInt8.ofNat n ≤ 63 ∧ 0xC0 ≤ UInt8.ofNat n ∧
        (UInt8.ofNat n &&& 0x3F).toNat = (UInt8.ofNat n).toNat - 0xC0) ∨
      (UInt8.ofNat n &&& 0xC0 ≠ 0 ∧ UInt8.ofNat n &&& 0xC0 ≠ 0xC0 ∧ ¬ UInt8.ofNat n ≤ 63 ∧
        ¬ 0xC0 ≤ UInt8.ofNat n) := by
    decide +kernel
  have hlen := hall ⟨len.toNat, len.toNat_lt⟩
  rwa [UInt8.ofNat_toNat] at hlen

/-! One turn of the loop is one move. -/

theorem readLoop_root {budget after : ℕ} {jumped : Bool} {labels : List α} (h : msg[pos]? = some 0) :
    readLoop f msg (budget + 1) pos jumped after labels =
      some (labels, if jumped then after else pos + 1) := by
  rw [readLoop, h]
  rfl

theorem readLoop_label {budget after : ℕ} {jumped : Bool} {labels : List α} {len : UInt8}
    (h : msg[pos]? = some len) (hne : len ≠ 0) (hle : len ≤ 63)
    (hfit : pos + 1 + len.toNat ≤ msg.length) :
    readLoop f msg (budget + 1) pos jumped after labels =
      readLoop f msg budget (pos + 1 + len.toNat) jumped after
        (labels ++ [f ((msg.drop (pos + 1)).take len.toNat)]) := by
  have htag : len &&& 0xC0 = 0 := by
    obtain ⟨htag, -⟩ | ⟨-, hgt, -⟩ | ⟨-, -, hgt, -⟩ := tag_cases len
    · exact htag
    · exact absurd hle hgt
    · exact absurd hle hgt
  rw [readLoop, h]
  simp only [if_pos htag, if_neg hne, if_neg (Nat.not_lt.2 hfit)]

theorem lt_of_move (h : move msg pos ≠ .fail) : pos < msg.length := by
  by_contra hge
  have hnone : msg[pos]? = none := List.getElem?_eq_none (Nat.not_lt.1 hge)
  exact h (by rw [move, hnone])

theorem readLoop_outside {budget after : ℕ} {jumped : Bool} {labels : List α}
    (h : msg.length ≤ pos) : readLoop f msg budget pos jumped after labels = none := by
  cases budget with
  | zero => rfl
  | succ budget => rw [readLoop, List.getElem?_eq_none h]

/-- A turn ends the name, goes where the move says, or fails. -/
theorem readLoop_move (f : Bytes → α) (msg : Bytes) (pos : ℕ) (jumped : Bool) (after : ℕ)
    (labels : List α) :
    (move msg pos = .stop ∧ ∀ budget, readLoop f msg (budget + 1) pos jumped after labels =
      some (labels, if jumped then after else pos + 1)) ∨
    (move msg pos = .fail ∧ ∀ budget, readLoop f msg (budget + 1) pos jumped after labels = none) ∨
    (∃ next jumped' after' labels', move msg pos = .go next ∧
      ∀ budget, readLoop f msg (budget + 1) pos jumped after labels =
        readLoop f msg budget next jumped' after' labels') := by
  simp only [move, readLoop]
  cases msg[pos]? with
  | none => simp
  | some len =>
    dsimp only
    obtain ⟨htag, hle⟩ | ⟨htag, hle, hge, hval⟩ | ⟨h0, h3, hle, hge⟩ := tag_cases len
    · by_cases hend : len = 0
      · exact .inl (by simp [hend])
      · simp only [if_pos htag, if_neg hend, if_pos hle]
        by_cases hfit : pos + 1 + len.toNat ≤ msg.length
        · exact .inr (.inr ⟨_, jumped, after, labels ++ [f ((msg.drop (pos + 1)).take len.toNat)],
            if_pos hfit, fun budget => if_neg (Nat.not_lt.2 hfit)⟩)
        · exact .inr (.inl ⟨if_neg hfit, fun budget => if_pos (Nat.lt_of_not_le hfit)⟩)
    · have hne : len ≠ 0 := by
        rintro rfl
        exact absurd htag (by decide)
      have h0 : len &&& 0xC0 ≠ 0 := by
        rw [htag]
        decide
      simp only [if_neg hne, if_neg hle, if_pos hge, if_neg h0, if_pos htag, hval]
      cases msg[pos + 1]? with
      | none => simp
      | some low =>
        refine .inr (.inr ⟨_, true, if jumped then after else pos + 2, labels, rfl, ?_⟩)
        intro budget
        -- a target outside the message fails a turn earlier
        by_cases hout : (len.toNat - 0xC0) * 256 + low.toNat ≥ msg.length
        · rw [readLoop_outside hout]
          exact if_pos hout
        · exact if_neg hout
    · have hne : len ≠ 0 := by
        rintro rfl
        exact h0 (by decide)
      simp [hne, hle, hge, h0, h3]

/-! The budget. -/

theorem readLoop_of_ends {n : ℕ} (h : Ends (move msg) pos n) :
    ∀ {budget after : ℕ} {jumped : Bool} {labels : List α}, n < budget →
      (readLoop f msg budget pos jumped after labels).isSome := by
  induction h with
  | @stop pos hstop =>
    intro budget after jumped labels hn
    obtain ⟨budget, rfl⟩ := Nat.exists_eq_succ_of_ne_zero (Nat.ne_of_gt hn)
    obtain ⟨-, hread⟩ | ⟨hfail, -⟩ | ⟨_, _, _, _, hgo, -⟩ :=
      readLoop_move f msg pos jumped after labels
    · rw [hread]
      rfl
    · exact absurd (hstop.symm.trans hfail) (by simp)
    · exact absurd (hstop.symm.trans hgo) (by simp)
  | @go pos next n hgo _ ih =>
    intro budget after jumped labels hn
    obtain ⟨budget, rfl⟩ := Nat.exists_eq_succ_of_ne_zero (Nat.ne_zero_of_lt hn)
    obtain ⟨hstop, -⟩ | ⟨hfail, -⟩ | ⟨_, _, _, _, hgo', hread⟩ :=
      readLoop_move f msg pos jumped after labels
    · exact absurd (hgo.symm.trans hstop) (by simp)
    · exact absurd (hgo.symm.trans hfail) (by simp)
    · cases hgo.symm.trans hgo'
      rw [hread]
      exact ih (by omega)

theorem ends_of_readLoop {budget after : ℕ} {jumped : Bool} {labels : List α}
    (h : (readLoop f msg budget pos jumped after labels).isSome) : ∃ n, Ends (move msg) pos n := by
  induction budget generalizing pos jumped after labels with
  | zero => cases h
  | succ budget ih =>
    obtain ⟨hstop, -⟩ | ⟨-, hread⟩ | ⟨_, _, _, _, hgo, hread⟩ :=
      readLoop_move f msg pos jumped after labels
    · exact ⟨0, .stop hstop⟩
    · rw [hread] at h
      cases h
    · rw [hread] at h
      obtain ⟨n, hn⟩ := ih h
      exact ⟨n + 1, .go hgo hn⟩

/-- A name is read if and only if its walk stops: the places of a walk are offsets in the
message, so that the budget is enough. -/
theorem readName_isSome_iff (msg : Bytes) (start : ℕ) :
    (readName msg start).isSome ↔ ∃ n, Ends (move msg) start n := by
  rw [readName, Option.isSome_map]
  refine ⟨ends_of_readLoop, ?_⟩
  rintro ⟨n, hn⟩
  have hlt : n < (Finset.range msg.length).card :=
    hn.lt_card fun pos hpos => Finset.mem_range.2 (lt_of_move hpos)
  rw [Finset.card_range] at hlt
  exact readLoop_of_ends hn hlt

end Dns

/-! The loops with checked indexes. -/

namespace Checked

open Dns

variable {msg : Bytes}

theorem readLoop_eq (msg : Bytes) (budget pos : ℕ) (jumped : Bool) (after : ℕ)
    (labels : List Text) :
    readLoop msg budget pos jumped after labels =
      ask (Dns.readLoop labelText msg budget pos jumped after labels) := by
  induction budget generalizing pos jumped after labels with
  | zero => rfl
  | succ budget ih =>
    rw [readLoop, Dns.readLoop]
    by_cases hpos : pos < msg.length
    · rw [if_neg (Nat.not_le.2 hpos), index_eq hpos, List.getElem?_eq_getElem hpos, ok_bind]
      dsimp only
      generalize msg[pos] = len
      generalize (if jumped = true then after else pos + 1) = ended
      generalize (if jumped = true then after else pos + 2) = left
      split_ifs with hlabel hend hcut hptr hlow
      · rfl
      · rfl
      · rw [range_eq (by omega) (by omega), ok_bind, ih, Nat.add_sub_cancel_left]
      · rw [List.getElem?_eq_none hlow]
      · have hlow' := Nat.lt_of_not_le hlow
        rw [index_eq hlow', List.getElem?_eq_getElem hlow', ok_bind]
        dsimp only
        split_ifs
        · rfl
        · exact ih _ _ _ _
      · rfl
    · have hout := Nat.le_of_not_lt hpos
      rw [if_pos hout, List.getElem?_eq_none hout]

theorem readName_eq (msg : Bytes) (start : ℕ) : readName msg start = ask (Dns.readName msg start) := by
  rw [readName, readLoop_eq, Dns.readName]
  cases Dns.readLoop labelText msg msg.length start false start [] <;> rfl

/-- The loop of `skip_name` returns before its turns exceed the bytes that are left. -/
theorem skipLoop_eq {turns pos : ℕ} (hturns : 0 < turns) (h : msg.length < turns + pos) :
    skipLoop msg turns pos = some (.ok (Dns.skipLoop msg turns pos)) := by
  induction turns generalizing pos with
  | zero => omega
  | succ turns ih =>
    rw [skipLoop, Dns.skipLoop]
    by_cases hpos : pos < msg.length
    · rw [if_neg (Nat.not_le.2 hpos), index_eq hpos, List.getElem?_eq_getElem hpos]
      dsimp only
      split_ifs
      · rfl
      · exact ih (by omega) (by omega)
      · rfl
      · rfl
      · rfl
    · have hout := Nat.le_of_not_lt hpos
      rw [if_pos hout, List.getElem?_eq_none hout]

end Checked

end ShadowVpn
