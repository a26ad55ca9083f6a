import ShadowVpn.Proofs.Labels
import ShadowVpn.Sanity.Hostname

/-! Host names: the labels of the mesh are DNS labels over whole runs of the name table, and
`sanitize_hostname` against the steps its comment lists. -/

namespace ShadowVpn

open Lib

/-! Labels over runs. -/

namespace NameTable

variable {t t' : NameTable} {event : Event} {out : Out}

structure Labelled (t : NameTable) : Prop where
  server : ∀ s, t.server = some s → IsLabel s.name
  rows : ∀ p row, t.byPeer.get p = some row → IsLabel row.granted

def Out.names : Out → List Text
  | .outcome (.granted name _) => [name]
  | .outcome (.refreshed name) => [name]
  | .outcome (.withdrawn name) => name.toList
  | .expired names => names

def Row (t : NameTable) (label : Text) : Prop :=
  ∃ p row, t.byPeer.get p = some row ∧ row.granted = label

/-- The labels that are granted right after a call, those it returns among them. -/
def Granted (t : NameTable) (out : Out) (label : Text) : Prop :=
  t.Row label ∨ (∃ p, t.byName.get label = some p) ∨ (∃ s, t.server = some s ∧ s.name = label) ∨
    label ∈ out.names

theorem isLabel_of_mem_candidates {wanted c : Text} {nodeId : Option NodeId} {ip4 : Ipv4Addr}
    (h : IsLabel wanted) (hc : c ∈ candidates wanted nodeId ip4) : IsLabel c := by
  obtain ⟨htag, hlen⟩ := isLabel_collisionSuffix nodeId ip4
  simp only [candidates, List.mem_cons, List.mem_map] at hc
  rcases hc with rfl | rfl | ⟨n, hn, rfl⟩
  · exact h
  · exact h.fitLabel htag (Nat.lt_of_le_of_lt hlen (by decide))
  · obtain ⟨hdigits, hthree⟩ := isLabel_toDigits hn
    have hroom : MAX_NAME_LEN = 32 := rfl
    rw [List.cons_append]
    refine h.fitLabel (htag.join hdigits (by omega)) ?_
    rw [List.length_append, List.length_cons]
    omega

theorem isLabel_uniqueName {wanted : Text} (h : IsLabel wanted) (t : NameTable)
    (nodeId : Option NodeId) (ip4 : Ipv4Addr) : IsLabel (t.uniqueName wanted nodeId ip4) := by
  have hmem : t.uniqueName wanted nodeId ip4 ∈ candidates wanted nodeId ip4 := by
    rw [uniqueName_eq]
    cases hfind : (candidates wanted nodeId ip4).find? fun c => !t.nameTaken c with
    | none => exact tagged_mem_candidates wanted nodeId ip4
    | some c => exact List.mem_of_find?_eq_some hfind
  exact isLabel_of_mem_candidates h hmem

theorem Labelled.drops (h : t.Labelled) (hd : Drops t t') : t'.Labelled where
  server := fun s hs => h.server s (hd.server ▸ hs)
  rows := fun p row hrow => h.rows p row (hd.rows p row hrow)

theorem Labelled.step (h : t.Labelled) (hb : t.Bound) (hs : step t event = .ok (t', out)) :
    t'.Labelled := by
  refine ⟨fun s hserver => h.server s (step_server hs hb ▸ hserver), ?_⟩
  intro p row hrow
  cases steps_of_step hs with
  | dropped hd _ => exact (h.drops (hd hb)).rows p row hrow
  | refreshed _ hold _ =>
    rw [HashMap.get_insert] at hrow
    split_ifs at hrow
    · cases hrow
      have hlabel := h.rows _ _ hold
      exact hlabel
    · exact h.rows p row hrow
  | granted _ _ =>
    rw [grant_get] at hrow
    split_ifs at hrow
    · cases hrow
      exact isLabel_uniqueName (isLabel_sanitizeHostname _) _ _ _
    · exact h.rows p row hrow

theorem row_of_withdraw {peer : SocketAddr} {label : Text}
    (hl : label ∈ (Out.outcome (t.withdraw peer).2).names) : t.Row label := by
  unfold withdraw at hl
  cases hrow : t.byPeer.get peer with
  | none =>
    rw [hrow] at hl
    cases hl
  | some row =>
    rw [hrow] at hl
    exact ⟨peer, row, hrow, (List.mem_singleton.1 hl).symm⟩

theorem row_of_grant {peer : SocketAddr} {requested label : Text} {ip4 : Ipv4Addr}
    {ip6 : Option Ipv6Addr} {nodeId : Option NodeId} {now : Instant}
    (hl : label ∈ (Out.outcome (t.grant peer requested ip4 ip6 nodeId now).2).names) :
    (t.grant peer requested ip4 ip6 nodeId now).1.Row label :=
  ⟨peer, _, by rw [grant_get, if_pos rfl], (List.mem_singleton.1 hl).symm⟩

theorem row_of_advertise {peer : SocketAddr} {raw label : Text} {ip4 : Ipv4Addr}
    {ip6 : Option Ipv6Addr} {nodeId : Option NodeId} {now : Instant}
    (hl : label ∈ (Out.outcome (t.advertise peer raw ip4 ip6 nodeId now).2).names) :
    t.Row label ∨ (t.advertise peer raw ip4 ip6 nodeId now).1.Row label := by
  unfold advertise at hl ⊢
  split_ifs at hl ⊢ with hempty
  · exact .inl (row_of_withdraw hl)
  · dsimp only at hl ⊢
    cases hrow : t.byPeer.get peer with
    | none =>
      rw [hrow] at hl
      exact .inr (row_of_grant hl)
    | some row =>
      rw [hrow] at hl
      dsimp only at hl ⊢
      split_ifs at hl ⊢ with hsame
      · exact .inl ⟨peer, row, hrow, (List.mem_singleton.1 hl).symm⟩
      · exact .inr (row_of_grant hl)

theorem row_of_step (hs : step t event = .ok (t', out)) {label : Text} (hl : label ∈ out.names) :
    t.Row label ∨ t'.Row label := by
  cases event with
  | advertise peer raw ip4 ip6 nodeId now =>
    cases hs
    exact row_of_advertise hl
  | withdraw peer =>
    cases hs
    exact .inl (row_of_withdraw hl)
  | expire order ttl now =>
    cases hs
    obtain ⟨⟨p, row⟩, hmem, rfl⟩ := List.mem_map.1 hl
    exact .inl ⟨p, row, order.mem_iter.1 (List.mem_filter.1 hmem).1, rfl⟩

theorem Labelled.granted (h : t.Labelled) (hb : t.Bound)
    (hs : NameTable.step t event = .ok (t', out)) {label : Text} (hl : Granted t' out label) :
    IsLabel label := by
  have h' := h.step hb hs
  have hrow : t'.Row label → IsLabel label := by
    rintro ⟨p, row, hrow, rfl⟩
    exact h'.rows p row hrow
  rcases hl with hl | ⟨p, hp⟩ | ⟨s, hserver, rfl⟩ | hl
  · exact hrow hl
  · exact hrow ⟨p, (hb.step hs).granted hp⟩
  · exact h'.server s hserver
  · rcases row_of_step hs hl with ⟨p, row, hold, rfl⟩ | hl
    · exact h.rows p row hold
    · exact hrow hl

inductive Fresh : NameTable → Prop
  | new : Fresh NameTable.new
  | withServer (name : Text) (ip4 : Ipv4Addr) (ip6 : Option Ipv6Addr) :
      Fresh (NameTable.withServer name ip4 ip6)

theorem Fresh.labelled (h : Fresh t) : t.Labelled ∧ t.Bound := by
  cases h with
  | new =>
    refine ⟨⟨?_, ?_⟩, isBinding_empty⟩
    · rintro s ⟨⟩
    · rintro p row ⟨⟩
  | withServer name ip4 ip6 =>
    refine ⟨⟨?_, ?_⟩, withServer_bound name ip4 ip6⟩
    · rintro s ⟨⟩
      exact isLabel_sanitizeHostname name
    · rintro p row ⟨⟩

end NameTable

/-- Whatever a host is called, its name is a DNS label that is left as it is from then on, and so
is every label that the table grants over a run, with a tag and cut or not. -/
theorem hostname_isLabel :
    (∀ raw, IsLabel (sanitizeHostname raw) ∧
      sanitizeHostname (sanitizeHostname raw) = sanitizeHostname raw) ∧
    ∀ t₀ t es, NameTable.Fresh t₀ → Run NameTable.step t₀ es t → ∀ e ∈ es, ∀ label,
      NameTable.Granted e.post e.out label → IsLabel label ∧ sanitizeHostname label = label := by
  refine ⟨?_, ?_⟩
  · intro raw
    have hlabel := isLabel_sanitizeHostname raw
    exact ⟨hlabel, hlabel.sanitizeHostname_eq⟩
  · intro t₀ t es hfresh hrun e he label hl
    obtain ⟨⟨fs, hpre⟩, hs⟩ := hrun.entry he
    have hinv := hpre.invariant (I := fun t => t.Labelled ∧ t.Bound)
      (fun _ _ _ _ h hs => ⟨h.1.step h.2 hs, h.2.step hs⟩) hfresh.labelled
    have hlabel := hinv.1.granted hinv.2 hs hl
    exact ⟨hlabel, hlabel.sanitizeHostname_eq⟩

namespace Sample

def longName : Text := List.replicate 32 'a'

def cutName : Text := List.replicate 29 'a' ++ ['-', '0', '2']

end Sample

/-- A client with the name of the server, which is cut to make room for the tag. -/
theorem hostname_isLabel_cut : ∃ es t,
    Run NameTable.step (NameTable.withServer Sample.longName (Sample.addr 1) none) es t ∧
    t.nameFor (Sample.endpoint 1) = some Sample.cutName ∧ IsLabel Sample.cutName := by
  have hs : ∃ o t, NameTable.step (NameTable.withServer Sample.longName (Sample.addr 1) none)
        (.advertise (Sample.endpoint 1) Sample.longName (Sample.addr 2) none none 1) = .ok (t, o) ∧
      t.nameFor (Sample.endpoint 1) = some Sample.cutName := ⟨_, _, rfl, by decide +kernel⟩
  obtain ⟨o, t, hs, hname⟩ := hs
  have hrun := Run.single hs
  refine ⟨_, t, hrun, hname, ?_⟩
  obtain ⟨row, hrow, hgranted⟩ := Option.map_eq_some_iff.1 hname
  exact (hostname_isLabel.2 _ _ _ (.withServer _ _ _) hrun _ (List.mem_singleton.2 rfl) _
    (.inl ⟨_, row, hrow, hgranted⟩)).1

/-! The steps of the comment. -/

def replaceInvalid (c : Char) : Char := if isLabelChar c.toLower then c.toLower else '-'

/-- A label with the invalid characters replaced, one hyphen for each run and none at the front. -/
def documented (label : Text) : Text :=
  trimStart '-' (squeeze '-' false (label.map replaceInvalid))

/-- The name that the comment describes. -/
def documentedHostname (raw : Text) : Text :=
  orNode (trimEnd '-' (Utf8.takeBytes MAX_NAME_LEN (documented (firstLabel raw))))

def EndsInLetter (label : Text) : Prop :=
  ∃ front c, label = front ++ [c] ∧ isAsciiAlphanumeric c = true

/-- Characters between two letters or digits, none of which stands for a hyphen. -/
structure SilentGap (label pre gap post : Text) : Prop where
  eq : label = pre ++ (gap ++ post)
  nonempty : gap ≠ []
  silent : ∀ c ∈ gap, isSilent c = true
  before : EndsInLetter pre
  after : ∃ c rest, post = c :: rest ∧ isAsciiAlphanumeric c = true

theorem documented_eq (label : Text) :
    documented label = squeeze '-' true (label.map replaceInvalid) :=
  trimStart_squeeze '-' _

theorem replaceInvalid_of_alphanumeric {c d : Char} (hc : isAsciiAlphanumeric c = true)
    (hd : emit c = some d) : replaceInvalid c = d ∧ d ≠ '-' := by
  obtain ⟨e, he, rfl, hne, hlabel⟩ := exists_emit_of_alphanumeric hc
  cases he.symm.trans hd
  exact ⟨if_pos hlabel, hne⟩

theorem replaceInvalid_of_not_alphanumeric {c : Char} (hc : isAsciiAlphanumeric c = false) :
    replaceInvalid c = '-' := by
  unfold replaceInvalid
  split_ifs with hlabel
  · rcases isLabelChar_cases hlabel with halnum | hhyphen
    · rw [(toLower_classes c).1, hc] at halnum
      cases halnum
    · exact hhyphen
  · rfl

/-! One more character of a label. -/

theorem concat_letter {c d : Char} (hc : isAsciiAlphanumeric c = true) (hd : emit c = some d)
    (label : Text) : written (label ++ [c]) = written label ++ [d] ∧
      documented (label ++ [c]) = documented label ++ [d] := by
  obtain ⟨hreplace, hne⟩ := replaceInvalid_of_alphanumeric hc hd
  rw [documented_eq, documented_eq, written, written, List.filterMap_append, List.map_append]
  simp [hd, hreplace, squeeze_append_cons hne]

theorem written_concat_hyphen {c : Char} (hd : emit c = some '-') (label : Text) :
    written (label ++ [c]) =
      written label ++ if inRun '-' true (written label) then [] else ['-'] := by
  rw [written, written, List.filterMap_append]
  simp only [List.filterMap_cons, hd, List.filterMap_nil]
  exact squeeze_concat_self '-' true _

theorem written_concat_silent {c : Char} (hc : isSilent c = true) (label : Text) :
    written (label ++ [c]) = written label := by
  rw [written, written, List.filterMap_append]
  simp [emit_eq_none_iff.2 hc]

theorem documented_concat_hyphen {c : Char} (hc : isAsciiAlphanumeric c = false) (label : Text) :
    documented (label ++ [c]) =
      documented label ++ if inRun '-' true (documented label) then [] else ['-'] := by
  rw [documented_eq, documented_eq, List.map_append]
  simp only [List.map_cons, replaceInvalid_of_not_alphanumeric hc, List.map_nil]
  exact squeeze_concat_self '-' true _

theorem EndsInLetter.last {label : Text} (h : EndsInLetter label) :
    ∃ w r d, d ≠ '-' ∧ written label = w ++ [d] ∧ documented label = r ++ [d] := by
  obtain ⟨front, c, rfl, hc⟩ := h
  obtain ⟨d, hd, -, hne, -⟩ := exists_emit_of_alphanumeric hc
  exact ⟨_, _, d, hne, concat_letter hc hd front⟩

/-- What is written for a label against the comment, while it is read. -/
inductive Scan (label : Text) : Prop
  | between (heq : documented label = written label) (hrun : inRun '-' true (written label) = true)
  | letter (heq : documented label = written label) (hlast : EndsInLetter label)
  | silent {pre gap : Text} (hlabel : label = pre ++ gap) (hgap : gap ≠ [])
      (hsilent : ∀ c ∈ gap, isSilent c = true) (hlast : EndsInLetter pre)
      (hpre : documented pre = written pre) (hw : written label = written pre)
      (hd : documented label = written pre ++ ['-'])
  | parted {pre gap post : Text} (hgap : SilentGap label pre gap post)
      (hpre : documented pre = written pre)

theorem Scan.of_letter {label : Text} {c d : Char} (heq : documented label = written label)
    (hc : isAsciiAlphanumeric c = true) (hd : emit c = some d) : Scan (label ++ [c]) := by
  obtain ⟨hw, hdoc⟩ := concat_letter hc hd label
  exact .letter (by rw [hw, hdoc, heq]) ⟨label, c, rfl, hc⟩

theorem Scan.between_concat {label : Text} (heq : documented label = written label)
    (hrun : inRun '-' true (written label) = true) (c : Char) : Scan (label ++ [c]) := by
  have hdoc : isAsciiAlphanumeric c = false → documented (label ++ [c]) = written label := by
    intro hc
    rw [documented_concat_hyphen hc, heq, hrun, if_pos rfl, List.append_nil]
  cases kind c with
  | letter hc hd => exact .of_letter heq hc hd
  | hyphen hc hd =>
    have hw : written (label ++ [c]) = written label := by
      rw [written_concat_hyphen hd, hrun, if_pos rfl, List.append_nil]
    exact .between (by rw [hw, hdoc hc]) (by rw [hw, hrun])
  | silent hc hs =>
    have hw := written_concat_silent hs label
    exact .between (by rw [hw, hdoc hc]) (by rw [hw, hrun])

theorem EndsInLetter.inRun {label : Text} (h : EndsInLetter label) :
    Lib.inRun '-' true (written label) = false := by
  obtain ⟨w, -, d, hne, hw, -⟩ := h.last
  rw [hw, inRun_concat]
  simpa using hne

theorem Scan.letter_concat {label : Text} (heq : documented label = written label)
    (hlast : EndsInLetter label) (c : Char) : Scan (label ++ [c]) := by
  have hdoc : isAsciiAlphanumeric c = false →
      documented (label ++ [c]) = written label ++ ['-'] := by
    intro hc
    rw [documented_concat_hyphen hc, heq, hlast.inRun, if_neg Bool.false_ne_true]
  cases kind c with
  | letter hc hd => exact .of_letter heq hc hd
  | hyphen hc hd =>
    have hw : written (label ++ [c]) = written label ++ ['-'] := by
      rw [written_concat_hyphen hd, hlast.inRun, if_neg Bool.false_ne_true]
    exact .between (by rw [hw, hdoc hc]) (by rw [hw, inRun_concat]; rfl)
  | silent hc hs =>
    exact .silent rfl (List.cons_ne_nil c []) (List.forall_mem_singleton.2 hs) hlast heq
      (written_concat_silent hs label) (hdoc hc)

/-- From within a gap that has no hyphen so far: a letter or digit parts the two. -/
theorem Scan.silent_concat {pre gap : Text} (hgap : gap ≠ [])
    (hsilent : ∀ c ∈ gap, isSilent c = true) (hlast : EndsInLetter pre)
    (hpre : documented pre = written pre) (hw : written (pre ++ gap) = written pre)
    (hd : documented (pre ++ gap) = written pre ++ ['-']) (c : Char) : Scan (pre ++ gap ++ [c]) := by
  have hdoc : isAsciiAlphanumeric c = false →
      documented (pre ++ gap ++ [c]) = written pre ++ ['-'] := by
    intro hc
    rw [documented_concat_hyphen hc, hd, inRun_concat, if_pos (decide_eq_true rfl), List.append_nil]
  cases kind c with
  | letter hc _ =>
    exact .parted ⟨List.append_assoc .., hgap, hsilent, hlast, c, [], rfl, hc⟩ hpre
  | hyphen hc hemit =>
    have hw' : written (pre ++ gap ++ [c]) = written pre ++ ['-'] := by
      rw [written_concat_hyphen hemit, hw, hlast.inRun, if_neg Bool.false_ne_true]
    exact .between (by rw [hw', hdoc hc]) (by rw [hw', inRun_concat]; rfl)
  | silent hc hs =>
    have hall : ∀ d ∈ gap ++ [c], isSilent d = true :=
      List.forall_mem_append.2 ⟨hsilent, List.forall_mem_singleton.2 hs⟩
    refine .silent (List.append_assoc ..) (by simp) hall hlast hpre ?_ (hdoc hc)
    rw [written_concat_silent hs, hw]

theorem SilentGap.append {label pre gap post : Text} (h : SilentGap label pre gap post)
    (more : Text) : SilentGap (label ++ more) pre gap (post ++ more) := by
  obtain ⟨rfl, hne, hsilent, hbefore, d, rest, rfl, hafter⟩ := h
  exact ⟨by simp, hne, hsilent, hbefore, d, rest ++ more, rfl, hafter⟩

theorem scan (label : Text) : Scan label := by
  induction label using List.reverseRecOn with
  | nil => exact .between rfl rfl
  | append_singleton label c ih =>
    cases ih with
    | between heq hrun => exact .between_concat heq hrun c
    | letter heq hlast => exact .letter_concat heq hlast c
    | silent hlabel hgap hsilent hlast hpre hw hd =>
      subst hlabel
      exact .silent_concat hgap hsilent hlast hpre hw hd c
    | parted hgap hpre => exact .parted (hgap.append [c]) hpre

/-- At a gap without a hyphen the next letter or digit is written, and a hyphen documented. -/
theorem SilentGap.parts {label pre gap post : Text} (h : SilentGap label pre gap post) :
    ∃ d w r, d ≠ '-' ∧ written label = written pre ++ d :: w ∧
      documented label = documented pre ++ '-' :: r := by
  obtain ⟨rfl, hne, hsilent, ⟨front, c, rfl, hc⟩, e, rest, rfl, he⟩ := h
  obtain ⟨c', hc', -⟩ := exists_emit_of_alphanumeric hc
  obtain ⟨e', he', -⟩ := exists_emit_of_alphanumeric he
  obtain ⟨hcr, hcne⟩ := replaceInvalid_of_alphanumeric hc hc'
  obtain ⟨-, hene⟩ := replaceInvalid_of_alphanumeric he he'
  obtain ⟨g, gap, rfl⟩ := List.exists_cons_of_ne_nil hne
  have hnone : (g :: gap).filterMap emit = [] :=
    List.filterMap_eq_nil_iff.2 fun c hc => emit_eq_none_iff.2 (hsilent c hc)
  have hg : replaceInvalid g = '-' := by
    refine replaceInvalid_of_not_alphanumeric ?_
    have hs := hsilent g List.mem_cons_self
    simp only [isSilent, Bool.not_eq_true', Bool.or_eq_false_iff] at hs
    exact hs.1.1.1
  obtain ⟨hw, hdoc⟩ := concat_letter hc hc' front
  refine ⟨e', squeeze '-' false (rest.filterMap emit),
    squeeze '-' true ((gap ++ e :: rest).map replaceInvalid), hene, ?_, ?_⟩
  · rw [hw, written, List.filterMap_append, List.filterMap_append, List.filterMap_append, hnone]
    simp only [List.filterMap_cons, hc', he', List.filterMap_nil, List.append_assoc, List.nil_append,
      List.cons_append]
    rw [squeeze_append_cons hcne, squeeze_cons_ne hene]
    rfl
  · rw [hdoc, documented_eq, documented_eq]
    simp only [List.map_append, List.map_cons, hcr, hg, List.append_assoc, List.cons_append,
      List.nil_append]
    rw [squeeze_append_cons hcne, squeeze_false_self]

theorem isLabelChar_documented {label : Text} {c : Char} (h : c ∈ documented label) :
    isLabelChar c = true := by
  rw [documented_eq] at h
  obtain ⟨d, -, rfl⟩ := List.mem_map.1 (mem_of_mem_squeeze h)
  unfold replaceInvalid
  split_ifs with hlabel
  · exact hlabel
  · rfl

theorem documentedHostname_eq (raw : Text) : documentedHostname raw =
    orNode (trimEnd '-' ((documented (firstLabel raw)).take MAX_NAME_LEN)) := by
  rw [documentedHostname, Utf8.takeBytes_ascii]
  exact fun c hc => (emit_of_isLabelChar (isLabelChar_documented hc)).2.1

theorem documented_isPrefix (label rest : Text) : documented label <+: documented (label ++ rest) := by
  rw [documented_eq, documented_eq, List.map_append]
  exact squeeze_isPrefix '-' true _ _

theorem EndsInLetter.trimEnd_ne_nil {pre name : Text} (h : EndsInLetter pre)
    (hname : written pre <+: name) {n : ℕ} (hn : (written pre).length ≤ n) :
    trimEnd '-' (name.take n) ≠ [] := by
  obtain ⟨w, -, d, hne, hw, -⟩ := h.last
  intro hnil
  refine hne (trimEnd_eq_nil_iff.1 hnil d (List.IsPrefix.subset (List.prefix_take_iff.2 ⟨hname, hn⟩) ?_))
  simp [hw]

theorem orNode_of_ne_nil {s : Text} (h : s ≠ []) : orNode s = s := if_neg (by simpa using h)

/-- Where the two part, they are the same only if that is after the cut. -/
theorem SilentGap.le_length {label pre gap post : Text} (h : SilentGap label pre gap post)
    (hpre : documented pre = written pre)
    (heq : orNode (trimEnd '-' ((written label).take MAX_NAME_LEN)) =
      orNode (trimEnd '-' ((documented label).take MAX_NAME_LEN))) :
    MAX_NAME_LEN ≤ (written pre).length := by
  obtain ⟨d, w, r, hne, hw, hd⟩ := h.parts
  rw [hpre] at hd
  by_contra hlt
  have hshort : (written pre).length ≤ MAX_NAME_LEN := by omega
  rw [hw, hd, orNode_of_ne_nil (h.before.trimEnd_ne_nil (List.prefix_append _ _) hshort),
    orNode_of_ne_nil (h.before.trimEnd_ne_nil (List.prefix_append _ _) hshort)] at heq
  exact hlt (le_of_trimEnd_take_eq hne heq)

/-- The name is the one that the comment describes just if every gap without a hyphen, underscore
or blank comes after what is kept of the name. -/
theorem hostname_documented_iff (raw : Text) :
    sanitizeHostname raw = documentedHostname raw ↔
      ∀ pre gap post, SilentGap (firstLabel raw) pre gap post →
        MAX_NAME_LEN ≤ (documented pre).length := by
  rw [sanitizeHostname_eq, documentedHostname_eq]
  generalize firstLabel raw = label
  constructor
  · intro heq pre gap post hgap
    cases scan pre with
    | between _ hrun =>
      rw [hgap.before.inRun] at hrun
      cases hrun
    | letter hpre _ =>
      rw [hpre]
      exact hgap.le_length hpre heq
    | silent _ _ _ _ _ _ hd =>
      obtain ⟨w, r, d, hne, -, hlast⟩ := hgap.before.last
      have hsame := congrArg List.getLast? (hlast.symm.trans hd)
      rw [List.getLast?_concat, List.getLast?_concat] at hsame
      exact absurd (Option.some.inj hsame) hne
    | @parted pre' gap' post' hfirst hpre =>
      -- an earlier gap of the same kind has already parted the two
      have hlabel := hfirst.append (gap ++ post)
      rw [← hgap.eq] at hlabel
      have hle := hlabel.le_length hpre heq
      rw [← hpre] at hle
      rw [hfirst.eq]
      exact Nat.le_trans hle (documented_isPrefix pre' (gap' ++ post')).length_le
  · intro h
    cases scan label with
    | between hsame _ => rw [hsame]
    | letter hsame _ => rw [hsame]
    | silent _ _ _ _ _ hw hd => rw [hw, hd, trimEnd_take_concat]
    | @parted pre gap post hgap hpre =>
      obtain ⟨d, w, r, -, hw, hd⟩ := hgap.parts
      have hlen := h pre gap post hgap
      rw [hw, hd, ← hpre, List.take_append_of_le_length hlen, List.take_append_of_le_length hlen]

/-- The exclamation mark is dropped, where the comment has a hyphen in its place. -/
theorem hostname_undocumented :
    sanitizeHostname ['a', '!', 'b'] = ['a', 'b'] ∧
    documentedHostname ['a', '!', 'b'] = ['a', '-', 'b'] := by decide

end ShadowVpn
