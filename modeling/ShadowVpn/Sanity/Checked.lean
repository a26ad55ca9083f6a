import ShadowVpn.Sanity.Wire

/-! The parser that indexes as the source does never panics: every read it makes is inside
the length it has tested, so it is the parser of `Spec.Mesh`. -/

namespace ShadowVpn

open Lib

namespace Checked

variable {α β : Type} {buf body : List UInt8}

/-! What follows a read that gave a value. -/

theorem ask_some_bind (a : α) (k : α → Checked β) : (ask (some a) >>= k) = k a := rfl

theorem ok_bind (a : α) (k : α → Checked β) :
    ((liftM (Except.ok a : Except Panic α) : Checked α) >>= k) = k a := rfl

/-! Reads inside the buffer, beside the same reads of the rest of the buffer. -/

theorem index_eq {i : ℕ} (h : i < buf.length) : index buf i = .ok buf[i] := by
  rw [index, List.getElem?_eq_getElem h]

theorem readU8_drop {i : ℕ} (h : i < buf.length) :
    readU8 (buf.drop i) = some (buf[i], buf.drop (i + 1)) := by
  rw [List.drop_eq_getElem_cons h]
  rfl

theorem range_eq {i j : ℕ} (hij : i ≤ j) (hj : j ≤ buf.length) :
    range buf i j = .ok ((buf.drop i).take (j - i)) :=
  if_pos ⟨hij, hj⟩

theorem arrayAt_eq {i n : ℕ} (h : i + n ≤ buf.length) :
    arrayAt buf i n = .ok ((buf.drop i).take n) := by
  have hlen : ((buf.drop i).take n).length = n := by
    rw [List.length_take, List.length_drop]
    omega
  rw [arrayAt, range_eq (by omega) h, Nat.add_sub_cancel_left]
  exact if_pos hlen

theorem readBE_drop {i n : ℕ} (h : i + n ≤ buf.length) :
    readBE n (buf.drop i) = some (ofBE ((buf.drop i).take n), buf.drop (i + n)) := by
  rw [readBE, if_pos (by rw [List.length_drop]; omega), List.drop_drop]
  rfl

theorem readIp4_drop {i : ℕ} (h : i + 4 ≤ buf.length) :
    readIp4 (buf.drop i) = some (ipv4From ((buf.drop i).take 4), buf.drop (i + 4)) := by
  rw [readIp4, readBE_drop h]
  rfl

theorem readIp6_drop {i : ℕ} (h : i + 16 ≤ buf.length) :
    readIp6 (buf.drop i) = some (ipv6From ((buf.drop i).take 16), buf.drop (i + 16)) := by
  rw [readIp6, readBE_drop h]
  rfl

theorem ipv4At_eq {i : ℕ} (h : i + 4 ≤ buf.length) :
    ipv4At buf i = .ok (ipv4From ((buf.drop i).take 4)) := by
  rw [ipv4At, index_eq (by omega), index_eq (by omega), index_eq (by omega), index_eq (by omega),
    List.drop_eq_getElem_cons (by omega), List.drop_eq_getElem_cons (by omega),
    List.drop_eq_getElem_cons (by omega), List.drop_eq_getElem_cons (by omega)]
  rfl

theorem nodeIdAt_eq {i : ℕ} (h : i + 16 ≤ buf.length) :
    ∃ id, nodeIdAt buf i = .ok id ∧ readNodeId (buf.drop i) = some (id, buf.drop (i + 16)) := by
  have hdrop : 16 ≤ (buf.drop i).length := by
    rw [List.length_drop]
    omega
  have hlen : ((buf.drop i).take 16).length = 16 := by simpa using hdrop
  refine ⟨⟨_, hlen⟩, ?_, ?_⟩
  · rw [nodeIdAt, range_eq (by omega) h, Nat.add_sub_cancel_left]
    exact dif_pos hlen
  · rw [readNodeId, dif_pos hdrop, List.drop_drop]

theorem readIp4_eq_chunk (buf : List UInt8) :
    readIp4 buf = (splitFirstChunk 4 buf).map fun p => (ipv4From p.1, p.2) := by
  unfold readIp4 readBE splitFirstChunk
  split_ifs
  · rfl
  · rfl

theorem readIp6_eq_chunk (buf : List UInt8) :
    readIp6 buf = (splitFirstChunk 16 buf).map fun p => (ipv6From p.1, p.2) := by
  unfold readIp6 readBE splitFirstChunk
  split_ifs
  · rfl
  · rfl

/-- Masking keeps the length, so the network is built again. -/
theorem canonical_eq (net : IpNetwork) : canonical net = .ok (ShadowVpn.canonical net) := by
  cases net with
  | v4 n =>
    have hnew : Cidr.new n.network n.prefixLen = some n.canonical := dif_pos n.len_le
    simp [canonical, hnew, ShadowVpn.canonical]
  | v6 n =>
    have hnew : Cidr.new n.network n.prefixLen = some n.canonical := dif_pos n.len_le
    simp [canonical, hnew, ShadowVpn.canonical]

/-! The loops, with what they have read so far. -/

/-- Pushing before the rest is read or consing afterwards. -/
theorem ask_push (a : α) (as : List α) (o : Option (List α)) :
    ask (o.map (as ++ [a] ++ ·)) = ask ((o.bind fun bs => some (a :: bs)).map (as ++ ·)) := by
  cases o with
  | none => rfl
  | some bs => simp

theorem parseRoutes_eq (n : ℕ) (buf : List UInt8) (routes : List IpNetwork) :
    parseRoutes buf n routes = ask ((ShadowVpn.parseRoutes buf n).map (routes ++ ·)) := by
  induction n generalizing buf routes with
  | zero =>
    rw [parseRoutes, ShadowVpn.parseRoutes]
    split_ifs
    · simp
    · rfl
  | succ n ih =>
    rw [parseRoutes, ShadowVpn.parseRoutes, parseRoute]
    cases buf with
    | nil => rfl
    | cons family buf =>
      cases buf with
      | nil => rfl
      | cons plen buf =>
        simp only [readU8, ask_some_bind, Option.bind_eq_bind, Option.bind_some]
        split_ifs with h4 h6
        · rw [readIp4_eq_chunk]
          cases splitFirstChunk 4 buf with
          | none => rfl
          | some p =>
            simp only [ask_some_bind, Option.map_some, Option.bind_some]
            cases Cidr.new (ipv4From p.1) plen with
            | none => rfl
            | some net =>
              simp only [ask_some_bind, Option.bind_some, canonical_eq, ok_bind, ih]
              exact ask_push _ _ _
        · rw [readIp6_eq_chunk]
          cases splitFirstChunk 16 buf with
          | none => rfl
          | some p =>
            simp only [ask_some_bind, Option.map_some, Option.bind_some]
            cases Cidr.new (ipv6From p.1) plen with
            | none => rfl
            | some net =>
              simp only [ask_some_bind, Option.bind_some, canonical_eq, ok_bind, ih]
              exact ask_push _ _ _
        · rfl

theorem parsePeers_eq (n : ℕ) (buf : List UInt8) (peers : List PeerEntry) :
    parsePeers buf n peers = ask ((ShadowVpn.parsePeers buf n).map (peers ++ ·)) := by
  induction n generalizing buf peers with
  | zero =>
    rw [parsePeers, ShadowVpn.parsePeers]
    split_ifs
    · simp
    · rfl
  | succ n ih =>
    rw [parsePeers, ShadowVpn.parsePeers, parsePeer]
    cases buf with
    | nil => rfl
    | cons eflags buf =>
      simp only [readU8, readIp4_eq_chunk, readIp6_eq_chunk, ask_some_bind, Option.bind_eq_bind,
        Option.bind_some]
      cases splitFirstChunk 4 buf with
      | none => rfl
      | some p4 =>
        simp only [ask_some_bind, Option.map_some, Option.bind_some]
        cases splitFirstChunk 16 p4.2 with
        | none => rfl
        | some p6 =>
          simp only [ask_some_bind, Option.map_some, Option.bind_some]
          cases p6.2 with
          | nil => rfl
          | cons nlen rest =>
            simp only [ask_some_bind, Option.bind_some]
            by_cases hmax : nlen.toNat > MAX_NAME_LEN
            · rw [if_pos hmax, if_pos hmax]
              rfl
            by_cases hshort : rest.length < nlen.toNat
            · rw [if_neg hmax, if_neg hmax, if_pos hshort, if_pos hshort]
              rfl
            have hsplit : splitAt rest nlen.toNat =
                .ok (rest.take nlen.toNat, rest.drop nlen.toNat) := if_pos (by omega)
            rw [if_neg hmax, if_neg hmax, if_neg hshort, if_neg hshort, hsplit, ok_bind]
            dsimp only
            cases fromUtf8 (rest.take nlen.toNat) with
            | none => rfl
            | some name =>
              simp only [ask_some_bind, Option.bind_some, ih]
              exact ask_push _ _ _

/-- Started with nothing read. -/
theorem ask_map_nil (o : Option (List α)) : ask (o.map ([] ++ ·)) = ask o := by
  cases o with
  | none => rfl
  | some as => rfl

theorem parseRoutes_nil (n : ℕ) (buf : List UInt8) :
    parseRoutes buf n [] = ask (ShadowVpn.parseRoutes buf n) :=
  (parseRoutes_eq n buf []).trans (ask_map_nil _)

theorem parsePeers_nil (n : ℕ) (buf : List UInt8) :
    parsePeers buf n [] = ask (ShadowVpn.parsePeers buf n) :=
  (parsePeers_eq n buf []).trans (ask_map_nil _)

/-! Messages. -/

theorem range_from (buf : List UInt8) {i : ℕ} (h : i ≤ buf.length) :
    range buf i buf.length = .ok (buf.drop i) := by
  rw [range_eq h le_rfl, ← List.length_drop, List.take_length]

theorem parseRouteAdvert_eq (a b : UInt8) (body : List UInt8) :
    parseRouteAdvert (a :: b :: body) = ask (ShadowVpn.parseRouteAdvert body) := by
  have hbody : getFrom (a :: b :: body) 2 = some body := if_pos (by simp)
  unfold parseRouteAdvert ShadowVpn.parseRouteAdvert
  rw [hbody, ask_some_bind]
  by_cases hlen : body.length < ADVERT_HEADER_LEN - 2
  · rw [if_pos hlen, if_pos hlen]
  rw [if_neg hlen, if_neg hlen]
  have hlen : 22 ≤ body.length := by
    unfold ADVERT_HEADER_LEN at hlen
    omega
  have h0 := readU8_drop (show 0 < body.length by omega)
  rw [List.drop_zero] at h0
  simp (disch := omega) only [index_eq, ipv4At_eq, arrayAt_eq, range_from, ok_bind, h0, readIp4_drop,
    readIp6_drop, readU8_drop, Option.bind_eq_bind, Option.bind_some, Nat.reduceAdd,
    parseRoutes_nil]
  split_ifs
  · rfl
  · cases ShadowVpn.parseRoutes (body.drop 22) body[21].toNat with
    | none => rfl
    | some routes => rfl

theorem parseNameAdvert_eq (a b : UInt8) (body : List UInt8) :
    parseNameAdvert (a :: b :: body) = ask (ShadowVpn.parseNameAdvert body) := by
  have hbody : getFrom (a :: b :: body) 2 = some body := if_pos (by simp)
  unfold parseNameAdvert ShadowVpn.parseNameAdvert
  rw [hbody, ask_some_bind]
  by_cases hlen : body.length < NAME_ADVERT_HEADER_LEN - 2
  · rw [if_pos hlen, if_pos hlen]
  rw [if_neg hlen, if_neg hlen]
  have hlen : 22 ≤ body.length := by
    unfold NAME_ADVERT_HEADER_LEN at hlen
    omega
  have h0 := readU8_drop (show 0 < body.length by omega)
  rw [List.drop_zero] at h0
  have hrest : getFrom body 22 = some (body.drop 22) := if_pos hlen
  simp (disch := omega) only [index_eq, ipv4At_eq, arrayAt_eq, hrest, ok_bind, h0, readIp4_drop,
    readIp6_drop, readU8_drop, Option.bind_eq_bind, Option.bind_some, Nat.reduceAdd, ask_some_bind]
  split_ifs
  · rfl
  · rfl
  · cases fromUtf8 (body.drop 22) with
    | none => rfl
    | some name => rfl

/-- Both pushes read their count and their entries with `get`. -/
theorem push_eq {loop : List UInt8 → ℕ → List α → Checked (List α)}
    {parse : List UInt8 → ℕ → Option (List α)} (h : ∀ n buf, loop buf n [] = ask (parse buf n))
    (m : ℕ) (wrap : List α → Control) (a b : UInt8) (body : List UInt8) :
    (do
      let count ← ask (a :: b :: body)[3]?
      if count.toNat > m then ask none else
      let entries ← ask (getFrom (a :: b :: body) 4)
      let xs ← loop entries count.toNat []
      pure (wrap xs)) =
    ask (do
      let (_, buf) ← readU8 body
      let (count, buf) ← readU8 buf
      if count.toNat > m then none else
      let xs ← parse buf count.toNat
      some (wrap xs)) := by
  cases body with
  | nil => rfl
  | cons reserved body =>
    cases body with
    | nil => rfl
    | cons count entries =>
      have hrest : getFrom (a :: b :: reserved :: count :: entries) 4 = some entries :=
        if_pos (by simp)
      have hcount : (a :: b :: reserved :: count :: entries)[3]? = some count := rfl
      simp only [hrest, hcount, readU8, ask_some_bind, Option.bind_eq_bind, Option.bind_some, h]
      split_ifs
      · rfl
      · cases parse entries count.toNat with
        | none => rfl
        | some xs => rfl

theorem parseRoutePush_eq (a b : UInt8) (body : List UInt8) :
    parseRoutePush (a :: b :: body) = ask (ShadowVpn.parseRoutePush body) :=
  push_eq parseRoutes_nil MAX_ROUTES (fun routes => .routePush ⟨routes⟩) a b body

theorem parsePeerPush_eq (a b : UInt8) (body : List UInt8) :
    parsePeerPush (a :: b :: body) = ask (ShadowVpn.parsePeerPush body) :=
  push_eq parsePeers_nil MAX_PEERS (fun peers => .peerPush ⟨peers⟩) a b body

theorem parseAssignReq_eq (payload : List UInt8) :
    parseAssignReq payload = ask (ShadowVpn.parseAssignReq payload) := by
  unfold parseAssignReq ShadowVpn.parseAssignReq
  by_cases hlen : payload.length ≠ ASSIGN_REQ_LEN
  · rw [if_pos hlen, if_pos hlen]
  rw [if_neg hlen, if_neg hlen]
  have hlen : payload.length = 39 := not_not.1 hlen
  obtain ⟨id, hat, hread⟩ := nodeIdAt_eq (show 3 + 16 ≤ payload.length by omega)
  simp (disch := omega) only [index_eq, ipv4At_eq, arrayAt_eq, hat, hread, ok_bind, readIp4_drop,
    readIp6_drop, readU8_drop, Option.bind_eq_bind, Option.bind_some, Nat.reduceAdd]
  rfl

theorem parseAssign_eq (payload : List UInt8) :
    parseAssign payload = ask (ShadowVpn.parseAssign payload) := by
  unfold parseAssign ShadowVpn.parseAssign
  by_cases hlen : payload.length ≠ ASSIGN_LEN
  · rw [if_pos hlen, if_pos hlen]
  rw [if_neg hlen, if_neg hlen]
  have hlen : payload.length = 37 := not_not.1 hlen
  have hstatus : 2 < payload.length := by omega
  rw [index_eq hstatus, ok_bind, readU8_drop hstatus, Option.bind_eq_bind, Option.bind_some]
  dsimp only
  cases AssignStatus.fromU8 payload[2] with
  | none => rfl
  | some status =>
    simp (disch := omega) only [index_eq, ipv4At_eq, arrayAt_eq, ok_bind, readIp4_drop, readIp6_drop,
      readU8_drop, readBE_drop, Option.bind_eq_bind, Option.bind_some, Nat.reduceAdd, ask_some_bind]
    rfl

theorem parseControl_typed {ty : UInt8} (h : body.length ≠ 3) :
    parseControl (0 :: ty :: body) =
      if ty = TYPE_ROUTE_ADVERT then parseRouteAdvert (0 :: ty :: body)
      else if ty = TYPE_ROUTE_PUSH then parseRoutePush (0 :: ty :: body)
      else if ty = TYPE_ASSIGN_REQ then parseAssignReq (0 :: ty :: body)
      else if ty = TYPE_NAME_ADVERT then parseNameAdvert (0 :: ty :: body)
      else if ty = TYPE_PEER_PUSH then parsePeerPush (0 :: ty :: body)
      else if ty = TYPE_ASSIGN then parseAssign (0 :: ty :: body)
      else ask none := by
  match body, h with
  | [], _ => rfl
  | [_], _ => rfl
  | [_, _], _ => rfl
  | [_, _, _], h => exact absurd rfl h
  | _ :: _ :: _ :: _ :: _, _ => rfl

/-- No read of `parse_control` is out of bounds, and no conversion fails. -/
theorem parseControl_eq (payload : List UInt8) :
    parseControl payload = ask (ShadowVpn.parseControl payload) := by
  by_cases hctl : isControl payload
  swap
  · unfold parseControl ShadowVpn.parseControl
    rw [if_pos (by simp [hctl]), if_pos (by simp [hctl])]
  cases payload with
  | nil => cases hctl
  | cons x tail =>
    obtain rfl : x = 0 := by simpa [isControl, CONTROL_MARKER] using hctl
    cases tail with
    | nil => rfl
    | cons ty body =>
      by_cases hlen : body.length = 3
      · obtain ⟨a, b, c, rfl⟩ := List.length_eq_three.1 hlen
        rfl
      rw [parseControl_typed hlen, ShadowVpn.parseControl_typed hlen]
      split_ifs
      · exact parseRouteAdvert_eq 0 ty body
      · exact parseRoutePush_eq 0 ty body
      · exact parseAssignReq_eq _
      · exact parseNameAdvert_eq 0 ty body
      · exact parsePeerPush_eq 0 ty body
      · exact parseAssign_eq _
      · rfl

end Checked

/-! The table of formats covers exactly the payloads that spell a message. -/

attribute [local irreducible] octets4 octets6

theorem filled_of_words {α : Type} {L : List UInt8 → α → Prop} {E : List UInt8 → Prop}
    (hE : ∀ w a, L w a → E w) {buf : List UInt8} {as : List α} (h : Words L buf as) :
    Filled E as.length buf := by
  induction h with
  | nil => exact ⟨[], rfl, by simp, rfl⟩
  | cons hw _ ih =>
    obtain ⟨ws, hlen, hall, rfl⟩ := ih
    exact ⟨_ :: ws, by simp [hlen], List.forall_mem_cons.2 ⟨hE _ _ hw, hall⟩, rfl⟩

theorem words_of_filled {α : Type} {L : List UInt8 → α → Prop} {E : List UInt8 → Prop}
    (hE : ∀ w, E w → ∃ a, L w a) {buf : List UInt8} {n : ℕ} (h : Filled E n buf) :
    ∃ as, as.length = n ∧ Words L buf as := by
  obtain ⟨ws, rfl, hall, rfl⟩ := h
  induction ws with
  | nil => exact ⟨[], rfl, Words.nil⟩
  | cons w ws ih =>
    obtain ⟨hw, hall⟩ := List.forall_mem_cons.1 hall
    obtain ⟨a, ha⟩ := hE w hw
    obtain ⟨as, hlen, hwords⟩ := ih hall
    exact ⟨a :: as, by simp [hlen], Words.cons ha hwords⟩

theorem exists_octets6 {buf : List UInt8} (h : buf.length = 16) : ∃ ip, buf = octets6 ip :=
  ⟨_, eq_octets6_iff.2 ⟨h, rfl⟩⟩

/-- Twenty bytes are an IPv4 and an IPv6 address. -/
theorem exists_addrs {buf : List UInt8} (h : buf.length = 20) :
    ∃ ip4 ip6, buf = octets4 ip4 ++ octets6 ip6 := by
  obtain ⟨ip4, h4⟩ := exists_octets4 (show (buf.take 4).length = 4 by simp [h])
  obtain ⟨ip6, h6⟩ := exists_octets6 (show (buf.drop 4).length = 16 by simp [h])
  exact ⟨ip4, ip6, by rw [← h4, ← h6, List.take_append_drop]⟩

theorem routeFormat_iff {w : List UInt8} : RouteFormat w ↔ ∃ net, RouteEntry w net := by
  constructor
  · intro h
    cases h with
    | v4 hp ha =>
      obtain ⟨ip, rfl⟩ := exists_octets4 ha
      exact ⟨_, RouteEntry.v4 ip _ hp⟩
    | v6 hp ha =>
      obtain ⟨ip, rfl⟩ := exists_octets6 ha
      exact ⟨_, RouteEntry.v6 ip _ hp⟩
  · rintro ⟨net, h⟩
    cases h with
    | v4 ip plen hp => exact RouteFormat.v4 hp (length_octets4 ip)
    | v6 ip plen hp => exact RouteFormat.v6 hp (length_octets6 ip)

theorem peerFormat_iff {w : List UInt8} : PeerFormat w ↔ ∃ p, PeerSpelling w p := by
  constructor
  · intro h
    cases h with
    | @entry head _ nlen hh hn hlen hu =>
      obtain ⟨name, rfl⟩ := hu
      match head, hh with
      | eflags :: addrs, hh =>
        obtain ⟨ip4, ip6, rfl⟩ := exists_addrs (show addrs.length = 20 by simpa using hh)
        have hentry := PeerSpelling.entry eflags ip4 ip6 name (hlen ▸ hn)
        rw [hlen, UInt8.ofNat_toNat] at hentry
        exact ⟨_, by simpa using hentry⟩
  · rintro ⟨p, eflags, ip4, ip6, name, hlen⟩
    have hnat := toNat_ofNat_of_le hlen (by decide)
    have hhead : (eflags :: (octets4 ip4 ++ octets6 ip6)).length = 21 := by simp
    have hformat := PeerFormat.entry hhead (hnat.trans_le hlen) hnat.symm ⟨name, rfl⟩
    simpa using hformat

theorem typedFormat_of_spells {b : List UInt8} {c : Control} (h : Spells b c) :
    b.length = 1 ∨ b.length = 5 ∨ (b.length ≠ 1 ∧ b.length ≠ 5 ∧ TypedFormat b) := by
  -- a body is not three bytes long, so a typed payload is not five
  have htyped : ∀ {ty : UInt8} {body : List UInt8}, body.length ≠ 3 →
      TypedFormat (0 :: ty :: body) → (0 :: ty :: body).length ≠ 1 ∧
        (0 :: ty :: body).length ≠ 5 ∧ TypedFormat (0 :: ty :: body) := by
    intro ty body hne ht
    exact ⟨by simp, by simpa using hne, ht⟩
  cases h with
  | keepalive => exact Or.inl rfl
  | keepaliveFrom ip => exact Or.inr (Or.inl (by simp))
  | routeAdvert h =>
    refine Or.inr (Or.inr (htyped h.length_ne ?_))
    obtain ⟨flags, ip4, ip6, hlen, hwords⟩ := h
    have hnat := toNat_ofNat_of_le hlen (by decide)
    have hfilled := filled_of_words (fun w net hw => routeFormat_iff.2 ⟨net, hw⟩) hwords
    rw [← hnat] at hfilled hlen
    have haddrs : (octets4 ip4 ++ octets6 ip6).length = 20 := by simp
    rw [← List.append_assoc]
    exact TypedFormat.routeAdvert haddrs hlen hfilled
  | routePush h =>
    refine Or.inr (Or.inr (htyped h.length_ne ?_))
    obtain ⟨reserved, hlen, hwords⟩ := h
    have hnat := toNat_ofNat_of_le hlen (by decide)
    have hfilled := filled_of_words (fun w net hw => routeFormat_iff.2 ⟨net, hw⟩) hwords
    rw [← hnat] at hfilled hlen
    exact TypedFormat.routePush hlen hfilled
  | assignReq h =>
    have hlen := h.length_eq
    exact Or.inr (Or.inr (htyped (by omega) (TypedFormat.assignReq (by simp [hlen]))))
  | assign h =>
    have hlen := h.length_eq
    refine Or.inr (Or.inr (htyped (by omega) ?_))
    obtain ⟨status, _, _, _, _, _, _, _⟩ := h
    exact TypedFormat.assign (by cases status <;> decide) (by simp)
  | nameAdvert h =>
    refine Or.inr (Or.inr (htyped h.length_ne ?_))
    obtain ⟨flags, ip4, ip6, name, hlen⟩ := h
    have hnat := toNat_ofNat_of_le hlen (by decide)
    have haddrs : (octets4 ip4 ++ octets6 ip6).length = 20 := by simp
    rw [← List.append_assoc]
    exact TypedFormat.nameAdvert haddrs (hnat.trans_le hlen) hnat.symm ⟨name, rfl⟩
  | peerPush h =>
    refine Or.inr (Or.inr (htyped h.length_ne ?_))
    obtain ⟨reserved, hlen, hwords⟩ := h
    have hnat := toNat_ofNat_of_le hlen (by decide)
    have hfilled := filled_of_words (fun w p hw => peerFormat_iff.2 ⟨p, hw⟩) hwords
    rw [← hnat] at hfilled hlen
    exact TypedFormat.peerPush hlen hfilled

theorem exists_split {buf : List UInt8} {n k : ℕ} (h : buf.length = n + k) :
    ∃ w rest, buf = w ++ rest ∧ w.length = n ∧ rest.length = k :=
  ⟨buf.take n, buf.drop n, (List.take_append_drop n buf).symm, by simp [h], by simp [h]⟩

theorem exists_assignReqBody {body : List UInt8} (h : body.length = 37) :
    ∃ m, AssignReqBody body m := by
  obtain ⟨flags, rest, rfl, hf, hrest⟩ := exists_split (n := 1) (k := 36) h
  obtain ⟨flags, rfl⟩ := List.length_eq_one_iff.1 hf
  obtain ⟨id, rest, rfl, hid, hrest⟩ := exists_split (n := 16) (k := 20) hrest
  obtain ⟨ip4, ip6, rfl⟩ := exists_addrs hrest
  exact ⟨_, AssignReqBody.body flags ⟨id, hid⟩ ip4 ip6⟩

theorem exists_status {b : UInt8} (h : b.toNat ≤ 2) : ∃ s : AssignStatus, b = s.toU8 := by
  have hb : b = 0 ∨ b = 1 ∨ b = 2 := by
    simp only [← UInt8.toNat_inj, UInt8.toNat_ofNat]
    omega
  rcases hb with rfl | rfl | rfl
  · exact ⟨.ok, rfl⟩
  · exact ⟨.exhausted, rfl⟩
  · exact ⟨.natMode, rfl⟩

theorem exists_assignBody {status : UInt8} {rest : List UInt8} (hs : status.toNat ≤ 2)
    (h : rest.length = 34) : ∃ m, AssignBody (status :: rest) m := by
  obtain ⟨status, rfl⟩ := exists_status hs
  obtain ⟨tun, rest, rfl, htun, h30⟩ := exists_split (n := 4) (k := 30) h
  obtain ⟨mask, rest, rfl, hmask, h26⟩ := exists_split (n := 4) (k := 26) h30
  obtain ⟨peer, rest, rfl, hpeer, h22⟩ := exists_split (n := 4) (k := 22) h26
  obtain ⟨ip6, rest, rfl, hip6, h6⟩ := exists_split (n := 16) (k := 6) h22
  obtain ⟨tunIp, rfl⟩ := exists_octets4 htun
  obtain ⟨netmask, rfl⟩ := exists_octets4 hmask
  obtain ⟨peerIp, rfl⟩ := exists_octets4 hpeer
  obtain ⟨ip6, rfl⟩ := exists_octets6 hip6
  obtain ⟨plen6, rest, rfl, hplen6, h5⟩ := exists_split (n := 1) (k := 5) h6
  obtain ⟨flags, ttl, rfl, hflags, httl⟩ := exists_split (n := 1) (k := 4) h5
  obtain ⟨plen6, rfl⟩ := List.length_eq_one_iff.1 hplen6
  obtain ⟨flags, rfl⟩ := List.length_eq_one_iff.1 hflags
  have hbody := AssignBody.body status tunIp netmask peerIp ip6 plen6 flags (UInt32.ofNat (ofBE ttl))
  rw [← eq_ttl_iff.2 ⟨httl, rfl⟩] at hbody
  exact ⟨_, hbody⟩

theorem exists_spells_of_typedFormat {b : List UInt8} (h : TypedFormat b) : ∃ c, Spells b c := by
  cases h with
  | @routeAdvert third count addrs entries ha hc he =>
    obtain ⟨ip4, ip6, rfl⟩ := exists_addrs ha
    obtain ⟨routes, hlen, hwords⟩ := words_of_filled (fun w => routeFormat_iff.1) he
    have hbody := RouteAdvertBody.body third ip4 ip6 (hlen.trans_le hc) hwords
    rw [hlen, UInt8.ofNat_toNat] at hbody
    exact ⟨_, by simpa using Spells.routeAdvert hbody⟩
  | @routePush third count entries hc he =>
    obtain ⟨routes, hlen, hwords⟩ := words_of_filled (fun w => routeFormat_iff.1) he
    have hbody := RoutePushBody.body third (hlen.trans_le hc) hwords
    rw [hlen, UInt8.ofNat_toNat] at hbody
    exact ⟨_, Spells.routePush hbody⟩
  | assignReq hlen =>
    obtain ⟨m, hbody⟩ := exists_assignReqBody (by simpa using hlen)
    exact ⟨_, Spells.assignReq hbody⟩
  | assign hs hlen =>
    obtain ⟨m, hbody⟩ := exists_assignBody hs (by simpa using hlen)
    exact ⟨_, Spells.assign hbody⟩
  | @nameAdvert third nlen addrs _ ha hn hlen hu =>
    obtain ⟨ip4, ip6, rfl⟩ := exists_addrs ha
    obtain ⟨name, rfl⟩ := hu
    have hbody := NameAdvertBody.body third ip4 ip6 name (hlen.trans_le hn)
    rw [hlen, UInt8.ofNat_toNat] at hbody
    exact ⟨_, by simpa using Spells.nameAdvert hbody⟩
  | @peerPush third count entries hc he =>
    obtain ⟨peers, hlen, hwords⟩ := words_of_filled (fun w => peerFormat_iff.1) he
    have hbody := PeerPushBody.body third (hlen.trans_le hc) hwords
    rw [hlen, UInt8.ofNat_toNat] at hbody
    exact ⟨_, Spells.peerPush hbody⟩

/-- The documented payloads are the messages. -/
theorem documented_iff {b : List UInt8} : Documented b ↔ ∃ c, Spells b c := by
  constructor
  · rintro ⟨hhead, hlen | hlen | ⟨-, -, ht⟩⟩
    · obtain ⟨x, rfl⟩ := List.length_eq_one_iff.1 hlen
      obtain rfl : x = 0 := by simpa using hhead
      exact ⟨_, Spells.keepalive⟩
    · obtain ⟨tail, rfl⟩ : ∃ tail, b = 0 :: tail := ⟨b.tail, List.eq_cons_of_mem_head? hhead⟩
      obtain ⟨ip, rfl⟩ := exists_octets4 (show tail.length = 4 by simpa using hlen)
      exact ⟨_, Spells.keepaliveFrom ip⟩
    · exact exists_spells_of_typedFormat ht
  · rintro ⟨c, h⟩
    refine ⟨?_, typedFormat_of_spells h⟩
    cases h <;> rfl

end ShadowVpn
