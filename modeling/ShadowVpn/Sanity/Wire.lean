import ShadowVpn.Spec.Grammar

/-! The parser reads the grammar: one law for each field, then for each message, and
`parse_control` returns a message exactly on its spellings. -/

namespace ShadowVpn

open Lib

variable {buf body : List UInt8} {c : Control}

/-! Fields. -/

theorem eq_octets4_iff {w : List UInt8} {ip : Ipv4Addr} :
    w = octets4 ip ↔ w.length = 4 ∧ BitVec.ofNat 32 (ofBE w) = ip :=
  eq_toBE_iff (by norm_num)

theorem eq_octets6_iff {w : List UInt8} {ip : Ipv6Addr} :
    w = octets6 ip ↔ w.length = 16 ∧ BitVec.ofNat 128 (ofBE w) = ip :=
  eq_toBE_iff (by norm_num)

@[simp] theorem length_octets4 (ip : Ipv4Addr) : (octets4 ip).length = 4 := length_toBE _ _

@[simp] theorem length_octets6 (ip : Ipv6Addr) : (octets6 ip).length = 16 := length_toBE _ _

theorem length_asBytes (s : Text) : (asBytes s).length = byteLen s := by
  rw [asBytes]
  induction s with
  | nil => rfl
  | cons c s ih =>
    rw [Utf8.encode_cons, List.length_append, String.length_utf8EncodeChar, ih, byteLen, byteLen,
      List.map_cons, List.sum_cons]

-- from here on an address is opaque, so that no step compares it byte by byte
attribute [local irreducible] octets4 octets6

theorem readU8_reads : Reads readU8 fun w b => w = [b] := by
  intro buf b rest
  cases buf with
  | nil => simp [readU8]
  | cons x xs => simp [readU8]

theorem readBE_reads (n : ℕ) : Reads (readBE n) fun w v => w.length = n ∧ ofBE w = v := by
  intro buf v rest
  unfold readBE
  constructor
  · intro h
    split_ifs at h with hn
    cases h
    exact ⟨buf.take n, ⟨by simp [hn], rfl⟩, (List.take_append_drop n buf).symm⟩
  · rintro ⟨w, ⟨rfl, rfl⟩, rfl⟩
    rw [if_pos (by simp), List.take_left, List.drop_left]
    rfl

/-- A reader whose value is converted. -/
theorem reads_map {α β : Type} {r : Reader α} {L : Bytes → α → Prop} (h : Reads r L) (f : α → β) :
    Reads (fun buf => (r buf).map fun p => (f p.1, p.2)) fun w b => ∃ a, L w a ∧ f a = b := by
  intro buf b rest
  constructor
  · intro hm
    obtain ⟨⟨a, rest'⟩, hr, he⟩ := Option.map_eq_some_iff.1 hm
    cases he
    obtain ⟨w, hw, hbuf⟩ := (h buf a rest').1 hr
    exact ⟨w, ⟨a, hw, rfl⟩, hbuf⟩
  · rintro ⟨w, ⟨a, hw, rfl⟩, hbuf⟩
    have hr := (h buf a rest).2 ⟨w, hw, hbuf⟩
    simp [hr]

theorem readIp4_reads : Reads readIp4 fun w ip => w = octets4 ip := by
  intro buf ip rest
  refine (reads_map (readBE_reads 4) (BitVec.ofNat 32) buf ip rest).trans ?_
  simp [eq_octets4_iff]

theorem readIp6_reads : Reads readIp6 fun w ip => w = octets6 ip := by
  intro buf ip rest
  refine (reads_map (readBE_reads 16) (BitVec.ofNat 128) buf ip rest).trans ?_
  simp [eq_octets6_iff]

theorem readNodeId_reads : Reads readNodeId fun w id => w = id.bytes := by
  intro buf id rest
  unfold readNodeId
  constructor
  · intro h
    split_ifs at h with hn
    cases h
    exact ⟨_, rfl, (List.take_append_drop 16 buf).symm⟩
  · rintro ⟨_, rfl, rfl⟩
    obtain ⟨bytes, hlen⟩ := id
    have hn : 16 ≤ (bytes ++ rest).length := by
      rw [List.length_append, hlen]
      omega
    rw [dif_pos hn]
    simp only [List.take_left' hlen, List.drop_left' hlen]

theorem cidr_new_eq_some {w : ℕ} {ip : BitVec w} {plen : UInt8} {n : Cidr w} :
    Cidr.new ip plen = some n ↔ ∃ h, n = ⟨ip, plen, h⟩ := by
  unfold Cidr.new
  split_ifs with h
  · simp [h, eq_comm]
  · simp [h]

theorem fromUtf8_eq_some {w : List UInt8} {s : Text} : fromUtf8 w = some s ↔ w = asBytes s :=
  Utf8.decode_eq_some

theorem parseRoute_reads : Reads parseRoute RouteEntry := by
  intro buf net rest
  simp only [parseRoute, readU8_reads.bind_eq_some]
  constructor
  · rintro ⟨_, family, _, rfl, rfl, _, plen, buf, rfl, rfl, h⟩
    split_ifs at h with h4 h6
    · obtain ⟨_, ip, buf, rfl, rfl, hnew⟩ := readIp4_reads.bind_eq_some.1 h
      obtain ⟨n, hn, heq⟩ := Option.bind_eq_some_iff.1 hnew
      obtain ⟨hp, rfl⟩ := cidr_new_eq_some.1 hn
      cases heq
      exact ⟨_, RouteEntry.v4 ip plen hp, by simp [h4]⟩
    · obtain ⟨_, ip, buf, rfl, rfl, hnew⟩ := readIp6_reads.bind_eq_some.1 h
      obtain ⟨n, hn, heq⟩ := Option.bind_eq_some_iff.1 hnew
      obtain ⟨hp, rfl⟩ := cidr_new_eq_some.1 hn
      cases heq
      exact ⟨_, RouteEntry.v6 ip plen hp, by simp [h6]⟩
  · rintro ⟨w, hw, rfl⟩
    cases hw with
    | v4 ip plen hp =>
      refine ⟨_, 4, _, rfl, rfl, _, plen, _, rfl, rfl, ?_⟩
      rw [if_pos rfl]
      apply readIp4_reads.bind_eq_some.2
      refine ⟨_, ip, rest, rfl, rfl, ?_⟩
      exact Option.bind_eq_some_iff.2 ⟨_, cidr_new_eq_some.2 ⟨hp, rfl⟩, rfl⟩
    | v6 ip plen hp =>
      refine ⟨_, 6, _, rfl, rfl, _, plen, _, rfl, rfl, ?_⟩
      rw [if_neg (by decide), if_pos rfl]
      apply readIp6_reads.bind_eq_some.2
      refine ⟨_, ip, rest, rfl, rfl, ?_⟩
      exact Option.bind_eq_some_iff.2 ⟨_, cidr_new_eq_some.2 ⟨hp, rfl⟩, rfl⟩

theorem parseRoutes_eq_readAll (n : ℕ) : parseRoutes buf n = readAll parseRoute buf n := by
  induction n generalizing buf with
  | zero => rfl
  | succ n ih =>
    unfold parseRoutes readAll
    simp only [ih]

theorem parseRoutes_eq_some {n : ℕ} {routes : List IpNetwork} :
    parseRoutes buf n = some routes ↔ routes.length = n ∧ Words RouteEntry buf routes := by
  rw [parseRoutes_eq_readAll]
  exact parseRoute_reads.readAll_eq_some

/-- A length byte below 256 is read back. -/
theorem toNat_ofNat_of_le {n m : ℕ} (h : n ≤ m) (hm : m < 256) : (UInt8.ofNat n).toNat = n := by
  rw [UInt8.toNat_ofNat']
  omega

theorem parsePeer_reads : Reads parsePeer PeerSpelling := by
  intro buf peer rest
  simp only [parsePeer, readU8_reads.bind_eq_some, readIp4_reads.bind_eq_some,
    readIp6_reads.bind_eq_some]
  constructor
  · rintro ⟨_, eflags, _, rfl, rfl, _, ip4, _, rfl, rfl, _, ip6, _, rfl, rfl, _, nlen, buf, rfl,
      rfl, h⟩
    by_cases hmax : nlen.toNat > MAX_NAME_LEN
    · rw [if_pos hmax] at h
      cases h
    rw [if_neg hmax] at h
    by_cases hshort : buf.length < nlen.toNat
    · rw [if_pos hshort] at h
      cases h
    rw [if_neg hshort] at h
    obtain ⟨name, hname, heq⟩ := Option.bind_eq_some_iff.1 h
    cases heq
    have hbytes := fromUtf8_eq_some.1 hname
    have hlen : (asBytes name).length = nlen.toNat := by
      rw [← hbytes, List.length_take]
      omega
    refine ⟨_, PeerSpelling.entry eflags ip4 ip6 name (by omega), ?_⟩
    rw [hlen, UInt8.ofNat_toNat, ← hbytes]
    simp
  · rintro ⟨w, hw, rfl⟩
    obtain ⟨eflags, ip4, ip6, name, hlen⟩ := hw
    have hnat := toNat_ofNat_of_le hlen (by decide)
    refine ⟨_, eflags, _, rfl, rfl, _, ip4, _, rfl, List.append_assoc _ _ _, _, ip6, _, rfl,
      List.append_assoc _ _ _, _, _, asBytes name ++ rest, rfl, rfl, ?_⟩
    rw [hnat, if_neg (by omega), if_neg (by simp), List.take_left' rfl, List.drop_left' rfl]
    exact Option.bind_eq_some_iff.2 ⟨name, fromUtf8_eq_some.2 rfl, rfl⟩

theorem parsePeers_eq_readAll (n : ℕ) : parsePeers buf n = readAll parsePeer buf n := by
  induction n generalizing buf with
  | zero => rfl
  | succ n ih =>
    unfold parsePeers readAll
    simp only [ih]

theorem parsePeers_eq_some {n : ℕ} {peers : List PeerEntry} :
    parsePeers buf n = some peers ↔ peers.length = n ∧ Words PeerSpelling buf peers := by
  rw [parsePeers_eq_readAll]
  exact parsePeer_reads.readAll_eq_some

/-! Messages. -/

theorem parseRouteAdvert_eq_some :
    parseRouteAdvert body = some c ↔ ∃ m, RouteAdvertBody body m ∧ c = .routeAdvert m := by
  simp only [parseRouteAdvert, Option.ite_none_left_eq_some, readU8_reads.bind_eq_some,
    readIp4_reads.bind_eq_some, readIp6_reads.bind_eq_some]
  constructor
  · rintro ⟨-, _, flags, _, rfl, rfl, _, ip4, _, rfl, rfl, _, ip6, _, rfl, rfl, _, count, entries,
      rfl, rfl, hmax, h⟩
    obtain ⟨routes, hroutes, heq⟩ := Option.bind_eq_some_iff.1 h
    obtain ⟨hlen, hwords⟩ := parseRoutes_eq_some.1 hroutes
    cases heq
    have hbody := RouteAdvertBody.body flags ip4 ip6 (by omega) hwords
    rw [hlen, UInt8.ofNat_toNat] at hbody
    exact ⟨_, hbody, rfl⟩
  · rintro ⟨m, ⟨flags, ip4, ip6, hlen, hwords⟩, rfl⟩
    have hnat := toNat_ofNat_of_le hlen (by decide)
    refine ⟨?_, _, flags, _, rfl, rfl, _, ip4, _, rfl, rfl, _, ip6, _, rfl, rfl, _, _, _, rfl, rfl,
      by omega, ?_⟩
    · simp [ADVERT_HEADER_LEN]
      omega
    exact Option.bind_eq_some_iff.2 ⟨_, parseRoutes_eq_some.2 ⟨hnat.symm, hwords⟩, rfl⟩

/-- Both pushes are a reserved byte, a count and that many entries. -/
theorem push_eq_some {α : Type} {L : List UInt8 → α → Prop}
    {parse : List UInt8 → ℕ → Option (List α)}
    (hparse : ∀ {buf n xs}, parse buf n = some xs ↔ xs.length = n ∧ Words L buf xs) {m : ℕ}
    (hm : m < 256) (wrap : List α → Control) :
    (do
      let (_, buf) ← readU8 body
      let (count, buf) ← readU8 buf
      if count.toNat > m then none else
      let xs ← parse buf count.toNat
      some (wrap xs)) = some c ↔
    ∃ reserved xs entries, body = reserved :: UInt8.ofNat xs.length :: entries ∧ xs.length ≤ m ∧
      Words L entries xs ∧ c = wrap xs := by
  simp only [Option.ite_none_left_eq_some, readU8_reads.bind_eq_some]
  constructor
  · rintro ⟨_, reserved, _, rfl, rfl, _, count, entries, rfl, rfl, hmax, h⟩
    obtain ⟨xs, hxs, heq⟩ := Option.bind_eq_some_iff.1 h
    obtain ⟨hlen, hwords⟩ := hparse.1 hxs
    cases heq
    refine ⟨reserved, xs, entries, ?_, by omega, hwords, rfl⟩
    rw [hlen, UInt8.ofNat_toNat]
    rfl
  · rintro ⟨reserved, xs, entries, rfl, hlen, hwords, rfl⟩
    have hnat := toNat_ofNat_of_le hlen hm
    refine ⟨_, reserved, _, rfl, rfl, _, _, _, rfl, rfl, by omega, ?_⟩
    exact Option.bind_eq_some_iff.2 ⟨_, hparse.2 ⟨hnat.symm, hwords⟩, rfl⟩

theorem parseRoutePush_eq_some :
    parseRoutePush body = some c ↔ ∃ m, RoutePushBody body m ∧ c = .routePush m := by
  refine (push_eq_some parseRoutes_eq_some (m := MAX_ROUTES) (by decide)
    fun routes => .routePush ⟨routes⟩).trans ⟨?_, ?_⟩
  · rintro ⟨reserved, routes, entries, rfl, hlen, hwords, rfl⟩
    exact ⟨_, RoutePushBody.body reserved hlen hwords, rfl⟩
  · rintro ⟨_, ⟨reserved, hlen, hwords⟩, rfl⟩
    exact ⟨reserved, _, _, rfl, hlen, hwords, rfl⟩

theorem parsePeerPush_eq_some :
    parsePeerPush body = some c ↔ ∃ m, PeerPushBody body m ∧ c = .peerPush m := by
  refine (push_eq_some parsePeers_eq_some (m := MAX_PEERS) (by decide)
    fun peers => .peerPush ⟨peers⟩).trans ⟨?_, ?_⟩
  · rintro ⟨reserved, peers, entries, rfl, hlen, hwords, rfl⟩
    exact ⟨_, PeerPushBody.body reserved hlen hwords, rfl⟩
  · rintro ⟨_, ⟨reserved, hlen, hwords⟩, rfl⟩
    exact ⟨reserved, _, _, rfl, hlen, hwords, rfl⟩

theorem parseNameAdvert_eq_some :
    parseNameAdvert body = some c ↔ ∃ m, NameAdvertBody body m ∧ c = .nameAdvert m := by
  simp only [parseNameAdvert, Option.ite_none_left_eq_some, readU8_reads.bind_eq_some,
    readIp4_reads.bind_eq_some, readIp6_reads.bind_eq_some]
  constructor
  · rintro ⟨-, _, flags, _, rfl, rfl, _, ip4, _, rfl, rfl, _, ip6, _, rfl, rfl, _, nlen, bytes,
      rfl, rfl, hmax, hlen, h⟩
    obtain ⟨name, hname, heq⟩ := Option.bind_eq_some_iff.1 h
    obtain rfl := fromUtf8_eq_some.1 hname
    cases heq
    have hbody := NameAdvertBody.body flags ip4 ip6 name (by omega)
    rw [not_not.1 hlen, UInt8.ofNat_toNat] at hbody
    exact ⟨_, hbody, rfl⟩
  · rintro ⟨m, ⟨flags, ip4, ip6, name, hlen⟩, rfl⟩
    have hnat := toNat_ofNat_of_le hlen (by decide)
    refine ⟨?_, _, flags, _, rfl, rfl, _, ip4, _, rfl, rfl, _, ip6, _, rfl, rfl, _, _, asBytes name,
      rfl, rfl, by omega, by omega, ?_⟩
    · simp [NAME_ADVERT_HEADER_LEN]
      omega
    exact Option.bind_eq_some_iff.2 ⟨name, fromUtf8_eq_some.2 rfl, rfl⟩

/-- The exact length leaves nothing after the last field. -/
theorem parseAssignReq_eq_some {a b : UInt8} :
    parseAssignReq (a :: b :: body) = some c ↔ ∃ m, AssignReqBody body m ∧ c = .assignReq m := by
  simp only [parseAssignReq, Option.ite_none_left_eq_some, readU8_reads.bind_eq_some,
    readIp4_reads.bind_eq_some, readIp6_reads.bind_eq_some, readNodeId_reads.bind_eq_some,
    List.drop_succ_cons, List.drop_zero]
  constructor
  · rintro ⟨hlen, _, flags, _, rfl, rfl, _, nodeId, _, rfl, rfl, _, hint4, _, rfl, rfl, _, hint6,
      rest, rfl, rfl, heq⟩
    cases heq
    have hrest : rest = [] := by
      rw [← List.length_eq_zero_iff]
      simp [nodeId.len, ASSIGN_REQ_LEN] at hlen
      omega
    subst hrest
    rw [List.append_nil]
    exact ⟨_, AssignReqBody.body flags nodeId hint4 hint6, rfl⟩
  · rintro ⟨m, ⟨flags, nodeId, hint4, hint6⟩, rfl⟩
    refine ⟨by simp [nodeId.len, ASSIGN_REQ_LEN], _, flags, _, rfl, rfl, _, nodeId, _, rfl,
      rfl, _, hint4, _, rfl, rfl, _, hint6, [], rfl, (List.append_nil _).symm, rfl⟩

theorem fromU8_eq_some {b : UInt8} {s : AssignStatus} :
    AssignStatus.fromU8 b = some s ↔ b = s.toU8 := by
  unfold AssignStatus.fromU8
  split
  · cases s <;> simp [AssignStatus.toU8]
  · cases s <;> simp [AssignStatus.toU8]
  · cases s <;> simp [AssignStatus.toU8]
  · cases s <;> simp_all [AssignStatus.toU8]

theorem eq_ttl_iff {w : List UInt8} {ttl : UInt32} :
    w = toBE 4 ttl.toNat ↔ w.length = 4 ∧ UInt32.ofNat (ofBE w) = ttl := by
  have h := eq_toBE_iff (n := 4) (k := 32) (by norm_num) (w := w) (a := ttl.toBitVec)
  rw [← UInt32.toNat_toBitVec, h]
  refine and_congr_right fun _ => ?_
  rw [← UInt32.toBitVec_inj]
  rfl

theorem parseAssign_eq_some {a b : UInt8} :
    parseAssign (a :: b :: body) = some c ↔ ∃ m, AssignBody body m ∧ c = .assign m := by
  simp only [parseAssign, Option.ite_none_left_eq_some, readU8_reads.bind_eq_some,
    List.drop_succ_cons, List.drop_zero]
  constructor
  · rintro ⟨hlen, _, byte, _, rfl, rfl, h⟩
    obtain ⟨status, hstatus, hrest⟩ := Option.bind_eq_some_iff.1 h
    obtain rfl := fromU8_eq_some.1 hstatus
    simp only [readU8_reads.bind_eq_some, readIp4_reads.bind_eq_some, readIp6_reads.bind_eq_some,
      (readBE_reads 4).bind_eq_some] at hrest
    obtain ⟨_, tunIp, _, rfl, rfl, _, netmask, _, rfl, rfl, _, peerIp, _, rfl, rfl, _, ip6, _, rfl,
      rfl, _, plen6, _, rfl, rfl, _, flags, _, rfl, rfl, ttl, _, rest, ⟨httl, rfl⟩, rfl, heq⟩ := hrest
    cases heq
    have hrest : rest = [] := by
      rw [← List.length_eq_zero_iff]
      simp [httl, ASSIGN_LEN] at hlen
      omega
    subst hrest
    have hbody := AssignBody.body status tunIp netmask peerIp ip6 plen6 flags
      (UInt32.ofNat (ofBE ttl))
    rw [← eq_ttl_iff.2 ⟨httl, rfl⟩] at hbody
    rw [List.append_nil]
    exact ⟨_, hbody, rfl⟩
  · rintro ⟨m, ⟨status, tunIp, netmask, peerIp, ip6, plen6, flags, ttlSecs⟩, rfl⟩
    refine ⟨by simp [ASSIGN_LEN], _, status.toU8, _, rfl, rfl, ?_⟩
    apply Option.bind_eq_some_iff.2
    refine ⟨status, fromU8_eq_some.2 rfl, ?_⟩
    simp only [readU8_reads.bind_eq_some, readIp4_reads.bind_eq_some, readIp6_reads.bind_eq_some,
      (readBE_reads 4).bind_eq_some]
    obtain ⟨httl, hval⟩ := eq_ttl_iff.1 (rfl : toBE 4 ttlSecs.toNat = _)
    refine ⟨_, tunIp, _, rfl, rfl, _, netmask, _, rfl, rfl, _, peerIp, _, rfl, rfl, _, ip6, _, rfl,
      rfl, _, plen6, _, rfl, rfl, _, flags, _, rfl, rfl, _, _, [], ⟨httl, rfl⟩,
      (List.append_nil _).symm, ?_⟩
    rw [hval]

/-! No body has three bytes, so a typed payload is never as long as a keepalive. -/

theorem RouteEntry.le_length {w : List UInt8} {net : IpNetwork} (h : RouteEntry w net) :
    6 ≤ w.length := by
  cases h with
  | v4 => simp
  | v6 => simp

theorem PeerSpelling.le_length {w : List UInt8} {p : PeerEntry} (h : PeerSpelling w p) :
    22 ≤ w.length := by
  obtain ⟨_, _, _, name, _⟩ := h
  simp
  omega

theorem RouteAdvertBody.length_ne {m : RouteAdvert} (h : RouteAdvertBody body m) :
    body.length ≠ 3 := by
  obtain ⟨_, _, _, _, _⟩ := h
  simp
  omega

theorem RoutePushBody.length_ne {m : RoutePush} (h : RoutePushBody body m) : body.length ≠ 3 := by
  obtain ⟨_, _, hwords⟩ := h
  have hle := hwords.le_length fun _ _ => RouteEntry.le_length
  rw [← List.length_eq_zero_iff] at hle
  simp only [List.length_cons]
  omega

theorem AssignReqBody.length_eq {m : AssignReq} (h : AssignReqBody body m) : body.length = 37 := by
  obtain ⟨_, nodeId, _, _⟩ := h
  simp [nodeId.len]

theorem AssignBody.length_eq {m : Assign} (h : AssignBody body m) : body.length = 35 := by
  obtain ⟨⟩ := h
  simp

theorem NameAdvertBody.length_ne {m : NameAdvert} (h : NameAdvertBody body m) :
    body.length ≠ 3 := by
  obtain ⟨_, _, _, _, _⟩ := h
  simp
  omega

theorem PeerPushBody.length_ne {m : PeerPush} (h : PeerPushBody body m) : body.length ≠ 3 := by
  obtain ⟨_, _, hwords⟩ := h
  have hle := hwords.le_length fun _ _ => PeerSpelling.le_length
  rw [← List.length_eq_zero_iff] at hle
  simp only [List.length_cons]
  omega

theorem PeerPushBody.length_le {m : PeerPush} (h : PeerPushBody body m) :
    m.peers.length ≤ MAX_PEERS := by
  obtain ⟨_, hlen, _⟩ := h
  exact hlen

/-! The dispatch. -/

/-- Every payload but the two keepalive shapes goes by its type byte. -/
theorem parseControl_typed {ty : UInt8} (h : body.length ≠ 3) :
    parseControl (0 :: ty :: body) =
      if ty = TYPE_ROUTE_ADVERT then parseRouteAdvert body
      else if ty = TYPE_ROUTE_PUSH then parseRoutePush body
      else if ty = TYPE_ASSIGN_REQ then parseAssignReq (0 :: ty :: body)
      else if ty = TYPE_NAME_ADVERT then parseNameAdvert body
      else if ty = TYPE_PEER_PUSH then parsePeerPush body
      else if ty = TYPE_ASSIGN then parseAssign (0 :: ty :: body)
      else none := by
  match body, h with
  | [], _ => rfl
  | [_], _ => rfl
  | [_, _], _ => rfl
  | [_, _, _], h => exact absurd rfl h
  | _ :: _ :: _ :: _ :: _, _ => rfl

theorem parseControl_five (p q r s : UInt8) :
    parseControl [0, p, q, r, s] = (readIp4 [p, q, r, s]).map fun i => .keepalive (some i.1) := rfl

/-- Four bytes are an address. -/
theorem exists_octets4 (h : buf.length = 4) : ∃ ip, buf = octets4 ip :=
  ⟨_, eq_octets4_iff.2 ⟨h, rfl⟩⟩

theorem parseControl_keepalive (ip : Ipv4Addr) :
    parseControl (0 :: octets4 ip) = some (.keepalive (some ip)) := by
  have hread := (readIp4_reads (octets4 ip) ip []).2 ⟨_, rfl, (List.append_nil _).symm⟩
  have hlen := length_octets4 ip
  generalize octets4 ip = w at hread hlen ⊢
  match w, hlen with
  | [p, q, r, s], _ =>
    rw [parseControl_five, hread]
    rfl

theorem spells_of_typed {ty : UInt8} (hlen : body.length ≠ 3)
    (h : parseControl (0 :: ty :: body) = some c) : Spells (0 :: ty :: body) c := by
  rw [parseControl_typed hlen] at h
  split_ifs at h with h1 h2 h3 h4 h5 h6
  · obtain ⟨m, hbody, rfl⟩ := parseRouteAdvert_eq_some.1 h
    exact h1 ▸ Spells.routeAdvert hbody
  · obtain ⟨m, hbody, rfl⟩ := parseRoutePush_eq_some.1 h
    exact h2 ▸ Spells.routePush hbody
  · obtain ⟨m, hbody, rfl⟩ := parseAssignReq_eq_some.1 h
    exact h3 ▸ Spells.assignReq hbody
  · obtain ⟨m, hbody, rfl⟩ := parseNameAdvert_eq_some.1 h
    exact h4 ▸ Spells.nameAdvert hbody
  · obtain ⟨m, hbody, rfl⟩ := parsePeerPush_eq_some.1 h
    exact h5 ▸ Spells.peerPush hbody
  · obtain ⟨m, hbody, rfl⟩ := parseAssign_eq_some.1 h
    exact h6 ▸ Spells.assign hbody

theorem isControl_of_parseControl {b : List UInt8} (h : parseControl b = some c) :
    ∃ tail, b = 0 :: tail := by
  have hctl : isControl b := by
    by_contra hctl
    unfold parseControl at h
    rw [if_pos (by simp [hctl])] at h
    cases h
  exact ⟨b.tail, List.eq_cons_of_mem_head? (by simpa [isControl, CONTROL_MARKER] using hctl)⟩

theorem spells_of_parseControl {b : List UInt8} (h : parseControl b = some c) : Spells b c := by
  obtain ⟨tail, rfl⟩ := isControl_of_parseControl h
  cases tail with
  | nil =>
    cases h
    exact Spells.keepalive
  | cons ty body =>
    by_cases hlen : body.length = 3
    · obtain ⟨ip, hip⟩ := exists_octets4 (show (ty :: body).length = 4 by simp [hlen])
      rw [hip, parseControl_keepalive] at h
      cases h
      exact hip ▸ Spells.keepaliveFrom ip
    · exact spells_of_typed hlen h

theorem parseControl_of_spells {b : List UInt8} (h : Spells b c) : parseControl b = some c := by
  cases h with
  | keepalive => rfl
  | keepaliveFrom ip => exact parseControl_keepalive ip
  | routeAdvert h =>
    rw [parseControl_typed h.length_ne]
    exact parseRouteAdvert_eq_some.2 ⟨_, h, rfl⟩
  | routePush h =>
    rw [parseControl_typed h.length_ne]
    exact parseRoutePush_eq_some.2 ⟨_, h, rfl⟩
  | assignReq h =>
    rw [parseControl_typed (by simp [h.length_eq])]
    exact parseAssignReq_eq_some.2 ⟨_, h, rfl⟩
  | assign h =>
    rw [parseControl_typed (by simp [h.length_eq])]
    exact parseAssign_eq_some.2 ⟨_, h, rfl⟩
  | nameAdvert h =>
    rw [parseControl_typed h.length_ne]
    exact parseNameAdvert_eq_some.2 ⟨_, h, rfl⟩
  | peerPush h =>
    rw [parseControl_typed h.length_ne]
    exact parsePeerPush_eq_some.2 ⟨_, h, rfl⟩

/-- The parser reads the grammar. -/
theorem parseControl_eq_some {b : List UInt8} : parseControl b = some c ↔ Spells b c :=
  ⟨spells_of_parseControl, parseControl_of_spells⟩

end ShadowVpn
