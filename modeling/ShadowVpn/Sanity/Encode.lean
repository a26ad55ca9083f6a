import ShadowVpn.Sanity.Wire

/-! What the encoders write. Every encoding of the four address messages is a spelling of
the message's normal form. A name is written whole when its field ends in an ASCII byte,
and otherwise what is written is no text at all. -/

namespace ShadowVpn

open Lib

attribute [local irreducible] octets4 octets6

/-! Fields. -/

theorem readIp4_octets4 (ip : Ipv4Addr) (rest : List UInt8) :
    readIp4 (octets4 ip ++ rest) = some (ip, rest) :=
  (readIp4_reads _ _ _).2 ⟨_, rfl, rfl⟩

theorem readIp6_octets6 (ip : Ipv6Addr) (rest : List UInt8) :
    readIp6 (octets6 ip ++ rest) = some (ip, rest) :=
  (readIp6_reads _ _ _).2 ⟨_, rfl, rfl⟩

@[simp] theorem specified_orUnspecified (ip6 : Option Ipv6Addr) :
    specified (orUnspecified ip6) = ip6.bind specified := by
  cases ip6 with
  | none => rfl
  | some ip => rfl

@[simp] theorem bind_specified (ip : Ipv6Addr) :
    (specified ip).bind specified = specified ip := by
  unfold specified
  split_ifs with h
  · rfl
  · exact if_neg h

@[simp] theorem canonical_idem (net : IpNetwork) : canonical (canonical net) = canonical net := by
  cases net with
  | v4 n => simp [canonical]
  | v6 n => simp [canonical]

theorem take_min_length {α : Type} (l : List α) (k : ℕ) : l.take (min l.length k) = l.take k := by
  rw [min_comm]
  exact List.take_eq_take_min.symm

/-! Route lists. -/

theorem pushRoute_eq (buf : List UInt8) (net : IpNetwork) :
    pushRoute buf net = buf ++ pushRoute [] net := by
  unfold pushRoute
  cases canonical net with
  | v4 n => simp
  | v6 n => simp

theorem foldl_pushRoute (routes : List IpNetwork) (buf : List UInt8) :
    routes.foldl pushRoute buf = buf ++ routes.flatMap (pushRoute []) := by
  induction routes generalizing buf with
  | nil => simp
  | cons net routes ih =>
    rw [List.foldl_cons, ih, pushRoute_eq, List.flatMap_cons, List.append_assoc]

theorem pushRoute_entry (net : IpNetwork) : RouteEntry (pushRoute [] net) (canonical net) := by
  cases net with
  | v4 n =>
    have hentry := RouteEntry.v4 n.canonical.ip n.canonical.prefixLen n.canonical.len_le
    rw [← canonical_idem]
    exact hentry
  | v6 n =>
    have hentry := RouteEntry.v6 n.canonical.ip n.canonical.prefixLen n.canonical.len_le
    rw [← canonical_idem]
    exact hentry

/-! The four address messages. -/

/-- A flag bit that was set from a `bool` is read back. -/
theorem flag_and (b : Bool) : ((if b then 0x01 else 0 : UInt8) &&& 0x01 != 0) = b := by
  cases b with
  | true => rfl
  | false => rfl

theorem RouteAdvert.encode_body (m : RouteAdvert) :
    ∃ body, m.encode = 0 :: 1 :: body ∧ RouteAdvertBody body m.normalise := by
  have hwords := Words.map (pushRoute []) canonical pushRoute_entry (m.routes.take MAX_ROUTES)
  have hbody := RouteAdvertBody.body (if m.acceptRoutes then FLAG_ACCEPT_ROUTES else 0) m.tunnelIp
    (orUnspecified m.tunnelIp6) (by simp) hwords
  unfold FLAG_ACCEPT_ROUTES at hbody
  rw [flag_and, specified_orUnspecified, List.length_map] at hbody
  refine ⟨_, ?_, hbody⟩
  simp [RouteAdvert.encode, CONTROL_MARKER, TYPE_ROUTE_ADVERT, FLAG_ACCEPT_ROUTES, take_min_length,
    foldl_pushRoute]

theorem RoutePush.encode_body (m : RoutePush) :
    ∃ body, m.encode = 0 :: 2 :: body ∧ RoutePushBody body m.normalise := by
  have hwords := Words.map (pushRoute []) canonical pushRoute_entry (m.routes.take MAX_ROUTES)
  have hbody := RoutePushBody.body 0 (by simp) hwords
  rw [List.length_map] at hbody
  refine ⟨_, ?_, hbody⟩
  simp [RoutePush.encode, CONTROL_MARKER, TYPE_ROUTE_PUSH, take_min_length, foldl_pushRoute]

theorem AssignReq.encode_body (m : AssignReq) :
    ∃ body, m.encode = 0 :: 3 :: body ∧ AssignReqBody body m.normalise := by
  have hbody := AssignReqBody.body m.flags m.nodeId m.hintIp4 (orUnspecified m.hintIp6)
  rw [specified_orUnspecified] at hbody
  refine ⟨_, ?_, hbody⟩
  simp [AssignReq.encode, CONTROL_MARKER, TYPE_ASSIGN_REQ]

theorem Assign.encode_body (m : Assign) :
    ∃ body, m.encode = 0 :: 4 :: body ∧ AssignBody body m.normalise := by
  have hbody := AssignBody.body m.status m.tunIp m.netmask m.peerIp (orUnspecified m.tunIp6) m.plen6
    m.flags m.ttlSecs
  have hplen : (if m.plen6 != 0 then some (orUnspecified m.tunIp6) else none) =
      if m.plen6 = 0 then none else some (orUnspecified m.tunIp6) := by
    by_cases h : m.plen6 = 0
    · simp [h]
    · simp [h]
  rw [hplen] at hbody
  refine ⟨_, ?_, hbody⟩
  simp [Assign.encode, CONTROL_MARKER, TYPE_ASSIGN]

/-! What was read is in normal form. -/

theorem RouteEntry.canonical_eq {w : List UInt8} {net : IpNetwork} (h : RouteEntry w net) :
    canonical net = net := by
  cases h with
  | v4 => exact canonical_idem _
  | v6 => exact canonical_idem _

theorem map_canonical_of_words {w : List UInt8} {routes : List IpNetwork}
    (h : Words RouteEntry w routes) : routes.map canonical = routes := by
  induction h with
  | nil => rfl
  | cons hentry _ ih => rw [List.map_cons, hentry.canonical_eq, ih]

theorem RouteAdvertBody.normalise_eq {body : List UInt8} {m : RouteAdvert}
    (h : RouteAdvertBody body m) : m.normalise = m := by
  obtain ⟨_, _, _, hlen, hwords⟩ := h
  rw [RouteAdvert.normalise, List.take_of_length_le hlen, map_canonical_of_words hwords,
    bind_specified]

theorem RoutePushBody.normalise_eq {body : List UInt8} {m : RoutePush} (h : RoutePushBody body m) :
    m.normalise = m := by
  obtain ⟨_, hlen, hwords⟩ := h
  rw [RoutePush.normalise, List.take_of_length_le hlen, map_canonical_of_words hwords]

theorem AssignReqBody.normalise_eq {body : List UInt8} {m : AssignReq} (h : AssignReqBody body m) :
    m.normalise = m := by
  obtain ⟨_, _, _, _⟩ := h
  rw [AssignReq.normalise, bind_specified]

theorem AssignBody.normalise_eq {body : List UInt8} {m : Assign} (h : AssignBody body m) :
    m.normalise = m := by
  obtain ⟨status, tunIp, netmask, peerIp, ip6, plen6, flags, ttlSecs⟩ := h
  by_cases hp : plen6 = 0
  · simp [Assign.normalise, hp]
  · simp [Assign.normalise, hp, orUnspecified]

/-! Names. -/

theorem take_walkBack (raw : List UInt8) {n : ℕ} (h : n ≤ raw.length) :
    raw.take (walkBack raw n) = (raw.take n).rdropWhile Utf8.isContinuation := by
  induction n with
  | zero => simp [walkBack]
  | succ n ih =>
    have hn : n < raw.length := by omega
    rw [walkBack, List.getElem?_eq_getElem hn, ← List.take_append_getElem hn,
      List.rdropWhile_concat, Option.any_some]
    split_ifs
    · exact ih (by omega)
    · exact (List.take_append_getElem hn).symm

theorem nameBytes_eq_rdropWhile (name : Text) :
    nameBytes name = ((asBytes name).take MAX_NAME_LEN).rdropWhile Utf8.isContinuation := by
  unfold nameBytes
  rw [take_walkBack _ (by omega), take_min_length]

theorem nameBytes_front (name : Text) : nameBytes name <+: asBytes name := List.take_prefix _ _

theorem length_nameBytes_le (name : Text) : (nameBytes name).length ≤ MAX_NAME_LEN := by
  rw [nameBytes_eq_rdropWhile]
  have hle := (List.rdropWhile_prefix Utf8.isContinuation
    (l := (asBytes name).take MAX_NAME_LEN)).length_le
  rw [List.length_take] at hle
  omega

theorem asciiCut_iff (name : Text) :
    AsciiCut name ↔ ∀ b, ((asBytes name).take MAX_NAME_LEN).getLast? = some b → b.toNat < 128 := by
  refine forall_congr' fun b => imp_congr_right fun _ => ?_
  rw [UInt8.lt_iff_toNat_lt]
  rfl

/-- A clean cut keeps the longest front part that fits. -/
theorem nameBytes_of_asciiCut {name : Text} (h : AsciiCut name) :
    nameBytes name = asBytes (cutName name) := by
  rw [nameBytes_eq_rdropWhile]
  rcases Utf8.rdropWhile_take_encode MAX_NAME_LEN name with ⟨-, hcut⟩ | ⟨⟨b, hlast, hle⟩, -⟩
  · exact hcut
  · have hlt := (asciiCut_iff name).1 h b hlast
    omega

/-- Any other cut leaves a lead byte without its continuation. -/
theorem asciiCut_of_valid {name : Text} (h : ValidUtf8 (nameBytes name)) : AsciiCut name := by
  obtain ⟨t, ht⟩ := h
  rw [nameBytes_eq_rdropWhile] at ht
  rcases Utf8.rdropWhile_take_encode MAX_NAME_LEN name with ⟨hascii, -⟩ | ⟨-, lead, hlast, hle⟩
  · exact (asciiCut_iff name).2 hascii
  · have hlt : lead.toNat < 192 := by
      apply Utf8.getLast?_encode (s := t)
      rw [← hlast]
      exact congrArg List.getLast? ht.symm
    omega

theorem cutName_of_le {name : Text} (h : (asBytes name).length ≤ MAX_NAME_LEN) :
    cutName name = name :=
  Utf8.takeBytes_of_le h

/-- What the receiver makes of a name field. -/
theorem fromUtf8_nameBytes {name t : Text} :
    fromUtf8 (nameBytes name) = some t ↔ AsciiCut name ∧ t = cutName name := by
  rw [fromUtf8_eq_some]
  constructor
  · intro h
    have hascii := asciiCut_of_valid ⟨t, h⟩
    rw [nameBytes_of_asciiCut hascii] at h
    exact ⟨hascii, (Utf8.encode_injective h).symm⟩
  · rintro ⟨hascii, rfl⟩
    exact nameBytes_of_asciiCut hascii

/-! The two messages with names. The receiver gets the normal form of a message whose names
are all cut cleanly, and nothing of any other. -/

theorem NameAdvert.encode_eq (m : NameAdvert) :
    m.encode = 0 :: 5 :: (if m.wantPeers then FLAG_WANT_PEERS else 0) :: (octets4 m.tunnelIp ++
      (octets6 (orUnspecified m.tunnelIp6) ++ UInt8.ofNat (nameBytes m.name).length ::
        nameBytes m.name)) := by
  simp [NameAdvert.encode, CONTROL_MARKER, TYPE_NAME_ADVERT]

theorem NameAdvert.parseControl_encode (m : NameAdvert) {c : Control} :
    parseControl m.encode = some c ↔ AsciiCut m.name ∧ c = .nameAdvert m.normalise := by
  have hnat := toNat_ofNat_of_le (length_nameBytes_le m.name) (by decide)
  have hle := length_nameBytes_le m.name
  have hread : parseControl m.encode = (fromUtf8 (nameBytes m.name)).map fun name =>
      .nameAdvert { m.normalise with name := name } := by
    rw [m.encode_eq, parseControl_typed (by simp; omega)]
    change parseNameAdvert _ = _
    unfold parseNameAdvert
    rw [if_neg (by simp [NAME_ADVERT_HEADER_LEN]; omega)]
    simp only [readU8, readIp4_octets4, readIp6_octets6, Option.bind_eq_bind, Option.bind_some,
      hnat]
    rw [if_neg (by omega), if_neg (by simp)]
    unfold FLAG_WANT_PEERS
    rw [flag_and, specified_orUnspecified, Option.map_eq_bind]
    rfl
  rw [hread, Option.map_eq_some_iff]
  constructor
  · rintro ⟨name, hname, rfl⟩
    obtain ⟨hascii, rfl⟩ := fromUtf8_nameBytes.1 hname
    exact ⟨hascii, rfl⟩
  · rintro ⟨hascii, rfl⟩
    exact ⟨_, fromUtf8_nameBytes.2 ⟨hascii, rfl⟩, rfl⟩

theorem pushPeer_eq (buf : List UInt8) (p : PeerEntry) :
    pushPeer buf p = buf ++ pushPeer [] p := by
  simp [pushPeer]

theorem foldl_pushPeer (peers : List PeerEntry) (buf : List UInt8) :
    peers.foldl pushPeer buf = buf ++ peers.flatMap (pushPeer []) := by
  induction peers generalizing buf with
  | nil => simp
  | cons p peers ih =>
    rw [List.foldl_cons, ih, pushPeer_eq, List.flatMap_cons, List.append_assoc]

theorem le_length_pushPeer (p : PeerEntry) : 22 ≤ (pushPeer [] p).length := by
  simp [pushPeer]
  omega

/-- The flag says whether an address follows, and the address says so again. -/
theorem eflags_specified (ip6 : Option Ipv6Addr) :
    (if (if ip6.isSome then EFLAG_HAS_IP6 else 0) &&& EFLAG_HAS_IP6 != 0 then
      specified (orUnspecified ip6) else none) = ip6.bind specified := by
  unfold EFLAG_HAS_IP6
  rw [flag_and]
  cases ip6 with
  | none => rfl
  | some ip => rfl

theorem parsePeer_pushPeer {p q : PeerEntry} {rest rest' : List UInt8} :
    parsePeer (pushPeer [] p ++ rest) = some (q, rest') ↔
      AsciiCut p.name ∧ q = p.normalise ∧ rest' = rest := by
  have hnat := toNat_ofNat_of_le (length_nameBytes_le p.name) (by decide)
  have hle := length_nameBytes_le p.name
  have hread : parsePeer (pushPeer [] p ++ rest) = (fromUtf8 (nameBytes p.name)).map fun name =>
      ({ p.normalise with name := name }, rest) := by
    unfold parsePeer pushPeer
    simp only [List.nil_append, List.append_assoc, List.cons_append, readU8,
      readIp4_octets4, readIp6_octets6, Option.bind_eq_bind, Option.bind_some, hnat,
      eflags_specified]
    rw [if_neg (by omega), if_neg (by simp), List.take_left' rfl, List.drop_left' rfl,
      Option.map_eq_bind]
    rfl
  rw [hread, Option.map_eq_some_iff]
  constructor
  · rintro ⟨name, hname, heq⟩
    obtain ⟨hascii, rfl⟩ := fromUtf8_nameBytes.1 hname
    cases heq
    exact ⟨hascii, rfl, rfl⟩
  · rintro ⟨hascii, rfl, rfl⟩
    exact ⟨_, fromUtf8_nameBytes.2 ⟨hascii, rfl⟩, rfl⟩

theorem parsePeers_pushPeers {ps qs : List PeerEntry} :
    parsePeers (ps.flatMap (pushPeer [])) ps.length = some qs ↔
      (∀ p ∈ ps, AsciiCut p.name) ∧ qs = ps.map PeerEntry.normalise := by
  induction ps generalizing qs with
  | nil => simp [parsePeers, eq_comm]
  | cons p ps ih =>
    rw [List.flatMap_cons, List.length_cons, parsePeers]
    constructor
    · intro h
      obtain ⟨⟨q, rest⟩, hpeer, htail⟩ := Option.bind_eq_some_iff.1 h
      obtain ⟨hascii, rfl, rfl⟩ := parsePeer_pushPeer.1 hpeer
      obtain ⟨qs', hrest, heq⟩ := Option.bind_eq_some_iff.1 htail
      obtain ⟨hall, rfl⟩ := ih.1 hrest
      cases heq
      exact ⟨List.forall_mem_cons.2 ⟨hascii, hall⟩, rfl⟩
    · rintro ⟨hall, rfl⟩
      obtain ⟨hascii, hall⟩ := List.forall_mem_cons.1 hall
      have hpeer : parsePeer (pushPeer [] p ++ ps.flatMap (pushPeer [])) =
          some (p.normalise, ps.flatMap (pushPeer [])) :=
        parsePeer_pushPeer.2 ⟨hascii, rfl, rfl⟩
      have hrest := ih.2 ⟨hall, rfl⟩
      rw [hpeer]
      dsimp only [Option.bind_eq_bind, Option.bind_some]
      rw [hrest]
      rfl

theorem PeerPush.encode_eq (m : PeerPush) :
    m.encode = 0 :: 6 :: 0 :: UInt8.ofNat (m.peers.take MAX_PEERS).length ::
      (m.peers.take MAX_PEERS).flatMap (pushPeer []) := by
  simp [PeerPush.encode, CONTROL_MARKER, TYPE_PEER_PUSH, take_min_length, foldl_pushPeer]

theorem PeerPush.parseControl_encode (m : PeerPush) {c : Control} :
    parseControl m.encode = some c ↔
      (∀ p ∈ m.peers.take MAX_PEERS, AsciiCut p.name) ∧ c = .peerPush m.normalise := by
  rw [m.encode_eq]
  have hmax : (m.peers.take MAX_PEERS).length ≤ MAX_PEERS := by simp
  have hnat := toNat_ofNat_of_le hmax (by decide)
  have hlen : ((0 : UInt8) :: UInt8.ofNat (m.peers.take MAX_PEERS).length ::
      (m.peers.take MAX_PEERS).flatMap (pushPeer [])).length ≠ 3 := by
    cases m.peers.take MAX_PEERS with
    | nil => simp
    | cons p ps =>
      have hle := le_length_pushPeer p
      rw [List.flatMap_cons, List.length_cons, List.length_cons, List.length_append]
      omega
  rw [parseControl_typed hlen]
  change parsePeerPush _ = _ ↔ _
  unfold parsePeerPush
  simp only [readU8, Option.bind_eq_bind, Option.bind_some, hnat]
  rw [if_neg (by omega), Option.bind_eq_some_iff]
  constructor
  · rintro ⟨peers, hpeers, heq⟩
    obtain ⟨hall, rfl⟩ := parsePeers_pushPeers.1 hpeers
    cases heq
    exact ⟨hall, rfl⟩
  · rintro ⟨hall, rfl⟩
    exact ⟨_, parsePeers_pushPeers.2 ⟨hall, rfl⟩, rfl⟩

theorem NameAdvertBody.normalise_eq {body : List UInt8} {m : NameAdvert}
    (h : NameAdvertBody body m) : m.normalise = m := by
  obtain ⟨_, _, _, name, hlen⟩ := h
  rw [NameAdvert.normalise, bind_specified, cutName_of_le hlen]

theorem PeerSpelling.normalise_eq {w : List UInt8} {p : PeerEntry} (h : PeerSpelling w p) :
    p.normalise = p := by
  obtain ⟨eflags, _, ip6, name, hlen⟩ := h
  rw [PeerEntry.normalise, cutName_of_le hlen]
  split_ifs
  · rw [bind_specified]
  · rfl

theorem PeerPushBody.normalise_eq {body : List UInt8} {m : PeerPush} (h : PeerPushBody body m) :
    m.normalise = m := by
  obtain ⟨_, hlen, hwords⟩ := h
  rw [PeerPush.normalise, List.take_of_length_le hlen]
  congr 1
  induction hwords with
  | nil => rfl
  | cons hp _ ih => rw [List.map_cons, hp.normalise_eq, ih (by simp at hlen; omega)]

end ShadowVpn
