import ShadowVpn.Proofs.Ranges
import ShadowVpn.Sanity.Profiles

/-! A saved profile and the client that is started with it. -/

namespace ShadowVpn

open Lib

variable {H : Host} {c : ProfileConfig} {bundled : BundledData}

/-! What the app has checked. -/

theorem isSome_of_getD_ne_nil {o : Option Text} (h : ¬ (o.getD []).isEmpty) : o.isSome := by
  cases o with
  | none => exact absurd rfl h
  | some t => rfl

theorem parseIpv4_eq_ok {P : Parsers} {field : String} {t : Text}
    (h : parseIpv4 P field t = .ok ()) : (P.ipv4 t).isSome := by
  unfold parseIpv4 at h
  split_ifs at h with hs
  exact hs

/-- The checks of the app that matter to the client. -/
structure Validated (P : Parsers) (c : ProfileConfig) (bundled : BundledData) : Prop where
  server : c.server.isSome
  password : c.password.isSome
  tun : ((c.tunIp.getD []).isEmpty ∧ (c.peerIp.getD []).isEmpty) ∨
    (P.ipv4 (c.tunIp.getD [])).isSome ∧ (P.ipv4 (c.peerIp.getD [])).isSome
  netmask : ∀ t ∈ c.tunNetmask, t ≠ [] → (P.ipv4 t).isSome
  cipher : ∀ t ∈ c.cipher, ∃ cipher, Cipher.fromName t = .ok cipher
  mode : validateMode c bundled = .ok ()

theorem validateConfig_eq_ok {P : Parsers} (h : validateConfig P c bundled = .ok ()) :
    Validated P c bundled := by
  unfold validateConfig at h
  split_ifs at h with hserver hpassword
  obtain ⟨⟨⟩, htun, h⟩ := bind_eq_ok.1 h
  obtain ⟨⟨⟩, hmask, h⟩ := bind_eq_ok.1 h
  obtain ⟨⟨⟩, hcipher, h⟩ := bind_eq_ok.1 h
  obtain ⟨⟨⟩, -, hmode⟩ := bind_eq_ok.1 h
  refine ⟨isSome_of_getD_ne_nil hserver, isSome_of_getD_ne_nil hpassword, ?_, ?_, ?_, hmode⟩
  · unfold validateTun at htun
    dsimp only at htun
    split at htun
    · rename_i h1 h2
      exact Or.inl ⟨h1, h2⟩
    · obtain ⟨⟨⟩, h1, h2⟩ := bind_eq_ok.1 htun
      exact Or.inr ⟨parseIpv4_eq_ok h1, parseIpv4_eq_ok h2⟩
    · cases htun
  · intro t ht hne
    unfold validateNetmask at hmask
    rw [ht, Option.filter_some, if_pos (by simpa using hne)] at hmask
    exact parseIpv4_eq_ok hmask
  · intro t ht
    have ht : c.cipher = some t := ht
    rw [ht] at hcipher
    unfold validateName at hcipher
    dsimp only at hcipher
    split_ifs at hcipher with hmem
    simp only [List.map_cons, List.map_nil, List.mem_cons, List.not_mem_nil, or_false] at hmem
    rcases hmem with rfl | rfl | rfl <;> exact ⟨_, rfl⟩

theorem isSome_or_of_not_and {o : Option Text} {b : Bool} {o' : Option Text}
    (h : ¬ ((o.getD []).isEmpty && !b) = true) (hb : b = true → o'.isSome) :
    (o.or o').isSome := by
  cases o with
  | some t => rfl
  | none => exact hb (by simpa using h)

theorem bundledData_eq (dir : Option Text) :
    bundledData H dir = ⟨dir.any fun d => H.isFile (join d DEFAULT_GEOIP_DB_NAME),
      dir.any fun d => H.isFile (join d DEFAULT_GFWLIST_NAME)⟩ := by
  cases dir <;> rfl

theorem dataFile_isSome {dir : Option Text} {name : Text}
    (h : (dir.any fun d => H.isFile (join d name)) = true) :
    (dir.bind fun d => dataFileInDir H d name).isSome := by
  cases dir with
  | none => cases h
  | some d =>
    have hfile : H.isFile (join d name) = true := h
    simp [dataFileInDir, hfile]

theorem supplied_full (H : Host) (args : ClientArgs) (file : FileConfig) :
    Supplied H args file .full := by
  refine ⟨?_, ?_⟩
  · intro h
    cases h
  · intro h
    cases h

theorem supplied_of_validateMode {file : FileConfig} {config : Option Text}
    (hmode : validateMode c (bundledData H H.exeDir) = .ok ())
    (hread : c.ReadFrom H.parsers file) :
    ∃ mode, modeOf file.mode = .ok mode ∧ Supplied H { config := config } file mode := by
  rw [hread.mode]
  rw [bundledData_eq] at hmode
  unfold validateMode at hmode
  cases hc : c.mode with
  | none => exact ⟨.full, rfl, supplied_full H _ file⟩
  | some mode =>
    rw [hc] at hmode
    dsimp only at hmode
    split_ifs at hmode with hfull hgfw hdata hchina hdata
    · subst hfull
      exact ⟨.full, rfl, supplied_full H _ file⟩
    · subst hgfw
      refine ⟨.gfwList, rfl, fun _ => ?_, fun h => (by cases h)⟩
      rw [hread.gfwlist]
      exact isSome_or_of_not_and hdata dataFile_isSome
    · subst hchina
      refine ⟨.chinaDns, rfl, fun h => (by cases h), fun _ => ?_⟩
      rw [hread.chnroute, hread.geoip]
      cases hroute : c.chnroute with
      | some t => exact Or.inl rfl
      | none =>
        rw [hroute] at hdata
        exact Or.inr (isSome_or_of_not_and hdata dataFile_isSome)

/-! What the app has not checked. -/

/-- The conditions under which the client takes an accepted profile. An address may be left out,
but not be empty; the other texts have to parse; and the numbers have to be in range. -/
structure ProfileConfig.Startable (P : Parsers) (c : ProfileConfig) : Prop where
  tunIp : c.tunIp ≠ some []
  peerIp : c.peerIp ≠ some []
  tunNetmask : c.tunNetmask ≠ some []
  tunIp6 : ∀ t ∈ c.tunIp6, (P.ipv6Network t).isSome
  assignPool : ∀ t ∈ c.assignPool, (P.ipNetwork t).isSome
  reservedIps : ∀ ts ∈ c.reservedIps, ∀ t ∈ ts, (P.ipv4 t).isSome
  approveRoutes : ∀ ts ∈ c.approveRoutes, ∀ t ∈ ts, (P.ipNetwork t).isSome
  advertiseRoutes : ∀ ts ∈ c.advertiseRoutes, ts.length ≤ MAX_ROUTES ∧
    ∀ t ∈ ts, ∃ net, P.ipNetwork t = some net ∧ net.prefixLen ≠ 0
  dnsListen : ∀ t ∈ c.dnsListen, DnsAddr P t
  dnsLocal : ∀ t ∈ c.dnsLocal, DnsAddr P t
  dnsRemote : ∀ t ∈ c.dnsRemote, DnsAddr P t
  keepaliveSecs : c.keepaliveSecs ≠ some 0
  magicDnsSuffix : ∀ t ∈ c.magicDnsSuffix, trim t ≠ []

section

variable {P : Parsers} {file : FileConfig}

/-- An address that the app has checked parses unless it is empty. -/
theorem forall_isSome_iff {o : Option Text} (h : ∀ t ∈ o, t ≠ [] → (P.ipv4 t).isSome) :
    (∀ t ∈ o, (P.ipv4 t).isSome) ↔ o ≠ some [] := by
  cases o with
  | none => simp
  | some t =>
    have ht := h t rfl
    by_cases hnil : t = []
    · simp [hnil, P.ipv4_nil]
    · simp [hnil, ht hnil]

theorem isSome_of_empty_or {o : Option Text}
    (h : (o.getD []).isEmpty ∨ (P.ipv4 (o.getD [])).isSome) :
    ∀ t ∈ o, t ≠ [] → (P.ipv4 t).isSome := by
  rintro t rfl hne
  exact h.resolve_left fun hnil => hne (List.isEmpty_iff.1 hnil)

theorem Validated.addresses (h : Validated P c bundled) :
    (∀ t ∈ c.tunIp, t ≠ [] → (P.ipv4 t).isSome) ∧ ∀ t ∈ c.peerIp, t ≠ [] → (P.ipv4 t).isSome := by
  rcases h.tun with ⟨h1, h2⟩ | ⟨h1, h2⟩
  · exact ⟨isSome_of_empty_or (Or.inl h1), isSome_of_empty_or (Or.inl h2)⟩
  · exact ⟨isSome_of_empty_or (Or.inr h1), isSome_of_empty_or (Or.inr h2)⟩

theorem option_isSome_of_mapM {o : Option Text} {r : Option Ipv4Addr}
    (h : o.mapM P.ipv4 = some r) : r.isSome = o.isSome := by
  cases o with
  | none =>
    cases h
    rfl
  | some t =>
    rw [Option.mapM_some] at h
    obtain ⟨a, -, rfl⟩ := Option.map_eq_some_iff.1 h
    rfl

theorem isEmpty_of_parses {t : Text} (h : (P.ipv4 t).isSome) : t.isEmpty = false := by
  cases t with
  | nil => simp [P.ipv4_nil] at h
  | cons => rfl

theorem isSome_eq_of_parses {o : Option Text} (h : ∀ t ∈ o, (P.ipv4 t).isSome) :
    o.isSome = !(o.getD []).isEmpty := by
  cases o with
  | none => rfl
  | some t =>
    rw [Option.getD_some, isEmpty_of_parses (h t rfl)]
    rfl

theorem Validated.both (h : Validated P c bundled) (hparses : c.Parses P)
    (hread : c.ReadFrom P file) : file.tunIp.isSome = file.peerIp.isSome := by
  rw [option_isSome_of_mapM hread.tunIp, option_isSome_of_mapM hread.peerIp,
    isSome_eq_of_parses hparses.tunIp, isSome_eq_of_parses hparses.peerIp]
  rcases h.tun with ⟨h1, h2⟩ | ⟨h1, h2⟩
  · rw [h1, h2]
  · rw [isEmpty_of_parses h1, isEmpty_of_parses h2]

theorem validateAdvertised_iff (hread : c.ReadFrom H.parsers file) :
    (∃ u, validateAdvertised H (file.advertiseRoutes.getD []) = .ok u) ↔
      ∀ ts ∈ c.advertiseRoutes, ts.length ≤ MAX_ROUTES ∧
        ∀ t ∈ ts, ∃ net, H.parsers.ipNetwork t = some net ∧ net.prefixLen ≠ 0 := by
  rw [validateAdvertised_ok_iff]
  have hr := hread.advertiseRoutes
  cases hc : c.advertiseRoutes with
  | none =>
    rw [hc] at hr
    rw [← Option.some.inj hr]
    simp
  | some ts =>
    rw [hc, Option.mapM_some] at hr
    obtain ⟨nets, hnets, hfile⟩ := Option.map_eq_some_iff.1 hr
    rw [← hfile, Option.getD_some]
    have hmap := mapM_eq_some_iff.1 hnets
    have hlen : nets.length = ts.length := by
      simpa using (congrArg List.length hmap).symm
    have hnet : ∀ net, net ∈ nets ↔ ∃ t ∈ ts, H.parsers.ipNetwork t = some net := by
      intro net
      have : some net ∈ ts.map H.parsers.ipNetwork ↔ some net ∈ nets.map some := by rw [hmap]
      simpa [List.mem_map] using this.symm
    have hparse := exists_mapM_iff.1 ⟨nets, hnets⟩
    rw [hlen]
    constructor
    · rintro ⟨hle, hall⟩ ts' ⟨⟩
      refine ⟨hle, ?_⟩
      intro t ht
      obtain ⟨net, hn⟩ := Option.isSome_iff_exists.1 (hparse t ht)
      exact ⟨net, hn, hall net ((hnet net).2 ⟨t, ht, hn⟩)⟩
    · intro h
      obtain ⟨hle, hall⟩ := h ts rfl
      refine ⟨hle, ?_⟩
      intro net hn
      obtain ⟨t, ht, hparsed⟩ := (hnet net).1 hn
      obtain ⟨net', hnet', hne⟩ := hall t ht
      rw [hparsed] at hnet'
      cases hnet'
      exact hne

theorem dnsAddr_getD_iff {o : Option Text} {t : Text} (h : (P.socketAddr t).isSome) :
    DnsAddr P (o.getD t) ↔ ∀ t ∈ o, DnsAddr P t := by
  cases o with
  | none => simp [DnsAddr, h]
  | some t => simp

theorem suffix_getD_iff {o : Option Text} :
    (sanitizeSuffix (o.getD DEFAULT_SUFFIX)).isSome ↔ ∀ t ∈ o, trim t ≠ [] := by
  cases o with
  | none => exact iff_of_true (by decide) (by simp)
  | some t => simp [sanitizeSuffix_isSome_iff]

end

theorem ProfileConfig.parses_of_startable {P : Parsers} (h : Validated P c bundled)
    (hs : c.Startable P) : c.Parses P where
  tunIp := (forall_isSome_iff h.addresses.1).2 hs.tunIp
  tunNetmask := (forall_isSome_iff h.netmask).2 hs.tunNetmask
  peerIp := (forall_isSome_iff h.addresses.2).2 hs.peerIp
  tunIp6 := hs.tunIp6
  assignPool := hs.assignPool
  reservedIps := hs.reservedIps
  advertiseRoutes := by
    intro ts hts t ht
    obtain ⟨net, hnet, -⟩ := (hs.advertiseRoutes ts hts).2 t ht
    exact Option.isSome_iff_exists.2 ⟨net, hnet⟩
  approveRoutes := hs.approveRoutes

theorem ProfileConfig.resolve_readFrom {path : Text} {file : FileConfig}
    (hvalid : Validated H.parsers c (bundledData H H.exeDir)) (hparses : c.Parses H.parsers)
    (hread : c.ReadFrom H.parsers file) (hfile : FileConfig.load H path = .ok file) :
    (∃ cfg, ClientArgs.resolve H { config := some path } = .ok cfg) ↔ c.Startable H.parsers := by
  have hcipher : ∃ cipher, Cipher.fromName (file.cipher.getD DEFAULT_CIPHER) = .ok cipher := by
    rw [hread.cipher]
    cases hc : c.cipher with
    | none => exact ⟨_, rfl⟩
    | some t => exact hvalid.cipher t hc
  rw [ClientArgs.resolve_ok_iff { config := some path } hfile, resolvePolicy_ok_iff,
    resolveCrypto_ok_iff]
  simp only [Option.none_or]
  rw [hread.dnsListen, hread.dnsLocal, hread.dnsRemote, hread.magicDnsSuffix, hread.server,
    hread.password, hread.keepaliveSecs, dnsAddr_getD_iff H.parsers.listen_default,
    dnsAddr_getD_iff H.parsers.local_default, dnsAddr_getD_iff H.parsers.remote_default,
    suffix_getD_iff, validateAdvertised_iff hread]
  constructor
  · rintro ⟨⟨-, hlisten, hlocal, hremote, hsuffix⟩, -, -, -, hkeep, hroutes⟩
    exact ⟨(forall_isSome_iff hvalid.addresses.1).1 hparses.tunIp,
      (forall_isSome_iff hvalid.addresses.2).1 hparses.peerIp,
      (forall_isSome_iff hvalid.netmask).1 hparses.tunNetmask, hparses.tunIp6, hparses.assignPool,
      hparses.reservedIps, hparses.approveRoutes, hroutes, hlisten, hlocal, hremote, hkeep,
      hsuffix⟩
  · intro hs
    exact ⟨⟨supplied_of_validateMode hvalid.mode hread, hs.dnsListen, hs.dnsLocal, hs.dnsRemote,
      hs.magicDnsSuffix⟩, hvalid.server, ⟨hcipher, hvalid.password⟩,
      hvalid.both hparses hread, hs.keepaliveSecs, hs.advertiseRoutes⟩

theorem FileConfig.load_profile (path : Text) (h : H.files path = some (some c.toJson)) :
    FileConfig.load H path = okOr (.parse path) (c.toFile H.parsers) := by
  rw [FileConfig.load, h]
  exact congrArg (okOr (.parse path)) (ProfileConfig.fromJson_toJson H.parsers c)

theorem saveProfile_eq_ok {H' : Host} {dir name : Text} {written : Except String Unit}
    (h : saveProfile H (.ok dir) written name c = .ok H') :
    Validated H.parsers c (bundledData H H.exeDir) ∧
      H' = { H with
        files := Function.update H.files (profilePath dir name) (some (some c.toJson)) } := by
  obtain ⟨⟨⟩, -, h⟩ := bind_eq_ok.1 h
  obtain ⟨⟨⟩, hvalid, h⟩ := bind_eq_ok.1 h
  obtain ⟨dir', hdir, h⟩ := bind_eq_ok.1 h
  obtain ⟨⟨⟩, -, h⟩ := bind_eq_ok.1 h
  cases hdir
  cases h
  exact ⟨validateConfig_eq_ok hvalid, rfl⟩

/-- The client that is started with a saved profile, and nothing else, reads the file and takes
its settings exactly when the profile has none of what the app does not check. -/
theorem ProfileConfig.saved_starts_iff {H' : Host} {dir name : Text} {written : Except String Unit}
    (h : saveProfile H (.ok dir) written name c = .ok H') :
    (∃ file cfg, FileConfig.load H' (profilePath dir name) = .ok file ∧
      ClientArgs.resolve H' { config := some (profilePath dir name) } = .ok cfg) ↔
        c.Startable H.parsers := by
  obtain ⟨hvalid, hH⟩ := saveProfile_eq_ok h
  have hparsers : H'.parsers = H.parsers := by rw [hH]
  have hvalid' : Validated H'.parsers c (bundledData H' H'.exeDir) := by
    rw [hH]
    exact hvalid
  have hload := FileConfig.load_profile (H := H') (c := c) (profilePath dir name) (by
    rw [hH]
    exact Function.update_self _ _ _)
  rw [← hparsers]
  constructor
  · rintro ⟨file, cfg, hfile, hcfg⟩
    rw [hload] at hfile
    obtain ⟨hparses, hread⟩ := ProfileConfig.toFile_eq_some (okOr_eq_ok.1 hfile)
    exact (ProfileConfig.resolve_readFrom hvalid' hparses hread (hload.trans hfile)).1 ⟨cfg, hcfg⟩
  · intro hs
    have hparses := ProfileConfig.parses_of_startable hvalid' hs
    obtain ⟨file, hfile⟩ := ProfileConfig.exists_toFile hparses
    have hok := hload.trans (okOr_eq_ok.2 hfile)
    have hread := (ProfileConfig.toFile_eq_some hfile).2
    obtain ⟨cfg, hcfg⟩ := (ProfileConfig.resolve_readFrom hvalid' hparses hread hok).2 hs
    exact ⟨file, cfg, hok, hcfg⟩

def Sample.profile (keepaliveSecs : Option UInt64) : ProfileConfig :=
  { server := some "vpn:1234".toList, password := some "secret".toList,
    keepaliveSecs := keepaliveSecs }

/-- A host whose parsers know a tunnel and a subnet behind it. -/
def Sample.lanHost : Host :=
  { Sample.host with
    parsers :=
      { Sample.parsers with
        ipv4 := fun t =>
          if t = "10.9.0.2".toList then some 0x0A090002
          else if t = "10.9.0.1".toList then some 0x0A090001
          else if t = "255.255.255.0".toList then some 0xFFFFFF00
          else none
        ipNetwork := fun t =>
          if t = "192.168.1.0/24".toList then (Cidr.new 0xC0A80100 24).map .v4 else none
        ipv4_nil := rfl } }

/-- A profile with a fixed address, a subnet to advertise and settings for names. -/
def Sample.lanProfile : ProfileConfig :=
  { Sample.profile (some 25) with
    cipher := some "aes-256-gcm".toList
    tunIp := some "10.9.0.2".toList
    tunNetmask := some "255.255.255.0".toList
    peerIp := some "10.9.0.1".toList
    reservedIps := some ["10.9.0.1".toList]
    advertiseRoutes := some ["192.168.1.0/24".toList]
    mode := some "full".toList
    dnsRemote := some "127.0.0.1".toList
    magicDnsSuffix := some "vpn".toList }

theorem ProfileConfig.saved_starts_iff_lan : ∃ (H' : Host) (file : FileConfig) (cfg : ClientConfig),
    saveProfile Sample.lanHost (.ok "profiles".toList) (.ok ()) "home".toList Sample.lanProfile =
      .ok H' ∧
    FileConfig.load H' (profilePath "profiles".toList "home".toList) = .ok file ∧
    ClientArgs.resolve H' { config := some (profilePath "profiles".toList "home".toList) } =
      .ok cfg := by
  obtain ⟨H', hsave⟩ : ∃ H', saveProfile Sample.lanHost (.ok "profiles".toList) (.ok ())
      "home".toList Sample.lanProfile = .ok H' := ⟨_, rfl⟩
  have hs : Sample.lanProfile.Startable Sample.lanHost.parsers :=
    { tunIp := by decide
      peerIp := by decide
      tunNetmask := by decide
      tunIp6 := nofun
      assignPool := nofun
      reservedIps := by
        rintro ts ⟨⟩ t ht
        cases List.mem_singleton.1 ht
        rfl
      approveRoutes := nofun
      advertiseRoutes := by
        rintro ts ⟨⟩
        refine ⟨by decide, fun t ht => ?_⟩
        cases List.mem_singleton.1 ht
        exact ⟨_, rfl, by decide⟩
      dnsListen := nofun
      dnsLocal := nofun
      dnsRemote := by
        rintro t ⟨⟩
        exact Or.inr rfl
      keepaliveSecs := by decide
      magicDnsSuffix := by
        rintro t ⟨⟩
        decide }
  obtain ⟨file, cfg, hfile, hcfg⟩ := (ProfileConfig.saved_starts_iff hsave).2 hs
  exact ⟨H', file, cfg, hsave, hfile, hcfg⟩

/-- The app saves a profile with a keepalive interval of zero, and the client refuses it. -/
theorem ProfileConfig.saved_refused : ∃ H' : Host,
    saveProfile Sample.host (.ok "profiles".toList) (.ok ()) "home".toList
      (Sample.profile (some 0)) = .ok H' ∧
    (ClientArgs.resolve H' { config := some (profilePath "profiles".toList "home".toList) }).map
      (fun _ => ()) = .error (.invalid "keepalive_secs" "must be at least 1 second") :=
  ⟨_, rfl, rfl⟩

end ShadowVpn
