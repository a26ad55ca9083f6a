import ShadowVpn.Lib.Run
import ShadowVpn.Sanity.Encode
import ShadowVpn.Spec.Kernel

/-! What each call on the route table leaves in it, and what a push leaves in the installer's
set and in the table. -/

namespace ShadowVpn

open Lib

section Sets

variable {K : Type} [DecidableEq K] {order : IterOrder K Unit} {s : HashSet K} {k : K}

theorem get_insert_unit {a : K} : HashMap.get (s.insert a ()) k = some () ↔ k = a ∨ s.get k = some () := by
  rw [HashMap.get_insert]
  by_cases h : k = a
  · simp [h]
  · simp [h]

theorem get_foldl_insert (ks : List K) (s : HashSet K) :
    HashMap.get (ks.foldl (fun s k => s.insert k ()) s) k = some () ↔
      k ∈ ks ∨ s.get k = some () := by
  have hloop := foldl_or_iff (f := fun s k => s.insert k ())
    (p := fun s => HashMap.get s k = some ()) (q := fun _ a => k = a)
    (fun _ _ => get_insert_unit.trans or_comm) (fun _ _ _ => Iff.rfl) ks s
  rw [hloop, or_comm]
  simp

theorem mem_keysIn : k ∈ keysIn order s ↔ s.get k = some () := by
  simp only [keysIn, List.mem_map]
  constructor
  · rintro ⟨⟨k, u⟩, hk, rfl⟩
    exact order.mem_iter.1 hk
  · intro h
    exact ⟨⟨k, ()⟩, order.mem_iter.2 h, rfl⟩

theorem get_eq_none_iff : s.get k = none ↔ ¬ s.get k = some () := by
  cases s.get k with
  | none => simp
  | some u => simp

theorem get_erase_unit {a : K} : HashMap.get (s.erase a) k = some () ↔ k ≠ a ∧ s.get k = some () := by
  rw [HashMap.get_erase]
  by_cases h : k = a
  · simp [h]
  · simp [h]

end Sets

/-! The table. -/

namespace RouteTable

variable {kernel : RouteCall → Bool} {t : RouteTable} {c : RouteCall} {k : RouteKey}

theorem get_modify_add (hadd : c.add = true) :
    HashMap.get (t.modify kernel c) k = some () ↔
      t.get k = some () ∨ (kernel c = true ∧ c.key = k) := by
  unfold modify
  by_cases hk : kernel c = true
  · rw [if_pos hk, if_pos hadd, get_insert_unit]
    simp only [hk, true_and, eq_comm (a := k)]
    exact or_comm
  · rw [if_neg hk]
    simp [hk]

theorem get_modify_remove (hadd : c.add = false) :
    HashMap.get (t.modify kernel c) k = some () ↔
      t.get k = some () ∧ ¬ (kernel c = true ∧ c.key = k) := by
  unfold modify
  by_cases hk : kernel c = true
  · rw [if_pos hk, if_neg (by simp [hadd]), get_erase_unit]
    simp only [hk, true_and, eq_comm (a := k), ne_eq]
    exact and_comm
  · rw [if_neg hk]
    simp [hk]

end RouteTable

/-! The sets that a push computes. -/

section Installer

variable {order : IterOrder IpNetwork Unit} {ri : RouteInstaller} {pushed : List IpNetwork}
  {net : IpNetwork} {kernel : RouteCall → Bool}

theorem mem_diffRoutes_add {installed : HashSet IpNetwork} :
    net ∈ (diffRoutes order installed pushed).1 ↔
      net ∈ pushed.map canonical ∧ ¬ installed.get net = some () := by
  simp only [diffRoutes, List.mem_filter, mem_keysIn, get_foldl_insert, HashMap.get_empty,
    Option.isNone_iff_eq_none, get_eq_none_iff]
  simp

theorem mem_diffRoutes_remove {installed : HashSet IpNetwork} :
    net ∈ (diffRoutes order installed pushed).2 ↔
      installed.get net = some () ∧ net ∉ pushed.map canonical := by
  simp only [diffRoutes, List.mem_filter, mem_keysIn, Option.isNone_iff_eq_none, get_eq_none_iff,
    get_foldl_insert, HashMap.get_empty]
  simp

namespace RouteInstaller

@[simp] theorem install_serverIp (ri : RouteInstaller) (n : IpNetwork) :
    (install kernel ri n).serverIp = ri.serverIp := by
  unfold install
  split_ifs <;> rfl

@[simp] theorem install_routeCall (ri : RouteInstaller) (n : IpNetwork) (add : Bool)
    (m : IpNetwork) : (install kernel ri n).routeCall add m = ri.routeCall add m := by
  unfold install
  split_ifs <;> rfl

theorem install_get (ri : RouteInstaller) (n : IpNetwork) :
    (install kernel ri n).installed.get net = some () ↔ ri.installed.get net = some () ∨
      (net = n ∧ SubnetTable.contains net ri.serverIp = false ∧
        kernel (ri.routeCall true net) = true) := by
  unfold install
  by_cases hc : SubnetTable.contains n ri.serverIp = true
  · rw [if_pos hc]
    constructor
    · exact Or.inl
    · rintro (h | ⟨rfl, hf, -⟩)
      · exact h
      · rw [hc] at hf
        cases hf
  · rw [if_neg hc]
    by_cases hk : kernel (ri.routeCall true n) = true
    · rw [if_pos hk]
      by_cases hn : net = n
      · subst hn
        simp [hc, hk]
      · simp [hn]
    · rw [if_neg hk]
      constructor
      · exact Or.inl
      · rintro (h | ⟨rfl, -, hf⟩)
        · exact h
        · exact absurd hf hk

theorem foldl_install_serverIp (nets : List IpNetwork) (ri : RouteInstaller) :
    (nets.foldl (install kernel) ri).serverIp = ri.serverIp := by
  exact foldl_frame _ (fun ri n _ => install_serverIp ri n) ri

theorem foldl_install_routeCall (nets : List IpNetwork) (ri : RouteInstaller) (add : Bool)
    (m : IpNetwork) : (nets.foldl (install kernel) ri).routeCall add m = ri.routeCall add m := by
  exact foldl_frame (fun ri => ri.routeCall add m) (fun ri n _ => install_routeCall ri n add m) ri

/-- The loop over the additions. -/
theorem foldl_install_get (nets : List IpNetwork) (ri : RouteInstaller) :
    (nets.foldl (install kernel) ri).installed.get net = some () ↔
      ri.installed.get net = some () ∨ (net ∈ nets ∧
        SubnetTable.contains net ri.serverIp = false ∧ kernel (ri.routeCall true net) = true) := by
  have hloop := foldl_or_iff (p := fun ri => ri.installed.get net = some ())
    (q := fun ri n => net = n ∧ SubnetTable.contains net ri.serverIp = false ∧
      kernel (ri.routeCall true net) = true) install_get (by simp) nets ri
  rw [hloop]
  simp

theorem foldl_uninstall_serverIp (nets : List IpNetwork) (ri : RouteInstaller) :
    (nets.foldl uninstall ri).serverIp = ri.serverIp := by
  exact foldl_frame (f := uninstall) RouteInstaller.serverIp (fun _ _ _ => rfl) ri

theorem foldl_uninstall_routeCall (nets : List IpNetwork) (ri : RouteInstaller) (add : Bool)
    (m : IpNetwork) : (nets.foldl uninstall ri).routeCall add m = ri.routeCall add m := by
  refine foldl_frame (fun ri => ri.routeCall add m) ?_ ri
  intro ri n _
  cases m <;> rfl

/-- The loop over the removals. -/
theorem foldl_uninstall_get (nets : List IpNetwork) (ri : RouteInstaller) :
    (nets.foldl uninstall ri).installed.get net = some () ↔
      ri.installed.get net = some () ∧ net ∉ nets := by
  have hone : ∀ (ri : RouteInstaller) n, (ri.uninstall n).installed.get net = some () ↔
      ri.installed.get net = some () ∧ net ≠ n := by
    intro ri n
    rw [uninstall, HashMap.get_erase]
    by_cases h : net = n
    · simp [h]
    · simp [h]
  have hloop := foldl_and_iff (p := fun ri => ri.installed.get net = some ())
    (q := fun _ n => net ≠ n) hone (fun _ _ _ => Iff.rfl) nets ri
  exact hloop.trans (and_congr_right' List.forall_mem_ne)

theorem apply_serverIp (ri : RouteInstaller) :
    (ri.apply kernel order pushed).serverIp = ri.serverIp := by
  unfold apply
  rw [foldl_uninstall_serverIp, foldl_install_serverIp]

@[simp] theorem apply_routeCall (ri : RouteInstaller) (add : Bool) (m : IpNetwork) :
    (ri.apply kernel order pushed).routeCall add m = ri.routeCall add m := by
  unfold apply
  rw [foldl_uninstall_routeCall, foldl_install_routeCall]

/-- What is installed after a push. -/
theorem apply_get (ri : RouteInstaller) :
    (ri.apply kernel order pushed).installed.get net = some () ↔
      net ∈ pushed.map canonical ∧ (ri.installed.get net = some () ∨
        (SubnetTable.contains net ri.serverIp = false ∧ kernel (ri.routeCall true net) = true)) := by
  unfold apply
  rw [foldl_uninstall_get, foldl_install_get, mem_diffRoutes_add, mem_diffRoutes_remove]
  tauto

/-- No installed route covers the server. -/
def Safe (ri : RouteInstaller) : Prop :=
  ∀ net, ri.installed.get net = some () → SubnetTable.contains net ri.serverIp = false

theorem Safe.step (h : ri.Safe) (op : Op) : (ri.step op).Safe := by
  cases op with
  | removeAll =>
    intro net hnet
    cases hnet
  | apply kernel order pushed =>
    intro net hnet
    obtain ⟨-, hold | ⟨hnew, -⟩⟩ := (apply_get ri).1 hnet
    · exact (apply_serverIp ri).symm ▸ h net hold
    · exact (apply_serverIp ri).symm ▸ hnew

theorem run_safe (ifindex : UInt32) (tunIp : Ipv4Addr) (serverIp : IpAddr) (ops : List Op) :
    ((new ifindex tunIp serverIp).run ops).Safe ∧
      ((new ifindex tunIp serverIp).run ops).serverIp = serverIp := by
  induction ops using List.reverseRecOn with
  | nil =>
    refine ⟨?_, rfl⟩
    intro net hnet
    cases hnet
  | append_singleton ops op ih =>
    rw [run, List.foldl_append]
    refine ⟨ih.1.step op, ?_⟩
    cases op with
    | apply kernel order pushed => exact (apply_serverIp _).trans ih.2
    | removeAll => exact ih.2

/-- A push that the kernel takes in full replaces the installed set. -/
theorem Safe.apply_all (h : ri.Safe) :
    (ri.apply (fun _ => true) order pushed).installed.get net = some () ↔
      net ∈ pushed.map canonical ∧ SubnetTable.contains net ri.serverIp = false := by
  rw [apply_get]
  constructor
  · rintro ⟨hmem, hold | ⟨hnew, -⟩⟩
    · exact ⟨hmem, h net hold⟩
    · exact ⟨hmem, hnew⟩
  · rintro ⟨hmem, hnew⟩
    exact ⟨hmem, Or.inr ⟨hnew, rfl⟩⟩

end RouteInstaller

/-! The installer over the table. -/

theorem contains_canonical (net : IpNetwork) (ip : IpAddr) :
    SubnetTable.contains (canonical net) ip = SubnetTable.contains net ip := by
  cases net with
  | v4 n =>
    cases ip with
    | v4 a => exact congrArg (a &&& n.mask == ·) n.network_canonical
    | v6 a => rfl
  | v6 n =>
    cases ip with
    | v4 a => rfl
    | v6 a => exact congrArg (a &&& n.mask == ·) n.network_canonical

/-- What a network is told apart by in the table. -/
def RouteInstaller.key (ri : RouteInstaller) (net : IpNetwork) : RouteKey :=
  (ri.routeCall true net).key

@[simp] theorem RouteInstaller.routeCall_key (ri : RouteInstaller) (add : Bool) (net : IpNetwork) :
    (ri.routeCall add net).key = ri.key net := by
  cases net <;> rfl

@[simp] theorem RouteInstaller.apply_key (ri : RouteInstaller) (net : IpNetwork) :
    (ri.apply kernel order pushed).key net = ri.key net :=
  congrArg RouteCall.key (ri.apply_routeCall true net)

@[simp] theorem RouteInstaller.routeCall_add (ri : RouteInstaller) (add : Bool) (net : IpNetwork) :
    (ri.routeCall add net).add = add := by
  cases net <;> rfl

/-- Networks without host bits have their own routes. -/
theorem RouteInstaller.key_injective {m n : IpNetwork} (hm : canonical m = m)
    (hn : canonical n = n) (h : ri.key m = ri.key n) : m = n := by
  have hdst := congrArg RouteKey.dst h
  have hlen := congrArg RouteKey.prefixLen h
  cases m with
  | v4 m =>
    cases n with
    | v4 n =>
      have hnet : m.network = n.network := IpAddr.v4.inj hdst
      rw [Cidr.eq_of_network (IpNetwork.v4.inj hm) (IpNetwork.v4.inj hn) hlen hnet]
    | v6 n => cases hdst
  | v6 m =>
    cases n with
    | v4 n => cases hdst
    | v6 n =>
      have hnet : m.network = n.network := IpAddr.v6.inj hdst
      rw [Cidr.eq_of_network (IpNetwork.v6.inj hm) (IpNetwork.v6.inj hn) hlen hnet]

namespace Installing

variable {s : Installing} {k : RouteKey} {c : RouteCall}

@[simp] theorem install_installer (s : Installing) (n : IpNetwork) :
    (install kernel s n).installer = s.installer.install kernel n := by
  unfold install
  split_ifs with h
  · rw [RouteInstaller.install, if_pos h]
  · rfl

@[simp] theorem foldl_install_installer (nets : List IpNetwork) (s : Installing) :
    (nets.foldl (install kernel) s).installer = nets.foldl (RouteInstaller.install kernel) s.installer := by
  induction nets generalizing s with
  | nil => rfl
  | cons n nets ih => rw [List.foldl_cons, ih, install_installer, List.foldl_cons]

theorem foldl_uninstall_installer (nets : List IpNetwork) (s : Installing) :
    (nets.foldl (uninstall kernel) s).installer = nets.foldl RouteInstaller.uninstall s.installer := by
  induction nets generalizing s with
  | nil => rfl
  | cons n nets ih => exact ih (s.uninstall kernel n)

/-- The kernel's table aside, this is the installer's own push. -/
theorem apply_installer (s : Installing) :
    (s.apply kernel order pushed).installer = s.installer.apply kernel order pushed := by
  unfold apply
  rw [foldl_uninstall_installer, foldl_install_installer]
  rfl

theorem foldl_install_table (nets : List IpNetwork) (s : Installing) :
    (nets.foldl (install kernel) s).table.get k = some () ↔ s.table.get k = some () ∨
      ∃ net ∈ nets, SubnetTable.contains net s.installer.serverIp = false ∧
        kernel (s.installer.routeCall true net) = true ∧ s.installer.key net = k := by
  refine foldl_or_iff (p := fun s => s.table.get k = some ())
    (q := fun s net => SubnetTable.contains net s.installer.serverIp = false ∧
      kernel (s.installer.routeCall true net) = true ∧ s.installer.key net = k) ?_ ?_ nets s
  · intro s n
    unfold install
    split_ifs with hc
    · simp [hc]
    · simp only [modifyRoute, hc, true_and]
      rw [RouteTable.get_modify_add (RouteInstaller.routeCall_add _ _ _),
        RouteInstaller.routeCall_key]
  · simp only [install_installer, RouteInstaller.install_serverIp,
      RouteInstaller.install_routeCall, RouteInstaller.key, implies_true]

theorem foldl_install_calls (nets : List IpNetwork) (s : Installing) :
    c ∈ (nets.foldl (install kernel) s).calls ↔ c ∈ s.calls ∨
      ∃ net ∈ nets, SubnetTable.contains net s.installer.serverIp = false ∧
        c = s.installer.routeCall true net := by
  refine foldl_or_iff (p := fun s => c ∈ s.calls)
    (q := fun s net => SubnetTable.contains net s.installer.serverIp = false ∧
      c = s.installer.routeCall true net) ?_ ?_ nets s
  · intro s n
    unfold install
    split_ifs with hc
    · simp [hc]
    · simp [modifyRoute, hc]
  · simp only [install_installer, RouteInstaller.install_serverIp,
      RouteInstaller.install_routeCall, implies_true]

/-- A loop body that removes a network's route, whatever it does to the installed set. -/
structure Removes (kernel : RouteCall → Bool) (f : Installing → IpNetwork → Installing) : Prop where
  table : ∀ s n, (f s n).table = (s.modifyRoute kernel false n).table
  calls : ∀ s n, (f s n).calls = s.calls ++ [s.installer.routeCall false n]
  routeCall : ∀ s n add m, (f s n).installer.routeCall add m = s.installer.routeCall add m

theorem removes_modifyRoute : Removes kernel (modifyRoute kernel false) :=
  ⟨fun _ _ => rfl, fun _ _ => rfl, fun _ _ _ _ => rfl⟩

theorem removes_uninstall : Removes kernel (uninstall kernel) :=
  ⟨fun _ _ => rfl, fun _ _ => rfl, fun _ _ _ m => by cases m <;> rfl⟩

variable {f : Installing → IpNetwork → Installing}

theorem Removes.foldl_table (hf : Removes kernel f) (nets : List IpNetwork) (s : Installing) :
    (nets.foldl f s).table.get k = some () ↔ s.table.get k = some () ∧
      ∀ net ∈ nets, kernel (s.installer.routeCall false net) = true → s.installer.key net ≠ k := by
  refine foldl_and_iff (p := fun s => s.table.get k = some ())
    (q := fun s net => kernel (s.installer.routeCall false net) = true → s.installer.key net ≠ k)
    ?_ ?_ nets s
  · intro s n
    rw [hf.table, modifyRoute, RouteTable.get_modify_remove (RouteInstaller.routeCall_add _ _ _),
      RouteInstaller.routeCall_key, not_and]
  · simp only [hf.routeCall, RouteInstaller.key, implies_true]

theorem Removes.foldl_calls (hf : Removes kernel f) (nets : List IpNetwork) (s : Installing) :
    c ∈ (nets.foldl f s).calls ↔ c ∈ s.calls ∨
      ∃ net ∈ nets, c = s.installer.routeCall false net := by
  refine foldl_or_iff (p := fun s => c ∈ s.calls)
    (q := fun s net => c = s.installer.routeCall false net) ?_ ?_ nets s
  · intro s n
    rw [hf.calls, List.mem_append, List.mem_singleton]
  · simp only [hf.routeCall, implies_true]

/-- The routes in the table after a push: those before and the additions that the kernel
took, without the withdrawals that it took. -/
theorem apply_table (s : Installing) :
    (s.apply kernel order pushed).table.get k = some () ↔
      (s.table.get k = some () ∨ ∃ net ∈ pushed.map canonical,
        ¬ s.installer.installed.get net = some () ∧
        SubnetTable.contains net s.installer.serverIp = false ∧
        kernel (s.installer.routeCall true net) = true ∧ s.installer.key net = k) ∧
      ∀ net, s.installer.installed.get net = some () → net ∉ pushed.map canonical →
        kernel (s.installer.routeCall false net) = true → s.installer.key net ≠ k := by
  have hcall : ∀ add m, ((diffRoutes order s.installer.installed pushed).1.foldl
      (RouteInstaller.install kernel) s.installer).routeCall add m = s.installer.routeCall add m :=
    RouteInstaller.foldl_install_routeCall _ _
  unfold apply
  rw [removes_uninstall.foldl_table, foldl_install_table]
  simp only [foldl_install_installer, RouteInstaller.key, hcall, mem_diffRoutes_add,
    mem_diffRoutes_remove, and_assoc, and_imp]

/-- The calls of a push. -/
theorem apply_calls (s : Installing) :
    c ∈ (s.apply kernel order pushed).calls ↔ c ∈ s.calls ∨
      (∃ net ∈ pushed.map canonical, ¬ s.installer.installed.get net = some () ∧
        SubnetTable.contains net s.installer.serverIp = false ∧
        c = s.installer.routeCall true net) ∨
      ∃ net, s.installer.installed.get net = some () ∧ net ∉ pushed.map canonical ∧
        c = s.installer.routeCall false net := by
  have hcall : ∀ add m, ((diffRoutes order s.installer.installed pushed).1.foldl
      (RouteInstaller.install kernel) s.installer).routeCall add m = s.installer.routeCall add m :=
    RouteInstaller.foldl_install_routeCall _ _
  unfold apply
  rw [removes_uninstall.foldl_calls, foldl_install_calls]
  simp only [foldl_install_installer, hcall, mem_diffRoutes_add, mem_diffRoutes_remove, and_assoc,
    or_assoc]

theorem removeAll_table (s : Installing) :
    (s.removeAll kernel order).table.get k = some () ↔ s.table.get k = some () ∧
      ∀ net, s.installer.installed.get net = some () →
        kernel (s.installer.routeCall false net) = true → s.installer.key net ≠ k := by
  unfold removeAll
  rw [removes_modifyRoute.foldl_table]
  simp only [mem_keysIn]
  rfl

theorem removeAll_calls (s : Installing) :
    c ∈ (s.removeAll kernel order).calls ↔ c ∈ s.calls ∨
      ∃ net, s.installer.installed.get net = some () ∧ c = s.installer.routeCall false net := by
  unfold removeAll
  rw [removes_modifyRoute.foldl_calls]
  simp only [mem_keysIn]
  rfl

theorem removeAll_installer (s : Installing) :
    (s.removeAll kernel order).installer = s.installer.removeAll := by
  unfold removeAll
  generalize keysIn order s.installer.installed = nets
  induction nets using List.reverseRecOn with
  | nil => rfl
  | append_singleton nets n ih =>
    rw [List.foldl_append]
    exact ih

end Installing

end Installer

/-! The guard over the table. -/

def InstalledPrefix.isV4 (p : InstalledPrefix) : Bool :=
  match p.dst with
  | .v4 _ => true
  | .v6 _ => false

theorem v4Connected_isV4 {assigned netmask : Ipv4Addr} {p : InstalledPrefix}
    (h : v4Connected assigned netmask = some p) : p.isV4 = true := by
  obtain ⟨net, -, rfl⟩ := Option.map_eq_some_iff.1 h
  rfl

section Guard

variable {kernel : RouteCall → Bool} {isV4 : Bool} {next p : InstalledPrefix}

namespace SubnetRouteGuard

variable {g : SubnetRouteGuard}

def key (g : SubnetRouteGuard) (p : InstalledPrefix) : RouteKey := ⟨g.ifindex, p.dst, p.prefixLen⟩

theorem key_inj : g.key p = g.key next ↔ p = next := by
  refine ⟨?_, fun h => by rw [h]⟩
  intro h
  obtain ⟨-, hdst, hlen⟩ := RouteKey.mk.inj h
  cases p
  cases next
  exact congrArg₂ InstalledPrefix.mk hdst hlen

@[simp] theorem field_setField (g : SubnetRouteGuard) (isV4 b : Bool) (p : Option InstalledPrefix) :
    (g.setField isV4 p).field b = if b = isV4 then p else g.field b := by
  cases isV4 <;> cases b <;> rfl

@[simp] theorem setField_setField (g : SubnetRouteGuard) (isV4 : Bool) (o o' : Option InstalledPrefix) :
    (g.setField isV4 o).setField isV4 o' = g.setField isV4 o' := by
  cases isV4 <;> rfl

@[simp] theorem setField_field (g : SubnetRouteGuard) (isV4 : Bool) :
    g.setField isV4 (g.field isV4) = g := by
  cases isV4 <;> rfl

@[simp] theorem key_setField (g : SubnetRouteGuard) (isV4 : Bool) (o : Option InstalledPrefix) :
    (g.setField isV4 o).key = g.key := by
  cases isV4 <;> rfl

@[simp] theorem routeCall_setField (g : SubnetRouteGuard) (isV4 : Bool) (o : Option InstalledPrefix) :
    (g.setField isV4 o).routeCall = g.routeCall := by
  cases isV4 <;> rfl

@[simp] theorem routeCall_key (g : SubnetRouteGuard) (add : Bool) (p : InstalledPrefix) :
    (g.routeCall add p).key = g.key p := rfl

/-- Each field holds a prefix of its family. -/
def ByFamily (g : SubnetRouteGuard) : Prop := ∀ b p, g.field b = some p → p.isV4 = b

end SubnetRouteGuard

namespace Guarding

variable {s s' : Guarding}

/-- The guard has put the route of the prefix into the table, and it is still there. -/
def Live (s : Guarding) (p : InstalledPrefix) : Prop := s.table.get (s.guard.key p) = some ()

/-- The route of every prefix that the guard tracks is in the table. -/
def Present (s : Guarding) : Prop :=
  ∀ b p, s.guard.field b = some p → s.table.get (s.guard.key p) = some ()

@[simp] theorem live_setField {o : Option InstalledPrefix} :
    (s.setField isV4 o).Live p ↔ s.Live p := by
  rw [Live, setField, SubnetRouteGuard.key_setField, Live]

theorem live_modifyRoute_add : (s.modifyRoute kernel true next).1.Live p ↔
    s.Live p ∨ kernel (s.guard.routeCall true next) = true ∧ next = p := by
  refine (RouteTable.get_modify_add rfl).trans (or_congr Iff.rfl (and_congr Iff.rfl ?_))
  exact SubnetRouteGuard.key_inj

theorem live_deletePrefix : (s.deletePrefix kernel next).Live p ↔
    s.Live p ∧ ¬ (kernel (s.guard.routeCall false next) = true ∧ next = p) := by
  refine (RouteTable.get_modify_remove rfl).trans (and_congr Iff.rfl (not_congr (and_congr Iff.rfl ?_)))
  exact SubnetRouteGuard.key_inj

/-- A field is emptied, and then the route of what it held is deleted. -/
def clear (kernel : RouteCall → Bool) (isV4 : Bool) (s : Guarding) : Guarding :=
  (s.guard.field isV4).elim (s.setField isV4 none) ((s.setField isV4 none).deletePrefix kernel)

theorem clear_guard (s : Guarding) : (s.clear kernel isV4).guard = s.guard.setField isV4 none := by
  unfold clear
  cases s.guard.field isV4 <;> rfl

theorem live_clear : (s.clear kernel isV4).Live p ↔ s.Live p ∧
    ¬ (s.guard.field isV4 = some p ∧ kernel (s.guard.routeCall false p) = true) := by
  unfold clear
  cases s.guard.field isV4 with
  | none => simp
  | some old =>
    rw [Option.elim_some, live_deletePrefix, live_setField, setField,
      SubnetRouteGuard.routeCall_setField, Option.some_inj, and_comm (a := old = p)]
    refine and_congr Iff.rfl (not_congr (and_congr_left ?_))
    rintro rfl
    rfl

/-- One field gets `next` in place of what it held, or nothing. The old route goes if the kernel
deletes it, and a prefix is tracked only once its route is there. -/
structure Synced (kernel : RouteCall → Bool) (isV4 : Bool) (next : Option InstalledPrefix)
    (s s' : Guarding) : Prop where
  call : s'.guard.routeCall = s.guard.routeCall
  other : ∀ b, b ≠ isV4 → s'.guard.field b = s.guard.field b
  field : ∀ p, s'.guard.field isV4 = some p → next = some p
  keeps : ∀ p, s.guard.field isV4 = some p → next = some p → s'.guard.field isV4 = some p
  live : s.Present → ∀ p, s'.Live p ↔
    s.Live p ∧ ¬ (s.guard.field isV4 = some p ∧ next ≠ some p ∧
      kernel (s.guard.routeCall false p) = true) ∨
    next = some p ∧ s'.guard.field isV4 = some p

/-- The field is cleared, and then tracks the new prefix or nothing. -/
theorem Synced.of_clear {o tracked : Option InstalledPrefix}
    (hcur : ∀ p, s.guard.field isV4 = some p → o ≠ some p)
    (htracked : ∀ p, tracked = some p → o = some p)
    (hguard : s'.guard = s.guard.setField isV4 tracked)
    (hlive : ∀ p, s'.Live p ↔ (s.clear kernel isV4).Live p ∨ tracked = some p) :
    Synced kernel isV4 o s s' := by
  have hfield : s'.guard.field isV4 = tracked := by
    rw [hguard, SubnetRouteGuard.field_setField, if_pos rfl]
  refine ⟨?_, ?_, ?_, ?_, ?_⟩
  · rw [hguard, SubnetRouteGuard.routeCall_setField]
  · intro b hb
    rw [hguard, SubnetRouteGuard.field_setField, if_neg hb]
  · intro p hp
    exact htracked p (hfield.symm.trans hp)
  · intro p hp hnext
    exact absurd hnext (hcur p hp)
  · intro _ p
    rw [hlive, live_clear, hfield]
    refine or_congr (and_congr Iff.rfl (not_congr ?_)) ?_
    · exact ⟨fun h => ⟨h.1, hcur p h.1, h.2⟩, fun h => ⟨h.1, h.2.2⟩⟩
    · exact ⟨fun h => ⟨htracked p h, h⟩, fun h => h.2⟩

theorem synced_clear (kernel : RouteCall → Bool) (isV4 : Bool) (s : Guarding) :
    Synced kernel isV4 none s (s.clear kernel isV4) := by
  refine .of_clear ?_ (fun _ h => h) (clear_guard s) ?_
  · intro p _ hp
    cases hp
  · intro p
    simp

/-- The prefix stays. -/
theorem Synced.of_refresh (hcur : s.guard.field isV4 = some next) (hguard : s'.guard = s.guard)
    (hlive : s.Present → ∀ p, s'.Live p ↔ s.Live p) : Synced kernel isV4 (some next) s s' := by
  refine ⟨?_, ?_, ?_, ?_, ?_⟩
  · rw [hguard]
  · intro b _
    rw [hguard]
  · intro p hp
    rwa [← hcur, ← hguard]
  · intro p hp _
    rwa [hguard]
  · intro hpresent p
    rw [hlive hpresent, hguard, hcur]
    refine ⟨fun h => Or.inl ⟨h, fun hno => hno.2.1 hno.1⟩, ?_⟩
    rintro (⟨h, -⟩ | ⟨h, -⟩)
    · exact h
    · exact hpresent isV4 p (hcur.trans h)

theorem syncRoute_of_ne (hcur : s.guard.field isV4 ≠ some next) :
    s.syncRoute kernel isV4 next = (s.clear kernel isV4).modifyRoute kernel true next := by
  unfold syncRoute prefixAction
  rw [if_neg hcur]
  rfl

theorem syncRoute_of_eq (hcur : s.guard.field isV4 = some next) :
    s.syncRoute kernel isV4 next = if isV4 then s.modifyRoute kernel true next else (s, true) := by
  unfold syncRoute prefixAction
  rw [if_pos hcur]

theorem syncPrefix_of_ok (h : (s.syncRoute kernel isV4 next).2 = true) :
    s.syncPrefix kernel isV4 next = ((s.syncRoute kernel isV4 next).1.setField isV4 (some next), true) :=
  if_pos h

theorem syncPrefix_of_refused (h : (s.syncRoute kernel isV4 next).2 = false) :
    s.syncPrefix kernel isV4 next = ((s.syncRoute kernel isV4 next).1, false) :=
  if_neg (ne_true_of_eq_false h)

/-- To add a route that is there changes nothing. -/
theorem live_syncRoute_of_eq (hcur : s.guard.field isV4 = some next) (hpresent : s.Present) :
    (s.syncRoute kernel isV4 next).1.Live p ↔ s.Live p := by
  rw [syncRoute_of_eq hcur]
  cases isV4 with
  | false => exact Iff.rfl
  | true =>
    refine live_modifyRoute_add.trans (or_iff_left_of_imp ?_)
    rintro ⟨-, rfl⟩
    exact hpresent true next hcur

theorem synced_syncPrefix (kernel : RouteCall → Bool) (s : Guarding) (isV4 : Bool)
    (next : InstalledPrefix) :
    Synced kernel isV4 (some next) s (s.syncPrefix kernel isV4 next).1 := by
  by_cases hcur : s.guard.field isV4 = some next
  · have hguard : (s.syncRoute kernel isV4 next).1.guard = s.guard := by
      rw [syncRoute_of_eq hcur]
      cases isV4 <;> rfl
    cases hok : (s.syncRoute kernel isV4 next).2 with
    | false =>
      rw [syncPrefix_of_refused hok]
      exact .of_refresh hcur hguard fun hpresent p => live_syncRoute_of_eq hcur hpresent
    | true =>
      rw [syncPrefix_of_ok hok]
      refine .of_refresh hcur ?_ fun hpresent p =>
        live_setField.trans (live_syncRoute_of_eq hcur hpresent)
      rw [setField, hguard, ← hcur, SubnetRouteGuard.setField_field]
  · have hguard : (s.syncRoute kernel isV4 next).1.guard = s.guard.setField isV4 none := by
      rw [syncRoute_of_ne hcur]
      exact clear_guard s
    have hlive : ∀ p, (s.syncRoute kernel isV4 next).1.Live p ↔ (s.clear kernel isV4).Live p ∨
        (s.syncRoute kernel isV4 next).2 = true ∧ next = p := by
      intro p
      rw [syncRoute_of_ne hcur]
      exact live_modifyRoute_add
    have hne : ∀ p, s.guard.field isV4 = some p → some next ≠ some p :=
      fun p hp hnext => hcur (hp.trans hnext.symm)
    cases hok : (s.syncRoute kernel isV4 next).2 with
    | false =>
      rw [syncPrefix_of_refused hok]
      refine .of_clear hne ?_ hguard ?_
      · intro p hp
        cases hp
      · intro p
        simp [hlive, hok]
    | true =>
      rw [syncPrefix_of_ok hok]
      refine .of_clear hne (fun _ h => h) ?_ ?_
      · rw [setField, hguard, SubnetRouteGuard.setField_setField]
      · intro p
        simp [hlive, hok]

/-- Whether an IPv4 prefix is synced is up to the call that adds it. -/
theorem syncPrefix_ok (kernel : RouteCall → Bool) (s : Guarding) (next : InstalledPrefix) :
    (s.syncPrefix kernel true next).2 = kernel (s.guard.routeCall true next) := by
  have hcall : (s.syncRoute kernel true next).2 = kernel (s.guard.routeCall true next) := by
    by_cases hcur : s.guard.field true = some next
    · rw [syncRoute_of_eq hcur, if_pos rfl, modifyRoute]
    · rw [syncRoute_of_ne hcur, modifyRoute, clear_guard, SubnetRouteGuard.routeCall_setField]
  rw [← hcall]
  cases hok : (s.syncRoute kernel true next).2 with
  | false => rw [syncPrefix_of_refused hok]
  | true => rw [syncPrefix_of_ok hok]

theorem syncPrefix_field (h : (s.syncPrefix kernel isV4 next).2 = true) :
    (s.syncPrefix kernel isV4 next).1.guard.field isV4 = some next := by
  cases hok : (s.syncRoute kernel isV4 next).2 with
  | false =>
    rw [syncPrefix_of_refused hok] at h
    cases h
  | true => rw [syncPrefix_of_ok hok, setField, SubnetRouteGuard.field_setField, if_pos rfl]

theorem Synced.byFamily {o : Option InstalledPrefix} (h : Synced kernel isV4 o s s')
    (hfam : s.guard.ByFamily) (ho : ∀ p, o = some p → p.isV4 = isV4) : s'.guard.ByFamily := by
  intro b p hp
  by_cases hb : b = isV4
  · subst hb
    exact ho p (h.field p hp)
  · rw [h.other b hb] at hp
    exact hfam b p hp

theorem Synced.present {o : Option InstalledPrefix} (h : Synced kernel isV4 o s s')
    (hfam : s.guard.ByFamily) (hpresent : s.Present) : s'.Present := by
  intro b p hp
  refine (h.live hpresent p).2 ?_
  by_cases hb : b = isV4
  · subst hb
    exact Or.inr ⟨h.field p hp, hp⟩
  · rw [h.other b hb] at hp
    refine Or.inl ⟨hpresent b p hp, ?_⟩
    rintro ⟨hold, -⟩
    exact hb ((hfam b p hp).symm.trans (hfam isV4 p hold))

/-- What an assignment does to the guard that has its address already. The IPv6 half is reached
only if the kernel took the IPv4 prefix. -/
inductive Applied (kernel : RouteCall → Bool) (assignedIp netmask : Ipv4Addr)
    (ip6 : Option Ipv6Network) (s : Guarding) : Guarding → Bool → Prop
  | mask (hv4 : v4Connected assignedIp netmask = none) : Applied kernel assignedIp netmask ip6 s s false
  | refused {next : InstalledPrefix} {s' : Guarding} (hv4 : v4Connected assignedIp netmask = some next)
      (hcall : kernel (s.guard.routeCall true next) = false)
      (hfirst : Synced kernel true (some next) s s') : Applied kernel assignedIp netmask ip6 s s' false
  | both {next : InstalledPrefix} {mid s' : Guarding} {ok : Bool}
      (hv4 : v4Connected assignedIp netmask = some next)
      (hcall : kernel (s.guard.routeCall true next) = true)
      (hfirst : Synced kernel true (some next) s mid) (hmid : mid.guard.field true = some next)
      (hsecond : Synced kernel false (ip6.map ip6Connected) mid s')
      (hok : ok = true → s'.guard.field false = ip6.map ip6Connected) :
      Applied kernel assignedIp netmask ip6 s s' ok

/-- The guard with the address that it gives its routes. -/
def moved (s : Guarding) (assignedIp : Ipv4Addr) : Guarding :=
  { s with guard := { s.guard with tunIp := assignedIp } }

theorem applied_apply (kernel : RouteCall → Bool) (s : Guarding) (assignedIp netmask : Ipv4Addr)
    (ip6 : Option Ipv6Network) :
    Applied kernel assignedIp netmask ip6 (s.moved assignedIp)
      (s.apply kernel assignedIp netmask ip6).1 (s.apply kernel assignedIp netmask ip6).2 := by
  unfold apply moved
  generalize { s with guard := { s.guard with tunIp := assignedIp } : Guarding } = t
  cases hv4 : v4Connected assignedIp netmask with
  | none => exact .mask hv4
  | some next =>
    have hfirst := synced_syncPrefix kernel t true next
    have hcall := syncPrefix_ok kernel t next
    dsimp only
    by_cases hok : (t.syncPrefix kernel true next).2 = true
    · have hmid := syncPrefix_field hok
      rw [if_pos hok]
      rw [hok] at hcall
      generalize (t.syncPrefix kernel true next).1 = u at hfirst hmid ⊢
      cases ip6 with
      | some n =>
        exact .both hv4 hcall.symm hfirst hmid (synced_syncPrefix kernel u false (ip6Connected n))
          syncPrefix_field
      | none =>
        have hempty : (u.clear kernel false).guard.field false = none := by
          rw [clear_guard, SubnetRouteGuard.field_setField, if_pos rfl]
        exact .both hv4 hcall.symm hfirst hmid (synced_clear kernel false u) fun _ => hempty
    · rw [if_neg hok]
      rw [Bool.not_eq_true] at hok
      rw [hok] at hcall
      exact .refused hv4 hcall.symm hfirst

/-- After an assignment the guard tracks its two prefixes and nothing else. -/
theorem apply_tracks {assignedIp netmask : Ipv4Addr} {ip6 : Option Ipv6Network}
    (h : (s.apply kernel assignedIp netmask ip6).2 = true) :
    (∃ next, v4Connected assignedIp netmask = some next ∧
      (s.apply kernel assignedIp netmask ip6).1.guard.v4 = some next) ∧
    (s.apply kernel assignedIp netmask ip6).1.guard.v6 = ip6.map ip6Connected := by
  have happlied := applied_apply kernel s assignedIp netmask ip6
  rw [h] at happlied
  generalize (s.apply kernel assignedIp netmask ip6).1 = s' at happlied
  cases happlied with
  | both hv4 hcall hfirst hmid hsecond hok =>
    exact ⟨⟨_, hv4, (hsecond.other true (by decide)).trans hmid⟩, hok rfl⟩

theorem some_v4Connected_isV4 {assignedIp netmask : Ipv4Addr}
    (h : v4Connected assignedIp netmask = some next) : ∀ p, some next = some p → p.isV4 = true := by
  rintro p ⟨⟩
  exact v4Connected_isV4 h

theorem ip6Connected_isV4 {ip6 : Option Ipv6Network} (h : ip6.map ip6Connected = some p) :
    p.isV4 = false := by
  obtain ⟨n, -, rfl⟩ := Option.map_eq_some_iff.1 h
  rfl

/-- What the guard keeps over an assignment, its routes only if they were there before. -/
theorem Applied.kept {assignedIp netmask : Ipv4Addr} {ip6 : Option Ipv6Network} {ok : Bool}
    (h : Applied kernel assignedIp netmask ip6 s s' ok) (hfam : s.guard.ByFamily) :
    s'.guard.ByFamily ∧ (s.Present → s'.Present) := by
  cases h with
  | mask => exact ⟨hfam, id⟩
  | refused hv4 _ hfirst =>
    exact ⟨hfirst.byFamily hfam (some_v4Connected_isV4 hv4), hfirst.present hfam⟩
  | both hv4 _ hfirst _ hsecond =>
    have hmid := hfirst.byFamily hfam (some_v4Connected_isV4 hv4)
    exact ⟨hsecond.byFamily hmid fun p => ip6Connected_isV4,
      fun h => hsecond.present hmid (hfirst.present hfam h)⟩

theorem apply_kept (s : Guarding) (assignedIp netmask : Ipv4Addr) (ip6 : Option Ipv6Network)
    (hfam : s.guard.ByFamily) :
    (s.apply kernel assignedIp netmask ip6).1.guard.ByFamily ∧
      (s.Present → (s.apply kernel assignedIp netmask ip6).1.Present) :=
  (applied_apply kernel s assignedIp netmask ip6).kept hfam

/-! What the guard loses sight of. -/

/-- Every route of a family that the guard put into the table is the one that it tracks. -/
def Tracked (isV4 : Bool) (s : Guarding) : Prop :=
  ∀ p, p.isV4 = isV4 → s.Live p → s.guard.field isV4 = some p

/-- The field gives up a prefix whose route the kernel does not delete. -/
def Strays (kernel : RouteCall → Bool) (isV4 : Bool) (next : Option InstalledPrefix) (s : Guarding) :
    Prop :=
  ∃ old, s.guard.field isV4 = some old ∧ next ≠ some old ∧
    kernel (s.guard.routeCall false old) = false

theorem Synced.tracked_iff {o : Option InstalledPrefix} (h : Synced kernel isV4 o s s')
    (hfam : s.guard.ByFamily) (hpresent : s.Present) (htracked : s.Tracked isV4) :
    s'.Tracked isV4 ↔ ¬ s.Strays kernel isV4 o := by
  refine ⟨?_, ?_⟩
  · rintro hall ⟨old, hold, hnext, hcall⟩
    have hlive : s'.Live old := by
      refine (h.live hpresent old).2 (Or.inl ⟨hpresent isV4 old hold, ?_⟩)
      rintro ⟨-, -, hdeleted⟩
      rw [hcall] at hdeleted
      cases hdeleted
    exact hnext (h.field old (hall old (hfam isV4 old hold) hlive))
  · intro hno p hp hlive
    obtain ⟨hwas, hkept⟩ | ⟨-, hfield⟩ := (h.live hpresent p).1 hlive
    · have hold := htracked p hp hwas
      by_cases hnext : o = some p
      · exact h.keeps p hold hnext
      · refine absurd ⟨p, hold, hnext, ?_⟩ hno
        rw [← Bool.not_eq_true]
        exact fun hcall => hkept ⟨hold, hnext, hcall⟩
    · exact hfield

/-- The other family is left alone. -/
theorem Synced.tracked_other {o : Option InstalledPrefix} (h : Synced kernel isV4 o s s')
    (hfam : s.guard.ByFamily) (hpresent : s.Present) (ho : ∀ p, o = some p → p.isV4 = isV4) {b : Bool}
    (hb : b ≠ isV4) : s'.Tracked b ↔ s.Tracked b := by
  unfold Tracked
  rw [h.other b hb]
  refine forall_congr' fun p => forall_congr' fun hp => ?_
  have hlive : s'.Live p ↔ s.Live p := by
    rw [h.live hpresent]
    refine ⟨?_, ?_⟩
    · rintro (⟨hwas, -⟩ | ⟨hnext, -⟩)
      · exact hwas
      · exact absurd (hp.symm.trans (ho p hnext)) hb
    · intro hwas
      exact Or.inl ⟨hwas, fun hgone => hb (hp.symm.trans (hfam isV4 p hgone.1))⟩
  rw [hlive]

/-- An assignment leaves a route behind: the one of the IPv4 prefix that it replaces, or, once the
new IPv4 prefix is in, the one of the IPv6 prefix that it replaces or removes. -/
def Abandons (s : Guarding) (a : Assign) : Prop :=
  ∃ next, v4Connected a.assignedIp a.netmask = some next ∧
    (s.Strays a.kernel true (some next) ∨
      a.kernel (s.guard.routeCall true next) = true ∧ s.Strays a.kernel false (a.ip6.map ip6Connected))

theorem Applied.tracked_iff {a : Assign} {ok : Bool}
    (h : Applied a.kernel a.assignedIp a.netmask a.ip6 s s' ok) (hfam : s.guard.ByFamily)
    (hpresent : s.Present) (htracked : ∀ b, s.Tracked b) :
    (∀ b, s'.Tracked b) ↔ ¬ s.Abandons a := by
  cases h with
  | mask hv4 =>
    refine iff_of_true htracked ?_
    rintro ⟨next, hnext, -⟩
    rw [hv4] at hnext
    cases hnext
  | refused hv4 hcall hfirst =>
    have h4 := hfirst.tracked_iff hfam hpresent (htracked true)
    have h6 := hfirst.tracked_other hfam hpresent (some_v4Connected_isV4 hv4) Bool.false_ne_true
    simp [Abandons, hv4, hcall, h4, h6, htracked]
  | @both next mid _ _ hv4 hcall hfirst hmid hsecond =>
    have hfam' := hfirst.byFamily hfam (some_v4Connected_isV4 hv4)
    have hpresent' := hfirst.present hfam hpresent
    have h4 := hfirst.tracked_iff hfam hpresent (htracked true)
    have h6 := hfirst.tracked_other hfam hpresent (some_v4Connected_isV4 hv4) Bool.false_ne_true
    have h4' := hsecond.tracked_other hfam' hpresent' (fun p => ip6Connected_isV4) Bool.false_ne_true.symm
    have h6' := hsecond.tracked_iff hfam' hpresent' (h6.2 (htracked false))
    have hstrays : mid.Strays a.kernel false (a.ip6.map ip6Connected) ↔
        s.Strays a.kernel false (a.ip6.map ip6Connected) := by
      rw [Strays, hfirst.other false Bool.false_ne_true, hfirst.call, Strays]
    simp [Abandons, hv4, hcall, Bool.forall_bool, h4', h6', h4, hstrays, and_comm]

/-! The drop. -/

theorem release_calls (r : Guarding × List RouteCall) : (release kernel isV4 r).2 =
    r.2 ++ (r.1.guard.field isV4).toList.map (r.1.guard.routeCall false) := by
  unfold release
  cases r.1.guard.field isV4 with
  | none => exact (List.append_nil r.2).symm
  | some p => rfl

theorem release_guard (r : Guarding × List RouteCall) :
    (release kernel isV4 r).1.guard = r.1.guard.setField isV4 none := by
  unfold release
  cases hp : r.1.guard.field isV4 with
  | none =>
    have hsame := SubnetRouteGuard.setField_field r.1.guard isV4
    rw [hp] at hsame
    exact hsame.symm
  | some p => rfl

theorem mem_drop_calls : s.guard.routeCall false p ∈ (s.drop kernel).2 ↔
    s.guard.v4 = some p ∨ s.guard.v6 = some p := by
  have hcalls : (s.drop kernel).2 =
      (s.guard.v4.toList ++ s.guard.v6.toList).map (s.guard.routeCall false) := by
    rw [drop, release_calls, release_calls, release_guard, SubnetRouteGuard.routeCall_setField,
      SubnetRouteGuard.field_setField, if_neg Bool.false_ne_true, List.map_append]
    rfl
  have hinj : Function.Injective (s.guard.routeCall false) := by
    intro q r h
    exact SubnetRouteGuard.key_inj.1 (congrArg RouteCall.key h)
  rw [hcalls, List.mem_map_of_injective hinj, List.mem_append, Option.mem_toList, Option.mem_toList]

/-- The guard holds every route that is left of those it has put there, and asks the kernel to
delete it when it is dropped. -/
def Releases (s : Guarding) : Prop :=
  ∀ p, s.Live p → (s.guard.v4 = some p ∨ s.guard.v6 = some p) ∧
    ∀ kernel, s.guard.routeCall false p ∈ (s.drop kernel).2

theorem releases_iff (hfam : s.guard.ByFamily) : s.Releases ↔ ∀ b, s.Tracked b := by
  refine ⟨?_, ?_⟩
  · intro h b p hp hlive
    rcases (h p hlive).1 with hfield | hfield
    · have hb : p.isV4 = true := hfam true p hfield
      rw [← hp, hb]
      exact hfield
    · have hb : p.isV4 = false := hfam false p hfield
      rw [← hp, hb]
      exact hfield
  · intro h p hlive
    have hheld : s.guard.v4 = some p ∨ s.guard.v6 = some p := by
      cases hb : p.isV4 with
      | true => exact Or.inl (h true p hb hlive)
      | false => exact Or.inr (h false p hb hlive)
    exact ⟨hheld, fun kernel => mem_drop_calls.2 hheld⟩

end Guarding

end Guard

/-! The router over the table. -/

namespace TunRouter

variable {r r' : TunRouter} {ip : Ipv4Addr}

def key (r : TunRouter) (ip : Ipv4Addr) : RouteKey := ⟨r.ifindex, .v4 ip, 32⟩

theorem key_injective {a b : Ipv4Addr} (h : r.key a = r.key b) : a = b :=
  IpAddr.v4.inj (congrArg RouteKey.dst h)

/-- What the first half of `add_route` finds when there is nothing to install. -/
theorem record_eq_none :
    r.record ip = none ↔ r.excluded.get ip = some () ∨ r.added.get ip = some () := by
  unfold record
  cases hx : r.excluded.get ip with
  | some u => simp
  | none =>
    cases ha : r.added.get ip with
    | some u => simp
    | none => simp

theorem record_eq_some :
    r.record ip = some r' ↔ r.excluded.get ip = none ∧ r.added.get ip = none ∧
      r' = { r with added := r.added.insert ip () } := by
  unfold record
  cases hx : r.excluded.get ip with
  | some u => simp
  | none =>
    cases ha : r.added.get ip with
    | some u => simp
    | none => simp [eq_comm]

theorem foldl_exclude_get (ips : List Ipv4Addr) (r : TunRouter) :
    (ips.foldl exclude r).excluded.get ip = some () ↔ ip ∈ ips ∨ r.excluded.get ip = some () := by
  have hloop := foldl_or_iff (f := exclude) (p := fun r => r.excluded.get ip = some ())
    (q := fun _ a => ip = a) (fun _ _ => get_insert_unit.trans or_comm) (fun _ _ _ => Iff.rfl) ips r
  rw [hloop, or_comm]
  simp

end TunRouter

end ShadowVpn
