import ShadowVpn.Proofs.Relay
import ShadowVpn.Sanity.Node

/-! The client as a whole: what leaves it before the server has given it an address. -/

namespace ShadowVpn

open Lib

namespace ClientNode

variable {L : Primitives} {P : Platform} {site : ClientSite} {cfg : ClientConfig}
  {o : Option Obfuscator}

abbrev State := Pipeline.State ClientLoop Job ClientNode Emit

abbrev Task := Pipeline.Task ClientLoop Job ClientEnv ClientTick

abbrev History := List (Entry State Task (List Emit))

variable {s s' : State} {task : Task} {out : List Emit} {es : History}

/-- An auto client without an address: nothing of the device is on its way. -/
structure Waiting (cfg : ClientConfig) (s : State) : Prop where
  cfg : s.shared.run.cfg = cfg
  assignedOk : s.shared.run.assignedOk = false
  keepTick : s.shared.run.keepTick = false
  asking : s.shared.asking = []
  lane : s.lanes .tunToNet = .empty

/-- What may leave meanwhile: the request for an address under the client's own identity, which a
task on the side sends, and what the loop from the network writes to the device. -/
inductive Leaves (site : ClientSite) (cfg : ClientConfig) : Task → Emit → Prop
  | request {tick : ClientTick} :
      Leaves site cfg (.other tick) (.send site.server (cfg.assignRequest site.nodeId))
  | written {packet : Bytes} : Leaves site cfg (.emit .netToTun) (.tun packet)

theorem Works.steady {n n' : ClientNode} {env : ClientEnv} {job : Job} {e : Option Emit}
    (h : Works L P site cfg o n env job n' e) : ClientRun.Steady n.run n'.run := by
  cases h with
  | pushed _ _ hstep => exact (ClientRun.step_push_steady hstep).1
  | forwarded _ => exact .refl _
  | asked _ => exact .refl _
  | noise _ => exact .refl _
  | offered _ _ _ => exact .refl _
  | named _ _ => exact .refl _
  | dropped _ => exact .refl _
  | written _ _ => exact .refl _

theorem Ticks.gotOk {n n' : ClientNode} {t : ClientTick} (h : Ticks P site n t n' out)
    (hgot : n.run.gotOk = true) : n'.run.gotOk = true := by
  cases h with
  | replied _ hr => exact hr.gotOk
  | resolved hr => exact hr.gotOk.trans hgot
  | idle => exact hgot
  | retry _ => exact hgot
  | keep _ => exact hgot
  | periodic _ => exact hgot
  | answered _ _ => exact hgot

theorem gotOk_of_steps (h : Pipeline.Steps (tasks L P site cfg o) s task s' out)
    (hgot : s.shared.run.gotOk = true) : s'.shared.run.gotOk = true := by
  cases h with
  | work _ hwork => exact (works_of_work hwork).steady.gotOk.trans hgot
  | other hother => exact (ticks_of_tick hother).gotOk hgot
  | dropped _ => exact hgot
  | read _ _ => exact hgot
  | push _ _ => exact hgot
  | take _ _ => exact hgot
  | emit _ => exact hgot
  | waitPush => exact hgot
  | waitTake => exact hgot
  | waitWork _ => exact hgot
  | waitEmit => exact hgot

theorem Waiting.set (h : Waiting cfg s) {k : ClientLoop} (hk : k ≠ .tunToNet) (l : Lane Job Emit) :
    Waiting cfg (s.set k l) :=
  ⟨h.cfg, h.assignedOk, h.keepTick, h.asking, (s.lanes_set_of_ne hk.symm l).trans h.lane⟩

theorem Waiting.work (h : Waiting cfg s) {site : ClientSite} {cfg' : ClientConfig} {n : ClientNode}
    {env : ClientEnv} (peer : SocketAddr) {pkt : Bytes} {e : Option Emit}
    (hw : Works L P site cfg' o s.shared env (.datagram peer pkt) n e) :
    Waiting cfg ⟨n, s.lanes⟩ := by
  have hsteady := hw.steady
  refine ⟨hsteady.cfg.trans h.cfg, hsteady.assignedOk.trans h.assignedOk,
    hsteady.keepTick.trans h.keepTick, ?_, h.lane⟩
  cases hw with
  | noise _ => exact h.asking
  | pushed _ _ _ => exact h.asking
  | offered _ _ _ => exact h.asking
  | named _ _ => exact h.asking
  | dropped _ => exact h.asking
  | written _ _ => exact h.asking

theorem Waiting.tick (h : Waiting cfg s) (hauto : cfg.autoTun = true) {n : ClientNode}
    {t : ClientTick} (ht : Ticks P site s.shared t n out) (hgot : n.run.gotOk = false) :
    Waiting cfg ⟨n, s.lanes⟩ ∧ ∀ e ∈ out, Leaves site cfg (.other t) e := by
  cases ht with
  | idle => exact ⟨h, List.forall_mem_nil _⟩
  | replied _ hr =>
    have hok := hr.gotOk
    rw [hgot] at hok
    cases hok
  | retry _ =>
    refine ⟨h, ?_⟩
    intro e he
    rw [List.mem_singleton.1 he, h.cfg]
    exact .request
  | keep hkeep =>
    rw [h.keepTick] at hkeep
    cases hkeep
  | periodic hstatic =>
    rw [h.cfg, hauto] at hstatic
    cases hstatic
  | answered hasked _ =>
    rw [h.asking] at hasked
    cases hasked
  | resolved hr =>
    exact ⟨⟨hr.cfg.trans h.cfg, hr.assignedOk.trans h.assignedOk, hr.keepTick.trans h.keepTick,
      h.asking, h.lane⟩, List.forall_mem_nil _⟩

theorem reads_netToTun {n : ClientNode} {input job : Job}
    (h : reads site .netToTun n input = some job) : ∃ peer pkt, job = .datagram peer pkt := by
  cases input with
  | packet pkt => cases h
  | datagram peer pkt =>
    simp only [reads] at h
    split_ifs at h
    cases h
    exact ⟨peer, pkt, rfl⟩

theorem netToTun_writes {n₀ : ClientNode} {e : Emit}
    (h : Run (tasks L P site cfg o).step (.start n₀) es s)
    (hdone : (s.lanes .netToTun).worker = .done e) : ∃ packet, e = .tun packet := by
  obtain ⟨entry, job, env, hmade⟩ := Pipeline.made_of_done h hdone
  obtain ⟨before, after, -, hjob⟩ := hmade.accepted
  obtain ⟨f, -, hf⟩ := List.mem_flatMap.1 hjob
  obtain ⟨input, -, hread⟩ := Pipeline.of_mem_accepted hf
  obtain ⟨peer, pkt, rfl⟩ := reads_netToTun hread
  have hworks : Works L P site cfg o entry.pre.shared env (.datagram peer pkt) entry.post.shared
      (some e) := works_of_work hmade.work
  generalize entry.pre.shared = n, entry.post.shared = n', he : some e = made at hworks
  cases hworks with
  | written _ _ =>
    cases he
    exact ⟨_, rfl⟩
  | noise _ => cases he
  | pushed _ _ _ => cases he
  | offered _ _ _ => cases he
  | named _ _ => cases he
  | dropped _ => cases he

/-- While there is no address, no task takes anything from the device. -/
theorem Waiting.steps {n₀ : ClientNode} {cfg' : ClientConfig} (h : Waiting cfg s)
    (hauto : cfg.autoTun = true)
    (hrun : Run (tasks L P site cfg' o).step (.start n₀) es s)
    (hs : Pipeline.Steps (tasks L P site cfg' o) s task s' out)
    (hgot : s'.shared.run.gotOk = false) :
    Waiting cfg s' ∧ ∀ e ∈ out, Leaves site cfg task e := by
  have hloop : ∀ {k : ClientLoop}, k ≠ .tunToNet → k = .netToTun := by
    intro k hk
    cases k with
    | tunToNet => exact absurd rfl hk
    | netToTun => rfl
  cases hs with
  | @dropped k input _ => exact ⟨h, List.forall_mem_nil _⟩
  | @read k input job hhand hread =>
    rcases eq_or_ne k .tunToNet with rfl | hk
    · -- the reader drops what the device gives
      cases input with
      | datagram peer pkt => cases hread
      | packet pkt =>
        simp only [tasks, reads, h.assignedOk] at hread
        simp at hread
    · exact ⟨h.set hk _, List.forall_mem_nil _⟩
  | @push k job hhand _ =>
    rcases eq_or_ne k .tunToNet with rfl | hk
    · rw [h.lane] at hhand
      cases hhand
    · exact ⟨h.set hk _, List.forall_mem_nil _⟩
  | @take k job rest _ hqueue =>
    rcases eq_or_ne k .tunToNet with rfl | hk
    · rw [h.lane] at hqueue
      cases hqueue
    · exact ⟨h.set hk _, List.forall_mem_nil _⟩
  | @work k env job n e hbusy hwork =>
    rcases eq_or_ne k .tunToNet with rfl | hk
    · rw [h.lane] at hbusy
      cases hbusy
    · obtain ⟨t, input, hread⟩ := Pipeline.reads_of_busy hrun hbusy
      obtain rfl := hloop hk
      obtain ⟨peer, pkt, rfl⟩ := reads_netToTun hread
      exact ⟨(h.work peer (works_of_work hwork)).set hk _, List.forall_mem_nil _⟩
  | @emit k e hdone =>
    rcases eq_or_ne k .tunToNet with rfl | hk
    · rw [h.lane] at hdone
      cases hdone
    · obtain rfl := hloop hk
      obtain ⟨packet, rfl⟩ := netToTun_writes hrun hdone
      exact ⟨h.set hk _, List.forall_mem_singleton.2 .written⟩
  | @other d n _ hother => exact h.tick hauto (ticks_of_tick hother) hgot
  | waitPush => exact ⟨h, List.forall_mem_nil _⟩
  | waitTake => exact ⟨h, List.forall_mem_nil _⟩
  | waitWork _ => exact ⟨h, List.forall_mem_nil _⟩
  | waitEmit => exact ⟨h, List.forall_mem_nil _⟩

theorem start_waiting {outside : Outside} {last : Option LastAssign} {n : ClientNode}
    (h : start site outside cfg last = .ok n) (hauto : cfg.autoTun = true) :
    Waiting (cfg.withCached last) (.start n) := by
  unfold start at h
  rw [if_pos hauto] at h
  obtain ⟨run, hrun, h⟩ := bind_eq_ok.1 h
  cases h
  obtain ⟨hcfg, -, hassigned, hkeep⟩ := ClientRun.start_waiting hrun
  exact ⟨hcfg, hassigned, hkeep, rfl, rfl⟩

theorem withCached_autoTun (cfg : ClientConfig) (last : Option LastAssign) :
    (cfg.withCached last).autoTun = cfg.autoTun := by
  cases last with
  | none => rfl
  | some _ => rfl

/-- Until the server has given a client in auto mode its address, nothing that the device gave is
on its way, to the server or to the client's own DNS, however the tasks take turns, cached address
or not. All that was sent is the request for an address, under the client's own identity and with
the cached address as the hint; besides, what came from the network was written to the device. -/
theorem client_waits_for_address {outside : Outside} {last : Option LastAssign} {n : ClientNode}
    (hauto : cfg.autoTun = true) (hstart : start site outside cfg last = .ok n)
    (h : Run (tasks L P site cfg o).step (.start n) es s) (hgot : s.shared.run.gotOk = false) :
    s.lanes .tunToNet = .empty ∧ s.shared.asking = [] ∧
      ∀ e ∈ es, ∀ out ∈ e.out, Leaves site (cfg.withCached last) e.input out := by
  have hinv : ∀ {es : History} {s : State}, Run (tasks L P site cfg o).step (.start n) es s →
      s.shared.run.gotOk = false →
      Waiting (cfg.withCached last) s ∧
        ∀ e ∈ es, ∀ out ∈ e.out, Leaves site (cfg.withCached last) e.input out := by
    intro es s h
    induction h with
    | nil => exact fun _ => ⟨start_waiting hstart hauto, List.forall_mem_nil _⟩
    | @snoc fs t t' task out hr hs ih =>
      intro hgot'
      have hsteps := Pipeline.steps_of_step hs
      have hbefore : t.shared.run.gotOk = false := by
        by_contra hyes
        rw [gotOk_of_steps hsteps (by simpa using hyes)] at hgot'
        cases hgot'
      obtain ⟨hwaiting, hleaves⟩ := ih hbefore
      have hauto' := (withCached_autoTun cfg last).trans hauto
      obtain ⟨hwaiting', hleave⟩ := hwaiting.steps hauto' hr hsteps hgot'
      refine ⟨hwaiting', ?_⟩
      rw [List.forall_mem_append, List.forall_mem_singleton]
      exact ⟨hleaves, hleave⟩
  obtain ⟨hwaiting, hleaves⟩ := hinv h hgot
  exact ⟨hwaiting.lane, hwaiting.asking, hleaves⟩

end ClientNode

def Sample.site : ClientSite := ⟨node 1, .v4 0xC0000201 8388, .v4 0xC0000202⟩

namespace ClientNode

/-- A client with a cached address reads a packet of its device, and asks. -/
theorem client_waits_for_address_cached : ∃ n es s,
    start Sample.site Sample.outside Sample.clientConfig
      (some ⟨0x0A090002, 0xFFFFFF00, 0x0A090001, none, 0⟩) = .ok n ∧
    Run (tasks Sample.primitives Sample.platform Sample.site Sample.clientConfig none).step
      (.start n) es s ∧
    (Pipeline.asides es).length = 1 ∧ s.lanes .tunToNet = .empty := by
  have hrun : ∃ n es s, start Sample.site Sample.outside Sample.clientConfig
        (some ⟨0x0A090002, 0xFFFFFF00, 0x0A090001, none, 0⟩) = .ok n ∧
      exec (tasks Sample.primitives Sample.platform Sample.site Sample.clientConfig none).step
        (.start n) [.read .tunToNet (.packet Sample.datagram), .push .tunToNet,
          .other (.retry false)] = .ok (es, s) ∧
      (Pipeline.asides es).length = 1 ∧ s.shared.run.gotOk = false :=
    ⟨_, _, _, rfl, rfl, rfl, rfl⟩
  obtain ⟨n, es, s, hstart, hexec, hasides, hgot⟩ := hrun
  exact ⟨n, es, s, hstart, exec_run hexec, hasides,
    (client_waits_for_address rfl hstart (exec_run hexec) hgot).1⟩

end ClientNode

end ShadowVpn
