import ShadowVpn.Sanity.DnsConf
import ShadowVpn.Sanity.State

/-! The resolver comes back. A client that rewrote it may be killed at any time, and so may
the restoring run; whatever has happened, one run of `--restore-dns` that is not killed puts
back what there was before. -/

namespace ShadowVpn

open Lib

namespace DnsConf

inductive Command where
  | session (proxy : Text) (port : ℕ)
  | restoreStale

def Command.prog (codec : Codec Restore id) (dir : Path) : Command → Prog Path (Except String Bool)
  | .session proxy port => DnsConf.session codec dir proxy port
  | .restoreStale => DnsConf.restoreStale codec dir

variable {codec : Codec Restore id} {dir : Path} {d₀ d : Disk Path}

theorem prog_safe (hd₀ : Original dir d₀) (h : Recoverable codec dir d₀ d) (cmd : Command) :
    Safe False (Recoverable codec dir d₀) (cmd.prog codec dir) d
      fun _ => Recoverable codec dir d₀ := by
  cases cmd with
  | session proxy port =>
    exact (session_safe hd₀ h proxy port).mono (fun e he => he) fun _ _ hq => hq.1
  | restoreStale => exact (restoreStale_safe hd₀ h).mono (fun e he => he) fun _ _ hq => Or.inl hq.1

/-- After any number of sessions and restoring runs, each killed anywhere or not, a restoring
run goes to its end, and the resolver is then what it was before the first of them: the same
link, a file with the same bytes, or nothing. No journal is left. -/
theorem resolver_comes_back (hd₀ : Original dir d₀)
    {es : List (Disk.Happened Command Path (Except String Bool))}
    (h : Disk.History False False (Command.prog codec dir) d₀ es d) :
    (∃ result e, Exec False (restoreStale codec dir) d (some result) e) ∧
      ∀ result e, Exec False (restoreStale codec dir) d (some result) e →
        conf e = conf d₀ ∧ e (journalPath dir) = none ∧ ∃ changed, result = .ok changed := by
  have hrec : Recoverable codec dir d₀ d := by
    refine (h.invariant (J := fun _ => Recoverable codec dir d₀) (Or.inl hd₀.idle) ?_ ?_ ?_).1
    · exact fun _ _ _ hr => hr
    · exact fun _ cmd d hr => prog_safe hd₀ hr cmd
    · exact fun hl => hl.elim
  refine ⟨exists_exec False _ d, fun result e he => ?_⟩
  obtain ⟨hidle, hres⟩ := (restoreStale_safe hd₀ hrec _ e he).2 result rfl
  exact ⟨hidle.same, hidle.journal, hres⟩

deriving instance Countable for Component, Lib.Path, Restore

/-- A session is killed when the proxy is in the resolver's file; the link comes back. -/
theorem resolver_comes_back_killed : ∃ (codec : Codec Restore id) (d₀ d e : Disk Path)
    (result : Except String Bool) (target : Path),
    Disk.History False False (Command.prog codec ⟨[]⟩) d₀
      [.ran (.session "127.0.0.1".toList 53) d₀ none] d ∧
    (∃ f, d PATH = some (.file f)) ∧ Exec False (restoreStale codec ⟨[]⟩) d (some result) e ∧
    conf e = .symlink target := by
  obtain ⟨codec⟩ := Codec.nonempty_of_countable (id : Restore → Restore)
  let target : Path := Path.parse "/run/stub.conf".toList
  let d₀ : Disk Path := fun q => if q = PATH then some (.link target) else none
  have hlink : d₀ PATH = some (.link target) := if_pos rfl
  have hnone : ∀ q, q ≠ PATH → d₀ q = none := fun q hq => if_neg hq
  have hd₀ : Original ⟨[]⟩ d₀ := by
    refine ⟨hnone _ (PATH_ne_journal _).symm, Disk.plain_of_eq_none (hnone _ (PATH_ne_tmp _).symm),
      ?_, ?_, ?_⟩
    · intro mode hm
      cases hlink.symm.trans hm
    · intro content hc
      cases (conf_link hlink).symm.trans hc
    · intro t ht
      cases (conf_link hlink).symm.trans ht
      have hne : target ≠ PATH ∧ target ≠ journalPath ⟨[]⟩ ∧ target ≠ journalTmp ⟨[]⟩ := by
        decide +kernel
      refine ⟨hne.1, hne.2.1, hne.2.2, fun content hc => ?_⟩
      have hread : d₀.read PATH = none := by
        unfold Disk.read Disk.resolve
        simp only [hlink, hnone target hne.1]
      cases hc.symm.trans hread
  have hrun := (session codec ⟨[]⟩ "127.0.0.1".toList 53).exec_run False
    [.done, .done, .done, .done, .done, .done] d₀ (Or.inr (by decide))
  have hes : Disk.History False False (Command.prog codec ⟨[]⟩) d₀
      ([] ++ [.ran (.session "127.0.0.1".toList 53) d₀ none]) _ := Disk.History.nil.ran hrun
  obtain ⟨⟨result, e, he⟩, hback⟩ := resolver_comes_back hd₀ hes
  refine ⟨codec, d₀, _, e, result, target, hes, ⟨_, rfl⟩, he, ?_⟩
  rw [(hback result e he).1]
  exact conf_link rfl

end DnsConf

end ShadowVpn
