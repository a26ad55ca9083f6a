import ShadowVpn.Sanity.ChnRoute
import ShadowVpn.Sanity.GfwList

/-! What the two lists of the policy mean: the ranges of domestic addresses, and the names that go
through the tunnel. -/

namespace ShadowVpn

open Lib

/-! Domestic addresses. -/

/-- A table of ranges in order, with gaps between them, that holds just these addresses. -/
structure ChnRoute.Exact (t : ChnRoute) (union : Ipv4Addr → Prop) : Prop where
  nonempty : ∀ r ∈ t.ranges, r.1 ≤ r.2
  apart : t.ranges.Pairwise fun r s => r.2.toNat + 1 < s.1.toNat
  covers : ∀ ip, (∃ r ∈ t.ranges, r.1 ≤ ip ∧ ip ≤ r.2) ↔ union ip
  contains : ∀ ip, Checked.contains t ip = .ok (t.contains ip) ∧ (t.contains ip = true ↔ union ip)

theorem covers_toNat {ranges : List AddrRange} {ip : Ipv4Addr} :
    Covers BitVec.toNat ranges ip.toNat ↔ ∃ r ∈ ranges, r.1 ≤ ip ∧ ip ≤ r.2 := by
  simp only [Covers, span, Set.mem_Icc, BitVec.le_def]

theorem exact_merge {ranges : List AddrRange} (h : ∀ r ∈ ranges, r.1 ≤ r.2) :
    ChnRoute.Exact ⟨merge ranges⟩ fun ip => ∃ r ∈ ranges, r.1 ≤ ip ∧ ip ≤ r.2 := by
  have hmerged := merged_merge h
  have hcovers : ∀ ip : Ipv4Addr, Covers BitVec.toNat (merge ranges) ip.toNat ↔
      ∃ r ∈ ranges, r.1 ≤ ip ∧ ip ≤ r.2 := by
    intro ip
    rw [hmerged.covers, covers_toNat]
    simp only [List.mem_mergeSort]
  refine ⟨?_, ?_, ?_, ?_⟩
  · intro r hr
    exact BitVec.le_def.2 (hmerged.nonempty r hr)
  · refine hmerged.apart.imp ?_
    rintro r s ⟨hlt, hgap⟩
    rw [Nat.covBy_iff_add_one_eq] at hgap
    omega
  · intro ip
    rw [← covers_toNat, hcovers]
  · intro ip
    have hsep : Separated BitVec.toNat (ChnRoute.mk (merge ranges)).ranges := hmerged.toSeparated
    refine ⟨checked_contains hsep ip, ?_⟩
    rw [contains_iff_covers hsep]
    exact hcovers ip

def lineUnion (parseAddr : Text → Option Ipv4Addr) (lines : List Text) (ip : Ipv4Addr) : Prop :=
  ∃ line ∈ lines, ∃ net, LineNetwork parseAddr line net ∧ net.contains ip = true

theorem lineUnion_iff {parseAddr : Text → Option Ipv4Addr} {lines : List Text} {ip : Ipv4Addr} :
    (∃ r ∈ lines.filterMap (parseCidr parseAddr), r.1 ≤ ip ∧ ip ≤ r.2) ↔
      lineUnion parseAddr lines ip := by
  refine ⟨?_, ?_⟩
  · rintro ⟨r, hr, hip⟩
    obtain ⟨line, hline, hparse⟩ := List.mem_filterMap.1 hr
    obtain ⟨net, hnet, rfl⟩ := parseCidr_eq_some.1 hparse
    exact ⟨line, hline, net, hnet, (contains_iff net ip).2 hip⟩
  · rintro ⟨line, hline, net, hnet, hip⟩
    exact ⟨_, List.mem_filterMap.2 ⟨line, hline, parseCidr_eq_some.2 ⟨net, hnet, rfl⟩⟩,
      (contains_iff net ip).1 hip⟩

/-- Whatever the lines or the ranges are, the table is their union, and the search in it decides
membership. -/
theorem chnRoute_exact (parseAddr : Text → Option Ipv4Addr) :
    (∀ lines, (ChnRoute.fromLines parseAddr lines).Exact (lineUnion parseAddr lines)) ∧
    ∀ ranges : List (Ipv4Addr × Ipv4Addr), (∀ r ∈ ranges, r.1 ≤ r.2) →
      (ChnRoute.fromRanges ranges).Exact fun ip => ∃ r ∈ ranges, r.1 ≤ ip ∧ ip ≤ r.2 := by
  refine ⟨?_, fun ranges h => exact_merge h⟩
  intro lines
  have hexact : (ChnRoute.fromLines parseAddr lines).Exact fun ip =>
      ∃ r ∈ lines.filterMap (parseCidr parseAddr), r.1 ≤ ip ∧ ip ≤ r.2 := by
    refine exact_merge ?_
    intro r hr
    obtain ⟨line, -, hparse⟩ := List.mem_filterMap.1 hr
    obtain ⟨net, -, rfl⟩ := parseCidr_eq_some.1 hparse
    exact BitVec.le_trans Mask.first_le Mask.le_last
  have hunion : (fun ip => ∃ r ∈ lines.filterMap (parseCidr parseAddr), r.1 ≤ ip ∧ ip ≤ r.2) =
      lineUnion parseAddr lines := funext fun ip => propext lineUnion_iff
  rwa [hunion] at hexact

namespace Sample

def lastRanges : List (Ipv4Addr × Ipv4Addr) := [(0xFFFFFFFF, 0xFFFFFFFF), (0xFFFFFFFE, 0xFFFFFFFE)]

end Sample

theorem chnRoute_exact_end :
    (∀ r ∈ Sample.lastRanges, r.1 ≤ r.2) ∧
    (ChnRoute.fromRanges Sample.lastRanges).contains 0xFFFFFFFF = true := by
  have h : ∀ r ∈ Sample.lastRanges, r.1 ≤ r.2 := by
    intro r hr
    simp only [Sample.lastRanges, List.mem_cons, List.not_mem_nil, or_false] at hr
    rcases hr with rfl | rfl
    · exact BitVec.le_refl _
    · exact BitVec.le_refl _
  have hexact := (chnRoute_exact fun _ => none).2 _ h
  refine ⟨h, (hexact.contains 0xFFFFFFFF).2.2 ⟨_, List.mem_cons_self .., ?_, ?_⟩⟩
  · exact BitVec.le_refl _
  · exact BitVec.le_refl _

/-! Names for the tunnel. -/

/-- The name is the suffix of a line, or ends in a dot and that suffix. -/
def GfwList.UnderLine (lines : List Text) (d : Text) : Prop :=
  d ≠ [] ∧ ∃ line ∈ lines, ∃ s, Normalised line s ∧ (d = s ∨ ('.' :: s) <:+ d)

/-- Whatever the lines are, the list has just the names under one of them, and the slices of the
loop never panic. -/
theorem gfwList_exact (lines : List Text) (domain : Text) :
    GfwList.Checked.matchesDomain (GfwList.fromLines lines) domain =
      .ok ((GfwList.fromLines lines).matchesDomain domain) ∧
    ((GfwList.fromLines lines).matchesDomain domain = true ↔
      GfwList.UnderLine lines (GfwList.trimEndDots (domain.map Char.toLower))) := by
  refine ⟨GfwList.checked_matchesDomain _ _, ?_⟩
  rw [GfwList.matchesDomain_iff (GfwList.trimEndDots_map_toLower domain)]
  refine and_congr_right fun _ => ?_
  simp only [GfwList.isSome_fromLines]
  constructor
  · rintro ⟨s, ⟨line, hline, hs⟩, hmatch⟩
    exact ⟨line, hline, s, hs, hmatch⟩
  · rintro ⟨line, hline, s, hs, hmatch⟩
    exact ⟨s, ⟨line, hline, hs⟩, hmatch⟩

example : (GfwList.fromLines ["# x.org".toList, " *.*..Ab.com. ".toList]).matchesDomain "w.aB.com".toList =
    true := by decide

end ShadowVpn
