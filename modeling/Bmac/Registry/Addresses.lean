import Bmac.Registry.Valid

/-!
# The address plan

Where the guests of a registry are in its network: each in the range of its kind, apart from each other,
from the hosts' and the HAProxy LXCs' ranges and from the gateway.
-/

namespace Bmac.Registry

open Bmac.Base Bmac.Core

variable {py : Python} {digests : Digests} {reg : Registry} {policy : Policy}

namespace Range

/-- No value is in both. -/
def Apart (r s : Range) : Prop := ∀ n, r.contains n = true → s.contains n = false

theorem apart_of_not_overlaps {r s : Range} (h : r.overlaps s = false) : r.Apart s := by
  intro n hn
  simp only [overlaps, contains, Bool.and_eq_true, Bool.and_eq_false_iff, decide_eq_true_eq,
    decide_eq_false_iff_not] at *
  omega

theorem Apart.symm {r s : Range} (h : r.Apart s) : s.Apart r := by
  intro n hn
  cases hr : r.contains n with
  | false => rfl
  | true =>
    rw [h n hr] at hn
    cases hn

end Range

theorem checkOverlaps_eq_ok {prefix_ : String} {ranges : List (String × Range)}
    (h : checkOverlaps prefix_ ranges = .ok ()) : ranges.Pairwise fun a b => a.2.Apart b.2 := by
  induction ranges with
  | nil => exact List.Pairwise.nil
  | cons range rest ih =>
    obtain ⟨name, range⟩ := range
    rw [checkOverlaps] at h
    split at h
    · cases h
    · rename_i hfind
      refine List.pairwise_cons.mpr ⟨fun other hother => ?_, ih h⟩
      exact Range.apart_of_not_overlaps (by simpa using List.find?_eq_none.mp hfind other hother)

/-- The ranges of a network: usable addresses, none in two of them, and not the gateway's. -/
structure Planned (net : PolicyNetwork) : Prop where
  usable : ∀ range ∈ net.ranges, 1 ≤ range.2.start ∧ range.2.stop ≤ net.cidr.size - 2
  apart : net.ranges.Pairwise fun a b => a.2.Apart b.2
  gateway : ∀ range ∈ net.ranges, range.2.contains (net.guestGateway.1 - net.cidr.address) = false
  vmids : net.haproxyVmidRange = haproxyVmidRange

theorem planned_of_valid (h : validatePolicy policy = .ok ()) : Planned policy.network := by
  simp only [validatePolicy, bind_eq_ok, check_eq_ok] at h
  obtain ⟨-, _, hranges, hvmids, _, hoverlaps, hgateway, -⟩ := h
  have hrange : ∀ range ∈ policy.network.ranges, 1 ≤ range.2.start ∧ range.2.start ≤ range.2.stop ∧
      range.2.stop ≤ policy.network.cidr.size - 2 := by
    intro range hmem
    have hone := forM_eq_ok_iff.mp hranges range hmem
    rw [last_check_eq_ok, not_not] at hone
    exact hone.1
  refine ⟨fun range hmem => ⟨(hrange range hmem).1, (hrange range hmem).2.2⟩, checkOverlaps_eq_ok hoverlaps, ?_,
    not_not.mp hvmids⟩
  intro range hmem
  have hnone := (not_or.mp hgateway).2
  rw [List.any_eq_true, not_exists] at hnone
  exact Bool.not_eq_true _ ▸ fun hin => hnone range ⟨hmem, hin⟩

def PolicyNetwork.rangeOf (net : PolicyNetwork) : Kind → Range
  | .production => net.productionRange
  | .staging => net.stagingRange

theorem PolicyNetwork.rangeOf_mem (net : PolicyNetwork) (kind : Kind) :
    ∃ range ∈ net.ranges, range.2 = net.rangeOf kind := by
  cases kind with
  | production => exact ⟨("production_range", net.productionRange), by simp [ranges], rfl⟩
  | staging => exact ⟨("staging_range", net.stagingRange), by simp [ranges], rfl⟩

theorem Planned.range_eq {net : PolicyNetwork} (h : Planned net) {a b : String × Range} {octet : Nat}
    (ha : a ∈ net.ranges) (hb : b ∈ net.ranges) (hina : a.2.contains octet = true)
    (hinb : b.2.contains octet = true) : a = b := by
  by_contra hne
  have hsymm : Std.Symm fun x y : String × Range => x.2.Apart y.2 := ⟨fun _ _ hxy => hxy.symm⟩
  rw [h.apart.forall ha hb hne octet hina] at hinb
  cases hinb

/-- Where a guest's address and VMID are. -/
structure Placed (net : PolicyNetwork) (r : Resource) : Prop where
  inside : net.cidr.contains r.ip = true
  /-- Neither the network's own address nor its broadcast address. -/
  usable : 1 ≤ r.ip - net.cidr.address ∧ r.ip - net.cidr.address ≤ net.cidr.size - 2
  ranged : (net.rangeOf r.kind).contains (r.ip - net.cidr.address) = true
  apart : ∀ range ∈ net.ranges, range.2.contains (r.ip - net.cidr.address) = true →
    range.2 = net.rangeOf r.kind
  gateway : r.ip ≠ net.guestGateway.1
  vmid : ¬((haproxyVmidRange.start : Int) ≤ r.vmid ∧ r.vmid ≤ haproxyVmidRange.stop)

theorem ranged_of_kind {r : Resource} {octet : Nat} (hindex : 0 < r.index)
    (h : validateKind policy r octet = .ok ()) : (policy.network.rangeOf r.kind).contains octet = true := by
  unfold validateKind at h
  split at h
  · rename_i hkind hname
    simp only [check_eq_ok, last_check_eq_ok, not_or, not_lt, not_not] at h
    obtain ⟨-, -, ⟨hstop, hoctet⟩, -⟩ := h
    rw [hkind]
    change policy.network.productionRange.contains octet = true
    simp only [Range.contains, Bool.and_eq_true, decide_eq_true_eq]
    omega
  · cases h
  · cases h
  · rename_i hkind hname
    simp only [check_eq_ok, last_check_eq_ok] at h
    obtain ⟨-, -, hrange, -⟩ := h
    rw [hkind]
    simpa [PolicyNetwork.rangeOf] using hrange

theorem placed_of_valid {r : Resource} (hpolicy : validatePolicy policy = .ok ())
    (h : validateResource py r policy = .ok ()) : Placed policy.network r := by
  have hplan := planned_of_valid hpolicy
  simp only [validateResource, bind_eq_ok, check_eq_ok] at h
  obtain ⟨_, -, -, hindex, -, _, hvmid, hinside, -, -, _, -, _, -, _, -, -, -, -, _, -, _, -, _, hkind, -⟩ := h
  have hranged := ranged_of_kind (by omega) hkind
  obtain ⟨range, hmem, heq⟩ := policy.network.rangeOf_mem r.kind
  have hin : range.2.contains (r.ip - policy.network.cidr.address) = true := heq ▸ hranged
  have husable := hplan.usable range hmem
  refine ⟨by simpa using hinside, ?_, hranged, fun other hother hinother => ?_, fun hgateway => ?_, ?_⟩
  · simp only [Range.contains, Bool.and_eq_true, decide_eq_true_eq] at hin
    omega
  · exact heq ▸ congrArg Prod.snd (hplan.range_eq hother hmem hinother hin)
  · rw [hgateway, hplan.gateway range hmem] at hin
    cases hin
  · simp only [validateVmid, check_eq_ok, last_check_eq_ok, hplan.vmids] at hvmid
    exact hvmid.2.1

/-- The guests of every registry that runs of the commands reach have addresses of their own, each in the
range of its kind and in no other range of the plan. -/
theorem guests_apart {events : List Event} (h : Run (step py digests) {} events reg)
    (hinit : reg.policyFile.isSome = true) : ∃ policy rs, reg.policy = .ok policy ∧ reg.resources py = .ok rs ∧
      (rs.map (·.ip)).Nodup ∧ ∀ r ∈ rs, Placed policy.network r := by
  rcases run_valid h (.inl bare_empty) with hbare | ⟨policy, hsound⟩
  · rw [hbare.policyFile] at hinit
    cases hinit
  have hpolicy : validatePolicy policy = .ok () := by
    have hconfigured := hsound.configured
    simp only [Registry.policy, bind_eq_ok, pure_eq_ok] at hconfigured
    obtain ⟨_, -, _, hvalid, rfl⟩ := hconfigured
    exact hvalid
  refine ⟨policy, _, hsound.configured, hsound.resources, (consistent_resources hsound.resources).ips, ?_⟩
  intro r hr
  have hfile := (hsound.mem_iff hsound.resources).mp hr
  have hentry := (Table.get?_eq_some_iff hsound.sorted).mp hfile
  exact placed_of_valid hpolicy (hsound.valid _ hentry).1

/-- After `init` and two allocations. -/
theorem guests_apart_small : ∃ policy rs, (afterAll smallPython smallDigests {} smallEvents).policy = .ok policy ∧
    (afterAll smallPython smallDigests {} smallEvents).resources smallPython = .ok rs ∧
    (rs.map (·.ip)).Nodup ∧ ∀ r ∈ rs, Placed policy.network r := by
  refine guests_apart (run_afterAll smallPython smallDigests {} smallEvents) ?_
  have hinit : ((completed (.init smallInit 0)).after smallPython smallDigests {}).policyFile.isSome := by
    decide +kernel
  have hvalid : Valid smallPython ((completed (.init smallInit 0)).after smallPython smallDigests {}) :=
    Valid.after (.inl bare_empty) _
  rcases hvalid with hbare | ⟨policy, hsound⟩
  · rw [hbare.policyFile] at hinit
    cases hinit
  · rw [afterAll, smallEvents, List.foldl_cons, List.foldl_cons, List.foldl_cons, List.foldl_nil]
    exact ((hsound.after _).after _).policyFile_isSome

end Bmac.Registry
