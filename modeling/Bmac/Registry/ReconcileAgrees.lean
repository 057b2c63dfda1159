import Bmac.Base.Split
import Bmac.Registry.Reconcile

/-!
# The two reconciliations

`live` and `reconcile_report` list the issues of each guest alike, but for the order in which they
write nodes, and for how they count a reservation's age.
-/

namespace Bmac.Registry

open Bmac.Base Bmac.Core

/-! ## Texts -/

theorem toLower_of_isHex {c : Char} (h : isHex c = true) : c.toLower = c := by
  have hupper : ¬ ('A' ≤ c ∧ c ≤ 'Z') := by
    rintro ⟨h1, h2⟩
    simp only [isHex, Text.isDigit, Bool.or_eq_true, Bool.and_eq_true, decide_eq_true_eq] at h
    rcases h with ⟨-, h⟩ | ⟨h, -⟩
    · exact absurd (h1.trans h) (by decide)
    · exact absurd (h.trans h2) (by decide)
  unfold Char.toLower
  split
  · rename_i hc
    exact absurd hc hupper
  · rfl

theorem toLower_of_isMac {mac : String} (h : isMac mac = true) : Text.toLower mac = mac := by
  simp only [isMac, Text.split, Bool.and_eq_true, List.all_eq_true] at h
  have hchars : ∀ c ∈ mac.toList, c.toLower = c := by
    intro c hc
    rw [← @List.intercalate_splitOn _ mac.toList _ _ ':'] at hc
    rcases mem_intercalate hc with hsep | ⟨part, hpart, hmem⟩
    · rw [List.mem_singleton.mp hsep]
      rfl
    · have hhex := h.2 _ (List.mem_map_of_mem hpart)
      simp only [isHexText, Bool.and_eq_true, List.all_eq_true, String.toList_ofList] at hhex
      exact toLower_of_isHex (hhex.2 c hmem)
  rw [← String.toList_inj, Text.toLower, String.toList_map]
  exact (List.map_congr_left hchars).trans (List.map_id' _)

theorem toList_slot (node : HostSlot) :
    node.text.toList = "mox".toList ++ node.number.repr.toList := by
  simp [HostSlot.text, toString]

/-- A node's name has no comma. -/
theorem comma_not_mem (node : HostSlot) : ',' ∉ node.text.toList := by
  rw [toList_slot, List.mem_append]
  rintro (h | h)
  · revert h
    decide
  · have hdigit := Text.isDigit_of_mem_repr h
    revert hdigit
    decide

theorem sorted_perm (texts : List String) : (sorted texts).Perm texts :=
  List.perm_insertionSort _ _

theorem join_eq_sorted_iff {nodes : List String} (hnodes : ∀ n ∈ nodes, ',' ∉ n.toList) :
    Text.join ", " nodes = Text.join ", " (sorted nodes) ↔ nodes.Pairwise (· ≤ ·) := by
  constructor
  · intro h
    by_cases hne : nodes = []
    · simp [hne]
    · have hcs := congrArg String.toList h
      simp only [Text.join, String.toList_intercalate] at hcs
      have hmap : nodes.map String.toList = (sorted nodes).map String.toList := by
        refine intercalate_injective (c := ',') ?_ ?_ (by simpa using hne) ?_ hcs
        · simpa using hnodes
        · simpa using fun n hn => hnodes n ((sorted_perm nodes).mem_iff.mp hn)
        · simpa using fun h => hne (by simpa [h] using (sorted_perm nodes).symm)
      rw [List.map_injective_iff.mpr (fun _ _ => String.toList_inj.mp) hmap]
      exact List.pairwise_insertionSort _ _
  · intro h
    rw [sorted, List.Pairwise.insertionSort_eq h]

/-! ## Valid records -/

theorem validateNodes_nodup {maxHosts : Int} {values : List String} {allowEmpty exactlyOne : Bool}
    {slots : List HostSlot} (h : validateNodes maxHosts values allowEmpty exactlyOne = .ok slots) :
    values.Nodup := by
  simp only [validateNodes, check_eq_ok] at h
  have hfold : ∀ {values : List String} {seen slots : List HostSlot},
      values.foldlM (fun seen node => do
        let slot ← validateNode maxHosts node
        if slot ∈ seen then throw s!"duplicate placement node: {node}"
        return seen ++ [slot]) seen = .ok slots →
      (∀ v ∈ values, ∀ slot, validateNode maxHosts v = .ok slot → slot ∉ seen) ∧ values.Nodup := by
    intro values
    induction values with
    | nil => simp
    | cons v values ih =>
      intro seen slots h
      obtain ⟨seen', hstep, hrest⟩ := foldlM_cons_eq_ok.mp h
      simp only [bind_eq_ok, check_eq_ok, pure_eq_ok] at hstep
      obtain ⟨slot, hslot, hnew, rfl⟩ := hstep
      obtain ⟨hlater, hnodup⟩ := ih hrest
      refine ⟨fun u hu s hs hmem => ?_, List.nodup_cons.mpr ⟨fun hv => ?_, hnodup⟩⟩
      · rcases List.mem_cons.mp hu with rfl | hu
        · obtain rfl : slot = s := by simpa [hs] using hslot.symm
          exact hnew hmem
        · exact hlater u hu s hs (List.mem_append_left _ hmem)
      · exact hlater v hv slot hslot (by simp)
  exact (hfold h.2.2).2

/-- What the two reconciliations need of a valid record. -/
theorem validateResource_placement {py : Python} {policy : Policy} {r : Resource}
    (h : validateResource py r policy = .ok ()) :
    isMac r.mac = true ∧ (nodeTexts r.placement).Nodup := by
  simp only [validateResource, bind_eq_ok, check_eq_ok] at h
  obtain ⟨_, -, -, -, -, _, -, -, hmac, -, _, -, _, -, placement, hplacement, -⟩ := h
  exact ⟨by simpa using hmac, validateNodes_nodup hplacement⟩

theorem validatePolicy_limits {policy : Policy} (h : validatePolicy policy = .ok ()) :
    60 ≤ policy.limits.reservationTtlSeconds ∧
      [policy.tags.production, policy.tags.staging, policy.tags.evictable].Nodup := by
  simp only [validatePolicy, validateTags, bind_eq_ok, check_eq_ok, last_check_eq_ok] at h
  obtain ⟨-, _, -, -, _, -, -, -, -, -, httl, _, ⟨_, -, _, -, _, -, htags, -⟩, -⟩ := h
  exact ⟨by omega, not_not.mp htags⟩

/-! ## A guest's issues -/

section

variable {policy : Policy} {observed : Observed} {now : Int} {r : Resource} {i : Issue}
  {severity : Severity} {code : String} {c : Prop}

theorem mem_issueIf [Decidable c] {message : String}
    (h : i ∈ issueIf c severity code r message) : i.resource = r.name.text ∧ i.code = code := by
  unfold issueIf at h
  split at h
  · rw [List.mem_singleton.mp h]
    exact ⟨rfl, rfl⟩
  · cases h

def withCode (code : String) (issues : List Issue) : List Issue :=
  issues.filter fun i => i.code = code

theorem withCode_append (k : String) (a b : List Issue) :
    withCode k (a ++ b) = withCode k a ++ withCode k b := List.filter_append ..

theorem withCode_issueIf [Decidable c] {message k : String} :
    withCode k (issueIf c severity code r message) =
      if code = k then issueIf c severity code r message else [] := by
  unfold withCode issueIf
  by_cases hc : c <;> by_cases hk : code = k <;> simp [hc, hk]

theorem withCode_of_codes {codes : List String} {issues : List Issue} {k : String}
    (h : ∀ i ∈ issues, i.resource = r.name.text ∧ i.code ∈ codes) (hk : k ∉ codes) :
    withCode k issues = [] := by
  refine List.filter_eq_nil_iff.mpr fun i hi => ?_
  rw [decide_eq_true_eq]
  rintro rfl
  exact hk (h i hi).2

def vmCodes : List String :=
  ["vm-name-mismatch", "vm-mac-mismatch", "vm-placement-mismatch", "vm-tag-mismatch",
    "vm-status-mismatch", "stale-reservation", "vm-missing"]

theorem mem_vmIssue [Decidable c] {message : String} (h : i ∈ issueIf c severity code r message)
    (hcode : code ∈ vmCodes) : i.resource = r.name.text ∧ i.code ∈ vmCodes :=
  ⟨(mem_issueIf h).1, (mem_issueIf h).2 ▸ hcode⟩

theorem mem_reconcileVm
    (h : i ∈ (observed.vms.get? r.vmid).elim (reconcileAbsent policy now r) (reconcileVm policy r)) :
    i.resource = r.name.text ∧ i.code ∈ vmCodes := by
  cases hvm : observed.vms.get? r.vmid with
  | none =>
    rw [hvm, Option.elim_none, reconcileAbsent] at h
    split at h
    · exact mem_vmIssue h (by decide)
    · exact mem_vmIssue h (by decide)
  | some vm =>
    rw [hvm, Option.elim_some, reconcileVm] at h
    simp only [List.mem_append] at h
    rcases h with (((h | h) | h) | h) | h
    all_goals exact mem_vmIssue h (by decide)

theorem mem_liveVm {nowMs : Int}
    (h : i ∈ (observed.vms.get? r.vmid).elim (liveAbsent policy nowMs r) (liveVm policy r)) :
    i.resource = r.name.text ∧ i.code ∈ vmCodes := by
  cases hvm : observed.vms.get? r.vmid with
  | none =>
    rw [hvm, Option.elim_none, liveAbsent] at h
    split at h
    · exact mem_vmIssue h (by decide)
    · exact mem_vmIssue h (by decide)
  | some vm =>
    rw [hvm, Option.elim_some, liveVm] at h
    simp only [List.mem_append] at h
    rcases h with (((h | h) | h) | h) | h
    all_goals exact mem_vmIssue h (by decide)

theorem mem_volumeIssue (h : i ∈ r.proxmox.volumeId.elim [] fun volumeId =>
      issueIf (volumeId ∉ observed.volumes) .error "volume-missing" r
        s!"volume {volumeId} is absent") :
    i.resource = r.name.text ∧ i.code ∈ ["volume-missing"] := by
  cases hvol : r.proxmox.volumeId with
  | none => simp [hvol] at h
  | some volumeId =>
    rw [hvol] at h
    exact ⟨(mem_issueIf h).1, by simp [(mem_issueIf h).2]⟩

theorem reconcileResource_name (h : i ∈ reconcileResource policy observed now r) :
    i.resource = r.name.text := by
  simp only [reconcileResource, List.mem_append] at h
  rcases h with ((h | h) | h) | h
  · exact (mem_issueIf h).1
  · exact (mem_issueIf h).1
  · exact (mem_reconcileVm h).1
  · exact (mem_volumeIssue h).1

theorem liveResource_name {nowMs : Int} (h : i ∈ liveResource policy observed nowMs r) :
    i.resource = r.name.text := by
  simp only [liveResource, List.mem_append] at h
  rcases h with ((h | h) | h) | h
  · exact (mem_issueIf h).1
  · exact (mem_issueIf h).1
  · exact (mem_liveVm h).1
  · exact (mem_volumeIssue h).1

theorem requiredTags_nodup
    (h : [policy.tags.production, policy.tags.staging, policy.tags.evictable].Nodup) :
    (requiredTags policy r).Nodup := by
  unfold requiredTags
  cases r.kind with
  | production => simp
  | staging => exact (List.nodup_cons.mp h).2

theorem liveVm_eq (hmac : isMac r.mac = true)
    (htags : [policy.tags.production, policy.tags.staging, policy.tags.evictable].Nodup)
    (vm : ObservedVm) : liveVm policy r vm = reconcileVm policy r vm := by
  have hcase : (vm.mac.any fun mac => !eqIgnoreAsciiCase mac r.mac) =
      vm.mac.any fun mac => decide (Text.toLower mac ≠ r.mac) := by
    simp only [eqIgnoreAsciiCase, toLower_of_isMac hmac, ne_eq, decide_not]
  simp only [liveVm, reconcileVm, hcase, List.Nodup.dedup (requiredTags_nodup htags), sorted]

/-! ## Ages -/

/-- A time text is one of a `datetime`: from the year 1 to the year 9999. -/
def IsTime (time : Int) : Prop :=
  -62135596800 * second ≤ time ∧ time < 253402300800 * second

/-- The native age in milliseconds: none where jiff doesn't parse the time. -/
def liveAgeMs (created now : Int) : Int :=
  if created < 253402207201 * second then asMillisecond now - asMillisecond created else 0

/-- How the native age, in whole seconds, compares with a TTL: a guest whose age passes the TTL by
less than a second isn't old yet, nor is one whose time isn't parsed, and a TTL of 2^63 and more is a
negative number. -/
def AgeAgrees (ttl created now : Int) : Prop :=
  if ttl < 2 ^ 63 then ¬ (ttl * second < now - created ∧ liveAgeMs created now < (ttl + 1) * 1000)
  else (liveAgeMs created now).tdiv 1000 ≤ ttl - 2 ^ 64

theorem liveAgeMs_eq (created now : Int) :
    asMillisecond now - (parsedMillisecond created).getD (asMillisecond now) = liveAgeMs created now := by
  unfold parsedMillisecond liveAgeMs
  split
  · rfl
  · exact sub_self _

theorem tdiv_thousand (a : Int) :
    (0 ≤ a → 1000 * a.tdiv 1000 ≤ a ∧ a < 1000 * a.tdiv 1000 + 1000) ∧
      (a < 0 → 1000 * a.tdiv 1000 - 1000 < a ∧ a ≤ 1000 * a.tdiv 1000) := by
  have h := Int.mul_tdiv_add_tmod a 1000
  constructor
  · intro ha
    have h1 := Int.tmod_nonneg 1000 ha
    have h2 := Int.tmod_lt_of_pos a (show (0 : Int) < 1000 by decide)
    omega
  · intro ha
    have h1 := Int.lt_tmod_of_pos a (show (0 : Int) < 1000 by decide)
    have h2 := Int.tmod_nonneg 1000 (show 0 ≤ -a by omega)
    rw [Int.neg_tmod] at h2
    omega

theorem ageAgrees_iff {ttl created now : Int} (httl : 60 ≤ ttl) (hnow : IsTime now)
    (hcreated : IsTime created) : AgeAgrees ttl created now ↔
      (asI64 ttl < (liveAgeMs created now).tdiv 1000 ↔ ttl * second < now - created) := by
  obtain ⟨hn1, hn2⟩ := hnow
  obtain ⟨hc1, hc2⟩ := hcreated
  have hn := tdiv_thousand now
  have hc := tdiv_thousand created
  have hage := tdiv_thousand (now.tdiv 1000 - created.tdiv 1000)
  simp only [AgeAgrees, liveAgeMs, asI64, asMillisecond, second] at *
  by_cases hparsed : created < 253402207201 * 1000000
  · simp only [hparsed, if_true]
    split <;> omega
  · -- the native age is 0
    simp only [hparsed, if_false, Int.zero_tdiv]
    split <;> omega

/-- The two programs agree about a guest. -/
structure AgreesAt (policy : Policy) (observed : Observed) (now : Int) (r : Resource) : Prop where
  missing : (missingNodes observed r).Pairwise (· ≤ ·)
  offline : (offlineNodes observed r).Pairwise (· ≤ ·)
  age : r.state ∈ [State.reserved, .provisioning] → observed.vms.get? r.vmid = none →
    AgeAgrees policy.limits.reservationTtlSeconds r.createdAt now

theorem comma_not_mem_nodes {nodes : List HostSlot} {p : String → Bool} :
    ∀ n ∈ (nodeTexts nodes).filter p, ',' ∉ n.toList := by
  intro n hn
  obtain ⟨slot, -, rfl⟩ := List.mem_map.mp (List.mem_of_mem_filter hn)
  exact comma_not_mem slot

theorem sorted_ne_nil {texts : List String} : sorted texts ≠ [] ↔ texts ≠ [] := by
  rw [ne_eq, ne_eq, ← List.length_eq_zero_iff, (sorted_perm texts).length_eq,
    List.length_eq_zero_iff]

theorem sorted_of_pairwise {texts : List String} (h : texts.Pairwise (· ≤ ·)) :
    sorted texts = texts :=
  List.Pairwise.insertionSort_eq h

/-- Where the nodes are in order and the ages compare alike, a guest's issues are the same. -/
theorem liveResource_eq (hlimits : 60 ≤ policy.limits.reservationTtlSeconds ∧
      [policy.tags.production, policy.tags.staging, policy.tags.evictable].Nodup)
    (hr : isMac r.mac = true ∧ (nodeTexts r.placement).Nodup) (hnow : IsTime now)
    (hcreated : IsTime r.createdAt) (h : AgreesAt policy observed now r) :
    liveResource policy observed (asMillisecond now) r =
      reconcileResource policy observed now r := by
  have hdedup : (missingNodes observed r).dedup = missingNodes observed r :=
    List.Nodup.dedup (hr.2.filter _)
  have hvm : (observed.vms.get? r.vmid).elim (liveAbsent policy (asMillisecond now) r)
        (liveVm policy r) =
      (observed.vms.get? r.vmid).elim (reconcileAbsent policy now r) (reconcileVm policy r) := by
    cases hget : observed.vms.get? r.vmid with
    | some vm => exact liveVm_eq hr.1 hlimits.2 vm
    | none =>
      by_cases hstate : r.state ∈ [State.reserved, .provisioning]
      · have hage := (ageAgrees_iff hlimits.1 hnow hcreated).mp (h.age hstate hget)
        simp only [Option.elim_none, liveAbsent, reconcileAbsent, liveAgeMs_eq, hage]
        simp only [List.mem_cons, List.not_mem_nil, or_false] at hstate
        rcases hstate with hstate | hstate <;> simp [hstate]
      · simp only [List.mem_cons, List.not_mem_nil, or_false, not_or] at hstate
        simp [liveAbsent, reconcileAbsent, hstate.1, hstate.2]
  simp only [liveResource, reconcileResource, hdedup, sorted_of_pairwise h.missing,
    sorted_of_pairwise h.offline, hvm]

theorem pairwise_of_perm {nodes : List String} (hnodes : ∀ n ∈ nodes, ',' ∉ n.toList)
    {start : String}
    (h : (issueIf (nodes ≠ []) severity code r (start ++ Text.join ", " nodes)).Perm
      (issueIf (nodes ≠ []) severity code r (start ++ Text.join ", " (sorted nodes)))) :
    nodes.Pairwise (· ≤ ·) := by
  by_cases hne : nodes = []
  · simp [hne]
  · simp only [issueIf, ne_eq, hne, not_false_eq_true, if_true, List.perm_singleton,
      List.cons.injEq, Issue.mk.injEq, true_and, and_true] at h
    exact (join_eq_sorted_iff hnodes).mp ((String.append_right_inj start).mp h)

/-- Conversely, a guest's issues tell the order of its nodes and how its age compares. -/
theorem agreesAt_of_perm (hlimits : 60 ≤ policy.limits.reservationTtlSeconds)
    (hr : (nodeTexts r.placement).Nodup) (hnow : IsTime now) (hcreated : IsTime r.createdAt)
    (h : (liveResource policy observed (asMillisecond now) r).Perm
      (reconcileResource policy observed now r)) : AgreesAt policy observed now r := by
  have hdedup : (missingNodes observed r).dedup = missingNodes observed r :=
    List.Nodup.dedup (hr.filter _)
  have hcode (k : String) : (withCode k (liveResource policy observed (asMillisecond now) r)).Perm
      (withCode k (reconcileResource policy observed now r)) := h.filter _
  simp only [liveResource, reconcileResource, hdedup, sorted_ne_nil, withCode_append,
    withCode_issueIf] at hcode
  refine ⟨?_, ?_, fun hstate hget => ?_⟩
  · have hmissing := hcode "placement-node-missing"
    rw [withCode_of_codes (fun _ => mem_liveVm) (by decide),
      withCode_of_codes (fun _ => mem_reconcileVm) (by decide),
      withCode_of_codes (fun _ => mem_volumeIssue) (by decide)] at hmissing
    exact pairwise_of_perm comma_not_mem_nodes (by simpa using hmissing)
  · have hoffline := hcode "placement-node-offline"
    rw [withCode_of_codes (fun _ => mem_liveVm) (by decide),
      withCode_of_codes (fun _ => mem_reconcileVm) (by decide),
      withCode_of_codes (fun _ => mem_volumeIssue) (by decide)] at hoffline
    exact pairwise_of_perm comma_not_mem_nodes (by simpa using hoffline)
  · refine (ageAgrees_iff hlimits hnow hcreated).mpr ?_
    have hstale := hcode "stale-reservation"
    rw [withCode_of_codes (fun _ => mem_volumeIssue) (by decide), hget] at hstale
    simp only [List.mem_cons, List.not_mem_nil, or_false] at hstate
    by_cases hlive : asI64 policy.limits.reservationTtlSeconds < (liveAgeMs r.createdAt now).tdiv 1000 <;>
      by_cases hreport : policy.limits.reservationTtlSeconds * second < now - r.createdAt <;>
      rcases hstate with hstate | hstate <;>
        simp [liveAbsent, reconcileAbsent, liveAgeMs_eq, hstate, hlive, hreport, issueIf, withCode] at hstale ⊢

end

/-! ## A report -/

section

variable {py : Python} {policy : Policy} {observed : Observed} {now : Int} {rs : List Resource}

theorem reconcileReport_eq_ok (hresources : ∀ r ∈ rs, validateResource py r policy = .ok ())
    (hset : validateRegistryInvariants rs = .ok ())
    (hobserved : validateObserved policy observed = .ok ())
    (hregistered : ∀ e ∈ observed.vms, e.1 ∈ rs.map (·.vmid)) :
    reconcileReport policy observed now py rs =
      .ok (sortIssues (rs.flatMap (reconcileResource policy observed now))) := by
  have hall : rs.forM (validateResource py · policy) = .ok () := forM_eq_ok_iff.mpr hresources
  have hnone : unregisteredGuests observed rs = [] := by
    refine List.map_eq_nil_iff.mpr (List.filter_eq_nil_iff.mpr fun e he => ?_)
    simpa using fun hmem => absurd (hregistered e he) (by simpa using hmem)
  simp only [reconcileReport, hobserved, hset, hall, hnone, ok_bind, List.append_nil]
  rfl

/-- Each guest's nodes are in order, and its age compares alike. -/
def Agrees (policy : Policy) (observed : Observed) (now : Int) (rs : List Resource) : Prop :=
  ∀ r ∈ rs, AgreesAt policy observed now r

/-- A guest of `mox2` and `mox1`, neither of which is observed. -/
def turnedGuest : Resource := { smallGuest with placement := [mox 2 HostSlot.range_two, mox 1 HostSlot.range_one] }

end

end Bmac.Registry
