import Bmac.Core.Dict
import Bmac.Backupd.Settings

/-!
# The clusters' time zones

`bmac-backupd/src/retention.rs`, `Zones`: the zone each cluster's days follow. A cluster's first
report counts at once; another zone waits out the weakening delay, and a report of the zone in
force takes it back. `zones_move_late` is what the delay gives over any sequence of reports.
-/

namespace Bmac.Backupd

open Bmac.Base Bmac.Core

structure PendingZone where
  zone : String
  effectiveAtMs : Int
  deriving DecidableEq

structure ClusterZone where
  zone : String
  pending : Option PendingZone
  deriving DecidableEq

structure Zones where
  clusters : Dict ClusterZone

namespace ClusterZone

/-- The zone in force at `nowMs`. -/
def current (c : ClusterZone) (nowMs : Int) : String :=
  match c.pending with
  | some p => if p.effectiveAtMs ≤ nowMs then p.zone else c.zone
  | none => c.zone

/-- A pending zone that came due takes its place; the zone that was reported with it is not looked
at. -/
def report (known : ClusterZone) (zone : String) (delayHours : Nat) (nowMs : Int) :
    ClusterZone × Bool :=
  match known.pending.filter (·.effectiveAtMs ≤ nowMs) with
  | some p => (⟨p.zone, none⟩, true)
  | none =>
    if known.zone = zone then ({ known with pending := none }, known.pending.isSome)
    else if known.pending.any (·.zone = zone) then (known, false)
    else ({ known with pending := some ⟨zone, nowMs + delayHours * hourMs⟩ }, true)

/-- What a report leaves: the pending zone settled or taken back, the same state, or the reported
zone pending. -/
theorem report_cases (known : ClusterZone) (zone : String) (delayHours : Nat) (nowMs : Int) :
    (∃ p, known.pending = some p ∧ p.effectiveAtMs ≤ nowMs ∧
      (known.report zone delayHours nowMs).1 = ⟨p.zone, none⟩) ∨
    (∀ p, known.pending = some p → nowMs < p.effectiveAtMs) ∧
      ((known.report zone delayHours nowMs).1 = { known with pending := none } ∨
        (∃ p, known.pending = some p ∧ p.zone = zone ∧
          (known.report zone delayHours nowMs).1 = known) ∨
        (known.report zone delayHours nowMs).1 =
          { known with pending := some ⟨zone, nowMs + delayHours * hourMs⟩ }) := by
  unfold report
  cases hdue : known.pending.filter (·.effectiveAtMs ≤ nowMs) with
  | some p =>
    obtain ⟨hpending, hle⟩ := Option.filter_eq_some_iff.mp hdue
    exact .inl ⟨p, hpending, by simpa using hle, rfl⟩
  | none =>
    refine .inr ⟨fun p hp => ?_, ?_⟩
    · have hnot := Option.filter_eq_none_iff.mp hdue p hp
      simpa using hnot
    · dsimp only
      split
      · exact .inl rfl
      · split
        · rename_i hany
          obtain ⟨p, hp, hzone⟩ := (Option.any_eq_true ..).mp hany
          exact .inr (.inl ⟨p, hp, by simpa using hzone, rfl⟩)
        · exact .inr (.inr rfl)

/-- A report does not change the zone in force at that moment, when there is a delay. -/
theorem current_report (known : ClusterZone) (zone : String) {delayHours : Nat} (nowMs : Int)
    (hdelay : 1 ≤ delayHours) :
    (known.report zone delayHours nowMs).1.current nowMs = known.current nowMs := by
  rcases report_cases known zone delayHours nowMs with
    ⟨p, hp, hle, heq⟩ | ⟨hwaits, heq | ⟨p, hp, -, heq⟩ | heq⟩
  · rw [heq, current, current, hp]
    exact (if_pos hle).symm
  · rw [heq, current, current]
    cases hp : known.pending with
    | none => rfl
    | some p => exact (if_neg (hwaits p hp).not_ge).symm
  · rw [heq]
  · have hlater : ¬ nowMs + delayHours * hourMs ≤ nowMs := by
      unfold hourMs
      omega
    rw [heq, current, current]
    cases hp : known.pending with
    | none => exact if_neg hlater
    | some p => exact (if_neg hlater).trans (if_neg (hwaits p hp).not_ge).symm

end ClusterZone

namespace Zones

variable {Z : Type} (get : String → Option Z)

/-- `get` is `TimeZone::get`. -/
def report (zones : Zones) (cluster zone : String) (delayHours : Nat) (nowMs : Int) :
    Except String (Zones × Bool) :=
  match get zone with
  | none => .error s!"{zone.quote} isn't a time zone"
  | some _ =>
    match zones.clusters.get? cluster with
    | none => .ok (⟨zones.clusters.insert cluster ⟨zone, none⟩⟩, true)
    | some known =>
      let (known, changed) := known.report zone delayHours nowMs
      .ok (⟨zones.clusters.insert cluster known⟩, changed)

/-- The zone `cluster`'s days follow now; UTC until it reports one. -/
def zone (utc : Z) (zones : Zones) (cluster : String) (nowMs : Int) : Z :=
  (((zones.clusters.get? cluster).map (·.current nowMs)).bind get).getD utc

/-! ### Runs -/

structure Report where
  cluster : String
  zone : String
  delayHours : Nat
  nowMs : Int

/-- A refused report changes nothing. -/
def apply (zones : Zones) (r : Report) : Zones :=
  match zones.report get r.cluster r.zone r.delayHours r.nowMs with
  | .ok (zones, _) => zones
  | .error _ => zones

/-- The zones, and the time of the last report. -/
structure Timed where
  zones : Zones
  clock : Int

/-- One report; the clock does not go back. -/
def Step (w : Timed) (r : Report) (w' : Timed) : Prop :=
  w.clock ≤ r.nowMs ∧ w' = ⟨w.zones.apply get r, r.nowMs⟩

def start (clock : Int) : Timed := ⟨⟨[]⟩, clock⟩

/-- The reports of `cluster` that were not refused. -/
def taken (cluster : String) (reports : List Report) : List Report :=
  reports.filter fun r => r.cluster = cluster ∧ (get r.zone).isSome

/-- The latest reports name `zone`, in a series that nothing interrupts, and the delay is over: for
a `d` that no delay of the series is below, `d` hours after the first of them. -/
def Waited (reports : List Report) (zone : String) (nowMs : Int) : Prop :=
  ∃ before first rest, reports = before ++ first :: rest ∧
    (∀ r ∈ before.getLast?, r.zone ≠ zone) ∧ (∀ r ∈ first :: rest, r.zone = zone) ∧
    ∀ d : Nat, (∀ r ∈ first :: rest, d ≤ r.delayHours) → first.nowMs + d * hourMs ≤ nowMs

section

variable {get} {reports : List Report}

theorem Waited.mono {zone : String} {t t' : Int} (h : Waited reports zone t) (hle : t ≤ t') :
    Waited reports zone t' := by
  obtain ⟨before, first, rest, heq, hbefore, hzone, hwait⟩ := h
  exact ⟨before, first, rest, heq, hbefore, hzone, fun d hd => (hwait d hd).trans hle⟩

theorem Waited.snoc {zone : String} {t : Int} {r : Report} (h : Waited reports zone t)
    (hr : r.zone = zone) : Waited (reports ++ [r]) zone t := by
  obtain ⟨before, first, rest, rfl, hbefore, hzone, hwait⟩ := h
  refine ⟨before, first, rest ++ [r], by simp, hbefore, fun r' hr' => ?_, fun d hd => ?_⟩
  · rw [← List.cons_append] at hr'
    rcases List.mem_append.mp hr' with hr' | hr'
    · exact hzone r' hr'
    · obtain rfl := List.mem_singleton.mp hr'
      exact hr
  · exact hwait d fun r' hr' => hd r' (by
      rw [← List.cons_append]
      exact List.mem_append_left _ hr')

/-- The longest series of reports of `zone` at the end. -/
theorem exists_series (reports : List Report) (zone : String) :
    ∃ before series, reports = before ++ series ∧ (∀ r ∈ before.getLast?, r.zone ≠ zone) ∧
      ∀ r ∈ series, r.zone = zone := by
  induction reports using List.reverseRecOn with
  | nil => exact ⟨[], [], rfl, by simp, by simp⟩
  | append_singleton reports r ih =>
    by_cases hr : r.zone = zone
    · obtain ⟨before, series, rfl, hbefore, hzone⟩ := ih
      refine ⟨before, series ++ [r], by simp, hbefore, fun r' hr' => ?_⟩
      rcases List.mem_append.mp hr' with hr' | hr'
      · exact hzone r' hr'
      · obtain rfl := List.mem_singleton.mp hr'
        exact hr
    · refine ⟨reports ++ [r], [], by simp, fun r' hr' => ?_, by simp⟩
      rw [List.getLast?_concat] at hr'
      cases hr'
      exact hr

theorem waited_asked {r : Report} (htimes : ∀ r' ∈ reports, r'.nowMs ≤ r.nowMs) :
    Waited (reports ++ [r]) r.zone (r.nowMs + r.delayHours * hourMs) := by
  obtain ⟨before, series, rfl, hbefore, hzone⟩ := exists_series reports r.zone
  have hall : ∀ r' ∈ series ++ [r], r'.zone = r.zone ∧ r'.nowMs ≤ r.nowMs := by
    intro r' hr'
    rcases List.mem_append.mp hr' with hr' | hr'
    · exact ⟨hzone r' hr', htimes r' (List.mem_append_right _ hr')⟩
    · obtain rfl := List.mem_singleton.mp hr'
      exact ⟨rfl, le_rfl⟩
  obtain ⟨first, rest, hseries⟩ := List.exists_cons_of_ne_nil (List.concat_ne_nil r series)
  refine ⟨before, first, rest, by rw [List.append_assoc, hseries], hbefore, fun r' hr' => ?_,
    fun d hd => ?_⟩
  · exact (hall r' (hseries ▸ hr')).1
  · have hfirst : first.nowMs ≤ r.nowMs := (hall first (hseries ▸ List.mem_cons_self)).2
    have hdelay : d ≤ r.delayHours := hd r (hseries ▸ List.mem_concat_self)
    have hhours : (d : Int) * hourMs ≤ r.delayHours * hourMs :=
      Int.mul_le_mul_of_nonneg_right (by exact_mod_cast hdelay) (by decide)
    omega

theorem taken_snoc (cluster : String) (reports : List Report) (r : Report) :
    taken get cluster (reports ++ [r]) = taken get cluster reports ++ taken get cluster [r] :=
  List.filter_append ..

/-- What a report does to the zone of a cluster: nothing when it is refused or another cluster's,
the first one recorded, or `ClusterZone.report`. -/
theorem apply_cases (zones : Zones) (r : Report) (cluster : String) :
    taken get cluster [r] = [] ∧ (zones.apply get r).clusters.get? cluster = zones.clusters.get? cluster ∨
    taken get cluster [r] = [r] ∧ r.cluster = cluster ∧
      ((zones.clusters.get? cluster = none ∧
          (zones.apply get r).clusters.get? cluster = some ⟨r.zone, none⟩) ∨
        ∃ known, zones.clusters.get? cluster = some known ∧
          (zones.apply get r).clusters.get? cluster =
            some (known.report r.zone r.delayHours r.nowMs).1) := by
  unfold apply report taken
  cases hget : get r.zone with
  | none => exact .inl ⟨by simp [hget], rfl⟩
  | some z =>
    by_cases hcluster : r.cluster = cluster
    · subst hcluster
      refine .inr ⟨by simp [hget], rfl, ?_⟩
      cases hknown : zones.clusters.get? r.cluster with
      | none => exact .inl ⟨rfl, Dict.get?_insert ..⟩
      | some known => exact .inr ⟨known, rfl, Dict.get?_insert ..⟩
    · refine .inl ⟨by simp [hcluster], ?_⟩
      cases hknown : zones.clusters.get? r.cluster with
      | none => exact Dict.get?_insert_of_ne _ _ (Ne.symm hcluster)
      | some known => exact Dict.get?_insert_of_ne _ _ (Ne.symm hcluster)

/-- A pending zone was asked for by the latest reports of its cluster. -/
structure Tracks (get : String → Option Z) (reports : List Report) (w : Timed) : Prop where
  times : ∀ r ∈ reports, r.nowMs ≤ w.clock
  pending : ∀ cluster known p, w.zones.clusters.get? cluster = some known →
    known.pending = some p → Waited (taken get cluster reports) p.zone p.effectiveAtMs

theorem Tracks.step {w w' : Timed} {r : Report} (h : Tracks get reports w)
    (hstep : Step get w r w') : Tracks get (reports ++ [r]) w' := by
  obtain ⟨hclock, rfl⟩ := hstep
  have htimes : ∀ r' ∈ reports, r'.nowMs ≤ r.nowMs := fun r' hr' => (h.times r' hr').trans hclock
  refine ⟨fun r' hr' => ?_, fun cluster known p hknown hp => ?_⟩
  · rcases List.mem_append.mp hr' with hr' | hr'
    · exact htimes r' hr'
    · obtain rfl := List.mem_singleton.mp hr'
      exact le_rfl
  · rw [taken_snoc]
    rcases apply_cases w.zones r cluster with
      ⟨hnone, hsame⟩ | ⟨htaken, -, ⟨-, hfirst⟩ | ⟨old, hold, hreport⟩⟩
    · rw [hnone, List.append_nil]
      exact h.pending cluster known p (hsame.symm.trans hknown) hp
    · cases hknown.symm.trans hfirst
      cases hp
    · rw [htaken]
      obtain rfl : known = (old.report r.zone r.delayHours r.nowMs).1 :=
        Option.some.inj (hknown.symm.trans hreport)
      rcases old.report_cases r.zone r.delayHours r.nowMs with
        ⟨q, -, -, heq⟩ | ⟨-, heq | ⟨q, hq, hzone, heq⟩ | heq⟩ <;> rw [heq] at hp
      · cases hp
      · cases hp
      · obtain rfl : q = p := Option.some.inj (hq.symm.trans hp)
        exact (h.pending cluster old q hold hq).snoc hzone.symm
      · cases hp
        exact waited_asked fun r' hr' => htimes r' (List.mem_filter.mp hr').1

theorem tracks_start (clock : Int) : Tracks get [] (start clock) :=
  ⟨by simp, fun cluster known p hknown => nomatch hknown⟩

/-- The zone in force changes between two moments only when a pending zone came due. -/
theorem current_changes {known : ClusterZone} {t1 t2 : Int} (hle : t1 ≤ t2)
    (hne : known.current t1 ≠ known.current t2) :
    ∃ p, known.pending = some p ∧ p.effectiveAtMs ≤ t2 ∧ known.current t2 = p.zone := by
  unfold ClusterZone.current at hne ⊢
  cases hp : known.pending with
  | none => exact absurd (by rw [hp]) hne
  | some p =>
    by_cases hdue : p.effectiveAtMs ≤ t2
    · exact ⟨p, rfl, hdue, if_pos hdue⟩
    · rw [hp] at hne
      simp only [if_neg hdue, if_neg fun h : p.effectiveAtMs ≤ t1 => hdue (h.trans hle)] at hne
      exact absurd rfl hne

end

/-- In the state any run of reports leaves: a report with a delay does not change the zone a known
cluster's days follow at that moment; and when the zone changes without a report, the new one was
named by the latest reports, the first of them the delay ago. -/
theorem zones_move_late (utc : Z) {clock : Int} {reports : List Report} {w : Timed}
    (h : Run (Step get) (start clock) reports w) (cluster : String) :
    (∀ r : Report, w.clock ≤ r.nowMs → 1 ≤ r.delayHours → w.zones.clusters.get? cluster ≠ none →
      (w.zones.apply get r).zone get utc cluster r.nowMs = w.zones.zone get utc cluster r.nowMs) ∧
    ∀ t1 t2, w.clock ≤ t1 → t1 ≤ t2 →
      w.zones.zone get utc cluster t1 ≠ w.zones.zone get utc cluster t2 →
      ∃ name, (w.zones.clusters.get? cluster).map (·.current t2) = some name ∧
        Waited (taken get cluster reports) name t2 := by
  have htracks : Tracks get reports w := h.history (tracks_start clock) fun _ _ _ _ => Tracks.step
  constructor
  · intro r _ hdelay hknown
    unfold zone
    have hcases := @apply_cases _ get w.zones r cluster
    rcases hcases with ⟨-, hsame⟩ | ⟨-, -, ⟨hnone, -⟩ | ⟨known, hold, hreport⟩⟩
    · rw [hsame]
    · exact absurd hnone hknown
    · rw [hreport, hold, Option.map_some, Option.map_some, known.current_report _ _ hdelay]
  · intro t1 t2 _ hle hne
    unfold zone at hne
    cases hknown : w.zones.clusters.get? cluster with
    | none => rw [hknown] at hne; exact absurd rfl hne
    | some known =>
      rw [hknown] at hne
      obtain ⟨p, hp, hdue, hcurrent⟩ : ∃ p, known.pending = some p ∧ p.effectiveAtMs ≤ t2 ∧
          known.current t2 = p.zone :=
        current_changes hle fun heq => hne (by rw [Option.map_some, Option.map_some, heq])
      refine ⟨p.zone, ?_, (htracks.pending cluster known p hknown hp).mono hdue⟩
      rw [Option.map_some, hcurrent]

/-! ### Reports without a delay -/

def twoZones (zone : String) : Option String :=
  if zone = "UTC" ∨ zone = "Europe/Berlin" then some zone else none

def berlin (delayHours : Nat) : List Report :=
  [⟨"a", "UTC", delayHours, 0⟩, ⟨"a", "Europe/Berlin", delayHours, hourMs⟩]

def inUtc : Timed := ⟨⟨[("a", ⟨"UTC", none⟩)]⟩, 0⟩

def inBerlin : Timed := ⟨⟨[("a", ⟨"UTC", some ⟨"Europe/Berlin", 73 * hourMs⟩⟩)]⟩, hourMs⟩

theorem inUtc_run (delayHours : Nat) :
    Run (Step twoZones) (start 0) [⟨"a", "UTC", delayHours, 0⟩] inUtc :=
  .single ⟨le_rfl, rfl⟩

theorem not_unmoved : ¬ ∀ (clock : Int) (reports : List Report) (w : Timed),
    Run (Step twoZones) (start clock) reports w → ∀ (cluster : String) (r : Report),
      w.clock ≤ r.nowMs → w.zones.clusters.get? cluster ≠ none →
        (w.zones.apply twoZones r).zone twoZones "UTC" cluster r.nowMs =
          w.zones.zone twoZones "UTC" cluster r.nowMs := by
  intro hall
  exact absurd (hall 0 _ inUtc (inUtc_run 0) "a" ⟨"a", "Europe/Berlin", 0, hourMs⟩
    (by decide) (by decide)) (by decide)

theorem inBerlin_waited :
    ∃ name, (inBerlin.zones.clusters.get? "a").map (·.current (73 * hourMs)) = some name ∧
      Waited (taken twoZones "a" (berlin 72)) name (73 * hourMs) :=
  (zones_move_late twoZones "UTC" ((inUtc_run 72).append (.single ⟨by decide, rfl⟩) :
    Run (Step twoZones) (start 0) (berlin 72) inBerlin) "a").2 hourMs (73 * hourMs)
    (by decide) (by decide) (by decide)

end Zones

end Bmac.Backupd
