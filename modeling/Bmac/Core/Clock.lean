import Mathlib.Order.Bounds.Basic
import Bmac.Core.Zone

/-!
# Local clocks

What `TimeZone.instant` says of the local clock, in a zone whose changes are smaller than a day and at
least two days apart: instants keep the order of local times a day apart, the clock is never a day ahead of
or behind what it has shown, and a time that is skipped or repeated is one around a single change.
-/

namespace Bmac.Core

namespace TimeZone

/-- The changes after an offset. -/
def Spaced : Int → List (Int × Int) → Prop
  | _, [] => True
  | o, (t, o') :: rest =>
    (o - dayS < o' ∧ o' < o + dayS) ∧ (∀ c ∈ rest.head?, t + 2 * dayS ≤ c.1) ∧ Spaced o' rest

/-- A zone that `jiff` can have: `Offset` is less than 26 hours. -/
structure Valid (zone : TimeZone) : Prop where
  spaced : Spaced zone.first zone.changes
  offsets : ∀ o ∈ zone.first :: zone.changes.map (·.2), -93599 ≤ o ∧ o ≤ 93599

instance decidableSpaced : (o : Int) → (changes : List (Int × Int)) → Decidable (Spaced o changes)
  | _, [] => isTrue trivial
  | o, (t, o') :: rest =>
    have := decidableSpaced o' rest
    inferInstanceAs (Decidable ((o - dayS < o' ∧ o' < o + dayS) ∧
      (∀ c ∈ rest.head?, t + 2 * dayS ≤ c.1) ∧ Spaced o' rest))

/-- The offset in force at an instant, where `o` was in force before the changes. -/
def offsetFrom (o : Int) (now : Int) (changes : List (Int × Int)) : Int :=
  changes.foldl (fun o c => if c.1 ≤ now then c.2 else o) o

theorem offset_eq (zone : TimeZone) (now : Int) : zone.offset now = offsetFrom zone.first now zone.changes :=
  rfl

variable {o o' t now l l' : Int} {changes rest : List (Int × Int)}

theorem offsetFrom_cons : offsetFrom o now ((t, o') :: rest) =
    offsetFrom (if t ≤ now then o' else o) now rest := rfl

/-- No change has come before the first one. -/
theorem offsetFrom_before (h : Spaced o changes) (hfirst : ∀ c ∈ changes.head?, now < c.1) (p : Int) :
    offsetFrom p now changes = p := by
  induction changes generalizing o with
  | nil => rfl
  | cons c rest ih =>
    obtain ⟨t, o'⟩ := c
    obtain ⟨-, hlater, hrest⟩ := h
    have hnow : now < t := hfirst (t, o') rfl
    rw [offsetFrom_cons, if_neg (not_le.mpr hnow)]
    refine ih hrest fun c hc => ?_
    have hfar := hlater c hc
    unfold dayS at hfar
    omega

theorem offsetFrom_first (h : Spaced o ((t, o') :: rest)) (hnow : now < t) :
    offsetFrom o now ((t, o') :: rest) = o :=
  offsetFrom_before h (fun c hc => by cases hc; exact hnow) o

theorem offsetFrom_after (h : t ≤ now) : offsetFrom o now ((t, o') :: rest) = offsetFrom o' now rest := by
  rw [offsetFrom_cons, if_pos h]

/-! ## The clock after a change -/

/-- Once the clock shows a time it never falls a day behind it, and it is a day ahead after the next
change. -/
theorem clock_after (h : Spaced o changes) (hnext : ∀ c ∈ changes.head?, t + 2 * dayS ≤ c.1) (ht : t ≤ now) :
    offsetFrom o now changes = o ∨ t + o + dayS < now + offsetFrom o now changes := by
  induction changes generalizing o t with
  | nil => exact .inl rfl
  | cons c rest ih =>
    obtain ⟨t', o'⟩ := c
    have hfar : t + 2 * dayS ≤ t' := hnext (t', o') rfl
    obtain ⟨hsize, hlater, hrest⟩ := h
    by_cases hnow : t' ≤ now
    · rw [offsetFrom_after hnow]
      right
      rcases ih hrest hlater hnow with hsame | hahead
      · rw [hsame]
        omega
      · unfold dayS at *
        omega
    · exact .inl (offsetFrom_first ⟨hsize, hlater, hrest⟩ (not_le.mp hnow))

/-- A local time at or after a change comes at or after it. -/
theorem le_instantFrom (h : Spaced o changes) (hnext : ∀ c ∈ changes.head?, t + 2 * dayS ≤ c.1)
    (hl : t + o ≤ l) : t ≤ instantFrom o l changes := by
  induction changes generalizing o t with
  | nil =>
    show t ≤ l - o
    omega
  | cons c rest ih =>
    obtain ⟨t', o'⟩ := c
    have hfar : t + 2 * dayS ≤ t' := hnext (t', o') rfl
    obtain ⟨hsize, hlater, hrest⟩ := h
    unfold instantFrom
    split
    · omega
    · have hle := ih hrest hlater (t := t') (by omega)
      unfold dayS at hfar
      omega

/-! ## Local times and instants -/

theorem instantFrom_lt (h : Spaced o changes) (hl : l + dayS ≤ l') :
    instantFrom o l changes < instantFrom o l' changes := by
  induction changes generalizing o with
  | nil =>
    show l - o < l' - o
    unfold dayS at hl
    omega
  | cons c rest ih =>
    obtain ⟨t, o'⟩ := c
    obtain ⟨hsize, hlater, hrest⟩ := h
    unfold instantFrom
    split
    · rename_i hbefore
      split
      · unfold dayS at hl
        omega
      · -- the change is between the two, and at most one more is
        cases rest with
        | nil =>
          show l - o < l' - o'
          omega
        | cons c' rest' =>
          obtain ⟨t', o''⟩ := c'
          have hfar : t + 2 * dayS ≤ t' := hlater (t', o'') rfl
          unfold instantFrom
          split
          · omega
          · have hle := le_instantFrom (t := t') hrest.2.2 hrest.2.1 (show t' + o'' ≤ l' by omega)
            omega
    · rename_i hafter
      rw [if_neg (by unfold dayS at hl; omega)]
      exact ih hrest

theorem lt_clock_of_instantFrom_le (h : Spaced o changes) (hle : instantFrom o l changes ≤ now) :
    l < now + offsetFrom o now changes + dayS := by
  induction changes generalizing o with
  | nil =>
    have hle : l - o ≤ now := hle
    show l < now + o + dayS
    unfold dayS
    omega
  | cons c rest ih =>
    obtain ⟨t, o'⟩ := c
    obtain ⟨hsize, hlater, hrest⟩ := h
    unfold instantFrom at hle
    split at hle
    · rename_i hbefore
      by_cases hnow : t ≤ now
      · rw [offsetFrom_after hnow]
        rcases clock_after hrest hlater hnow with hsame | hahead
        · rw [hsame]
          omega
        · omega
      · rw [offsetFrom_first ⟨hsize, hlater, hrest⟩ (not_le.mp hnow)]
        unfold dayS
        omega
    · rename_i hafter
      have hnow : t ≤ now := (le_instantFrom hrest hlater (by omega)).trans hle
      rw [offsetFrom_after hnow]
      exact ih hrest hle

/-- A local time that has still to come is less than a day behind the clock. -/
theorem clock_lt_of_lt_instantFrom (h : Spaced o changes) (hlt : now < instantFrom o l changes) :
    now + offsetFrom o now changes < l + dayS := by
  induction changes generalizing o with
  | nil =>
    have hlt : now < l - o := hlt
    show now + o < l + dayS
    unfold dayS
    omega
  | cons c rest ih =>
    obtain ⟨t, o'⟩ := c
    obtain ⟨hsize, hlater, hrest⟩ := h
    unfold instantFrom at hlt
    by_cases hnow : t ≤ now
    · rw [offsetFrom_after hnow]
      split at hlt
      · -- the clock has skipped the time, and no other change is as near
        rename_i hbefore
        rw [offsetFrom_before hrest (fun c hc => by have := hlater c hc; omega) o']
        omega
      · exact ih hrest hlt
    · rw [offsetFrom_first ⟨hsize, hlater, hrest⟩ (not_le.mp hnow)]
      split at hlt
      · unfold dayS
        omega
      · unfold dayS
        omega

theorem instantFrom_eq (o l : Int) (changes : List (Int × Int)) :
    ∃ p ∈ o :: changes.map (·.2), instantFrom o l changes = l - p := by
  induction changes generalizing o with
  | nil => exact ⟨o, List.mem_cons_self, rfl⟩
  | cons c rest ih =>
    unfold instantFrom
    split
    · exact ⟨o, List.mem_cons_self, rfl⟩
    · obtain ⟨p, hp, heq⟩ := ih c.2
      exact ⟨p, List.mem_cons_of_mem o hp, heq⟩

/-- The clock shows a local time at its instant or later, never earlier. -/
theorem instantFrom_le (h : Spaced o changes) (hshows : now + offsetFrom o now changes = l) :
    instantFrom o l changes ≤ now := by
  induction changes generalizing o with
  | nil =>
    have hshows : now + o = l := hshows
    show l - o ≤ now
    omega
  | cons c rest ih =>
    obtain ⟨t, o'⟩ := c
    obtain ⟨hsize, hlater, hrest⟩ := h
    unfold instantFrom
    by_cases hnow : t ≤ now
    · rw [offsetFrom_after hnow] at hshows
      split
      · rcases clock_after hrest hlater hnow with hsame | hahead
        · rw [hsame] at hshows
          omega
        · omega
      · exact ih hrest hshows
    · rw [offsetFrom_first ⟨hsize, hlater, hrest⟩ (not_le.mp hnow)] at hshows
      rw [if_pos (by omega)]
      omega

/-! ## Around a change -/

theorem later_change (h : Spaced o changes) (hnext : ∀ c ∈ changes.head?, t + 2 * dayS ≤ c.1)
    (hchange : offsetFrom o (now - 1) changes ≠ offsetFrom o now changes) : t + 2 * dayS ≤ now := by
  cases changes with
  | nil => exact absurd rfl hchange
  | cons c rest =>
    obtain ⟨t', o'⟩ := c
    have hfar : t + 2 * dayS ≤ t' := hnext (t', o') rfl
    by_cases hnow : t' ≤ now
    · omega
    · rw [offsetFrom_first h (by omega), offsetFrom_first h (by omega)] at hchange
      exact absurd rfl hchange

theorem offsetFrom_near (h : Spaced o changes)
    (hchange : offsetFrom o (t - 1) changes ≠ offsetFrom o t changes) (hfrom : t - 2 * dayS ≤ now)
    (hto : now < t) : offsetFrom o now changes = offsetFrom o (t - 1) changes := by
  induction changes generalizing o with
  | nil => rfl
  | cons c rest ih =>
    obtain ⟨t', o'⟩ := c
    obtain ⟨hsize, hlater, hrest⟩ := h
    by_cases hfirst : t ≤ t'
    · rw [offsetFrom_first ⟨hsize, hlater, hrest⟩ (by omega),
        offsetFrom_first ⟨hsize, hlater, hrest⟩ (by omega)]
    · rw [offsetFrom_after (by omega), offsetFrom_after (by omega)] at hchange
      have hfar := later_change hrest hlater hchange
      rw [offsetFrom_after (by omega), offsetFrom_after (by omega)]
      exact ih hrest hchange

theorem change_lt (h : Spaced o changes) :
    offsetFrom o (t - 1) changes - offsetFrom o t changes < dayS := by
  induction changes generalizing o with
  | nil =>
    show o - o < dayS
    unfold dayS
    omega
  | cons c rest ih =>
    obtain ⟨t', o'⟩ := c
    obtain ⟨hsize, hlater, hrest⟩ := h
    rcases lt_trichotomy t t' with hlt | rfl | hgt
    · rw [offsetFrom_first ⟨hsize, hlater, hrest⟩ (by omega),
        offsetFrom_first ⟨hsize, hlater, hrest⟩ hlt]
      unfold dayS
      omega
    · rw [offsetFrom_first ⟨hsize, hlater, hrest⟩ (by omega), offsetFrom_after le_rfl,
        offsetFrom_before hrest (fun c hc => by have := hlater c hc; unfold dayS at this; omega) o']
      omega
    · rw [offsetFrom_after (by omega), offsetFrom_after (by omega)]
      exact ih hrest

theorem instantFrom_change (h : Spaced o changes)
    (hfrom : t + min (offsetFrom o (t - 1) changes) (offsetFrom o t changes) ≤ l)
    (hto : l < t + max (offsetFrom o (t - 1) changes) (offsetFrom o t changes)) :
    instantFrom o l changes = l - offsetFrom o (t - 1) changes := by
  have hchange : offsetFrom o (t - 1) changes ≠ offsetFrom o t changes := fun heq => by
    rw [heq] at hfrom hto
    omega
  induction changes generalizing o with
  | nil => exact absurd rfl hchange
  | cons c rest ih =>
    obtain ⟨t', o'⟩ := c
    obtain ⟨hsize, hlater, hrest⟩ := h
    rcases lt_trichotomy t t' with hlt | rfl | hgt
    · rw [offsetFrom_first ⟨hsize, hlater, hrest⟩ (by omega),
        offsetFrom_first ⟨hsize, hlater, hrest⟩ hlt] at hchange
      exact absurd rfl hchange
    · have hbefore := @offsetFrom_first o o' t (t - 1) rest ⟨hsize, hlater, hrest⟩ (by omega)
      have hafter : offsetFrom o t ((t, o') :: rest) = o' := by
        rw [offsetFrom_after le_rfl]
        exact offsetFrom_before hrest (fun c hc => by
          have hfar := hlater c hc
          unfold dayS at hfar
          omega) o'
      rw [hbefore, hafter] at hfrom hto
      rw [hbefore, instantFrom, if_pos hto]
    · rw [offsetFrom_after (by omega), offsetFrom_after (by omega)] at hfrom hto hchange
      have hfar := later_change hrest hlater hchange
      have hpast : ¬ l < t' + max o o' := by
        have hclock := @clock_after o' t' (t - 1) rest hrest hlater (by omega)
        have hclock' := @clock_after o' t' t rest hrest hlater (by omega)
        unfold dayS at *
        omega
      rw [offsetFrom_after (by omega), instantFrom, if_neg hpast]
      exact ih hrest hfrom hto hchange

/-! ## Of a zone -/

variable {zone : TimeZone}

/-- The clock jumps over the local time at `t`. -/
def Skips (zone : TimeZone) (t l : Int) : Prop := t + zone.offset (t - 1) ≤ l ∧ l < t + zone.offset t

/-- The clock goes back at `t` and shows the local time again. -/
def Repeats (zone : TimeZone) (t l : Int) : Prop := t + zone.offset t ≤ l ∧ l < t + zone.offset (t - 1)

theorem instant_lt (h : zone.Valid) (hl : l + dayS ≤ l') : zone.instant l < zone.instant l' :=
  instantFrom_lt h.spaced hl

theorem instant_bounds (h : zone.Valid) (l : Int) :
    l - 93599 ≤ zone.instant l ∧ zone.instant l ≤ l + 93599 := by
  obtain ⟨p, hp, heq⟩ := instantFrom_eq zone.first l zone.changes
  have hp := h.offsets p hp
  unfold instant
  omega

theorem offset_bounds (h : zone.Valid) (now : Int) : -93599 ≤ zone.offset now ∧ zone.offset now ≤ 93599 := by
  have hmem (changes : List (Int × Int)) (o : Int) : offsetFrom o now changes ∈ o :: changes.map (·.2) := by
    induction changes generalizing o with
    | nil => exact List.mem_cons_self
    | cons c rest ih =>
      obtain ⟨t, o'⟩ := c
      rw [offsetFrom_cons]
      have hrest := ih (if t ≤ now then o' else o)
      rcases List.mem_cons.mp hrest with heq | hrest
      · rw [heq]
        split
        · exact List.mem_cons_of_mem _ List.mem_cons_self
        · exact List.mem_cons_self
      · exact List.mem_cons_of_mem _ (List.mem_cons_of_mem _ hrest)
  exact h.offsets _ (hmem zone.changes zone.first)

theorem instant_of_skips (h : zone.Valid) (hskips : zone.Skips t l) :
    zone.instant l = l - zone.offset (t - 1) := by
  obtain ⟨hfrom, hto⟩ := hskips
  refine instantFrom_change h.spaced ?_ ?_
  · rw [← offset_eq, ← offset_eq]
    omega
  · rw [← offset_eq, ← offset_eq]
    omega

/-- A repeated time counts the first time it is shown. -/
theorem isLeast_of_repeats (h : zone.Valid) (hrepeats : zone.Repeats t l) :
    IsLeast {s | s + zone.offset s = l} (zone.instant l) := by
  obtain ⟨hfrom, hto⟩ := hrepeats
  have hinstant : zone.instant l = l - zone.offset (t - 1) := by
    refine instantFrom_change h.spaced ?_ ?_
    · rw [← offset_eq, ← offset_eq]
      omega
    · rw [← offset_eq, ← offset_eq]
      omega
  have hchange : offsetFrom zone.first (t - 1) zone.changes ≠ offsetFrom zone.first t zone.changes := by
    rw [← offset_eq, ← offset_eq]
    omega
  refine ⟨?_, fun s hs => instantFrom_le h.spaced hs⟩
  have hsize : zone.offset (t - 1) - zone.offset t < dayS := change_lt h.spaced
  have hnear : zone.offset (l - zone.offset (t - 1)) = zone.offset (t - 1) :=
    offsetFrom_near h.spaced hchange (by unfold dayS at *; omega) (by omega)
  show zone.instant l + zone.offset (zone.instant l) = l
  rw [hinstant, hnear]
  omega

end TimeZone

end Bmac.Core
