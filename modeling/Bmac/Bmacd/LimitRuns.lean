import Bmac.Base.Sliding
import Bmac.Bmacd.Limits

/-!
# Limiters over runs

A limiter forgets: the hits that have left the window, all but the newest ones, and idle keys. `Tracks` says what
it still has after any calls: for each key, as many hits in every later window as were recorded, up to the limit.
-/

namespace Bmac.Bmacd

open Bmac.Base

inductive LimiterCall where
  | check (key : String)
  | record (key : String)

def Limiter.after (l : Limiter) : Int × LimiterCall → Limiter
  | (now, .check key) => (l.check key now).1
  | (now, .record key) => l.record key now

def recorded (calls : List (Int × LimiterCall)) (key : String) : List Int :=
  calls.filterMap fun
    | (time, .record k) => if k = key then some time else none
    | (_, .check _) => none

def busy (window : Window) (calls : List (Int × LimiterCall)) (key : String) (now : Int) : List String :=
  calls.filterMap fun
    | (time, .record k) => if k ≠ key ∧ now - window.periodMs < time then some k else none
    | (_, .check _) => none

section

variable {window : Window} {calls : List (Int × LimiterCall)} {key k : String} {now : Int} {l : Limiter}

@[simp] theorem recorded_check : recorded (calls ++ [(now, .check k)]) key = recorded calls key := by
  simp [recorded]

@[simp] theorem recorded_record : recorded (calls ++ [(now, .record k)]) key =
    if k = key then recorded calls key ++ [now] else recorded calls key := by
  by_cases hk : k = key <;> simp [recorded, hk]

theorem mem_recorded : now ∈ recorded calls key ↔ (now, .record key) ∈ calls := by
  simp only [recorded, List.mem_filterMap]
  constructor
  · rintro ⟨⟨time, call⟩, hmem, heq⟩
    cases call with
    | check k => cases heq
    | record k =>
      simp only [Option.ite_none_right_eq_some, Option.some.injEq] at heq
      obtain ⟨rfl, rfl⟩ := heq
      exact hmem
  · intro hmem
    exact ⟨_, hmem, by simp⟩

theorem mem_busy : k ∈ busy window calls key now ↔
    k ≠ key ∧ ∃ time, now - window.periodMs < time ∧ (time, .record k) ∈ calls := by
  simp only [busy, List.mem_filterMap]
  constructor
  · rintro ⟨⟨time, call⟩, hmem, heq⟩
    cases call with
    | check k => cases heq
    | record k =>
      simp only [Option.ite_none_right_eq_some, Option.some.injEq] at heq
      obtain ⟨⟨hne, hin⟩, rfl⟩ := heq
      exact ⟨hne, time, hin, hmem⟩
  · rintro ⟨hne, time, hin, hmem⟩
    exact ⟨_, hmem, by simp [hne, hin]⟩

/-! ## What the calls do to the keys -/

namespace Limiter

theorem keys_setHits (hits : Hits) : ((l.setHits k hits).keys.map (·.1)) =
    if (l.hits? k).isSome then l.keys.map (·.1) else l.keys.map (·.1) ++ [k] := by
  unfold setHits
  split
  · simp only [List.map_map]
    refine List.map_congr_left fun entry _ => ?_
    simp only [Function.comp_apply]
    split
    · rename_i heq
      exact heq.symm
    · rfl
  · simp

theorem hits?_isSome : (l.hits? key).isSome ↔ key ∈ l.keys.map (·.1) := by
  unfold hits?
  induction l.keys with
  | nil => simp
  | cons entry rest ih =>
    obtain ⟨other, hits⟩ := entry
    rw [lookup_cons_ite]
    by_cases hkey : key = other <;> simp [hkey, ih]

theorem mem_setHits {hits : Hits} {entry : String × Hits} (h : entry ∈ (l.setHits k hits).keys) :
    entry = (k, hits) ∨ entry ∈ l.keys := by
  unfold setHits at h
  split at h
  · obtain ⟨old, hold, rfl⟩ := List.mem_map.mp h
    split
    · exact .inl rfl
    · exact .inr hold
  · rcases List.mem_append.mp h with hold | hnew
    · exact .inr hold
    · exact .inl (List.mem_singleton.mp hnew)

theorem mem_of_hits? {hits : Hits} (h : l.hits? key = some hits) : (key, hits) ∈ l.keys := by
  obtain ⟨before, after, hsplit, -⟩ := List.lookup_eq_some_iff.mp h
  simp [hsplit]

theorem lookup_filter {α : Type} {p : String × α → Bool} {entries : List (String × α)}
    (hnodup : (entries.map (·.1)).Nodup) :
    (entries.filter p).lookup key = (entries.lookup key).filter fun a => p (key, a) := by
  induction entries with
  | nil => rfl
  | cons entry rest ih =>
    obtain ⟨other, a⟩ := entry
    obtain ⟨hfirst, hrest⟩ := List.nodup_cons.mp hnodup
    rw [lookup_cons_ite]
    by_cases hp : p (other, a) = true
    · rw [List.filter_cons_of_pos hp, lookup_cons_ite, ih hrest]
      by_cases hkey : key = other
      · subst hkey
        simp [Option.filter, hp]
      · simp [hkey]
    · rw [List.filter_cons_of_neg hp, ih hrest]
      by_cases hkey : key = other
      · subst hkey
        have hnone : rest.lookup key = none := by
          rw [List.lookup_eq_none_iff]
          rintro ⟨other, b⟩ hmem
          simp only [bne_iff_ne, ne_eq]
          rintro rfl
          exact hfirst (List.mem_map.mpr ⟨_, hmem, rfl⟩)
        simp [Option.filter, hp, hnone]
      · simp [hkey]

/-- What `record` makes room in. -/
def madeRoom (l : Limiter) (k : String) (now : Int) : Limiter :=
  if (l.hits? k).isNone ∧ maxKeys ≤ l.keys.length then l.forgetOne now else l

theorem record_eq : l.record k now = (l.madeRoom k now).setHits k
    { ((l.madeRoom k now).hits? k).getD {} with
      times := Sliding.newest (l.madeRoom k now).window.limit ((l.madeRoom k now).times k ++ [now]) } := by
  have htimes : (((l.madeRoom k now).hits? k).getD {}).times = (l.madeRoom k now).times k := by
    unfold times
    cases (l.madeRoom k now).hits? k <;> rfl
  rw [← htimes]
  rfl

/-- The keys that stay when one must go, if that is not all of them. -/
def live (l : Limiter) (now : Int) : List (String × Hits) :=
  l.keys.filter fun entry => entry.2.times.getLast?.any (now - l.window.periodMs < ·)

theorem forgetOne_keys (h : (l.live now).length < maxKeys) : l.forgetOne now = { l with keys := l.live now } :=
  if_neg (Nat.not_le.mpr h)

end Limiter

/-! ## What is still known -/

structure Tracks (window : Window) (calls : List (Int × LimiterCall)) (now : Int) (l : Limiter) : Prop where
  same_window : l.window = window
  distinct : (l.keys.map (·.1)).Nodup
  bounded : l.keys.length ≤ maxKeys
  hit : ∀ entry ∈ l.keys, ∀ t ∈ entry.2.times, (t, .record entry.1) ∈ calls
  sorted : ∀ entry ∈ l.keys, entry.2.times.Pairwise (· ≤ ·)
  short : ∀ entry ∈ l.keys, entry.2.times.length ≤ window.limit
  same : ∀ key, Sliding.Same window.limit window.periodMs now (l.times key) (recorded calls key)

namespace Tracks

variable {calls' : List (Int × LimiterCall)} {now' : Int} {hits : Hits}

theorem new (window : Window) (now : Int) : Tracks window [] now ⟨window, []⟩ := by
  refine ⟨rfl, List.nodup_nil, Nat.zero_le _, ?_, ?_, ?_, fun key => .refl _ _ _ _⟩ <;> simp

theorem times_cases (h : Tracks window calls now l) (key : String) : (∀ t ∈ l.times key, t ∈ recorded calls key) ∧
    (l.times key).Pairwise (· ≤ ·) ∧ (l.times key).length ≤ window.limit := by
  unfold Limiter.times
  cases hhits : l.hits? key with
  | none => simp
  | some hits =>
    have hmem := Limiter.mem_of_hits? hhits
    exact ⟨fun t ht => mem_recorded.mpr (h.hit _ hmem t ht), h.sorted _ hmem, h.short _ hmem⟩

/-- Another time, and more calls of no key. -/
theorem later (h : Tracks window calls now l) (hle : now ≤ now') (hsub : calls ⊆ calls')
    (hsame : ∀ key, recorded calls' key = recorded calls key) : Tracks window calls' now' l :=
  { h with
    hit := fun entry hentry t ht => hsub (h.hit entry hentry t ht)
    same := fun key => hsame key ▸ (h.same key).later hle }

theorem setHits (h : Tracks window calls now l) (hle : now ≤ now') (hsub : calls ⊆ calls')
    (hother : ∀ key, key ≠ k → recorded calls' key = recorded calls key)
    (hroom : (l.hits? k).isSome ∨ l.keys.length < maxKeys)
    (hhit : ∀ t ∈ hits.times, (t, .record k) ∈ calls') (hsorted : hits.times.Pairwise (· ≤ ·))
    (hshort : hits.times.length ≤ window.limit)
    (hsame : Sliding.Same window.limit window.periodMs now' hits.times (recorded calls' k)) :
    Tracks window calls' now' (l.setHits k hits) := by
  refine ⟨Limiter.setHits_window.trans h.same_window, ?_, ?_, fun entry hentry => ?_, fun entry hentry => ?_,
    fun entry hentry => ?_, fun key => ?_⟩
  · rw [Limiter.keys_setHits]
    split
    · exact h.distinct
    · rename_i hnone
      rw [Limiter.hits?_isSome] at hnone
      exact List.nodup_append.mpr ⟨h.distinct, List.nodup_singleton k, by
        rintro a ha b hb rfl
        exact hnone (List.mem_singleton.mp hb ▸ ha)⟩
  · have hlen : (l.setHits k hits).keys.length = ((l.setHits k hits).keys.map (·.1)).length :=
      (List.length_map _).symm
    rw [hlen, Limiter.keys_setHits]
    have hold := h.bounded
    split
    · rw [List.length_map]
      exact hold
    · rename_i hnone
      have hfree := hroom.resolve_left hnone
      simp only [List.length_append, List.length_map, List.length_singleton]
      omega
  · rcases Limiter.mem_setHits hentry with rfl | hold
    · exact hhit
    · exact fun t ht => hsub (h.hit entry hold t ht)
  · rcases Limiter.mem_setHits hentry with rfl | hold
    · exact hsorted
    · exact h.sorted entry hold
  · rcases Limiter.mem_setHits hentry with rfl | hold
    · exact hshort
    · exact h.short entry hold
  · rw [Limiter.times_setHits]
    split
    · rename_i heq
      exact heq ▸ hsame
    · rename_i hne
      exact hother key hne ▸ (h.same key).later hle

theorem check (h : Tracks window calls now l) (hle : now ≤ now') (k : String) :
    Tracks window (calls ++ [(now', .check k)]) now' (l.check k now').1 := by
  have hlater := h.later hle (List.subset_append_left calls [(now', .check k)]) fun _ => recorded_check
  unfold Limiter.check
  cases hhits : l.hits? k with
  | none => exact hlater
  | some hits =>
    have htimes : l.times k = hits.times := by simp [Limiter.times, hhits]
    have hmem := Limiter.mem_of_hits? hhits
    have hset (announced : Bool) : Tracks window (calls ++ [(now', .check k)]) now'
        (l.setHits k ⟨hits.times.dropWhile (· ≤ now' - l.window.periodMs), announced⟩) := by
      have hsub : (hits.times.dropWhile (· ≤ now' - l.window.periodMs)).Sublist hits.times :=
        List.dropWhile_sublist _
      refine hlater.setHits le_rfl (List.Subset.refl _) (fun _ _ => rfl) (.inl (by simp [hhits])) ?_ ?_ ?_ ?_
      · exact fun t ht => hlater.hit _ hmem t (hsub.subset ht)
      · exact (h.sorted _ hmem).sublist hsub
      · exact hsub.length_le.trans (h.short _ hmem)
      · rw [h.same_window]
        exact (htimes ▸ hlater.same k).expire
    dsimp only
    split
    · exact hset false
    · exact hset true

theorem expired_of_last {times : List Int} {since : Int} (hsorted : times.Pairwise (· ≤ ·))
    (hlast : ¬times.getLast?.any (since < ·) = true) : ∀ t ∈ times, t ≤ since := by
  intro t ht
  obtain ⟨before, last, rfl⟩ := (List.eq_nil_or_concat times).resolve_left (List.ne_nil_of_mem ht)
  simp only [List.concat_eq_append, List.getLast?_append, List.getLast?_singleton, Option.some_or, Option.any_some,
    decide_eq_true_eq, not_lt] at hlast hsorted ht
  have hle := (List.pairwise_append.mp hsorted).2.2
  rcases List.mem_append.mp ht with ht | ht
  · exact (hle t ht last (List.mem_singleton_self _)).trans hlast
  · exact (List.mem_singleton.mp ht).le.trans hlast

/-- Keys without a hit in the window may go. -/
theorem madeRoom (h : Tracks window calls now l) (hle : now ≤ now')
    (hroom : (busy window calls k now').dedup.length < maxKeys) : Tracks window calls now' (l.madeRoom k now') ∧
      (((l.madeRoom k now').hits? k).isSome ∨ (l.madeRoom k now').keys.length < maxKeys) := by
  have hlater := h.later hle (List.Subset.refl calls) fun _ => rfl
  unfold Limiter.madeRoom
  split
  · rename_i hfull
    have hsub : (l.live now').Sublist l.keys := List.filter_sublist
    have hdistinct : ((l.live now').map (·.1)).Nodup := h.distinct.sublist (hsub.map _)
    have hlive : ∀ entry ∈ l.live now', ∃ t ∈ entry.2.times, now' - window.periodMs < t := by
      intro entry hentry
      have hlast := (List.mem_filter.mp hentry).2
      rw [Option.any_eq_true] at hlast
      obtain ⟨t, ht, hin⟩ := hlast
      exact ⟨t, List.mem_of_getLast? ht, by simpa [h.same_window] using hin⟩
    have hlen : (l.live now').length < maxKeys := by
      refine lt_of_le_of_lt ((List.length_map (·.1)).ge.trans ?_) hroom
      refine (List.Nodup.subperm hdistinct fun other hother => ?_).length_le
      obtain ⟨entry, hentry, rfl⟩ := List.mem_map.mp hother
      obtain ⟨t, ht, hin⟩ := hlive entry hentry
      refine List.mem_dedup.mpr (mem_busy.mpr ⟨?_, t, hin, h.hit entry (hsub.subset hentry) t ht⟩)
      rintro rfl
      have htracked := Limiter.hits?_isSome.mpr (List.mem_map_of_mem (hsub.subset hentry))
      simp [Option.isNone_iff_eq_none.mp hfull.1] at htracked
    rw [Limiter.forgetOne_keys hlen]
    refine ⟨⟨h.same_window, hdistinct, hlen.le, fun entry hentry => h.hit entry (hsub.subset hentry),
      fun entry hentry => h.sorted entry (hsub.subset hentry),
      fun entry hentry => h.short entry (hsub.subset hentry), fun key => ?_⟩, .inr hlen⟩
    have hkept : ({ l with keys := l.live now' } : Limiter).hits? key = (l.hits? key).filter
        fun hits => hits.times.getLast?.any (now' - l.window.periodMs < ·) := Limiter.lookup_filter h.distinct
    have hsame := hlater.same key
    unfold Limiter.times at hsame ⊢
    rw [hkept]
    cases hhits : l.hits? key with
    | none =>
      rw [hhits] at hsame
      exact hsame
    | some hits =>
      rw [hhits] at hsame
      by_cases hlast : hits.times.getLast?.any (now' - l.window.periodMs < ·) = true
      · simpa [Option.filter, hlast] using hsame
      · have hgone : Sliding.Same window.limit window.periodMs now' [] (recorded calls key) :=
          hsame.forget (expired_of_last (h.sorted _ (Limiter.mem_of_hits? hhits)) (h.same_window ▸ hlast))
        simpa [Option.filter, hlast] using hgone
  · rename_i hfree
    refine ⟨hlater, ?_⟩
    cases hhits : l.hits? k with
    | some hits => exact .inl rfl
    | none =>
      have hnot : ¬maxKeys ≤ l.keys.length := fun hge => hfree ⟨by rw [hhits]; rfl, hge⟩
      exact .inr (Nat.not_le.mp hnot)

theorem record (h : Tracks window calls now l) (hle : now ≤ now') (hpast : ∀ call ∈ calls, call.1 ≤ now')
    (k : String) (hroom : (busy window calls k now').dedup.length < maxKeys) :
    Tracks window (calls ++ [(now', .record k)]) now' (l.record k now') := by
  obtain ⟨hmade, hfree⟩ := h.madeRoom hle hroom
  obtain ⟨hhit, hsorted, -⟩ := hmade.times_cases k
  have hpushed : ((l.madeRoom k now').times k ++ [now']).Pairwise (· ≤ ·) :=
    Sliding.sorted_push hsorted fun t ht => hpast _ (mem_recorded.mp (hhit t ht))
  rw [Limiter.record_eq, hmade.same_window]
  refine hmade.setHits le_rfl (List.subset_append_left ..) ?_ hfree ?_ ?_ (Sliding.length_newest _ _) ?_
  · intro key hne
    rw [recorded_record, if_neg (Ne.symm hne)]
  · intro t ht
    rcases List.mem_append.mp (List.mem_of_mem_drop ht) with ht | ht
    · exact List.mem_append_left _ (mem_recorded.mp (hhit t ht))
    · rw [List.mem_singleton.mp ht]
      exact List.mem_append_right _ (List.mem_singleton_self _)
  · exact Sliding.sorted_newest hpushed
  · rw [recorded_record, if_pos rfl]
    exact ((hmade.same k).push now').newest hpushed

/-- No key with a hit in the window has to go when another one is recorded. -/
def Roomy (window : Window) (calls : List (Int × LimiterCall)) : Prop :=
  ∀ before now k after, calls = before ++ (now, .record k) :: after →
    (busy window before k now).dedup.length < maxKeys

theorem run (hclock : (calls.map (·.1)).Pairwise (· ≤ ·)) (hroom : Roomy window calls)
    (hnow : ∀ call ∈ calls, call.1 ≤ now) :
    Tracks window calls now (calls.foldl Limiter.after ⟨window, []⟩) := by
  induction calls using List.reverseRecOn generalizing now with
  | nil => exact Tracks.new window now
  | append_singleton calls call ih =>
    rw [List.map_append, List.pairwise_append] at hclock
    obtain ⟨hbefore, -, hordered⟩ := hclock
    have hpast : ∀ other ∈ calls, other.1 ≤ call.1 := fun other hother =>
      hordered other.1 (List.mem_map_of_mem hother) call.1 (by simp)
    have hcall : call ∈ calls ++ [call] := by simp
    have hprefix : Roomy window calls := by
      rintro before time k after rfl
      exact hroom before time k (after ++ [call]) (by simp)
    have hih := ih hbefore hprefix hpast
    rw [List.foldl_append, List.foldl_cons, List.foldl_nil]
    refine Tracks.later ?_ (hnow call hcall) (List.Subset.refl _) fun _ => rfl
    obtain ⟨time, call⟩ := call
    cases call with
    | check k => exact hih.check le_rfl k
    | record k => exact hih.record le_rfl hpast k (hroom calls time k [] rfl)

end Tracks

/-! ## The window -/

theorem check_error {refused : Limited} : (l.check key now).2 = .error refused ↔ ∃ hits, l.hits? key = some hits ∧
    l.window.limit ≤ (Sliding.expire l.window.periodMs now hits.times).length ∧
    refused = ⟨((max ((Sliding.expire l.window.periodMs now hits.times).head?.getD now + l.window.periodMs - now)
      1000).toNat + 999) / 1000, !hits.announced⟩ := by
  unfold Limiter.check Sliding.expire
  cases l.hits? key with
  | none => simp
  | some hits =>
    simp only [Option.some.injEq, exists_eq_left']
    split
    · rename_i hlt
      simp [Nat.not_le.mpr hlt]
    · rename_i hge
      simp [Nat.not_lt.mp hge, eq_comm]

theorem Tracks.refused_iff (h : Tracks window calls now l) (hlimit : 0 < window.limit) :
    (∃ refused, (l.check key now).2 = .error refused) ↔
      window.limit ≤ Sliding.count window.periodMs (recorded calls key) now := by
  have hsame := h.same key now le_rfl
  obtain ⟨-, hsorted, -⟩ := h.times_cases key
  simp only [check_error]
  rw [← h.same_window] at hsame hlimit ⊢
  unfold Limiter.times at hsame hsorted
  cases hhits : l.hits? key with
  | none =>
    rw [hhits] at hsame
    simp only [reduceCtorEq, false_and, exists_false, false_iff, not_le]
    have hzero : Sliding.count l.window.periodMs [] now = 0 := rfl
    simp only [Option.map_none, Option.getD_none, hzero] at hsame
    omega
  | some hits =>
    rw [hhits] at hsame hsorted
    simp only [Option.some.injEq, exists_eq_left', exists_and_left, exists_eq, and_true]
    simp only [Option.map_some, Option.getD_some] at hsame hsorted
    rw [Sliding.length_expire hsorted]
    omega

theorem check_ok : (l.check key now).2 = .ok () ↔ ∀ hits, l.hits? key = some hits →
    (Sliding.expire l.window.periodMs now hits.times).length < l.window.limit := by
  unfold Limiter.check Sliding.expire
  cases l.hits? key with
  | none => simp
  | some hits =>
    simp only [Option.some.injEq, forall_eq']
    split <;> simp_all

/-- A refused caller is let in again after the seconds it is told to wait, and not before. -/
theorem Tracks.retry_iff (h : Tracks window calls now l) (hlimit : 0 < window.limit) {refused : Limited}
    (hrefused : (l.check key now).2 = .error refused) {seconds : Nat} (hpos : 0 < seconds) :
    ((l.check key now).1.check key (now + 1000 * seconds)).2 = .ok () ↔ refused.retryAfterSeconds ≤ seconds := by
  obtain ⟨hits, hhits, hfull, rfl⟩ := check_error.mp hrefused
  have hkept : (l.check key now).1.hits? key =
      some ⟨Sliding.expire l.window.periodMs now hits.times, true⟩ := by
    unfold Limiter.check
    rw [hhits]
    dsimp only
    split
    · rename_i hlt
      exact absurd hfull (Nat.not_le.mpr hlt)
    · rw [Limiter.hits?_setHits, if_pos rfl]
      rfl
  have hshort : hits.times.length ≤ window.limit := h.short _ (Limiter.mem_of_hits? hhits)
  have hsub : (Sliding.expire l.window.periodMs now hits.times).length ≤ hits.times.length :=
    (List.dropWhile_sublist _).length_le
  rw [check_ok, Limiter.check_window]
  simp only [hkept, Option.some.injEq, forall_eq']
  rw [h.same_window] at hfull hsub ⊢
  cases hexpired : Sliding.expire window.periodMs now hits.times with
  | nil =>
    rw [hexpired, List.length_nil] at hfull
    omega
  | cons oldest rest =>
    rw [hexpired, List.length_cons] at hfull hsub
    simp only [List.head?_cons, Option.getD_some]
    by_cases hout : oldest ≤ now + 1000 * seconds - window.periodMs
    · have hless : (Sliding.expire window.periodMs (now + 1000 * seconds) (oldest :: rest)).length ≤ rest.length := by
        rw [Sliding.expire, List.dropWhile_cons_of_pos (by simpa using hout)]
        exact (List.dropWhile_sublist _).length_le
      omega
    · have hsame : (Sliding.expire window.periodMs (now + 1000 * seconds) (oldest :: rest)).length =
          rest.length + 1 := by
        rw [Sliding.expire, List.dropWhile_cons_of_neg (by simpa using hout), List.length_cons]
      omega

/-- Calls about as many keys as the table holds never make it forget one that is in the window. -/
theorem roomy_of_keys {keys : List String} (hlen : keys.length ≤ maxKeys)
    (hkeys : ∀ time k, (time, LimiterCall.record k) ∈ calls → k ∈ keys) : Tracks.Roomy window calls := by
  rintro before now k after rfl
  have hk : k ∈ keys := hkeys now k (by simp)
  have hsub : (busy window before k now).dedup.Subperm (keys.erase k) := by
    refine List.Nodup.subperm (List.nodup_dedup _) fun other hother => ?_
    obtain ⟨hne, time, -, hmem⟩ := mem_busy.mp (List.mem_dedup.mp hother)
    exact (List.mem_erase_of_ne hne).mpr (hkeys time other (List.mem_append_left _ hmem))
  have hpos := List.length_pos_of_mem hk
  have herase := List.length_erase_of_mem hk
  have hle := hsub.length_le
  omega

/-- After calls at times in their order, as long as the table has room for the keys in the window: a key is
refused exactly when `limit` of its recorded hits lie in the window, whatever was forgotten; it is let in again
after the seconds it is told, and not before; and the table stays within its bound. -/
theorem limiter_exact (window : Window) (hlimit : 0 < window.limit)
    (hclock : (calls.map (·.1)).Pairwise (· ≤ ·)) (hroom : Tracks.Roomy window calls)
    (hnow : ∀ call ∈ calls, call.1 ≤ now) (key : String) :
    ((∃ refused, ((calls.foldl Limiter.after ⟨window, []⟩).check key now).2 = .error refused) ↔
      window.limit ≤ (recorded calls key).countP (now - window.periodMs < ·)) ∧
    (∀ refused, ((calls.foldl Limiter.after ⟨window, []⟩).check key now).2 = .error refused →
      ∀ seconds : Nat, 0 < seconds →
        ((((calls.foldl Limiter.after ⟨window, []⟩).check key now).1.check key (now + 1000 * seconds)).2 = .ok () ↔
          refused.retryAfterSeconds ≤ seconds)) ∧
    (calls.foldl Limiter.after ⟨window, []⟩).keys.length ≤ maxKeys := by
  have htracks := Tracks.run hclock hroom hnow
  exact ⟨htracks.refused_iff hlimit, fun _ hrefused _ hpos => htracks.retry_iff hlimit hrefused hpos,
    htracks.bounded⟩

end

/-- Two hits within a minute, of which one is allowed. -/
theorem limiter_exact_pair :
    let calls : List (Int × LimiterCall) := [(0, .record "a"), (10, .check "b"), (20, .record "a")]
    ((∃ refused, ((calls.foldl Limiter.after ⟨⟨1, 60000⟩, []⟩).check "a" 20).2 = .error refused) ↔
      1 ≤ (recorded calls "a").countP (20 - 60000 < ·)) ∧
    (∀ refused, ((calls.foldl Limiter.after ⟨⟨1, 60000⟩, []⟩).check "a" 20).2 = .error refused →
      ∀ seconds : Nat, 0 < seconds →
        ((((calls.foldl Limiter.after ⟨⟨1, 60000⟩, []⟩).check "a" 20).1.check "a" (20 + 1000 * seconds)).2 = .ok () ↔
          refused.retryAfterSeconds ≤ seconds)) ∧
    (calls.foldl Limiter.after ⟨⟨1, 60000⟩, []⟩).keys.length ≤ maxKeys := by
  intro calls
  have hclock : (calls.map (·.1)).Pairwise (· ≤ ·) := by decide
  have hnow : ∀ call ∈ calls, call.1 ≤ 20 := by simp [calls]
  have hroom : Tracks.Roomy ⟨1, 60000⟩ calls := by
    refine roomy_of_keys (show ["a"].length ≤ maxKeys by simp [maxKeys]) fun time k hmem => ?_
    simp only [calls, List.mem_cons, Prod.mk.injEq, LimiterCall.record.injEq, reduceCtorEq, and_false,
      List.not_mem_nil, or_false, false_or] at hmem
    obtain ⟨-, rfl⟩ | ⟨-, rfl⟩ := hmem <;> exact List.mem_singleton_self _
  exact limiter_exact ⟨1, 60000⟩ (by decide) hclock hroom hnow "a"

end Bmac.Bmacd
