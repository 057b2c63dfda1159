import Mathlib.Tactic

/-!
# Sliding-window limits

`bmacd/src/auth/limits.rs`: limits on attempts, per source address and per user name. A limiter keeps
the times of each key's last hits, `limit` of them at most, and forgets keys when it holds too many.
A time is an integer, and where the keys idle longest tie, the table's order decides, which the source
leaves open.
-/

namespace Bmac.Bmacd

/-- Keys tracked at once; past this, the key idle longest is forgotten. -/
def maxKeys : Nat := 10000

structure Window where
  limit : Nat
  periodMs : Int

structure Limited where
  retryAfterSeconds : Nat
  /-- The first refusal since the key became limited, so it is audited once. -/
  first : Bool

structure Hits where
  times : List Int := []
  announced : Bool := false

structure Limiter where
  window : Window
  keys : List (String × Hits) := []

namespace Limiter

def hits? (l : Limiter) (key : String) : Option Hits := l.keys.lookup key

def setHits (l : Limiter) (key : String) (hits : Hits) : Limiter :=
  if (l.hits? key).isSome then
    { l with keys := l.keys.map fun entry => if entry.1 = key then (key, hits) else entry }
  else { l with keys := l.keys ++ [(key, hits)] }

/-- Refuses when `key` already has `limit` hits within the window. -/
def check (l : Limiter) (key : String) (now : Int) : Limiter × Except Limited Unit :=
  match l.hits? key with
  | none => (l, .ok ())
  | some hits =>
    let times := hits.times.dropWhile (· ≤ now - l.window.periodMs)
    if times.length < l.window.limit then (l.setHits key ⟨times, false⟩, .ok ())
    else
      let oldest := times.head?.getD now
      let waitMs := max (oldest + l.window.periodMs - now) 1000
      (l.setHits key ⟨times, true⟩, .error ⟨(waitMs.toNat + 999) / 1000, !hits.announced⟩)

def idle : List (String × Hits) → Option (String × Int)
  | [] => none
  | (key, hits) :: rest =>
    let last := hits.times.getLast?.getD 0
    match idle rest with
    | some (other, time) => if last ≤ time then some (key, last) else some (other, time)
    | none => some (key, last)

def forgetOne (l : Limiter) (now : Int) : Limiter :=
  let keys := l.keys.filter fun entry => entry.2.times.getLast?.any (now - l.window.periodMs < ·)
  if maxKeys ≤ keys.length then
    match idle keys with
    | some (key, _) => { l with keys := keys.filter (·.1 ≠ key) }
    | none => { l with keys }
  else { l with keys }

def record (l : Limiter) (key : String) (now : Int) : Limiter :=
  let l := if (l.hits? key).isNone ∧ maxKeys ≤ l.keys.length then l.forgetOne now else l
  let hits := (l.hits? key).getD {}
  let times := hits.times ++ [now]
  l.setHits key { hits with times := times.drop (times.length - l.window.limit) }

/-- The times of the hits that `key` has. -/
def times (l : Limiter) (key : String) : List Int := ((l.hits? key).map (·.times)).getD []

variable {l : Limiter} {key k : String} {now : Int} {hits : Hits}

theorem lookup_cons_ite {α : Type} (other : String) (a : α) (rest : List (String × α)) :
    ((other, a) :: rest).lookup key = if key = other then some a else rest.lookup key := by
  rw [List.lookup_cons]
  by_cases h : key = other
  · simp [h]
  · rw [if_neg h, beq_false_of_ne h]

theorem lookup_map_set {α : Type} (a : α) (entries : List (String × α)) :
    (entries.map fun entry => if entry.1 = k then (k, a) else entry).lookup key =
      if key = k then (entries.lookup k).map fun _ => a else entries.lookup key := by
  induction entries with
  | nil => simp
  | cons entry rest ih =>
    obtain ⟨other, old⟩ := entry
    rw [List.map_cons]
    by_cases hother : other = k
    · subst hother
      rw [if_pos rfl, lookup_cons_ite, lookup_cons_ite, lookup_cons_ite, ih, if_pos rfl]
      by_cases hkey : key = other <;> simp [hkey]
    · rw [if_neg hother, lookup_cons_ite, lookup_cons_ite, lookup_cons_ite, ih,
        if_neg (Ne.symm hother)]
      by_cases hkey : key = k
      · subst hkey
        simp [Ne.symm hother]
      · simp [hkey]

theorem hits?_setHits : (l.setHits k hits).hits? key = if key = k then some hits else l.hits? key := by
  unfold setHits hits?
  cases hold : l.keys.lookup k with
  | some old =>
    show (List.map _ l.keys).lookup key = _
    rw [lookup_map_set, hold]
    rfl
  | none =>
    show (l.keys ++ [(k, hits)]).lookup key = _
    rw [List.lookup_append, lookup_cons_ite]
    by_cases hkey : key = k
    · subst hkey
      simp [hold]
    · simp [hkey]

theorem times_setHits : (l.setHits k hits).times key = if key = k then hits.times else l.times key := by
  unfold times
  rw [hits?_setHits]
  split <;> rfl

@[simp] theorem setHits_window : (l.setHits k hits).window = l.window := by
  unfold setHits
  split <;> rfl

@[simp] theorem check_window : (l.check k now).1.window = l.window := by
  unfold check
  split
  · rfl
  · dsimp only
    split <;> exact setHits_window

@[simp] theorem forgetOne_window : (l.forgetOne now).window = l.window := by
  unfold forgetOne
  dsimp only
  split
  · split <;> rfl
  · rfl

@[simp] theorem record_window : (l.record k now).window = l.window := by
  unfold record
  dsimp only
  split
  · rw [setHits_window, forgetOne_window]
  · rw [setHits_window]

theorem times_check : (l.check k now).1.times key =
    if key = k then (l.times k).dropWhile (· ≤ now - l.window.periodMs) else l.times key := by
  unfold check
  split
  · next hnone =>
    split
    · next hkey =>
      subst hkey
      simp [times, hnone]
    · rfl
  · next old hold =>
    have hk : l.times k = old.times := by simp [times, hold]
    dsimp only
    rw [hk]
    split <;> exact times_setHits

/-- Where no key is forgotten and the key has fewer hits than the limit, a hit is added. -/
theorem times_record (hroom : (l.hits? k).isSome ∨ l.keys.length < maxKeys)
    (hlt : (l.times k).length < l.window.limit) :
    (l.record k now).times key = if key = k then l.times k ++ [now] else l.times key := by
  have hkeep : ¬ ((l.hits? k).isNone ∧ maxKeys ≤ l.keys.length) := by
    rintro ⟨hnone, hfull⟩
    rcases hroom with hsome | hroom
    · simp [Option.isNone_iff_eq_none.mp hnone] at hsome
    · omega
  have hold : ((l.hits? k).getD {}).times = l.times k := by
    unfold times
    cases l.hits? k <;> rfl
  have hdrop : (l.times k ++ [now]).length - l.window.limit = 0 := by
    rw [List.length_append, List.length_singleton]
    omega
  unfold record
  rw [if_neg hkeep]
  dsimp only
  rw [times_setHits, hold, hdrop, List.drop_zero]

end Limiter

end Bmac.Bmacd
