import Mathlib.Tactic

/-!
# The newest value of each key

A table filled by `entry(k).or_insert(v)` and raised whenever a larger value of the same key
arrives. `mem_newest` says what it holds at the end: each key with the largest of its values.
-/

namespace Bmac.Base

variable {κ ν : Type} [DecidableEq κ] [LinearOrder ν]

/-- The table after `v` arrives for `k`. -/
def raise : List (κ × ν) → κ → ν → List (κ × ν)
  | [], k, v => [(k, v)]
  | (k', v') :: t, k, v =>
    if k = k' then (k', if v > v' then v else v') :: t else (k', v') :: raise t k v

theorem raise_nil (k : κ) (v : ν) : raise [] k v = [(k, v)] := rfl

theorem raise_cons (k' : κ) (v' : ν) (t : List (κ × ν)) (k : κ) (v : ν) : raise ((k', v') :: t) k v =
    if k = k' then (k', if v > v' then v else v') :: t else (k', v') :: raise t k v := rfl

def newest (xs : List (κ × ν)) : List (κ × ν) :=
  xs.foldl (fun t x => raise t x.1 x.2) []

theorem newest_snoc (xs : List (κ × ν)) (x : κ × ν) :
    newest (xs ++ [x]) = raise (newest xs) x.1 x.2 := by
  simp [newest]

variable {t : List (κ × ν)} {k : κ} {v : ν}

theorem mem_keys_raise {k' : κ} :
    k' ∈ (raise t k v).map Prod.fst ↔ k' = k ∨ k' ∈ t.map Prod.fst := by
  induction t with
  | nil => simp [raise_nil]
  | cons x t ih =>
    obtain ⟨k0, v0⟩ := x
    by_cases hk : k = k0
    · subst hk; simp [raise_cons]
    · simp only [raise_cons, hk, ↓reduceIte, List.map_cons, List.mem_cons, ih]
      tauto

theorem nodup_raise (h : (t.map Prod.fst).Nodup) (k : κ) (v : ν) :
    ((raise t k v).map Prod.fst).Nodup := by
  induction t with
  | nil => simp [raise_nil]
  | cons x t ih =>
    obtain ⟨k0, v0⟩ := x
    simp only [List.map_cons, List.nodup_cons] at h
    by_cases hk : k = k0
    · subst hk; simpa [raise_cons] using h
    · simp only [raise_cons, hk, ↓reduceIte, List.map_cons, List.nodup_cons, mem_keys_raise]
      exact ⟨by rintro (rfl | h'); exacts [hk rfl, h.1 h'], ih h.2⟩

theorem nodup_newest (xs : List (κ × ν)) : ((newest xs).map Prod.fst).Nodup := by
  induction xs using List.reverseRecOn with
  | nil => simp [newest]
  | append_singleton xs x ih => rw [newest_snoc]; exact nodup_raise ih _ _

theorem mem_raise_ne {k' : κ} {v' : ν} (hk : k' ≠ k) : (k', v') ∈ raise t k v ↔ (k', v') ∈ t := by
  induction t with
  | nil => simp [raise_nil, hk]
  | cons x t ih =>
    obtain ⟨k0, v0⟩ := x
    by_cases h0 : k = k0
    · subst h0; simp [raise_cons, hk]
    · simp only [raise_cons, h0, ↓reduceIte, List.mem_cons, ih]

/-- The raised key holds the larger of what arrived and what was there. -/
theorem mem_raise_self (hn : (t.map Prod.fst).Nodup) {w : ν} :
    (k, w) ∈ raise t k v ↔
      (w = v ∧ ∀ v', (k, v') ∈ t → v' ≤ v) ∨ ((k, w) ∈ t ∧ v ≤ w) := by
  induction t with
  | nil => simp [raise_nil]
  | cons x t ih =>
    obtain ⟨k0, v0⟩ := x
    simp only [List.map_cons, List.nodup_cons] at hn
    by_cases hk : k = k0
    · subst hk
      have hno : ∀ u, (k, u) ∉ t := fun u hu => hn.1 (List.mem_map_of_mem (f := Prod.fst) hu)
      by_cases hv : v > v0
      · simp only [raise_cons, ↓reduceIte, hv, List.mem_cons, Prod.mk.injEq, true_and, hno, or_false]
        constructor
        · rintro rfl; exact .inl ⟨rfl, fun v' h' => h' ▸ hv.le⟩
        · rintro (⟨rfl, -⟩ | ⟨rfl, h'⟩)
          · rfl
          · exact absurd h' (not_le.mpr hv)
      · simp only [raise_cons, ↓reduceIte, hv, List.mem_cons, Prod.mk.injEq, true_and, hno, or_false]
        constructor
        · rintro rfl; exact .inr ⟨rfl, not_lt.mp hv⟩
        · rintro (⟨rfl, h'⟩ | ⟨rfl, -⟩)
          · exact le_antisymm (not_lt.mp hv) (h' v0 rfl)
          · rfl
    · simp only [raise_cons, hk, ↓reduceIte, List.mem_cons, Prod.mk.injEq, false_and, false_or, ih hn.2]

theorem exists_largest {xs : List (κ × ν)} (h : (k, v) ∈ xs) :
    ∃ m, (k, m) ∈ xs ∧ ∀ v', (k, v') ∈ xs → v' ≤ m := by
  induction xs generalizing v with
  | nil => cases h
  | cons x xs ih =>
    by_cases hx : ∃ u, (k, u) ∈ xs
    · obtain ⟨u, hu⟩ := hx
      obtain ⟨m, hm, hmax⟩ := ih hu
      obtain ⟨k0, v0⟩ := x
      by_cases hk : k = k0 ∧ m < v0
      · obtain ⟨rfl, hlt⟩ := hk
        refine ⟨v0, List.mem_cons_self .., fun v' h' => ?_⟩
        rcases List.mem_cons.mp h' with h' | h'
        · exact (congrArg Prod.snd h').le
        · exact (hmax v' h').trans hlt.le
      · refine ⟨m, List.mem_cons_of_mem _ hm, fun v' h' => ?_⟩
        rcases List.mem_cons.mp h' with h' | h'
        · obtain ⟨rfl, rfl⟩ := Prod.mk.inj h'
          exact not_lt.mp fun hlt => hk ⟨rfl, hlt⟩
        · exact hmax v' h'
    · refine ⟨v, h, fun v' h' => ?_⟩
      rcases List.mem_cons.mp h with rfl | h
      · rcases List.mem_cons.mp h' with h' | h'
        · exact (congrArg Prod.snd h').le
        · exact (hx ⟨v', h'⟩).elim
      · exact (hx ⟨v, h⟩).elim

/-- The table holds, for each key that arrived, the largest value that came with it. -/
theorem mem_newest {xs : List (κ × ν)} :
    (k, v) ∈ newest xs ↔ (k, v) ∈ xs ∧ ∀ v', (k, v') ∈ xs → v' ≤ v := by
  induction xs using List.reverseRecOn generalizing v with
  | nil => simp [newest]
  | append_singleton xs x ih =>
    obtain ⟨k0, v0⟩ := x
    rw [newest_snoc]
    by_cases hk : k = k0
    · subst hk
      rw [mem_raise_self (nodup_newest xs)]
      simp only [List.mem_append, List.mem_singleton, Prod.mk.injEq, true_and]
      constructor
      · rintro (⟨rfl, hmax⟩ | ⟨hmem, hle⟩)
        · refine ⟨.inr rfl, ?_⟩
          rintro v' (h' | rfl)
          · -- the largest value so far is in the table, and `v` is at least that one
            obtain ⟨m, hm, hm'⟩ := exists_largest h'
            exact (hm' v' h').trans (hmax m (ih.mpr ⟨hm, hm'⟩))
          · exact le_rfl
        · refine ⟨.inl (ih.mp hmem).1, ?_⟩
          rintro v' (h' | rfl)
          · exact (ih.mp hmem).2 v' h'
          · exact hle
      · rintro ⟨hv | rfl, hmax⟩
        · exact .inr ⟨ih.mpr ⟨hv, fun v' h' => hmax v' (.inl h')⟩, hmax v0 (.inr rfl)⟩
        · exact .inl ⟨rfl, fun v' h' => hmax v' (.inl (ih.mp h').1)⟩
    · rw [mem_raise_ne hk, ih]
      simp [hk]

end Bmac.Base
