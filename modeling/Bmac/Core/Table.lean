import Mathlib.Tactic

/-!
# Maps with ordered keys

A `BTreeMap`: its entries in the order of their keys, each key once.
-/

namespace Bmac.Core

abbrev Table (κ α : Type) := List (κ × α)

namespace Table

variable {κ α : Type} [LinearOrder κ]

def get? (t : Table κ α) (key : κ) : Option α := t.lookup key

def insert (t : Table κ α) (key : κ) (value : α) : Table κ α :=
  match t with
  | [] => [(key, value)]
  | (k, v) :: rest =>
    if key < k then (key, value) :: (k, v) :: rest
    else if key = k then (key, value) :: rest
    else (k, v) :: insert rest key value

def erase (t : Table κ α) (key : κ) : Table κ α := t.filter (·.1 ≠ key)

def values (t : Table κ α) : List α := t.map (·.2)

/-- `collect` into a map: a later entry of a key replaces an earlier one. -/
def ofList (entries : List (κ × α)) : Table κ α :=
  entries.foldl (fun t (k, v) => insert t k v) []

theorem get?_cons (k : κ) (v : α) (t : Table κ α) (key : κ) :
    get? ((k, v) :: t) key = if key = k then some v else get? t key := by
  unfold get?
  rw [List.lookup_cons]
  by_cases h : key = k
  · simp [h]
  · simp [h, beq_eq_false_iff_ne.mpr h]

theorem get?_insert (t : Table κ α) (key key' : κ) (value : α) :
    get? (insert t key value) key' = if key' = key then some value else get? t key' := by
  induction t with
  | nil => rw [insert, get?_cons]
  | cons entry rest ih =>
    obtain ⟨k, v⟩ := entry
    unfold insert
    split
    · rw [get?_cons]
    · split
      · rename_i hk
        subst hk
        rw [get?_cons, get?_cons]
        split <;> rfl
      · rename_i hk
        rw [get?_cons, get?_cons, ih]
        by_cases hkey : key' = k
        · have hne : k ≠ key := fun h => hk h.symm
          rw [if_pos hkey, if_pos hkey, hkey, if_neg hne]
        · simp [hkey]

theorem get?_erase (t : Table κ α) (key key' : κ) :
    get? (erase t key) key' = if key' = key then none else get? t key' := by
  induction t with
  | nil => simp [erase, get?]
  | cons entry rest ih =>
    obtain ⟨k, v⟩ := entry
    unfold erase at ih ⊢
    rw [List.filter_cons]
    by_cases hk : k = key
    · rw [if_neg (by simpa using hk), ih, get?_cons, hk]
      split <;> rfl
    · rw [if_pos (by simpa using hk), get?_cons, get?_cons, ih]
      by_cases hkey : key' = k
      · rw [if_pos hkey, if_pos hkey, hkey, if_neg hk]
      · rw [if_neg hkey, if_neg hkey]

variable {t : Table κ α} {key : κ} {value : α} {entry : κ × α}

theorem mem_insert (h : entry ∈ insert t key value) : entry = (key, value) ∨ entry ∈ t := by
  induction t with
  | nil => exact .inl (List.mem_singleton.mp h)
  | cons first rest ih =>
    obtain ⟨k, v⟩ := first
    unfold insert at h
    split at h
    · exact List.mem_cons.mp h
    · split at h
      · rcases List.mem_cons.mp h with rfl | h
        · exact .inl rfl
        · exact .inr (List.mem_cons_of_mem _ h)
      · rcases List.mem_cons.mp h with rfl | h
        · exact .inr (List.mem_cons_self ..)
        · rcases ih h with rfl | h
          · exact .inl rfl
          · exact .inr (List.mem_cons_of_mem _ h)

theorem mem_erase (h : entry ∈ erase t key) : entry ∈ t :=
  (List.mem_filter.mp h).1

theorem mem_of_get? (h : get? t key = some value) : (key, value) ∈ t := by
  induction t with
  | nil => cases h
  | cons first rest ih =>
    obtain ⟨k, v⟩ := first
    rw [get?_cons] at h
    split at h
    · rename_i hk
      cases h
      rw [hk]
      exact List.mem_cons_self ..
    · exact List.mem_cons_of_mem _ (ih h)

/-- Each key once, in order. -/
def Sorted (t : Table κ α) : Prop := (t.map (·.1)).Pairwise (· < ·)

theorem sorted_nil : Sorted ([] : Table κ α) := List.Pairwise.nil

theorem sorted_cons : Sorted (entry :: t) ↔ (∀ e ∈ t, entry.1 < e.1) ∧ Sorted t := by
  rw [Sorted, List.map_cons, List.pairwise_cons]
  exact and_congr_left fun _ => List.forall_mem_map

theorem Sorted.erase {t : Table κ α} (h : Sorted t) (key : κ) : Sorted (erase t key) :=
  h.sublist (List.filter_sublist.map _)

/-- A key's entry comes in place of the earlier one. -/
theorem insert_perm (h : Sorted t) (key : κ) (value : α) :
    (insert t key value).Perm ((key, value) :: erase t key) := by
  have hlater : ∀ {rest : Table κ α}, (∀ e ∈ rest, key < e.1) → Table.erase rest key = rest :=
    fun h => List.filter_eq_self.mpr fun e he => by simpa using (h e he).ne'
  induction t with
  | nil => exact List.Perm.refl _
  | cons entry rest ih =>
    obtain ⟨k, v⟩ := entry
    obtain ⟨hk, hrest⟩ := sorted_cons.mp h
    unfold insert
    split
    · rename_i hlt
      rw [@hlater ((k, v) :: rest)]
      intro e he
      rcases List.mem_cons.mp he with rfl | he
      · exact hlt
      · exact hlt.trans (hk e he)
    · split
      · rename_i heq
        subst heq
        have hdrop : Table.erase ((key, v) :: rest) key = rest := by
          rw [Table.erase, List.filter_cons_of_neg (by simp)]
          exact hlater hk
        rw [hdrop]
      · rename_i hne
        have hkeep : Table.erase ((k, v) :: rest) key = (k, v) :: Table.erase rest key :=
          List.filter_cons_of_pos (by simpa using fun h => hne h.symm)
        rw [hkeep]
        exact ((ih hrest).cons _).trans (List.Perm.swap ..)

theorem Sorted.insert {t : Table κ α} (h : Sorted t) (key : κ) (value : α) :
    Sorted (insert t key value) := by
  induction t with
  | nil => exact List.pairwise_singleton _ _
  | cons entry rest ih =>
    obtain ⟨k, v⟩ := entry
    obtain ⟨hk, hrest⟩ := sorted_cons.mp h
    unfold Table.insert
    split
    · rename_i hlt
      refine sorted_cons.mpr ⟨fun e he => ?_, h⟩
      rcases List.mem_cons.mp he with rfl | he
      · exact hlt
      · exact hlt.trans (hk e he)
    · split
      · rename_i heq
        subst heq
        exact sorted_cons.mpr ⟨hk, hrest⟩
      · rename_i hge hne
        refine sorted_cons.mpr ⟨fun e he => ?_, ih hrest⟩
        rcases mem_insert he with rfl | he
        · exact lt_of_le_of_ne (not_lt.mp hge) (Ne.symm hne)
        · exact hk e he

theorem get?_of_mem (h : Sorted t) (hm : (key, value) ∈ t) : get? t key = some value := by
  induction t with
  | nil => cases hm
  | cons entry rest ih =>
    obtain ⟨k, v⟩ := entry
    obtain ⟨hk, hrest⟩ := sorted_cons.mp h
    rw [get?_cons]
    rcases List.mem_cons.mp hm with heq | hm
    · obtain ⟨rfl, rfl⟩ := Prod.mk.inj heq
      rw [if_pos rfl]
    · rw [if_neg (hk _ hm).ne', ih hrest hm]

theorem get?_eq_some_iff (h : Sorted t) : get? t key = some value ↔ (key, value) ∈ t :=
  ⟨mem_of_get?, get?_of_mem h⟩

end Table

end Bmac.Core
