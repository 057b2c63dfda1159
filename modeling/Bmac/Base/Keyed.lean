import Mathlib.Tactic

/-!
# Lists with one element for each key

A list is read and changed by the first element that has a key. `Unique` lists have at most one, and
what is done to them is a function of each key's element: `find_modifyFirst`, `find_append_singleton`,
`find_filter`, `find_map`, and `find_foldl` for a run of such changes.
-/

namespace Bmac.Base.Keyed

variable {α β κ σ : Type} [DecidableEq κ] {key : α → κ} {l : List α} {a : α} {k : κ}

def modifyFirst (p : α → Bool) (f : α → α) : List α → List α
  | [] => []
  | a :: l => if p a then f a :: l else a :: modifyFirst p f l

def find (key : α → κ) (k : κ) (l : List α) : Option α := l.find? (key · = k)

abbrev Unique (key : α → κ) (l : List α) : Prop := (l.map key).Nodup

theorem find_cons (key : α → κ) (k : κ) (a : α) (l : List α) :
    find key k (a :: l) = if key a = k then some a else find key k l := by
  unfold find
  rw [List.find?_cons]
  by_cases h : key a = k <;> simp [h]

theorem mem_of_find (h : find key k l = some a) : a ∈ l ∧ key a = k :=
  ⟨List.mem_of_find?_eq_some h, by simpa using List.find?_some h⟩

theorem find_eq_none_iff : find key k l = none ↔ ∀ a ∈ l, key a ≠ k := by
  unfold find
  rw [List.find?_eq_none]
  simp

theorem find_isSome_iff : (find key k l).isSome = true ↔ k ∈ l.map key := by
  rw [Option.isSome_iff_ne_none, Ne, find_eq_none_iff]
  simp

theorem find_of_mem (hu : Unique key l) (h : a ∈ l) : find key (key a) l = some a := by
  induction l with
  | nil => cases h
  | cons b l ih =>
    rw [find_cons]
    obtain ⟨hb, hl⟩ := List.nodup_cons.mp hu
    rcases List.mem_cons.mp h with rfl | h
    · rw [if_pos rfl]
    · rw [if_neg fun he : key b = key a => hb (he ▸ List.mem_map_of_mem h)]
      exact ih hl h

/-- An element is the only one with its key. -/
theorem filter_of_mem (hu : Unique key l) (h : a ∈ l) : l.filter (key · = key a) = [a] := by
  induction l with
  | nil => cases h
  | cons b l ih =>
    obtain ⟨hb, hl⟩ := List.nodup_cons.mp hu
    by_cases hkey : key b = key a
    · have hnil : l.filter (key · = key a) = [] := by
        refine List.filter_eq_nil_iff.mpr fun c hc hsame => hb ?_
        exact List.mem_map.mpr ⟨c, hc, by simpa [hkey] using hsame⟩
      rcases List.mem_cons.mp h with rfl | h
      · simp [hnil]
      · exact absurd (List.mem_map.mpr ⟨a, h, hkey.symm⟩) hb
    · rcases List.mem_cons.mp h with rfl | h
      · exact absurd rfl hkey
      · rw [List.filter_cons_of_neg (by simpa using hkey), ih hl h]

/-! ## Changes -/

variable {f : α → α} {p : α → Bool}

theorem mem_modifyFirst {b : α} (h : b ∈ modifyFirst p f l) :
    b ∈ l ∨ ∃ a ∈ l, p a = true ∧ b = f a := by
  induction l with
  | nil => cases h
  | cons a l ih =>
    unfold modifyFirst at h
    split at h
    · rename_i hp
      rcases List.mem_cons.mp h with rfl | h
      · exact .inr ⟨a, List.mem_cons_self .., hp, rfl⟩
      · exact .inl (List.mem_cons_of_mem _ h)
    · rcases List.mem_cons.mp h with rfl | h
      · exact .inl (List.mem_cons_self ..)
      · rcases ih h with h | ⟨b', hb, hp, heq⟩
        · exact .inl (List.mem_cons_of_mem _ h)
        · exact .inr ⟨b', List.mem_cons_of_mem _ hb, hp, heq⟩

theorem mem_modifyFirst_of_mem (h : a ∈ l) : a ∈ modifyFirst p f l ∨ f a ∈ modifyFirst p f l := by
  induction l with
  | nil => cases h
  | cons b l ih =>
    unfold modifyFirst
    split
    · rcases List.mem_cons.mp h with rfl | h
      · exact .inr (List.mem_cons_self ..)
      · exact .inl (List.mem_cons_of_mem _ h)
    · rcases List.mem_cons.mp h with rfl | h
      · exact .inl (List.mem_cons_self ..)
      · exact (ih h).imp (List.mem_cons_of_mem _) (List.mem_cons_of_mem _)

omit [DecidableEq κ] in
theorem mem_modifyFirst_of_neg (h : a ∈ l) (hp : p a = false) : a ∈ modifyFirst p f l := by
  induction l with
  | nil => cases h
  | cons b l ih =>
    unfold modifyFirst
    rcases List.mem_cons.mp h with rfl | h
    · rw [if_neg (by simp [hp])]
      exact List.mem_cons_self ..
    · split
      · exact List.mem_cons_of_mem _ h
      · exact List.mem_cons_of_mem _ (ih h)

theorem modifyFirst_eq_modify (p : α → Bool) (f : α → α) (l : List α) :
    modifyFirst p f l = l.modify (l.findIdx p) f := by
  induction l with
  | nil => rfl
  | cons a l ih =>
    unfold modifyFirst
    rw [List.findIdx_cons]
    cases hp : p a with
    | true => rfl
    | false =>
      rw [if_neg (by simp), ih]
      rfl

omit [DecidableEq κ] in
theorem map_key_modifyFirst (hf : ∀ a, key (f a) = key a) (l : List α) :
    (modifyFirst p f l).map key = l.map key := by
  induction l with
  | nil => rfl
  | cons a l ih =>
    unfold modifyFirst
    split
    · rw [List.map_cons, List.map_cons, hf]
    · rw [List.map_cons, List.map_cons, ih]

theorem find_modifyFirst (hf : ∀ a, key (f a) = key a) (k k' : κ) (l : List α) :
    find key k (modifyFirst (key · = k') f l) =
      if k = k' then (find key k l).map f else find key k l := by
  induction l with
  | nil => split <;> rfl
  | cons a l ih =>
    unfold modifyFirst
    rw [find_cons]
    by_cases ha : key a = k'
    · rw [if_pos (by simpa using ha), find_cons, hf]
      by_cases hk : k = k'
      · rw [if_pos (ha.trans hk.symm), if_pos hk, if_pos (ha.trans hk.symm)]
        rfl
      · rw [if_neg fun h => hk (h.symm.trans ha), if_neg hk, if_neg fun h => hk (h.symm.trans ha)]
    · rw [if_neg (by simpa using ha), find_cons, ih]
      by_cases hk : k = k'
      · subst hk
        rw [if_neg ha, if_pos rfl, if_pos rfl, if_neg ha]
      · rw [if_neg hk, if_neg hk]

theorem find_modifyFirst_of (hf : ∀ a, key (f a) = key a)
    (hu : Unique key l) (h : l.find? p = some a) (k : κ) :
    find key k (modifyFirst p f l) = if key a = k then some (f a) else find key k l := by
  induction l with
  | nil => cases h
  | cons b l ih =>
    obtain ⟨hb, hl⟩ := List.nodup_cons.mp hu
    unfold modifyFirst
    rw [List.find?_cons] at h
    cases hp : p b with
    | true =>
      rw [hp] at h
      obtain rfl := Option.some.inj h
      rw [if_pos rfl, find_cons, hf, find_cons]
      by_cases hk : key b = k
      · rw [if_pos hk, if_pos hk]
      · rw [if_neg hk, if_neg hk, if_neg hk]
    | false =>
      rw [hp] at h
      rw [if_neg (by simp), find_cons, ih hl h, find_cons]
      by_cases hk : key a = k
      · have hne : key b ≠ k := fun hbk => hb (by
          rw [hbk, ← hk]
          exact List.mem_map_of_mem (List.mem_of_find?_eq_some h))
        rw [if_neg hne, if_pos hk, if_pos hk]
      · rw [if_neg hk, if_neg hk]

theorem find_append_singleton (key : α → κ) (k : κ) (a : α) (l : List α) :
    find key k (l ++ [a]) = (find key k l).or (if key a = k then some a else none) := by
  unfold find
  rw [List.find?_append]
  by_cases h : key a = k <;> simp [h]

theorem unique_append_singleton (hu : Unique key l) (h : find key (key a) l = none) :
    Unique key (l ++ [a]) := by
  unfold Unique
  rw [List.map_append, List.nodup_append']
  refine ⟨hu, List.nodup_singleton _, ?_⟩
  rw [List.map_singleton, List.disjoint_singleton]
  intro hmem
  obtain ⟨b, hb, hkey⟩ := List.mem_map.mp hmem
  exact find_eq_none_iff.mp h b hb hkey

omit [DecidableEq κ] in
theorem unique_filter (p : α → Bool) (hu : Unique key l) : Unique key (l.filter p) :=
  hu.sublist (List.filter_sublist.map key)

theorem find_filter (p : α → Bool) (hu : Unique key l) (k : κ) :
    find key k (l.filter p) = (find key k l).filter p := by
  induction l with
  | nil => rfl
  | cons a l ih =>
    obtain ⟨ha, hl⟩ := List.nodup_cons.mp hu
    rw [List.filter_cons, find_cons]
    by_cases hk : key a = k
    · subst hk
      rw [if_pos rfl]
      by_cases hp : p a = true
      · rw [if_pos hp, find_cons, if_pos rfl, Option.filter_some, if_pos hp]
      · rw [if_neg hp, Option.filter_some, if_neg hp, find_eq_none_iff]
        intro b hb hkey
        exact ha (hkey ▸ List.mem_map_of_mem (List.mem_of_mem_filter hb))
    · rw [if_neg hk]
      split
      · rw [find_cons, if_neg hk, ih hl]
      · exact ih hl

omit [DecidableEq κ] in
theorem map_key_map (hf : ∀ a, key (f a) = key a) (l : List α) : (l.map f).map key = l.map key := by
  rw [List.map_map]
  exact List.map_congr_left fun a _ => hf a

theorem find_map (hf : ∀ a, key (f a) = key a) (k : κ) (l : List α) :
    find key k (l.map f) = (find key k l).map f := by
  induction l with
  | nil => rfl
  | cons a l ih =>
    rw [List.map_cons, find_cons, find_cons, hf, ih]
    split <;> rfl

/-- A run of changes, at most one for each key: each key's value is changed once. -/
theorem find_foldl {γ : Type} {ckey : β → κ} (step : σ → β → σ) (get : σ → κ → γ) (g : β → γ → γ)
    (hstep : ∀ s c k, get (step s c) k = if ckey c = k then g c (get s k) else get s k)
    (cs : List β) (hu : Unique ckey cs) (s : σ) (k : κ) :
    get (cs.foldl step s) k = (find ckey k cs).elim (get s k) fun c => g c (get s k) := by
  induction cs generalizing s with
  | nil => rfl
  | cons c cs ih =>
    obtain ⟨hc, hcs⟩ := List.nodup_cons.mp hu
    rw [List.foldl_cons, ih hcs, hstep, find_cons]
    by_cases hk : ckey c = k
    · rw [if_pos hk, if_pos hk, find_eq_none_iff.mpr fun b hb hkey => hc (by
        rw [hk, ← hkey]
        exact List.mem_map_of_mem hb)]
      rfl
    · rw [if_neg hk, if_neg hk]

/-! ## What each key gives -/

omit [DecidableEq κ] in
theorem filterMap_or_perm {F G : κ → Option β} (ks : List κ)
    (h : ∀ k ∈ ks, F k = none ∨ G k = none) :
    (ks.filterMap fun k => (F k).or (G k)).Perm (ks.filterMap F ++ ks.filterMap G) := by
  induction ks with
  | nil => exact .nil
  | cons k ks ih =>
    have ih := ih fun k hk => h k (List.mem_cons_of_mem _ hk)
    rw [List.filterMap_cons, List.filterMap_cons, List.filterMap_cons]
    cases hF : F k with
    | some b =>
      have hG : G k = none := by
        rcases h k (List.mem_cons_self ..) with h | h
        · rw [hF] at h
          cases h
        · exact h
      rw [hG]
      exact .cons b ih
    | none =>
      cases hG : G k with
      | none => exact ih
      | some b => exact (List.Perm.cons b ih).trans List.perm_middle.symm

omit [DecidableEq κ] in
/-- Two lists of different keys give the same, if they have the keys that give something. -/
theorem filterMap_perm {F : κ → Option β} {ks ks' : List κ} (hks : ks.Nodup) (hks' : ks'.Nodup)
    (h : ∀ k, (F k).isSome = true → (k ∈ ks ↔ k ∈ ks')) :
    (ks.filterMap F).Perm (ks'.filterMap F) := by
  have hgives : ∀ ks : List κ, ks.filterMap F = (ks.filter fun k => (F k).isSome).filterMap F := by
    intro ks
    rw [List.filterMap_filter]
    refine List.filterMap_congr fun k _ => ?_
    cases F k <;> rfl
  rw [hgives ks, hgives ks']
  refine List.Perm.filterMap F ((List.perm_ext_iff_of_nodup (hks.filter _) (hks'.filter _)).mpr ?_)
  intro k
  rw [List.mem_filter, List.mem_filter]
  constructor
  · rintro ⟨hk, hF⟩
    exact ⟨(h k hF).mp hk, hF⟩
  · rintro ⟨hk, hF⟩
    exact ⟨(h k hF).mpr hk, hF⟩

end Bmac.Base.Keyed
