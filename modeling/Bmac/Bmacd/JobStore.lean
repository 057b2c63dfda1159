import Bmac.Bmacd.JobWrites

/-!
# Saving and pruning job records

What the operations' accesses to the jobs directory do: `find`, `save` and `prune` under the lock,
whichever of them fails. `Pruned` is what a completed prune leaves.
-/

namespace Bmac.Bmacd

open Bmac.Base Bmac.Core

/-! ## The directory and its listing -/

variable {id : JobId}

section Listing

variable {disk : Disk} {records : List JobRecord} {r q : JobRecord}

theorem mem_putRecord (h : (records.map (·.id)).Nodup) :
    q ∈ putRecord r records ↔ q = r ∨ (q ∈ records ∧ q.id ≠ r.id) := by
  induction records with
  | nil => simp [putRecord]
  | cons p records ih =>
    simp only [List.map_cons, List.nodup_cons] at h
    unfold putRecord
    by_cases hp : p.id = r.id
    · have hne : q ∈ records → q.id ≠ r.id := by
        intro hq he
        exact h.1 (hp ▸ he ▸ List.mem_map_of_mem hq)
      simp only [hp, ↓reduceIte, List.mem_cons]
      constructor
      · rintro (rfl | hq)
        · exact .inl rfl
        · exact .inr ⟨.inr hq, hne hq⟩
      · rintro (rfl | ⟨rfl | hq, hid⟩)
        · exact .inl rfl
        · exact absurd hp hid
        · exact .inr hq
    · simp only [hp, ↓reduceIte, List.mem_cons, ih h.2]
      constructor
      · rintro (rfl | rfl | ⟨hq, hid⟩)
        · exact .inr ⟨.inl rfl, hp⟩
        · exact .inl rfl
        · exact .inr ⟨.inr hq, hid⟩
      · rintro (rfl | ⟨rfl | hq, hid⟩)
        · exact .inr (.inl rfl)
        · exact .inl rfl
        · exact .inr (.inr ⟨hq, hid⟩)

theorem nodup_putRecord (h : (records.map (·.id)).Nodup) :
    ((putRecord r records).map (·.id)).Nodup := by
  induction records with
  | nil => simp [putRecord]
  | cons p records ih =>
    simp only [List.map_cons, List.nodup_cons] at h
    unfold putRecord
    by_cases hp : p.id = r.id
    · simp only [hp, ↓reduceIte, List.map_cons, List.nodup_cons]
      exact ⟨hp ▸ h.1, h.2⟩
    · simp only [hp, ↓reduceIte, List.map_cons, List.nodup_cons]
      refine ⟨fun hmem => ?_, ih h.2⟩
      obtain ⟨q, hq, hid⟩ := List.mem_map.mp hmem
      rcases (mem_putRecord h.2).mp hq with rfl | ⟨hq, -⟩
      · exact hp hid.symm
      · exact h.1 (hid ▸ List.mem_map_of_mem hq)

theorem Lists.save (h : Lists disk records) :
    Lists ((Write.saved r).apply disk) (putRecord r records) where
  named := by
    intro id q hq
    rcases Write.saved_apply_eq_some.mp hq with ⟨rfl, rfl⟩ | ⟨-, hq⟩
    · rfl
    · exact h.named id q hq
  nodup := nodup_putRecord h.nodup
  mem := by
    intro q
    rw [mem_putRecord h.nodup, Write.saved_apply_eq_some, h.mem]
    constructor
    · rintro (rfl | ⟨hq, hid⟩)
      · exact .inl ⟨rfl, rfl⟩
      · exact .inr ⟨hid, hq⟩
    · rintro (⟨-, rfl⟩ | ⟨hid, hq⟩)
      · exact .inl rfl
      · exact .inr ⟨hq, hid⟩

theorem Lists.remove (h : Lists disk records) (id : JobId) :
    Lists ((Write.removed id).apply disk) (records.filter (·.id ≠ id)) where
  named := by
    intro id' q hq
    exact h.named id' q (Write.removed_apply_eq_some.mp hq).2
  nodup := h.nodup.sublist (List.filter_sublist.map _)
  mem := by
    intro q
    rw [List.mem_filter, decide_eq_true_eq, Write.removed_apply_eq_some, h.mem, and_comm]

theorem Lists.mem_of_disk (h : Lists disk records) (hr : disk id = some r) : r ∈ records := by
  rw [h.mem, h.named id r hr, hr]

end Listing

/-! ## Storage accesses -/

def Made (jobs : Jobs) (call : Call) (start : Disk) (w : World) : Prop :=
  Run (fun d x d' => Makes jobs call d x ∧ x.apply d = d') start w.writes w.disk

/-- Under the lock: the records in hand are the directory's. -/
structure Held (jobs : Jobs) (call : Call) (start : Disk) (w : World) : Prop where
  lists : Lists w.disk w.records
  made : Made jobs call start w

section Access

variable {jobs : Jobs} {call : Call} {start : Disk} {w : World} {E : ApiError → World → Prop}

theorem wp_access {Q : Unit → World → Prop} {f : World → World}
    (hok : ∀ fs, Q () { f w with faults := fs }) (hbefore : ∀ e fs, E e { w with faults := fs })
    (hafter : ∀ e fs, E e { f w with faults := fs }) : wp (access f) Q E w := by
  unfold access
  simp only [wp_bind, wp_get]
  split
  · rw [wp_set]
    exact hok (f w).faults
  · rw [wp_set]
    exact hok _
  · simp only [wp_bind, wp_set, wp_throw]
    exact hbefore _ _
  · simp only [wp_bind, wp_set, wp_throw]
    exact hafter _ _

theorem Made.write {x : Write} (h : Made jobs call start w) (hx : Makes jobs call w.disk x) :
    Made jobs call start (w.write x) :=
  Run.snoc_iff.mpr ⟨w.disk, h, hx, rfl⟩

theorem wp_find {Q : JobRecord → World → Prop}
    (hl : Lists w.disk w.records) (hQ : ∀ r, w.disk r.id = some r → r.id = id → Q r w)
    (hE : ∀ e, E e w) : wp (Jobs.find id) Q E w := by
  unfold Jobs.find
  simp only [wp_bind, wp_get]
  split
  · rename_i r hr
    rw [wp_pure]
    have hid : r.id = id := by simpa using List.find?_some hr
    exact hQ r ((hl.mem r).mp (List.mem_of_find?_eq_some hr)) hid
  · rw [wp_throw]
    exact hE _

/-- What a completed save did. -/
structure Saved (start : World) (record : JobRecord) (w : World) : Prop where
  disk : w.disk = (Write.saved record).apply start.disk
  writes : w.writes = start.writes ++ [.saved record]
  records : w.records = putRecord record start.records

theorem wp_save {record : JobRecord} (h : Held jobs call start w)
    (hm : (w.disk record.id = none → record.revision = 0) →
      (record.revision = 0 → w.disk record.id = none) →
      Makes jobs call w.disk (.saved record.next)) :
    wp (jobs.save record)
      (fun r w' => r = record.next ∧ Held jobs call start w' ∧ Saved w record.next w' ∧
        Makes jobs call w.disk (.saved record.next))
      (fun _ w' => Made jobs call start w') w := by
  unfold Jobs.save Jobs.writeRecord
  simp only [wp_bind, wp_get, wp_ite, wp_throw, wp_pure, wp_set]
  refine ⟨fun _ => h.made, fun hpos => ⟨fun _ => h.made, fun hrev => ?_⟩⟩
  have hmake : Makes jobs call w.disk (.saved record.next) := by
    refine hm (fun hnone => ?_) (fun hzero => ?_)
    · simpa [hnone, eq_comm] using hrev
    · cases hd : w.disk record.id with
      | none => rfl
      | some c =>
        simp only [hd, hzero] at hrev hpos
        simp [not_not.mp hrev] at hpos
  refine wp_access (fun fs => ?_) (fun _ _ => h.made) (fun _ _ => h.made.write hmake)
  exact ⟨trivial, ⟨h.lists.save, h.made.write hmake⟩, ⟨rfl, rfl, rfl⟩, hmake⟩

theorem wp_locked {α : Type} {body : Op α} {Q : α → World → Prop}
    (hE : ∀ e fs, E e { w with faults := fs })
    (hbody : ∀ fs, wp body (fun a w' => (∀ fs, Q a { w' with faults := fs }) ∧
      ∀ e fs, E e { w' with faults := fs }) E { w with faults := fs }) :
    wp (jobs.locked body) Q E w := by
  unfold Jobs.locked
  simp only [wp_bind, wp_get, wp_pure]
  refine wp_access (fun fs => ?_) hE hE
  rw [wp_ofExcept]
  refine ⟨fun _ _ => ?_, fun e _ => hE e fs⟩
  refine wp_mono (hbody fs) (fun a w' hw' => ?_) (fun _ _ h => h)
  exact wp_access (f := id) (fun fs => hw'.1 fs) (fun e fs => hw'.2 e fs) (fun e fs => hw'.2 e fs)

end Access

/-! ## Pruning -/

/-- A prune left of `before` all unfinished records and the `keep` newest finished ones. -/
structure Pruned (keep : Nat) (before after : Disk) : Prop where
  sub : ∀ id r, after id = some r → before id = some r
  unfinished : ∀ id r, before id = some r → r.state.isTerminal = false → after id = some r
  newer : ∀ id r id' r', before id = some r → after id = none → after id' = some r' →
    r'.state.isTerminal = true → r.age < r'.age
  limit : ∀ records, Lists after records → (records.filter (·.state.isTerminal)).length ≤ keep
  full : ∀ id r records, before id = some r → after id = none → Lists after records →
    (records.filter (·.state.isTerminal)).length = keep

section Prune

variable {jobs : Jobs} {call : Call} {start disk : Disk} {w : World} {records : List JobRecord}

theorem Lists.perm {records' : List JobRecord} (h : Lists disk records)
    (h' : Lists disk records') : records.Perm records' := by
  refine (List.perm_ext_iff_of_nodup ?_ ?_).mpr fun r => by rw [h.mem, h'.mem]
  · exact List.Nodup.of_map _ h.nodup
  · exact List.Nodup.of_map _ h'.nodup

/-- The loop of `prune`, over finished records. -/
theorem wp_removes {ids : List JobId} (h : Held jobs call start w) (hcall : call.prunes = true)
    (hends : ∀ id ∈ ids, ∃ r ∈ w.records, r.id = id ∧ r.state.isTerminal = true)
    (hnd : ids.Nodup) :
    wp (ids.mapM Jobs.remove)
      (fun _ w' => Held jobs call start w' ∧ w'.records = w.records.filter (·.id ∉ ids) ∧
        w'.writes = w.writes ++ ids.map .removed)
      (fun _ w' => Made jobs call start w') w := by
  let I : List JobId → List Unit → World → Prop := fun rest _ w' => Held jobs call start w' ∧
    ∃ done, ids = done ++ rest ∧ w'.records = w.records.filter (·.id ∉ done) ∧
      w'.writes = w.writes ++ done.map .removed
  have hI : I ids [] w := ⟨h, [], rfl, by simp, by simp⟩
  refine wp_mono (wp_mapM (I := I) [] ?_ hI) ?_ (fun _ _ h => h)
  · rintro id rest _ w' ⟨h', done, rfl, hrec, hwr⟩
    have hdone : id ∉ done := by
      intro hmem
      exact (List.nodup_append.mp hnd).2.2 id hmem id (List.mem_cons_self ..) rfl
    obtain ⟨r, hr, hid, hend⟩ := hends id (by simp)
    have hr' : r ∈ w'.records := by
      rw [hrec, List.mem_filter]
      exact ⟨hr, by simpa [hid] using hdone⟩
    have hmake : Makes jobs call w'.disk (.removed id) := by
      subst hid
      exact .prune hcall ((h'.lists.mem r).mp hr') hend
    unfold Jobs.remove
    simp only [wp_bind, wp_get, wp_set]
    refine wp_access (fun fs => ?_) (fun _ _ => h'.made) (fun _ _ => h'.made.write hmake)
    refine ⟨⟨h'.lists.remove id, h'.made.write hmake⟩, done ++ [id], by simp, ?_, ?_⟩
    · show w'.records.filter _ = _
      rw [hrec, List.filter_filter]
      congr 1
      funext r
      simp [and_comm]
    · show w'.writes ++ [_] = _
      rw [hwr]
      simp
  · rintro _ w' ⟨h', done, hids, hrec, hwr⟩
    rw [List.append_nil] at hids
    subst hids
    exact ⟨h', hrec, hwr⟩

theorem mem_finished {key : Int ×ₗ JobId} :
    key ∈ Jobs.finished records ↔ ∃ r ∈ records, r.state.isTerminal = true ∧ r.age = key := by
  unfold Jobs.finished
  rw [(List.perm_insertionSort _ _).mem_iff]
  simp [and_assoc]

theorem nodup_finished (h : (records.map (·.id)).Nodup) :
    ((Jobs.finished records).map fun key => (ofLex key).2).Nodup := by
  unfold Jobs.finished
  have hperm := (List.perm_insertionSort (· ≤ ·)
    ((records.filter (·.state.isTerminal)).map (·.age))).map fun key => (ofLex key).2
  rw [hperm.nodup_iff, List.map_map]
  exact h.sublist (List.filter_sublist.map _)

theorem length_finished (records : List JobRecord) :
    (Jobs.finished records).length = (records.filter (·.state.isTerminal)).length := by
  unfold Jobs.finished
  rw [(List.perm_insertionSort _ _).length_eq, List.length_map]

theorem length_filter_not_mem (records : List JobRecord) (ids : List JobId)
    (h : (records.map (·.id)).Nodup) (hids : ids.Nodup) (hsub : ∀ id ∈ ids, ∃ r ∈ records, r.id = id) :
    (records.filter (·.id ∉ ids)).length + ids.length = records.length := by
  have hperm : ((records.filter (·.id ∈ ids)).map (·.id)).Perm ids := by
    refine (List.perm_ext_iff_of_nodup (h.sublist (List.filter_sublist.map _)) hids).mpr fun id => ?_
    rw [List.mem_map]
    constructor
    · rintro ⟨r, hr, rfl⟩
      simpa using (List.mem_filter.mp hr).2
    · intro hid
      obtain ⟨r, hr, rfl⟩ := hsub id hid
      exact ⟨r, List.mem_filter.mpr ⟨hr, by simpa using hid⟩, rfl⟩
  have hin : (records.filter (·.id ∈ ids)).length = ids.length := by
    rw [← hperm.length_eq, List.length_map]
  have hsplit := List.length_eq_length_filter_add (l := records) fun r => decide (r.id ∈ ids)
  simp only [← decide_not] at hsplit
  omega

theorem eq_of_id_eq (h : Lists disk records)
    {r q : JobRecord} (hr : r ∈ records) (hq : q ∈ records) (hid : r.id = q.id) : r = q := by
  have hr' := (h.mem r).mp hr
  rw [hid, (h.mem q).mp hq] at hr'
  exact (Option.some.inj hr').symm

/-- The ids that `prune` removes. -/
def oldest (records : List JobRecord) (n : Nat) : List JobId :=
  ((Jobs.finished records).take n).map fun key => (ofLex key).2

section Oldest

variable {disk : Disk} {records : List JobRecord} {n : Nat} {r q : JobRecord}

theorem mem_oldest (h : Lists disk records) (hr : r ∈ records) :
    r.id ∈ oldest records n ↔ r.state.isTerminal = true ∧
      r.age ∈ (Jobs.finished records).take n := by
  unfold oldest
  rw [List.mem_map]
  constructor
  · rintro ⟨key, hkey, hid⟩
    obtain ⟨q, hq, hend, rfl⟩ := mem_finished.mp (List.mem_of_mem_take hkey)
    obtain rfl := eq_of_id_eq h hq hr hid
    exact ⟨hend, hkey⟩
  · rintro ⟨-, hkey⟩
    exact ⟨r.age, hkey, rfl⟩

theorem nodup_oldest (h : Lists disk records) : (oldest records n).Nodup := by
  unfold oldest
  rw [List.map_take]
  exact (nodup_finished h.nodup).sublist (List.take_sublist _ _)

theorem exists_of_mem_oldest (hid : id ∈ oldest records n) :
    ∃ r ∈ records, r.id = id ∧ r.state.isTerminal = true := by
  unfold oldest at hid
  obtain ⟨key, hkey, rfl⟩ := List.mem_map.mp hid
  obtain ⟨r, hr, hend, rfl⟩ := mem_finished.mp (List.mem_of_mem_take hkey)
  exact ⟨r, hr, rfl, hend⟩

/-- What is among the oldest is older than what isn't. -/
theorem age_lt_of_oldest (h : Lists disk records) (hr : r ∈ records) (hq : q ∈ records)
    (hold : r.id ∈ oldest records n) (hnew : q.id ∉ oldest records n)
    (hend : q.state.isTerminal = true) : r.age < q.age := by
  have hr' := ((mem_oldest h hr).mp hold).2
  have hq' : q.age ∈ (Jobs.finished records).drop n := by
    have hmem := mem_finished.mpr ⟨q, hq, hend, rfl⟩
    rw [← List.take_append_drop n (Jobs.finished records), List.mem_append] at hmem
    exact hmem.resolve_left fun ht => hnew ((mem_oldest h hq).mpr ⟨hend, ht⟩)
  have hsorted : (Jobs.finished records).Pairwise (· ≤ ·) := List.pairwise_insertionSort _ _
  rw [← List.take_append_drop n (Jobs.finished records), List.pairwise_append] at hsorted
  refine lt_of_le_of_ne (hsorted.2.2 _ hr' _ hq') fun heq => hnew ?_
  have hid : r.id = q.id := congrArg (fun key => (ofLex key).2) heq
  rwa [← hid]

end Oldest

theorem length_oldest (records : List JobRecord) (n : Nat) :
    (oldest records n).length = min n (Jobs.finished records).length := by
  unfold oldest
  rw [List.length_map, List.length_take]

theorem pruned_of_oldest {disk' : Disk} {records' : List JobRecord} {n keep : Nat}
    (h : Lists disk records) (h' : Lists disk' records')
    (hrec : records' = records.filter (·.id ∉ oldest records n))
    (hn : n = (Jobs.finished records).length - keep) : Pruned keep disk disk' := by
  have hmem : ∀ r, r ∈ records' ↔ r ∈ records ∧ r.id ∉ oldest records n := by
    intro r
    rw [hrec, List.mem_filter, decide_eq_true_eq]
  have hgone : ∀ id r, disk id = some r → disk' id = none →
      r ∈ records ∧ r.id ∈ oldest records n := by
    intro id r hr hnone
    have hin := h.mem_of_disk hr
    refine ⟨hin, ?_⟩
    by_contra hnot
    have hr' := (h'.mem r).mp ((hmem r).mpr ⟨hin, hnot⟩)
    rw [h.named id r hr, hnone] at hr'
    cases hr'
  have hcount : (records'.filter (·.state.isTerminal)).length + n =
      (Jobs.finished records).length := by
    have hcomm : records'.filter (·.state.isTerminal) =
        (records.filter (·.state.isTerminal)).filter (·.id ∉ oldest records n) := by
      rw [hrec, List.filter_comm]
    have hlen := length_filter_not_mem (records.filter (·.state.isTerminal))
      (oldest records n) (h.nodup.sublist (List.filter_sublist.map _)) (nodup_oldest h)
      (fun id hid => by
        obtain ⟨r, hr, hid, hend⟩ := exists_of_mem_oldest hid
        exact ⟨r, List.mem_filter.mpr ⟨hr, hend⟩, hid⟩)
    rw [length_oldest, ← length_finished] at hlen
    rw [hcomm]
    omega
  have hperm : ∀ records'', Lists disk' records'' →
      (records''.filter (·.state.isTerminal)).length =
        (records'.filter (·.state.isTerminal)).length :=
    fun _ hl => ((hl.perm h').filter _).length_eq
  constructor
  · intro id r hr
    have hin := h'.mem_of_disk hr
    have hr' := (h.mem r).mp ((hmem r).mp hin).1
    rwa [h'.named id r hr] at hr'
  · intro id r hr hend
    have hin := h.mem_of_disk hr
    have hr' := (h'.mem r).mp ((hmem r).mpr ⟨hin, fun hold => by
      have := ((mem_oldest h hin).mp hold).1
      rw [hend] at this
      cases this⟩)
    rwa [h.named id r hr] at hr'
  · intro id r id' r' hr hnone hr' hend
    obtain ⟨hin, hold⟩ := hgone id r hr hnone
    obtain ⟨hin', hnew⟩ := (hmem r').mp (h'.mem_of_disk hr')
    exact age_lt_of_oldest h hin hin' hold hnew hend
  · intro records'' hl
    rw [hperm records'' hl]
    omega
  · intro id r records'' hr hnone hl
    rw [hperm records'' hl]
    have hpos : 0 < (oldest records n).length := List.length_pos_of_mem (hgone id r hr hnone).2
    rw [length_oldest] at hpos
    omega

theorem wp_prune (h : Held jobs call start w) (hcall : call.prunes = true) :
    wp jobs.prune
      (fun _ w' => Held jobs call start w' ∧ Pruned jobs.config.keepFinished w.disk w'.disk ∧
        ∃ ids : List JobId, w'.writes = w.writes ++ ids.map .removed)
      (fun _ w' => Made jobs call start w') w := by
  unfold Jobs.prune
  simp only [wp_bind, wp_get, wp_ite, wp_pure]
  refine ⟨fun hle => ⟨h, ?_, [], by simp⟩, fun hgt => ?_⟩
  · refine pruned_of_oldest h.lists h.lists (n := 0) ?_ (by omega)
    simp [oldest]
  · refine wp_mono (wp_removes h hcall (fun id hid => exists_of_mem_oldest hid)
      (nodup_oldest h.lists)) (fun _ w' hw' => ?_) (fun _ _ h => h)
    exact ⟨hw'.1, pruned_of_oldest h.lists hw'.1.lists hw'.2.1 rfl, _, hw'.2.2⟩

end Prune

end Bmac.Bmacd
