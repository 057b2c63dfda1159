import Bmac.Bmacd.JobLeases

/-!
# The life of a job record

A record is created by an admission, changed while it is unfinished and removed once it finished.
Every change moves it forward: its revision and its newest event grow, a claim counts an attempt,
and a finished record stays as it is.
-/

namespace Bmac.Bmacd

open Bmac.Base Bmac.Core

/-! ## One change -/

def Call.claims (call : Call) (id : JobId) : Bool :=
  match call with
  | .claim id' _ => id' = id
  | _ => false

variable {id : JobId} {call : Call} {jobs : Jobs} {r : JobRecord} {disk disk' : Disk}
  {nonce : String}

theorem Call.claims_iff : call.claims id = true ↔ ∃ nonce, call = .claim id nonce := by
  unfold Call.claims
  split
  · rename_i id' nonce
    simp only [decide_eq_true_eq, Call.claim.injEq, exists_and_left, exists_eq', and_true]
  · rename_i hno
    simp only [Bool.false_eq_true, false_iff]
    rintro ⟨nonce, rfl⟩
    exact hno id nonce rfl

/-- What every change of a record does. -/
structure Advances (call : Call) (r r' : JobRecord) : Prop where
  unfinished : r.state.isTerminal = false
  revision : r'.revision = r.revision + 1
  lastSeq : r.lastSeq ≤ r'.lastSeq
  attempts : r'.attempts = r.attempts + if call.claims r.id then 1 else 0
  finished : (r'.state.isTerminal = false ∧ r'.finishedAtMs = r.finishedAtMs) ∨
    (r'.state.isTerminal = true ∧ r'.finishedAtMs.isSome = true)

theorem Update.advances {r' : JobRecord} (h : Update jobs call r r') : Advances call r r' := by
  have hopen : ∀ s, r.state = s → s.isTerminal = false → r.state.isTerminal = false := by
    rintro _ rfl hs
    exact hs
  have hmax : ∀ n, r.lastSeq ≤ max r.lastSeq n := fun n => le_max_left _ _
  cases h with
  | claim hstate =>
    exact ⟨hopen _ hstate rfl, rfl, le_rfl, by simp [Call.claims, JobRecord.next], .inl ⟨rfl, rfl⟩⟩
  | renew _ _ hstate =>
    exact ⟨hopen _ hstate rfl, rfl, hmax _, rfl, .inl ⟨hopen _ hstate rfl, rfl⟩⟩
  | finish _ _ hstate hend =>
    refine ⟨?_, rfl, hmax _, rfl, .inr ⟨hend, rfl⟩⟩
    rcases hstate with hstate | hstate
    · exact hopen _ hstate rfl
    · exact hopen _ hstate rfl
  | cancelAdmitted hstate => exact ⟨hopen _ hstate rfl, rfl, le_rfl, rfl, .inr ⟨rfl, rfl⟩⟩
  | cancelRunning hstate =>
    exact ⟨hopen _ hstate rfl, rfl, le_rfl, rfl, .inl ⟨hopen _ hstate rfl, rfl⟩⟩
  | resume _ _ hstate => exact ⟨hopen _ hstate rfl, rfl, le_rfl, rfl, .inl ⟨rfl, rfl⟩⟩
  | interruptOwn hstate => exact ⟨hopen _ hstate rfl, rfl, le_rfl, rfl, .inl ⟨rfl, rfl⟩⟩
  | resumeAfterRestart _ hstate => exact ⟨hopen _ hstate rfl, rfl, le_rfl, rfl, .inl ⟨rfl, rfl⟩⟩
  | reconcile _ hstate => exact ⟨hopen _ hstate rfl, rfl, le_rfl, rfl, .inr ⟨rfl, rfl⟩⟩
  | sweepRunning hstate => exact ⟨hopen _ hstate rfl, rfl, le_rfl, rfl, .inl ⟨rfl, rfl⟩⟩
  | sweepAdmitted hstate => exact ⟨hopen _ hstate rfl, rfl, le_rfl, rfl, .inr ⟨rfl, rfl⟩⟩

/-! ## When a record finished -/

/-- The records that say when they finished are the finished ones. -/
def Dated (disk : Disk) : Prop :=
  ∀ id r, disk id = some r → (r.finishedAtMs.isSome = true ↔ r.state.isTerminal = true)

theorem Dated.write {x : Write} (h : Dated disk)
    (hmakes : Makes jobs call disk x) : Dated (x.apply disk) := by
  intro id p hp
  cases hmakes with
  | create =>
    rcases Write.saved_apply_eq_some.mp hp with ⟨-, rfl⟩ | ⟨-, hp⟩
    · exact ⟨nofun, nofun⟩
    · exact h id p hp
  | prune => exact h id p (Write.removed_apply_eq_some.mp hp).2
  | @update _ _ r r' hr hu =>
    rcases Write.saved_apply_eq_some.mp hp with ⟨-, rfl⟩ | ⟨-, hp⟩
    · have hadv := hu.advances
      rcases hadv.finished with ⟨hopen, hsame⟩ | ⟨hend, hsome⟩
      · rw [hsame, h r.id r hr, hadv.unfinished, hopen]
      · rw [hend, hsome]
    · exact h id p hp

/-! ## Forward only -/

/-- How a record may differ from an earlier reading of it. -/
structure Follows (r r' : JobRecord) : Prop where
  revision : r.revision ≤ r'.revision
  lastSeq : r.lastSeq ≤ r'.lastSeq
  finished : r.state.isTerminal = true → r' = r

theorem Follows.refl (r : JobRecord) : Follows r r := ⟨le_rfl, le_rfl, fun _ => rfl⟩

theorem Follows.update {jobs : Jobs} {call : Call} {r p p' : JobRecord} (h : Follows r p)
    (hu : Update jobs call p p') : Follows r p' := by
  have hadv := hu.advances
  refine ⟨?_, h.lastSeq.trans hadv.lastSeq, fun hend => ?_⟩
  · have := h.revision
    have := hadv.revision
    omega
  · have hopen := hadv.unfinished
    rw [h.finished hend, hend] at hopen
    cases hopen

theorem Makes.follows {jobs : Jobs} {call : Call} {disk : Disk} {x : Write} {id : JobId}
    {r : JobRecord} (h : Makes jobs call disk x) (hr : disk id = some r) (hkept : x ≠ .removed id) :
    ∃ r', x.apply disk id = some r' ∧ (r' = r ∨ Update jobs call r r') := by
  cases h with
  | create _ _ _ _ hnone =>
    refine ⟨r, Write.saved_apply_eq_some.mpr (.inr ⟨fun hid => ?_, hr⟩), .inl rfl⟩
    rw [hid] at hr
    exact absurd (hnone.symm.trans hr) nofun
  | prune =>
    refine ⟨r, Write.removed_apply_eq_some.mpr ⟨fun hid => ?_, hr⟩, .inl rfl⟩
    exact hkept (by rw [hid])
  | @update _ _ q q' hq hu =>
    by_cases hid : id = q.id
    · subst hid
      rw [hq] at hr
      cases hr
      exact ⟨q', Write.saved_apply_eq_some.mpr (.inl ⟨hu.id_eq.symm, rfl⟩), .inr hu⟩
    · refine ⟨r, Write.saved_apply_eq_some.mpr (.inr ⟨?_, hr⟩), .inl rfl⟩
      rwa [hu.id_eq]

theorem puts_follow {xs : List (Act × Write)} (h : Run Put disk xs disk') (hr : disk id = some r)
    (hkept : ∀ x ∈ xs, x.2 ≠ .removed id) : ∃ r', disk' id = some r' ∧ Follows r r' := by
  refine h.invariant_of (I := fun d => ∃ r', d id = some r' ∧ Follows r r') ?_
    ⟨r, hr, Follows.refl r⟩
  rintro d x d' hx ⟨p, hp, hfol⟩ ⟨hmakes, rfl⟩
  obtain ⟨p', hp', rfl | hu⟩ := hmakes.follows hp (hkept x hx)
  · exact ⟨p', hp', hfol⟩
  · exact ⟨p', hp', hfol.update hu⟩

/-! ## Attempts -/

def Act.claimed (a : Act) (id : JobId) : Bool := a.call.claims id && !a.writes.isEmpty

theorem Update.of_claim {r' : JobRecord} (h : Update jobs (.claim id nonce) r r') :
    r.id = id ∧ r.state = .admitted ∧ r'.state = .running := by
  cases h with
  | claim hstate => exact ⟨rfl, hstate, rfl⟩

/-- What a claim wrote: the one record, if any. -/
theorem claim_writes {ws : List Write}
    (h : Run (fun d x d' => Makes jobs (.claim id nonce) d x ∧ x.apply d = d') disk ws disk') :
    ws = [] ∨ ∃ r r', disk r.id = some r ∧ Update jobs (.claim id nonce) r r' ∧ ws = [.saved r'] := by
  have hone : ∀ d x, Makes jobs (.claim id nonce) d x → ∃ r r', d r.id = some r ∧
      Update jobs (.claim id nonce) r r' ∧ x = .saved r' := by
    intro d x hx
    cases hx with
    | @update _ _ r r' hr hu => exact ⟨r, r', hr, hu, rfl⟩
    | prune hcall => cases hcall
  cases h with
  | nil => exact .inl rfl
  | cons hx hrun =>
    obtain ⟨hmakes, rfl⟩ := hx
    obtain ⟨r, r', hr, hu, rfl⟩ := hone _ _ hmakes
    refine .inr ⟨r, r', hr, hu, ?_⟩
    cases hrun with
    | nil => rfl
    | cons hy _ =>
      -- the record isn't waiting any more
      obtain ⟨q, q', hq, hu', -⟩ := hone _ _ hy.1
      obtain ⟨hid, -, hrunning⟩ := hu.of_claim
      obtain ⟨hid', hadmitted, -⟩ := hu'.of_claim
      rcases Write.saved_apply_eq_some.mp hq with ⟨-, rfl⟩ | ⟨hne, -⟩
      · rw [hrunning] at hadmitted
        cases hadmitted
      · rw [hid', hu.id_eq, hid] at hne
        exact absurd rfl hne

/-- Where a record comes from: an admission just created it, or it was there before. -/
theorem Makes.origin {x : Write}
    {p : JobRecord} (h : Makes jobs call disk x) (hp : x.apply disk id = some p) :
    (∃ caller launch, call = .admitJob caller launch id ∧ x = .saved p ∧ p.id = id ∧
        p.attempts = 0) ∨
      ((∀ caller launch q, call = .admitJob caller launch id → x ≠ .saved q) ∧
        ∃ r, disk id = some r ∧ (p = r ∨ Update jobs call r p)) := by
  cases h with
  | create =>
    rcases Write.saved_apply_eq_some.mp hp with ⟨rfl, rfl⟩ | ⟨hne, hp⟩
    · exact .inl ⟨_, _, rfl, rfl, rfl, rfl⟩
    · refine .inr ⟨fun _ _ _ hcall => ?_, p, hp, .inl rfl⟩
      cases hcall
      exact absurd rfl hne
  | prune => exact .inr ⟨fun _ _ _ _ => nofun, p, (Write.removed_apply_eq_some.mp hp).2, .inl rfl⟩
  | @update _ _ r r' hr hu =>
    refine .inr ⟨fun _ _ _ hcall => ?_, ?_⟩
    · subst hcall
      cases hu
    · rcases Write.saved_apply_eq_some.mp hp with ⟨rfl, rfl⟩ | ⟨-, hp⟩
      · exact ⟨r, hu.id_eq ▸ hr, .inr hu⟩
      · exact ⟨p, hp, .inl rfl⟩

section Step

variable {disk disk' : Disk} {a : Act} {id : JobId} {p : JobRecord}

theorem attempts_of_claim (h : Step disk a disk') (hcall : a.call = .claim id nonce)
    (hp : disk' id = some p) :
    ∃ r, disk id = some r ∧ p.attempts = r.attempts + if a.writes.isEmpty then 0 else 1 := by
  have hmade := step_made h
  rw [hcall] at hmade
  rcases claim_writes hmade with hws | ⟨r, r', hr, hu, hws⟩
  · rw [hws] at hmade ⊢
    obtain rfl := Run.nil_iff.mp hmade
    exact ⟨p, hp, rfl⟩
  · rw [hws] at hmade ⊢
    obtain ⟨d, ⟨-, rfl⟩, hrest⟩ := Run.cons_iff.mp hmade
    obtain rfl := Run.nil_iff.mp hrest
    obtain ⟨rfl, -⟩ := hu.of_claim
    have hsame : p = r' := by
      rcases Write.saved_apply_eq_some.mp hp with ⟨-, hpr⟩ | ⟨hne, -⟩
      · exact hpr
      · exact absurd hu.id_eq.symm hne
    refine ⟨r, hr, ?_⟩
    rw [hsame, hu.advances.attempts]
    simp [Call.claims]

theorem attempts_of_other (h : Step disk a disk') (hno : a.call.claims id = false)
    (hp : disk' id = some p) :
    (a.Admits id ∧ p.attempts = 0) ∨
      (¬ a.Admits id ∧ ∃ r, disk id = some r ∧ p.attempts = r.attempts) := by
  -- over the call's writes so far
  let I : List Write → Disk → Prop := fun ws d => ∀ p, d id = some p → p.id = id ∧
    (({ a with writes := ws }.Admits id ∧ p.attempts = 0) ∨
      (¬ { a with writes := ws }.Admits id ∧ ∃ r, disk id = some r ∧ p.attempts = r.attempts))
  have h0 : I [] disk := by
    intro p hp
    refine ⟨step_named h hp, .inr ⟨fun ⟨_, _, _, _, hmem⟩ => ?_, p, hp, rfl⟩⟩
    cases hmem
  refine ((step_made h).history (I := I) h0 ?_ p hp).2
  rintro ws d x d' ih ⟨hmakes, rfl⟩ p hp
  rcases hmakes.origin hp with ⟨caller, launch, hcall, rfl, hid, hzero⟩ | ⟨hnot, r, hr, hpr⟩
  · exact ⟨hid, .inl ⟨⟨caller, launch, p, hcall, by simp⟩, hzero⟩⟩
  · obtain ⟨hid, ih⟩ := ih r hr
    have hsame : p.id = r.id ∧ p.attempts = r.attempts := by
      rcases hpr with rfl | hu
      · exact ⟨rfl, rfl⟩
      · refine ⟨hu.id_eq, ?_⟩
        rw [hu.advances.attempts, hid, hno]
        rfl
    rw [hsame.1, hsame.2]
    refine ⟨hid, ih.imp ?_ ?_⟩
    · rintro ⟨⟨caller, launch, q, hcall, hq⟩, hzero⟩
      exact ⟨⟨caller, launch, q, hcall, List.mem_append_left _ hq⟩, hzero⟩
    · rintro ⟨hadm, hold⟩
      refine ⟨fun ⟨caller, launch, q, hcall, hq⟩ => ?_, hold⟩
      rcases List.mem_append.mp hq with hq | hq
      · exact hadm ⟨caller, launch, q, hcall, hq⟩
      · exact hnot caller launch q hcall (List.mem_singleton.mp hq).symm

/-- The attempts of a record after a call: none if the call created it, and else one more if the
call claimed it. -/
theorem step_attempts (h : Step disk a disk') (hp : disk' id = some p) :
    (a.Admits id ∧ p.attempts = 0) ∨
      (¬ a.Admits id ∧ ∃ r, disk id = some r ∧
        p.attempts = r.attempts + if a.claimed id then 1 else 0) := by
  unfold Act.claimed
  cases hclaims : a.call.claims id with
  | false => simpa [hclaims] using attempts_of_other h hclaims hp
  | true =>
    obtain ⟨nonce, hcall⟩ := Call.claims_iff.mp hclaims
    obtain ⟨r, hr, hp⟩ := attempts_of_claim h hcall hp
    refine .inr ⟨fun ⟨_, _, _, hadm, _⟩ => ?_, r, hr, ?_⟩
    · rw [hcall] at hadm
      cases hadm
    · rw [hp]
      cases a.writes.isEmpty <;> rfl

end Step

/-- A record counts the claims that wrote it since the admission that created it. -/
theorem run_attempts {acts : List Act} (h : Run Step (fun _ => none) acts disk)
    (hr : disk id = some r) :
    ∃ pre a post, acts = pre ++ a :: post ∧ a.Admits id ∧ (∀ b ∈ post, ¬ b.Admits id) ∧
      r.attempts = post.countP (·.claimed id) := by
  refine h.history (I := fun acts d => ∀ r, d id = some r → ∃ pre a post, acts = pre ++ a :: post ∧
    a.Admits id ∧ (∀ b ∈ post, ¬ b.Admits id) ∧ r.attempts = post.countP (·.claimed id)) ?_ ?_ r hr
  · intro r hr
    cases hr
  · intro acts d a d' ih hstep p hp
    rcases step_attempts hstep hp with ⟨hadm, hzero⟩ | ⟨hadm, r, hr, hcount⟩
    · exact ⟨acts, a, [], rfl, hadm, by simp, by rw [hzero, List.countP_nil]⟩
    · obtain ⟨pre, b, post, rfl, hb, hpost, hr⟩ := ih r hr
      refine ⟨pre, b, post ++ [a], by simp, hb, ?_, ?_⟩
      · intro c hc
        rcases List.mem_append.mp hc with hc | hc
        · exact hpost c hc
        · rwa [List.mem_singleton.mp hc]
      · rw [hcount, hr, List.countP_append, List.countP_singleton]

/-! ## Claims that wrote -/

variable {w : World} {a : Act}

theorem wp_access_fine {Q : Unit → World → Prop} {E : ApiError → World → Prop} {f : World → World}
    (hfine : w.faults = []) (hok : Q () (f w)) : wp (access f) Q E w := by
  unfold access
  simp only [wp_bind, wp_get, hfine, wp_set]
  exact hok

theorem wp_save_fine {record : JobRecord} (hfine : w.faults = []) :
    wp (jobs.save record) (fun _ w' => w'.faults = []) (fun _ w' => w' = w) w := by
  unfold Jobs.save Jobs.writeRecord
  simp only [wp_bind, wp_get, wp_ite, wp_throw, wp_pure, wp_set]
  exact ⟨fun _ => trivial, fun _ => ⟨fun _ => trivial, fun _ => wp_access_fine hfine hfine⟩⟩

/-- Where the storage doesn't fail, a claim that returns an error wrote nothing. -/
theorem wp_claim_fine (hfine : w.faults = []) :
    wp (jobs.claim id nonce) (fun _ _ => True) (fun _ w' => w' = w) w := by
  unfold Jobs.claim Jobs.locked
  simp only [wp_bind, wp_get, wp_pure]
  refine wp_access_fine hfine ?_
  rw [wp_ofExcept]
  refine ⟨fun _ _ => ?_, fun _ _ => rfl⟩
  unfold Jobs.find
  simp only [wp_bind, wp_get]
  split
  · simp only [wp_pure, wp_ite, wp_throw, wp_bind]
    refine ⟨fun _ => rfl, fun _ => ⟨fun _ => rfl, fun _ => ?_⟩⟩
    exact wp_mono (wp_save_fine hfine) (fun _ _ h => wp_access_fine h trivial) (fun _ _ h => h)
  · rw [wp_throw]
    rfl

theorem claimed_of_claims (h : Step disk a disk') (hc : a.Claims id) : a.claimed id = true := by
  obtain ⟨nonce, hc⟩ := hc
  obtain ⟨r, r', -, -, hws, -⟩ := step_claims h hc
  unfold Act.claimed
  rw [hws, Call.claims_iff.mpr ⟨nonce, hc.1⟩]
  rfl

theorem claims_of_claimed (h : Step disk a disk')
    (hfine : a.faults = []) (hc : a.claimed id = true) : a.Claims id := by
  unfold Act.claimed at hc
  obtain ⟨hclaims, hws⟩ := Bool.and_eq_true_iff.mp hc
  obtain ⟨nonce, hcall⟩ := Call.claims_iff.mp hclaims
  refine ⟨nonce, hcall, ?_⟩
  cases h with
  | ok => exact ⟨_, rfl⟩
  | @error records _ _ _ _ w hlist hrun =>
    simp only at hfine hcall hws
    rw [hfine, hcall] at hrun
    have hsame : w = ⟨disk, records, [], []⟩ := by
      refine wp_error (Q := fun _ _ => True) (E := fun _ w' => w' = _) ?_ hrun
      unfold Jobs.exec
      simp only [wp_bind, wp_pure]
      exact wp_claim_fine rfl
    rw [hsame] at hws
    cases hws

/-! ## The whole -/

theorem run_moment {acts : List Act} (h : Run Step (fun _ => none) acts disk)
    {ws ys : List Write} (hsplit : written acts = ws ++ ys) :
    ∃ xs zs, xs.map Prod.snd = ws ∧ zs.map Prod.snd = ys ∧ puts acts = xs ++ zs ∧
      Run Put (fun _ => none) xs (replay (fun _ => none) ws) ∧
      Run Put (replay (fun _ => none) ws) zs disk := by
  rw [← puts_snd] at hsplit
  obtain ⟨xs, zs, hputs, rfl, rfl⟩ := List.map_eq_append_iff.mp hsplit
  have hrun := run_writes h
  rw [hputs] at hrun
  obtain ⟨d, hxs, hzs⟩ := Run.append_iff.mp hrun
  obtain rfl := replay_of_puts hxs
  exact ⟨xs, zs, rfl, rfl, hputs, hxs, hzs⟩

section Moments

variable {acts : List Act} {disk : Disk} (h : Run Step (fun _ => none) acts disk) {id : JobId}
  {r : JobRecord} {ws xs ys : List Write}

include h

theorem moment_dated (hsplit : written acts = ws ++ ys)
    (hr : replay (fun _ => none) ws id = some r) :
    r.finishedAtMs.isSome = true ↔ r.state.isTerminal = true := by
  obtain ⟨as, bs, -, -, -, has, -⟩ := run_moment h hsplit
  refine has.invariant (I := Dated) (fun d x d' hd hput => ?_) ?_ id r hr
  · obtain ⟨hmakes, rfl⟩ := hput
    exact hd.write hmakes
  · intro id r hr
    cases hr

theorem moment_follows (hsplit : written acts = ws ++ xs ++ ys)
    (hr : replay (fun _ => none) ws id = some r) (hkept : .removed id ∉ xs) :
    ∃ r', replay (fun _ => none) (ws ++ xs) id = some r' ∧ Follows r r' := by
  rw [List.append_assoc] at hsplit
  obtain ⟨as, bs, -, hbs, -, -, hrun⟩ := run_moment h hsplit
  obtain ⟨cs, ds, rfl, rfl, -⟩ := List.map_eq_append_iff.mp hbs
  obtain ⟨d, hmid, -⟩ := Run.append_iff.mp hrun
  obtain ⟨r', hr', hfol⟩ := puts_follow hmid hr fun x hx hrem =>
    hkept (hrem ▸ List.mem_map_of_mem hx)
  rw [replay_of_puts hmid, ← replay_append] at hr'
  exact ⟨r', hr', hfol⟩

theorem moment_removed (hsplit : written acts = ws ++ .removed id :: ys) :
    ∃ r, replay (fun _ => none) ws id = some r ∧ r.state.isTerminal = true := by
  obtain ⟨as, bs, -, hbs, -, -, hrun⟩ := run_moment h hsplit
  obtain ⟨⟨a, x⟩, cs, rfl, hx, -⟩ := List.map_eq_cons_iff.mp hbs
  obtain ⟨d, ⟨hmakes, -⟩, -⟩ := Run.cons_iff.mp hrun
  simp only at hx hmakes
  rw [hx] at hmakes
  generalize a.call = call at hmakes
  cases hmakes with
  | prune _ hr hend => exact ⟨_, hr, hend⟩

theorem run_replay : disk = replay (fun _ => none) (written acts) := by
  rw [← puts_snd]
  exact replay_of_puts (run_writes h)

theorem run_step {pre post : List Act} (hsplit : acts = pre ++ a :: post) :
    Step (replay (fun _ => none) (written pre)) a
      (replay (fun _ => none) (written (pre ++ [a]))) := by
  subst hsplit
  obtain ⟨d, hpre, hrest⟩ := Run.append_iff.mp h
  obtain ⟨d', ha, -⟩ := Run.cons_iff.mp hrest
  have hd' := run_replay (Run.snoc_iff.mpr ⟨d, hpre, ha⟩)
  rw [← run_replay hpre, ← hd']
  exact ha

end Moments

theorem step_prunes {reply : Reply} (h : Step disk a disk')
    (hcall : a.call.prunes = true) (hreply : a.reply = .ok reply) :
    a.writes = [] ∨ ∃ (saves : List JobRecord) (ids : List JobId),
      a.writes = saves.map .saved ++ ids.map .removed ∧
      Pruned a.jobs.config.keepFinished (replay disk (saves.map .saved)) disk' := by
  obtain ⟨w, rfl, hwrites, hans⟩ := step_answers h hreply
  rcases hans.did with ⟨hnil, -⟩ | ⟨saves, hdid⟩
  · exact .inl (hwrites ▸ hnil)
  · obtain ⟨ids, hids, -⟩ := hdid.writes
    exact .inr ⟨saves, ids, hwrites ▸ hids, hdid.pruned hcall⟩

/-- Over any run of calls from an empty directory. At every moment, also inside a call: a record
says when it finished exactly if it has; one that isn't removed stays, its revision and last event
never decrease, and once finished it doesn't change; only a finished one is removed. A record
counts its claims since its admission: the claims that wrote, which are all that succeeded and,
where the storage doesn't fail, no others. A pruning call that completed leaves the limit's newest
finished records and all unfinished ones. -/
theorem job_records (acts : List Act) (disk : Disk) (h : Run Step (fun _ => none) acts disk) :
    disk = replay (fun _ => none) (written acts) ∧
    (∀ ws ys, written acts = ws ++ ys → ∀ id r, replay (fun _ => none) ws id = some r →
      (r.finishedAtMs.isSome = true ↔ r.state.isTerminal = true)) ∧
    (∀ ws xs ys, written acts = ws ++ xs ++ ys → ∀ id r, replay (fun _ => none) ws id = some r →
      .removed id ∉ xs → ∃ r', replay (fun _ => none) (ws ++ xs) id = some r' ∧
        r.revision ≤ r'.revision ∧ r.lastSeq ≤ r'.lastSeq ∧ (r.state.isTerminal = true → r' = r)) ∧
    (∀ ws id ys, written acts = ws ++ .removed id :: ys →
      ∃ r, replay (fun _ => none) ws id = some r ∧ r.state.isTerminal = true) ∧
    (∀ id r, disk id = some r → ∃ pre a post, acts = pre ++ a :: post ∧ a.Admits id ∧
      (∀ b ∈ post, ¬ b.Admits id) ∧ r.attempts = post.countP (·.claimed id)) ∧
    (∀ a ∈ acts, ∀ id, (a.Claims id → a.claimed id = true) ∧
      (a.faults = [] → a.claimed id = true → a.Claims id)) ∧
    ∀ pre a post reply, acts = pre ++ a :: post → a.call.prunes = true → a.reply = .ok reply →
      a.writes = [] ∨ ∃ (saves : List JobRecord) (ids : List JobId),
        a.writes = saves.map .saved ++ ids.map .removed ∧
        Pruned a.jobs.config.keepFinished
          (replay (fun _ => none) (written pre ++ saves.map .saved))
          (replay (fun _ => none) (written (pre ++ [a]))) := by
  refine ⟨run_replay h, ?_, ?_, ?_, fun id r hr => run_attempts h hr, ?_, ?_⟩
  · exact fun ws ys hsplit id r hr => moment_dated h hsplit hr
  · intro ws xs ys hsplit id r hr hkept
    obtain ⟨r', hr', hfol⟩ := moment_follows h hsplit hr hkept
    exact ⟨r', hr', hfol.revision, hfol.lastSeq, hfol.finished⟩
  · exact fun ws id ys hsplit => moment_removed h hsplit
  · intro a ha id
    obtain ⟨pre, post, hsplit⟩ := List.append_of_mem ha
    exact ⟨claimed_of_claims (run_step h hsplit), claims_of_claimed (run_step h hsplit)⟩
  · intro pre a post reply hsplit hcall hreply
    simp only [replay_append]
    exact step_prunes (run_step h hsplit) hcall hreply

/-- A scrub is claimed once and completes. -/
theorem job_records_scrub :
    ∃ acts disk r, Run Step (fun _ => none) acts disk ∧ disk 7 = some r ∧ r.state = .completed ∧
      r.finishedAtMs.isSome = true ∧ ∃ pre a post, acts = pre ++ a :: post ∧ a.Admits 7 ∧
        (∀ b ∈ post, ¬ b.Admits 7) ∧ 1 = post.countP (·.claimed 7) := by
  have hrun := Run.cons (step_act Lists.empty (onMox1 0) (launch "scrub" 7) []) <|
    .cons (step_act Lists.empty.save (onMox1 1) (.claim 7 "a") []) <|
    .single (step_act Lists.empty.save.save (onMox1 2) (.finish 7 "a" .completed "done" 3) [])
  obtain ⟨-, hdated, -, -, hattempts, -, -⟩ := job_records _ _ hrun
  refine ⟨_, _, _, hrun, rfl, rfl, (hdated _ [] (List.append_nil _).symm 7 _ rfl).mpr rfl, ?_⟩
  exact hattempts 7 _ rfl

end Bmac.Bmacd
