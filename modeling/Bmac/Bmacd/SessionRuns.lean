import Bmac.Bmacd.Sessions

/-!
# Sessions over runs

What `Kept` says holds in every run, whatever tasks fail and wherever the engine restarts: a session that is there
was issued by a login, was used when it says it was, and has not ended. In runs without a restart `Exact` says the
rest: a session is there for as long as it is within its limits and nothing else ends it.
-/

namespace Bmac.Bmacd.Sessions

open Bmac.Base

/-- The sessions of the logins that are not done. -/
def arriving (tasks : List Task) : List String :=
  tasks.filterMap fun
    | .insert info => some info.tokenHash
    | .enter info => some info.tokenHash
    | _ => none

/-- A session that a login issued and that was used when it says. -/
structure Backed (issued uses : List (String × Int)) (info : SessionInfo) : Prop where
  issued : (info.tokenHash, info.createdMs) ∈ issued
  used : (info.tokenHash, info.lastUsedMs) ∈ uses

def Task.Backed (issued uses : List (String × Int)) (entered : List String) (live : List Live) : Task → Prop
  | .insert info | .enter info => Sessions.Backed issued uses info
  | .touch tokenHash used => (tokenHash, used) ∈ uses
  | .finish tokenHash => tokenHash ∈ entered
  | .delete tokenHash => tokenHash ∈ entered ∧ ∀ s ∈ live, s.info.tokenHash ≠ tokenHash

structure Kept (w : World) : Prop where
  once : (w.issued.map (·.1)).Nodup
  entered : ∀ tokenHash ∈ w.entered, tokenHash ∈ w.issued.map (·.1)
  ended : ∀ tokenHash ∈ w.ended, tokenHash ∈ w.entered
  arriving : (Sessions.arriving w.tasks).Nodup ∧ ∀ tokenHash ∈ Sessions.arriving w.tasks, tokenHash ∉ w.entered
  tasks : ∀ task ∈ w.tasks, task.Backed w.issued w.uses w.entered w.live
  live : ∀ s ∈ w.live, Backed w.issued w.uses s.info ∧ s.info.tokenHash ∈ w.entered ∧
    s.info.tokenHash ∉ w.ended
  rows : ∀ row ∈ w.rows, ((row.tokenHash, row.createdMs) ∈ w.issued ∧ (row.tokenHash, row.lastUsedMs) ∈ w.uses) ∧
    row.tokenHash ∉ w.ended

section

variable {hash : String → String} {isAddress : String → Bool} {policy : SessionPolicy} {w w' : World}
  {tokenHash token : String} {now : Int} {activity : Bool} {task : Task} {info : SessionInfo} {label : Label}
  {labels : List Label}

theorem mem_arriving : tokenHash ∈ arriving w.tasks ↔
    ∃ info, info.tokenHash = tokenHash ∧ (.insert info ∈ w.tasks ∨ .enter info ∈ w.tasks) := by
  simp only [arriving, List.mem_filterMap]
  constructor
  · rintro ⟨task, hmem, heq⟩
    cases task with
    | insert info => exact ⟨info, Option.some.inj heq, .inl hmem⟩
    | enter info => exact ⟨info, Option.some.inj heq, .inr hmem⟩
    | touch tokenHash used => cases heq
    | finish tokenHash => cases heq
    | delete tokenHash => cases heq
  · rintro ⟨info, rfl, hmem | hmem⟩
    · exact ⟨_, hmem, rfl⟩
    · exact ⟨_, hmem, rfl⟩

theorem arriving_erase (h : task ∈ w.tasks) : (arriving w.tasks).Perm (arriving (task :: w.tasks.erase task)) :=
  (List.perm_cons_erase h).filterMap _

variable {live : List Live} {uses : List (String × Int)}

namespace Kept

theorem start : Kept {} := by
  refine ⟨List.nodup_nil, ?_, ?_, ⟨List.nodup_nil, ?_⟩, ?_, ?_, ?_⟩ <;> simp [Sessions.arriving]

theorem erase (h : Kept w) (htask : task ∈ w.tasks) : Kept { w with tasks := w.tasks.erase task } := by
  have hperm := arriving_erase htask
  have hsub : (Sessions.arriving (w.tasks.erase task)).Sublist (Sessions.arriving (task :: w.tasks.erase task)) :=
    (List.sublist_cons_self _ _).filterMap _
  exact { h with
    arriving := ⟨(hperm.nodup_iff.mp h.arriving.1).sublist hsub, fun tokenHash hmem =>
      h.arriving.2 tokenHash (hperm.mem_iff.mpr (hsub.subset hmem))⟩
    tasks := fun other hother => h.tasks other (List.mem_of_mem_erase hother) }

theorem task_mono {issued issued' uses' : List (String × Int)} {entered entered' : List String}
    {live' : List Live} (hissued : issued ⊆ issued') (huses : uses ⊆ uses') (hentered : entered ⊆ entered')
    (hlive : ∀ s ∈ live', s.info.tokenHash ∈ live.map (·.info.tokenHash) ∨ s.info.tokenHash ∉ entered)
    (h : task.Backed issued uses entered live) : task.Backed issued' uses' entered' live' := by
  cases task with
  | insert info => exact ⟨hissued h.issued, huses h.used⟩
  | enter info => exact ⟨hissued h.issued, huses h.used⟩
  | touch tokenHash used => exact huses h
  | finish tokenHash => exact hentered h
  | delete tokenHash =>
    refine ⟨hentered h.1, fun s hs heq => ?_⟩
    rcases hlive s hs with hmem | hnew
    · obtain ⟨old, hold, hsame⟩ := List.mem_map.mp hmem
      exact h.2 old hold (hsame.trans heq)
    · exact hnew (heq ▸ h.1)

theorem login {bytes : List UInt8} {user : String} {role : Role} {client : String} (h : Kept w)
    (hfresh : hash (base64url bytes) ∉ w.issued.map (·.1)) :
    Kept (w.login hash (base64url bytes) user role client now) := by
  have hissued : w.issued ⊆ (hash (base64url bytes), now) :: w.issued := List.subset_cons_self _ _
  have huses : w.uses ⊆ (hash (base64url bytes), now) :: w.uses := List.subset_cons_self _ _
  have hnew : hash (base64url bytes) ∉ w.entered := fun hmem => hfresh (h.entered _ hmem)
  have harriving : hash (base64url bytes) ∉ Sessions.arriving w.tasks := by
    intro hmem
    obtain ⟨info, hinfo, htask⟩ := mem_arriving.mp hmem
    have hbacked : Backed w.issued w.uses info := htask.elim (h.tasks _) (h.tasks _)
    exact hfresh (hinfo ▸ List.mem_map_of_mem hbacked.issued)
  refine ⟨List.nodup_cons.mpr ⟨hfresh, h.once⟩, fun tokenHash hmem => List.mem_cons_of_mem _ (h.entered _ hmem),
    h.ended, ⟨List.nodup_cons.mpr ⟨harriving, h.arriving.1⟩, List.forall_mem_cons.mpr ⟨hnew, h.arriving.2⟩⟩,
    List.forall_mem_cons.mpr ⟨⟨List.mem_cons_self, List.mem_cons_self⟩, fun task htask => ?_⟩, fun s hs => ?_,
    fun row hrow => ?_⟩
  · exact task_mono hissued huses (List.Subset.refl _) (fun s hs => .inl (List.mem_map_of_mem hs)) (h.tasks task htask)
  · obtain ⟨hbacked, hrest⟩ := h.live s hs
    exact ⟨⟨hissued hbacked.issued, huses hbacked.used⟩, hrest⟩
  · obtain ⟨⟨hrowIssued, hrowUsed⟩, hended⟩ := h.rows row hrow
    exact ⟨⟨hissued hrowIssued, huses hrowUsed⟩, hended⟩

theorem finishing (h : Kept w) (hentered : tokenHash ∈ w.entered) :
    Kept { w with clock := now, tasks := .finish tokenHash :: w.tasks } :=
  { h with tasks := List.forall_mem_cons.mpr ⟨hentered, h.tasks⟩ }

theorem look (h : Kept w) : Kept (w.look hash policy token now activity) := by
  rcases look_cases w hash policy token now activity with
    heq | ⟨session, reason, hfind, -, heq⟩ | ⟨live, info, write, hpassed, heq⟩
  · rw [heq]
    exact { h with }
  · rw [heq]
    obtain ⟨hmem, hhash⟩ := find_eq_some hfind
    exact h.finishing (hhash ▸ (h.live session hmem).2.1)
  · rw [heq]
    have huses : w.uses ⊆ if activity then (hash token, now) :: w.uses else w.uses := by
      split
      · exact List.subset_cons_self _ _
      · exact List.Subset.refl _
    have hnames : ∀ s ∈ live, s.info.tokenHash ∈ w.live.map (·.info.tokenHash) := by
      intro s hs
      rcases hpassed.mem hs with hold | ⟨-, session, hsession, -, hinfo⟩
      · exact List.mem_map_of_mem hold
      · rw [hinfo]
        exact List.mem_map_of_mem hsession
    have hold : ∀ task ∈ w.tasks,
        task.Backed w.issued (if activity then (hash token, now) :: w.uses else w.uses) w.entered live := fun task htask =>
      task_mono (List.Subset.refl _) huses (List.Subset.refl _) (fun s hs => .inl (hnames s hs)) (h.tasks task htask)
    refine ⟨h.once, h.entered, h.ended, ?_, fun task htask => ?_, fun s hs => ?_, fun row hrow => ?_⟩
    · show (Sessions.arriving (if write then .touch (hash token) now :: w.tasks else w.tasks)).Nodup ∧ _
      have hsame : Sessions.arriving (if write then .touch (hash token) now :: w.tasks else w.tasks) =
          Sessions.arriving w.tasks := by
        split <;> rfl
      rw [hsame]
      exact h.arriving
    · dsimp only at htask
      split at htask
      · rename_i hwrite
        rcases List.mem_cons.mp htask with rfl | htask
        · show (hash token, now) ∈ if activity then (hash token, now) :: w.uses else w.uses
          rw [if_pos (hpassed.write_active hwrite)]
          exact List.mem_cons_self
        · exact hold task htask
      · exact hold task htask
    · rcases hpassed.mem hs with hmem | ⟨hactive, session, hsession, hname, hinfo⟩
      · obtain ⟨hbacked, hrest⟩ := h.live s hmem
        exact ⟨⟨hbacked.issued, huses hbacked.used⟩, hrest⟩
      · obtain ⟨hbacked, hrest⟩ := h.live session hsession
        rw [hinfo]
        refine ⟨⟨hbacked.issued, ?_⟩, hrest⟩
        show (session.info.tokenHash, now) ∈ if activity then (hash token, now) :: w.uses else w.uses
        rw [if_pos hactive, hname]
        exact List.mem_cons_self
    · obtain ⟨⟨hissued, hused⟩, hended⟩ := h.rows row hrow
      exact ⟨⟨hissued, huses hused⟩, hended⟩

theorem «end» (h : Kept w) (hentered : tokenHash ∈ w.entered) : Kept (w.end tokenHash) := by
  refine { h with
    tasks := List.forall_mem_cons.mpr ⟨⟨hentered, fun s hs => (mem_remove.mp hs).2⟩, fun task htask => ?_⟩
    live := fun s hs => h.live s (mem_remove.mp hs).1 }
  refine task_mono (List.Subset.refl _) (List.Subset.refl _) (List.Subset.refl _) (fun s hs => .inl ?_)
    (h.tasks task htask)
  exact List.mem_map_of_mem (mem_remove.mp hs).1

theorem exec (h : Kept w) (htask : task ∈ w.tasks) : Kept ({ w with tasks := w.tasks.erase task }.exec task) := by
  have hrest := h.erase htask
  have hbacked := h.tasks task htask
  have hperm := arriving_erase htask
  cases task with
  | insert info =>
    have harriving := h.arriving
    rw [hperm.nodup_iff] at harriving
    have hnew : info.tokenHash ∉ w.entered := h.arriving.2 _ (hperm.mem_iff.mpr List.mem_cons_self)
    refine { hrest with
      arriving := ⟨harriving.1, fun tokenHash hmem => h.arriving.2 tokenHash (hperm.mem_iff.mpr hmem)⟩
      tasks := List.forall_mem_cons.mpr ⟨hbacked, hrest.tasks⟩
      rows := List.forall_mem_cons.mpr ⟨⟨⟨hbacked.issued, hbacked.used⟩, ?_⟩, h.rows⟩ }
    exact fun hended => hnew (h.ended _ hended)
  | enter info =>
    have hnodup : (info.tokenHash :: Sessions.arriving (w.tasks.erase (.enter info))).Nodup :=
      hperm.nodup_iff.mp h.arriving.1
    have hnew : info.tokenHash ∉ w.entered := h.arriving.2 _ (hperm.mem_iff.mpr List.mem_cons_self)
    refine { hrest with
      entered := List.forall_mem_cons.mpr ⟨List.mem_map_of_mem hbacked.issued, h.entered⟩
      ended := fun tokenHash hmem => List.mem_cons_of_mem _ (h.ended tokenHash hmem)
      arriving := ⟨(List.nodup_cons.mp hnodup).2, fun tokenHash hmem => ?_⟩
      tasks := fun other hother => ?_
      live := fun s hs => ?_ }
    · have hne : tokenHash ≠ info.tokenHash := by
        rintro rfl
        exact (List.nodup_cons.mp hnodup).1 hmem
      exact List.not_mem_cons_of_ne_of_not_mem hne (hrest.arriving.2 tokenHash hmem)
    · refine task_mono (List.Subset.refl _) (List.Subset.refl _) (List.subset_cons_self _ _) (fun s hs => ?_)
        (hrest.tasks other hother)
      rcases mem_put.mp hs with rfl | ⟨hs, -⟩
      · exact .inr hnew
      · exact .inl (List.mem_map_of_mem hs)
    · rcases mem_put.mp hs with rfl | ⟨hs, -⟩
      · exact ⟨hbacked, List.mem_cons_self, fun hended => hnew (h.ended _ hended)⟩
      · obtain ⟨hold, hentered, hended⟩ := h.live s hs
        exact ⟨hold, List.mem_cons_of_mem _ hentered, hended⟩
  | touch tokenHash used =>
    refine { hrest with rows := fun row hrow => ?_ }
    obtain ⟨old, hold, rfl⟩ := List.mem_map.mp hrow
    obtain ⟨⟨hissued, hused⟩, hended⟩ := h.rows old hold
    split
    · rename_i heq
      exact ⟨⟨hissued, heq ▸ hbacked⟩, hended⟩
    · exact ⟨⟨hissued, hused⟩, hended⟩
  | finish tokenHash => exact hrest.end hbacked
  | delete tokenHash =>
    refine { hrest with
      ended := List.forall_mem_cons.mpr ⟨hbacked.1, h.ended⟩
      live := fun s hs => ?_
      rows := fun row hrow => ?_ }
    · obtain ⟨hold, hentered, hended⟩ := h.live s hs
      exact ⟨hold, hentered, List.not_mem_cons_of_ne_of_not_mem (hbacked.2 s hs) hended⟩
    · obtain ⟨hmem, hne⟩ := List.mem_filter.mp hrow
      obtain ⟨hold, hended⟩ := h.rows row hmem
      exact ⟨hold, List.not_mem_cons_of_ne_of_not_mem (by simpa using hne) hended⟩

theorem load (h : Kept w) : Kept (w.load isAddress) := by
  refine ⟨h.once, fun tokenHash hmem => ?_, fun tokenHash hmem => List.mem_append_right _ (h.ended tokenHash hmem),
    ⟨List.nodup_nil, fun _ hmem => absurd hmem List.not_mem_nil⟩, fun _ hmem => absurd hmem List.not_mem_nil,
    fun s hs => ?_, fun row hrow => h.rows row (List.mem_filter.mp hrow).1⟩
  · rcases List.mem_append.mp hmem with hnew | hold
    · obtain ⟨row, hrow, rfl⟩ := List.mem_map.mp hnew
      exact List.mem_map_of_mem (h.rows row hrow).1.1
    · exact h.entered tokenHash hold
  · obtain ⟨info, hinfo, rfl⟩ := List.mem_map.mp hs
    obtain ⟨row, hrow, hread⟩ := List.mem_filterMap.mp hinfo
    obtain ⟨⟨hissued, hused⟩, hended⟩ := h.rows row hrow
    unfold Row.info at hread
    split at hread
    · split at hread
      · obtain rfl := Option.some.inj hread
        exact ⟨⟨hissued, hused⟩, List.mem_append_left _ (List.mem_map_of_mem hrow), hended⟩
      · cases hread
    · cases hread

theorem step (h : Kept w) (hstep : Step hash isAddress policy w label w') : Kept w' := by
  cases hstep with
  | login _ _ hfresh => exact h.login hfresh
  | look _ => exact h.look
  | notice _ hmem _ => exact h.finishing (h.live _ hmem).2.1
  | close hentered => exact { h.end hentered with }
  | resume htask => exact h.exec htask
  | fail htask => exact h.erase htask
  | restart => exact h.load

theorem run (h : Run (Step hash isAddress policy) {} labels w) : Kept w :=
  h.invariant (fun _ _ _ hkept hstep => hkept.step hstep) start

end Kept

/-- In every run, whatever tasks fail and wherever the engine restarts, a token that a check passes is one that a
login issued within the absolute limit, it was used within the idle limit, and no end of its session is done. -/
theorem sessions_end_on_time (h : Run (Step hash isAddress policy) {} labels w) {live : List Live} {write : Bool}
    (hvalid : lookup hash policy w.live token now activity = (live, .valid info, write)) :
    (hash token, info.createdMs) ∈ w.issued ∧ now - info.createdMs < policy.absoluteMs ∧
      (∃ used, (hash token, used) ∈ w.uses ∧ now - used < policy.idleMs) ∧ hash token ∉ w.ended := by
  rcases lookup_cases hash policy w.live token now activity with
    ⟨heq, -⟩ | ⟨_, _, heq, -⟩ | ⟨_, _, _, heq, hpassed⟩
  · rw [hvalid] at heq
    cases heq
  · rw [hvalid] at heq
    cases heq
  · rw [hvalid] at heq
    cases heq
    obtain ⟨session, hmem, hhash, hwithin, hcreated⟩ := hpassed.found
    obtain ⟨hbacked, -, hended⟩ := (Kept.run h).live session hmem
    rw [expiry_eq_none] at hwithin
    rw [hcreated, ← hhash]
    exact ⟨hbacked.issued, hwithin.1, ⟨_, hbacked.used, hwithin.2⟩, hended⟩

/-! ## A login and a request -/

/-- The hash of the token of 32 zero bytes. -/
def smallHash (_ : String) : String := "0f007385b6f9d4b7eeb2748605afe1a984a0a3bfa3f014d09e2a784ce9e5cd1a"

def smallAddress (text : String) : Bool := text = "100.64.0.9"

def smallBytes : List UInt8 := List.replicate 32 0

def smallInfo : SessionInfo :=
  ⟨smallHash (base64url smallBytes), "alice@pve", .operator, "100.64.0.9", 1000, 1000⟩

def smallWorld : World :=
  { live := [.new smallInfo]
    rows := [smallInfo.row]
    clock := 1000
    issued := [(smallInfo.tokenHash, 1000)]
    uses := [(smallInfo.tokenHash, 1000)]
    entered := [smallInfo.tokenHash] }

def smallLabels : List Label :=
  [.login smallBytes "alice@pve" .operator "100.64.0.9" 1000, .resume (.insert smallInfo),
    .resume (.enter smallInfo)]

theorem run_small : Run (Step smallHash smallAddress {}) {} smallLabels smallWorld := by
  refine .cons (.login rfl (by decide) List.not_mem_nil) (.cons (.resume List.mem_cons_self)
    (.cons (.resume List.mem_cons_self) (Run.nil_iff.mpr ?_)))
  have hinsert : [Task.insert smallInfo].erase (.insert smallInfo) = [] := List.erase_cons_head _ _
  have henter : [Task.enter smallInfo].erase (.enter smallInfo) = [] := List.erase_cons_head _ _
  show smallWorld = World.exec { World.exec { World.login smallHash {} (base64url smallBytes) "alice@pve" .operator
    "100.64.0.9" 1000 with tasks := [Task.insert smallInfo].erase (.insert smallInfo) } (.insert smallInfo) with
    tasks := (Task.enter smallInfo :: [Task.insert smallInfo].erase (.insert smallInfo)).erase (.enter smallInfo) }
      (.enter smallInfo)
  rw [hinsert, henter]
  rfl

/-- A minute after the login. -/
theorem sessions_end_on_time_small :
    (smallHash (base64url smallBytes), smallInfo.createdMs) ∈ smallWorld.issued ∧
      61000 - smallInfo.createdMs < ({} : SessionPolicy).absoluteMs ∧
      (∃ used, (smallHash (base64url smallBytes), used) ∈ smallWorld.uses ∧
        61000 - used < ({} : SessionPolicy).idleMs) ∧
      smallHash (base64url smallBytes) ∉ smallWorld.ended := by
  have hvalid : lookup smallHash {} smallWorld.live (base64url smallBytes) 61000 false =
      (smallWorld.live, .valid smallInfo, false) := by decide +kernel
  exact sessions_end_on_time run_small hvalid

/-! ## Runs without a restart -/

/-- When a session was last used. -/
structure Latest (uses : List (String × Int)) (tokenHash : String) (used : Int) : Prop where
  mem : (tokenHash, used) ∈ uses
  le : ∀ other, (tokenHash, other) ∈ uses → other ≤ used

/-- A session is past a limit. -/
def Over (policy : SessionPolicy) (issued uses : List (String × Int)) (clock : Int) (tokenHash : String) : Prop :=
  (∀ created, (tokenHash, created) ∈ issued → policy.absoluteMs ≤ clock - created) ∨
    ∀ used, (tokenHash, used) ∈ uses → policy.idleMs ≤ clock - used

structure Exact (policy : SessionPolicy) (w : World) : Prop where
  kept : Kept w
  past : ∀ use ∈ w.uses, use.2 ≤ w.clock
  known : ∀ use ∈ w.uses, use.1 ∈ w.issued.map (·.1)
  distinct : (w.live.map (·.info.tokenHash)).Nodup
  latest : ∀ s ∈ w.live, Latest w.uses s.info.tokenHash s.info.lastUsedMs
  arriving : ∀ info, .insert info ∈ w.tasks ∨ .enter info ∈ w.tasks → Latest w.uses info.tokenHash info.lastUsedMs
  finishing : ∀ tokenHash, .finish tokenHash ∈ w.tasks → Over policy w.issued w.uses w.clock tokenHash
  there : ∀ tokenHash ∈ w.entered, tokenHash ∉ w.closed →
    (∃ s ∈ w.live, s.info.tokenHash = tokenHash) ∨ Over policy w.issued w.uses w.clock tokenHash

theorem Latest.other {uses : List (String × Int)} {other : String} {used : Int} (h : Latest uses tokenHash used)
    (hne : other ≠ tokenHash) : Latest ((other, now) :: uses) tokenHash used := by
  refine ⟨List.mem_cons_of_mem _ h.mem, fun time hmem => ?_⟩
  rcases List.mem_cons.mp hmem with heq | hmem
  · exact absurd (congrArg Prod.fst heq).symm hne
  · exact h.le time hmem

/-- A use that is no later than the last one. -/
theorem Latest.again {other : String} {used : Int} (h : Latest uses tokenHash used)
    (hle : activity = true → other = tokenHash ∧ now ≤ used) :
    Latest (if activity then (other, now) :: uses else uses) tokenHash used := by
  split
  · rename_i hactive
    refine ⟨List.mem_cons_of_mem _ h.mem, fun time hmem => ?_⟩
    rcases List.mem_cons.mp hmem with heq | hmem
    · exact (congrArg Prod.snd heq).trans_le (hle hactive).2
    · exact h.le time hmem
  · exact h

theorem Over.later {issued : List (String × Int)} {clock clock' : Int} (h : Over policy issued uses clock tokenHash)
    (hle : clock ≤ clock') : Over policy issued uses clock' tokenHash := by
  refine h.imp (fun hall created hmem => ?_) fun hall used hmem => ?_
  · have := hall created hmem
    omega
  · have := hall used hmem
    omega

theorem Over.other {issued uses : List (String × Int)} {clock : Int} {other : String}
    (h : Over policy issued uses clock tokenHash) (hne : other ≠ tokenHash) :
    Over policy issued ((other, now) :: uses) clock tokenHash := by
  refine h.imp id fun hall used hmem => ?_
  rcases List.mem_cons.mp hmem with heq | hmem
  · exact absurd (congrArg Prod.fst heq).symm hne
  · exact hall used hmem

theorem issued_unique (h : Kept w) {created created' : Int} (hmem : (tokenHash, created) ∈ w.issued)
    (hmem' : (tokenHash, created') ∈ w.issued) : created = created' :=
  congrArg Prod.snd (List.inj_on_of_nodup_map h.once hmem hmem' rfl)

namespace Exact

variable {s : Live}

/-- Checks refuse exactly the sessions that are past a limit. -/
theorem over_iff (h : Exact policy w) (hs : s ∈ w.live) :
    Over policy w.issued w.uses now s.info.tokenHash ↔ expiry policy s.info now ≠ none := by
  have hlatest := h.latest s hs
  have hbacked := (h.kept.live s hs).1
  rw [ne_eq, expiry_eq_none, not_and_or, not_lt, not_lt]
  refine or_congr ⟨fun hall => hall _ hbacked.issued, fun hle created hmem => ?_⟩
    ⟨fun hall => hall _ hlatest.mem, fun hle used hmem => ?_⟩
  · rwa [issued_unique h.kept hmem hbacked.issued]
  · have := hlatest.le used hmem
    omega

theorem unique (h : Exact policy w) {s' : Live} (hs : s ∈ w.live) (hs' : s' ∈ w.live)
    (heq : s.info.tokenHash = s'.info.tokenHash) : s = s' :=
  List.inj_on_of_nodup_map h.distinct hs hs' heq

theorem start (policy : SessionPolicy) : Exact policy {} := by
  refine ⟨Kept.start, ?_, ?_, List.nodup_nil, ?_, ?_, ?_, ?_⟩ <;> simp

theorem later (h : Exact policy w) (hle : w.clock ≤ now) : Exact policy { w with clock := now } :=
  { h with
    kept := { h.kept with }
    past := fun use huse => (h.past use huse).trans hle
    finishing := fun tokenHash hmem => (h.finishing tokenHash hmem).later hle
    there := fun tokenHash hmem hopen => (h.there tokenHash hmem hopen).imp id fun hover => hover.later hle }

theorem erase (h : Exact policy w) (htask : task ∈ w.tasks) : Exact policy { w with tasks := w.tasks.erase task } :=
  { h with
    kept := h.kept.erase htask
    arriving := fun info hmem => h.arriving info (hmem.imp List.mem_of_mem_erase List.mem_of_mem_erase)
    finishing := fun tokenHash hmem => h.finishing tokenHash (List.mem_of_mem_erase hmem) }

theorem finish (h : Exact policy w) (hentered : tokenHash ∈ w.entered)
    (hover : Over policy w.issued w.uses w.clock tokenHash) :
    Exact policy { w with tasks := .finish tokenHash :: w.tasks } := by
  refine { h with
    kept := { h.kept with tasks := List.forall_mem_cons.mpr ⟨hentered, h.kept.tasks⟩ }
    arriving := fun info hmem => ?_
    finishing := fun other hmem => ?_ }
  · simp only [List.mem_cons, reduceCtorEq, false_or] at hmem
    exact h.arriving info hmem
  · rcases List.mem_cons.mp hmem with heq | hmem
    · cases heq
      exact hover
    · exact h.finishing other hmem

theorem «end» (h : Exact policy w) (hentered : tokenHash ∈ w.entered) {closed : List String}
    (hsub : w.closed ⊆ closed) (hdone : tokenHash ∈ closed ∨ Over policy w.issued w.uses w.clock tokenHash) :
    Exact policy { w.end tokenHash with closed } := by
  refine { h with
    kept := { h.kept.end hentered with }
    distinct := h.distinct.sublist (List.filter_sublist.map _)
    latest := fun s hs => h.latest s (mem_remove.mp hs).1
    arriving := fun info hmem => ?_
    finishing := fun other hmem => ?_
    there := fun other hmem hopen => ?_ }
  · simp only [World.end, List.mem_cons, reduceCtorEq, false_or] at hmem
    exact h.arriving info hmem
  · simp only [World.end, List.mem_cons, reduceCtorEq, false_or] at hmem
    exact h.finishing other hmem
  · by_cases heq : other = tokenHash
    · subst heq
      exact .inr (hdone.resolve_left hopen)
    · refine (h.there other hmem fun hclosed => hopen (hsub hclosed)).imp ?_ id
      rintro ⟨s, hs, rfl⟩
      exact ⟨s, mem_remove.mpr ⟨hs, heq⟩, rfl⟩

theorem not_fresh (hfresh : tokenHash ∉ w.issued.map (·.1)) {other : String}
    (hmem : other ∈ w.issued.map (·.1)) : tokenHash ≠ other := by
  rintro rfl
  exact hfresh hmem

theorem arriving_issued (h : Kept w) (hmem : Task.insert info ∈ w.tasks ∨ .enter info ∈ w.tasks) :
    info.tokenHash ∈ w.issued.map (·.1) ∧ info.tokenHash ∉ w.entered := by
  have hbacked : Backed w.issued w.uses info := hmem.elim (h.tasks _) (h.tasks _)
  exact ⟨List.mem_map_of_mem hbacked.issued, h.arriving.2 _ (mem_arriving.mpr ⟨info, rfl, hmem⟩)⟩

theorem login {bytes : List UInt8} {user : String} {role : Role} {client : String} (h : Exact policy w)
    (hle : w.clock ≤ now) (hfresh : hash (base64url bytes) ∉ w.issued.map (·.1)) :
    Exact policy (w.login hash (base64url bytes) user role client now) := by
  have hnew : ∀ used, (hash (base64url bytes), used) ∉ w.uses := fun used hmem => hfresh (h.known _ hmem)
  have hover : ∀ {other : String}, other ∈ w.issued.map (·.1) → Over policy w.issued w.uses w.clock other →
      Over policy ((hash (base64url bytes), now) :: w.issued) ((hash (base64url bytes), now) :: w.uses) now other := by
    intro other hother hold
    have hne := not_fresh hfresh hother
    refine ((hold.later hle).other hne).imp (fun hall created hmem => ?_) id
    rcases List.mem_cons.mp hmem with heq | hmem
    · exact absurd (congrArg Prod.fst heq).symm hne
    · exact hall created hmem
  refine ⟨h.kept.login hfresh, List.forall_mem_cons.mpr ⟨le_rfl, fun use huse => (h.past use huse).trans hle⟩,
    List.forall_mem_cons.mpr ⟨List.mem_cons_self, fun use huse => List.mem_cons_of_mem _ (h.known use huse)⟩,
    h.distinct, fun s hs => ?_, fun info hmem => ?_, fun other hmem => ?_, fun other hmem hopen => ?_⟩
  · exact (h.latest s hs).other (not_fresh hfresh (h.kept.entered _ (h.kept.live s hs).2.1))
  · simp only [World.login, List.mem_cons, Task.insert.injEq, reduceCtorEq, false_or, or_assoc] at hmem
    rcases hmem with rfl | hmem
    · refine ⟨List.mem_cons_self, fun other hmem => ?_⟩
      rcases List.mem_cons.mp hmem with heq | hmem
      · exact (congrArg Prod.snd heq).le
      · exact absurd hmem (hnew other)
    · exact (h.arriving info hmem).other (not_fresh hfresh (arriving_issued h.kept hmem).1)
  · simp only [World.login, List.mem_cons, reduceCtorEq, false_or] at hmem
    exact hover (h.kept.entered _ (h.kept.tasks _ hmem)) (h.finishing other hmem)
  · exact (h.there other hmem hopen).imp id (hover (h.kept.entered _ hmem))

theorem nodup_put (h : (live.map (·.info.tokenHash)).Nodup) (session : Live) :
    ((put live session).map (·.info.tokenHash)).Nodup := by
  refine List.nodup_cons.mpr ⟨fun hmem => ?_, h.sublist (List.filter_sublist.map _)⟩
  obtain ⟨s, hs, heq⟩ := List.mem_map.mp hmem
  exact (mem_remove.mp hs).2 heq

/-- A use of a session that is within its limits. -/
theorem passed (h : Exact policy w) (hle : w.clock ≤ now) {write : Bool}
    (hpassed : Passed hash policy w.live token now activity live info write)
    (hkept : Kept { w with
      live
      clock := now
      tasks := if write then .touch (hash token) now :: w.tasks else w.tasks
      uses := if activity then (hash token, now) :: w.uses else w.uses }) :
    Exact policy { w with
      live
      clock := now
      tasks := if write then .touch (hash token) now :: w.tasks else w.tasks
      uses := if activity then (hash token, now) :: w.uses else w.uses } := by
  obtain ⟨session, hsession, hname, hwithin, -⟩ := hpassed.found
  have hentered := (h.kept.live session hsession).2.1
  rw [hname] at hentered
  have hissued := h.kept.entered _ hentered
  have htasks : ∀ {task : Task}, (∀ used, task ≠ .touch (hash token) used) →
      task ∈ (if write then .touch (hash token) now :: w.tasks else w.tasks) → task ∈ w.tasks := by
    intro task hne hmem
    split at hmem
    · exact (List.mem_cons.mp hmem).resolve_left (hne now)
    · exact hmem
  have hother : ∀ {other : String} {used : Int}, Latest w.uses other used → hash token ≠ other →
      Latest (if activity then (hash token, now) :: w.uses else w.uses) other used := by
    intro other used hlatest hne
    split
    · exact hlatest.other hne
    · exact hlatest
  have hover : ∀ {other : String}, Over policy w.issued w.uses w.clock other →
      Over policy w.issued (if activity then (hash token, now) :: w.uses else w.uses) now other := by
    intro other hold
    have hne : hash token ≠ other := by
      rintro rfl
      exact (h.over_iff hsession).mp (hname ▸ hold.later hle) hwithin
    split
    · exact (hold.later hle).other hne
    · exact hold.later hle
  refine ⟨hkept, fun use huse => ?_, fun use huse => ?_, ?_, fun s hs => ?_, fun info hmem => ?_,
    fun other hmem => hover (h.finishing other (htasks (by simp) hmem)), fun other hmem hopen => ?_⟩
  · dsimp only at huse
    split at huse
    · rcases List.mem_cons.mp huse with rfl | huse
      · exact le_rfl
      · exact (h.past use huse).trans hle
    · exact (h.past use huse).trans hle
  · dsimp only at huse
    split at huse
    · rcases List.mem_cons.mp huse with rfl | huse
      · exact hissued
      · exact h.known use huse
    · exact h.known use huse
  · cases hpassed with
    | seen _ _ _ => exact h.distinct
    | used _ _ _ _ => exact nodup_put h.distinct _
  · cases hpassed with
    | seen hfind _ hseen =>
      obtain ⟨hmem, hhash⟩ := find_eq_some hfind
      by_cases heq : hash token = s.info.tokenHash
      · obtain rfl := h.unique hs hmem (heq.symm.trans hhash.symm)
        refine (h.latest s hs).again fun hactive => ?_
        exact ⟨heq, hseen hactive⟩
      · exact hother (h.latest s hs) heq
    | used hfind _ hactive _ =>
      obtain ⟨hmem, hhash⟩ := find_eq_some hfind
      rcases mem_put.mp hs with rfl | ⟨hs, hne⟩
      · rw [touched_info, if_pos hactive]
        refine ⟨by simp [hhash], fun used huse => ?_⟩
        rcases List.mem_cons.mp huse with heq | huse
        · exact (congrArg Prod.snd heq).le
        · exact (h.past _ huse).trans hle
      · rw [touched_info] at hne
        exact hother (h.latest s hs) fun heq => hne (heq.symm.trans hhash.symm)
  · have hmem' : Task.insert info ∈ w.tasks ∨ .enter info ∈ w.tasks :=
      hmem.imp (htasks (by simp)) (htasks (by simp))
    refine hother (h.arriving info hmem') ?_
    rintro heq
    exact (arriving_issued h.kept hmem').2 (heq ▸ hentered)
  · refine (h.there other hmem hopen).imp ?_ hover
    rintro ⟨s, hs, rfl⟩
    cases hpassed with
    | seen _ _ _ => exact ⟨s, hs, rfl⟩
    | @used session' _ _ _ _ =>
      by_cases heq : s.info.tokenHash = (session'.touched now).1.info.tokenHash
      · exact ⟨_, mem_put.mpr (.inl rfl), heq.symm⟩
      · exact ⟨s, mem_put.mpr (.inr ⟨hs, heq⟩), rfl⟩

theorem look (h : Exact policy w) (hle : w.clock ≤ now) : Exact policy (w.look hash policy token now activity) := by
  have hkept : Kept (w.look hash policy token now activity) := h.kept.look
  rcases look_cases w hash policy token now activity with
    heq | ⟨session, reason, hfind, hreason, heq⟩ | ⟨live, info, write, hpassed, heq⟩
  · rw [heq]
    exact h.later hle
  · rw [heq]
    obtain ⟨hmem, hhash⟩ := find_eq_some hfind
    have hover : Over policy w.issued w.uses now (hash token) :=
      hhash ▸ (h.over_iff hmem).mpr (by simp [hreason])
    exact (h.later hle).finish (hhash ▸ (h.kept.live session hmem).2.1) hover
  · rw [heq] at hkept ⊢
    exact h.passed hle hpassed hkept

theorem exec (h : Exact policy w) (htask : task ∈ w.tasks) :
    Exact policy ({ w with tasks := w.tasks.erase task }.exec task) := by
  have hrest := h.erase htask
  have hkept := h.kept.exec htask
  cases task with
  | insert info =>
    refine { hrest with kept := hkept, arriving := fun other hmem => ?_, finishing := fun other hmem => ?_ }
    · simp only [World.exec, List.mem_cons, Task.enter.injEq, reduceCtorEq, false_or] at hmem
      rcases hmem with hmem | rfl | hmem
      · exact hrest.arriving other (.inl hmem)
      · exact h.arriving other (.inl htask)
      · exact hrest.arriving other (.inr hmem)
    · simp only [World.exec, List.mem_cons, reduceCtorEq, false_or] at hmem
      exact hrest.finishing other hmem
  | enter info =>
    refine { hrest with
      kept := hkept
      distinct := nodup_put h.distinct _
      latest := fun s hs => ?_
      there := fun other hmem hopen => ?_ }
    · rcases mem_put.mp hs with rfl | ⟨hs, -⟩
      · exact h.arriving info (.inr htask)
      · exact h.latest s hs
    · by_cases heq : other = info.tokenHash
      · exact .inl ⟨_, mem_put.mpr (.inl rfl), heq.symm⟩
      · refine (h.there other ((List.mem_cons.mp hmem).resolve_left heq) hopen).imp ?_ id
        rintro ⟨s, hs, rfl⟩
        exact ⟨s, mem_put.mpr (.inr ⟨hs, heq⟩), rfl⟩
  | touch tokenHash used => exact { hrest with kept := hkept }
  | finish tokenHash =>
    exact hrest.end (h.kept.tasks _ htask) (List.Subset.refl _) (.inr (h.finishing tokenHash htask))
  | delete tokenHash => exact { hrest with kept := hkept }

theorem step (h : Exact policy w) (hstep : Step hash isAddress policy w label w') (hlabel : label ≠ .restart) :
    Exact policy w' := by
  cases hstep with
  | login _ hle hfresh => exact h.login hle hfresh
  | look hle => exact h.look hle
  | notice hle hmem hpast =>
    have hover := (h.over_iff hmem).mpr (Option.isSome_iff_ne_none.mp hpast)
    exact (h.later hle).finish (h.kept.live _ hmem).2.1 hover
  | close hentered => exact h.end hentered (List.subset_cons_self _ _) (.inl List.mem_cons_self)
  | resume htask => exact h.exec htask
  | fail htask => exact h.erase htask
  | restart => exact absurd rfl hlabel

theorem run (h : Run (Step hash isAddress policy) {} labels w) (hlabels : .restart ∉ labels) : Exact policy w := by
  refine h.invariant_of (fun _ label _ hmem hexact hstep => hexact.step hstep ?_) (start policy)
  rintro rfl
  exact hlabels hmem

end Exact

end

end Bmac.Bmacd.Sessions
