import Bmac.Haproxy.Rollout

/-!
# Open nodes serve compatible generations

The cluster while a rollout runs: which nodes' public ingress is open, what their HAProxy serves, and
which generation is desired. A step that fails may have done any part of its work. At every moment an
open node serves the desired generation or one that is compatible with it.
-/

namespace Bmac.Haproxy

open Bmac.Base Bmac.Core Bmac.Registry

structure World where
  opened : HostSlot → Prop
  /-- The generation that the node's HAProxy serves, when it runs. -/
  serving : HostSlot → Option String
  desired : Option String
  /-- The nodes that went offline at some time. -/
  gone : HostSlot → Prop

-- The routes of each generation, whose name is their digest, and the generation that is rolled out.
variable (routes : String → List ServedRoute) (generation : String)

/-- One generation may be served while another one is desired. -/
def Allowed (serving desired : String) : Prop :=
  serving = desired ∨ (compareGenerations (routes serving) (routes desired)).compatible = true

/-- An open node that stays online serves the desired generation or a compatible one. -/
def Serves (nodes : List HostSlot) (w : World) : Prop :=
  ∀ node ∈ nodes, ¬ w.gone node → w.opened node → ∀ g, w.serving node = some g →
    ∃ d, w.desired = some d ∧ Allowed routes g d

/-- Nothing but one node's ingress and HAProxy changes. -/
def World.Same (w w' : World) (node : HostSlot) : Prop :=
  w'.desired = w.desired ∧ w'.gone = w.gone ∧
    ∀ other, other ≠ node → w'.opened other = w.opened other ∧ w'.serving other = w.serving other

/-- What a step may do, and answer: all of its work when it succeeds, any part of it when it fails. -/
def exec (w : World) : (c : Call) → Reply c → World → Prop
  | .isCurrent node g, r, w' => w' = w ∧ (r = true → w.serving node = some g)
  -- A container that doesn't run is started.
  | .stage node, _, w' => w.Same w' node ∧ w'.opened node = w.opened node ∧
      (w.serving node ≠ none → w'.serving node = w.serving node)
  | .disable node, r, w' => w.Same w' node ∧ (w'.opened node → w.opened node) ∧
      (r = true → ¬ w'.opened node ∧ w'.serving node = w.serving node) ∧
      -- A container is stopped when its table can't be deleted.
      (w'.serving node = w.serving node ∨ w'.serving node = none)
  | .fetch _ g, r, w' => w' = w ∧ ∀ previous, r = some previous → previous = routes g
  | .publish _, r, w' => w'.opened = w.opened ∧ w'.serving = w.serving ∧ w'.gone = w.gone ∧
      (w'.desired = w.desired ∨ w'.desired = some generation) ∧
      (r ≠ none → w'.desired = some generation)
  | .install node, r, w' => w.Same w' node ∧ w'.opened node = w.opened node ∧
      (w'.serving node = w.serving node ∨ w'.serving node = some generation ∨
        w'.serving node = none) ∧
      (r = true → w'.serving node = some generation)
  | .load node, _, w' => w.Same w' node ∧ w'.serving node = w.serving node
  | .prune _, _, w' => w' = w
  | .online, _, w' => w' = w
  | .status, _, w' => w' = w
  | .facts _, _, w' => w' = w
  | .mark _ _, _, w' => w' = w
  | .finalize, _, w' => w' = w

/-- What happens by itself: nodes go offline, and nodes are closed. -/
def drift (w w' : World) : Prop :=
  w'.desired = w.desired ∧ ∀ node, ¬ w'.gone node →
    ¬ w.gone node ∧ w'.serving node = w.serving node ∧ (w'.opened node → w.opened node)

/-- A call is safe where its outcomes keep `Serves`. -/
def rules (nodes : List HostSlot) : Rules World Call Reply where
  exec := exec routes generation
  rely := drift
  guar w c := ∀ r w', exec routes generation w c r w' → Serves routes nodes w'
  inv := Serves routes nodes
  rely_trans := by
    rintro a b c ⟨hd, h⟩ ⟨hd', h'⟩
    refine ⟨hd'.trans hd, fun node hgone => ?_⟩
    obtain ⟨h1, h2, h3⟩ := h' node hgone
    obtain ⟨h4, h5, h6⟩ := h node h1
    exact ⟨h4, h2.trans h5, fun ho => h6 (h3 ho)⟩

variable {routes generation} {nodes hosts : List HostSlot} {w w' : World}

theorem serves_drift (h : Serves routes nodes w) (hd : drift w w') : Serves routes nodes w' := by
  intro node hnode hgone hopen g hg
  obtain ⟨h1, h2, h3⟩ := hd.2 node hgone
  rw [hd.1]
  exact h node hnode h1 (h3 hopen) g (h2.symm.trans hg)

/-! ## Before the commit -/

/-- Open nodes run. -/
def Running (nodes : List HostSlot) (w : World) : Prop :=
  ∀ node ∈ nodes, ¬ w.gone node → w.opened node → w.serving node ≠ none

/-- What the staging loop found out about a target. -/
def Staged (generation : String) (t : Target) (w : World) : Prop :=
  ¬ w.gone t.node → t.needsCommit = false → w.serving t.node = some generation

theorem Running.drift (h : Running nodes w) (hd : drift w w') : Running nodes w' := by
  intro node hnode hgone hopen
  obtain ⟨h1, h2, h3⟩ := hd.2 node hgone
  rw [h2]
  exact h node hnode h1 (h3 hopen)

variable {t : Target} {node : HostSlot} {r : Bool} {A : World → Prop} {targets : List Target}

theorem Staged.drift (h : Staged generation t w) (hd : drift w w') : Staged generation t w' := by
  intro hgone hneeds
  obtain ⟨h1, h2, -⟩ := hd.2 t.node hgone
  rw [h2]
  exact h h1 hneeds

theorem Staged.stage (h : Staged generation t w)
    (he : exec routes generation w (.stage node) r w') : Staged generation t w' := by
  obtain ⟨⟨-, hgone', hsame⟩, -, hserving⟩ := he
  intro hgone hneeds
  have hs := h (hgone' ▸ hgone) hneeds
  by_cases hnode : t.node = node
  · subst hnode
    rw [hserving (by simp [hs]), hs]
  · rw [(hsame t.node hnode).2, hs]

theorem Running.stage (h : Running nodes w)
    (he : exec routes generation w (.stage node) r w') : Running nodes w' := by
  obtain ⟨⟨-, hgone', hsame⟩, hopened, hserving⟩ := he
  intro other hother hgone hopen
  rw [hgone'] at hgone
  by_cases hnode : other = node
  · subst hnode
    rw [hopened] at hopen
    have hrun := h other hother hgone hopen
    rwa [hserving hrun]
  · rw [(hsame other hnode).1] at hopen
    rw [(hsame other hnode).2]
    exact h other hother hgone hopen

theorem Serves.stage (h : Serves routes nodes w) (hr : Running nodes w)
    (he : exec routes generation w (.stage node) r w') : Serves routes nodes w' := by
  obtain ⟨⟨hd, hgone', hsame⟩, hopened, hserving⟩ := he
  intro other hother hgone hopen g hg
  rw [hgone'] at hgone
  rw [hd]
  by_cases hnode : other = node
  · subst hnode
    rw [hopened] at hopen
    rw [hserving (hr other hother hgone hopen)] at hg
    exact h other hother hgone hopen g hg
  · rw [(hsame other hnode).1] at hopen
    rw [(hsame other hnode).2] at hg
    exact h other hother hgone hopen g hg

/-- A step that changes nothing keeps everything. -/
theorem safe_still {c : Call} {T : Reply c → World → Prop}
    {E : String → World → Prop} (hA : ∀ w w', drift w w' → A w → A w')
    (hstill : ∀ w r w', exec routes generation w c r w' → w' = w)
    (hT : ∀ w r, A w → exec routes generation w c r w → T r w) (h : A w) :
    (ask c).Safe (rules routes generation nodes) T E w := by
  refine Prog.safe_ask.mpr fun w1 hrely hinv => ⟨fun r w2 he => ?_, fun r w2 he _ => ?_⟩
  · exact hstill w1 r w2 he ▸ hinv
  · obtain rfl := hstill w1 r w2 he
    exact hT w2 r (hA w w2 hrely h) he

/-- What holds through the staging loop: it lasts while nodes leave and are staged. -/
structure Lasts (routes : String → List ServedRoute) (generation : String) (A : World → Prop) :
    Prop where
  drift : ∀ {w w'}, drift w w' → A w → A w'
  stage : ∀ {w w' node r}, exec routes generation w (.stage node) r w' → A w → A w'

theorem safe_stageTarget (hA : Lasts routes generation A) (hr : Running nodes w) (h : A w) :
    (stageTarget generation node).Safe (rules routes generation nodes)
      (fun r w => Running nodes w ∧ A w ∧ (r.2 = [] → Staged generation ⟨node, r.1, none⟩ w))
      (fun _ _ => True) w := by
  have hB : ∀ {w w'}, Haproxy.drift w w' → Running nodes w ∧ A w → Running nodes w' ∧ A w' :=
    fun hd ⟨h1, h2⟩ => ⟨h1.drift hd, hA.drift hd h2⟩
  unfold stageTarget
  rw [Prog.safe_bind]
  refine safe_still (A := fun w => Running nodes w ∧ A w) (fun _ _ => hB) (fun _ _ _ he => he.1)
    (fun w1 r hw1 he => ?_) ⟨hr, h⟩
  cases r with
  | true => exact ⟨hw1.1, hw1.2, fun _ _ _ => he.2 rfl⟩
  | false =>
    simp only [Bool.false_eq_true, if_false]
    rw [Prog.safe_bind]
    refine Prog.safe_ask.mpr fun w2 hrely hinv => ?_
    obtain ⟨hr2, hA2⟩ := hB hrely hw1
    refine ⟨fun r w3 he => Serves.stage (r := r) hinv hr2 he, fun r w3 he _ => ?_⟩
    have hstage : exec routes generation w2 (.stage node) r w3 := he
    have hw3 : Running nodes w3 ∧ A w3 := ⟨hr2.stage hstage, hA.stage hstage hA2⟩
    cases r with
    | false => exact ⟨hw3.1, hw3.2, fun h => by cases h⟩
    | true =>
      simp only [if_true]
      rw [Prog.safe_bind]
      refine safe_still (A := fun w => Running nodes w ∧ A w) (fun _ _ => hB)
        (fun _ _ _ he => he) (fun w4 r hw4 _ => ?_) hw3
      cases r with
      | false => exact ⟨hw4.1, hw4.2, fun h => by cases h⟩
      | true => exact ⟨hw4.1, hw4.2, fun _ _ h => by cases h⟩

theorem safe_stageTargets {targets : List HostSlot}
    (hA : Lasts routes generation A) (hr : Running nodes w) (h : A w) :
    (stageTargets generation targets).Safe (rules routes generation nodes)
      (fun r w => A w ∧ r.1.map (·.node) = targets ∧ (∀ t ∈ r.1, t.compatible = none) ∧
        (r.2 = [] → ∀ t ∈ r.1, Staged generation t w))
      (fun _ _ => True) w := by
  induction targets generalizing w A with
  | nil => exact ⟨h, rfl, by simp, by simp⟩
  | cons node targets ih =>
    unfold stageTargets
    rw [Prog.safe_bind]
    refine Prog.safe_mono (safe_stageTarget hA hr h) (fun ⟨needs, failures⟩ w1 hw1 => ?_)
      fun _ _ he => he
    obtain ⟨hr1, hA1, hst⟩ := hw1
    have hA' : Lasts routes generation fun w =>
        A w ∧ (failures = [] → Staged generation ⟨node, needs, none⟩ w) :=
      ⟨fun hd ⟨h1, h2⟩ => ⟨hA.drift hd h1, fun hf => (h2 hf).drift hd⟩,
        fun he ⟨h1, h2⟩ => ⟨hA.stage he h1, fun hf => Staged.stage (h2 hf) he⟩⟩
    dsimp only
    rw [Prog.safe_bind]
    refine Prog.safe_mono (ih hA' hr1 ⟨hA1, hst⟩) (fun ⟨ts, others⟩ w2 hw2 => ?_) fun _ _ he => he
    obtain ⟨⟨hA2, hst2⟩, hmap, hnone, hrest⟩ := hw2
    refine ⟨hA2, by simp [hmap], ?_, fun hf t ht => ?_⟩
    · simpa using hnone
    · obtain ⟨hf1, hf2⟩ := List.append_eq_nil_iff.mp hf
      rcases List.mem_cons.mp ht with rfl | ht
      · exact hst2 hf1
      · exact hrest hf2 t ht

/-! ## Classifying and closing -/

/-- What is known of a target before the commit. -/
def Classified (routes : String → List ServedRoute) (generation : String) (t : Target)
    (w : World) : Prop :=
  ¬ w.gone t.node → (t.needsCommit = false → w.serving t.node = some generation) ∧
    ∀ previous, t.compatible = some previous → w.serving t.node = some previous ∧
      (compareGenerations (routes previous) (routes generation)).compatible = true

/-- A stale target that can't keep serving is closed. -/
def Shut (t : Target) (w : World) : Prop :=
  ¬ w.gone t.node → t.needsCommit = true → t.compatible = none → ¬ w.opened t.node

theorem Classified.drift (h : Classified routes generation t w) (hd : drift w w') :
    Classified routes generation t w' := by
  intro hgone
  obtain ⟨h1, h2, -⟩ := hd.2 t.node hgone
  rw [h2]
  exact h h1

theorem Shut.drift (h : Shut t w) (hd : drift w w') : Shut t w' := by
  intro hgone hneeds hnone hopen
  obtain ⟨h1, -, h3⟩ := hd.2 t.node hgone
  exact h h1 hneeds hnone (h3 hopen)

/-- A node that is closed keeps `Serves`. -/
theorem Serves.disable (h : Serves routes nodes w)
    (he : exec routes generation w (.disable node) r w') : Serves routes nodes w' := by
  obtain ⟨⟨hd, hgone', hsame⟩, hopened, -, hserving⟩ := he
  intro other hother hgone hopen g hg
  rw [hgone'] at hgone
  rw [hd]
  by_cases hnode : other = node
  · subst hnode
    rcases hserving with hsv | hsv
    · exact h other hother hgone (hopened hopen) g (hsv ▸ hg)
    · simp [hsv] at hg
  · rw [(hsame other hnode).1] at hopen
    rw [(hsame other hnode).2] at hg
    exact h other hother hgone hopen g hg

theorem Classified.disable (h : Classified routes generation t w)
    (he : exec routes generation w (.disable node) true w') :
    Classified routes generation t w' := by
  obtain ⟨⟨-, hgone', hsame⟩, -, hclosed, -⟩ := he
  intro hgone
  have hserving : w'.serving t.node = w.serving t.node := by
    by_cases hnode : t.node = node
    · rw [hnode]
      exact (hclosed rfl).2
    · exact (hsame t.node hnode).2
  rw [hserving]
  exact h (hgone' ▸ hgone)

theorem Shut.disable (h : Shut t w)
    (he : exec routes generation w (.disable node) r w') : Shut t w' := by
  obtain ⟨⟨-, hgone', hsame⟩, hopened, -, -⟩ := he
  intro hgone hneeds hnone hopen
  refine h (hgone' ▸ hgone) hneeds hnone ?_
  by_cases hnode : t.node = node
  · rw [hnode] at hopen ⊢
    exact hopened hopen
  · rwa [(hsame t.node hnode).1] at hopen

theorem safe_disable {T : Bool → World → Prop}
    {E : String → World → Prop} (hA : ∀ {w w'}, Haproxy.drift w w' → A w → A w')
    (hT : ∀ {w w' r}, exec routes generation w (.disable node) r w' → A w → T r w') (h : A w) :
    (ask (.disable node)).Safe (rules routes generation nodes) T E w := by
  refine Prog.safe_ask.mpr fun w1 hrely hinv => ⟨fun r w2 he => ?_, fun r w2 he _ => ?_⟩
  · exact Serves.disable (r := r) hinv he
  · exact hT he (hA hrely h)

theorem safe_verifyTargetMembership {targets : List HostSlot}
    (hA : ∀ {w w'}, Haproxy.drift w w' → A w → A w') (h : A w) :
    (verifyTargetMembership hosts targets).Safe (rules routes generation nodes)
      (fun _ => A) (fun _ _ => True) w := by
  unfold verifyTargetMembership assertCoordinator
  rw [Prog.safe_bind, Prog.safe_bind]
  refine safe_still (A := A) (fun _ _ => hA) (fun _ _ _ he => he) (fun w1 online hw1 _ => ?_) h
  cases online with
  | none => trivial
  | some online =>
    refine Prog.safe_forEach (I := fun _ => A) (fun node rest w2 hw2 => ?_) hw1
    split
    · split
      · exact hw2
      · rw [Prog.safe_bind]
        exact safe_disable (A := A) hA (fun _ _ => trivial) hw2
    · split
      · trivial
      · exact hw2

theorem safe_selectCompatiblePredecessor
    {status : IngressStatus} (hA : ∀ {w w'}, Haproxy.drift w w' → A w → A w') (h : A w) :
    (selectCompatiblePredecessor generation (routes generation) node status).Safe
      (rules routes generation nodes)
      (fun r w => A w ∧ ∀ previous, r = some previous → ¬ w.gone node →
        w.serving node = some previous ∧
        (compareGenerations (routes previous) (routes generation)).compatible = true)
      (fun _ _ => True) w := by
  have hnone : ∀ {w}, A w → A w ∧ ∀ previous, (none : Option String) = some previous →
      ¬ w.gone node → w.serving node = some previous ∧
        (compareGenerations (routes previous) (routes generation)).compatible = true :=
    fun h => ⟨h, fun _ hp => by cases hp⟩
  unfold selectCompatiblePredecessor
  rw [Prog.safe_bind]
  refine safe_still (A := A) (fun _ _ => hA) (fun _ _ _ he => he) (fun w1 facts hw1 _ => ?_) h
  split
  · rename_i enabled active _
    split
    · exact hnone hw1
    · split
      · exact hnone hw1
      · split
        · exact hnone hw1
        · rw [Prog.safe_bind]
          refine safe_still (A := A) (fun _ _ => hA) (fun _ _ _ he => he.1)
            (fun w2 current hw2 hcur => ?_) hw1
          cases current with
          | false => exact hnone hw2
          | true =>
            simp only [if_true]
            rw [Prog.safe_bind]
            refine safe_still
              (A := fun w => A w ∧ (¬ w.gone node → w.serving node = some enabled))
              (fun _ _ hd ⟨h1, h2⟩ => ⟨hA hd h1, fun hgone => ?_⟩) (fun _ _ _ he => he.1)
              (fun w3 archive hw3 hfetch => ?_) ⟨hw2, fun _ => hcur.2 rfl⟩
            · obtain ⟨h3, h4, -⟩ := hd.2 node hgone
              rw [h4]
              exact h2 h3
            · cases archive with
              | none => exact hnone hw3.1
              | some previous =>
                obtain rfl := hfetch.2 previous rfl
                dsimp only
                split
                · rename_i hcompatible
                  refine ⟨hw3.1, fun p hp hgone => ?_⟩
                  obtain rfl := Option.some.inj hp
                  exact ⟨hw3.2 hgone, hcompatible⟩
                · exact hnone hw3.1
  · exact hnone hw1

theorem safe_classifyTarget {status : Option IngressStatus}
    (hA : ∀ {w w'}, Haproxy.drift w w' → A w → A w') (h : A w)
    (hst : Staged generation t w) (hnone : t.compatible = none) :
    (classifyTarget generation (routes generation) status t).Safe (rules routes generation nodes)
      (fun r w => A w ∧ r.node = t.node ∧ Classified routes generation r w)
      (fun _ _ => True) w := by
  have hplain : ∀ {w}, Staged generation t w → Classified routes generation t w :=
    fun hst hgone => ⟨hst hgone, fun previous hp => by rw [hnone] at hp; cases hp⟩
  unfold classifyTarget
  cases status with
  | none => exact ⟨h, rfl, hplain hst⟩
  | some status =>
    dsimp only
    split
    · rename_i hneeds
      rw [Prog.safe_bind]
      refine Prog.safe_mono (safe_selectCompatiblePredecessor hA h) (fun r w1 hw1 => ?_)
        fun _ _ he => he
      refine ⟨hw1.1, rfl, fun hgone => ⟨fun hno => ?_, fun previous hp => ?_⟩⟩
      · rw [hneeds] at hno
        cases hno
      · exact hw1.2 previous hp hgone
    · exact ⟨h, rfl, hplain hst⟩

theorem safe_classifyTargets
    {status : Option IngressStatus} (hA : ∀ {w w'}, Haproxy.drift w w' → A w → A w') (h : A w)
    (hst : ∀ t ∈ targets, Staged generation t w) (hnone : ∀ t ∈ targets, t.compatible = none) :
    (classifyTargets generation (routes generation) status targets).Safe
      (rules routes generation nodes)
      (fun r w => A w ∧ r.map (·.node) = targets.map (·.node) ∧
        ∀ t ∈ r, Classified routes generation t w)
      (fun _ _ => True) w := by
  induction targets generalizing w A with
  | nil => exact ⟨h, rfl, by simp⟩
  | cons t targets ih =>
    unfold classifyTargets
    rw [Prog.safe_bind]
    -- The later targets stay as staged while this one is looked at.
    refine Prog.safe_mono (safe_classifyTarget
      (A := fun w => A w ∧ ∀ u ∈ targets, Staged generation u w)
      (fun hd ⟨h1, h2⟩ => ⟨hA hd h1, fun u hu => (h2 u hu).drift hd⟩)
      ⟨h, fun u hu => hst u (List.mem_cons_of_mem _ hu)⟩ (hst t (List.mem_cons_self ..))
      (hnone t (List.mem_cons_self ..))) (fun r w1 hw1 => ?_) fun _ _ he => he
    obtain ⟨⟨h1, hst1⟩, hnode, hclass⟩ := hw1
    rw [Prog.safe_bind]
    refine Prog.safe_mono (ih (A := fun w => A w ∧ Classified routes generation r w)
      (fun hd ⟨h1, h2⟩ => ⟨hA hd h1, h2.drift hd⟩) ⟨h1, hclass⟩ hst1
      fun u hu => hnone u (List.mem_cons_of_mem _ hu)) (fun rs w2 hw2 => ?_) fun _ _ he => he
    obtain ⟨⟨h2, hclass2⟩, hmap, hrest⟩ := hw2
    refine ⟨h2, by simp [hnode, hmap], fun u hu => ?_⟩
    rcases List.mem_cons.mp hu with rfl | hu
    · exact hclass2
    · exact hrest u hu

/-- What lasts while the stale targets are closed, as long as none of the steps fails. -/
structure Outlasts (routes : String → List ServedRoute) (generation : String)
    (A : World → Prop) : Prop where
  drift : ∀ {w w'}, drift w w' → A w → A w'
  disable : ∀ {w w' node}, exec routes generation w (.disable node) true w' → A w → A w'

theorem safe_closeTarget {P : Prop} (hA : Outlasts routes generation A) (h : P → A w) :
    (closeTarget t).Safe (rules routes generation nodes)
      (fun failures w => P → failures = [] → A w ∧ Shut t w) (fun _ _ => True) w := by
  unfold closeTarget
  split
  · rw [Prog.safe_bind]
    refine safe_disable (A := fun w => P → A w) (fun hd h hP => hA.drift hd (h hP))
      (fun {w1 w2 r} he h1 => ?_) h
    cases r with
    | true => exact fun hP _ => ⟨hA.disable he (h1 hP), fun _ _ _ => (he.2.2.1 rfl).1⟩
    | false => exact fun _ hf => by cases hf
  · rename_i hkeep
    exact fun hP _ => ⟨h hP, fun _ hneeds hnone => absurd ⟨hneeds, hnone⟩ hkeep⟩

theorem safe_closeTargets {P : Prop} (hA : Outlasts routes generation A) (h : P → A w) :
    (closeTargets targets).Safe (rules routes generation nodes)
      (fun failures w => P → failures = [] → A w ∧ ∀ t ∈ targets, Shut t w)
      (fun _ _ => True) w := by
  induction targets generalizing w A P with
  | nil => exact fun hP _ => ⟨h hP, by simp⟩
  | cons t targets ih =>
    have hA' : Outlasts routes generation fun w => A w ∧ Shut t w :=
      ⟨fun hd ⟨h1, h2⟩ => ⟨hA.drift hd h1, h2.drift hd⟩,
        fun he ⟨h1, h2⟩ => ⟨hA.disable he h1, h2.disable he⟩⟩
    unfold closeTargets
    rw [Prog.safe_bind]
    refine Prog.safe_mono (safe_closeTarget hA h) (fun failures w1 hw1 => ?_) fun _ _ he => he
    rw [Prog.safe_bind]
    -- Once a step has failed, nothing is claimed about what the later ones find.
    refine Prog.safe_mono (ih hA' (P := P ∧ failures = []) fun ⟨hP, hf⟩ => hw1 hP hf)
      (fun others w2 hw2 => ?_) fun _ _ he => he
    intro hP hf
    obtain ⟨hf1, hf2⟩ := List.append_eq_nil_iff.mp hf
    obtain ⟨⟨h2, hshut⟩, hothers⟩ := hw2 ⟨hP, hf1⟩ hf2
    exact ⟨h2, fun u hu => (List.mem_cons.mp hu).elim (fun hu => hu ▸ hshut) (hothers u)⟩

/-- What the targets are before the commit of the desired generation. -/
def Ready (routes : String → List ServedRoute) (generation : String) (targets : List Target)
    (w : World) : Prop :=
  ∀ t ∈ targets, Classified routes generation t w ∧ Shut t w

theorem Ready.drift {targets : List Target} (h : Ready routes generation targets w)
    (hd : drift w w') : Ready routes generation targets w' :=
  fun t ht => ⟨(h t ht).1.drift hd, (h t ht).2.drift hd⟩

theorem safe_prepareRollout (hr : Running nodes w) :
    (prepareRollout generation (routes generation) hosts nodes).Safe
      (rules routes generation nodes)
      (fun r w => r.2 = [] → r.1.map (·.node) = nodes ∧ Ready routes generation r.1 w)
      (fun _ _ => True) w := by
  unfold prepareRollout
  rw [Prog.safe_bind]
  refine Prog.safe_mono (safe_stageTargets (A := fun _ => True)
    ⟨fun _ _ => trivial, fun _ _ => trivial⟩ hr trivial) (fun ⟨targets, failures⟩ w1 hw1 => ?_)
    fun _ _ he => he
  obtain ⟨-, hmap, hnone, hst⟩ := hw1
  dsimp only
  split
  · rename_i hf
    exact fun h => absurd h hf
  · rename_i hf
    have hf : failures = [] := not_not.mp hf
    have hA : ∀ {w w'}, Haproxy.drift w w' → (∀ t ∈ targets, Staged generation t w) →
        ∀ t ∈ targets, Staged generation t w' := fun hd h t ht => (h t ht).drift hd
    rw [Prog.safe_bind]
    refine Prog.safe_mono (safe_verifyTargetMembership hA (hst hf)) (fun _ w2 hst2 => ?_)
      fun _ _ he => he
    rw [Prog.safe_bind]
    refine safe_still (A := fun w => ∀ t ∈ targets, Staged generation t w) (fun _ _ => hA)
      (fun _ _ _ he => he) (fun w3 status hst3 _ => ?_) hst2
    rw [Prog.safe_bind]
    refine Prog.safe_mono (safe_classifyTargets (A := fun _ => True) (fun _ _ => trivial) trivial
      hst3 hnone) (fun classified w4 hw4 => ?_) fun _ _ he => he
    obtain ⟨-, hmap', hclass⟩ := hw4
    have hB : Outlasts routes generation fun w =>
        ∀ t ∈ classified, Classified routes generation t w :=
      ⟨fun hd h t ht => (h t ht).drift hd, fun he h t ht => (h t ht).disable he⟩
    rw [Prog.safe_bind]
    refine Prog.safe_mono (safe_closeTargets (P := True) hB fun _ => hclass)
      (fun failed w5 hw5 => ?_) fun _ _ he => he
    split
    · rename_i hfailed
      exact fun h => absurd h hfailed
    · rename_i hfailed
      obtain ⟨hclass5, hshut⟩ := hw5 trivial (not_not.mp hfailed)
      have hready : Ready routes generation classified w5 :=
        fun t ht => ⟨hclass5 t ht, hshut t ht⟩
      rw [Prog.safe_bind]
      exact Prog.safe_mono (safe_verifyTargetMembership (fun hd h => Ready.drift h hd) hready)
        (fun _ w6 hready6 _ => ⟨hmap'.trans hmap, hready6⟩) fun _ _ he => he

/-! ## The commit of the desired generation -/

def Desired (generation : String) (w : World) : Prop := w.desired = some generation

theorem Desired.drift (h : Desired generation w) (hd : drift w w') : Desired generation w' :=
  hd.1.trans h

theorem allowed_self (g : String) : Allowed routes g g := .inl rfl

theorem Ready.publish {allowances : List (HostSlot × String)}
    {r : Option Bool} (h : Ready routes generation targets w)
    (hmap : targets.map (·.node) = nodes) (hw : Serves routes nodes w)
    (he : exec routes generation w (.publish allowances) r w') : Serves routes nodes w' := by
  obtain ⟨hopened, hserving, hgone', hdesired, -⟩ := he
  intro node hnode hgone hopen g hg
  rw [hgone'] at hgone
  rw [hopened] at hopen
  rw [hserving] at hg
  rcases hdesired with hd | hd
  · rw [hd]
    exact hw node hnode hgone hopen g hg
  · rw [← hmap] at hnode
    obtain ⟨t, ht, rfl⟩ := List.mem_map.mp hnode
    obtain ⟨hclass, hshut⟩ := h t ht
    refine ⟨generation, hd, ?_⟩
    cases hneeds : t.needsCommit with
    | false =>
      obtain rfl := Option.some.inj (hg.symm.trans ((hclass hgone).1 hneeds))
      exact allowed_self g
    | true =>
      cases hprev : t.compatible with
      | none => exact absurd hopen (hshut hgone hneeds hprev)
      | some previous =>
        obtain ⟨hserves, hcompatible⟩ := (hclass hgone).2 previous hprev
        obtain rfl := Option.some.inj (hg.symm.trans hserves)
        exact .inr hcompatible

theorem safe_publishDesired (h : Ready routes generation targets w)
    (hmap : targets.map (·.node) = nodes) :
    (publishDesired targets).Safe (rules routes generation nodes)
      (fun _ => Desired generation) (fun _ _ => True) w := by
  unfold publishDesired assertCoordinator
  rw [Prog.safe_bind, Prog.safe_bind]
  refine safe_still (A := Ready routes generation targets) (fun _ _ hd h => h.drift hd)
    (fun _ _ _ he => he) (fun w1 online hw1 _ => ?_) h
  cases online with
  | none => trivial
  | some online =>
    rw [Prog.safe_pure]
    dsimp only
    rw [Prog.safe_bind]
    refine Prog.safe_ask.mpr fun w2 hrely hinv => ⟨fun r w3 he => ?_, fun r w3 he _ => ?_⟩
    · exact (hw1.drift hrely).publish (r := r) hmap hinv he
    · cases r with
      | none => trivial
      | some transition => exact he.2.2.2.2 (by simp)

/-! ## After the commit -/

/-- The program can run while the generation is the desired one, which it stays. -/
def Settled (routes : String → List ServedRoute) (generation : String) (nodes : List HostSlot)
    {α : Type} (p : Script α) : Prop :=
  ∀ w, Desired generation w → p.Safe (rules routes generation nodes)
    (fun _ => Desired generation) (fun _ _ => True) w

variable {α β : Type}

theorem settled_pure (a : α) : Settled routes generation nodes (pure a) := fun _ h => h

theorem settled_die (message : String) :
    Settled routes generation nodes (die message : Script α) := fun _ _ => trivial

theorem settled_bind {p : Script α} {f : α → Script β} (hp : Settled routes generation nodes p)
    (hf : ∀ a, Settled routes generation nodes (f a)) :
    Settled routes generation nodes (p >>= f) := by
  intro w h
  rw [Prog.safe_bind]
  exact Prog.safe_mono (hp w h) (fun a w1 h1 => hf a w1 h1) fun _ _ he => he

theorem settled_ite {c : Prop} [Decidable c] {p q : Script α}
    (hp : Settled routes generation nodes p) (hq : Settled routes generation nodes q) :
    Settled routes generation nodes (if c then p else q) := by
  split
  · exact hp
  · exact hq

theorem settled_still {c : Call} (hstill : ∀ w r w', exec routes generation w c r w' → w' = w) :
    Settled routes generation nodes (ask c) :=
  fun _ h => safe_still (A := Desired generation) (fun _ _ hd h => h.drift hd) hstill
    (fun _ _ h _ => h) h

theorem settled_isCurrent (node : HostSlot) (g : String) :
    Settled routes generation nodes (ask (.isCurrent node g)) :=
  settled_still fun _ _ _ he => he.1

theorem settled_mark (node : HostSlot) (state : NodeState) :
    Settled routes generation nodes (ask (.mark node state)) :=
  settled_still fun _ _ _ he => he

theorem settled_prune (node : HostSlot) : Settled routes generation nodes (ask (.prune node)) :=
  settled_still fun _ _ _ he => he

theorem settled_disable (node : HostSlot) :
    Settled routes generation nodes (ask (.disable node)) :=
  fun _ h => safe_disable (A := Desired generation) (fun hd h => h.drift hd)
    (fun he h => he.1.1.trans h) h

theorem settled_assertCoordinator : Settled routes generation nodes assertCoordinator := by
  refine settled_bind (settled_still fun _ _ _ he => he) fun online => ?_
  cases online with
  | none => exact settled_die _
  | some online => exact settled_pure _

theorem Serves.install (h : Serves routes nodes w) (hd : Desired generation w)
    (he : exec routes generation w (.install node) r w') : Serves routes nodes w' := by
  obtain ⟨⟨hdesired, hgone', hsame⟩, hopened, hserving, -⟩ := he
  intro other hother hgone hopen g hg
  rw [hgone'] at hgone
  rw [hdesired]
  by_cases hnode : other = node
  · subst hnode
    rw [hopened] at hopen
    rcases hserving with hsv | hsv | hsv
    · exact h other hother hgone hopen g (hsv ▸ hg)
    · obtain rfl := Option.some.inj (hsv.symm.trans hg)
      exact ⟨_, hd, allowed_self _⟩
    · simp [hsv] at hg
  · rw [(hsame other hnode).1] at hopen
    rw [(hsame other hnode).2] at hg
    exact h other hother hgone hopen g hg

theorem settled_install (node : HostSlot) :
    Settled routes generation nodes (ask (.install node)) := by
  intro w h
  refine Prog.safe_ask.mpr fun w1 hrely hinv => ⟨fun r w2 he => ?_, fun r w2 he _ => ?_⟩
  · exact hinv.install (h.drift hrely) (r := r) he
  · exact he.1.1.trans (h.drift hrely)

theorem Serves.load (h : Serves routes nodes w)
    (hd : Desired generation w) (hcurrent : ¬ w.gone node → w.serving node = some generation)
    (he : exec routes generation w (.load node) r w') : Serves routes nodes w' := by
  obtain ⟨⟨hdesired, hgone', hsame⟩, hserving⟩ := he
  intro other hother hgone hopen g hg
  rw [hgone'] at hgone
  rw [hdesired]
  by_cases hnode : other = node
  · subst hnode
    rw [hserving, hcurrent hgone] at hg
    obtain rfl := Option.some.inj hg
    exact ⟨_, hd, allowed_self _⟩
  · rw [(hsame other hnode).1] at hopen
    rw [(hsame other hnode).2] at hg
    exact h other hother hgone hopen g hg

theorem settled_enableIngress (node : HostSlot) :
    Settled routes generation nodes (enableIngress generation node) := by
  intro w h
  unfold enableIngress
  rw [Prog.safe_bind]
  refine safe_still (A := Desired generation) (fun _ _ hd h => h.drift hd)
    (fun _ _ _ he => he.1) (fun w1 r h1 hr => ?_) h
  cases r with
  | false => exact h1
  | true =>
    have hcurrent : ¬ w1.gone node → w1.serving node = some generation := fun _ => hr.2 rfl
    refine Prog.safe_ask.mpr fun w2 hrely hinv => ⟨fun r w3 he => ?_, fun r w3 he _ => ?_⟩
    · refine hinv.load (h1.drift hrely) (fun hgone => ?_) (r := r) he
      obtain ⟨h2, h3, -⟩ := hrely.2 node hgone
      rw [h3]
      exact hcurrent h2
    · exact he.1.1.trans (h1.drift hrely)

theorem settled_rejectNode (node : HostSlot) (mark : Bool) (failure : String) :
    Settled routes generation nodes (rejectNode node mark failure) := by
  refine settled_bind (settled_disable node) fun _ => settled_ite ?_ (settled_pure _)
  exact settled_bind (settled_mark _ _) fun _ => settled_pure _

theorem settled_serveTarget (t : Target) (unmarked unpruned unopened : String) :
    Settled routes generation nodes (serveTarget generation t unmarked unpruned unopened) := by
  refine settled_bind (settled_mark _ _) fun _ => settled_ite ?_ (settled_rejectNode _ _ _)
  refine settled_bind (settled_prune _) fun _ => settled_ite ?_ (settled_rejectNode _ _ _)
  refine settled_bind (settled_enableIngress _) fun _ => settled_ite (settled_pure _) ?_
  exact settled_rejectNode _ _ _

theorem settled_markTarget (t : Target) :
    Settled routes generation nodes (markTarget generation t) := by
  refine settled_ite ?_ (settled_serveTarget _ _ _ _)
  exact settled_bind (settled_mark _ _) fun _ => settled_ite (settled_pure _) (settled_pure _)

theorem settled_markTargets (targets : List Target) :
    Settled routes generation nodes (markTargets generation targets) := by
  induction targets with
  | nil => exact settled_pure _
  | cons t targets ih =>
    exact settled_bind (settled_markTarget t) fun _ => settled_bind ih fun _ => settled_pure _

theorem settled_failedInstall (t : Target) :
    Settled routes generation nodes (failedInstall t) := by
  unfold failedInstall
  dsimp only
  split
  · exact settled_bind (settled_isCurrent _ _) fun _ =>
      settled_ite (settled_pure _) (settled_rejectNode _ _ _)
  · exact settled_rejectNode _ _ _

theorem settled_commitTarget (t : Target) :
    Settled routes generation nodes (commitTarget generation t) :=
  settled_bind (settled_install _) fun _ =>
    settled_ite (settled_serveTarget _ _ _ _) (settled_failedInstall t)

theorem settled_commitTargets (targets : List Target) :
    Settled routes generation nodes (commitTargets generation targets) := by
  induction targets with
  | nil => exact settled_pure _
  | cons t targets ih =>
    refine settled_ite ih (settled_bind settled_assertCoordinator fun online => ?_)
    refine settled_ite (settled_pure _) (settled_bind (settled_commitTarget t) fun _ => ?_)
    exact settled_bind ih fun _ => settled_pure _

theorem settled_finalizeRollout (transition : Bool) :
    Settled routes generation nodes (finalizeRollout transition) := by
  refine settled_ite (settled_bind settled_assertCoordinator fun _ => ?_) (settled_pure _)
  refine settled_bind (settled_still fun _ _ _ he => he) fun _ => ?_
  exact settled_ite (settled_pure _) (settled_pure _)

/-! ## The rollout -/

theorem safe_rolloutGeneration (hr : Running nodes w) :
    (rolloutGeneration generation (routes generation) hosts nodes).Safe
      (rules routes generation nodes) (fun _ _ => True) (fun _ _ => True) w := by
  unfold rolloutGeneration
  rw [Prog.safe_bind]
  refine Prog.safe_mono (safe_prepareRollout hr) (fun ⟨targets, failures⟩ w1 hw1 => ?_)
    fun _ _ he => he
  dsimp only
  split
  · trivial
  · rename_i hf
    obtain ⟨hmap, hready⟩ := hw1 (not_not.mp hf)
    rw [Prog.safe_bind]
    refine Prog.safe_mono (safe_publishDesired hready hmap) (fun transition w2 hw2 => ?_)
      fun _ _ he => he
    have hrest : Settled routes generation nodes (do
        let failures ← markTargets generation targets
        if failures ≠ [] then return failures
        let failures ← commitTargets generation targets
        if failures ≠ [] then return failures
        finalizeRollout transition) := by
      refine settled_bind (settled_markTargets targets) fun _ => settled_ite (settled_pure _) ?_
      refine settled_bind (settled_commitTargets targets) fun _ => settled_ite (settled_pure _) ?_
      exact settled_finalizeRollout transition
    exact Prog.safe_mono (hrest w2 hw2) (fun _ _ _ => trivial) fun _ _ he => he

/-- A coordinator at some point of its rollout. It may stop at every point, and be in the middle of
a step then: that step is a last one that fails. -/
abbrev Coordinator := Config Unit World Call Reply String

def RolloutStep (routes : String → List ServedRoute) (generation : String) :
    Coordinator → Label Unit Call Reply Unit → Coordinator → Prop :=
  ParStep (fun _ => exec routes generation) (fun w _ w' => drift w w') fun _ _ _ _ => False

/-- The coordinator before `rollout_generation`, with the online nodes as its targets. -/
def beginRollout (routes : String → List ServedRoute) (generation : String)
    (hosts nodes : List HostSlot) (w : World) : Coordinator :=
  ⟨w, fun _ => do let _ ← rolloutGeneration generation (routes generation) hosts nodes⟩

/-- Every open target node serves the desired generation or a compatible one. -/
def Opened (routes : String → List ServedRoute) (nodes : List HostSlot) (w : World) : Prop :=
  ∀ node ∈ nodes, w.opened node →
    ∃ g d, w.serving node = some g ∧ w.desired = some d ∧ Allowed routes g d

theorem Opened.serves (h : Opened routes nodes w) : Serves routes nodes w := by
  intro node hnode _ hopen g hg
  obtain ⟨g', d, hg', hd, hallowed⟩ := h node hnode hopen
  obtain rfl := Option.some.inj (hg.symm.trans hg')
  exact ⟨d, hd, hallowed⟩

theorem Opened.running (h : Opened routes nodes w) : Running nodes w := by
  intro node hnode _ hopen
  obtain ⟨g, d, hg, -⟩ := h node hnode hopen
  simp [hg]

theorem allSafe_rolloutStep {c c' : Coordinator} {l : Label Unit Call Reply Unit}
    (hc : c.AllSafe fun _ : Unit => rules routes generation nodes)
    (h : RolloutStep routes generation c l c') :
    c'.AllSafe fun _ : Unit => rules routes generation nodes := by
  refine allSafe_step (fun _ _ _ _ _ he => he) ?_ ?_ ?_ ?_ h hc
  · exact fun _ w _ r w' _ hguar he => ⟨fun _ => hguar r w' he, fun _ hq => absurd rfl hq⟩
  · exact fun w _ w' hinv hd => ⟨fun _ => serves_drift (hinv ()) hd, fun _ => hd⟩
  · exact fun _ _ _ _ _ h => h.elim
  · exact fun _ w => ⟨rfl, fun _ hgone => ⟨hgone, rfl, id⟩⟩

/-- At every moment of a rollout, each target node that stays online and is open serves the desired
generation or one that is compatible with it. -/
theorem rollout_serves {c : Coordinator} {ls : List (Label Unit Call Reply Unit)}
    (hstart : Opened routes nodes w)
    (hrun : Run (RolloutStep routes generation) (beginRollout routes generation hosts nodes w) ls c) :
    Serves routes nodes c.state := by
  have hbegin : (beginRollout routes generation hosts nodes w).AllSafe
      fun _ : Unit => rules routes generation nodes := by
    refine ⟨fun _ => hstart.serves, fun _ => Prog.safe_bind.mpr ?_⟩
    exact Prog.safe_mono (safe_rolloutGeneration hstart.running) (fun _ _ _ => trivial)
      fun _ _ he => he
  exact (hrun.invariant (fun _ _ _ hc h => allSafe_rolloutStep hc h) hbegin).1 ()

/-- A state that a coordinator can get to. -/
def Reaches (routes : String → List ServedRoute) (generation : String) (c : Coordinator)
    (w : World) : Prop :=
  ∃ ls p, Run (RolloutStep routes generation) c ls ⟨w, p⟩

theorem Reaches.call {c : Coordinator} {a : Call} {k : Reply a → Script Unit} {r : Reply a}
    (hp : c.prog () = .call a k) (he : exec routes generation c.state a r w)
    (h : Reaches routes generation ⟨w, Function.update c.prog () (k r)⟩ w') :
    Reaches routes generation c w' := by
  obtain ⟨ls, p, hrun⟩ := h
  exact ⟨_, p, .cons (.call hp he) hrun⟩

/-! ### Two nodes -/

def rolledRoutes (generation : String) : List ServedRoute :=
  if generation = "new" then
    [⟨"a.test", "prod1", "10.0.0.1", 80, 443⟩, ⟨"copy.a.test", "stage1prod1", "10.0.0.10", 80, 443⟩]
  else [⟨"a.test", "prod1", "10.0.0.1", 80, 443⟩]

def firstNode : HostSlot := ⟨1, HostSlot.range_one⟩

def secondNode : HostSlot := ⟨2, HostSlot.range_two⟩

def bothNodes : List HostSlot := [firstNode, secondNode]

def rolledWorld (opened : Bool) (serving desired : String) : World where
  opened node := node = firstNode ∨ node = secondNode ∧ opened = true
  serving node := some (if node = secondNode then serving else "old")
  desired := some desired
  gone _ := False

def oldStatus : IngressStatus where
  desired := some "old"
  nodes := bothNodes.map fun node => ⟨node, "old", some "old", .applied, 0, 0, 1⟩
  activeAllowances := []

theorem rolledWorld_opened : Opened rolledRoutes bothNodes (rolledWorld true "old" "old") := by
  intro node _ _
  refine ⟨"old", "old", ?_, rfl, .inl rfl⟩
  simp [rolledWorld]

theorem rolledWorld_same (opened opened' : Bool) (serving serving' desired : String) :
    (rolledWorld opened serving desired).Same (rolledWorld opened' serving' desired) secondNode :=
  ⟨rfl, rfl, fun other h => by simp [rolledWorld, h]⟩

theorem same_refl (w : World) (node : HostSlot) : w.Same w node := ⟨rfl, rfl, fun _ _ => ⟨rfl, rfl⟩⟩

/-- The first node's installation fails, and it goes on with the old generation; the second node is closed
until it has the new one. -/
theorem rolled_reaches : Reaches rolledRoutes "new"
    (beginRollout rolledRoutes "new" bothNodes bothNodes (rolledWorld true "old" "old"))
    (rolledWorld true "new" "new") := by
  have hstage (node : HostSlot) (w : World) : exec rolledRoutes "new" w (.stage node) true w :=
    ⟨same_refl w node, rfl, fun _ => rfl⟩
  have hclosed : ¬ (rolledWorld false "old" "old").opened secondNode := by
    rintro (h | ⟨-, h⟩)
    · exact absurd h (by decide)
    · cases h
  have hclose : exec rolledRoutes "new" (rolledWorld true "old" "old") (.disable secondNode) true
      (rolledWorld false "old" "old") :=
    ⟨rolledWorld_same .., fun h => absurd h hclosed, fun _ => ⟨hclosed, rfl⟩, .inl rfl⟩
  -- both nodes stage the generation
  refine .call (r := false) rfl ⟨rfl, fun h => by cases h⟩ ?_
  refine .call rfl (hstage firstNode _) ?_
  refine .call (r := true) rfl rfl ?_
  refine .call (r := false) rfl ⟨rfl, fun h => by cases h⟩ ?_
  refine .call rfl (hstage secondNode _) ?_
  refine .call (r := true) rfl rfl ?_
  refine .call (r := some bothNodes) rfl rfl ?_
  -- the first one may go on with the old generation, which the new one is compatible with
  refine .call (r := some oldStatus) rfl rfl ?_
  refine .call (r := some (some "old", some "old")) rfl rfl ?_
  refine .call (r := true) rfl ⟨rfl, fun _ => rfl⟩ ?_
  refine .call (r := some (rolledRoutes "old")) rfl ⟨rfl, fun _ h => by cases h; rfl⟩ ?_
  -- the second one tells nothing, and is closed
  refine .call (r := none) rfl rfl ?_
  refine .call rfl hclose ?_
  refine .call (r := some bothNodes) rfl rfl ?_
  refine .call (r := some bothNodes) rfl rfl ?_
  refine .call (w := rolledWorld false "old" "new") (r := some true) rfl
    ⟨rfl, rfl, rfl, .inr rfl, fun _ => rfl⟩ ?_
  refine .call (r := true) rfl rfl ?_
  refine .call (r := true) rfl rfl ?_
  refine .call (r := some bothNodes) rfl rfl ?_
  -- the installation that fails
  refine .call (w := rolledWorld false "old" "new") (r := false) rfl
    ⟨same_refl .., rfl, .inl rfl, fun h => by cases h⟩ ?_
  refine .call (r := true) rfl ⟨rfl, fun _ => rfl⟩ ?_
  refine .call (r := some bothNodes) rfl rfl ?_
  refine .call (w := rolledWorld false "new" "new") (r := true) rfl
    ⟨rolledWorld_same .., rfl, .inr (.inl rfl), fun _ => rfl⟩ ?_
  refine .call (r := true) rfl rfl ?_
  refine .call (r := true) rfl rfl ?_
  refine .call (r := true) rfl ⟨rfl, fun _ => rfl⟩ ?_
  refine .call (w := rolledWorld true "new" "new") (r := true) rfl ⟨rolledWorld_same .., rfl⟩ ?_
  exact ⟨[], _, .nil _⟩

/-- Then the new generation is desired, and one open node serves it while the other serves the old one. -/
theorem rollout_serves_two : Serves rolledRoutes bothNodes (rolledWorld true "new" "new") := by
  obtain ⟨ls, p, hrun⟩ := rolled_reaches
  exact rollout_serves rolledWorld_opened hrun

end Bmac.Haproxy
