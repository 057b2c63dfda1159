import Bmac.Base.Run
import Bmac.Registry.Ingress

/-!
# Runs of the ingress commands

What each command does to the nodes' statuses and to the allowances, and what any sequence of them
keeps: how long a node may serve an earlier generation, and which nodes may.
-/

namespace Bmac.Registry

open Bmac.Base Bmac.Core

variable {reg reg' : Registry}

/-! ## What each command does -/

variable {statuses : Table HostSlot NodeStatus} {node : HostSlot} {transition : Option Transition}
  {Q : Registry → Prop} {generation : String} {nodes : List HostSlot} {now revision : Int}
  {requested : Table HostSlot String} {c : Char} {compatible : List String}

theorem ingressNodeStatuses_eq_ok
    (h : ingressNodeStatuses reg = .ok statuses) : statuses = reg.nodeFiles := by
  simp only [ingressNodeStatuses, bind_eq_ok, pure_eq_ok] at h
  obtain ⟨_, -, _, -, rfl⟩ := h
  rfl

variable {policy : Policy} {given : List Allowance} {state : NodeState}
  {allowances : Table HostSlot String}

theorem nodeStatus?_eq_ok {status : Option NodeStatus}
    (h : nodeStatus? reg policy node = .ok status) : status = reg.nodeFiles.get? node := by
  unfold nodeStatus? at h
  cases hf : reg.nodeFiles.get? node with
  | none =>
    rw [hf] at h
    exact (Except.ok.inj h).symm
  | some r =>
    simp only [hf, bind_eq_ok, pure_eq_ok] at h
    obtain ⟨_, -, rfl⟩ := h
    rfl

theorem ingressTransition_eq_ok
    (h : ingressTransition reg = .ok transition) : transition = reg.transitionFile := by
  unfold ingressTransition at h
  cases hf : reg.transitionFile with
  | none =>
    rw [hf] at h
    exact (Except.ok.inj h).symm
  | some t =>
    simp only [hf, bind_eq_ok, pure_eq_ok] at h
    obtain ⟨_, -, _, -, rfl⟩ := h
    rfl

/-- A program that ends in a state of `Q`, with a result or an error. -/
def ends {α : Type} (m : Command α) (Q : Registry → Prop) (reg : Registry) : Prop :=
  wp m (fun _ => Q) (fun _ => Q) reg

theorem ends_ofExcept {α β : Type} {x : Except String α} {f : α → Command β} (h : Q reg)
    (hf : ∀ a, x = .ok a → ends (f a) Q reg) : ends (ofExcept x >>= f) Q reg := by
  unfold ends
  rw [wp_bind, wp_ofExcept]
  exact ⟨hf, fun _ _ => h⟩

theorem ends_check {α : Type} {c : Prop} [Decidable c] {e : String} {f : Unit → Command α}
    {m : Command α} (h : Q reg) (hm : ¬ c → ends m Q reg) :
    ends (if c then throw e >>= f else m) Q reg := by
  by_cases hc : c
  · rw [if_pos hc]
    exact h
  · rw [if_neg hc]
    exact hm hc

/-- A node's status after `ingress-begin`. -/
def BeginsNode (generation : String) (now : Int) (node : HostSlot) (old new : Option NodeStatus) :
    Prop :=
  new = old ∨ ¬ old.any (·.desiredGeneration = generation) ∧
    new = some (beginStatus generation node old now)

theorem ends_beginNodes (ht : reg.transitionFile = transition)
    (h : ∀ node, BeginsNode generation now node (statuses.get? node) (reg.nodeFiles.get? node)) :
    ends (beginNodes policy generation statuses now nodes) (fun reg' =>
      reg'.transitionFile = transition ∧ ∀ node,
        BeginsNode generation now node (statuses.get? node) (reg'.nodeFiles.get? node)) reg := by
  induction nodes generalizing reg with
  | nil => exact ⟨ht, h⟩
  | cons node nodes ih =>
    unfold beginNodes
    by_cases hsame : (statuses.get? node).any (·.desiredGeneration = generation)
    · simp only [hsame, Bool.not_true, Bool.false_eq_true, if_false]
      exact ih ht h
    · simp only [hsame, Bool.not_false, if_true]
      refine ends_ofExcept ⟨ht, h⟩ fun _ _ => ?_
      refine @ih (reg.apply (.writeNode _)) ht fun other => ?_
      simp only [apply, Table.get?_insert, beginStatus]
      split
      · rename_i hother
        subst hother
        exact .inr ⟨hsame, rfl⟩
      · exact h other

/-- What `ingress-begin` leaves, whether it succeeds or fails. -/
structure Begins (args : BeginArgs) (now : Int) (reg reg' : Registry) : Prop where
  transition : reg'.transitionFile = reg.transitionFile ∨ ∃ policy nodes requested,
    parseCompatibleAllowances args.compatible nodes = .ok requested ∧
    buildIngressTransition reg policy args.generation requested reg.nodeFiles
      args.compatibleWindowSeconds now = .ok reg'.transitionFile
  nodes : ∀ node, BeginsNode args.generation now node (reg.nodeFiles.get? node)
    (reg'.nodeFiles.get? node)

theorem begins_refl (args : BeginArgs) (now : Int) (reg : Registry) : Begins args now reg reg :=
  ⟨.inl rfl, fun _ => .inl rfl⟩

theorem ends_write {α : Type} {op : Op} {f : Unit → Command α}
    (hf : ends (f ()) Q (reg.apply op)) : ends (write op >>= f) Q reg := by
  unfold ends
  rw [wp_bind, wp_write]
  exact hf

theorem ends_writeAll {α : Type} {ops : List Op} {f : Unit → Command α}
    (hf : ends (f ()) Q (reg.applyAll ops)) : ends (writeAll ops >>= f) Q reg := by
  unfold ends writeAll at *
  rw [wp_bind]
  induction ops generalizing reg with
  | nil => exact hf
  | cons op ops ih =>
    show wp (write op >>= fun _ => ops.forM write) _ _ reg
    rw [wp_bind, wp_write]
    exact ih hf

theorem ends_get {α : Type} {f : Registry → Command α}
    (hf : ends (f reg) Q reg) : ends (get >>= f) Q reg := hf

theorem ends_seq {α : Type} {m : Command Unit} {f : Unit → Command α} {P : Registry → Prop}
    (hm : ends m P reg) (hf : ∀ reg, P reg → ends (f ()) Q reg) (hPQ : ∀ reg, P reg → Q reg) :
    ends (m >>= f) Q reg := by
  unfold ends
  rw [wp_bind]
  exact wp_mono hm (fun _ _ hp => hf _ hp) fun _ _ hp => hPQ _ hp

theorem applyAll_removeGeneration (reg : Registry) (removed : List String) :
    (reg.applyAll (removed.map Op.removeGeneration)).transitionFile = reg.transitionFile ∧
      (reg.applyAll (removed.map Op.removeGeneration)).nodeFiles = reg.nodeFiles := by
  induction removed generalizing reg with
  | nil => exact ⟨rfl, rfl⟩
  | cons generation removed ih => exact ih (reg.apply (.removeGeneration generation))

theorem ends_ingressBegin (args : BeginArgs) (clock : Int) :
    ends (ingressBegin args clock) (Begins args (utcNow clock) reg) reg := by
  have hrefl := begins_refl args (utcNow clock) reg
  unfold ingressBegin
  refine ends_ofExcept hrefl fun _ _ => ends_ofExcept hrefl fun _ _ => ends_check hrefl fun _ => ?_
  refine ends_get (ends_ofExcept hrefl fun policy _ => ends_ofExcept hrefl fun nodes _ =>
    ends_check hrefl fun _ => ends_ofExcept hrefl fun generation _ => ends_writeAll ?_)
  -- The generation's record changes neither the transition nor a node's status.
  have hgen : (reg.applyAll (generation.map Op.writeGeneration).toList).transitionFile =
      reg.transitionFile ∧
      (reg.applyAll (generation.map Op.writeGeneration).toList).nodeFiles = reg.nodeFiles := by
    cases generation <;> exact ⟨rfl, rfl⟩
  generalize reg.applyAll (generation.map Op.writeGeneration).toList = reg1 at hgen
  have hrefl1 : Begins args (utcNow clock) reg reg1 :=
    ⟨.inl hgen.1, fun _ => .inl (by rw [hgen.2])⟩
  refine ends_ofExcept hrefl1 fun statuses hstatuses => ends_ofExcept hrefl1 fun requested hparse =>
    ends_ofExcept hrefl1 fun transition hbuild => ends_write ?_
  obtain rfl := ingressNodeStatuses_eq_ok hstatuses
  have htransition (reg' : Registry) (h : reg'.transitionFile = transition ∧ ∀ node,
      BeginsNode args.generation (utcNow clock) node (reg.nodeFiles.get? node)
        (reg'.nodeFiles.get? node)) : Begins args (utcNow clock) reg reg' :=
    ⟨.inr ⟨policy, nodes, requested, hparse, h.1.symm ▸ hbuild⟩, h.2⟩
  have hwritten : (reg1.apply (transition.elim .removeTransition .writeTransition)).transitionFile =
      transition ∧
      (reg1.apply (transition.elim .removeTransition .writeTransition)).nodeFiles =
        reg.nodeFiles := by
    cases transition <;> exact ⟨rfl, hgen.2⟩
  generalize reg1.apply (transition.elim .removeTransition .writeTransition) = reg2 at hwritten
  have hrefl2 := htransition reg2 ⟨hwritten.1, fun _ => .inl (by rw [hwritten.2])⟩
  refine ends_get (ends_ofExcept hrefl2 fun existing _ => ends_ofExcept hrefl2 fun desired _ =>
    ends_writeAll ?_)
  have hdesired : (reg2.applyAll (desired.map Op.writeDesired).toList).transitionFile =
      transition ∧
      (reg2.applyAll (desired.map Op.writeDesired).toList).nodeFiles = reg.nodeFiles := by
    cases desired <;> exact hwritten
  generalize reg2.applyAll (desired.map Op.writeDesired).toList = reg3 at hdesired
  refine ends_seq (ends_beginNodes hdesired.1 fun node => .inl (by rw [hdesired.2]))
    (fun reg4 h4 => ?_) htransition
  refine ends_get (ends_ofExcept (htransition reg4 h4) fun removed _ => ?_)
  rw [← bind_pure (writeAll _)]
  refine ends_writeAll (htransition _ ?_)
  rw [(applyAll_removeGeneration reg4 removed).1, (applyAll_removeGeneration reg4 removed).2]
  exact h4

theorem buildAllowance_eq_ok {prior : List Allowance} {deadline : Int} {previous : String}
    {a : Allowance} (h : buildAllowance generation statuses prior deadline node previous = .ok a) :
    a.node = node ∧ a.generation = previous ∧
      (∃ status, statuses.get? node = some status ∧ status.appliedGeneration = some previous ∧
        status.state ≠ .rejectOnly) ∧
      ((∃ earlier ∈ prior, earlier.node = node ∧ earlier.generation = previous ∧
          a.expiresAt = earlier.expiresAt) ∨
        a.expiresAt = deadline ∧
          (prior.find? (·.node = node)).all (·.generation ≠ previous)) := by
  simp only [buildAllowance, check_eq_ok] at h
  obtain ⟨-, h⟩ := h
  cases hstatus : statuses.get? node with
  | none => simp [hstatus, throw_ne_ok] at h
  | some status =>
    simp only [hstatus, check_eq_ok, not_or, ne_eq, not_not, pure_eq_ok] at h
    obtain ⟨⟨happlied, hstate⟩, rfl⟩ := h
    refine ⟨rfl, rfl, ⟨status, rfl, happlied, hstate⟩, ?_⟩
    cases hprior : prior.find? (·.node = node) with
    | none => exact .inr ⟨rfl, rfl⟩
    | some earlier =>
      by_cases hgen : earlier.generation = previous
      · refine .inl ⟨earlier, List.mem_of_find?_eq_some hprior, ?_, hgen, by simp [hgen]⟩
        simpa using List.find?_some hprior
      · exact .inr ⟨by simp [hgen], by simpa using hgen⟩

theorem buildIngressTransition_eq_ok {windowSeconds : Int} {t : Transition}
    (h : buildIngressTransition reg policy generation requested statuses windowSeconds now =
      .ok (some t)) :
    t.generation = generation ∧ ∀ a ∈ t.allowances, (a.node, a.generation) ∈ requested ∧
      buildAllowance generation statuses (priorAllowances reg.transitionFile generation)
        (now + windowSeconds * second) a.node a.generation = .ok a := by
  unfold buildIngressTransition at h
  split at h
  · exact absurd (pure_eq_ok.mp h) (by simp)
  · simp only [check_eq_ok, bind_eq_ok, pure_eq_ok] at h
    obtain ⟨-, existing, hexisting, allowances, hall, _, -, h⟩ := h
    obtain rfl := ingressTransition_eq_ok hexisting
    obtain rfl := Option.some.inj h
    refine ⟨rfl, fun a ha => ?_⟩
    obtain ⟨e, he, hbuild⟩ := mem_of_mapM_eq_ok hall ha
    obtain ⟨hnode, hgen, -⟩ := buildAllowance_eq_ok hbuild
    rw [hnode, hgen]
    exact ⟨he, hbuild⟩

/-- `ingress-finalize` only removes the transition. -/
theorem ends_ingressFinalize (generation : String) :
    ends (ingressFinalize generation) (fun reg' =>
      (reg'.transitionFile = reg.transitionFile ∨ reg'.transitionFile = none) ∧
        reg'.nodeFiles = reg.nodeFiles) reg := by
  have hrefl : (reg.transitionFile = reg.transitionFile ∨ reg.transitionFile = none) ∧
      reg.nodeFiles = reg.nodeFiles := ⟨.inl rfl, rfl⟩
  unfold ingressFinalize
  refine ends_ofExcept hrefl fun _ _ => ends_get (ends_ofExcept hrefl fun desired _ =>
    ends_check hrefl fun _ => ends_ofExcept hrefl fun transition _ => ?_)
  cases transition with
  | none => exact hrefl
  | some t =>
    dsimp only
    by_cases hgen : t.generation = generation
    · rw [if_pos hgen]
      exact ends_ofExcept hrefl fun statuses _ => ends_check hrefl fun _ => ⟨.inr rfl, rfl⟩
    · rw [if_neg hgen]
      exact ⟨.inr rfl, rfl⟩

theorem validateNodes_single {maxHosts : Int} {node : String} {allowEmpty exactlyOne : Bool}
    {slots : List HostSlot} (h : validateNodes maxHosts [node] allowEmpty exactlyOne = .ok slots) :
    ∃ slot, HostSlot.parse node = some slot ∧ slots = [slot] := by
  simp only [validateNodes, check_eq_ok, foldlM_cons_eq_ok, bind_eq_ok, List.foldlM_nil,
    pure_eq_ok] at h
  obtain ⟨-, -, seen, ⟨slot, hslot, -, rfl⟩, rfl⟩ := h
  refine ⟨slot, ?_, rfl⟩
  cases hparse : HostSlot.parse node with
  | none => simp [validateNode, hparse, throw_ne_ok] at hslot
  | some slot' =>
    simp only [validateNode, hparse, check_eq_ok, pure_eq_ok] at hslot
    rw [hslot.2]

theorem ingressMark_spec (generation node : String) (state : NodeState) (clock : Int) :
    wp (ingressMark generation node state clock)
      (fun _ reg' => reg'.transitionFile = reg.transitionFile ∧
        ∃ slot, HostSlot.parse node = some slot ∧ ∃ status,
          (∀ other, reg'.nodeFiles.get? other =
            if other = slot then some status else reg.nodeFiles.get? other) ∧
          status.state = state ∧ status.appliedGeneration = if state = .applied then some generation
            else (reg.nodeFiles.get? slot).bind (·.appliedGeneration))
      (fun _ reg' => reg' = reg) reg := by
  unfold ingressMark
  simp only [wp_bind, wp_ofExcept, wp_get, implies_true, and_true]
  intro _ _ policy _ desired _
  cases desired with
  | none => rfl
  | some desired =>
    dsimp only
    split
    · rfl
    · simp only [wp_bind, wp_ofExcept, implies_true, and_true]
      intro slots hslots
      cases hhead : slots.head? with
      | none => rfl
      | some slot =>
        dsimp only
        split
        · rfl
        · simp only [wp_bind, wp_ofExcept, implies_true, and_true]
          intro existing hexisting
          obtain rfl := nodeStatus?_eq_ok hexisting
          obtain ⟨slot', hparse, rfl⟩ := validateNodes_single hslots
          obtain rfl : slot' = slot := by simpa using hhead
          split
          · simp only [wp_bind, wp_ofExcept, wp_write, implies_true, and_true]
            intro _ _
            refine ⟨rfl, slot', hparse, markStatus generation slot' state
              (reg.nodeFiles.get? slot') (utcNow clock), fun other => ?_, rfl, rfl⟩
            simp [apply, Table.get?_insert, markStatus]
          · rename_i hsame
            simp only [Bool.not_eq_true', Bool.not_eq_false] at hsame
            obtain ⟨old, hold, hfields⟩ := (Option.any_eq_true _ _).mp hsame
            simp only [decide_eq_true_eq] at hfields
            refine ⟨rfl, slot', hparse, old, fun other => ?_, hfields.2.2, ?_⟩
            · split
              · rename_i hother
                rw [hother, hold]
              · rfl
            · rw [hfields.2.1]
              rfl

/-! ## Runs -/

inductive IngressEvent where
  | begin_ (args : BeginArgs) (clock : Int)
  | mark (generation node : String) (state : NodeState) (clock : Int)
  | finalize (generation : String) (clock : Int)

def IngressEvent.clock : IngressEvent → Int
  | begin_ _ clock => clock
  | mark _ _ _ clock => clock
  | finalize _ clock => clock

/-- A successful mark of a node. -/
structure Mark where
  node : HostSlot
  state : NodeState
  generation : String
  deriving DecidableEq

/-- The registry, the first allowance that was given for each node and generation, and the marks
made, the newest first. -/
structure IngressState where
  reg : Registry
  given : List Allowance := []
  marks : List Mark := []

def leaves {α : Type} (m : Command α) (reg : Registry) : Registry :=
  match m reg with
  | .ok _ reg' => reg'
  | .error _ reg' => reg'

def succeeds {α : Type} (m : Command α) (reg : Registry) : Bool :=
  match m reg with
  | .ok _ _ => true
  | .error _ _ => false

theorem leaves_of_ends {α : Type} {m : Command α} (h : ends m Q reg) : Q (leaves m reg) := by
  unfold ends wp at h
  unfold leaves
  cases hm : m reg <;> rw [hm] at h <;> exact h

/-- The allowances that were written: a transition that is written has a new revision. -/
def writtenAllowances (old new : Registry) : List Allowance :=
  if new.transitionFile = old.transitionFile then []
  else new.transitionFile.elim [] (·.allowances)

def firstGiven (given : List Allowance) (a : Allowance) : List Allowance :=
  if given.any fun g => g.node = a.node ∧ g.generation = a.generation then given else given ++ [a]

namespace IngressState

def next (s : IngressState) : IngressEvent → IngressState
  | .begin_ args clock =>
    let reg := leaves (ingressBegin args clock) s.reg
    { s with reg, given := (writtenAllowances s.reg reg).foldl firstGiven s.given }
  | .mark generation node state clock =>
    let made := if succeeds (ingressMark generation node state clock) s.reg then
      (HostSlot.parse node).toList.map (⟨·, state, generation⟩) else []
    { s with
      reg := leaves (ingressMark generation node state clock) s.reg
      marks := made ++ s.marks }
  | .finalize generation _ => { s with reg := leaves (ingressFinalize generation) s.reg }

def play (s : IngressState) (es : List IngressEvent) : IngressState := es.foldl next s

/-- What holds of every step of a run. -/
def Throughout (P : IngressState → IngressEvent → Prop) (s : IngressState) :
    List IngressEvent → Prop
  | [] => True
  | e :: es => P s e ∧ Throughout P (s.next e) es

end IngressState

open IngressState

def smallGeneration (c : Char) : String := String.ofList (List.replicate 64 c)

def smallBegin (generation : Char) (compatible : List String) : BeginArgs where
  generation := smallGeneration generation
  bundleSha256 := smallGeneration '0'
  routeCount := 1
  node := ["mox1", "mox2", "mox3"]
  compatible
  compatibleWindowSeconds := 60

def smallServing : IngressState :=
  play ⟨smallRegistry, [], []⟩
    [.begin_ (smallBegin 'a' []) 0, .mark (smallGeneration 'a') "mox1" .applied 0]

theorem next_begin {args : BeginArgs} {clock : Int} {marks : List Mark}
    (h : ingressBegin args clock reg = .ok () reg') :
    next ⟨reg, given, marks⟩ (.begin_ args clock) =
      ⟨reg', (writtenAllowances reg reg').foldl firstGiven given, marks⟩ := by
  simp only [next, leaves, h]

theorem next_mark {node : String} {slot : HostSlot} {clock : Int}
    {marks : List Mark} (h : ingressMark generation node state clock reg = .ok () reg')
    (hnode : HostSlot.parse node = some slot) :
    next ⟨reg, given, marks⟩ (.mark generation node state clock) =
      ⟨reg', given, ⟨slot, state, generation⟩ :: marks⟩ := by
  simp [next, leaves, succeeds, h, hnode]

/-! ## Two generations of a small registry -/

def smallRollout (clock : Int) : IngressEvent :=
  .begin_ (smallBegin 'b' ["mox1=" ++ smallGeneration 'a']) clock

def smallStatus (node : HostSlot) (desired : Char) (applied : Option Char) (state : NodeState)
    (revision : Int) : HostSlot × NodeStatus :=
  (node, ⟨node, smallGeneration desired, applied.map smallGeneration, state, 0, 0, revision⟩)

def firstBegun (applied : Option Char) (state : NodeState) (revision : Int) : Registry :=
  { smallRegistry with
    generationFiles := [(smallGeneration 'a', ⟨smallGeneration 'a', smallGeneration '0', 1, 0⟩)]
    nodeFiles := [smallStatus (mox 1 HostSlot.range_one) 'a' applied state revision,
      smallStatus (mox 2 HostSlot.range_two) 'a' none .pending 1, smallStatus (mox 3) 'a' none .pending 1]
    desiredFile := some ⟨smallGeneration 'a', smallGeneration '0', 1,
      [mox 1 HostSlot.range_one, mox 2 HostSlot.range_two, mox 3], 0, 0, 1⟩ }

/-- The small registry while its second generation is desired, and the first one is applied on a node. -/
def secondBegun (transition : Option Transition) : Registry :=
  { smallRegistry with
    generationFiles := [(smallGeneration 'a', ⟨smallGeneration 'a', smallGeneration '0', 1, 0⟩),
      (smallGeneration 'b', ⟨smallGeneration 'b', smallGeneration '0', 1, 0⟩)]
    nodeFiles := [smallStatus (mox 1 HostSlot.range_one) 'b' (some 'a') .pending 4,
      smallStatus (mox 2 HostSlot.range_two) 'b' none .pending 2, smallStatus (mox 3) 'b' none .pending 2]
    desiredFile := some ⟨smallGeneration 'b', smallGeneration '0', 1,
      [mox 1 HostSlot.range_one, mox 2 HostSlot.range_two, mox 3], 0, 0, 2⟩
    transitionFile := transition }

def smallTransition (clock : Int) : Transition :=
  ⟨smallGeneration 'b', [⟨mox 1 HostSlot.range_one, smallGeneration 'a', clock + 60 * second⟩], clock, clock, 1⟩

theorem hex_small (c : Char) (description : String) (h : isHex c = true := by decide) :
    validateSha256 (smallGeneration c) description = .ok (smallGeneration c) := by
  have hsha : isSha256 (smallGeneration c) = true := by simp [isSha256, isHexText, smallGeneration, h]
  rw [validateSha256, hsha]
  rfl

theorem policy_small (h : reg.policyFile = some smallPolicy) : reg.policy = .ok smallPolicy := by
  have hvalid : validatePolicy smallPolicy = .ok () := by decide +kernel
  rw [policy, h, ofOption, ok_bind, hvalid, ok_bind]
  rfl

theorem nodes_small : validateNodes smallPolicy.limits.maxHosts (flattenNodes ["mox1", "mox2", "mox3"])
    false false = .ok [mox 1, mox 2, mox 3] := by decide +kernel

theorem node_small (h : node ∈ [mox 1, mox 2, mox 3]) :
    validateNodes smallPolicy.limits.maxHosts [node.text] false true = .ok [node] := by
  revert node
  decide +kernel

theorem generation_small (c : Char) (h : isHex c = true := by decide) :
    validateGeneration ⟨smallGeneration c, smallGeneration '0', 1, 0⟩ = .ok () := by
  rw [validateGeneration, hex_small c _ h, hex_small '0']
  rfl

theorem status_small {node : HostSlot} (hnode : node ∈ [mox 1, mox 2, mox 3]) {desired : Char}
    (hdesired : isHex desired = true) {applied : Option Char} (happlied : ∀ c ∈ applied, isHex c = true)
    {state : NodeState} (hstate : state = .applied → applied = some desired) {updated revision : Int}
    (hupdated : 0 ≤ updated) (hrevision : 1 ≤ revision) :
    validateNodeStatus ⟨node, smallGeneration desired, applied.map smallGeneration, state, 0, updated,
      revision⟩ smallPolicy = .ok () := by
  have hof : ¬ (state = .applied ∧ applied.map smallGeneration ≠ some (smallGeneration desired)) :=
    fun ⟨hs, hne⟩ => hne (by rw [hstate hs]; rfl)
  have hforM : (applied.map smallGeneration).forM (fun c => do
      let _ ← validateSha256 c "node applied ingress generation") = (.ok () : Except String Unit) := by
    cases applied with
    | none => rfl
    | some c =>
      show (validateSha256 (smallGeneration c) _ >>= fun _ => pure ()) = _
      rw [hex_small c _ (happlied c rfl)]
      rfl
  rw [validateNodeStatus, node_small hnode, ok_bind, hex_small desired _ hdesired, ok_bind]
  simp only []
  rw [hforM, ok_bind, if_neg hof, if_neg (by omega), if_neg (by omega)]
  rfl

theorem generation_found (h : isHex c = true)
    (hfile : reg.generationFiles.get? (smallGeneration c) =
      some ⟨smallGeneration c, smallGeneration '0', 1, 0⟩) :
    generation? reg (smallGeneration c) = .ok (some ⟨smallGeneration c, smallGeneration '0', 1, 0⟩) := by
  rw [generation?, hex_small c _ h, ok_bind, hfile]
  show (validateGeneration _ >>= _) = _
  rw [generation_small c h]
  rfl

theorem desired_small (h : isHex c = true) (hrevision : 1 ≤ revision) :
    validateDesired ⟨smallGeneration c, smallGeneration '0', 1, [mox 1, mox 2, mox 3], 0, 0, revision⟩
      smallPolicy = .ok () := by
  rw [validateDesired]
  simp only []
  rw [hex_small c _ h, ok_bind, hex_small '0', ok_bind, if_neg (by decide), if_neg (by decide),
    if_neg (by omega)]
  rfl

theorem desired_found {c : Char} (h : isHex c = true) {revision : Int} (hrevision : 1 ≤ revision)
    (hpolicy : reg.policyFile = some smallPolicy) (hdesired : reg.desiredFile =
      some ⟨smallGeneration c, smallGeneration '0', 1, [mox 1, mox 2, mox 3], 0, 0, revision⟩)
    (hfile : reg.generationFiles.get? (smallGeneration c) =
      some ⟨smallGeneration c, smallGeneration '0', 1, 0⟩) :
    ingressDesired reg = .ok reg.desiredFile := by
  rw [ingressDesired, hdesired]
  simp only []
  rw [policy_small hpolicy, ok_bind, desired_small h hrevision, ok_bind, generation_found h hfile, ok_bind,
    ofOption, ok_bind, if_neg (by simp)]
  rfl

theorem forM_statuses
    (hall : ∀ e ∈ reg.nodeFiles, validateNodeStatus e.2 smallPolicy = .ok () ∧ e.1 = e.2.node) :
    reg.nodeFiles.forM (fun (node, r) => do
      validateNodeStatus r smallPolicy
      if node ≠ r.node then
        throw s!"ingress node status filename does not match record: {node}.json") =
      (.ok () : Except String Unit) := by
  refine forM_eq_ok_iff.mpr fun e he => ?_
  obtain ⟨hvalid, hnode⟩ := hall e he
  show (validateNodeStatus e.2 smallPolicy >>= _) = _
  rw [hvalid, ok_bind, if_neg (not_not.mpr hnode)]
  rfl

theorem statuses_small (hpolicy : reg.policyFile = some smallPolicy)
    (hall : ∀ e ∈ reg.nodeFiles, validateNodeStatus e.2 smallPolicy = .ok () ∧ e.1 = e.2.node) :
    ingressNodeStatuses reg = .ok reg.nodeFiles := by
  rw [ingressNodeStatuses, policy_small hpolicy, ok_bind, forM_statuses hall]
  rfl

theorem forM_generations
    (hall : ∀ e ∈ reg.generationFiles, validateGeneration e.2 = .ok () ∧ e.1 = e.2.generation) :
    reg.generationFiles.forM (fun (generation, r) => do
      validateGeneration r
      if generation ≠ r.generation then
        throw s!"ingress generation filename does not match record: {generation}.json") =
      (.ok () : Except String Unit) := by
  refine forM_eq_ok_iff.mpr fun e he => ?_
  obtain ⟨hvalid, hname⟩ := hall e he
  show (validateGeneration e.2 >>= _) = _
  rw [hvalid, ok_bind, if_neg (not_not.mpr hname)]
  rfl

theorem pruned_small (h : isHex c = true)
    (hall : ∀ e ∈ reg.generationFiles, validateGeneration e.2 = .ok () ∧ e.1 = e.2.generation)
    (hfew : reg.generationFiles.length ≤ maxIngressGenerations - 1) :
    pruneIngressGenerations reg (smallGeneration c) maxIngressGenerations = .ok [] := by
  rw [pruneIngressGenerations, hex_small c _ h, ok_bind, forM_generations hall, ok_bind, pure_eq_ok]
  refine List.filter_eq_nil_iff.mpr fun generation hmem hnot => ?_
  simp only [decide_eq_true_eq, List.mem_cons, not_or] at hnot
  refine hnot.2 ?_
  rw [List.take_of_length_le (le_trans (List.length_filter_le _ _)
    (by simpa [Table.values, List.length_insertionSort] using hfew))]
  simpa [hnot.1, List.mem_insertionSort] using hmem

section Steps

variable {α β : Type} {r : EStateM.Result String Registry β}

theorem run_ofExcept {x : Except String α} {a : α} {f : α → Command β} (h : x = .ok a) (hf : f a reg = r) :
    (ofExcept x >>= f) reg = r := by
  rw [h]
  exact hf

variable {f : Unit → Command β}

theorem run_check {c : Prop} [Decidable c] {e : String} {m : Command β}
    (h : ¬ c) (hm : m reg = r) : (if c then throw e >>= f else m) reg = r := by
  rw [if_neg h]
  exact hm

theorem run_get {f : Registry → Command β} (hf : f reg reg = r) : (get >>= f) reg = r := hf

theorem run_write {op : Op} (hf : f () (reg.apply op) = r) : (write op >>= f) reg = r := hf

theorem run_writeAll {ops : List Op} (hf : f () (reg.applyAll ops) = r) :
    (writeAll ops >>= f) reg = r := by
  induction ops generalizing reg with
  | nil => exact hf
  | cons op ops ih => exact ih hf

end Steps

theorem begin_small {clock : Int} (h : isHex c = true) {generation : Option Generation} {reg1 reg2 : Registry}
    {existing desired : Option Desired} (hpolicy : reg.policyFile = some smallPolicy)
    (hgeneration : beginGeneration reg (smallBegin c compatible) (utcNow clock) = .ok generation)
    (hreg1 : reg.applyAll (generation.map .writeGeneration).toList = reg1)
    (hstatuses : ingressNodeStatuses reg = .ok statuses)
    (hparse : parseCompatibleAllowances compatible [mox 1, mox 2, mox 3] = .ok requested)
    (hbuild : buildIngressTransition reg smallPolicy (smallGeneration c) requested statuses 60
      (utcNow clock) = .ok transition)
    (hreg2 : reg1.apply (transition.elim .removeTransition .writeTransition) = reg2)
    (hexisting : ingressDesired reg2 = .ok existing)
    (hdesired : beginDesired smallPolicy (smallBegin c compatible) [mox 1, mox 2, mox 3] (utcNow clock)
      existing = .ok desired)
    (hnodes : beginNodes smallPolicy (smallGeneration c) statuses (utcNow clock) [mox 1, mox 2, mox 3]
      (reg2.applyAll (desired.map .writeDesired).toList) = .ok () reg')
    (hprune : pruneIngressGenerations reg' (smallGeneration c) maxIngressGenerations = .ok []) :
    ingressBegin (smallBegin c compatible) clock reg = .ok () reg' := by
  subst hreg1 hreg2
  have hcount : ¬ ((1 : Int) < 0 ∨ maxRoutes < (1 : Int)) := by decide
  have hnamed : ¬ [mox 1, mox 2, mox 3] ≠ expectedNodes smallPolicy := by decide
  unfold ingressBegin
  refine run_ofExcept (hex_small c _ h) (run_ofExcept (hex_small '0' _) (run_check hcount ?_))
  refine run_get (run_ofExcept (policy_small hpolicy) (run_ofExcept nodes_small (run_check hnamed ?_)))
  refine run_ofExcept hgeneration (run_writeAll (run_ofExcept hstatuses (run_ofExcept hparse ?_)))
  refine run_ofExcept hbuild (run_write (run_get (run_ofExcept hexisting (run_ofExcept hdesired ?_))))
  refine run_writeAll ((run_bind_ok hnodes).trans (run_get (run_ofExcept hprune ?_)))
  rfl

theorem beginNodes_kept
    (h : ∀ node ∈ nodes, (statuses.get? node).any (·.desiredGeneration = generation)) :
    beginNodes smallPolicy generation statuses now nodes reg = .ok () reg := by
  induction nodes with
  | nil => rfl
  | cons node nodes ih =>
    rw [beginNodes, h node List.mem_cons_self]
    exact ih fun node hnode => h node (List.mem_cons_of_mem _ hnode)

theorem beginNodes_begun {r : EStateM.Result String Registry Unit}
    (hnew : (statuses.get? node).any (·.desiredGeneration = generation) = false)
    (hvalid : validateNodeStatus (beginStatus generation node (statuses.get? node) now) smallPolicy = .ok ())
    (hrest : beginNodes smallPolicy generation statuses now nodes
      (reg.apply (.writeNode (beginStatus generation node (statuses.get? node) now))) = r) :
    beginNodes smallPolicy generation statuses now (node :: nodes) reg = r := by
  rw [beginNodes, hnew]
  exact run_ofExcept hvalid hrest

theorem beginGeneration_new (h : isHex c = true)
    (hfile : reg.generationFiles.get? (smallGeneration c) = none) :
    beginGeneration reg (smallBegin c compatible) (utcNow 0) =
      .ok (some ⟨smallGeneration c, smallGeneration '0', 1, 0⟩) := by
  have hgen : generation? reg (smallGeneration c) = .ok none := by
    rw [generation?, hex_small c _ h, ok_bind, hfile]
    rfl
  rw [beginGeneration, show (smallBegin c compatible).generation = smallGeneration c from rfl, hgen, ok_bind]
  show (validateGeneration ⟨smallGeneration c, smallGeneration '0', 1, 0⟩ >>= _) = _
  rw [generation_small c h]
  rfl

theorem beginGeneration_found (h : isHex c = true)
    (hfile : reg.generationFiles.get? (smallGeneration c) =
      some ⟨smallGeneration c, smallGeneration '0', 1, 0⟩) :
    beginGeneration reg (smallBegin c compatible) now = .ok none := by
  rw [beginGeneration, show (smallBegin c compatible).generation = smallGeneration c from rfl,
    generation_found h hfile, ok_bind]
  simp only [smallBegin, ne_eq, not_true_eq_false, or_self, if_false]
  rfl

theorem small_ne : smallGeneration 'a' ≠ smallGeneration 'b' := by decide +kernel

theorem small_lt : smallGeneration 'a' < smallGeneration 'b' := by
  rw [String.lt_iff_toList_lt, smallGeneration, smallGeneration, String.toList_ofList, String.toList_ofList]
  decide

theorem beginDesired_new (h : isHex c = true) {existing : Option Desired}
    (hold : ∀ d ∈ existing, d.generation ≠ smallGeneration c ∧ d.createdAt = 0 ∧ 1 ≤ d.revision) :
    beginDesired smallPolicy (smallBegin c compatible) [mox 1, mox 2, mox 3] (utcNow 0) existing =
      .ok (some ⟨smallGeneration c, smallGeneration '0', 1, [mox 1, mox 2, mox 3], 0, 0,
        existing.elim 1 (·.revision + 1)⟩) := by
  cases existing with
  | none => exact congrArg (· >>= _) (desired_small h le_rfl)
  | some d =>
    obtain ⟨hgen, hcreated, hrevision⟩ := hold d rfl
    have hne : ¬ (some d).any (fun d => d.generation = (smallBegin c compatible).generation ∧
        d.bundleSha256 = (smallBegin c compatible).bundleSha256 ∧
        d.routeCount = (smallBegin c compatible).routeCount ∧ d.nodes = [mox 1, mox 2, mox 3]) := by
      simp [smallBegin, hgen]
    rw [beginDesired, if_neg hne]
    simp only [Option.elim_some, hcreated]
    exact congrArg (· >>= _) (desired_small h (show 1 ≤ d.revision + 1 by omega))

theorem beginDesired_kept {created updated : Int} :
    beginDesired smallPolicy (smallBegin c compatible) [mox 1, mox 2, mox 3] now
      (some ⟨smallGeneration c, smallGeneration '0', 1, [mox 1, mox 2, mox 3], created, updated, revision⟩) =
      .ok none := by
  rw [beginDesired, if_pos (by simp [smallBegin])]
  rfl

theorem mox_one : HostSlot.parse "mox1" = some (mox 1) := by decide

theorem first_begun : ingressBegin (smallBegin 'a' []) 0 smallRegistry =
    .ok () (firstBegun none .pending 1) := by
  have hstatus (node : HostSlot) (hnode : node ∈ [mox 1, mox 2, mox 3]) :=
    @status_small node hnode 'a' (by decide) none (by simp) .pending (by simp) 0 1 le_rfl le_rfl
  refine begin_small (by decide) rfl (beginGeneration_new (by decide) rfl) rfl
    (statuses_small rfl (by simp [smallRegistry])) rfl rfl rfl rfl
    (beginDesired_new (by decide) (by simp)) ?_ (pruned_small (by decide) ?_ (by decide))
  · exact beginNodes_begun rfl (hstatus _ (by decide)) (beginNodes_begun rfl (hstatus _ (by decide))
      (beginNodes_begun rfl (hstatus _ (by decide)) rfl))
  · exact List.forall_mem_singleton.mpr ⟨generation_small 'a', rfl⟩

theorem first_statuses {applied : Option Char} (happlied : ∀ c ∈ applied, c = 'a')
    (hstate : state = .applied → applied = some 'a') (hrevision : 1 ≤ revision) :
    ∀ e ∈ (firstBegun applied state revision).nodeFiles,
      validateNodeStatus e.2 smallPolicy = .ok () ∧ e.1 = e.2.node := by
  have happlied' : ∀ c ∈ applied, isHex c = true := fun c hc => happlied c hc ▸ (by decide)
  have hpending (node : HostSlot) (hnode : node ∈ [mox 1, mox 2, mox 3]) :=
    @status_small node hnode 'a' (by decide) none (by simp) .pending (by simp) 0 1 le_rfl le_rfl
  exact List.forall_mem_cons.mpr ⟨⟨status_small (by decide) (by decide) happlied' hstate le_rfl hrevision, rfl⟩,
    List.forall_mem_cons.mpr ⟨⟨hpending _ (by decide), rfl⟩,
      List.forall_mem_singleton.mpr ⟨hpending _ (by decide), rfl⟩⟩⟩

theorem first_marked {applied applied' : Option Char} {state' : NodeState}
    (happlied : ∀ c ∈ applied, c = 'a') (hstate : state = .applied → applied = some 'a')
    (happlied' : applied' = if state' = .applied then some 'a' else applied) (hrevision : 1 ≤ revision)
    (hnew : state ≠ state') :
    ingressMark (smallGeneration 'a') "mox1" state' 0 (firstBegun applied state revision) =
      .ok () (firstBegun applied' state' (revision + 1)) := by
  have hdesired := @desired_found (firstBegun applied state revision) 'a' (by decide) 1 le_rfl rfl rfl rfl
  have hold := (first_statuses happlied hstate hrevision _ List.mem_cons_self).1
  have hread : nodeStatus? (firstBegun applied state revision) smallPolicy (mox 1) =
      .ok (some (smallStatus (mox 1) 'a' applied state revision).2) :=
    congrArg (· >>= _) hold
  have hnode : validateNodes smallPolicy.limits.maxHosts ["mox1"] false true = .ok [mox 1] := by
    decide +kernel
  have hvalid := @status_small (mox 1) (by decide) 'a' (by decide) applied'
    (by
      intro c hc
      rw [happlied'] at hc
      split at hc
      · exact Option.mem_some_iff.mp hc ▸ (by decide)
      · exact happlied c hc ▸ (by decide)) state'
    (fun hs => by rw [happlied', if_pos hs]) 0 (revision + 1) le_rfl (by omega)
  have hmark : markStatus (smallGeneration 'a') (mox 1) state'
      (some (smallStatus (mox 1) 'a' applied state revision).2) (utcNow 0) =
        ⟨mox 1, smallGeneration 'a', applied'.map smallGeneration, state', 0, 0, revision + 1⟩ := by
    rw [happlied']
    by_cases hs : state' = .applied <;> simp [markStatus, smallStatus, hs, utcNow]
  unfold ingressMark
  refine run_ofExcept (hex_small 'a' _) (run_get (run_ofExcept (policy_small rfl) (run_ofExcept hdesired ?_)))
  refine run_check (by simp) (run_ofExcept hnode (run_check (by decide) (run_ofExcept hread ?_)))
  rw [hmark]
  have hchanged : (!(some (smallStatus (mox 1) 'a' applied state revision).2).any fun old =>
      old.desiredGeneration = smallGeneration 'a' ∧
        old.appliedGeneration = applied'.map smallGeneration ∧ old.state = state') = true := by
    simp [smallStatus, hnew]
  rw [if_pos hchanged]
  exact run_ofExcept hvalid rfl

theorem second_generations : ∀ e ∈ (secondBegun none).generationFiles,
    validateGeneration e.2 = .ok () ∧ e.1 = e.2.generation :=
  List.forall_mem_cons.mpr ⟨⟨generation_small 'a', rfl⟩,
    List.forall_mem_singleton.mpr ⟨generation_small 'b', rfl⟩⟩

theorem second_generation (transition : Option Transition) :
    (secondBegun transition).generationFiles.get? (smallGeneration 'b') =
      some ⟨smallGeneration 'b', smallGeneration '0', 1, 0⟩ := by
  simp only [secondBegun, Table.get?_cons, if_neg small_ne.symm, if_true]

theorem second_status {node : HostSlot} (hnode : node ∈ [mox 1, mox 2, mox 3]) {applied : Option Char}
    (happlied : ∀ c ∈ applied, c = 'a') {revision : Int} (hrevision : 1 ≤ revision) :
    validateNodeStatus ⟨node, smallGeneration 'b', applied.map smallGeneration, .pending, 0, 0, revision⟩
      smallPolicy = .ok () :=
  status_small hnode (by decide) (fun c hc => happlied c hc ▸ (by decide)) (by simp) le_rfl hrevision

theorem second_begun : ingressBegin (smallBegin 'b' []) 0 (firstBegun (some 'a') .rejectOnly 3) =
    .ok () (secondBegun none) := by
  have hgen : (firstBegun (some 'a') .rejectOnly 3).generationFiles.get? (smallGeneration 'b') = none := by
    simp only [firstBegun, Table.get?_cons, if_neg small_ne.symm]
    rfl
  have hinsert : (firstBegun (some 'a') .rejectOnly 3).generationFiles.insert (smallGeneration 'b')
      ⟨smallGeneration 'b', smallGeneration '0', 1, 0⟩ = (secondBegun none).generationFiles := by
    simp only [firstBegun, secondBegun, Table.insert, if_neg (not_lt.mpr small_lt.le), if_neg small_ne.symm]
  have hfirst : ({ firstBegun (some 'a') .rejectOnly 3 with
      generationFiles := (secondBegun none).generationFiles } : Registry).generationFiles.get?
        (smallGeneration 'a') = some ⟨smallGeneration 'a', smallGeneration '0', 1, 0⟩ := by
    simp only [secondBegun, Table.get?_cons, if_true]
  have hother (status : HostSlot × NodeStatus) (h : status.2.desiredGeneration = smallGeneration 'a') :
      (some status.2).any (·.desiredGeneration = smallGeneration 'b') = false := by
    simp [h, small_ne]
  have hwritten : (firstBegun (some 'a') .rejectOnly 3).applyAll
      [.writeGeneration ⟨smallGeneration 'b', smallGeneration '0', 1, 0⟩] =
        { firstBegun (some 'a') .rejectOnly 3 with
          generationFiles := (secondBegun none).generationFiles } := by
    rw [← hinsert]
    rfl
  refine begin_small (by decide) rfl (beginGeneration_new (by decide) hgen) hwritten
    (statuses_small rfl (first_statuses (by simp) (by simp) (by decide))) rfl rfl rfl
    (desired_found (by decide) le_rfl rfl rfl hfirst)
    (beginDesired_new (by decide) fun d hd => Option.some.inj hd ▸ ⟨small_ne, rfl, le_rfl⟩) ?_
    (pruned_small (by decide) second_generations (by decide))
  · exact beginNodes_begun (hother (smallStatus (mox 1) 'a' (some 'a') .rejectOnly 3) rfl)
      (@second_status (mox 1) (by decide) (some 'a') (by simp) 4 (by decide))
      (beginNodes_begun (hother (smallStatus (mox 2) 'a' none .pending 1) rfl)
        (@second_status (mox 2) (by decide) none (by simp) 2 (by decide))
        (beginNodes_begun (hother (smallStatus (mox 3) 'a' none .pending 1) rfl)
          (@second_status (mox 3) (by decide) none (by simp) 2 (by decide)) rfl))

theorem second_statuses (transition : Option Transition) : ∀ e ∈ (secondBegun transition).nodeFiles,
    validateNodeStatus e.2 smallPolicy = .ok () ∧ e.1 = e.2.node :=
  List.forall_mem_cons.mpr ⟨⟨@second_status (mox 1) (by decide) (some 'a') (by simp) 4 (by decide), rfl⟩,
    List.forall_mem_cons.mpr ⟨⟨@second_status (mox 2) (by decide) none (by simp) 2 (by decide), rfl⟩,
      List.forall_mem_singleton.mpr ⟨@second_status (mox 3) (by decide) none (by simp) 2 (by decide), rfl⟩⟩⟩

theorem first_applied : ingressMark (smallGeneration 'a') "mox1" .applied 0
    (firstBegun none .pending 1) = .ok () (firstBegun (some 'a') .applied 2) :=
  first_marked (by simp) (by simp) rfl le_rfl (by simp)

theorem first_rejected : ingressMark (smallGeneration 'a') "mox1" .rejectOnly 0
    (firstBegun (some 'a') .applied 2) = .ok () (firstBegun (some 'a') .rejectOnly 3) :=
  first_marked (by simp) (by simp) rfl (by decide) (by simp)

/-- The second generation is begun again: only the transition changes. -/
theorem second_again {transition' : Option Transition} {clock : Int}
    (hparse : parseCompatibleAllowances compatible [mox 1, mox 2, mox 3] = .ok requested)
    (hbuild : buildIngressTransition (secondBegun transition) smallPolicy (smallGeneration 'b') requested
      (secondBegun transition).nodeFiles 60 (utcNow clock) = .ok transition') :
    ingressBegin (smallBegin 'b' compatible) clock (secondBegun transition) =
      .ok () (secondBegun transition') := by
  have hwritten : (secondBegun transition).apply (transition'.elim .removeTransition .writeTransition) =
      secondBegun transition' := by
    cases transition' <;> rfl
  refine begin_small (by decide) rfl (beginGeneration_found (by decide) (second_generation transition)) rfl
    (statuses_small rfl (second_statuses transition)) hparse hbuild hwritten
    (desired_found (by decide) (show (1 : Int) ≤ 2 by decide) rfl rfl (second_generation transition'))
    beginDesired_kept (beginNodes_kept ?_)
    (pruned_small (by decide) second_generations (show 2 ≤ maxIngressGenerations - 1 by decide))
  · intro node hnode
    simp only [List.mem_cons, List.not_mem_nil, or_false] at hnode
    rcases hnode with rfl | rfl | rfl <;>
      exact decide_eq_true (rfl : smallGeneration 'b' = smallGeneration 'b')

theorem second_requested : parseCompatibleAllowances ["mox1=" ++ smallGeneration 'a'] [mox 1, mox 2, mox 3] =
    .ok [(mox 1, smallGeneration 'a')] := by
  have hlist : ("mox1=" ++ smallGeneration 'a').toList =
      'm' :: 'o' :: 'x' :: '1' :: '=' :: List.replicate 64 'a' := by
    rw [String.toList_append, show (smallGeneration 'a').toList = List.replicate 64 'a' from String.toList_ofList]
    rfl
  have htake : String.ofList (('m' :: 'o' :: 'x' :: '1' :: '=' :: List.replicate 64 'a').takeWhile (· ≠ '=')) =
    "mox1" := rfl
  have hdrop : ('m' :: 'o' :: 'x' :: '1' :: '=' :: List.replicate 64 'a').dropWhile (· ≠ '=') =
    '=' :: List.replicate 64 'a' := rfl
  have hfind : [mox 1, mox 2, mox 3].find? (·.text = "mox1") = some (mox 1) := by decide
  rw [parseCompatibleAllowances, List.foldlM_cons, parseCompatibleAllowance]
  simp only [hlist, htake, hdrop, hfind]
  rw [if_neg (by decide), show String.ofList (List.replicate 64 'a') = smallGeneration 'a' from rfl,
    hex_small 'a']
  rfl

theorem second_transition (clock : Int) (hclock : utcNow clock = clock) :
    buildIngressTransition (secondBegun none) smallPolicy (smallGeneration 'b')
      [(mox 1, smallGeneration 'a')] (secondBegun none).nodeFiles 60 (utcNow clock) =
        .ok (some (smallTransition clock)) := by
  have hallowance : buildAllowance (smallGeneration 'b') (secondBegun none).nodeFiles
      (priorAllowances none (smallGeneration 'b')) (clock + 60 * second) (mox 1) (smallGeneration 'a') =
        .ok ⟨mox 1, smallGeneration 'a', clock + 60 * second⟩ := by
    rw [buildAllowance, if_neg small_ne]
    rfl
  have hvalid : validateTransition (smallTransition clock) smallPolicy = .ok () := by
    have hone : [(⟨mox 1, smallGeneration 'a', clock + 60 * second⟩ : Allowance)].forM (fun allowance => do
        let _ ← validateNodes smallPolicy.limits.maxHosts [allowance.node.text] false true
        let _ ← validateSha256 allowance.generation "allowed previous generation"
        if allowance.generation = smallGeneration 'b' then
          throw "an allowance must name a previous generation") = (.ok () : Except String Unit) := by
      refine forM_eq_ok_iff.mpr (List.forall_mem_singleton.mpr ?_)
      rw [node_small (show mox 1 ∈ _ by decide), ok_bind, hex_small 'a', ok_bind, if_neg small_ne]
      rfl
    rw [validateTransition, smallTransition]
    simp only []
    rw [hex_small 'b', ok_bind, if_neg (by simp), hone, ok_bind, if_neg (by simp), if_neg (by decide),
      if_neg (by omega)]
    rfl
  rw [buildIngressTransition, if_neg (by simp), if_neg (by decide), show ingressTransition (secondBegun none) =
    .ok none from rfl, ok_bind, hclock]
  simp only [List.mapM_cons, List.mapM_nil, hallowance, ok_bind, pure_bind]
  exact congrArg (· >>= _) hvalid

theorem second_granted : ingressBegin (smallBegin 'b' ["mox1=" ++ smallGeneration 'a']) 0
    (secondBegun none) = .ok () (secondBegun (some (smallTransition 0))) :=
  second_again second_requested (second_transition 0 (by decide))

theorem second_withdrawn : ingressBegin (smallBegin 'b' []) second
    (secondBegun (some (smallTransition 0))) = .ok () (secondBegun none) :=
  second_again rfl rfl

theorem second_regranted : ingressBegin (smallBegin 'b' ["mox1=" ++ smallGeneration 'a'])
    (2 * second) (secondBegun none) = .ok () (secondBegun (some (smallTransition (2 * second)))) :=
  second_again second_requested (second_transition (2 * second) (by decide))

/-! ## Deadlines -/

/-- No allowance lasts longer than the first one of its node for its generation. -/
def Bounded (s : IngressState) : Prop :=
  ∀ a ∈ s.reg.transitionFile.elim [] (·.allowances), ∀ g ∈ s.given, g.node = a.node →
    g.generation = a.generation → a.expiresAt ≤ g.expiresAt

/-- Of `given`, an allowance that `ingress-begin` gives anew, and with a later deadline: the stored
transition does not hold it any more. -/
def Restarts (s : IngressState) : IngressEvent → Prop
  | .begin_ args clock => ∃ g ∈ s.given,
    s!"{g.node}={g.generation}" ∈ args.compatible ∧
    ((priorAllowances s.reg.transitionFile args.generation).find? (·.node = g.node)).all
      (·.generation ≠ g.generation) ∧
    g.expiresAt < utcNow clock + args.compatibleWindowSeconds * second
  | _ => False

theorem parseCompatibleAllowance_mem {value : String} {allowances' : Table HostSlot String}
    (h : parseCompatibleAllowance nodes allowances value = .ok allowances') {e : HostSlot × String}
    (he : e ∈ allowances') : e ∈ allowances ∨ s!"{e.1}={e.2}" = value := by
  unfold parseCompatibleAllowance at h
  dsimp only at h
  split at h
  · rename_i slot c previous hfind hdrop
    simp only [check_eq_ok, bind_eq_ok, pure_eq_ok, validateSha256] at h
    obtain ⟨-, _, ⟨-, rfl⟩, rfl⟩ := h
    rcases Table.mem_insert he with rfl | he
    · right
      have hnode : slot.text = String.ofList (value.toList.takeWhile (· ≠ '=')) := by
        simpa using List.find?_some hfind
      have hc : c = '=' := by
        have := List.head_dropWhile_not (fun c => decide (c ≠ '=')) (l := value.toList)
          (by rw [hdrop]; simp)
        simp only [hdrop, List.head_cons, decide_eq_false_iff_not, not_not] at this
        exact this
      have hcut := List.takeWhile_append_dropWhile (p := fun c => decide (c ≠ '='))
        (l := value.toList)
      rw [hdrop, hc] at hcut
      apply String.toList_inj.mp
      rw [← hcut]
      simp [toString, hnode]
    · exact .inl he
  · exact absurd h throw_ne_ok

theorem parse_mem {values : List String}
    (h : values.foldlM (parseCompatibleAllowance nodes) allowances = .ok requested)
    {e : HostSlot × String} (he : e ∈ requested) : e ∈ allowances ∨ s!"{e.1}={e.2}" ∈ values := by
  induction values generalizing allowances with
  | nil => exact .inl (pure_eq_ok.mp h ▸ he)
  | cons value values ih =>
    obtain ⟨next, hvalue, hrest⟩ := foldlM_cons_eq_ok.mp h
    rcases ih hrest with hmem | hmem
    · rcases parseCompatibleAllowance_mem hvalue hmem with hmem | rfl
      · exact .inl hmem
      · exact .inr (List.mem_cons_self ..)
    · exact .inr (List.mem_cons_of_mem _ hmem)

theorem mem_foldl_firstGiven {written : List Allowance} {g : Allowance}
    (h : g ∈ written.foldl firstGiven given) : g ∈ given ∨ g ∈ written ∧
      ∀ g' ∈ given, ¬ (g'.node = g.node ∧ g'.generation = g.generation) := by
  induction written generalizing given with
  | nil => exact .inl h
  | cons a written ih =>
    rw [List.foldl_cons] at h
    unfold firstGiven at h
    split at h
    · rcases ih h with h | ⟨h, hnone⟩
      · exact .inl h
      · exact .inr ⟨List.mem_cons_of_mem _ h, hnone⟩
    · rename_i hnew
      rcases ih h with h | ⟨h, hnone⟩
      · rcases List.mem_append.mp h with h | h
        · exact .inl h
        · obtain rfl := List.mem_singleton.mp h
          refine .inr ⟨List.mem_cons_self .., fun g' hg' hkey => hnew ?_⟩
          exact List.any_eq_true.mpr ⟨g', hg', by simpa using hkey⟩
      · exact .inr ⟨List.mem_cons_of_mem _ h, fun g' hg' => hnone g' (List.mem_append_left _ hg')⟩

theorem mem_priorAllowances {existing : Option Transition} {a : Allowance}
    (h : a ∈ priorAllowances existing generation) : a ∈ existing.elim [] (·.allowances) := by
  cases existing with
  | none => exact h
  | some t =>
    by_cases hgen : t.generation = generation
    · simpa [priorAllowances, hgen] using h
    · simp [priorAllowances, hgen] at h

theorem transition_mark (s : IngressState) (generation node : String) (state : NodeState)
    (clock : Int) : (s.next (.mark generation node state clock)).reg.transitionFile =
      s.reg.transitionFile := by
  have hspec := @ingressMark_spec s.reg generation node state clock
  unfold wp at hspec
  simp only [next, leaves]
  cases hm : ingressMark generation node state clock s.reg <;> rw [hm] at hspec
  · exact hspec.1
  · rw [hspec]

variable {s : IngressState} {e : IngressEvent}

theorem bounded_next (hs : Bounded s) (he : ¬ Restarts s e) : Bounded (s.next e) := by
  cases e with
  | mark generation node state clock =>
    intro a ha g hg
    rw [transition_mark] at ha
    exact hs a ha g hg
  | finalize generation clock =>
    have hends := leaves_of_ends (@ends_ingressFinalize s.reg generation)
    intro a ha g hg
    rcases hends.1 with ht | ht
    · rw [show (s.next (.finalize generation clock)).reg.transitionFile = _ from ht] at ha
      exact hs a ha g hg
    · rw [show (s.next (.finalize generation clock)).reg.transitionFile = _ from ht] at ha
      cases ha
  | begin_ args clock =>
    have hends := leaves_of_ends (@ends_ingressBegin s.reg args clock)
    obtain ⟨htrans, -⟩ := hends
    intro a ha g hg hnode hgen
    simp only [next] at ha hg
    by_cases hsame : (leaves (ingressBegin args clock) s.reg).transitionFile =
        s.reg.transitionFile
    · rw [writtenAllowances, if_pos hsame] at hg
      rw [hsame] at ha
      exact hs a ha g hg hnode hgen
    · rw [writtenAllowances, if_neg hsame] at hg
      obtain ⟨policy, nodes, requested, hparse, hbuild⟩ := htrans.resolve_left hsame
      cases ht : (leaves (ingressBegin args clock) s.reg).transitionFile with
      | none => simp [ht] at ha
      | some t =>
        rw [ht] at ha hg hbuild
        obtain ⟨-, hall⟩ := buildIngressTransition_eq_ok hbuild
        obtain ⟨hreq, hbuilt⟩ := hall a ha
        rcases mem_foldl_firstGiven hg with hg | ⟨hg, -⟩
        · obtain ⟨-, -, -, ⟨earlier, hprior, hen, heg, hexp⟩ | ⟨hexp, hnone⟩⟩ :=
            buildAllowance_eq_ok hbuilt
          · rw [hexp]
            refine hs earlier (mem_priorAllowances hprior) g hg (hnode.trans hen.symm)
              (hgen.trans heg.symm)
          · by_contra hlater
            refine he ⟨g, hg, ?_, ?_, by rw [← hexp]; omega⟩
            · rw [hnode, hgen]
              exact (parse_mem hparse hreq).resolve_left (by simp)
            · rwa [hnode, hgen]
        · have hbuilt' := (hall g hg).2
          rw [hnode, hgen, hbuilt] at hbuilt'
          rw [Except.ok.inj hbuilt']

theorem parse_sorted {values : List String}
    (h : values.foldlM (parseCompatibleAllowance nodes) allowances = .ok requested)
    (hs : Table.Sorted allowances) : Table.Sorted requested := by
  induction values generalizing allowances with
  | nil => exact pure_eq_ok.mp h ▸ hs
  | cons value values ih =>
    obtain ⟨next, hvalue, hrest⟩ := foldlM_cons_eq_ok.mp h
    refine ih hrest ?_
    unfold parseCompatibleAllowance at hvalue
    dsimp only at hvalue
    split at hvalue
    · simp only [check_eq_ok, bind_eq_ok, pure_eq_ok] at hvalue
      obtain ⟨-, _, -, rfl⟩ := hvalue
      exact hs.insert _ _
    · exact absurd hvalue throw_ne_ok

/-- A first `ingress-begin` that is given again keeps the allowances that it gave. -/
theorem not_restarts_retry (reg : Registry) (args : BeginArgs) (clock clock' : Int) :
    ¬ Restarts (next ⟨reg, [], []⟩ (.begin_ args clock)) (.begin_ args clock') := by
  rintro ⟨g, hg, -, hall, -⟩
  obtain ⟨hwritten, -⟩ := (mem_foldl_firstGiven hg).resolve_left List.not_mem_nil
  have hreg : (next ⟨reg, [], []⟩ (.begin_ args clock)).reg = leaves (ingressBegin args clock) reg := rfl
  rw [hreg] at hall
  unfold writtenAllowances at hwritten
  split at hwritten
  · cases hwritten
  · rename_i hnew
    have hends := leaves_of_ends (@ends_ingressBegin reg args clock)
    obtain ⟨policy, nodes, requested, hparse, hbuild⟩ := hends.transition.resolve_left hnew
    cases ht : (leaves (ingressBegin args clock) reg).transitionFile with
    | none =>
      rw [ht] at hwritten
      cases hwritten
    | some t =>
      rw [ht] at hwritten hall hbuild
      obtain ⟨hgen, hreq⟩ := buildIngressTransition_eq_ok hbuild
      have hsorted := parse_sorted hparse Table.sorted_nil
      -- The first allowance of its node is the one that was asked for the node.
      cases hfind : t.allowances.find? (·.node = g.node) with
      | none => exact List.find?_eq_none.mp hfind g hwritten (by simp)
      | some a =>
        have hnode : a.node = g.node := by simpa using List.find?_some hfind
        have hga := Table.get?_of_mem hsorted (hreq a (List.mem_of_find?_eq_some hfind)).1
        have hgg := Table.get?_of_mem hsorted (hreq g hwritten).1
        rw [hnode, hgg] at hga
        simp only [priorAllowances, hgen, if_true, hfind, Option.all_some,
          decide_eq_true_eq] at hall
        exact hall (Option.some.inj hga).symm

theorem bounded_play (hs : Bounded s) {es : List IngressEvent}
    (h : Throughout (fun s e => ¬ Restarts s e) s es) : Bounded (s.play es) := by
  induction es generalizing s with
  | nil => exact hs
  | cons e es ih => exact ih (bounded_next hs h.1) h.2

/-- Over any sequence of the commands, a node's allowance for a generation never lasts longer than the
first one that the sequence gave, as long as none is given anew after it was dropped. -/
theorem deadlines_kept {reg : Registry} {es : List IngressEvent}
    (h : Throughout (fun s e => ¬ Restarts s e) ⟨reg, [], []⟩ es) :
    Bounded (play ⟨reg, [], []⟩ es) :=
  bounded_play (fun _ _ _ hg => absurd hg List.not_mem_nil) h

/-- A retry keeps the deadline. -/
theorem deadlines_kept_retry :
    Bounded (play ⟨smallServing.reg, [], []⟩ [smallRollout 0, smallRollout second]) :=
  deadlines_kept ⟨fun ⟨_, hg, _⟩ => List.not_mem_nil hg,
    not_restarts_retry smallServing.reg _ 0 second, trivial⟩

/-- A rollout that is begun once without the node gives it a later deadline afterwards. -/
theorem deadlines_extended : ¬ ∀ (reg : Registry) (generation : String) (es : List IngressEvent),
    (∀ args clock, .begin_ args clock ∈ es → args.generation = generation) →
    (es.map (·.clock)).Pairwise (· ≤ ·) → Bounded (play ⟨reg, [], []⟩ es) := by
  intro h
  have hrun := h (secondBegun none) (smallGeneration 'b')
    [smallRollout 0, .begin_ (smallBegin 'b' []) second, smallRollout (2 * second)]
    (fun args clock hmem => by
      simp only [smallRollout, List.mem_cons, IngressEvent.begin_.injEq, List.not_mem_nil,
        or_false] at hmem
      rcases hmem with ⟨rfl, -⟩ | ⟨rfl, -⟩ | ⟨rfl, -⟩ <;> rfl)
    (by decide)
  unfold smallRollout at hrun
  rw [play, List.foldl_cons, List.foldl_cons, List.foldl_cons, List.foldl_nil,
    next_begin second_granted, next_begin second_withdrawn, next_begin second_regranted] at hrun
  have hle := hrun _ List.mem_cons_self ⟨mox 1, smallGeneration 'a', 60 * second⟩ (by decide) rfl rfl
  exact absurd hle (by decide)

/-! ## Nodes that serve -/

def lastApplied (node : HostSlot) : List Mark → Option String
  | [] => none
  | m :: ms => if m.node = node ∧ m.state = .applied then some m.generation else lastApplied node ms

/-- Whether a node was marked as reject-only since it was last marked as applied. -/
def rejectedSince (node : HostSlot) : List Mark → Bool
  | [] => false
  | m :: ms =>
    if m.node = node ∧ m.state = .applied then false
    else (m.node = node ∧ m.state = .rejectOnly) || rejectedSince node ms

/-- The nodes' statuses say what the marks said. -/
def Remembered (s : IngressState) : Prop :=
  ∀ node, (s.reg.nodeFiles.get? node).bind (·.appliedGeneration) = lastApplied node s.marks ∧
    (rejectedSince node s.marks = true → (s.reg.nodeFiles.get? node).any (·.state = .rejectOnly))

/-- A command that would take a node out of reject-only without marking it as applied. -/
def Forgets (s : IngressState) : IngressEvent → Prop
  | .begin_ args _ => ∃ e ∈ s.reg.nodeFiles,
      e.2.state = .rejectOnly ∧ e.2.desiredGeneration ≠ args.generation
  | .mark _ node state _ => (state = .pending ∨ state = .staged) ∧
      ((HostSlot.parse node).bind s.reg.nodeFiles.get?).any (·.state = .rejectOnly)
  | .finalize _ _ => False

theorem remembered_next (hs : Remembered s) (he : ¬ Forgets s e) : Remembered (s.next e) := by
  cases e with
  | finalize generation clock =>
    have hends := leaves_of_ends (@ends_ingressFinalize s.reg generation)
    intro node
    rw [show (s.next (.finalize generation clock)).reg.nodeFiles = _ from hends.2]
    exact hs node
  | begin_ args clock =>
    have hends := leaves_of_ends (@ends_ingressBegin s.reg args clock)
    intro node
    rcases hends.nodes node with hsame | ⟨hother, hnew⟩
    · rw [show (s.next (.begin_ args clock)).reg.nodeFiles.get? node = _ from hsame]
      exact hs node
    · rw [show (s.next (.begin_ args clock)).reg.nodeFiles.get? node = _ from hnew]
      refine ⟨(hs node).1, fun hrej => ?_⟩
      -- A reject-only status is one of the generation that is begun.
      obtain ⟨status, hstatus, hstate⟩ := (Option.any_eq_true _ _).mp ((hs node).2 hrej)
      simp only [hstatus, Option.any_some, decide_eq_true_eq] at hother hstate
      exact (he ⟨_, Table.mem_of_get? hstatus, hstate, hother⟩).elim
  | mark generation node state clock =>
    have hspec := @ingressMark_spec s.reg generation node state clock
    cases hm : ingressMark generation node state clock s.reg with
    | error e reg' =>
      have hreg := wp_error hspec hm
      have hsame : s.next (.mark generation node state clock) = s := by
        simp [next, leaves, succeeds, hm, hreg]
      rw [hsame]
      exact hs
    | ok a reg' =>
      obtain ⟨-, slot, hparse, status, hfiles, hstate, happlied⟩ := wp_ok hspec hm
      have hnext : s.next (.mark generation node state clock) =
          { s with reg := reg', marks := ⟨slot, state, generation⟩ :: s.marks } := by
        simp [next, leaves, succeeds, hm, hparse]
      rw [hnext]
      intro other
      by_cases hother : other = slot
      · subst hother
        simp only [hfiles, if_true, Option.bind_some, lastApplied, rejectedSince, true_and,
          happlied, Option.any_some, hstate]
        cases state with
        | applied => simp
        | rejectOnly => simpa using (hs other).1
        | _ =>
          simp only [reduceCtorEq, if_false, decide_false, Bool.false_or]
          refine ⟨(hs other).1, fun hrej => (he ⟨by simp, ?_⟩).elim⟩
          rw [hparse]
          exact (hs other).2 hrej
      · simp only [hfiles, hother, if_false, lastApplied, rejectedSince, Ne.symm hother,
          false_and, decide_false, Bool.false_or]
        exact hs other

/-- Every allowance that a command writes is of a node that was last marked as applied for its
generation, and not as reject-only since. -/
def GrantsServing (s : IngressState) (e : IngressEvent) : Prop :=
  ∀ a ∈ writtenAllowances s.reg (s.next e).reg,
    lastApplied a.node s.marks = some a.generation ∧ rejectedSince a.node s.marks = false

theorem grantsServing_of_remembered (hs : Remembered s) (args : BeginArgs)
    (clock : Int) : GrantsServing s (.begin_ args clock) := by
  intro a ha
  have hends := leaves_of_ends (@ends_ingressBegin s.reg args clock)
  unfold writtenAllowances at ha
  split at ha
  · cases ha
  · rename_i hwritten
    obtain ⟨policy, nodes, requested, -, hbuild⟩ := hends.transition.resolve_left hwritten
    have hreg : (s.next (.begin_ args clock)).reg = leaves (ingressBegin args clock) s.reg := rfl
    rw [hreg] at ha
    cases ht : (leaves (ingressBegin args clock) s.reg).transitionFile with
    | none =>
      rw [ht] at ha
      cases ha
    | some t =>
      rw [ht] at ha hbuild
      obtain ⟨-, -, ⟨status, hstatus, happlied, hstate⟩, -⟩ :=
        buildAllowance_eq_ok ((buildIngressTransition_eq_ok hbuild).2 a ha).2
      obtain ⟨h1, h2⟩ := hs a.node
      rw [hstatus] at h1 h2
      refine ⟨h1.symm.trans happlied, ?_⟩
      by_contra hrej
      exact hstate (by simpa using h2 (by simpa using hrej))

theorem grantsServing_of_same
    (h : (s.next e).reg.transitionFile = s.reg.transitionFile ∨
      (s.next e).reg.transitionFile = none) : GrantsServing s e := by
  intro a ha
  unfold writtenAllowances at ha
  rcases h with h | h
  · rw [if_pos h] at ha
    cases ha
  · rw [h] at ha
    split at ha <;> cases ha

theorem serves_throughout (hs : Remembered s) {es : List IngressEvent}
    (h : Throughout (fun s e => ¬ Forgets s e) s es) : Throughout GrantsServing s es := by
  induction es generalizing s with
  | nil => trivial
  | cons e es ih =>
    refine ⟨?_, ih (remembered_next hs h.1) h.2⟩
    cases e with
    | begin_ args clock => exact grantsServing_of_remembered hs args clock
    | finalize generation clock =>
      exact grantsServing_of_same
        (leaves_of_ends (@ends_ingressFinalize s.reg generation)).1
    | mark generation node state clock =>
      exact grantsServing_of_same (.inl (transition_mark s generation node state clock))

/-- Over any sequence of the commands that starts without a node's status, `ingress-begin` gives
allowances to serving nodes only, as long as no command takes a node out of reject-only without
marking it as applied. -/
theorem allowances_serve {reg : Registry} (hreg : reg.nodeFiles = []) {es : List IngressEvent}
    (h : Throughout (fun s e => ¬ Forgets s e) ⟨reg, [], []⟩ es) :
    Throughout GrantsServing ⟨reg, [], []⟩ es := by
  refine serves_throughout (fun node => ?_) h
  simp [hreg, Table.get?, lastApplied, rejectedSince]

/-- A node that applied the first generation may serve it when the second one is begun. -/
theorem allowances_serve_rollout : Throughout GrantsServing ⟨smallRegistry, [], []⟩
    [.begin_ (smallBegin 'a' []) 0, .mark (smallGeneration 'a') "mox1" .applied 0,
      smallRollout 0] :=
  allowances_serve rfl (by
    unfold smallRollout
    rw [Throughout, Throughout, Throughout, Throughout, next_begin first_begun,
      next_mark first_applied mox_one]
    refine ⟨fun ⟨_, he, _⟩ => List.not_mem_nil he, fun ⟨hstate, _⟩ => by simp at hstate, ?_, trivial⟩
    rintro ⟨e, he, hrej, -⟩
    revert e
    decide)

/-- A node that rejects the first generation is given an allowance for it by a retry. -/
theorem allowances_rejected : ¬ ∀ (reg : Registry) (es : List IngressEvent),
    reg.nodeFiles = [] → Throughout GrantsServing ⟨reg, [], []⟩ es := by
  intro h
  have hrun := h smallRegistry
    [.begin_ (smallBegin 'a' []) 0, .mark (smallGeneration 'a') "mox1" .applied 0,
      .mark (smallGeneration 'a') "mox1" .rejectOnly 0, .begin_ (smallBegin 'b' []) 0,
      smallRollout 0] rfl
  unfold smallRollout at hrun
  rw [Throughout, Throughout, Throughout, Throughout, Throughout, next_begin first_begun,
    next_mark first_applied mox_one, next_mark first_rejected mox_one, next_begin second_begun] at hrun
  have hserves := hrun.2.2.2.2.1 ⟨mox 1, smallGeneration 'a', 60 * second⟩
  rw [next_begin second_granted] at hserves
  exact absurd (hserves (by decide)).2 (by decide)

end Bmac.Registry
