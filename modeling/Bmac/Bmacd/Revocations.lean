import Bmac.Base.Run

/-!
# Log out everywhere

`bmacd/src/auth/revocations.rs` and the sessions of `bmacd/src/auth`: a per-user revocation time in
pmxcfs, which every host reads now and then to end that user's sessions created at or before it. A
revocation reads the time, and then writes the later of it and its own; nothing holds a lock between
the two. `forward_exact` says when the time only moves forward: where no revocation writes after
another has stored a later time than the one it read and its own.
-/

namespace Bmac.Bmacd.Revocations

open Bmac.Base

/-! ## The record of a user -/

structure Record where
  user : String
  revokedAtMs : Int

/-- When `user`'s sessions were last revoked, in milliseconds. -/
def revokedAt (file : Option Record) (user : String) : Option Int :=
  match file with
  | none => none
  | some record => if record.user = user then some record.revokedAtMs else none

/-- What a revocation at `nowMs` writes. -/
def newRecord (user : String) (nowMs : Int) (read : Option Int) : Record :=
  ⟨user, match read with
    | some old => max old nowMs
    | none => nowMs⟩

structure Session where
  tokenHash : String
  createdMs : Int
  deriving DecidableEq

/-! ## The hosts -/

/-- A revocation that has read the record. -/
structure Pending where
  nowMs : Int
  read : Option Int

/-- The record of one user, the revocations that are under way, and of each host the sessions of the
user and what its upkeep has read. `completed` has the times of the revocations that are done. -/
structure World (ρ κ : Type) where
  file : Option Record
  pending : ρ → Option Pending
  completed : List Int
  live : κ → List Session
  upkeep : κ → Option (Option Int)

inductive Label (ρ κ : Type) where
  | read (i : ρ) (nowMs : Int)
  | write (i : ρ)
  /-- A revocation whose read or write fails. -/
  | fail (i : ρ)
  | create (host : κ) (session : Session)
  /-- A session ends for another reason. -/
  | close (host : κ) (session : Session)
  | look (host : κ)
  | endRevoked (host : κ)

section

variable {ρ κ : Type} [DecidableEq ρ] [DecidableEq κ]

def World.start : World ρ κ := ⟨none, fun _ => none, [], fun _ => [], fun _ => none⟩

inductive Step (user : String) : World ρ κ → Label ρ κ → World ρ κ → Prop where
  | read {w : World ρ κ} (i : ρ) (nowMs : Int) : w.pending i = none →
      Step user w (.read i nowMs)
        { w with pending := Function.update w.pending i (some ⟨nowMs, revokedAt w.file user⟩) }
  | write {w : World ρ κ} (i : ρ) (p : Pending) : w.pending i = some p →
      Step user w (.write i)
        { w with
          file := some (newRecord user p.nowMs p.read)
          pending := Function.update w.pending i none
          completed := p.nowMs :: w.completed }
  | fail {w : World ρ κ} (i : ρ) :
      Step user w (.fail i) { w with pending := Function.update w.pending i none }
  | create {w : World ρ κ} (host : κ) (s : Session) :
      Step user w (.create host s) { w with live := Function.update w.live host (s :: w.live host) }
  | close {w : World ρ κ} (host : κ) (s : Session) :
      Step user w (.close host s)
        { w with live := Function.update w.live host ((w.live host).filter (· ≠ s)) }
  | look {w : World ρ κ} (host : κ) :
      Step user w (.look host)
        { w with upkeep := Function.update w.upkeep host (some (revokedAt w.file user)) }
  /-- Upkeep ends the sessions created at or before the time it read. -/
  | endRevoked {w : World ρ κ} (host : κ) (read : Option Int) : w.upkeep host = some read →
      Step user w (.endRevoked host)
        { w with
          live := Function.update w.live host
            ((w.live host).filter fun s => !read.any (s.createdMs ≤ ·))
          upkeep := Function.update w.upkeep host none }

/-- The stored time is at least that of every revocation that is done. -/
def Forward (user : String) (w : World ρ κ) : Prop :=
  ∀ t ∈ w.completed, ∃ at_, revokedAt w.file user = some at_ ∧ t ≤ at_

/-- A revocation is about to write, and the stored time is later than its own and than the one it
read. -/
def Overtaken (user : String) (w : World ρ κ) (l : Label ρ κ) : Prop :=
  ∃ i p at_, l = .write i ∧ w.pending i = some p ∧ revokedAt w.file user = some at_ ∧ p.nowMs < at_ ∧
    ∀ old, p.read = some old → old < at_

section

variable {user : String} {w w' : World ρ κ} {l : Label ρ κ} {ls : List (Label ρ κ)}

theorem revokedAt_newRecord (user : String) (nowMs : Int) (read : Option Int) :
    revokedAt (some (newRecord user nowMs read)) user = some (newRecord user nowMs read).revokedAtMs :=
  if_pos rfl

theorem le_newRecord (user : String) (nowMs : Int) (read : Option Int) :
    nowMs ≤ (newRecord user nowMs read).revokedAtMs ∧
      ∀ old, read = some old → old ≤ (newRecord user nowMs read).revokedAtMs := by
  cases read with
  | none =>
    refine ⟨Int.le_refl _, ?_⟩
    intro old h
    cases h
  | some old =>
    refine ⟨Int.le_max_right .., ?_⟩
    rintro _ ⟨⟩
    exact Int.le_max_left ..

/-- What is stored was a revocation's time. -/
structure Stored (user : String) (w : World ρ κ) : Prop where
  file : ∀ at_, revokedAt w.file user = some at_ → at_ ∈ w.completed
  read : ∀ i p, w.pending i = some p → ∀ old, p.read = some old → old ∈ w.completed

theorem newRecord_mem (user : String) {nowMs : Int} {read : Option Int} {times : List Int}
    (h : ∀ old, read = some old → old ∈ times) :
    (newRecord user nowMs read).revokedAtMs ∈ nowMs :: times := by
  cases read with
  | none => exact List.mem_cons_self ..
  | some old =>
    rcases Int.le_total old nowMs with hle | hle
    · have hmax : (newRecord user nowMs (some old)).revokedAtMs = nowMs := Int.max_eq_right hle
      rw [hmax]
      exact List.mem_cons_self ..
    · have hmax : (newRecord user nowMs (some old)).revokedAtMs = old := Int.max_eq_left hle
      rw [hmax]
      exact List.mem_cons_of_mem _ (h old rfl)

theorem Stored.step (h : Stored user w) (hs : Step user w l w') : Stored user w' := by
  cases hs with
  | read i nowMs hfree =>
    refine ⟨h.file, ?_⟩
    intro j p hp old hold
    dsimp only at hp
    by_cases hj : j = i
    · rw [hj, Function.update_self, Option.some.injEq] at hp
      subst hp
      exact h.file old hold
    · rw [Function.update_of_ne hj] at hp
      exact h.read j p hp old hold
  | write i p hp =>
    refine ⟨?_, ?_⟩
    · intro at_ hat
      rw [revokedAt_newRecord, Option.some.injEq] at hat
      rw [← hat]
      exact newRecord_mem user (h.read i p hp)
    · intro j q hq old hold
      dsimp only at hq ⊢
      by_cases hj : j = i
      · rw [hj, Function.update_self] at hq
        cases hq
      · rw [Function.update_of_ne hj] at hq
        exact List.mem_cons_of_mem _ (h.read j q hq old hold)
  | fail i =>
    refine ⟨h.file, ?_⟩
    intro j q hq old hold
    dsimp only at hq
    by_cases hj : j = i
    · rw [hj, Function.update_self] at hq
      cases hq
    · rw [Function.update_of_ne hj] at hq
      exact h.read j q hq old hold
  | create host s => exact ⟨h.file, h.read⟩
  | close host s => exact ⟨h.file, h.read⟩
  | look host => exact ⟨h.file, h.read⟩
  | endRevoked host read hread => exact ⟨h.file, h.read⟩

theorem stored (h : Run (Step user) (World.start : World ρ κ) ls w) : Stored user w := by
  refine h.invariant (fun _ _ _ hI hs => hI.step hs) ⟨?_, ?_⟩
  · intro at_ hat
    cases hat
  · intro i p hp
    cases hp

/-- A write that isn't overtaken keeps the time of every revocation that is done. -/
theorem Forward.step (h : Forward user w) (hs : Step user w l w') (hl : ¬ Overtaken user w l) :
    Forward user w' := by
  cases hs with
  | read i nowMs hfree => exact h
  | write i p hp =>
    obtain ⟨hnow, hold⟩ := le_newRecord user p.nowMs p.read
    intro t ht
    refine ⟨_, revokedAt_newRecord .., ?_⟩
    rcases List.mem_cons.mp ht with rfl | ht
    · exact hnow
    · obtain ⟨at_, hat, hle⟩ := h t ht
      by_contra hlt
      refine hl ⟨i, p, at_, rfl, hp, hat, by omega, ?_⟩
      intro old hread
      have := hold old hread
      omega
  | fail i => exact h
  | create host s => exact h
  | close host s => exact h
  | look host => exact h
  | endRevoked host read hread => exact h

/-- A write that is overtaken puts back the time of one that is done. -/
theorem Overtaken.not_forward (h : Overtaken user w l) (hw : Stored user w) :
    ∃ w', Step user w l w' ∧ ¬ Forward user w' := by
  obtain ⟨i, p, at_, rfl, hp, hat, hnow, hold⟩ := h
  refine ⟨_, .write i p hp, ?_⟩
  intro hforward
  obtain ⟨at', hat', hle⟩ := hforward at_ (List.mem_cons_of_mem _ (hw.file at_ hat))
  rw [revokedAt_newRecord, Option.some.injEq] at hat'
  have hlater : (newRecord user p.nowMs p.read).revokedAtMs < at_ := by
    unfold newRecord
    cases hread : p.read with
    | none => exact hnow
    | some old =>
      have := hold old hread
      dsimp only
      omega
  omega

/-- In every prefix of the run no write is overtaken. -/
def NoneOvertaken (user : String) (ls : List (Label ρ κ)) : Prop :=
  ∀ before l after w, ls = before ++ l :: after →
    Run (Step user) (World.start : World ρ κ) before w → ¬ Overtaken user w l

theorem NoneOvertaken.left {before after : List (Label ρ κ)}
    (h : NoneOvertaken user (before ++ after)) : NoneOvertaken user before := by
  intro first l rest w heq
  refine h first l (rest ++ after) w ?_
  rw [heq]
  simp

theorem forward_of_noneOvertaken (hn : NoneOvertaken user ls)
    (h : Run (Step user) (World.start : World ρ κ) ls w) : Forward user w := by
  induction ls using List.reverseRecOn generalizing w with
  | nil =>
    obtain rfl := Run.nil_iff.mp h
    intro t ht
    cases ht
  | append_singleton ls l ih =>
    obtain ⟨w0, hrun, hstep⟩ := Run.snoc_iff.mp h
    exact (ih hn.left hrun).step hstep (hn ls l [] w0 rfl hrun)

/-! ## Sessions -/

theorem completed_subset (hs : Step user w l w') : w.completed ⊆ w'.completed := by
  cases hs with
  | write i p hp => exact List.subset_cons_self ..
  | _ => exact List.Subset.refl _

/-- A time is done, and what upkeep has read of the record is no earlier. -/
structure Looked (host : κ) (t : Int) (w : World ρ κ) : Prop where
  done : t ∈ w.completed
  read : ∀ read, w.upkeep host = some read → ∃ at_, read = some at_ ∧ t ≤ at_

theorem Looked.step {host : κ} {t : Int} (h : Looked host t w) (hf : Forward user w)
    (hs : Step user w l w') : Looked host t w' := by
  refine ⟨completed_subset hs h.done, ?_⟩
  cases hs with
  | look host' =>
    intro read hread
    dsimp only at hread
    by_cases hhost : host = host'
    · rw [hhost, Function.update_self, Option.some.injEq] at hread
      rw [← hread]
      exact hf t h.done
    · rw [Function.update_of_ne hhost] at hread
      exact h.read read hread
  | endRevoked host' read' hread' =>
    intro read hread
    dsimp only at hread
    by_cases hhost : host = host'
    · rw [hhost, Function.update_self] at hread
      cases hread
    · rw [Function.update_of_ne hhost] at hread
      exact h.read read hread
  | _ => exact h.read

theorem looked_of_run {host : κ} {t : Int} {before mid : List (Label ρ κ)}
    (hn : NoneOvertaken user (before ++ .look host :: mid))
    (ht : ∀ w0, Run (Step user) (World.start : World ρ κ) before w0 → t ∈ w0.completed)
    (h : Run (Step user) (World.start : World ρ κ) (before ++ .look host :: mid) w) :
    Looked host t w := by
  induction mid using List.reverseRecOn generalizing w with
  | nil =>
    obtain ⟨w0, hbefore, hlook⟩ := Run.snoc_iff.mp h
    have hforward := forward_of_noneOvertaken hn.left hbefore
    refine ⟨completed_subset hlook (ht w0 hbefore), ?_⟩
    cases hlook with
    | look =>
      intro read hread
      dsimp only at hread
      rw [Function.update_self, Option.some.injEq] at hread
      rw [← hread]
      exact hforward t (ht w0 hbefore)
  | append_singleton mid l ih =>
    rw [← List.cons_append, ← List.append_assoc] at h hn
    obtain ⟨w0, hrun, hstep⟩ := Run.snoc_iff.mp h
    exact (ih hn.left hrun).step (forward_of_noneOvertaken hn.left hrun) hstep

/-- A session that isn't live stays so, unless it is created. -/
theorem not_live_of_run {host : κ} {s : Session} (h : Run (Step user) w ls w')
    (hs : s ∉ w.live host) (hc : .create host s ∉ ls) : s ∉ w'.live host := by
  refine h.invariant_of (I := fun w => s ∉ w.live host) ?_ hs
  rintro w l w' hl hnot hstep
  cases hstep with
  | create host' s' =>
    dsimp only
    by_cases hhost : host = host'
    · subst hhost
      rw [Function.update_self, List.mem_cons]
      rintro (rfl | hmem)
      · exact hc hl
      · exact hnot hmem
    · rw [Function.update_of_ne hhost]
      exact hnot
  | close host' s' =>
    dsimp only
    by_cases hhost : host = host'
    · subst hhost
      rw [Function.update_self]
      exact fun hmem => hnot (List.mem_of_mem_filter hmem)
    · rw [Function.update_of_ne hhost]
      exact hnot
  | endRevoked host' read hread =>
    dsimp only
    by_cases hhost : host = host'
    · subst hhost
      rw [Function.update_self]
      exact fun hmem => hnot (List.mem_of_mem_filter hmem)
    · rw [Function.update_of_ne hhost]
      exact hnot
  | _ => exact hnot

/-- A host whose upkeep has read the record since a revocation was done, and ended the sessions it
had, accepts none of them that was created at or before the revocation's time. -/
def Ends (user : String) (ls : List (Label ρ κ)) (w : World ρ κ) : Prop :=
  ∀ before mid after host t s, ls = before ++ .look host :: (mid ++ .endRevoked host :: after) →
    (∀ w0, Run (Step user) (World.start : World ρ κ) before w0 → t ∈ w0.completed) →
    s.createdMs ≤ t → .create host s ∉ after → s ∉ w.live host

theorem ends_of_noneOvertaken (hn : NoneOvertaken user ls)
    (h : Run (Step user) (World.start : World ρ κ) ls w) : Ends user ls w := by
  rintro before mid after host t s rfl ht hcreated hnew
  rw [← List.cons_append, ← List.append_assoc] at h hn
  obtain ⟨w0, hrun, hrest⟩ := Run.append_iff.mp h
  obtain ⟨w1, hend, hafter⟩ := Run.cons_iff.mp hrest
  have hlooked := looked_of_run hn.left ht hrun
  refine not_live_of_run hafter ?_ hnew
  cases hend with
  | endRevoked _ read hread =>
    obtain ⟨at_, rfl, hle⟩ := hlooked.read read hread
    dsimp only
    rw [Function.update_self]
    intro hmem
    have hkept := (List.mem_filter.mp hmem).2
    simp only [Option.any_some, Bool.not_eq_true', decide_eq_false_iff_not] at hkept
    omega

end

end

/-! ### Two revocations at once -/

/-- Host `false` reads the record before host `true` writes a later time, and writes after. -/
def crossed : List (Label Bool Bool) := [.read false 1000, .read true 2000, .write true, .write false]

/-- One revocation after the other. -/
def inTurn : List (Label Bool Bool) := [.read false 1000, .write false, .read true 500]

end Bmac.Bmacd.Revocations
