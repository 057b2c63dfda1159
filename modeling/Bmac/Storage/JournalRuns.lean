import Bmac.Base.Checks
import Bmac.Storage.Journal

/-!
# Runs of the storage journal

What holds of the journal after any sequence of updates, and when the ids of its removals are
distinct, so that an update through an id changes the removal that the id was given for.
-/

namespace Bmac.Storage.Journal

open Bmac.Base Bmac.Core

variable {s s' : State} {c : Change} {given : Given} {w w' : World} {cs : List Change}

/-! ## What a change does -/

/-- A change that only leaves replacements and additions out. -/
structure Quiet (s s' : State) : Prop where
  removals : s'.removals = s.removals
  replacements : s'.replacements.Sublist s.replacements
  additions : s'.additions.Sublist s.additions
  lastAddition : s'.lastAddition = s.lastAddition

inductive Changes (s : State) : Change → State → Given → Prop where
  | quiet {c : Change} {s' : State} : Quiet s s' →
      (∀ vdev members now, c ≠ .recordRemoval vdev members now) →
      (∀ kind «class» members now, c ≠ .beginAddition kind «class» members now) →
      Changes s c s' .nothing
  | recordRemoval (vdev : String) (members : List RemovedMember) (now : Int) :
      (∀ r ∈ s.removals, r.isRequested = false) →
      Changes s (.recordRemoval vdev members now)
        { s with
          removals := keepLast maxRemovals (s.removals ++ [State.newRemoval vdev members now]) }
        (.id (State.removalId vdev now))
  | setRemoval (id : String) (to_ : RemovalState) (note : Option String) (now : Int) :
      (∃ r ∈ s.removals, r.id = id) →
      Changes s (.setRemoval id to_ note now)
        { s with removals := Keyed.modifyFirst (·.id = id) (·.set to_ note now) s.removals } .nothing
  | recordReplacement (disk : DiskIdentity) (r : Replacement) :
      (∀ e ∈ s.replacements, e.1 ≠ disk → e.2.vdev = r.vdev → e.2.leaf ≠ r.leaf) →
      Changes s (.recordReplacement disk r)
        { s with replacements := (disk, r) :: s.replacements.filter (·.1 ≠ disk) } .nothing
  | beginAddition («class» : VdevClass) (kind : VdevType) (members : List DiskIdentity) (now : Int) :
      (∀ a ∈ s.additions, ∀ d ∈ members, d ∉ a.members) →
      Changes s (.beginAddition «class» kind members now)
        { s with
          lastAddition := s.lastAddition + 1
          additions := s.additions ++ [⟨s.lastAddition + 1, «class», kind, members, now⟩] }
        (.number (s.lastAddition + 1))

theorem chosen_eq_none {members : List DiskIdentity} (h : s.chosen members = none) :
    ∀ a ∈ s.additions, ∀ d ∈ members, d ∉ a.members := by
  intro a ha d hd hmem
  have hfind := List.findSome?_eq_none_iff.mp h d hd
  rw [Option.map_eq_none_iff, List.find?_eq_none] at hfind
  exact hfind a ha (by simpa using hmem)

variable {now : Int}

theorem setRemoval_eq_ok {id : String} {to_ : RemovalState} {note : Option String}
    (h : s.setRemoval id to_ note now = .ok s') : (∃ r ∈ s.removals, r.id = id) ∧
      s' = { s with removals := Keyed.modifyFirst (·.id = id) (·.set to_ note now) s.removals } := by
  unfold State.setRemoval at h
  obtain ⟨-, -, h⟩ := bind_eq_ok.mp h
  split at h
  · next hany =>
    obtain ⟨r, hr, hid⟩ := List.any_eq_true.mp hany
    exact ⟨⟨r, hr, by simpa using hid⟩, (pure_eq_ok.mp h).symm⟩
  · exact absurd h throw_ne_ok

theorem changes (h : s.change c = .ok (s', given)) : Changes s c s' given := by
  cases c with
  | recordTrims guests now =>
    cases h
    exact .quiet ⟨rfl, .refl _, .refl _, rfl⟩ nofun nofun
  | recordScrub result now =>
    obtain ⟨s1, hs1, heq⟩ := map_eq_ok.mp h
    cases heq
    unfold State.recordScrub at hs1
    obtain ⟨-, -, hs1⟩ := bind_eq_ok.mp hs1
    cases hs1
    exact .quiet ⟨rfl, .refl _, .refl _, rfl⟩ nofun nofun
  | recordRemoval vdev members now =>
    obtain ⟨⟨s1, id⟩, hs1, heq⟩ := map_eq_ok.mp h
    cases heq
    unfold State.recordRemoval at hs1
    simp only [bind_eq_ok, check_eq_ok] at hs1
    obtain ⟨-, -, -, -, hs1⟩ := hs1
    split at hs1
    · exact absurd hs1 throw_ne_ok
    · next hnone =>
      cases hs1
      refine .recordRemoval vdev members now fun r hr => ?_
      exact Bool.not_eq_true _ ▸ List.find?_eq_none.mp hnone r hr
  | setRemoval id to_ note now =>
    obtain ⟨s1, hs1, heq⟩ := map_eq_ok.mp h
    cases heq
    obtain ⟨hmem, rfl⟩ := setRemoval_eq_ok hs1
    exact .setRemoval id to_ note now hmem
  | recordReplacement disk r =>
    obtain ⟨s1, hs1, heq⟩ := map_eq_ok.mp h
    cases heq
    unfold State.recordReplacement at hs1
    simp only [bind_eq_ok] at hs1
    obtain ⟨-, -, -, -, hs1⟩ := hs1
    split at hs1
    · exact absurd hs1 throw_ne_ok
    · next hnone =>
      cases hs1
      refine .recordReplacement disk r fun e he hne hvdev hleaf => ?_
      exact List.find?_eq_none.mp hnone e he (decide_eq_true ⟨hne, hvdev, hleaf⟩)
  | clearReplacement disk =>
    cases h
    exact .quiet ⟨rfl, List.filter_sublist, .refl _, rfl⟩ nofun nofun
  | beginAddition «class» kind members now =>
    obtain ⟨⟨s1, number⟩, hs1, heq⟩ := map_eq_ok.mp h
    cases heq
    unfold State.beginAddition at hs1
    simp only [check_eq_ok] at hs1
    obtain ⟨-, hs1⟩ := hs1
    split at hs1
    · exact absurd hs1 throw_ne_ok
    · next hnone =>
      cases hs1
      exact .beginAddition «class» kind members now (chosen_eq_none hnone)
  | finishAddition number =>
    cases h
    exact .quiet ⟨rfl, .refl _, List.filter_sublist, rfl⟩ nofun nofun
  | beginSimulation simulation =>
    obtain ⟨s1, hs1, heq⟩ := map_eq_ok.mp h
    cases heq
    unfold State.beginSimulation at hs1
    split at hs1
    · cases hs1
    · cases hs1
      exact .quiet ⟨rfl, .refl _, .refl _, rfl⟩ nofun nofun
  | eraseSimulation =>
    cases h
    exact .quiet ⟨rfl, .refl _, .refl _, rfl⟩ nofun nofun
  | endSimulation =>
    cases h
    exact .quiet ⟨rfl, .refl _, .refl _, rfl⟩ nofun nofun

theorem validate_eq_ok (h : s.validate = .ok ()) : s.removals.countP (·.isRequested) ≤ 1 := by
  unfold State.validate at h
  simp only [check_eq_ok] at h
  omega

theorem update_eq_ok (h : update s c = .ok (s', given)) :
    Changes s c s' given ∧ s'.removals.countP (·.isRequested) ≤ 1 := by
  unfold update at h
  obtain ⟨-, -, h⟩ := bind_eq_ok.mp h
  obtain ⟨⟨s1, given1⟩, hchange, h⟩ := bind_eq_ok.mp h
  obtain ⟨⟨⟩, hvalid, h⟩ := bind_eq_ok.mp h
  cases pure_eq_ok.mp h
  exact ⟨changes hchange, validate_eq_ok hvalid⟩

theorem step_cases (h : Step w c w') : ∃ s given, w' = w.give s given ∧ Changes w.state c s given ∧
    s.removals.countP (·.isRequested) ≤ 1 := by
  unfold Step World.next at h
  split at h
  · next s given hupdate =>
    obtain ⟨hchanges, hone⟩ := update_eq_ok hupdate
    exact ⟨s, given, (Option.some.inj h).symm, hchanges, hone⟩
  · cases h

/-! ## Ids -/

theorem removalId_toList (vdev : String) (now : Int) : (State.removalId vdev now).toList =
    "removal-".toList ++ ((toString now).toList ++ '-' :: vdev.toList) := by
  simp [State.removalId, toString]

/-- Digits don't start with a dash. -/
theorem repr_ne_dash (n : Nat) (u v : List Char) : n.repr.toList ++ u ≠ '-' :: v := by
  intro h
  cases hdigits : n.repr.toList with
  | nil => exact Text.repr_ne_nil n hdigits
  | cons c rest =>
    rw [hdigits] at h
    obtain rfl : c = '-' := (List.cons.inj h).1
    have hdigit := Text.isDigit_of_mem_repr (n := n) (c := '-') (by rw [hdigits]; simp)
    simp [Text.isDigit] at hdigit

theorem toString_negSucc (n : Nat) : (toString (Int.negSucc n)).toList = '-' :: (n + 1).repr.toList := by
  show ("-" ++ (n + 1).repr).toList = _
  simp

theorem removalId_injective : Function.Injective fun asked : String × Int =>
    State.removalId asked.1 asked.2 := by
  rintro ⟨vdev, now⟩ ⟨vdev', now'⟩ h
  have hchars := congrArg String.toList h
  dsimp only at hchars
  rw [removalId_toList, removalId_toList] at hchars
  have hrest := List.append_cancel_left hchars
  rcases now with m | m <;> rcases now' with n | n
  · obtain ⟨rfl, hvdev⟩ := Text.repr_append_inj rfl hrest
    rw [String.toList_inj.mp hvdev]
  · rw [toString_negSucc, List.cons_append] at hrest
    exact absurd hrest (repr_ne_dash m _ _)
  · rw [toString_negSucc, List.cons_append] at hrest
    exact absurd hrest.symm (repr_ne_dash n _ _)
  · rw [toString_negSucc, toString_negSucc, List.cons_append, List.cons_append] at hrest
    obtain ⟨hnum, hvdev⟩ := Text.repr_append_inj rfl (List.cons.inj hrest).2
    obtain rfl : m = n := by omega
    rw [String.toList_inj.mp hvdev]

/-! ## After any updates -/

/-- What holds after any sequence of updates: one removal at most is in progress, the removals listed
are the last ones that were recorded, and every addition has a number of its own. -/
structure Kept (w : World) : Prop where
  one : w.state.removals.countP (·.isRequested) ≤ 1
  recent : ∃ older, w.ids = older ++ w.state.removals.map (·.id)
  numbers : w.numbers = List.range' 1 w.state.lastAddition
  numbered : (w.state.additions.map (·.number)).Sublist w.numbers
  apart : w.state.additions.Pairwise fun a b => a.members.Disjoint b.members
  leaves : (w.state.replacements.map fun e => (e.2.vdev, e.2.leaf)).Nodup

theorem Kept.start : Kept {} :=
  ⟨Nat.zero_le _, ⟨[], rfl⟩, rfl, .refl _, .nil, .nil⟩

theorem keepLast_suffix {α : Type} (most : Nat) (l : List α) : ∃ older, l = older ++ keepLast most l :=
  ⟨l.take (l.length - most), (List.take_append_drop _ l).symm⟩

theorem recent_append {ids : List String} {removals : List Removal} (most : Nat) (r : Removal)
    (h : ∃ older, ids = older ++ removals.map (·.id)) :
    ∃ older, ids ++ [r.id] = older ++ (keepLast most (removals ++ [r])).map (·.id) := by
  obtain ⟨older, rfl⟩ := h
  obtain ⟨left, hleft⟩ := keepLast_suffix most (removals ++ [r])
  refine ⟨older ++ left.map (·.id), ?_⟩
  rw [List.append_assoc, List.append_assoc, ← List.map_append, ← hleft, List.map_append]
  rfl

theorem Kept.step (h : Kept w) (hs : Step w c w') : Kept w' := by
  obtain ⟨s, given, rfl, hchanges, hone⟩ := step_cases hs
  cases hchanges with
  | quiet hquiet =>
    refine ⟨hone, ?_, ?_, ?_, h.apart.sublist hquiet.additions, ?_⟩
    · rw [show (w.give s .nothing).state = s from rfl, hquiet.removals]
      exact h.recent
    · rw [show (w.give s .nothing).state = s from rfl, hquiet.lastAddition]
      exact h.numbers
    · exact (hquiet.additions.map _).trans h.numbered
    · exact h.leaves.sublist (hquiet.replacements.map _)
  | recordRemoval vdev members now hnone =>
    generalize maxRemovals = most at hone ⊢
    exact ⟨hone, recent_append most (State.newRemoval vdev members now) h.recent, h.numbers,
      h.numbered, h.apart, h.leaves⟩
  | setRemoval id to_ note now hmem =>
    refine ⟨hone, ?_, h.numbers, h.numbered, h.apart, h.leaves⟩
    obtain ⟨older, holder⟩ := h.recent
    refine ⟨older, ?_⟩
    show w.ids = older ++ (Keyed.modifyFirst _ _ _).map _
    rw [holder, Keyed.map_key_modifyFirst (f := fun r : Removal => r.set to_ note now) fun _ => rfl]
  | recordReplacement disk r hfree =>
    refine ⟨hone, h.recent, h.numbers, h.numbered, h.apart, ?_⟩
    show (((disk, r) :: w.state.replacements.filter (·.1 ≠ disk)).map fun e =>
      (e.2.vdev, e.2.leaf)).Nodup
    rw [List.map_cons, List.nodup_cons]
    refine ⟨fun hmem => ?_, h.leaves.sublist (List.filter_sublist.map _)⟩
    obtain ⟨e, he, heq⟩ := List.mem_map.mp hmem
    obtain ⟨hin, hne⟩ := List.mem_filter.mp he
    obtain ⟨hvdev, hleaf⟩ := Prod.mk.inj heq
    exact hfree e hin (by simpa using hne) hvdev hleaf
  | beginAddition «class» kind members now hfree =>
    refine ⟨hone, h.recent, ?_, ?_, ?_, h.leaves⟩
    · show w.numbers ++ [w.state.lastAddition + 1] = List.range' 1 (w.state.lastAddition + 1)
      rw [List.range'_1_concat, h.numbers, Nat.add_comm]
    · show ((w.state.additions ++ [_]).map _).Sublist (w.numbers ++ [_])
      rw [List.map_append]
      exact h.numbered.append (.refl _)
    · refine List.pairwise_append.mpr ⟨h.apart, List.pairwise_singleton _ _, ?_⟩
      intro a ha b hb d hd hd'
      obtain rfl := List.mem_singleton.mp hb
      exact hfree a ha d hd' hd

theorem kept_of_run (h : Run Step {} cs w) : Kept w := h.invariant (fun _ _ _ => Kept.step) .start

/-- A removal in progress stays in the journal, and only `setRemoval` changes it. -/
def Stays (w : World) (c : Change) (w' : World) : Prop :=
  ∀ r ∈ w.state.removals, r.isRequested → r ∈ w'.state.removals ∨
    ∃ to_ note now, c = .setRemoval r.id to_ note now ∧ r.set to_ note now ∈ w'.state.removals

theorem stays_of_step (hs : Step w c w') : Stays w c w' := by
  intro r hr hrequested
  obtain ⟨s, given, rfl, hchanges, -⟩ := step_cases hs
  cases hchanges with
  | quiet hquiet =>
    left
    show r ∈ s.removals
    rw [hquiet.removals]
    exact hr
  | recordRemoval vdev members now hnone =>
    rw [hnone r hr] at hrequested
    cases hrequested
  | setRemoval id to_ note now hmem =>
    by_cases hid : r.id = id
    · subst hid
      rcases Keyed.mem_modifyFirst_of_mem (p := fun x : Removal => x.id = r.id)
        (f := fun x : Removal => x.set to_ note now) hr with h | h
      · exact .inl h
      · exact .inr ⟨to_, note, now, rfl, h⟩
    · exact .inl (Keyed.mem_modifyFirst_of_neg hr (by simpa using hid))
  | recordReplacement disk r hfree => exact .inl hr
  | beginAddition «class» kind members now hfree => exact .inl hr

/-! ## Removals under their ids -/

def requests (cs : List Change) : List (String × Int) :=
  cs.filterMap fun
    | .recordRemoval vdev _ now => some (vdev, now)
    | _ => none

def choices (cs : List Change) : List (List DiskIdentity) :=
  cs.filterMap fun
    | .beginAddition _ _ members _ => some members
    | _ => none

/-- No removal of one vdev is recorded twice in one second, and no disk is given twice for one new
vdev. -/
def Apart (cs : List Change) : Prop := (requests cs).Nodup ∧ ∀ members ∈ choices cs, members.Nodup

/-- The `k`th removal recorded is the one at `j` of those listed. -/
def World.At (w : World) (k j : Nat) : Prop := j + w.ids.length = k + w.state.removals.length

structure Holds (w : World) : Prop extends Kept w where
  /-- The removals listed have ids of their own. -/
  ids : (w.state.removals.map (·.id)).Nodup
  /-- `setRemoval` changes the removal that the id was given for, and nothing else. -/
  exact : ∀ k id, w.ids[k]? = some id → ∀ to_ note now s,
    w.state.setRemoval id to_ note now = .ok s → ∃ j, w.At k j ∧
      s = { w.state with removals := w.state.removals.modify j (·.set to_ note now) }
  fresh : w.numbers.Nodup
  disks : (w.state.additions.flatMap (·.members)).Nodup

theorem ids_of_run (h : Run Step {} cs w) :
    w.ids = (requests cs).map fun asked => State.removalId asked.1 asked.2 := by
  refine h.history (I := fun cs w => w.ids = (requests cs).map fun asked =>
    State.removalId asked.1 asked.2) rfl ?_
  rintro cs w c w' hids hs
  obtain ⟨s, given, rfl, hchanges, -⟩ := step_cases hs
  rw [requests, List.filterMap_append, List.map_append, ← requests, ← hids]
  cases hchanges with
  | quiet hquiet hremoval =>
    cases c with
    | recordRemoval vdev members now => exact absurd rfl (hremoval vdev members now)
    | _ => exact (List.append_nil _).symm
  | recordRemoval vdev members now hnone => rfl
  | _ => exact (List.append_nil _).symm

theorem members_of_run (h : Run Step {} cs w) (hc : ∀ members ∈ choices cs, members.Nodup) :
    ∀ a ∈ w.state.additions, a.members.Nodup := by
  suffices ∀ a ∈ w.state.additions, a.members ∈ choices cs from fun a ha => hc _ (this a ha)
  refine h.history (I := fun cs w => ∀ a ∈ w.state.additions, a.members ∈ choices cs) nofun ?_
  rintro cs w c w' hold hs a ha
  obtain ⟨s, given, rfl, hchanges, -⟩ := step_cases hs
  rw [choices, List.filterMap_append, ← choices]
  cases hchanges with
  | quiet hquiet => exact List.mem_append_left _ (hold a (hquiet.additions.subset ha))
  | beginAddition «class» kind members now hfree =>
    rcases List.mem_append.mp ha with ha | ha
    · exact List.mem_append_left _ (hold a ha)
    · obtain rfl := List.mem_singleton.mp ha
      exact List.mem_append_right _ (List.mem_singleton.mpr rfl)
  | recordRemoval =>
    generalize maxRemovals = most at ha
    exact List.mem_append_left _ (hold a ha)
  | _ => exact List.mem_append_left _ (hold a ha)

/-- Where no id was given twice, an id finds the removal that it was given for. -/
theorem Kept.exact (h : Kept w) (hids : w.ids.Nodup) {k : Nat} {id : String}
    (hk : w.ids[k]? = some id) {to_ : RemovalState} {note : Option String} {now : Int} {s : State}
    (hs : w.state.setRemoval id to_ note now = .ok s) : ∃ j, w.At k j ∧
      s = { w.state with removals := w.state.removals.modify j (·.set to_ note now) } := by
  obtain ⟨⟨r, hr, hid⟩, rfl⟩ := setRemoval_eq_ok hs
  rw [Keyed.modifyFirst_eq_modify]
  refine ⟨_, ?_, rfl⟩
  have hlt : w.state.removals.findIdx (·.id = id) < w.state.removals.length :=
    List.findIdx_lt_length_of_exists ⟨r, hr, decide_eq_true hid⟩
  generalize hj : w.state.removals.findIdx (·.id = id) = j at hlt
  have hfound : w.state.removals[j].id = id := by
    have := @List.findIdx_getElem _ (fun r => decide (r.id = id)) w.state.removals (hj ▸ hlt)
    simpa [hj] using this
  obtain ⟨older, holder⟩ := h.recent
  have hat : w.ids[older.length + j]? = some id := by
    rw [holder, List.getElem?_append_right (by omega), Nat.add_sub_cancel_left, List.getElem?_map,
      List.getElem?_eq_getElem hlt, Option.map_some, hfound]
  have hlength : w.ids.length = older.length + w.state.removals.length := by
    rw [holder, List.length_append, List.length_map]
  have heq : k = older.length + j := by
    obtain ⟨hk', -⟩ := List.getElem?_eq_some_iff.mp hk
    exact (List.getElem?_inj hk' hids).mp (hk.trans hat.symm)
  show j + w.ids.length = k + w.state.removals.length
  omega

theorem holds_of_apart (h : Run Step {} cs w) (hapart : Apart cs) : Holds w := by
  have hkept := kept_of_run h
  have hids : w.ids.Nodup := by
    rw [ids_of_run h]
    exact hapart.1.map removalId_injective
  refine ⟨hkept, ?_, fun k id hk _ _ _ _ hs => hkept.exact hids hk hs, ?_, ?_⟩
  · obtain ⟨older, holder⟩ := hkept.recent
    rw [holder] at hids
    exact hids.of_append_right
  · rw [hkept.numbers]
    exact List.nodup_range'
  · exact List.nodup_flatMap.mpr ⟨members_of_run h hapart.2, hkept.apart⟩

theorem Apart.append {before after : List Change} (h : Apart (before ++ after)) : Apart before := by
  obtain ⟨hrequests, hchoices⟩ := h
  rw [requests, List.filterMap_append] at hrequests
  refine ⟨hrequests.of_append_left, fun members hm => hchoices members ?_⟩
  rw [choices, List.filterMap_append]
  exact List.mem_append_left _ hm

theorem mem_keepLast {α : Type} {most : Nat} (hmost : 0 < most) (l : List α) (a : α) :
    a ∈ keepLast most (l ++ [a]) := by
  unfold keepLast
  rw [List.length_append, List.length_singleton, List.drop_append_of_le_length (by omega)]
  exact List.mem_append_right _ (List.mem_singleton.mpr rfl)

theorem recorded {vdev : String} {members : List RemovedMember}
    (hs : Step w (.recordRemoval vdev members now) w') :
    w'.ids = w.ids ++ [State.removalId vdev now] ∧
      ∃ r ∈ w'.state.removals, r.id = State.removalId vdev now := by
  obtain ⟨s, given, rfl, hchanges, -⟩ := step_cases hs
  cases hchanges with
  | quiet _ hremoval => exact absurd rfl (hremoval vdev members now)
  | recordRemoval =>
    have hmost : 0 < maxRemovals := by decide
    generalize maxRemovals = most at hmost
    exact ⟨rfl, State.newRemoval vdev members now, mem_keepLast hmost _ _, rfl⟩

theorem setRemoval_noted {id : String} (h : ∃ r ∈ s.removals, r.id = id) :
    ∃ s', s.setRemoval id .failed (some "x") 0 = .ok s' := by
  obtain ⟨r, hr, hid⟩ := h
  have hline : oneLine "a note" "x" = .ok () := by
    unfold oneLine
    rw [if_neg (by decide)]
  have hany : s.removals.any (·.id = id) = true := List.any_eq_true.mpr ⟨r, hr, decide_eq_true hid⟩
  refine ⟨{ s with removals := Keyed.modifyFirst (·.id = id) (·.set .failed (some "x") 0) s.removals },
    ?_⟩
  unfold State.setRemoval
  rw [show (some "x").forM (oneLine "a note") = .ok () from hline, ok_bind, if_pos hany]
  rfl

/-- Notes added to two removals are different changes. -/
theorem modify_set_inj {removals : List Removal} {i j : Nat} (hj : j < removals.length)
    (h : removals.modify i (·.set .failed (some "x") 0) =
      removals.modify j (·.set .failed (some "x") 0)) : i = j := by
  by_contra hne
  have hget := congrArg (fun l : List Removal => l[j]?) h
  rw [List.getElem?_modify, List.getElem?_modify, List.getElem?_eq_getElem hj] at hget
  have hset : (if i = j then removals[j].set .failed (some "x") 0 else removals[j]) =
      (if j = j then removals[j].set .failed (some "x") 0 else removals[j]) := Option.some.inj hget
  rw [if_neg hne, if_pos rfl] at hset
  have hnotes := congrArg (·.notes.length) hset
  simp [Removal.set] at hnotes

theorem fresh_of_holds {vdev : String} {members : List RemovedMember}
    (hs : Step w (.recordRemoval vdev members now) w') (h : Holds w') :
    State.removalId vdev now ∉ w.ids := by
  intro hmem
  obtain ⟨k, hk, hid⟩ := List.getElem_of_mem hmem
  obtain ⟨hids, hlisted⟩ := recorded hs
  have hold : w'.ids[k]? = some (State.removalId vdev now) := by
    rw [hids, List.getElem?_append_left hk, List.getElem?_eq_getElem hk, hid]
  have hnew : w'.ids[w.ids.length]? = some (State.removalId vdev now) := by
    rw [hids, List.getElem?_append_right (le_refl _), Nat.sub_self]
    rfl
  have hlength : w'.ids.length = w.ids.length + 1 := by
    rw [hids, List.length_append, List.length_singleton]
  obtain ⟨s, hset⟩ := setRemoval_noted hlisted
  obtain ⟨i, hi, hsi⟩ := h.exact k _ hold _ _ _ _ hset
  obtain ⟨j, hj, hsj⟩ := h.exact _ _ hnew _ _ _ _ hset
  have hmodify := congrArg State.removals (hsi.symm.trans hsj)
  unfold World.At at hi hj
  have heq := modify_set_inj (by omega) hmodify
  omega

theorem apart_of_holds (h : Run Step {} cs w)
    (hall : ∀ before after w0, cs = before ++ after → Run Step {} before w0 → Holds w0) : Apart cs := by
  suffices w.ids.Nodup ∧ ∀ members ∈ choices cs, members.Nodup by
    refine ⟨?_, this.2⟩
    rw [ids_of_run h] at this
    exact this.1.of_map
  induction cs using List.reverseRecOn generalizing w with
  | nil =>
    obtain rfl := Run.nil_iff.mp h
    exact ⟨.nil, nofun⟩
  | append_singleton cs c ih =>
    obtain ⟨w0, hrun, hs⟩ := Run.snoc_iff.mp h
    obtain ⟨hids, hchoices⟩ := ih hrun fun before after w1 heq hw1 =>
      hall before (after ++ [c]) w1 (by rw [heq, List.append_assoc]) hw1
    have hw := hall (cs ++ [c]) [] w (List.append_nil _).symm h
    rw [choices, List.filterMap_append, ← choices]
    constructor
    · cases c with
      | recordRemoval vdev members now =>
        rw [(recorded hs).1]
        exact List.nodup_append.mpr ⟨hids, List.nodup_singleton _, fun a ha b hb heq =>
          fresh_of_holds hs hw (List.mem_singleton.mp hb ▸ heq ▸ ha)⟩
      | _ =>
        rw [ids_of_run h, requests, List.filterMap_append, ← requests, List.map_append, ← ids_of_run hrun]
        exact (List.append_nil w0.ids).symm ▸ hids
    · intro chosen hchosen
      rcases List.mem_append.mp hchosen with hold | hnew
      · exact hchoices chosen hold
      · cases c with
        | beginAddition «class» kind members now =>
          obtain rfl := List.mem_singleton.mp hnew
          obtain ⟨s, given, rfl, hchanges, -⟩ := step_cases hs
          cases hchanges with
          | quiet _ _ haddition => exact absurd rfl (haddition «class» kind chosen now)
          | beginAddition =>
            have hmembers := (List.nodup_flatMap.mp hw.disks).1
            exact hmembers _ (List.mem_append_right _ (List.mem_singleton.mpr rfl))
        | _ => exact absurd hnew List.not_mem_nil

/-- At most one removal is in progress, and none that is is left out of the journal, after any updates;
the rest holds in every state of a run if and only if no removal of one vdev is recorded twice in one
second and no disk is given twice for one new vdev. -/
theorem journal_exact (cs : List Change) (w : World) (h : Run Step {} cs w) :
    ((∀ before after w0, cs = before ++ after → Run Step {} before w0 → Holds w0) ↔ Apart cs) ∧
    (∀ before after w0, cs = before ++ after → Run Step {} before w0 → Kept w0) ∧
    ∀ before c after w0 w1, cs = before ++ c :: after → Run Step {} before w0 → Step w0 c w1 →
      Stays w0 c w1 :=
  ⟨⟨apart_of_holds h, fun hapart _ _ _ heq hrun => holds_of_apart hrun (heq ▸ hapart).append⟩,
    fun _ _ _ _ hrun => kept_of_run hrun, fun _ _ _ _ _ _ _ hs => stays_of_step hs⟩

/-! ### One second -/

def member : RemovedMember := ⟨some (.serial "A"), some "bmac-rpool-sA", some 1073741824⟩

def again : List Change :=
  [.recordRemoval "mirror-1" [member] 10, .setRemoval "removal-10-mirror-1" .failed none 10,
    .recordRemoval "mirror-1" [member] 10]

def later : List Change :=
  [.recordRemoval "mirror-1" [member] 10, .setRemoval "removal-10-mirror-1" .failed none 10,
    .recordRemoval "mirror-1" [member] 11]

theorem again_ids : ((again.foldlM World.next {}).map fun w => w.state.removals.map (·.id)) =
    some ["removal-10-mirror-1", "removal-10-mirror-1"] := by
  decide +kernel

theorem not_holds : ¬ ∀ (cs : List Change) (w : World), Run Step {} cs w → Holds w := by
  intro h
  obtain ⟨w, hw, hids⟩ := Option.map_eq_some_iff.mp again_ids
  have hnodup := (h _ w (Run.of_foldlM hw)).ids
  rw [hids] at hnodup
  revert hnodup
  decide

theorem later_runs : ((later.foldlM World.next {}).map fun w => w.state.removals.map (·.id)) =
    some ["removal-10-mirror-1", "removal-11-mirror-1"] := by
  decide +kernel

theorem journal_exact_later : ∃ w : World, w.state.removals.length = 2 ∧
    ((∀ before after w0, later = before ++ after → Run Step {} before w0 → Holds w0) ↔ Apart later) := by
  obtain ⟨w, hw, hids⟩ := Option.map_eq_some_iff.mp later_runs
  have hlength := congrArg List.length hids
  rw [List.length_map] at hlength
  exact ⟨w, hlength, (journal_exact later w (Run.of_foldlM hw)).1⟩

end Bmac.Storage.Journal
