import Mathlib.Tactic

/-!
# Sliding windows

How many of some times lie in the window of a given length that ends at a moment. Two lists of times are
`Same` up to a limit from a moment on when no window that ends then or later tells them apart by a count up to
the limit. A list may then forget its times that have left the window, and all but its newest `limit` ones.
-/

namespace Bmac.Base.Sliding

variable {limit : Nat} {period now : Int} {times a b c : List Int}

/-- The times in the window that ends at `t`. -/
def count (period : Int) (times : List Int) (t : Int) : Nat := times.countP (t - period < ·)

theorem count_append (t : Int) : count period (a ++ b) t = count period a t + count period b t :=
  List.countP_append ..

theorem count_eq_zero {t : Int} (h : ∀ x ∈ times, x ≤ t - period) : count period times t = 0 :=
  List.countP_eq_zero.mpr fun x hx => by simpa using h x hx

theorem count_eq_length {t : Int} (h : ∀ x ∈ times, t - period < x) : count period times t = times.length :=
  List.countP_eq_length.mpr fun x hx => by simpa using h x hx

/-- What has left the window that ends at `now`, in times in their order. -/
def expire (period now : Int) (times : List Int) : List Int := times.dropWhile (· ≤ now - period)

theorem count_expire {t : Int} (hle : now ≤ t) : count period (expire period now times) t = count period times t := by
  induction times with
  | nil => rfl
  | cons time times ih =>
    unfold expire at ih ⊢
    by_cases hout : time ≤ now - period
    · have hgone : ¬t - period < time := by omega
      rw [List.dropWhile_cons_of_pos (by simpa using hout), ih]
      simp [count, hgone]
    · rw [List.dropWhile_cons_of_neg (by simpa using hout)]

theorem length_expire (h : times.Pairwise (· ≤ ·)) : (expire period now times).length = count period times now := by
  rw [← count_expire le_rfl, count_eq_length]
  intro x hx
  induction times with
  | nil => cases hx
  | cons time times ih =>
    obtain ⟨hfirst, hrest⟩ := List.pairwise_cons.mp h
    unfold expire at hx ih
    by_cases hout : time ≤ now - period
    · rw [List.dropWhile_cons_of_pos (by simpa using hout)] at hx
      exact ih hrest hx
    · rw [List.dropWhile_cons_of_neg (by simpa using hout)] at hx
      rcases List.mem_cons.mp hx with rfl | hx
      · omega
      · have := hfirst x hx
        omega

/-- All but the newest `limit` times are gone. -/
def newest (limit : Nat) (times : List Int) : List Int := times.drop (times.length - limit)

theorem length_newest (limit : Nat) (times : List Int) : (newest limit times).length ≤ limit := by
  rw [newest, List.length_drop]
  omega

theorem count_newest (h : times.Pairwise (· ≤ ·)) (t : Int) :
    min limit (count period (newest limit times) t) = min limit (count period times t) := by
  have hsplit := List.take_append_drop (times.length - limit) times
  rw [newest]
  rcases Nat.lt_or_ge limit times.length with hlt | hge
  · have hlen : (times.drop (times.length - limit)).length = limit := by
      rw [List.length_drop]
      omega
    conv_rhs => rw [← hsplit, count_append]
    by_cases hold : ∀ x ∈ times.take (times.length - limit), x ≤ t - period
    · rw [count_eq_zero hold, Nat.zero_add]
    · push Not at hold
      obtain ⟨x, hx, hin⟩ := hold
      -- an older time is in the window, so all of the newest ones are
      have hall : count period (times.drop (times.length - limit)) t = limit := by
        rw [count_eq_length, hlen]
        intro y hy
        rw [← hsplit, List.pairwise_append] at h
        have := h.2.2 x hx y hy
        omega
      rw [hall]
      omega
  · rw [Nat.sub_eq_zero_of_le hge, List.drop_zero]

/-! ## Lists of times that windows don't tell apart -/

/-- From `now` on. -/
def Same (limit : Nat) (period now : Int) (a b : List Int) : Prop :=
  ∀ t, now ≤ t → min limit (count period a t) = min limit (count period b t)

namespace Same

theorem refl (limit : Nat) (period now : Int) (a : List Int) : Same limit period now a a := fun _ _ => rfl

theorem trans (hab : Same limit period now a b) (hbc : Same limit period now b c) : Same limit period now a c :=
  fun t ht => (hab t ht).trans (hbc t ht)

theorem later {now' : Int} (h : Same limit period now a b) (hle : now ≤ now') : Same limit period now' a b :=
  fun t ht => h t (hle.trans ht)

theorem push (h : Same limit period now a b) (x : Int) : Same limit period now (a ++ [x]) (b ++ [x]) := by
  intro t ht
  have := h t ht
  rw [count_append, count_append]
  omega

theorem expire (h : Same limit period now a b) : Same limit period now (expire period now a) b := by
  intro t ht
  rw [count_expire ht]
  exact h t ht

theorem newest (h : Same limit period now a b) (hsorted : a.Pairwise (· ≤ ·)) :
    Same limit period now (newest limit a) b := by
  intro t ht
  rw [count_newest hsorted]
  exact h t ht

/-- All the times have left the window. -/
theorem forget (h : Same limit period now a b) (hold : ∀ x ∈ a, x ≤ now - period) : Same limit period now [] b := by
  intro t ht
  have hzero : count period a t = 0 := count_eq_zero fun x hx => by
    have := hold x hx
    omega
  rw [← h t ht, hzero]
  rfl

end Same

theorem sorted_newest (h : times.Pairwise (· ≤ ·)) : (newest limit times).Pairwise (· ≤ ·) :=
  h.sublist (List.drop_sublist _ _)

theorem sorted_push (h : times.Pairwise (· ≤ ·)) (hpast : ∀ x ∈ times, x ≤ now) :
    (times ++ [now]).Pairwise (· ≤ ·) :=
  List.pairwise_append.mpr ⟨h, List.pairwise_singleton _ _, by simpa using hpast⟩

end Bmac.Base.Sliding
