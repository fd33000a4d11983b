/-!
# Lists without repetitions

What keeping the first occurrence of everything in a list leaves as it is, and what moving an
element to the front does to the first few.

The main results are `Distinct.eraseDups_filter` and `Distinct.take_cons_filter_take`.
-/

namespace Formula.Distinct

variable {α : Type} [DecidableEq α]

theorem nodup_eraseDups (xs : List α) : xs.eraseDups.Nodup := by
  match xs with
  | [] => exact List.nodup_nil
  | x :: xs =>
    rw [List.eraseDups_cons, List.nodup_cons]
    refine ⟨fun member => ?_, nodup_eraseDups (xs.filter _)⟩
    simp [List.mem_eraseDups] at member
termination_by xs.length
decreasing_by exact Nat.lt_succ_of_le (List.length_filter_le _ _)

/-- Elements may be left out before repetitions or after them. -/
theorem eraseDups_filter (p : α → Bool) (xs : List α) :
    (xs.filter p).eraseDups = xs.eraseDups.filter p := by
  match xs with
  | [] => rfl
  | x :: xs =>
    have commute : ((xs.filter fun y => !y == x).filter p).eraseDups =
        (xs.filter fun y => !y == x).eraseDups.filter p := eraseDups_filter p (xs.filter _)
    rw [List.eraseDups_cons, List.filter_cons, List.filter_cons]
    split
    · rw [List.eraseDups_cons, ← commute, List.filter_filter, List.filter_filter]
      simp only [Bool.and_comm]
    · next other =>
      -- what is left out with `x` would have been left out by `p` anyway
      rw [← commute, List.filter_filter]
      refine congrArg List.eraseDups (List.filter_congr fun y _ => ?_)
      by_cases same : y = x
      · simp [same, other]
      · simp [same]
termination_by xs.length
decreasing_by exact Nat.lt_succ_of_le (List.length_filter_le _ _)

theorem head?_eraseDups (xs : List α) : xs.eraseDups.head? = xs.head? := by
  cases xs with
  | nil => rfl
  | cons x xs => rw [List.eraseDups_cons, List.head?_cons, List.head?_cons]

/-- An element at the end is kept if it is new. -/
theorem eraseDups_concat (xs : List α) (x : α) :
    (xs ++ [x]).eraseDups = if x ∈ xs then xs.eraseDups else xs.eraseDups ++ [x] := by
  rw [List.eraseDups_append]
  split
  · next old => simp [List.removeAll, old]
  · next new => simp [List.removeAll, new, List.eraseDups_cons]

/-- Of the first elements other than `x`, one more than is wanted has to be looked at. -/
theorem take_filter_take {xs : List α} (h : xs.Nodup) (x : α) (n : Nat) :
    ((xs.take (n + 1)).filter (· != x)).take n = (xs.filter (· != x)).take n := by
  induction xs generalizing n with
  | nil => rfl
  | cons y xs ih =>
    obtain ⟨new, nodup⟩ := List.nodup_cons.1 h
    rw [List.take_succ_cons, List.filter_cons, List.filter_cons]
    split
    · cases n with
      | zero => rfl
      | succ n => rw [List.take_succ_cons, List.take_succ_cons, ih nodup]
    · next same =>
      obtain rfl : y = x := by simpa using same
      have others : ∀ z ∈ xs, (z != y) = true := fun z member =>
        bne_iff_ne.2 fun eq => new (eq ▸ member)
      rw [List.filter_eq_self.2 others,
        List.filter_eq_self.2 fun z member => others z (List.mem_of_mem_take member),
        List.take_take, Nat.min_self]

/-- Moving `x` to the front of the first elements gives the first ones of all with `x` in front. -/
theorem take_cons_filter_take {xs : List α} (h : xs.Nodup) (x : α) (n : Nat) :
    (x :: (xs.take n).filter (· != x)).take n = (x :: xs.filter (· != x)).take n := by
  cases n with
  | zero => rfl
  | succ n => rw [List.take_succ_cons, List.take_succ_cons, take_filter_take h]

end Formula.Distinct
