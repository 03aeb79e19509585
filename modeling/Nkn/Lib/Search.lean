import Mathlib.Data.List.Sort
import Mathlib.Data.List.TakeWhile
import Mathlib.Tactic.Linarith

/-! # Binary search

`sort.Search`: the smallest index at which a predicate holds, if it holds at every index after one at which it holds. -/

namespace Go

def searchLoop (f : ℕ → Bool) (i j : ℕ) : ℕ :=
  if i < j then
    if f ((i + j) / 2) then searchLoop f i ((i + j) / 2) else searchLoop f ((i + j) / 2 + 1) j
  else i
termination_by j - i
decreasing_by all_goals omega

def search (n : ℕ) (f : ℕ → Bool) : ℕ := searchLoop f 0 n

theorem searchLoop_eq {f : ℕ → Bool} {k n : ℕ} (below : ∀ i < k, f i = false) (above : ∀ i, k ≤ i → i < n → f i = true)
    {i j : ℕ} (left : i ≤ k) (right : k ≤ j) (bound : j ≤ n) : searchLoop f i j = k := by
  fun_induction searchLoop f i j with
  | case1 i j _ here ih =>
    have middle : k ≤ (i + j) / 2 := by
      by_contra less
      rw [below _ (by omega)] at here
      cases here
    exact ih left middle (by omega)
  | case2 i j _ here ih =>
    have middle : (i + j) / 2 < k := by
      by_contra more
      exact here (above _ (by omega) (by omega))
    exact ih (by omega) right bound
  | case3 _ _ _ => omega

variable {α : Type*} [LinearOrder α]

theorem search_sorted {list : List α} (sorted : list.Pairwise (· < ·)) (bound : α) :
    search list.length (fun i => (list[i]?).any fun a => decide (bound ≤ a)) = list.countP (· < bound) := by
  have split : ∃ small large, list = small ++ large ∧ (∀ a ∈ small, a < bound) ∧ ∀ a ∈ large, bound ≤ a := by
    refine ⟨list.takeWhile (· < bound), list.dropWhile (· < bound), List.takeWhile_append_dropWhile.symm,
      fun a member => by simpa using List.mem_takeWhile_imp member, fun a member => ?_⟩
    cases rest : list.dropWhile (· < bound) with
    | nil => simp [rest] at member
    | cons first others =>
      have least : bound ≤ first := by
        have here := List.head_dropWhile_not (l := list) (fun a => decide (a < bound)) (by simp [rest])
        simpa [rest] using here
      have tail : (first :: others).Pairwise (· < ·) := by
        rw [← rest]
        exact sorted.sublist (List.dropWhile_sublist _)
      rw [rest] at member
      rcases List.mem_cons.mp member with rfl | later
      · exact least
      · exact least.trans (List.rel_of_pairwise_cons tail later).le
  obtain ⟨small, large, rfl, less, more⟩ := split
  have counted : (small ++ large).countP (· < bound) = small.length := by
    rw [List.countP_append, List.countP_eq_length.mpr (by simpa using less),
      List.countP_eq_zero.mpr (by simpa using more), Nat.add_zero]
  rw [counted]
  refine searchLoop_eq (fun i before => ?_) (fun i after inside => ?_) (Nat.zero_le _) (by simp) le_rfl
  · rw [List.getElem?_append_left before, List.getElem?_eq_getElem before]
    simpa using less _ (List.getElem_mem before)
  · rw [List.getElem?_append_right after, List.getElem?_eq_getElem (by simp at inside; omega)]
    simpa using more _ (List.getElem_mem _)

end Go
