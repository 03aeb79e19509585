import Mathlib.Logic.Function.Basic
import Mathlib.Order.Basic

/-! # Records that expire

Records with a time of expiry, and for every time the set of records to be dropped then. -/

namespace Expiry

@[ext] structure Book (T I : Type) where
  expiry : I → Option T
  due : T → I → Prop

variable {T I : Type} {book : Book T I} {now now' at' : T} {i : I}

structure Scheduled [LT T] (now : T) (book : Book T I) : Prop where
  due_iff : ∀ t i, book.due t i ↔ book.expiry i = some t
  later : ∀ i t, book.expiry i = some t → now < t

namespace Book

def add [DecidableEq I] (book : Book T I) (i : I) (t : T) : Book T I where
  expiry := Function.update book.expiry i (some t)
  due t' j := t' = t ∧ j = i ∨ book.due t' j

theorem expiry_add [DecidableEq I] (book : Book T I) (i j : I) (t : T) :
    (book.add i t).expiry j = if j = i then some t else book.expiry j := Function.update_apply _ _ _ _

def drop [DecidableEq I] (book : Book T I) (i : I) : Book T I where
  expiry := Function.update book.expiry i none
  due t j := j ≠ i ∧ book.due t j

open Classical in
noncomputable def sweep (book : Book T I) (t : T) : Book T I where
  expiry i := if book.due t i then none else book.expiry i
  due t' i := t' ≠ t ∧ book.due t' i

end Book

namespace Scheduled

variable [LT T]

variable (scheduled : Scheduled now book)

include scheduled

theorem add [DecidableEq I] (absent : book.expiry i = none) (later : now < at') : Scheduled now (book.add i at') where
  due_iff t j := by
    by_cases same : j = i
    · subst same
      have notDue : ¬ book.due t j := by simp [scheduled.due_iff, absent]
      simp [Book.add, notDue, eq_comm]
    · simp [Book.add, same, scheduled.due_iff]
  later j t found := by
    by_cases same : j = i
    · subst same
      simp only [Book.add, Function.update_self, Option.some.injEq] at found
      exact found ▸ later
    · simp only [Book.add, Function.update_of_ne same] at found
      exact scheduled.later j t found

theorem drop [DecidableEq I] : Scheduled now (book.drop i) where
  due_iff t j := by
    by_cases same : j = i
    · simp [Book.drop, same]
    · simp [Book.drop, same, scheduled.due_iff]
  later j t found := by
    by_cases same : j = i
    · simp [Book.drop, same] at found
    · simp only [Book.drop, Function.update_of_ne same] at found
      exact scheduled.later j t found

theorem renew [DecidableEq I] (later : now < at') : Scheduled now ((book.drop i).add i at') :=
  scheduled.drop.add (Function.update_self ..) later

theorem sweep (next : ∀ t, now < t → t ≠ now' → now' < t) : Scheduled now' (book.sweep now') where
  due_iff t j := by
    simp only [Book.sweep, scheduled.due_iff]
    split_ifs with due
    · have found := (scheduled.due_iff _ _).mp due
      simp only [found, Option.some.injEq, iff_false, not_and]
      exact fun other same => other same.symm
    · refine ⟨And.right, fun found => ⟨?_, found⟩⟩
      rintro rfl
      exact due ((scheduled.due_iff _ _).mpr found)
  later j t found := by
    simp only [Book.sweep, scheduled.due_iff] at found
    split_ifs at found with due
    refine next t (scheduled.later j t found) ?_
    rintro rfl
    exact due ((scheduled.due_iff _ _).mpr found)

end Scheduled

theorem Scheduled.expiry_sweep [LT T] (scheduled : Scheduled now book) {t : T} (found : book.expiry i = some t) :
    (book.sweep now').expiry i = none ↔ now' = t := by
  simp only [Book.sweep, scheduled.due_iff, found, Option.some.injEq, ite_eq_left_iff, reduceCtorEq, imp_false, not_not]
  exact eq_comm

end Expiry
