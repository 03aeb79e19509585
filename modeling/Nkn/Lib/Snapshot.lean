import Mathlib.Algebra.BigOperators.Group.Finset.Piecewise
import Mathlib.Algebra.Order.BigOperators.Group.Finset
import Mathlib.Tactic.Linarith

/-! # Spending against a snapshot

Accounts with integer balances, and channels that record how much has been claimed on them. -/

namespace Snapshot

open Finset Function

structure Book (A K : Type) where
  balance : A → ℤ
  recorded : K → ℤ

/-- A move out of an account: a payment, or a claim that raises the recorded amount of a channel. -/
inductive Move (A K : Type) where
  | pay (payer payee : A) (amount fee : ℤ)
  | claim (channel : K) (amount fee : ℤ)

variable {A K : Type} {payer payee : K → A} {snapshot book : Book A K} {spent : A → ℤ} {move : Move A K}

namespace Move

def sender (payer : K → A) : Move A K → A
  | .pay payer _ _ _ => payer
  | .claim channel _ _ => payer channel

def recipient (payee : K → A) : Move A K → A
  | .pay _ payee _ _ => payee
  | .claim channel _ _ => payee channel

def fee : Move A K → ℤ
  | .pay _ _ _ fee => fee
  | .claim _ _ fee => fee

/-- What a move transfers: a claim transfers what exceeds the recorded amount. -/
def outlay (book : Book A K) : Move A K → ℤ
  | .pay _ _ amount _ => amount
  | .claim channel amount _ => amount - book.recorded channel

/-- What a move counts for in validation: a claim is counted from the snapshot on. -/
def reserve (snapshot : Book A K) (move : Move A K) : ℤ := move.fee + move.outlay snapshot

def record [DecidableEq K] (recorded : K → ℤ) : Move A K → K → ℤ
  | .pay _ _ _ _ => recorded
  | .claim channel amount _ => Function.update recorded channel amount

end Move

theorem outlay_le (recorded : ∀ k, snapshot.recorded k ≤ book.recorded k) (move : Move A K) :
    move.outlay book ≤ move.outlay snapshot := by
  cases move with
  | pay _ _ _ _ => exact le_refl _
  | claim channel _ _ =>
    have := recorded channel
    simp only [Move.outlay]
    omega

/-- The book after a move: the sender pays the fee and the outlay, the recipient gets the outlay. -/
def Book.apply [DecidableEq A] [DecidableEq K] (payer payee : K → A) (book : Book A K) (move : Move A K) : Book A K where
  balance := fun a =>
    book.balance a - (if a = move.sender payer then move.fee + move.outlay book else 0) +
      (if a = move.recipient payee then move.outlay book else 0)
  recorded := move.record book.recorded

section

variable [Fintype A]

def Book.total (book : Book A K) : ℤ := ∑ a, book.balance a

theorem total_apply [DecidableEq A] [DecidableEq K] : (book.apply payer payee move).total = book.total - move.fee := by
  simp only [Book.total, Book.apply, sum_add_distrib, sum_sub_distrib, sum_ite_eq', mem_univ, if_true]
  omega

theorem Book.balance_le_total (nonneg : ∀ a, 0 ≤ book.balance a) (a : A) : book.balance a ≤ book.total :=
  single_le_sum (fun a _ => nonneg a) (mem_univ a)

end

variable [DecidableEq A] [Fintype K]

def gain (payee : K → A) (snapshot book : Book A K) (a : A) : ℤ :=
  ∑ k, if a = payee k then book.recorded k - snapshot.recorded k else 0

/-- No channel records less than in the snapshot, and every account holds at least its balance in the snapshot and
its gain on channels, less what it has spent. -/
structure Covered (payee : K → A) (snapshot : Book A K) (spent : A → ℤ) (book : Book A K) : Prop where
  recorded : ∀ k, snapshot.recorded k ≤ book.recorded k
  balance : ∀ a, snapshot.balance a + gain payee snapshot book a ≤ book.balance a + spent a

theorem covered_of_balance (recorded : ∀ k, book.recorded k = snapshot.recorded k)
    (balance : ∀ a, snapshot.balance a ≤ book.balance a + spent a) : Covered payee snapshot spent book where
  recorded k := (recorded k).ge
  balance a := by simpa [gain, recorded] using balance a

namespace Covered

variable (covered : Covered payee snapshot spent book)

include covered

theorem gain_nonneg (a : A) : 0 ≤ gain payee snapshot book a := by
  refine sum_nonneg fun k _ => ?_
  have := covered.recorded k
  split_ifs <;> omega

theorem nonneg {a : A} (within : spent a ≤ snapshot.balance a) : 0 ≤ book.balance a := by
  have := covered.balance a
  have := covered.gain_nonneg a
  omega

theorem funds {a : A} {reserve : ℤ} (within : spent a + reserve ≤ snapshot.balance a) : reserve ≤ book.balance a := by
  have held := covered.balance a
  have gained := covered.gain_nonneg a
  omega

end Covered

variable [DecidableEq K]

theorem gain_apply (a : A) : gain payee snapshot (book.apply payer payee move) a = gain payee snapshot book a +
        match move with
        | .pay _ _ _ _ => 0
        | .claim channel amount _ => if a = payee channel then amount - book.recorded channel else 0 := by
  cases move with
  | pay _ _ _ _ => simp [gain, Book.apply, Move.record]
  | claim channel amount _ =>
    have term : ∀ k, (if a = payee k then update book.recorded channel amount k - snapshot.recorded k else 0) =
        (if a = payee k then book.recorded k - snapshot.recorded k else 0) +
          (if k = channel then (if a = payee channel then amount - book.recorded channel else 0) else 0) := by
      intro k
      by_cases same : k = channel
      · subst same
        rw [update_self, if_pos rfl]
        split_ifs <;> omega
      · rw [update_of_ne same, if_neg same, add_zero]
    simp only [gain, Book.apply, Move.record, term, sum_add_distrib, sum_ite_eq', mem_univ, if_true]

theorem Covered.apply (payer : K → A) (covered : Covered payee snapshot spent book) (amount : 0 ≤ move.outlay snapshot) :
    Covered payee snapshot
      (fun a => spent a + if a = move.sender payer then move.reserve snapshot else 0) (book.apply payer payee move) where
  recorded k := by
    cases move with
    | pay _ _ _ _ => exact covered.recorded k
    | claim channel _ _ =>
      simp only [Book.apply, Move.record]
      by_cases same : k = channel
      · subst same
        rw [update_self]
        simpa [Move.outlay] using amount
      · rw [update_of_ne same]
        exact covered.recorded k
  balance a := by
    have held := covered.balance a
    have least := outlay_le covered.recorded move
    rw [gain_apply]
    cases move with
    | pay source target sum fee =>
      replace amount : 0 ≤ sum := amount
      change _ + (_ + 0) ≤ book.balance a - (if a = source then fee + sum else 0) + (if a = target then sum else 0) +
        (spent a + if a = source then fee + sum else 0)
      split_ifs <;> omega
    | claim channel sum fee =>
      replace least : sum - book.recorded channel ≤ sum - snapshot.recorded channel := least
      change _ + (_ + if a = payee channel then sum - book.recorded channel else 0) ≤
        book.balance a - (if a = payer channel then fee + (sum - book.recorded channel) else 0) +
          (if a = payee channel then sum - book.recorded channel else 0) +
          (spent a + if a = payer channel then fee + (sum - snapshot.recorded channel) else 0)
      split_ifs <;> omega

end Snapshot
