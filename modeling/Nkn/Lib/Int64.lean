import Mathlib.Data.List.Basic
import Mathlib.Algebra.BigOperators.Group.List.Basic

/-! # 64-bit signed arithmetic

Go's `int64` wraps around silently. -/

namespace Go

open Int64 List

def Fits (value : Int) : Prop := -2 ^ 63 ≤ value ∧ value < 2 ^ 63

instance (value : Int) : Decidable (Fits value) := inferInstanceAs (Decidable (_ ∧ _))

theorem fits_toInt (word : Int64) : Fits word.toInt := ⟨word.le_toInt, word.toInt_lt⟩

theorem bmod_of_fits {value : Int} (fits : Fits value) : value.bmod (2 ^ 64) = value := by
  obtain ⟨_, _⟩ := fits
  rw [Int.bmod_eq_of_le] <;> omega

variable {a b : Int64}

theorem toInt_add_of_fits (fits : Fits (a.toInt + b.toInt)) : (a + b).toInt = a.toInt + b.toInt := by
  rw [toInt_add, bmod_of_fits fits]

theorem toInt_sub_of_fits (fits : Fits (a.toInt - b.toInt)) : (a - b).toInt = a.toInt - b.toInt := by
  rw [toInt_sub, bmod_of_fits fits]

theorem toInt_eq_of_fits {word : Int64} {value : Int} (fits : Fits value) (same : word = ofInt value) :
    word.toInt = value := by
  obtain ⟨lower, upper⟩ := fits
  rw [same, toInt_ofInt_of_le lower upper]

@[simp] theorem toInt_zero : (0 : Int64).toInt = 0 := rfl

theorem le_iff_toInt : a ≤ b ↔ a.toInt ≤ b.toInt := le_iff_toInt_le

theorem lt_iff_toInt : a < b ↔ a.toInt < b.toInt := lt_iff_toInt_lt

theorem not_lt_iff_toInt : ¬ a < b ↔ b.toInt ≤ a.toInt := by
  rw [lt_iff_toInt]
  omega

theorem toInt_sub_of_pos (order : b < a) (positive : 0 < a - b) : (a - b).toInt = a.toInt - b.toInt := by
  rw [lt_iff_toInt] at order positive
  have wrapped := toInt_sub a b
  have rangeA := fits_toInt a
  have rangeB := fits_toInt b
  unfold Fits at rangeA rangeB
  rw [toInt_zero] at positive
  rw [wrapped] at positive ⊢
  rw [Int.bmod_def] at positive ⊢
  split at positive <;> simp_all <;> omega

theorem sum_append (words words' : List Int64) : (words ++ words').sum = words.sum + words'.sum := by
  induction words with
  | nil => simp
  | cons _ _ ih => rw [cons_append, sum_cons, ih, sum_cons, Int64.add_assoc]

theorem sum_perm {words words' : List Int64} (same : words.Perm words') : words.sum = words'.sum := by
  induction same with
  | nil => rfl
  | cons _ _ ih => rw [sum_cons, sum_cons, ih]
  | swap word word' _ =>
    rw [sum_cons, sum_cons, sum_cons, sum_cons, ← Int64.add_assoc, ← Int64.add_assoc, Int64.add_comm word' word]
  | trans _ _ ih ih' => exact ih.trans ih'

theorem sum_eq_zero {words : List Int64} (zero : ∀ word ∈ words, word = 0) : words.sum = 0 := by
  induction words with
  | nil => rfl
  | cons _ _ ih =>
    obtain ⟨first, zero⟩ := forall_mem_cons.mp zero
    rw [sum_cons, ih zero, first, Int64.add_zero]

end Go
