import Mathlib.Data.List.Basic
import Mathlib.Data.List.Perm.Basic

/-! # Exclusive-or of byte strings

The sum of byte strings of one length under exclusive-or. -/

namespace Go

def xorBytes (b1 b2 : List UInt8) : List UInt8 := List.zipWith (· ^^^ ·) b1 b2

theorem xorBytes_comm (b1 b2 : List UInt8) : xorBytes b1 b2 = xorBytes b2 b1 := List.zipWith_comm_of_comm UInt8.xor_comm

theorem xorBytes_assoc (b1 b2 b3 : List UInt8) : xorBytes (xorBytes b1 b2) b3 = xorBytes b1 (xorBytes b2 b3) := by
  induction b1 generalizing b2 b3 with
  | nil => rfl
  | cons _ _ ih =>
    match b2, b3 with
    | [], _ => rfl
    | _ :: _, [] => rfl
    | byte' :: b2, byte'' :: b3 =>
      have rest := ih b2 b3
      simp only [xorBytes, List.zipWith_cons_cons, UInt8.xor_assoc] at rest ⊢
      rw [rest]

theorem xorBytes_self (b : List UInt8) : xorBytes b b = List.replicate b.length 0 := by
  induction b with
  | nil => rfl
  | cons _ _ ih =>
    simp only [xorBytes, List.zipWith_cons_cons, UInt8.xor_self] at ih ⊢
    rw [ih]
    rfl

theorem xorBytes_zero {b : List UInt8} {width : Nat} (length : b.length = width) :
    xorBytes b (List.replicate width 0) = b := by
  subst length
  induction b with
  | nil => rfl
  | cons _ _ ih =>
    simp only [xorBytes, List.length_cons, List.replicate_succ, List.zipWith_cons_cons, UInt8.xor_zero] at ih ⊢
    rw [ih]

theorem length_xorBytes {b1 b2 : List UInt8} {width : Nat} (length : b1.length = width) (length' : b2.length = width) :
    (xorBytes b1 b2).length = width := by
  simp [xorBytes, length, length']

section

variable {κ : Type} (width : Nat) (bytes : κ → List UInt8)

def xorSum (keys : List κ) : List UInt8 :=
  keys.foldr (fun key sum => xorBytes sum (bytes key)) (List.replicate width 0)

variable {width bytes} {keys keys' : List κ}

theorem length_xorSum (lengths : ∀ key, (bytes key).length = width) : (xorSum width bytes keys).length = width := by
  induction keys with
  | nil => simp [xorSum]
  | cons key _ ih => exact length_xorBytes ih (lengths key)

theorem xorSum_perm (same : keys.Perm keys') : xorSum width bytes keys = xorSum width bytes keys' := by
  refine same.foldr_eq' (fun key _ key' _ sum => ?_) _
  rw [xorBytes_assoc, xorBytes_assoc, xorBytes_comm (bytes key)]

theorem xorBytes_xorSum_cons (lengths : ∀ key, (bytes key).length = width) (key : κ) :
    xorBytes (xorSum width bytes (key :: keys)) (bytes key) = xorSum width bytes keys := by
  have cons : xorSum width bytes (key :: keys) = xorBytes (xorSum width bytes keys) (bytes key) := rfl
  rw [cons, xorBytes_assoc, xorBytes_self, lengths, xorBytes_zero (length_xorSum lengths)]

end

end Go
