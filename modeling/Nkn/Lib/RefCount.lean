import Mathlib.Algebra.BigOperators.Group.Finset.Basic
import Mathlib.Algebra.Order.BigOperators.Group.Finset

/-! # Reference counts

Objects refer to other objects, and roots refer to objects from outside. -/

namespace RefCount

open List Function

variable {H : Type} (kids : H → List H)

inductive Reaches : H → H → Prop
  | refl (h : H) : Reaches h h
  | step {h c x : H} (kid : c ∈ kids h) (rest : Reaches c x) : Reaches h x

variable {kids}

theorem Reaches.tail {h c x : H} (reaches : Reaches kids h c) (kid : x ∈ kids c) : Reaches kids h x := by
  induction reaches with
  | refl _ => exact .step kid (.refl x)
  | step first _ ih => exact .step first (ih kid)

theorem Reaches.mem_of_closed {closed : Set H} (closure : ∀ h ∈ closed, ∀ c ∈ kids h, c ∈ closed) {h x : H}
    (reaches : Reaches kids h x) (member : h ∈ closed) : x ∈ closed := by
  induction reaches with
  | refl _ => exact member
  | step kid _ ih => exact ih (closure _ member _ kid)

theorem Reaches.rank_le {rank : H → Nat} (falls : ∀ h, ∀ c ∈ kids h, rank c < rank h) {h x : H}
    (reaches : Reaches kids h x) : rank x ≤ rank h := by
  induction reaches with
  | refl _ => exact le_rfl
  | step kid _ ih => exact ih.trans (falls _ _ kid).le

variable [DecidableEq H] {live : Finset H} {roots roots' : List H} {count : H → Nat} {h c : H}

variable (kids) in
/-- The number of references to an object, from the roots and from the live objects. -/
def references (roots : List H) (live : Finset H) (h : H) : Nat := roots.count h + ∑ p ∈ live, (kids p).count h

theorem references_cons_self : references kids (h :: roots) live h = references kids roots live h + 1 := by
  rw [references, count_cons_self, Nat.add_right_comm]
  rfl

theorem references_mono (fewer : roots.Subperm roots') : references kids roots live h ≤ references kids roots' live h :=
  Nat.add_le_add_right (fewer.count_le h) _

theorem references_le {all : Finset H} (known : ∀ p, kids p ≠ [] → p ∈ all) :
    references kids roots live h ≤ roots.length + ∑ p ∈ all, (kids p).length := by
  refine Nat.add_le_add count_le_length ((Finset.sum_le_sum_of_ne_zero fun p _ refers => known p fun none => ?_).trans
    (Finset.sum_le_sum fun _ _ => count_le_length))
  exact refers (by rw [none, count_nil])

variable (kids) in
structure Counts (live : Finset H) (roots : List H) (count : H → Nat) : Prop where
  total : ∀ h, count h = references kids roots live h
  live_iff : ∀ h, h ∈ live ↔ 0 < count h

namespace Counts

theorem empty : Counts kids ∅ [] fun _ => 0 := ⟨by simp [references], by simp⟩

variable (counts : Counts kids live roots count)

include counts

theorem perm (same : roots.Perm roots') : Counts kids live roots' count :=
  ⟨fun h => by rw [references, ← same.count_eq]; exact counts.total h, counts.live_iff⟩

theorem root_live (root : h ∈ roots) : h ∈ live := by
  rw [counts.live_iff, counts.total, references]
  exact Nat.add_pos_left (count_pos_iff.mpr root) _

theorem kid_live (parent : h ∈ live) (kid : c ∈ kids h) : c ∈ live := by
  rw [counts.live_iff, counts.total, references]
  refine Nat.add_pos_right _ (Finset.sum_pos' (fun _ _ => Nat.zero_le _) ⟨h, parent, count_pos_iff.mpr kid⟩)

theorem reached_live {x : H} (parent : h ∈ live) (reaches : Reaches kids h x) : x ∈ live :=
  reaches.mem_of_closed (fun _ alive _ kid => counts.kid_live alive kid) parent

theorem live_reached {rank : H → Nat} {bound : Nat}
    (falls : ∀ h, ∀ c ∈ kids h, rank c < rank h) (bounded : ∀ h, rank h ≤ bound) (alive : h ∈ live) :
    ∃ root ∈ roots, Reaches kids root h := by
  induction gap : bound - rank h using Nat.strong_induction_on generalizing h with
  | _ _ ih =>
    have positive := (counts.live_iff h).mp alive
    rw [counts.total, references] at positive
    rcases Nat.eq_zero_or_pos (roots.count h) with none | root
    · obtain ⟨p, parent, kid⟩ := Finset.exists_ne_zero_of_sum_ne_zero (Nat.ne_of_gt (by rwa [none, zero_add] at positive))
      have kid : h ∈ kids p := count_pos_iff.mp (Nat.pos_of_ne_zero kid)
      have lower := falls p h kid
      have := bounded p
      obtain ⟨root, member, reaches⟩ := ih (bound - rank p) (by omega) parent rfl
      exact ⟨root, member, reaches.tail kid⟩
    · exact ⟨h, count_pos_iff.mp root, .refl h⟩

theorem again (alive : h ∈ live) : Counts kids live (h :: roots) (update count h (count h + 1)) := by
  refine ⟨fun x => ?_, fun x => ?_⟩
  · have total := counts.total x
    unfold references at total ⊢
    by_cases same : x = h
    · subst same
      simp only [update_self, count_cons_self]
      omega
    · simpa [update_of_ne same, count_cons_of_ne (Ne.symm same)] using total
  · by_cases same : x = h
    · subst same
      simpa using alive
    · simpa [update_of_ne same] using counts.live_iff x

omit counts

theorem enter (counts : Counts kids live (kids h ++ roots) count) (dead : h ∉ live) :
    Counts kids (insert h live) (h :: roots) (update count h 1) := by
  have zero : count h = 0 := Nat.eq_zero_of_not_pos fun positive => dead ((counts.live_iff h).mpr positive)
  refine ⟨fun x => ?_, fun x => ?_⟩
  · have total := counts.total x
    unfold references at total ⊢
    rw [count_append] at total
    rw [Finset.sum_insert dead]
    by_cases same : x = h
    · subst same
      simp only [update_self, count_cons_self]
      omega
    · simp only [update_of_ne same, count_cons_of_ne (Ne.symm same)]
      omega
  · by_cases same : x = h
    · subst same
      simp
    · simpa [update_of_ne same, same] using counts.live_iff x

theorem release (counts : Counts kids live (h :: roots) count) (several : 1 < count h) :
    Counts kids live roots (update count h (count h - 1)) := by
  refine ⟨fun x => ?_, fun x => ?_⟩
  · have total := counts.total x
    unfold references at total ⊢
    by_cases same : x = h
    · subst same
      simp only [update_self, count_cons_self] at total ⊢
      omega
    · simpa [update_of_ne same, count_cons_of_ne (Ne.symm same)] using total
  · by_cases same : x = h
    · subst same
      rw [update_self]
      exact iff_of_true ((counts.live_iff x).mpr (by omega)) (by omega)
    · simpa [update_of_ne same] using counts.live_iff x

theorem leave (counts : Counts kids live (h :: roots) count) (last : count h = 1) :
    Counts kids (live.erase h) (kids h ++ roots) (update count h 0) := by
  have alive : h ∈ live := counts.root_live (mem_cons_self ..)
  have split (x : H) : ∑ p ∈ live, (kids p).count x = (kids h).count x + ∑ p ∈ live.erase h, (kids p).count x :=
    (Finset.add_sum_erase live (fun p => (kids p).count x) alive).symm
  refine ⟨fun x => ?_, fun x => ?_⟩
  · have total := counts.total x
    unfold references at total ⊢
    rw [split] at total
    rw [count_append]
    by_cases same : x = h
    · subst same
      simp only [update_self, count_cons_self] at total ⊢
      omega
    · simp only [update_of_ne same, count_cons_of_ne (Ne.symm same)] at total ⊢
      omega
  · by_cases same : x = h
    · subst same
      simp
    · simpa [update_of_ne same, same] using counts.live_iff x

end Counts

end RefCount
