import Nkn.Lib.Proc

/-! # Pre- and postconditions of computations on a state

A triple has one postcondition for a computation that returns and one for a computation that fails, whose changes stay. -/

namespace Go.Proc

variable {σ α β : Type} {pre : σ → Prop} {fails : σ → Prop} {x : Proc σ α} {next : α → Proc σ β}
  {returns : α → σ → Prop} {returns' : β → σ → Prop}

def Post (returns : α → σ → Prop) (fails : σ → Prop) : Outcome α × σ → Prop
  | (.ok value, s) => returns value s
  | (.error _, s) => fails s

/-- From every state with the precondition, `x` ends in a state with the postcondition that belongs to its result. -/
def Triple (pre : σ → Prop) (x : Proc σ α) (returns : α → σ → Prop) (fails : σ → Prop) : Prop :=
  ∀ s, pre s → Post returns fails (x s)

theorem Triple.bind {middle : α → σ → Prop} (first : Triple pre x middle fails)
    (second : ∀ value, Triple (middle value) (next value) returns' fails) : Triple pre (x >>= next) returns' fails := by
  intro s holds
  have reached := first s holds
  rw [bind_apply, andThen]
  rcases run : x s with ⟨_ | value, s'⟩ <;> rw [run] at reached
  · exact reached
  · exact second value s' reached

theorem Triple.imp {pre' fails' : σ → Prop} {weaker : α → σ → Prop} (triple : Triple pre x returns fails)
    (before : ∀ s, pre' s → pre s) (after : ∀ value s, returns value s → weaker value s) (failed : ∀ s, fails s → fails' s) :
    Triple pre' x weaker fails' := by
  intro s holds
  have reached := triple s (before s holds)
  rcases run : x s with ⟨_ | value, s'⟩ <;> rw [run] at reached
  · exact failed s' reached
  · exact after value s' reached

theorem Triple.of_returned {s s' : σ} {value : α} (triple : Triple pre x returns fails) (holds : pre s)
    (run : x s = (.ok value, s')) : returns value s' := by
  have reached := triple s holds
  rwa [run] at reached

theorem Triple.of_failed {s s' : σ} {fault : Fault} (triple : Triple pre x returns fails) (holds : pre s)
    (run : x s = (.error fault, s')) : fails s' := by
  have reached := triple s holds
  rwa [run] at reached

theorem triple_run_bind {s s' : σ} {value : α} (run : x s = (.ok value, s'))
    (rest : Triple (· = s') (next value) returns' fails) : Triple (· = s) (x >>= next) returns' fails := by
  rintro _ rfl
  rw [bind_of_ok run]
  exact rest s' rfl

theorem triple_modify {f : σ → σ} {returns : Unit → σ → Prop} (changes : ∀ s, pre s → returns () (f s)) :
    Triple pre (modify f) returns fails := changes

theorem triple_lift_bind {result : Outcome α} (error : ∀ s, pre s → fails s)
    (rest : ∀ value, result = .ok value → Triple pre (next value) returns' fails) :
    Triple pre (lift result >>= next) returns' fails := by
  intro s holds
  cases result with
  | error _ => exact error s holds
  | ok value => exact rest value rfl s holds

theorem triple_lift {result : Outcome α} (error : ∀ s, pre s → fails s)
    (ok : ∀ value, result = .ok value → ∀ s, pre s → returns value s) : Triple pre (lift result) returns fails := by
  intro s holds
  cases result with
  | error _ => exact error s holds
  | ok value => exact ok value rfl s holds

end Go.Proc
