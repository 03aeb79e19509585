import Mathlib.Tactic.SplitIfs
import Nkn.Lib.Fault

/-! # Computations on a state

A computation changes a state and returns a value, an error or a panic; what it changed before it failed stays
changed. -/

namespace Go

namespace Outcome

variable {α β : Type}

def Follows (result result' : Outcome α) : Prop := Fails result ∨ result = result'

theorem Follows.refl (result : Outcome α) : Follows result result := .inr rfl

theorem Follows.bind {result result' : Outcome α} {next next' : α → Outcome β} (first : Follows result result')
    (second : ∀ value, Follows (next value) (next' value)) : Follows (result >>= next) (result' >>= next') := by
  rcases first with failed | rfl
  · exact .inl (Fails.bind_iff.mpr (.inl failed))
  · cases result with
    | error _ => exact .refl _
    | ok value => exact second value

end Outcome

def Proc (σ α : Type) := σ → Outcome α × σ

namespace Proc

variable {σ τ α β : Type}

def andThen (x : Proc σ α) (next : α → Proc σ β) : Proc σ β := fun s =>
  match x s with
  | (.ok value, s') => next value s'
  | (.error fault, s') => (.error fault, s')

instance : Monad (Proc σ) where
  pure value := fun s => (.ok value, s)
  bind := andThen

def lift (result : Outcome α) : Proc σ α := fun s => (result, s)

instance : MonadLift Outcome (Proc σ) where
  monadLift := lift

def gets (f : σ → α) : Proc σ α := fun s => (.ok (f s), s)

def modify (f : σ → σ) : Proc σ Unit := fun s => (.ok (), f s)

/-- Runs `handler` in place of an error that a computation returns; a panic goes on. -/
def recover (x handler : Proc σ α) : Proc σ α := fun s =>
  match x s with
  | (.error (.error _), s') => handler s'
  | result => result

def labelled (label : String) (x : Proc σ α) : Proc σ α := fun s =>
  let result := x s
  (Outcome.labelled label result.1, result.2)

def zoom (get : τ → σ) (set : τ → σ → τ) (x : Proc σ α) : Proc τ α := fun s =>
  let result := x (get s)
  (result.1, set s result.2)

def when (condition : Prop) [Decidable condition] (x : Proc σ Unit) : Proc σ Unit := if condition then x else pure ()

def forEach (items : List β) (turn : β → Proc σ Unit) : Proc σ Unit :=
  match items with
  | [] => pure ()
  | item :: rest => do
    turn item
    forEach rest turn

theorem bind_apply (x : Proc σ α) (next : α → Proc σ β) (s : σ) : (x >>= next) s = x.andThen next s := rfl

@[simp] theorem pure_apply (value : α) (s : σ) : (pure value : Proc σ α) s = (.ok value, s) := rfl

variable {x : Proc σ α} {s s' : σ} {next : α → Proc σ β} {value : α}

theorem bind_of_ok (run : x s = (.ok value, s')) : (x >>= next) s = next value s' := by
  simp [bind_apply, andThen, run]

variable {fault : Fault}

theorem bind_of_error (run : x s = (.error fault, s')) : (x >>= next) s = (.error fault, s') := by
  simp [bind_apply, andThen, run]

theorem bind_assoc {γ : Type} (x : Proc σ α) (next : α → Proc σ β) (last : β → Proc σ γ) :
    (x >>= next) >>= last = x >>= fun value => next value >>= last := by
  funext s
  rcases run : x s with ⟨_ | _, _⟩ <;> simp [bind_apply, andThen, run]

@[simp] theorem pure_bind (value : α) (next : α → Proc σ β) : (pure value >>= next) = next value := rfl

@[simp] theorem lift_ok_bind (value : α) (next : α → Proc σ β) (s : σ) : (lift (.ok value) >>= next) s = next value s := rfl

@[simp] theorem lift_error_bind (fault : Fault) (next : α → Proc σ β) (s : σ) :
    (lift (.error fault) >>= next) s = (.error fault, s) := rfl

@[simp] theorem gets_bind (f : σ → α) (next : α → Proc σ β) (s : σ) : (gets f >>= next) s = next (f s) s := rfl

@[simp] theorem modify_bind (f : σ → σ) (next : Unit → Proc σ β) (s : σ) : (modify f >>= next) s = next () (f s) := rfl

theorem bind_eq_ok {value : β} : (x >>= next) s = (.ok value, s') ↔
      ∃ middle between, x s = (.ok middle, between) ∧ next middle between = (.ok value, s') := by
  rcases run : x s with ⟨_ | _, _⟩ <;> simp [bind_apply, andThen, run]

theorem bind_eq_error : (x >>= next) s = (.error fault, s') ↔
      x s = (.error fault, s') ∨ ∃ middle between, x s = (.ok middle, between) ∧ next middle between = (.error fault, s') := by
  rcases run : x s with ⟨_ | _, _⟩ <;> simp [bind_apply, andThen, run]

variable {result : Outcome α}

theorem lift_eq_error : lift result s = (.error fault, s') ↔ result = .error fault ∧ s = s' := by
  simp [lift]

theorem lift_eq_ok : lift result s = (.ok value, s') ↔ result = .ok value ∧ s = s' := by
  simp [lift]

theorem lift_rejectIf {condition : Prop} [Decidable condition] {text : String} {s : σ} (passes : ¬condition) :
    lift (Outcome.rejectIf condition text) s = (.ok (), s) := by
  simp [lift, Outcome.rejectIf, passes]

theorem eq_of_fst {s : σ} (returned : (x s).1 = result) : x s = (result, (x s).2) := Prod.ext returned rfl

theorem labelled_eq_ok {label : String} : x.labelled label s = (.ok value, s') ↔ x s = (.ok value, s') := by
  rcases run : x s with ⟨_, _⟩
  simp [labelled, run]

theorem labelled_of_ok (label : String) (run : x s = (.ok value, s')) : x.labelled label s = (.ok value, s') := by
  simp only [labelled, run]
  rfl

theorem zoom_eq_ok {get : τ → σ} {set : τ → σ → τ} {s s' : τ} :
    x.zoom get set s = (.ok value, s') ↔ ∃ part, x (get s) = (.ok value, part) ∧ set s part = s' := by
  rcases run : x (get s) with ⟨_, part⟩
  simp only [zoom, run, Prod.mk.injEq]
  constructor
  · rintro ⟨rfl, rfl⟩
    exact ⟨part, ⟨rfl, rfl⟩, rfl⟩
  · rintro ⟨_, ⟨rfl, rfl⟩, rfl⟩
    exact ⟨rfl, rfl⟩

structure Closed (P : ∀ {α : Type}, Proc σ α → Prop) : Prop where
  pure {α : Type} (value : α) : P (Pure.pure value : Proc σ α)
  bind {α β : Type} {x : Proc σ α} {next : α → Proc σ β} : P x → (∀ value, P (next value)) → P (x >>= next)

section

variable {P : ∀ {α : Type}, Proc σ α → Prop} (closed : Closed @P)

include closed

theorem Closed.when {condition : Prop} [Decidable condition] {x : Proc σ Unit} (holds : condition → P x) :
    P (Proc.when condition x) := by
  unfold Proc.when
  split_ifs with this
  · exact holds this
  · exact closed.pure ()

theorem Closed.forEach {items : List β} {turn : β → Proc σ Unit} (holds : ∀ item, P (turn item)) :
    P (Proc.forEach items turn) := by
  induction items with
  | nil => exact closed.pure ()
  | cons item _ ih => exact closed.bind (holds item) fun _ => ih

end

section

variable {inv : σ → Prop} {x : Proc σ α} {next : α → Proc σ β}

def Keeps (inv : σ → Prop) (x : Proc σ α) : Prop := ∀ s, inv s → inv (x s).2

theorem keeps_pure (value : α) : Keeps inv (pure value) := fun _ holds => holds

theorem keeps_lift (result : Outcome α) : Keeps inv (lift result) := fun _ holds => holds

theorem keeps_gets (f : σ → α) : Keeps inv (gets f) := fun _ holds => holds

theorem keeps_modify {f : σ → σ} (keep : ∀ s, inv s → inv (f s)) : Keeps inv (modify f) := keep

theorem Keeps.bind (first : Keeps inv x) (second : ∀ value, Keeps inv (next value)) : Keeps inv (x >>= next) := by
  intro s holds
  have kept := first s holds
  rw [bind_apply, andThen]
  rcases run : x s with ⟨_ | value, s'⟩
  · rwa [run] at kept
  · exact second value s' (by rwa [run] at kept)

theorem Keeps.when {condition : Prop} [Decidable condition] {x : Proc σ Unit} (keeps : Keeps inv x) :
    Keeps inv (Proc.when condition x) :=
  Closed.when ⟨keeps_pure, .bind⟩ fun _ => keeps

theorem Keeps.lift_bind {result : Outcome α} (rest : ∀ value, result = .ok value → Keeps inv (next value)) :
    Keeps inv (lift result >>= next) := by
  intro s holds
  cases result with
  | error _ => exact holds
  | ok value => exact rest value rfl s holds

theorem Keeps.recover {handler : Proc σ α} (first : Keeps inv x) (second : Keeps inv handler) :
    Keeps inv (x.recover handler) := by
  intro s holds
  have kept := first s holds
  rw [Proc.recover]
  match run : x s with
  | (.error (.error _), s') => exact second s' (by rwa [run] at kept)
  | (.error (.panic _), s') => rwa [run] at kept
  | (.ok _, s') => rwa [run] at kept

end

/-- From every state with the invariant, `x` returns an error, or does what `y` does and keeps the invariant. -/
def Follows (inv : σ → Prop) (x y : Proc σ α) : Prop := ∀ s, inv s → Fails (x s).1 ∨ (x s = y s ∧ inv (y s).2)

/-- From every state with the invariant, `x` does what `y` does and keeps the invariant. -/
def Matches (inv : σ → Prop) (x y : Proc σ α) : Prop := ∀ s, inv s → x s = y s ∧ inv (y s).2

variable {inv : σ → Prop} {x y : Proc σ α} {next next' : α → Proc σ β}

theorem Matches.follows (same : Matches inv x y) : Follows inv x y := fun s holds => .inr (same s holds)

theorem matches_pure (value : α) : Matches inv (pure value) (pure value) := fun _ holds => ⟨rfl, holds⟩

theorem matches_lift (result : Outcome α) : Matches inv (lift result) (lift result) := fun _ holds => ⟨rfl, holds⟩

theorem matches_gets (f : σ → α) : Matches inv (gets f) (gets f) := fun _ holds => ⟨rfl, holds⟩

theorem matches_modify {f : σ → σ} (keep : ∀ s, inv s → inv (f s)) : Matches inv (modify f) (modify f) :=
  fun s holds => ⟨rfl, keep s holds⟩

theorem Matches.bind (first : Matches inv x y) (second : ∀ value, Matches inv (next value) (next' value)) :
    Matches inv (x >>= next) (y >>= next') := by
  intro s holds
  obtain ⟨same, holds⟩ := first s holds
  rw [bind_apply, bind_apply, andThen, andThen, same]
  rcases run : y s with ⟨_ | value, s'⟩
  · exact ⟨rfl, by rwa [run] at holds⟩
  · exact second value s' (by rwa [run] at holds)

theorem Matches.recover {handler handler' : Proc σ α} (first : Matches inv x y) (second : Matches inv handler handler') :
    Matches inv (x.recover handler) (y.recover handler') := by
  intro s holds
  obtain ⟨same, holds⟩ := first s holds
  rw [Proc.recover, Proc.recover, same]
  match run : y s with
  | (.error (.error _), s') => exact second s' (by rwa [run] at holds)
  | (.error (.panic _), s') => exact ⟨rfl, by rwa [run] at holds⟩
  | (.ok _, s') => exact ⟨rfl, by rwa [run] at holds⟩

theorem Matches.labelled (label : String) (same : Matches inv x y) : Matches inv (x.labelled label) (y.labelled label) := by
  intro s holds
  obtain ⟨same, holds⟩ := same s holds
  exact ⟨by simp only [Proc.labelled, same], holds⟩

theorem Follows.labelled (label : String) (follows : Follows inv x y) :
    Follows inv (x.labelled label) (y.labelled label) := by
  intro s holds
  rcases follows s holds with ⟨text, failed⟩ | ⟨same, holds⟩
  · refine .inl ⟨label ++ text, ?_⟩
    simp only [Proc.labelled, failed]
    rfl
  · exact .inr ⟨by simp only [Proc.labelled, same], holds⟩

theorem Follows.when {condition : Prop} [Decidable condition] {x y : Proc σ Unit} (follows : Follows inv x y) :
    Follows inv (Proc.when condition x) (Proc.when condition y) := by
  unfold Proc.when
  split_ifs
  · exact follows
  · exact (matches_pure ()).follows

theorem Follows.bind (first : Follows inv x y) (second : ∀ value, Follows inv (next value) (next' value)) :
    Follows inv (x >>= next) (y >>= next') := by
  intro s holds
  rcases first s holds with ⟨text, failed⟩ | ⟨same, holds⟩
  · have run : x s = (.error (.error text), (x s).2) := Prod.ext failed rfl
    exact .inl ⟨text, by rw [bind_of_error run]⟩
  · rw [bind_apply, bind_apply, andThen, andThen, same]
    rcases run : y s with ⟨_ | value, s'⟩
    · exact .inr ⟨rfl, by rwa [run] at holds⟩
    · exact second value s' (by rwa [run] at holds)

theorem Follows.lift_bind (rest : ∀ value, result = .ok value → Follows inv (next value) (next' value)) :
    Follows inv (lift result >>= next) (lift result >>= next') := by
  intro s holds
  cases result with
  | error _ => exact .inr ⟨rfl, holds⟩
  | ok value => exact rest value rfl s holds

theorem Follows.zoom {get : τ → σ} {set : τ → σ → τ} {whole : τ → Prop} (part : Follows inv x y)
    (down : ∀ s, whole s → inv (get s)) (up : ∀ s s', whole s → inv s' → whole (set s s')) :
    Follows whole (x.zoom get set) (y.zoom get set) := by
  intro s holds
  rcases part (get s) (down s holds) with failed | ⟨same, kept⟩
  · exact .inl failed
  · exact .inr ⟨by simp only [Proc.zoom, same], up s _ holds kept⟩

theorem Follows.forEach {turn turn' : β → Proc σ Unit} (items : List β)
    (each : ∀ item ∈ items, Follows inv (turn item) (turn' item)) :
    Follows inv (Proc.forEach items turn) (Proc.forEach items turn') := by
  induction items with
  | nil => exact (matches_pure ()).follows
  | cons item _ ih =>
    exact (each item List.mem_cons_self).bind fun _ => ih fun other member => each other (List.mem_cons_of_mem _ member)

theorem Follows.reached (follows : Follows inv x x) (holds : inv s) (run : x s = (.ok value, s')) : inv s' := by
  have reached := follows s holds
  rw [run] at reached
  exact (reached.resolve_left (Fails.not_ok value)).2

end Proc

end Go
