import Mathlib.Data.List.Basic

/-! # Fallible computations

Results of code that can return an error or panic, and the rules that take a successful run apart into those of its
parts. -/

namespace Go

/-- How a call can fail: with an error value, or by a panic (nil dereference, index out of range). -/
inductive Fault where
  | error (text : String)
  | panic (text : String)
deriving DecidableEq, Repr

/-- The same failure with more text in front of an error, as wrapping code adds it. -/
def Fault.within (label : String) : Fault → Fault
  | .error text => .error (label ++ text)
  | .panic text => .panic text

abbrev Outcome (α : Type) := Except Fault α

namespace Outcome

variable {α β : Type}

def fail (text : String) : Outcome α := .error (.error text)

def crash (text : String) : Outcome α := .error (.panic text)

def rejectIf (condition : Prop) [Decidable condition] (text : String) : Outcome Unit :=
  if condition then fail text else .ok ()

def orFail (text : String) : Option α → Outcome α
  | some value => .ok value
  | none => fail text

def labelled (label : String) (result : Outcome α) : Outcome α :=
  result.mapError (Fault.within label)

variable {result : Outcome α}

theorem bind_eq_ok {next : α → Outcome β} {value : β} :
    (result >>= next) = .ok value ↔ ∃ middle, result = .ok middle ∧ next middle = .ok value := by
  cases result with
  | error _ => simp [bind, Except.bind]
  | ok _ => simp [bind, Except.bind]

@[simp] theorem ok_bind (value : α) (next : α → Outcome β) : ((.ok value : Outcome α) >>= next) = next value := rfl

@[simp] theorem error_bind (fault : Fault) (next : α → Outcome β) :
    ((.error fault : Outcome α) >>= next) = .error fault := rfl

@[simp] theorem fail_ne_ok (text : String) (value : α) : (fail text : Outcome α) ≠ .ok value := by
  simp [fail]

@[simp] theorem crash_ne_ok (text : String) (value : α) : (crash text : Outcome α) ≠ .ok value := by
  simp [crash]

variable {text : String}

@[simp] theorem rejectIf_eq_ok {condition : Prop} [Decidable condition] {value : Unit} :
    rejectIf condition text = .ok value ↔ ¬ condition := by
  unfold rejectIf
  split <;> simp_all

@[simp] theorem orFail_eq_ok {found : Option α} {value : α} : orFail text found = .ok value ↔ found = some value := by
  cases found <;> simp [orFail]

@[simp] theorem labelled_eq_ok {label : String} {value : α} :
    labelled label result = .ok value ↔ result = .ok value := by
  cases result <;> simp [labelled, Except.mapError]

@[simp] theorem pure_eq_ok {value value' : α} : (pure value : Outcome α) = .ok value' ↔ value = value' := by
  simp [pure, Except.pure]

theorem ok_unique {value value' : α} (first : result = .ok value) (second : result = .ok value') : value = value' :=
  Except.ok.inj (first.symm.trans second)

theorem isOk_iff : result.isOk = true ↔ ∃ value, result = .ok value := by
  cases result <;> simp [Except.isOk, Except.toBool]

theorem eq_ok_of_isOk {default : α} (done : result.isOk = true) : result = .ok (result.toOption.getD default) := by
  obtain ⟨_, rfl⟩ := isOk_iff.mp done
  rfl

theorem rejectIf_bind_eq_ok {condition : Prop} [Decidable condition] {next : Unit → Outcome β} {value : β} :
    (rejectIf condition text >>= next) = .ok value ↔ ¬ condition ∧ next () = .ok value := by
  unfold rejectIf
  split <;> simp_all [fail]

section

variable {step : α → β → Outcome α} {state state' : α} {items : List β}

theorem foldlM_nil_eq_ok : ([] : List β).foldlM step state = .ok state' ↔ state = state' := by
  simp

theorem foldlM_cons_eq_ok {item : β} : (item :: items).foldlM step state = .ok state' ↔
      ∃ middle, step state item = .ok middle ∧ items.foldlM step middle = .ok state' := by
  rw [List.foldlM_cons, bind_eq_ok]

theorem foldlM_invariant (inv : α → Prop) (run : items.foldlM step state = .ok state') (holds : inv state)
    (keep : ∀ {state item state'}, item ∈ items → inv state → step state item = .ok state' → inv state') : inv state' := by
  induction items generalizing state with
  | nil => exact foldlM_nil_eq_ok.mp run ▸ holds
  | cons _ _ ih =>
    obtain ⟨_, first, rest⟩ := foldlM_cons_eq_ok.mp run
    exact ih rest (keep List.mem_cons_self holds first)
      fun member holds turn => keep (List.mem_cons_of_mem _ member) holds turn

theorem foldlM_forall {P : β → Prop} (run : items.foldlM step state = .ok state')
    (turn : ∀ {state item state'}, step state item = .ok state' → P item) : ∀ item ∈ items, P item := by
  induction items generalizing state with
  | nil => simp
  | cons _ _ ih =>
    obtain ⟨_, first, rest⟩ := foldlM_cons_eq_ok.mp run
    exact List.forall_mem_cons.mpr ⟨turn first, ih rest⟩

theorem foldlM_mono {step' : α → β → Outcome α} (run : items.foldlM step state = .ok state')
    (turn : ∀ {state item state'}, step state item = .ok state' → step' state item = .ok state') :
    items.foldlM step' state = .ok state' := by
  induction items generalizing state with
  | nil => exact run
  | cons _ _ ih =>
    obtain ⟨middle, first, rest⟩ := foldlM_cons_eq_ok.mp run
    exact foldlM_cons_eq_ok.mpr ⟨middle, turn first, ih rest⟩

end

theorem mapM_eq_ok_of_forall {γ : Type} {f : α → Outcome β} {encode : γ → α} {items : List γ} {decode : γ → β}
    (reads : ∀ item ∈ items, f (encode item) = .ok (decode item)) :
    (items.map encode).mapM f = .ok (items.map decode) := by
  induction items with
  | nil => rfl
  | cons _ _ ih =>
    obtain ⟨first, rest⟩ := List.forall_mem_cons.mp reads
    rw [List.map_cons, List.mapM_cons, first, ok_bind, ih rest]
    rfl

theorem mapM_mono {f g : α → Outcome β} {items : List α} {results : List β} (run : items.mapM f = .ok results)
    (le : ∀ item result, f item = .ok result → g item = .ok result) : items.mapM g = .ok results := by
  induction items generalizing results with
  | nil => exact run
  | cons item _ ih =>
    rw [List.mapM_cons] at run ⊢
    obtain ⟨result, first, run⟩ := bind_eq_ok.mp run
    obtain ⟨_, run, done⟩ := bind_eq_ok.mp run
    rw [le item result first, ok_bind, ih run, ok_bind]
    exact done

end Outcome

def Returns {α : Type} : Outcome α → Prop
  | .error (.panic _) => False
  | _ => True

def Fails {α : Type} (result : Outcome α) : Prop := ∃ text, result = .error (.error text)

namespace Fails

variable {α β : Type}

theorem bind_iff {result : Outcome α} {next : α → Outcome β} :
    Fails (result >>= next) ↔ Fails result ∨ ∃ middle, result = .ok middle ∧ Fails (next middle) := by
  cases result with
  | error _ => simp [Fails]
  | ok _ => simp [Fails]

theorem orFail_iff {text : String} {found : Option α} : Fails (Outcome.orFail text found) ↔ found = none := by
  cases found <;> simp [Fails, Outcome.orFail, Outcome.fail]

@[simp] theorem not_ok (value : α) : ¬ Fails (.ok value) := by simp [Fails]

@[simp] theorem not_crash (text : String) : ¬ Fails (Outcome.crash text : Outcome α) := by simp [Fails, Outcome.crash]

theorem iff_of_returns {result : Outcome α} (returns : Returns result) : Fails result ↔ ∀ value, result ≠ .ok value := by
  match result with
  | .ok _ => simp
  | .error (.error text) => simp [Fails]
  | .error (.panic text) => exact returns.elim

end Fails

end Go
