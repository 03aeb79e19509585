import Mathlib.Data.List.FinRange
import Mathlib.Logic.Function.Basic

/-! # Path-compressed tries

Tries over an alphabet of `n` symbols in which a path without branches is a single node: lookup, insertion, deletion and
the steps they are made of. -/

namespace Patricia

open List

section

variable {α : Type} [DecidableEq α]

def commonLength : List α → List α → Nat
  | a :: as, b :: bs => if a = b then commonLength as bs + 1 else 0
  | _, _ => 0

/-- How a key relates to a path: it runs along the whole path, it leaves the path, or it ends on it. -/
inductive Compared : List α → List α → Prop
  | along (path rest : List α) : Compared (path ++ rest) path
  | leaves (front : List α) {a b : α} (rest rest' : List α) :
      a ≠ b → Compared (front ++ a :: rest) (front ++ b :: rest')
  | ends (key : List α) (b : α) (rest : List α) : Compared key (key ++ b :: rest)

theorem compared (key path : List α) : Compared key path := by
  induction key generalizing path with
  | nil =>
    cases path with
    | nil => exact .along [] []
    | cons b path => exact .ends [] b path
  | cons a key ih =>
    cases path with
    | nil => exact .along [] (a :: key)
    | cons b path =>
      by_cases same : a = b
      · subst same
        cases ih path with
        | along path rest => exact .along (a :: path) rest
        | leaves front rest rest' differ => exact .leaves (a :: front) rest rest' differ
        | ends key b rest => exact .ends (a :: key) b rest
      · exact .leaves [] key path same

theorem commonLength_append (path rest : List α) : commonLength (path ++ rest) path = path.length := by
  induction path with
  | nil => cases rest <;> rfl
  | cons _ _ ih => simp [commonLength, ih]

theorem commonLength_longer (key rest : List α) : commonLength key (key ++ rest) = key.length := by
  induction key with
  | nil => cases rest <;> rfl
  | cons _ _ ih => simp [commonLength, ih]

theorem commonLength_leaves (front : List α) {a b : α} (rest rest' : List α) (differ : a ≠ b) :
    commonLength (front ++ a :: rest) (front ++ b :: rest') = front.length := by
  induction front with
  | nil => simp [commonLength, differ]
  | cons _ _ ih => simp [commonLength, ih]

theorem commonLength_lt {key path : List α} (other : ¬ path <+: key) : commonLength key path < path.length := by
  cases compared key path with
  | along _ _ => exact absurd (prefix_append _ _) other
  | leaves front rest rest' differ => simp [commonLength_leaves front rest rest' differ]
  | ends _ _ _ => simp [commonLength_longer]

end

inductive Tree (n : Nat) (β : Type) where
  | nil
  | value (b : β)
  | short (key : List (Fin n)) (val : Tree n β)
  | full (children : Fin n → Tree n β)

namespace Tree

variable {n : Nat} {β : Type}

def isNil : Tree n β → Bool
  | nil => true
  | _ => false

theorem isNil_iff {t : Tree n β} : t.isNil = true ↔ t = nil := by
  cases t <;> simp [isNil]

def lookup : Tree n β → List (Fin n) → Option β
  | nil, _ => none
  | value b, [] => some b
  | value _, _ :: _ => none
  | short path t, key => if path <+: key then t.lookup (key.drop path.length) else none
  | full _, [] => none
  | full children, a :: key => (children a).lookup key

def extend (path : List (Fin n)) (t : Tree n β) : Tree n β := if path = [] then t else short path t

def join (path : List (Fin n)) : Tree n β → Tree n β
  | short path' t => short (path ++ path') t
  | t => short path t

def fork (a : Fin n) (t : Tree n β) (b : Fin n) (t' : Tree n β) : Tree n β :=
  full (Function.update (Function.update (fun _ => nil) b t') a t)

def insert : Tree n β → List (Fin n) → Tree n β → Tree n β
  | _, [], v => v
  | nil, a :: key, v => short (a :: key) v
  | value b, _ :: _, _ => value b
  | short path t, a :: key, v =>
    let common := commonLength (a :: key) path
    match (a :: key).drop common, path.drop common with
    | rest, [] => short path (t.insert rest v)
    | c :: rest, b :: path' => extend ((a :: key).take common) (fork c (extend rest v) b (extend path' t))
    | [], _ :: _ => short path t
  | full children, a :: key, v => full (Function.update children a ((children a).insert key v))

def only (children : Fin n → Tree n β) : Option (Fin n) :=
  match (List.finRange n).filter fun i => !(children i).isNil with
  | [i] => some i
  | _ => none

def collapse (children : Fin n → Tree n β) : Tree n β :=
  match only children with
  | some i => join [i] (children i)
  | none => full children

def delete : Tree n β → List (Fin n) → Tree n β
  | nil, _ => nil
  | value _, _ => nil
  | short path t, key =>
    let common := commonLength key path
    if common < path.length then short path t
    else if common = key.length then nil
    else join path (t.delete (key.drop path.length))
  | full children, [] => full children
  | full children, a :: key => collapse (Function.update children a ((children a).delete key))

section

variable {path key : List (Fin n)} {t : Tree n β} {children : Fin n → Tree n β}

@[simp] theorem lookup_nil (key : List (Fin n)) : (nil : Tree n β).lookup key = none := rfl

@[simp] theorem lookup_short_append (path key : List (Fin n)) (t : Tree n β) :
    (short path t).lookup (path ++ key) = t.lookup key := by
  simp [lookup]

theorem lookup_short_append_append (front path key : List (Fin n)) (t : Tree n β) :
    (short (front ++ path) t).lookup (front ++ key) = (short path t).lookup key := by
  simp only [lookup, prefix_append_right_inj, length_append, ← drop_drop, drop_left]

theorem lookup_short_value (path key : List (Fin n)) (b : β) :
    (short path (value b)).lookup key = if key = path then some b else none := by
  by_cases under : path <+: key
  · obtain ⟨rest, rfl⟩ := under
    rw [lookup_short_append]
    cases rest with
    | nil => simp [lookup]
    | cons _ _ => simp [lookup]
  · rw [lookup, if_neg under, if_neg]
    rintro rfl
    exact under prefix_rfl

theorem lookup_short_beside (other : ¬ path <+: key) : (short path t).lookup key = none := by
  simp [lookup, other]

@[simp] theorem lookup_full_cons (a : Fin n) (key : List (Fin n)) :
    (full children).lookup (a :: key) = (children a).lookup key := rfl

theorem lookup_short_nil (t : Tree n β) : (short [] t).lookup = t.lookup := by
  funext key
  exact lookup_short_append [] key t

theorem lookup_extend (path : List (Fin n)) (t : Tree n β) : (extend path t).lookup = (short path t).lookup := by
  unfold extend
  split_ifs with empty
  · subst empty
    exact (lookup_short_nil t).symm
  · rfl

theorem lookup_join (path : List (Fin n)) (t : Tree n β) : (join path t).lookup = (short path t).lookup := by
  cases t with
  | short _ _ =>
    funext key
    simp only [join, lookup]
    by_cases under : path <+: key
    · obtain ⟨_, rfl⟩ := under
      simp [prefix_append_right_inj]
    · rw [if_neg under, if_neg fun longer => under ((prefix_append _ _).trans longer)]
  | _ => rfl

end

section

variable {children : Fin n → Tree n β} {i : Fin n}

theorem only_eq_some (alone : only children = some i) : children i ≠ nil ∧ ∀ j, children j ≠ nil → j = i := by
  unfold only at alone
  split at alone
  · rename_i k listed
    obtain rfl := Option.some.inj alone
    have members (j : Fin n) : children j ≠ nil ↔ j = k := by
      have member : j ∈ (finRange n).filter (fun i => !(children i).isNil) ↔ j = k := by simp [listed]
      simpa [← isNil_iff] using member
    exact ⟨(members k).mpr rfl, fun j => (members j).mp⟩
  · cases alone

theorem only_eq_none (several : only children = none) (some : children i ≠ nil) : ∃ j, j ≠ i ∧ children j ≠ nil := by
  by_contra alone
  push Not at alone
  have listed : (finRange n).filter (fun i => !(children i).isNil) = [i] := by
    have members (j : Fin n) : (!(children j).isNil) = decide (j = i) := by
      by_cases same : j = i
      · simpa [same, ← isNil_iff] using some
      · simpa [same, isNil_iff] using alone j same
    simp only [members]
    rw [filter_eq, count_eq_one_of_mem (nodup_finRange n) (mem_finRange i)]
    rfl
  simp [only, listed] at several

theorem lookup_collapse (children : Fin n → Tree n β) : (collapse children).lookup = (full children).lookup := by
  unfold collapse
  split
  · rename_i i alone
    obtain ⟨_, others⟩ := only_eq_some alone
    rw [lookup_join]
    funext key
    cases key with
    | nil => rfl
    | cons a key =>
      by_cases same : a = i
      · subst same
        exact lookup_short_append [a] key (children a)
      · have absent : children a = nil := not_not.mp (mt (others a) same)
        rw [lookup_short_beside (by simpa using Ne.symm same), lookup_full_cons, absent]
        rfl
  · rfl

end

section

variable {path key rest : List (Fin n)} {t v : Tree n β} {a b : Fin n}

@[simp] theorem insert_nil_key (t v : Tree n β) : t.insert [] v = v := by
  cases t <;> rfl

theorem insert_nil (key : List (Fin n)) (v : Tree n β) : (nil : Tree n β).insert key v = extend key v := by
  cases key <;> rfl

theorem insert_along (nonempty : path ≠ []) : (short path t).insert (path ++ rest) v = short path (t.insert rest v) := by
  obtain ⟨a, path, rfl⟩ := exists_cons_of_ne_nil nonempty
  have common := commonLength_append (a :: path) rest
  simp only [cons_append] at common ⊢
  simp [insert, common]

theorem insert_leaves (front path' : List (Fin n)) (differ : a ≠ b) :
    (short (front ++ b :: path') t).insert (front ++ a :: rest) v =
      extend front (fork a (extend rest v) b (extend path' t)) := by
  have common := commonLength_leaves front rest path' differ
  cases front with
  | nil =>
    simp only [nil_append, length_nil] at common ⊢
    simp [insert, common]
  | cons _ _ =>
    simp only [cons_append] at common ⊢
    simp [insert, common]

theorem delete_whole (path : List (Fin n)) (t : Tree n β) : (short path t).delete path = nil := by
  have common := commonLength_append path []
  rw [append_nil] at common
  simp [delete, common]

theorem delete_along : (short path t).delete (path ++ a :: rest) = join path (t.delete (a :: rest)) := by
  simp [delete, commonLength_append]

theorem delete_beside (other : ¬ path <+: key) : (short path t).delete key = short path t := by
  simp [delete, commonLength_lt other]

end

section

variable {stop a : Fin n} {front key rest : List (Fin n)}

def Terminated (stop : Fin n) (key : List (Fin n)) : Prop := ∃ front, stop ∉ front ∧ key = front ++ [stop]

theorem Terminated.ne_nil (ends : Terminated stop key) : key ≠ [] := by
  obtain ⟨_, _, rfl⟩ := ends
  simp

theorem terminated_cons : Terminated stop (a :: key) ↔ a = stop ∧ key = [] ∨ a ≠ stop ∧ Terminated stop key := by
  constructor
  · rintro ⟨front, absent, same⟩
    cases front with
    | nil =>
      simp only [nil_append, List.cons.injEq] at same
      exact .inl same
    | cons _ front =>
      simp only [cons_append, List.cons.injEq] at same
      simp only [mem_cons, not_or] at absent
      obtain ⟨rfl, rfl⟩ := same
      exact .inr ⟨Ne.symm absent.1, front, absent.2, rfl⟩
  · rintro (⟨rfl, rfl⟩ | ⟨other, front, absent, rfl⟩)
    · exact ⟨[], by simp, rfl⟩
    · exact ⟨a :: front, by simp [absent, Ne.symm other], rfl⟩

theorem terminated_append (absent : stop ∉ front) : Terminated stop (front ++ rest) ↔ Terminated stop rest := by
  induction front with
  | nil => rfl
  | cons a _ ih =>
    simp only [mem_cons, not_or] at absent
    have other : a ≠ stop := Ne.symm absent.1
    simp [terminated_cons, ih absent.2, other]

theorem Terminated.of_append (ends : Terminated stop (front ++ a :: rest)) :
    stop ∉ front ∧ Terminated stop (a :: rest) := by
  induction front with
  | nil => exact ⟨not_mem_nil, ends⟩
  | cons _ _ ih =>
    rcases terminated_cons.mp ends with ⟨-, empty⟩ | ⟨other, ends⟩
    · simp at empty
    · exact ⟨by simp [Ne.symm other, (ih ends).1], (ih ends).2⟩

theorem Terminated.rest_eq_nil (absent : stop ∉ front) (ends : Terminated stop (front ++ [stop] ++ rest)) :
    rest = [] := by
  rw [append_assoc, terminated_append absent, cons_append, terminated_cons] at ends
  simpa using ends

end

end Tree

end Patricia
