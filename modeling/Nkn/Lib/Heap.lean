import Mathlib.Data.List.Basic

/-! # Binary heaps on slices

The operations of Go's `container/heap` on the cells of a slice. -/

namespace Heap

variable {α : Type} (less : α → α → Bool)

variable (cells : List α)

def swap (i j : Nat) : List α :=
  match cells[i]?, cells[j]? with
  | some a, some b => (cells.set i b).set j a
  | _, _ => cells

def lessAt (i j : Nat) : Bool :=
  match cells[i]?, cells[j]? with
  | some a, some b => less a b
  | _, _ => false

def child (n i : Nat) : Nat :=
  if 2 * i + 2 < n ∧ lessAt less cells (2 * i + 2) (2 * i + 1) = true then 2 * i + 2 else 2 * i + 1

/-- `down`: the cell at `i` sinks among the first `n` cells, in at most `fuel` moves. -/
def down (n : Nat) : Nat → Nat → List α → List α
  | 0, _, cells => cells
  | fuel + 1, i, cells =>
    let j := child less cells n i
    if j ≥ n ∨ lessAt less cells j i = false then cells else down n fuel j (swap cells i j)

def up : Nat → Nat → List α → List α
  | 0, _, cells => cells
  | fuel + 1, j, cells =>
    let i := (j - 1) / 2
    if i = j ∨ lessAt less cells j i = false then cells else up fuel i (swap cells i j)

def init : List α :=
  (List.range (cells.length / 2)).reverse.foldl (fun cells i => down less cells.length cells.length i cells) cells

def popped : List α :=
  down less (cells.length - 1) cells.length 0 (swap cells 0 (cells.length - 1))

/-- The cells after `Push` of a value, of which the last one is beyond the length of the caller. -/
def pushed (value : α) : List α :=
  (up less (cells.length + 1) cells.length (cells ++ [value])).take cells.length

def push (value : α) : List α := up less (cells.length + 1) cells.length (cells ++ [value])

/-- `Fix` of the cell at `i`: it sinks if a child is less, and rises otherwise. -/
def fix (i : Nat) : List α :=
  if child less cells cells.length i < cells.length ∧ lessAt less cells (child less cells cells.length i) i = true then
    down less cells.length cells.length i cells
  else up less (i + 1) i cells

variable {less}

@[simp] theorem length_swap (cells : List α) (i j : Nat) : (swap cells i j).length = cells.length := by
  unfold swap
  split <;> simp

variable {cells : List α}

theorem getElem?_swap_of_ne {i j k : Nat} (first : k ≠ i) (second : k ≠ j) : (swap cells i j)[k]? = cells[k]? := by
  unfold swap
  split
  · rw [List.getElem?_set_ne (Ne.symm second), List.getElem?_set_ne (Ne.symm first)]
  · rfl

@[simp] theorem length_down (n fuel i : Nat) (cells : List α) : (down less n fuel i cells).length = cells.length := by
  induction fuel generalizing i cells with
  | zero => rfl
  | succ _ ih =>
    simp only [down]
    split_ifs
    · rfl
    · rw [ih, length_swap]

theorem getElem?_down {n fuel i k : Nat} (inside : i < n) (above : n ≤ k) :
    (down less n fuel i cells)[k]? = cells[k]? := by
  induction fuel generalizing i cells with
  | zero => rfl
  | succ _ ih =>
    simp only [down]
    split_ifs with stops
    · rfl
    · have below : child less cells n i < n := by omega
      rw [ih below, getElem?_swap_of_ne (by omega) (by omega)]

@[simp] theorem length_popped (cells : List α) : (popped less cells).length = cells.length := by
  simp [popped]

theorem getLast?_popped (cells : List α) : (popped less cells).getLast? = cells.head? := by
  rw [List.getLast?_eq_getElem?, length_popped]
  match cells with
  | [] => simp [popped, swap, down]
  | [single] => simp [popped, swap, down, child]
  | first :: second :: rest =>
    have inside : 0 < (first :: second :: rest).length - 1 := by simp
    rw [popped, getElem?_down inside (Nat.le_refl _)]
    simp [swap]

variable {value : α}

theorem mem_swap {i j : Nat} (member : value ∈ swap cells i j) : value ∈ cells := by
  unfold swap at member
  split at member
  · rename_i a b first second
    rcases List.mem_or_eq_of_mem_set member with member | rfl
    · rcases List.mem_or_eq_of_mem_set member with member | rfl
      · exact member
      · exact List.mem_of_getElem? second
    · exact List.mem_of_getElem? first
  · exact member

variable {fuel j : Nat}

theorem mem_up (member : value ∈ up less fuel j cells) : value ∈ cells := by
  induction fuel generalizing j cells with
  | zero => exact member
  | succ _ ih =>
    simp only [up] at member
    split_ifs at member
    · exact member
    · exact mem_swap (ih member)

theorem getElem?_swap {i j : Nat} {a b : α} (first : cells[i]? = some a) (second : cells[j]? = some b) :
    (swap cells i j)[i]? = some b ∧ (swap cells i j)[j]? = some a := by
  obtain ⟨inside, -⟩ := List.getElem?_eq_some_iff.mp first
  obtain ⟨inside', -⟩ := List.getElem?_eq_some_iff.mp second
  have swapped : swap cells i j = (cells.set i b).set j a := by simp [swap, first, second]
  rw [swapped]
  constructor
  · by_cases same : j = i
    · subst same
      obtain rfl := Option.some.inj (first.symm.trans second)
      simp [inside]
    · rw [List.getElem?_set_ne same, List.getElem?_set_self inside]
  · rw [List.getElem?_set_self (by simpa using inside')]

theorem head_up_of_not_less {root value : α} (first : cells[0]? = some root)
    (here : cells[j]? = some value) (above : less value root = false) (inside : j ≠ 0) :
    (up less fuel j cells)[0]? = some root := by
  induction fuel generalizing j cells with
  | zero => exact first
  | succ _ ih =>
    simp only [up]
    split_ifs with stops
    · exact first
    · -- the parent is not the first cell, which would not be passed
      have parent : (j - 1) / 2 ≠ 0 := by
        intro zero
        refine stops (.inr ?_)
        simp [zero, lessAt, here, first, above]
      obtain ⟨-, _⟩ : (j - 1) / 2 ≠ j ∧ _ := not_or.mp stops
      obtain ⟨other, there⟩ : ∃ other, cells[(j - 1) / 2]? = some other := by
        obtain ⟨_, -⟩ := List.getElem?_eq_some_iff.mp here
        exact ⟨_, List.getElem?_eq_getElem (by omega)⟩
      refine ih ?_ (getElem?_swap there here).1 parent
      rw [getElem?_swap_of_ne (Ne.symm parent) (Ne.symm inside), first]

theorem head_up_of_less (here : cells[j]? = some value)
    (least : ∀ k other, k ≠ j → cells[k]? = some other → less value other = true) (enough : j ≤ fuel) :
    (up less fuel j cells)[0]? = some value := by
  induction fuel generalizing j cells with
  | zero =>
    obtain rfl : j = 0 := by omega
    exact here
  | succ _ ih =>
    simp only [up]
    by_cases top : j = 0
    · subst top
      rw [if_pos (.inl rfl)]
      exact here
    · obtain ⟨_, -⟩ := List.getElem?_eq_some_iff.mp here
      obtain ⟨other, there⟩ : ∃ other, cells[(j - 1) / 2]? = some other := ⟨_, List.getElem?_eq_getElem (by omega)⟩
      have passes := least ((j - 1) / 2) other (by omega) there
      have moves : ¬((j - 1) / 2 = j ∨ lessAt less cells j ((j - 1) / 2) = false) := by
        refine not_or.mpr ⟨by omega, ?_⟩
        simp [lessAt, here, there, passes]
      rw [if_neg moves]
      obtain ⟨risen, left⟩ := getElem?_swap there here
      refine ih risen (fun k other' apart found => ?_) (by omega)
      by_cases old : k = j
      · subst old
        rw [left] at found
        exact Option.some.inj found ▸ passes
      · rw [getElem?_swap_of_ne apart old] at found
        exact least k other' old found

theorem fix_last : fix less cells (cells.length - 1) = up less (cells.length - 1 + 1) (cells.length - 1) cells := by
  refine if_neg fun sinks => ?_
  have below : 2 * (cells.length - 1) + 1 ≤ child less cells cells.length (cells.length - 1) := by
    unfold child
    split_ifs <;> omega
  omega

theorem popped_single (value : α) : popped less [value] = [value] := by simp [popped, swap, down, child]

theorem mem_swap_iff {i j : Nat} : value ∈ swap cells i j ↔ value ∈ cells := by
  refine ⟨mem_swap, fun member => ?_⟩
  obtain ⟨k, found⟩ := List.mem_iff_getElem?.mp member
  cases first : cells[i]? with
  | none => simpa [swap, first] using member
  | some _ =>
    cases second : cells[j]? with
    | none => simpa [swap, first, second] using member
    | some _ =>
      obtain ⟨moved, moved'⟩ := getElem?_swap first second
      by_cases left : k = i
      · subst left
        obtain rfl := Option.some.inj (first.symm.trans found)
        exact List.mem_of_getElem? moved'
      · by_cases right : k = j
        · subst right
          obtain rfl := Option.some.inj (second.symm.trans found)
          exact List.mem_of_getElem? moved
        · rw [← getElem?_swap_of_ne left right] at found
          exact List.mem_of_getElem? found

theorem mem_up_iff : value ∈ up less fuel j cells ↔ value ∈ cells := by
  induction fuel generalizing j cells with
  | zero => rfl
  | succ _ ih =>
    simp only [up]
    split_ifs
    · rfl
    · rw [ih, mem_swap_iff]

theorem mem_down_iff {n fuel i : Nat} : value ∈ down less n fuel i cells ↔ value ∈ cells := by
  induction fuel generalizing i cells with
  | zero => rfl
  | succ _ ih =>
    simp only [down]
    split_ifs
    · rfl
    · rw [ih, mem_swap_iff]

theorem mem_init : value ∈ init less cells ↔ value ∈ cells := by
  unfold init
  generalize (List.range (cells.length / 2)).reverse = positions
  suffices same : ∀ heap : List α, value ∈ positions.foldl (fun cells i => down less cells.length cells.length i cells) heap ↔
      value ∈ heap from same cells
  intro heap
  induction positions generalizing heap with
  | nil => rfl
  | cons _ _ ih => rw [List.foldl_cons, ih, mem_down_iff]

theorem mem_push {value value' : α} : value' ∈ push less cells value ↔ value' ∈ cells ∨ value' = value := by
  rw [push, mem_up_iff]
  simp

theorem mem_popped : value ∈ popped less cells ↔ value ∈ cells := by
  rw [popped, mem_down_iff, mem_swap_iff]

end Heap
