import Mathlib.Data.List.Nodup

/-! # Merkle trees with a last node that is paired with itself

A list is hashed pairwise until one node is left; at an odd level the last node is its own partner. -/

namespace Merkle

open List

variable {δ : Type} (node : δ → δ → δ)

def pairs : List δ → List (δ × δ)
  | left :: right :: rest => (left, right) :: pairs rest
  | [single] => [(single, single)]
  | [] => []

def up (nodes : List δ) : List δ := (pairs nodes).map fun pair => node pair.1 pair.2

def root : Nat → List δ → Option δ
  | _, [node] => some node
  | levels + 1, nodes => root levels (up node nodes)
  | 0, _ => none

def hashed : Nat → List δ → List (δ × δ)
  | _, [_] => []
  | levels + 1, nodes => pairs nodes ++ hashed levels (up node nodes)
  | 0, _ => []

theorem map_fst_pairs (nodes : List δ) : ((pairs nodes).map Prod.fst).Sublist nodes := by
  fun_induction pairs nodes with
  | case1 left right _ ih => exact (ih.cons right).cons_cons left
  | case2 _ => simp
  | case3 => simp

variable {nodes : List δ}

variable {pair : δ × δ}

theorem mem_of_mem_pairs (member : pair ∈ pairs nodes) : pair.1 ∈ nodes :=
  (map_fst_pairs nodes).subset (mem_map_of_mem member)

theorem nodup_pairs (distinct : nodes.Nodup) : (pairs nodes).Nodup :=
  .of_map Prod.fst (distinct.sublist (map_fst_pairs nodes))

theorem pairs_inj {nodes nodes' : List δ} (distinct : nodes.Nodup) (distinct' : nodes'.Nodup)
    (same : pairs nodes = pairs nodes') : nodes = nodes' := by
  fun_induction pairs nodes generalizing nodes' with
  | case1 _ _ _ ih =>
    match nodes' with
    | left' :: right' :: rest' =>
      simp only [pairs, cons.injEq, Prod.mk.injEq] at same
      obtain ⟨⟨rfl, rfl⟩, same⟩ := same
      rw [ih distinct.of_cons.of_cons distinct'.of_cons.of_cons same]
    | [single] =>
      simp only [pairs, cons.injEq, Prod.mk.injEq] at same
      simp [same.1] at distinct
    | [] => simp [pairs] at same
  | case2 _ =>
    match nodes' with
    | left' :: right' :: rest' =>
      simp only [pairs, cons.injEq, Prod.mk.injEq] at same
      simp [← same.1] at distinct'
    | [single'] =>
      simp only [pairs, cons.injEq, Prod.mk.injEq] at same
      rw [same.1.1]
    | [] => simp [pairs] at same
  | case3 =>
    match nodes' with
    | left' :: right' :: rest' => simp [pairs] at same
    | [single'] => simp [pairs] at same
    | [] => rfl

variable {node}

theorem map_inj_on {α β : Type} {f : α → β} {items items' : List α}
    (injective : ∀ x ∈ items, ∀ y ∈ items', f x = f y → x = y) (same : items.map f = items'.map f) : items = items' := by
  induction items generalizing items' with
  | nil => exact (map_eq_nil_iff.mp same.symm).symm
  | cons item _ ih =>
    cases items' with
    | nil => simp at same
    | cons item' _ =>
      simp only [map_cons, List.cons.injEq] at same
      rw [injective item mem_cons_self item' mem_cons_self same.1,
        ih (fun x member y member' => injective x (.tail _ member) y (.tail _ member')) same.2]

variable {levels : Nat}

theorem root_mem {top : δ} (found : root node levels nodes = some top) :
    nodes = [top] ∨ ∃ pair ∈ hashed node levels nodes, node pair.1 pair.2 = top := by
  induction levels generalizing nodes with
  | zero =>
    match nodes with
    | [single] => simp_all [root]
    | [] | _ :: _ :: _ => simp [root] at found
  | succ _ ih =>
    match nodes with
    | [single] => simp_all [root]
    | [] =>
      rcases @ih [] found with same | ⟨pair, member, eq⟩
      · simp at same
      · exact .inr ⟨pair, member, eq⟩
    | left :: right :: rest =>
      right
      rcases @ih (up node (left :: right :: rest)) found with single | ⟨pair, member, eq⟩
      · refine ⟨(left, right), mem_append_left _ mem_cons_self, ?_⟩
        simp only [up, pairs, map_cons, cons.injEq] at single
        exact single.1
      · exact ⟨pair, mem_append_right _ member, eq⟩

/-- On the pairs that occur for the two lists, hashing is injective, and it does not yield a listed node. -/
structure Apart (node : δ → δ → δ) (nodes nodes' : List δ) (occurring : δ × δ → Prop) : Prop where
  injective : ∀ pair, occurring pair → ∀ pair', occurring pair' → node pair.1 pair.2 = node pair'.1 pair'.2 → pair = pair'
  listed : ∀ x, x ∈ nodes ∨ x ∈ nodes' → ∀ pair, occurring pair → x ≠ node pair.1 pair.2

theorem fst_of_mem_hashed (member : pair ∈ hashed node levels nodes) :
    pair.1 ∈ nodes ∨ ∃ lower ∈ hashed node levels nodes, pair.1 = node lower.1 lower.2 := by
  induction levels generalizing nodes with
  | zero =>
    match nodes with
    | [] | [_] | _ :: _ :: _ => simp [hashed] at member
  | succ _ ih =>
    match nodes with
    | [_] => simp [hashed] at member
    | [] =>
      rcases @ih [] member with listed | ⟨lower, member, eq⟩
      · simp at listed
      · exact .inr ⟨lower, member, eq⟩
    | left :: right :: rest =>
      rcases mem_append.mp member with here | above
      · exact .inl (mem_of_mem_pairs here)
      · right
        rcases ih above with listed | ⟨lower, member, eq⟩
        · obtain ⟨lower, member, eq⟩ := mem_map.mp listed
          exact ⟨lower, mem_append_left _ member, eq.symm⟩
        · exact ⟨lower, mem_append_right _ member, eq⟩

theorem hashed_succ (several : ∀ single, nodes ≠ [single]) :
    root node (levels + 1) nodes = root node levels (up node nodes) ∧
      hashed node (levels + 1) nodes = pairs nodes ++ hashed node levels (up node nodes) := by
  match nodes with
  | [single] => exact absurd rfl (several single)
  | [] | _ :: _ :: _ => exact ⟨rfl, rfl⟩

def Higher (node : δ → δ → δ) (occurring : δ × δ → Prop) (pair : δ × δ) : Prop :=
  occurring pair ∧ ∃ lower, occurring lower ∧ pair.1 = node lower.1 lower.2

variable {occurring : δ × δ → Prop}

theorem higher_of_mem (occurs : ∀ pair, pair ∈ pairs nodes ∨ pair ∈ hashed node levels (up node nodes) → occurring pair)
    (member : pair ∈ hashed node levels (up node nodes)) : Higher node occurring pair := by
  refine ⟨occurs pair (.inr member), ?_⟩
  rcases fst_of_mem_hashed member with listed | ⟨lower, member, eq⟩
  · obtain ⟨lower, member, eq⟩ := mem_map.mp listed
    exact ⟨lower, occurs lower (.inl member), eq.symm⟩
  · exact ⟨lower, occurs lower (.inr member), eq⟩

namespace Apart

variable {nodes nodes' : List δ} {occurring : δ × δ → Prop}

theorem nodup_up {items : List δ} (apart : Apart node nodes nodes' occurring) (distinct : items.Nodup)
    (known : ∀ pair ∈ pairs items, occurring pair) : (up node items).Nodup :=
  (nodup_pairs distinct).map_on fun pair member pair' member' =>
    apart.injective pair (known pair member) pair' (known pair' member')

theorem up (apart : Apart node nodes nodes' occurring)
    (known : ∀ pair, pair ∈ pairs nodes ∨ pair ∈ pairs nodes' → occurring pair) :
    Apart node (Merkle.up node nodes) (Merkle.up node nodes') (Higher node occurring) := by
  refine ⟨?_, ?_⟩
  · rintro pair ⟨occurs, -⟩ pair' ⟨occurs', -⟩
    exact apart.injective pair occurs pair' occurs'
  · rintro x listed pair ⟨occurs, lower, occursLower, eq⟩ rfl
    obtain ⟨origin, occursOrigin, low, same⟩ : ∃ origin : δ × δ, occurring origin ∧
        (origin.1 ∈ nodes ∨ origin.1 ∈ nodes') ∧ node origin.1 origin.2 = node pair.1 pair.2 := by
      rcases listed with listed | listed <;> obtain ⟨origin, member, same⟩ := mem_map.mp listed
      · exact ⟨origin, known origin (.inl member), .inl (mem_of_mem_pairs member), same⟩
      · exact ⟨origin, known origin (.inr member), .inr (mem_of_mem_pairs member), same⟩
    obtain rfl := apart.injective origin occursOrigin pair occurs same
    exact apart.listed _ low lower occursLower eq

end Apart

theorem eq_of_root {levels levels' : Nat} {nodes nodes' : List δ} {top : δ}
    (found : root node levels nodes = some top) (found' : root node levels' nodes' = some top)
    (distinct : nodes.Nodup) (distinct' : nodes'.Nodup)
    (occurs : ∀ pair, pair ∈ hashed node levels nodes ∨ pair ∈ hashed node levels' nodes' → occurring pair)
    (apart : Apart node nodes nodes' occurring) : nodes = nodes' := by
  induction levels generalizing levels' nodes nodes' occurring with
  | zero =>
    rcases root_mem found with rfl | ⟨pair, member, -⟩
    · rcases root_mem found' with same | ⟨pair, member, eq⟩
      · exact same.symm
      · exact absurd eq.symm (apart.listed top (.inl mem_cons_self) pair (occurs pair (.inr member)))
    · match nodes with
      | [] | [_] | _ :: _ :: _ => simp [hashed] at member
  | succ levels ih =>
    rcases root_mem found with rfl | ⟨pair, member, eq⟩
    · rcases root_mem found' with same | ⟨pair, member, eq⟩
      · exact same.symm
      · exact absurd eq.symm (apart.listed top (.inl mem_cons_self) pair (occurs pair (.inr member)))
    · rcases root_mem found' with rfl | ⟨pair', member', -⟩
      · exact absurd eq.symm (apart.listed top (.inr mem_cons_self) pair (occurs pair (.inl member)))
      · -- both lists go up one level
        have several : ∀ single, nodes ≠ [single] := by
          rintro single rfl
          simp [hashed] at member
        have several' : ∀ single, nodes' ≠ [single] := by
          rintro single rfl
          simp [hashed] at member'
        obtain ⟨levels', rfl⟩ : ∃ n, levels' = n + 1 := by
          match levels', nodes' with
          | 0, [] | 0, [_] | 0, _ :: _ :: _ => simp [hashed] at member'
          | n + 1, _ => exact ⟨n, rfl⟩
        obtain ⟨step, hashes⟩ := @hashed_succ δ node nodes levels several
        obtain ⟨step', hashes'⟩ := @hashed_succ δ node nodes' levels' several'
        rw [step] at found
        rw [step'] at found'
        simp only [hashes, hashes', mem_append] at occurs
        have here {pair : δ × δ} (member : pair ∈ pairs nodes) : occurring pair := occurs pair (.inl (.inl member))
        have here' {pair : δ × δ} (member : pair ∈ pairs nodes') : occurring pair := occurs pair (.inr (.inl member))
        have above : ∀ pair, pair ∈ hashed node levels (up node nodes) ∨ pair ∈ hashed node levels' (up node nodes') →
            Higher node occurring pair := by
          rintro pair (member | member)
          · exact higher_of_mem (fun lower => occurs lower ∘ .inl) member
          · exact higher_of_mem (fun lower => occurs lower ∘ .inr) member
        have level : up node nodes = up node nodes' :=
          ih found found' (apart.nodup_up distinct fun _ => here) (apart.nodup_up distinct' fun _ => here') above
            (apart.up fun _ known => known.elim here here')
        exact pairs_inj distinct distinct' (map_inj_on (fun pair member pair' member' =>
          apart.injective pair (here member) pair' (here' member')) level)

end Merkle
