import Nkn.Lib.Patricia

/-! # Canonical tries

When one symbol ends every key, a finite map has exactly one trie without needless nodes: insertion and deletion keep such
tries, and two of them with the same entries are equal. -/

namespace Patricia.Tree

open List Function

variable {n : Nat} {β : Type}

/-- A trie without needless nodes, in which the symbol `stop` ends every key: a path ends in a value or leads to a
branching node, and a branching node has at least two children. -/
inductive Canonical (stop : Fin n) (ok : β → Prop) : Tree n β → Prop
  | leaf {path : List (Fin n)} {b : β} : stop ∉ path → ok b → Canonical stop ok (short (path ++ [stop]) (value b))
  | extension {path : List (Fin n)} {children : Fin n → Tree n β} :
      stop ∉ path → path ≠ [] → Canonical stop ok (full children) → Canonical stop ok (short path (full children))
  | branch {children : Fin n → Tree n β} :
      (∀ i, i ≠ stop → children i ≠ nil → Canonical stop ok (children i)) →
      (children stop ≠ nil → ∃ b, ok b ∧ children stop = value b) →
      (∃ i j, i ≠ j ∧ children i ≠ nil ∧ children j ≠ nil) → Canonical stop ok (full children)

def Rooted (stop : Fin n) (ok : β → Prop) (t : Tree n β) : Prop := t = nil ∨ Canonical stop ok t

namespace Canonical

variable {stop : Fin n} {ok : β → Prop} {t : Tree n β} {key : List (Fin n)}

theorem ne_nil (canonical : Canonical stop ok t) : t ≠ nil := by
  cases canonical <;> simp

theorem occupied (canonical : Canonical stop ok t) : ∃ key b, t.lookup key = some b := by
  induction canonical with
  | @leaf path b absent good => exact ⟨path ++ [stop], b, by simp [lookup_short_value]⟩
  | @extension path children absent nonempty _ ih =>
    obtain ⟨key, b, found⟩ := ih
    exact ⟨path ++ key, b, by rw [lookup_short_append, found]⟩
  | @branch children _ last two ih =>
    obtain ⟨i, _, _, present, _⟩ := two
    by_cases same : i = stop
    · subst same
      obtain ⟨b, _, value⟩ := last present
      exact ⟨[i], b, by simp [value, lookup]⟩
    · obtain ⟨key, b, found⟩ := ih i same present
      exact ⟨i :: key, b, found⟩

variable {children : Fin n → Tree n β}

variable (canonical : Canonical stop ok (full children))

include canonical

theorem occupied_child {i : Fin n}
    (present : children i ≠ nil) : ∃ key b, (full children).lookup (i :: key) = some b := by
  cases canonical with
  | branch below last _ =>
    by_cases same : i = stop
    · subst same
      obtain ⟨b, _, value⟩ := last present
      exact ⟨[], b, by simp [value, lookup]⟩
    · exact (below i same present).occupied

theorem path_shared
    {path path' : List (Fin n)} {t : Tree n β} (same : (short path (full children)).lookup = (short path' t).lookup) :
    path' <+: path := by
  have shared {k : Fin n} (present : children k ≠ nil) : ∃ key, path' <+: path ++ k :: key := by
    obtain ⟨key, _, found⟩ := canonical.occupied_child present
    refine ⟨key, ?_⟩
    by_contra other
    have entry := congrFun same (path ++ k :: key)
    rw [lookup_short_append, found, lookup_short_beside other] at entry
    cases entry
  cases canonical with
  | branch _ _ two =>
    obtain ⟨i, _, differ, atI, atJ⟩ := two
    obtain ⟨key, underI⟩ := shared atI
    obtain ⟨_, underJ⟩ := shared atJ
    rcases prefix_or_prefix_of_prefix underI (prefix_append path (i :: key)) with shorter | ⟨rest, rfl⟩
    · exact shorter
    · -- a longer common path would pass through both symbols
      rw [prefix_append_right_inj] at underI underJ
      cases rest with
      | nil => simp
      | cons _ _ =>
        rw [cons_prefix_cons] at underI underJ
        exact absurd (underI.1.symm.trans underJ.1) differ

theorem not_single (path path' : List (Fin n)) (b : β) :
    (short path' (value b)).lookup ≠ (short path (full children)).lookup := by
  intro same
  have shared {k : Fin n} (present : children k ≠ nil) : ∃ key, path' = path ++ k :: key := by
    obtain ⟨key, _, found⟩ := canonical.occupied_child present
    have entry := congrFun same (path ++ k :: key)
    rw [lookup_short_append, found, lookup_short_value] at entry
    split_ifs at entry with here
    exact ⟨key, here.symm⟩
  cases canonical with
  | branch _ _ two =>
    obtain ⟨_, _, differ, atI, atJ⟩ := two
    obtain ⟨_, atI⟩ := shared atI
    obtain ⟨_, atJ⟩ := shared atJ
    have symbols := append_cancel_left (atI.symm.trans atJ)
    exact differ (cons.inj symbols).1

omit canonical

theorem absent_of_same {children children' : Fin n → Tree n β} (canonical' : Canonical stop ok (full children'))
    (same : (full children).lookup = (full children').lookup) {i : Fin n} (absent : children i = nil) :
    children' i = nil := by
  by_contra present
  obtain ⟨_, _, found⟩ := canonical'.occupied_child present
  rw [← same, lookup_full_cons, absent] at found
  cases found

theorem shape (canonical : Canonical stop ok t) : (∃ path b, t = short path (value b)) ∨
      ∃ path children, Canonical stop ok (full children) ∧ t = extend path (full children) := by
  cases canonical with
  | leaf _ _ => exact .inl ⟨_, _, rfl⟩
  | @extension path children absent nonempty below => exact .inr ⟨path, children, below, by simp [extend, nonempty]⟩
  | @branch children below last two => exact .inr ⟨[], children, .branch below last two, rfl⟩

theorem ext {t t' : Tree n β} (canonical : Canonical stop ok t) (canonical' : Canonical stop ok t')
    (same : t.lookup = t'.lookup) : t = t' := by
  induction canonical generalizing t' with
  | @leaf path b absent good =>
    rcases canonical'.shape with ⟨path', b', rfl⟩ | ⟨path', children', below', rfl⟩
    · have entry := congrFun same (path ++ [stop])
      rw [lookup_short_value, if_pos rfl, lookup_short_value] at entry
      split_ifs at entry with paths
      rw [paths, Option.some.inj entry]
    · rw [lookup_extend] at same
      exact absurd same (below'.not_single path' _ b)
  | @extension path children absent nonempty below ih =>
    rcases canonical'.shape with ⟨path', b', rfl⟩ | ⟨path', children', below', rfl⟩
    · exact absurd same.symm (below.not_single path path' b')
    · rw [lookup_extend] at same
      obtain rfl : path = path' :=
        List.IsPrefix.eq_of_length_le (below'.path_shared same.symm) (below.path_shared same).length_le
      have inner : (full children).lookup = (full children').lookup := by
        funext key
        simpa using congrFun same (path ++ key)
      rw [ih below' inner, extend, if_neg nonempty]
  | @branch children below last two ih =>
    have whole : Canonical stop ok (full children) := .branch below last two
    rcases canonical'.shape with ⟨path', b', rfl⟩ | ⟨path', children', below', rfl⟩
    · rw [← lookup_short_nil (full children)] at same
      exact absurd same.symm (whole.not_single [] path' b')
    · rw [lookup_extend, ← lookup_short_nil (full children)] at same
      obtain rfl : path' = [] := prefix_nil.mp (whole.path_shared same)
      rw [lookup_short_nil, lookup_short_nil] at same
      refine congrArg full (funext fun i => ?_)
      have inner : (children i).lookup = (children' i).lookup := funext fun key => congrFun same (i :: key)
      by_cases absent : children i = nil
      · rw [absent, absent_of_same below' same absent]
      · have present : children' i ≠ nil := mt (absent_of_same whole same.symm) absent
        cases below' with
        | branch inside' last' _ =>
          by_cases atStop : i = stop
          · subst atStop
            obtain ⟨b, _, value⟩ := last absent
            obtain ⟨b', _, value'⟩ := last' present
            rw [value, value'] at inner
            have entry : some b = some b' := congrFun inner []
            rw [value, value', Option.some.inj entry]
          · exact ih i atStop absent (inside' i atStop present) inner

end Canonical

theorem Rooted.ext {stop : Fin n} {ok : β → Prop} {t t' : Tree n β} (rooted : Rooted stop ok t)
    (rooted' : Rooted stop ok t') (same : t.lookup = t'.lookup) : t = t' := by
  rcases rooted with rfl | canonical <;> rcases rooted' with rfl | canonical'
  · rfl
  · obtain ⟨key, b, found⟩ := canonical'.occupied
    rw [← same] at found
    cases found
  · obtain ⟨_, _, found⟩ := canonical.occupied
    rw [same] at found
    cases found
  · exact canonical.ext canonical' same

section

variable {stop a b : Fin n} {ok : β → Prop} {t u : Tree n β} {children : Fin n → Tree n β}
  {path key rest : List (Fin n)} {x : β}

theorem lookup_short_update (path : List (Fin n)) {entry : Option β} (below : u.lookup = update t.lookup rest entry) :
    (short path u).lookup = update (short path t).lookup (path ++ rest) entry := by
  funext key
  by_cases under : path <+: key
  · obtain ⟨key, rfl⟩ := under
    rw [lookup_short_append, below, update_apply, update_apply, lookup_short_append]
    simp
  · have other : key ≠ path ++ rest := by
      rintro rfl
      exact under (prefix_append _ _)
    rw [update_of_ne other, lookup_short_beside under, lookup_short_beside under]

theorem lookup_full_update {entry : Option β} (below : u.lookup = update (children a).lookup rest entry) :
    (full (update children a u)).lookup = update (full children).lookup (a :: rest) entry := by
  funext key
  cases key with
  | nil => simp [lookup]
  | cons c _ =>
    rw [lookup_full_cons, update_apply, update_apply, lookup_full_cons]
    by_cases same : c = a
    · subst same
      simp [below, update_apply]
    · simp [same]

theorem lookup_extend_value (rest : List (Fin n)) (x : β) :
    (extend rest (value x)).lookup = update (nil : Tree n β).lookup rest (some x) := by
  funext key
  rw [lookup_extend, lookup_short_value, update_apply]
  rfl

theorem lookup_leaves (front path' : List (Fin n)) (differ : a ≠ b) :
    (extend front (fork a (extend rest (value x)) b (extend path' t))).lookup =
      update (short (front ++ b :: path') t).lookup (front ++ a :: rest) (some x) := by
  have other : (full (update (fun _ => nil) b (extend path' t))).lookup = (short (b :: path') t).lookup := by
    funext key
    cases key with
    | nil => simp [lookup]
    | cons c key =>
      by_cases same : c = b
      · subst same
        rw [lookup_full_cons, update_self, lookup_extend]
        exact (lookup_short_append_append [c] path' key t).symm
      · rw [lookup_full_cons, update_of_ne same, lookup_short_beside]
        · rfl
        · simpa [cons_prefix_cons] using fun eq => absurd eq.symm same
  have forked : (fork a (extend rest (value x)) b (extend path' t)).lookup =
      update (short (b :: path') t).lookup (a :: rest) (some x) := by
    rw [← other]
    apply lookup_full_update
    rw [lookup_extend_value, update_of_ne differ]
  have joined : (short front (short (b :: path') t)).lookup = (short (front ++ b :: path') t).lookup :=
    (lookup_join front (short (b :: path') t)).symm
  rw [lookup_extend, lookup_short_update front forked, joined]

structure Hangs (stop : Fin n) (ok : β → Prop) (i : Fin n) (t : Tree n β) : Prop where
  last : i = stop → ∃ b, ok b ∧ t = value b
  inner : i ≠ stop → Canonical stop ok t

theorem Hangs.ne_nil {i : Fin n} (hangs : Hangs stop ok i t) : t ≠ nil := by
  by_cases same : i = stop
  · obtain ⟨_, -, rfl⟩ := hangs.last same
    simp
  · exact (hangs.inner same).ne_nil

namespace Canonical

theorem hangs (canonical : Canonical stop ok (full children)) (i : Fin n) (present : children i ≠ nil) :
    Hangs stop ok i (children i) := by
  cases canonical with
  | branch below last _ =>
    refine ⟨?_, fun inner => below i inner present⟩
    rintro rfl
    exact last present

theorem of_hangs (below : ∀ i, children i ≠ nil → Hangs stop ok i (children i))
    (two : ∃ i j, i ≠ j ∧ children i ≠ nil ∧ children j ≠ nil) : Canonical stop ok (full children) :=
  .branch (fun i inner present => (below i present).inner inner) (fun present => (below stop present).last rfl) two

theorem update (canonical : Canonical stop ok (full children)) (replaced : Hangs stop ok a u) :
    Canonical stop ok (full (Function.update children a u)) := by
  have kept {i : Fin n} (present : children i ≠ nil) : Function.update children a u i ≠ nil := by
    by_cases same : i = a
    · subst same
      simpa using replaced.ne_nil
    · simpa [same] using present
  apply of_hangs
  · intro i present
    by_cases same : i = a
    · subst same
      simpa using replaced
    · rw [update_of_ne same] at present ⊢
      exact canonical.hangs i present
  · cases canonical with
    | branch _ _ two =>
      obtain ⟨i, j, differ, atI, atJ⟩ := two
      exact ⟨i, j, differ, kept atI, kept atJ⟩

theorem extend (absent : stop ∉ path) (canonical : Canonical stop ok (full children)) :
    Canonical stop ok (extend path (full children)) := by
  unfold Tree.extend
  split_ifs with empty
  · exact canonical
  · exact .extension absent empty canonical

theorem fork (differ : a ≠ b) (hangs : Hangs stop ok a t) (hangs' : Hangs stop ok b u) :
    ∃ children, Tree.fork a t b u = full children ∧ Canonical stop ok (full children) := by
  refine ⟨_, rfl, of_hangs (fun i present => ?_) ⟨a, b, differ, ?_, ?_⟩⟩
  · by_cases atA : i = a
    · subst atA
      simpa using hangs
    · by_cases atB : i = b
      · subst atB
        simpa [atA] using hangs'
      · simp [atA, atB] at present
  · simpa using hangs.ne_nil
  · simpa [differ.symm] using hangs'.ne_nil

theorem join (absent : stop ∉ path) (nonempty : path ≠ []) (canonical : Canonical stop ok t) :
    Canonical stop ok (join path t) := by
  cases canonical with
  | @leaf path' b absent' good =>
    rw [Tree.join, ← append_assoc]
    exact .leaf (by simp [absent, absent']) good
  | @extension path' children absent' nonempty' below =>
    exact .extension (by simp [absent, absent']) (by simp [nonempty]) below
  | @branch children below last two => exact .extension absent nonempty (.branch below last two)

theorem hangs_leaf (ends : Terminated stop (a :: rest)) (good : ok x) : Hangs stop ok a (Tree.extend rest (value x)) := by
  rcases terminated_cons.mp ends with ⟨rfl, rfl⟩ | ⟨other, _, absent, rfl⟩
  · exact ⟨fun _ => ⟨x, good, rfl⟩, fun differ => absurd rfl differ⟩
  · refine ⟨fun same => absurd same other, fun _ => ?_⟩
    simpa [Tree.extend] using leaf absent good

variable {front path' : List (Fin n)}

theorem hangs_rest (canonical : Canonical stop ok (short (front ++ b :: path') t)) :
    stop ∉ front ∧ Hangs stop ok b (Tree.extend path' t) := by
  generalize whole : front ++ b :: path' = path at canonical
  cases canonical with
  | @leaf path x absent good =>
    have ends : Terminated stop (front ++ b :: path') := ⟨path, absent, whole⟩
    exact ⟨ends.of_append.1, hangs_leaf ends.of_append.2 good⟩
  | @extension path children absent nonempty below =>
    subst whole
    simp only [List.mem_append, List.mem_cons, not_or] at absent
    refine ⟨absent.1, fun same => absurd same.symm absent.2.1, fun _ => ?_⟩
    exact below.extend absent.2.2

theorem leaves (canonical : Canonical stop ok (short (front ++ b :: path') t))
    (differ : a ≠ b) (ends : Terminated stop (front ++ a :: rest)) (good : ok x) :
    Canonical stop ok (Tree.extend front (Tree.fork a (Tree.extend rest (value x)) b (Tree.extend path' t))) := by
  obtain ⟨absent, hangs⟩ := canonical.hangs_rest
  obtain ⟨_, forked, below⟩ := fork differ (hangs_leaf ends.of_append.2 good) hangs
  rw [forked]
  exact below.extend absent

end Canonical

theorem not_ends (ends : Terminated stop key) {path : List (Fin n)}
    (canonical : Canonical stop ok (short (key ++ b :: path) t)) : False := by
  obtain ⟨absent, -⟩ := canonical.hangs_rest
  obtain ⟨_, -, rfl⟩ := ends
  simp at absent

theorem Canonical.insert_spec (canonical : Canonical stop ok t) (ends : Terminated stop key) (good : ok x) :
    Canonical stop ok (t.insert key (value x)) ∧
      (t.insert key (value x)).lookup = Function.update t.lookup key (some x) := by
  induction canonical generalizing key with
  | @leaf path y absent good' =>
    have single : Canonical stop ok (short (path ++ [stop]) (value y)) := .leaf absent good'
    generalize whole : path ++ [stop] = path' at single
    cases compared key path' with
    | along _ _ =>
      subst whole
      obtain rfl := ends.rest_eq_nil absent
      rw [insert_along (by simp), insert_nil_key, List.append_nil]
      refine ⟨.leaf absent good, ?_⟩
      funext key
      simp only [lookup_short_value, Function.update_apply]
      split_ifs <;> rfl
    | leaves front _ rest' differ =>
      rw [insert_leaves front rest' differ]
      exact ⟨single.leaves differ ends good, lookup_leaves front rest' differ⟩
    | ends _ _ _ => exact (not_ends ends single).elim
  | @extension path children absent nonempty below ih =>
    have whole := Canonical.extension absent nonempty below
    cases compared key path with
    | along path rest =>
      rw [terminated_append absent] at ends
      obtain ⟨c, rest, rfl⟩ := List.exists_cons_of_ne_nil ends.ne_nil
      rw [insert_along nonempty]
      obtain ⟨inserted, entries⟩ := ih ends
      exact ⟨.extension absent nonempty inserted, lookup_short_update path entries⟩
    | leaves front _ rest' differ =>
      rw [insert_leaves front rest' differ]
      exact ⟨whole.leaves differ ends good, lookup_leaves front rest' differ⟩
    | ends _ _ _ => exact (not_ends ends whole).elim
  | @branch children below last two ih =>
    have whole : Canonical stop ok (full children) := .branch below last two
    obtain ⟨c, rest, rfl⟩ := List.exists_cons_of_ne_nil ends.ne_nil
    have child : Hangs stop ok c ((children c).insert rest (value x)) ∧
        ((children c).insert rest (value x)).lookup = Function.update (children c).lookup rest (some x) := by
      by_cases absent : children c = nil
      · rw [absent, insert_nil]
        exact ⟨hangs_leaf ends good, lookup_extend_value rest x⟩
      · rcases terminated_cons.mp ends with ⟨rfl, rfl⟩ | ⟨inner, ends⟩
        · obtain ⟨_, -, value⟩ := last absent
          rw [value, insert_nil_key]
          refine ⟨⟨fun _ => ⟨x, good, rfl⟩, fun differ => absurd rfl differ⟩, ?_⟩
          funext key
          cases key <;> simp [lookup]
        · obtain ⟨inserted, entries⟩ := ih c inner absent ends
          exact ⟨⟨fun same => absurd same inner, fun _ => inserted⟩, entries⟩
    exact ⟨whole.update child.1, lookup_full_update child.2⟩

theorem delete_full_ne_nil (children : Fin n → Tree n β) (key : List (Fin n)) : (full children).delete key ≠ nil := by
  cases key with
  | nil => simp [delete]
  | cons _ _ =>
    simp only [delete, collapse]
    split
    · rename_i i _
      unfold join
      split <;> simp
    · simp

theorem collapse_canonical (below : ∀ i, children i ≠ nil → Hangs stop ok i (children i)) (some : children a ≠ nil) :
    Canonical stop ok (collapse children) := by
  unfold collapse
  split
  · rename_i i alone
    have hangs := below i (only_eq_some alone).1
    by_cases same : i = stop
    · obtain ⟨_, good, value⟩ := hangs.last same
      rw [value, same]
      exact Canonical.leaf not_mem_nil good
    · exact (hangs.inner same).join (by simpa using Ne.symm same) (by simp)
  · rename_i several
    obtain ⟨j, differ, present⟩ := only_eq_none several some
    exact .of_hangs below ⟨j, a, differ, present, some⟩

theorem Canonical.delete_beside_spec (whole : Canonical stop ok (short path t)) (other : ¬ path <+: key) :
    Rooted stop ok ((short path t).delete key) ∧
      ((short path t).delete key).lookup = Function.update (short path t).lookup key none := by
  rw [delete_beside other]
  exact ⟨.inr whole, (Function.update_eq_self_iff.mpr (lookup_short_beside other).symm).symm⟩

theorem Canonical.delete_spec (canonical : Canonical stop ok t) (ends : Terminated stop key) :
    Rooted stop ok (t.delete key) ∧ (t.delete key).lookup = Function.update t.lookup key none := by
  induction canonical generalizing key with
  | @leaf path x absent good =>
    by_cases under : path ++ [stop] <+: key
    · obtain ⟨rest, rfl⟩ := under
      obtain rfl := ends.rest_eq_nil absent
      rw [List.append_nil, delete_whole]
      refine ⟨.inl rfl, ?_⟩
      funext key
      simp only [lookup_short_value, Function.update_apply, lookup_nil]
      split_ifs <;> rfl
    · exact (Canonical.leaf absent good).delete_beside_spec under
  | @extension path children absent nonempty below ih =>
    by_cases under : path <+: key
    · obtain ⟨rest, rfl⟩ := under
      rw [terminated_append absent] at ends
      obtain ⟨deleted, entries⟩ := ih ends
      obtain ⟨c, rest, rfl⟩ := List.exists_cons_of_ne_nil ends.ne_nil
      rw [delete_along, lookup_join]
      have remains := deleted.resolve_left (delete_full_ne_nil children (c :: rest))
      exact ⟨.inr (remains.join absent nonempty), lookup_short_update path entries⟩
    · exact (Canonical.extension absent nonempty below).delete_beside_spec under
  | @branch children below last two ih =>
    have whole : Canonical stop ok (full children) := .branch below last two
    obtain ⟨c, rest, rfl⟩ := List.exists_cons_of_ne_nil ends.ne_nil
    have child : ((children c).delete rest ≠ nil → Hangs stop ok c ((children c).delete rest)) ∧
        ((children c).delete rest).lookup = Function.update (children c).lookup rest none := by
      by_cases absent : children c = nil
      · rw [absent]
        refine ⟨fun present => absurd rfl present, ?_⟩
        exact (Function.update_eq_self_iff.mpr rfl).symm
      · rcases terminated_cons.mp ends with ⟨rfl, rfl⟩ | ⟨inner, ends⟩
        · obtain ⟨_, -, value⟩ := last absent
          rw [value]
          refine ⟨fun present => absurd rfl present, ?_⟩
          funext key
          cases key <;> simp [lookup, delete]
        · obtain ⟨deleted, entries⟩ := ih c inner absent ends
          exact ⟨fun present => ⟨fun same => absurd same inner, fun _ => deleted.resolve_left present⟩, entries⟩
    rw [delete, lookup_collapse]
    refine ⟨.inr ?_, lookup_full_update child.2⟩
    have hangs (i : Fin n) (present : Function.update children c ((children c).delete rest) i ≠ nil) :
        Hangs stop ok i (Function.update children c ((children c).delete rest) i) := by
      by_cases same : i = c
      · subst same
        rw [Function.update_self] at present ⊢
        exact child.1 present
      · rw [Function.update_of_ne same] at present ⊢
        exact whole.hangs i present
    -- one of two children is not the one that changes
    obtain ⟨i, j, differ, atI, atJ⟩ := two
    by_cases same : i = c
    · exact collapse_canonical hangs (a := j) (by simpa [same ▸ differ.symm] using atJ)
    · exact collapse_canonical hangs (a := i) (by simpa [same] using atI)

theorem Rooted.insert (rooted : Rooted stop ok t) (ends : Terminated stop key) (good : ok x) :
    Rooted stop ok (t.insert key (value x)) ∧
      (t.insert key (value x)).lookup = update t.lookup key (some x) := by
  rcases rooted with rfl | canonical
  · obtain ⟨_, absent, rfl⟩ := ends
    rw [insert_nil]
    refine ⟨.inr ?_, lookup_extend_value _ x⟩
    simpa [extend] using Canonical.leaf absent good
  · obtain ⟨inserted, entries⟩ := canonical.insert_spec ends good
    exact ⟨.inr inserted, entries⟩

theorem Rooted.delete (rooted : Rooted stop ok t) (ends : Terminated stop key) :
    Rooted stop ok (t.delete key) ∧ (t.delete key).lookup = update t.lookup key none := by
  rcases rooted with rfl | canonical
  · exact ⟨.inl rfl, (update_eq_self_iff.mpr rfl).symm⟩
  · exact canonical.delete_spec ends

end

end Patricia.Tree
