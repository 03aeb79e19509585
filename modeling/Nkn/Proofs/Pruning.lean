import Nkn.Model.Pruning

/-! # What the steps of a pruning run change

Counting and releasing the trie of a height depend on the database alone. -/

namespace Nkn.Pruning

open Go

namespace RefCounts

variable {α β : Type} {ref ref' ref'' : RefCounts} {threshold depth : Nat} {persistIntermediate : Bool} {n : Trie.Node}

section

open Proc

variable {P : ∀ {α : Type}, Proc RefCounts α → Prop} (closed : Closed @P)
  (lifts : ∀ {α : Type} (result : Outcome α), P (lift result)) (reads : P (gets RefCounts.db))

include closed lifts reads

theorem closed_createRefCounts (full : P (gets fun ref => decide (threshold ≤ ref.counts.keys.length)))
    (flushes : persistIntermediate = true → P flush) (loads : ∀ hash, P (loadCount hash))
    (increments : ∀ hash, P (increment hash)) : P (createRefCounts threshold persistIntermediate depth n) := by
  induction depth generalizing n with
  | zero => exact lifts _
  | succ _ ih =>
    refine closed.bind full fun full => closed.bind (closed.when fun both => flushes ?_) fun _ => ?_
    · exact (Bool.and_eq_true_iff.mp both).1
    cases n with
    | nil | valueNode v => exact closed.pure ()
    | shortNode _ _ _ =>
      exact closed.bind (loads _) fun _ => closed.bind (closed.when fun _ => ih) fun _ => increments _
    | fullNode _ _ =>
      exact closed.bind (loads _) fun _ =>
        closed.bind (closed.when fun _ => closed.forEach fun _ => closed.when fun _ => ih) fun _ => increments _
    | hashNode _ =>
      refine closed.bind (loads _) fun count => ?_
      split_ifs
      · exact increments _
      · exact closed.bind reads fun _ => closed.bind (lifts _) fun _ => ih

theorem closed_prune (released : ∀ hash, P (releasedCount hash)) (sets : ∀ hash count, P (setCount hash count))
    (deletes : ∀ hash, P (deleteNode hash)) : P (prune depth n) := by
  induction depth generalizing n with
  | zero => exact lifts _
  | succ _ ih =>
    cases n with
    | nil | valueNode v => exact closed.pure ()
    | shortNode _ _ _ =>
      refine closed.bind (released _) fun count => ?_
      split_ifs
      · exact sets _ _
      · exact closed.bind (deletes _) fun _ => ih
    | fullNode _ _ =>
      refine closed.bind (released _) fun count => ?_
      split_ifs
      · exact sets _ _
      · exact closed.bind (deletes _) fun _ => closed.forEach fun _ => closed.when fun _ => ih
    | hashNode _ =>
      refine closed.bind (released _) fun count => ?_
      split_ifs
      · exact sets _ _
      · exact closed.bind reads fun _ => closed.bind (lifts _) fun _ => ih

omit reads in
theorem closed_releasedCount {hash : Bytes} (known : P (gets fun ref => (ref.counts.load hash, ref.db.counts hash)))
    (sets : ∀ count, P (setCount hash count)) : P (releasedCount hash) := by
  refine closed.bind (closed.bind known fun found => ?_) fun count =>
    closed.bind (closed.when fun _ => lifts _) fun _ => closed.pure _
  split
  · exact closed.pure _
  · exact closed.bind (sets _) fun _ => closed.pure _
  · exact lifts _

end

def shift (earlier : List PruneDB) (ref : RefCounts) : RefCounts := { ref with commits := earlier ++ ref.commits }

def Shifts (x : Proc RefCounts α) : Prop :=
  ∀ earlier ref, x (shift earlier ref) = ((x ref).1, shift earlier (x ref).2)

theorem Shifts.pure (value : α) : Shifts (pure value) := fun _ _ => rfl

theorem Shifts.lift (result : Outcome α) : Shifts (Proc.lift result) := fun _ _ => rfl

theorem Shifts.gets {f : RefCounts → α} (same : ∀ earlier ref, f (shift earlier ref) = f ref) : Shifts (Proc.gets f) :=
  fun earlier ref => by simp [Proc.gets, same]

theorem Shifts.modify {f : RefCounts → RefCounts} (same : ∀ earlier ref, f (shift earlier ref) = shift earlier (f ref)) :
    Shifts (Proc.modify f) :=
  fun earlier ref => by simp [Proc.modify, same]

variable {x : Proc RefCounts α} {next : α → Proc RefCounts β}

theorem Shifts.bind (first : Shifts x) (second : ∀ value, Shifts (next value)) : Shifts (x >>= next) := by
  intro earlier ref
  have shifted := first earlier ref
  rcases run : x ref with ⟨_ | value, ref'⟩
  · rw [run] at shifted
    rw [Proc.bind_of_error run, Proc.bind_of_error shifted]
  · rw [run] at shifted
    rw [Proc.bind_of_ok run, Proc.bind_of_ok shifted]
    exact second value earlier ref'

theorem closed_shifts : Proc.Closed @Shifts := ⟨.pure, .bind⟩

theorem Shifts.when {condition : Prop} [Decidable condition] {x : Proc RefCounts Unit} (shifts : Shifts x) :
    Shifts (Proc.when condition x) := closed_shifts.when fun _ => shifts

theorem shifts_commit : Shifts commit := .modify fun earlier ref => by simp [shift]

theorem shifts_newBatch : Shifts newBatch := .modify fun _ _ => rfl

theorem shifts_persistRefCounts : Shifts persistRefCounts := .modify fun _ _ => rfl

theorem shifts_inBatch (change : PruneDB → PruneDB) : Shifts (inBatch change) := .modify fun _ _ => rfl

variable (hash : Bytes)

theorem shifts_setCount (count : UInt32) : Shifts (setCount hash count) := .modify fun _ _ => rfl

theorem shifts_increment : Shifts (increment hash) := .modify fun _ _ => rfl

theorem shifts_loadCount : Shifts (loadCount hash) :=
  (Shifts.gets fun _ _ => rfl).bind fun _ => (shifts_setCount _ _).bind fun _ => .pure _

theorem shifts_flush : Shifts flush := shifts_persistRefCounts.bind fun _ => shifts_commit.bind fun _ =>
    (Shifts.modify fun _ _ => rfl).bind fun _ => shifts_newBatch

theorem shifts_createRefCounts : Shifts (createRefCounts threshold persistIntermediate depth n) :=
  closed_createRefCounts closed_shifts .lift (.gets fun _ _ => rfl) (.gets fun _ _ => rfl) (fun _ => shifts_flush)
    shifts_loadCount shifts_increment

theorem shifts_deleteNode : Shifts (deleteNode hash) :=
  (Shifts.modify fun _ _ => rfl).bind fun _ => (shifts_inBatch _).bind fun _ => shifts_inBatch _

theorem shifts_prune : Shifts (prune depth n) := closed_prune closed_shifts .lift (.gets fun _ _ => rfl)
    (fun hash => closed_releasedCount closed_shifts .lift (.gets fun _ _ => rfl) (shifts_setCount hash)) shifts_setCount
    shifts_deleteNode

/-- From a state with an empty batch, a computation commits databases that differ in their counts only, and leaves the
batch empty. -/
structure CountsOnly (ref ref' : RefCounts) : Prop where
  db : ref'.db = { ref.db with counts := ref'.db.counts }
  batch : ref'.batch = ref'.db
  commits : ∃ new, ref'.commits = ref.commits ++ new ∧ ∀ db ∈ new, db = { ref.db with counts := db.counts }

theorem CountsOnly.trans (first : CountsOnly ref ref') (second : CountsOnly ref' ref'') : CountsOnly ref ref'' := by
  obtain ⟨new, listed, changed⟩ := first.commits
  obtain ⟨new', listed', changed'⟩ := second.commits
  refine ⟨?_, second.batch, new ++ new', by rw [listed', listed, List.append_assoc], fun db member => ?_⟩
  · have later := second.db
    rw [first.db] at later
    exact later
  · rcases List.mem_append.mp member with early | late
    · exact changed db early
    · have later := changed' db late
      rw [first.db] at later
      exact later

def Counting (x : Proc RefCounts α) : Prop := ∀ ref, ref.batch = ref.db → CountsOnly ref (x ref).2

theorem Counting.of_frame
    (frame : ∀ ref, (x ref).2.db = ref.db ∧ (x ref).2.batch = ref.batch ∧ (x ref).2.commits = ref.commits) : Counting x := by
  intro ref clean
  obtain ⟨db, batch, commits⟩ := frame ref
  exact ⟨by rw [db], by rw [batch, db, clean], [], by simp [commits], by simp⟩

theorem Counting.bind (first : Counting x) (second : ∀ value, Counting (next value)) : Counting (x >>= next) := by
  intro ref clean
  have counted := first ref clean
  rcases run : x ref with ⟨_ | value, ref'⟩
  · rw [run] at counted
    rwa [Proc.bind_of_error run]
  · rw [run] at counted
    rw [Proc.bind_of_ok run]
    exact counted.trans (second value ref' counted.batch)

theorem closed_counting : Proc.Closed @Counting := ⟨fun _ => .of_frame fun _ => ⟨rfl, rfl, rfl⟩, .bind⟩

theorem counting_flush : Counting flush := by
  rintro ⟨db, batch, _, _⟩ clean
  obtain rfl : batch = db := clean
  exact ⟨rfl, rfl, [_], rfl, by simp⟩

theorem counting_createRefCounts : Counting (createRefCounts threshold persistIntermediate depth n) :=
  closed_createRefCounts closed_counting (fun _ => .of_frame fun _ => ⟨rfl, rfl, rfl⟩) (.of_frame fun _ => ⟨rfl, rfl, rfl⟩)
    (.of_frame fun _ => ⟨rfl, rfl, rfl⟩) (fun _ => counting_flush) (fun _ => .of_frame fun _ => ⟨rfl, rfl, rfl⟩)
    fun _ => .of_frame fun _ => ⟨rfl, rfl, rfl⟩

def Uncommitted (x : Proc RefCounts α) : Prop :=
  ∀ ref, (x ref).2.db = ref.db ∧ (x ref).2.commits = ref.commits ∧
    (x ref).2.batch = { ref.batch with nodes := (x ref).2.batch.nodes, counts := (x ref).2.batch.counts }

theorem Uncommitted.bind (first : Uncommitted x)
    (second : ∀ value, Uncommitted (next value)) : Uncommitted (x >>= next) := by
  intro ref
  obtain ⟨db, commits, batch⟩ := first ref
  rcases run : x ref with ⟨_ | value, ref'⟩
  · rw [run] at db commits batch
    rw [Proc.bind_of_error run]
    exact ⟨db, commits, batch⟩
  · rw [run] at db commits batch
    rw [Proc.bind_of_ok run]
    obtain ⟨db', commits', batch'⟩ := second value ref'
    refine ⟨db'.trans db, commits'.trans commits, ?_⟩
    simp only at batch
    rw [batch] at batch'
    exact batch'

theorem closed_uncommitted : Proc.Closed @Uncommitted := ⟨fun _ _ => ⟨rfl, rfl, rfl⟩, .bind⟩

theorem uncommitted_createRefCounts : Uncommitted (createRefCounts threshold false depth n) :=
  closed_createRefCounts closed_uncommitted (fun _ _ => ⟨rfl, rfl, rfl⟩) (fun _ => ⟨rfl, rfl, rfl⟩)
    (fun _ => ⟨rfl, rfl, rfl⟩) (fun never => nomatch never) (fun _ _ => ⟨rfl, rfl, rfl⟩) fun _ _ => ⟨rfl, rfl, rfl⟩

theorem uncommitted_prune : Uncommitted (prune depth n) :=
  closed_prune closed_uncommitted (fun _ _ => ⟨rfl, rfl, rfl⟩) (fun _ => ⟨rfl, rfl, rfl⟩)
    (fun _ => closed_releasedCount closed_uncommitted (fun _ _ => ⟨rfl, rfl, rfl⟩) (fun _ => ⟨rfl, rfl, rfl⟩)
      fun _ _ => ⟨rfl, rfl, rfl⟩) (fun _ _ _ => ⟨rfl, rfl, rfl⟩) fun _ _ => ⟨rfl, rfl, rfl⟩

theorem uncommitted_pruneOf {root : Bytes} : Uncommitted (pruneOf depth root) :=
  Uncommitted.bind (fun _ => ⟨rfl, rfl, rfl⟩) fun _ => Uncommitted.bind (fun _ => ⟨rfl, rfl, rfl⟩) fun _ => uncommitted_prune

def NodesOf (nodes : Trie.Database) (ref : RefCounts) : Prop :=
  ∀ hash enc, (ref.db.nodes hash = some enc → nodes hash = some enc) ∧ (ref.batch.nodes hash = some enc → nodes hash = some enc)

def Shrinks (x : Proc RefCounts α) : Prop := ∀ nodes ref, NodesOf nodes ref → NodesOf nodes (x ref).2

theorem Shrinks.of_frame (frame : ∀ ref, (x ref).2.db.nodes = ref.db.nodes ∧
    (x ref).2.batch.nodes = ref.batch.nodes) : Shrinks x := by
  intro nodes ref only
  unfold NodesOf
  rw [(frame ref).1, (frame ref).2]
  exact only

theorem Shrinks.bind (first : Shrinks x) (second : ∀ value, Shrinks (next value)) : Shrinks (x >>= next) := by
  intro nodes ref only
  have between := first nodes ref only
  rcases run : x ref with ⟨_ | value, ref'⟩
  · rw [run] at between
    rwa [Proc.bind_of_error run]
  · rw [run] at between
    rw [Proc.bind_of_ok run]
    exact second value nodes ref' between

theorem closed_shrinks : Proc.Closed @Shrinks := ⟨fun _ => .of_frame fun _ => ⟨rfl, rfl⟩, .bind⟩

theorem Shrinks.when {condition : Prop} [Decidable condition] {x : Proc RefCounts Unit} (shrinks : Shrinks x) :
    Shrinks (Proc.when condition x) := closed_shrinks.when fun _ => shrinks

theorem shrinks_commit : Shrinks commit := fun _ _ only hash enc => ⟨(only hash enc).2, (only hash enc).2⟩

theorem shrinks_newBatch : Shrinks newBatch := fun _ _ only hash enc => ⟨(only hash enc).1, (only hash enc).1⟩

theorem shrinks_flush : Shrinks flush :=
  (Shrinks.of_frame fun _ => ⟨rfl, rfl⟩).bind fun _ => shrinks_commit.bind fun _ =>
    (Shrinks.of_frame fun _ => ⟨rfl, rfl⟩).bind fun _ => shrinks_newBatch

theorem shrinks_createRefCounts : Shrinks (createRefCounts threshold persistIntermediate depth n) :=
  closed_createRefCounts closed_shrinks (fun _ => .of_frame fun _ => ⟨rfl, rfl⟩) (.of_frame fun _ => ⟨rfl, rfl⟩)
    (.of_frame fun _ => ⟨rfl, rfl⟩) (fun _ => shrinks_flush) (fun _ => .of_frame fun _ => ⟨rfl, rfl⟩)
    fun _ => .of_frame fun _ => ⟨rfl, rfl⟩

theorem shrinks_deleteNode : Shrinks (deleteNode hash) := by
  refine fun nodes ref only other enc => ⟨(only other enc).1, fun stored => ?_⟩
  change Function.update ref.batch.nodes hash none other = some enc at stored
  by_cases same : other = hash
  · subst same
    simp at stored
  · rw [Function.update_of_ne same] at stored
    exact (only other enc).2 stored

theorem shrinks_prune : Shrinks (prune depth n) :=
  closed_prune closed_shrinks (fun _ => .of_frame fun _ => ⟨rfl, rfl⟩) (.of_frame fun _ => ⟨rfl, rfl⟩)
    (fun _ => closed_releasedCount closed_shrinks (fun _ => .of_frame fun _ => ⟨rfl, rfl⟩) (.of_frame fun _ => ⟨rfl, rfl⟩)
      fun _ => .of_frame fun _ => ⟨rfl, rfl⟩) (fun _ _ => .of_frame fun _ => ⟨rfl, rfl⟩) shrinks_deleteNode

end RefCounts

open RefCounts

variable {settings : Settings} {chain : StateRoots}

theorem shrinks_countHeight {reset : Bool} {height : UInt32} : Shrinks (countHeight settings chain reset height) :=
  (Shrinks.of_frame fun _ => ⟨rfl, rfl⟩).bind fun _ => (Shrinks.of_frame fun _ => ⟨rfl, rfl⟩).bind fun _ =>
    shrinks_newBatch.bind fun _ => Shrinks.bind ((Shrinks.of_frame fun _ => ⟨rfl, rfl⟩).bind fun _ =>
      (Shrinks.of_frame fun _ => ⟨rfl, rfl⟩).bind fun _ => shrinks_createRefCounts)
      fun _ => (Shrinks.of_frame fun _ => ⟨rfl, rfl⟩).bind fun _ => (Shrinks.of_frame fun _ => ⟨rfl, rfl⟩).bind fun _ =>
        (Shrinks.of_frame fun _ => ⟨rfl, rfl⟩).when.bind fun _ => shrinks_commit

theorem shrinks_countHeights {reset : Bool} {heights : List UInt32} : Shrinks (countHeights settings chain reset heights) := by
  induction heights generalizing reset with
  | nil => exact .of_frame fun _ => ⟨rfl, rfl⟩
  | cons _ _ ih => exact shrinks_countHeight.bind fun _ => ih

theorem shrinks_pruneHeight {height : UInt32} : Shrinks (pruneHeight settings chain height) :=
  (Shrinks.of_frame fun _ => ⟨rfl, rfl⟩).bind fun _ => (Shrinks.of_frame fun _ => ⟨rfl, rfl⟩).bind fun _ =>
    shrinks_newBatch.bind fun _ => Shrinks.bind ((Shrinks.of_frame fun _ => ⟨rfl, rfl⟩).bind fun _ =>
      (Shrinks.of_frame fun _ => ⟨rfl, rfl⟩).bind fun _ => shrinks_prune)
      fun _ => (Shrinks.of_frame fun _ => ⟨rfl, rfl⟩).bind fun _ => (Shrinks.of_frame fun _ => ⟨rfl, rfl⟩).bind fun _ => shrinks_commit

theorem shrinks_removeAllRefCount : Shrinks removeAllRefCount :=
  shrinks_newBatch.bind fun _ => (Shrinks.of_frame fun _ => ⟨rfl, rfl⟩).bind fun _ => shrinks_commit

theorem nodes_of_runPruning {db : PruneDB} {hash enc : Bytes}
    (stored : (runPruning settings chain db).2.db.nodes hash = some enc) : db.nodes hash = some enc := by
  have resets : Shrinks maybeResetRefCount := (Shrinks.of_frame fun _ => ⟨rfl, rfl⟩).bind fun _ =>
    shrinks_removeAllRefCount.when.bind fun _ => .of_frame fun _ => ⟨rfl, rfl⟩
  have shrinks : Shrinks (pruneStatesLowMemory settings chain) :=
    resets.bind fun reset => (Shrinks.of_frame fun _ => ⟨rfl, rfl⟩).bind fun heights =>
      (Shrinks.of_frame fun _ => ⟨rfl, rfl⟩).when.bind fun _ => shrinks_countHeights.bind fun _ =>
        closed_shrinks.forEach fun _ => shrinks_pruneHeight
  exact (shrinks db.nodes (of db) (fun _ _ => ⟨id, id⟩) hash enc).1 stored

end Nkn.Pruning
