import Nkn.Proofs.Pruning

/-! # A pruning run that is interrupted

A run of `PruneStatesLowMemory` may be stopped after any of its commits. Run again, it ends as the uninterrupted run
does. -/

namespace Nkn.Pruning

open Go Outcome List Proc

namespace RefCounts

variable {α β : Type}

def Fresh (x : Proc RefCounts α) : Prop :=
  ∀ ref, (x ref).1 = (x (of ref.db)).1 ∧ (x ref).2.db = (x (of ref.db)).2.db ∧
    (x ref).2.commits = ref.commits ++ (x (of ref.db)).2.commits

theorem Fresh.pure (value : α) : Fresh (pure value) := fun _ => ⟨rfl, rfl, (append_nil _).symm⟩

variable {next : α → Proc RefCounts β}

theorem Fresh.bind {x : Proc RefCounts α} (first : Fresh x)
    (second : ∀ value, Fresh (next value)) : Fresh (x >>= next) := by
  intro ref
  obtain ⟨result, db, commits⟩ := first ref
  rcases run : x ref with ⟨_ | value, ref'⟩ <;> rcases run' : x (of ref.db) with ⟨_ | _, ref''⟩ <;>
    rw [run, run'] at result db commits <;> simp only [Except.error.injEq, Except.ok.injEq, reduceCtorEq] at result
  · rw [bind_of_error run, bind_of_error run']
    exact ⟨congrArg Except.error result, db, commits⟩
  · subst result
    rw [bind_of_ok run, bind_of_ok run']
    obtain ⟨result, db₁, commits₁⟩ := second value ref'
    obtain ⟨result', db₂, commits₂⟩ := second value ref''
    simp only at db commits
    rw [db] at result db₁ commits₁
    exact ⟨result.trans result'.symm, db₁.trans db₂.symm, by rw [commits₁, commits₂, commits, append_assoc]⟩

theorem Fresh.forEach {items : List β} {turn : β → Proc RefCounts Unit} (fresh : ∀ item, Fresh (turn item)) :
    Fresh (forEach items turn) := Proc.Closed.forEach ⟨.pure, .bind⟩ fresh

theorem Fresh.of_shifts {x : Proc RefCounts α} (shifts : Shifts x) : Fresh (do newRefCounts; newBatch; x) := by
  intro ref
  have shifted := shifts ref.commits (of ref.db)
  have start : shift ref.commits (of ref.db) = ⟨ref.db, ref.db, ∅, ref.commits⟩ := by simp [shift, of]
  rw [start] at shifted
  change (x ⟨ref.db, ref.db, ∅, ref.commits⟩).1 = (x (of ref.db)).1 ∧ _
  exact ⟨by rw [shifted], congrArg (·.2.db) shifted, congrArg (·.2.commits) shifted⟩

theorem Fresh.lift_bind {result : Outcome α} (fresh : ∀ value, Fresh (next value)) : Fresh (lift result >>= next) := by
  cases result with
  | error _ => exact fun ref => ⟨rfl, rfl, (append_nil _).symm⟩
  | ok value => exact fresh value

end RefCounts

open RefCounts

variable {settings : Settings} {chain : StateRoots} {reset : Bool} {height : UInt32} {db : PruneDB}

theorem fresh_countHeight : Fresh (countHeight settings chain reset height) := by
  refine Fresh.lift_bind fun root => Fresh.of_shifts ?_
  have counts : Shifts (createRefCountsOf settings.maxRefCountKeysInMemory reset settings.depth root) :=
    (Shifts.gets fun _ _ => rfl).bind fun db => (Shifts.lift _).bind fun n => shifts_createRefCounts
  exact counts.bind fun _ => shifts_persistRefCounts.bind fun _ => (shifts_inBatch _).bind fun _ =>
    (shifts_inBatch _).when.bind fun _ => shifts_commit

theorem fresh_countHeights {heights : List UInt32} : Fresh (countHeights settings chain reset heights) := by
  induction heights generalizing reset with
  | nil => exact .pure ()
  | cons _ _ ih => exact fresh_countHeight.bind fun _ => ih

theorem fresh_pruneHeight : Fresh (pruneHeight settings chain height) := by
  refine Fresh.lift_bind fun root => Fresh.of_shifts ?_
  have releases : Shifts (pruneOf settings.depth root) :=
    (Shifts.gets fun _ _ => rfl).bind fun db => (Shifts.lift _).bind fun n => shifts_prune
  exact releases.bind fun _ => shifts_persistRefCounts.bind fun _ => (shifts_inBatch _).bind fun _ => shifts_commit

def Intermediate (reset : Bool) (db stopped : PruneDB) : Prop := reset = true ∧ stopped = { db with counts := stopped.counts }

inductive Counted (reset : Bool) (height : UInt32) (db : PruneDB) : Outcome Unit × RefCounts → Prop
  | failed {fault : Fault} {ref : RefCounts} (commits : ∀ stopped ∈ ref.commits, Intermediate reset db stopped) :
      Counted reset height db (.error fault, ref)
  | done {ref : RefCounts} {middle : List PruneDB} (listed : ref.commits = middle ++ [ref.db])
      (commits : ∀ stopped ∈ middle, Intermediate reset db stopped) (needReset : reset = db.needReset → ref.db.needReset = false)
      (heights : ref.db.heights = { db.heights with counted := some height }) :
      Counted reset height db (.ok (), ref)

variable (settings chain) in
theorem counted_countHeight : Counted reset height db (countHeight settings chain reset height (of db)) := by
  unfold countHeight
  cases chain.stateRoot height with
  | error _ => exact .failed (by simp [of])
  | ok root =>
    change Counted reset height db ((do
      createRefCountsOf settings.maxRefCountKeysInMemory reset settings.depth root
      persistRefCounts
      persistRefCountHeights height
      when (reset = true) clearNeedReset
      commit) (of db))
    have counts : Counting (createRefCountsOf settings.maxRefCountKeysInMemory reset settings.depth root) :=
      (Counting.of_frame fun _ => ⟨rfl, rfl, rfl⟩).bind fun _ =>
        (Counting.of_frame fun _ => ⟨rfl, rfl, rfl⟩).bind fun _ => counting_createRefCounts
    obtain ⟨changed, batch, _, listed, intermediate⟩ := counts (of db) rfl
    -- without a reset there are no commits in the middle
    have silent (unset : reset = false) :
        (createRefCountsOf settings.maxRefCountKeysInMemory reset settings.depth root (of db)).2.commits = [] := by
      subst unset
      have uncommitted : Uncommitted (createRefCountsOf settings.maxRefCountKeysInMemory false settings.depth root) :=
        Uncommitted.bind (fun _ => ⟨rfl, rfl, rfl⟩) fun _ => Uncommitted.bind (fun _ => ⟨rfl, rfl, rfl⟩) fun _ =>
          uncommitted_createRefCounts
      exact (uncommitted (of db)).2.1
    have middle : ∀ stopped ∈ (createRefCountsOf settings.maxRefCountKeysInMemory reset settings.depth root (of db)).2.commits,
        Intermediate reset db stopped := by
      intro stopped member
      cases reset with
      | false =>
        rw [silent rfl] at member
        simp at member
      | true =>
        rw [listed] at member
        exact ⟨rfl, intermediate stopped member⟩
    rcases run : createRefCountsOf settings.maxRefCountKeysInMemory reset settings.depth root (of db) with ⟨_ | _, ref⟩
    · rw [bind_of_error run]
      rw [run] at middle
      exact .failed middle
    · rw [bind_of_ok run]
      rw [run] at middle changed batch
      simp only at changed batch
      have heights : ref.batch.heights = db.heights := by rw [batch, changed]; rfl
      have needReset : ref.batch.needReset = db.needReset := by rw [batch, changed]; rfl
      cases reset with
      | false =>
        refine .done rfl middle (fun same => ?_) ?_
        · rw [needReset, ← same]
        · change { ref.batch.heights with counted := some height } = _
          rw [heights]
      | true =>
        refine .done rfl middle (fun _ => rfl) ?_
        change { ref.batch.heights with counted := some height } = _
        rw [heights]

inductive Pruned (height : UInt32) (db : PruneDB) : Outcome Unit × RefCounts → Prop
  | failed {fault : Fault} {ref : RefCounts} (commits : ref.commits = []) : Pruned height db (.error fault, ref)
  | done {ref : RefCounts} (listed : ref.commits = [ref.db]) (needReset : ref.db.needReset = db.needReset)
      (heights : ref.db.heights = { db.heights with pruned := some height })
      (uncounted : (db.counts = fun _ => none) → ref.db.counts = fun _ => none) : Pruned height db (.ok (), ref)

theorem prune_uncounted {depth : Nat} {n : Trie.Node} {ref ref' : RefCounts} (nothing : ref.counts = ∅)
    (uncounted : ref.db.counts = fun _ => none) (run : prune depth n ref = (.ok (), ref')) : ref' = ref := by
  have missing (hash : Bytes) : ∃ fault, releasedCount hash ref = (.error fault, ref) := by
    have known : ∃ fault, knownCount hash ref = (.error fault, ref) := by
      simp [knownCount, nothing, uncounted, lift, crash]
    obtain ⟨fault, known⟩ := known
    exact ⟨fault, bind_of_error known⟩
  cases depth with
  | zero => simp [prune, lift, crash] at run
  | succ _ =>
    cases n with
    | nil | valueNode v => exact (Prod.mk.inj run).2.symm
    | shortNode _ _ flags =>
      obtain ⟨fault, missing⟩ := missing (cachedHash flags)
      rw [prune, bind_of_error missing] at run
      simp at run
    | fullNode _ flags =>
      obtain ⟨fault, missing⟩ := missing (cachedHash flags)
      rw [prune, bind_of_error missing] at run
      simp at run
    | hashNode hash =>
      obtain ⟨_, missing⟩ := missing hash
      rw [prune, bind_of_error missing] at run
      simp at run

variable (settings chain) in
theorem pruned_pruneHeight : Pruned height db (pruneHeight settings chain height (of db)) := by
  unfold pruneHeight
  cases chain.stateRoot height with
  | error _ => exact .failed rfl
  | ok root =>
    change Pruned height db ((do
      pruneOf settings.depth root
      persistRefCounts
      persistPrunedHeights height
      commit) (of db))
    obtain ⟨-, commits, batch⟩ := uncommitted_pruneOf (of db)
    rcases run : pruneOf settings.depth root (of db) with ⟨fault | _, ref⟩
    · rw [bind_of_error run]
      rw [run] at commits
      exact .failed commits
    · rw [bind_of_ok run]
      rw [run] at commits batch
      simp only at commits batch
      refine .done ?_ ?_ ?_ fun uncounted => ?_
      · change ref.commits ++ [_] = [_]
        rw [commits]
        rfl
      · change ref.batch.needReset = db.needReset
        rw [batch]
        rfl
      · change { ref.batch.heights with pruned := some height } = _
        rw [batch]
        rfl
      · have released : ref = of db := by
          change ((do
            let n ← lift (resolveHash db root)
            prune settings.depth n) (of db)) = _ at run
          cases loaded : resolveHash db root with
          | error _ => simp [loaded] at run
          | ok _ =>
            rw [loaded] at run
            exact prune_uncounted rfl uncounted run
        rw [released]
        exact uncounted

theorem heightsFrom_cons {start target : UInt32} {rest : List UInt32} (bounded : target + 1 ≠ 0)
    (listed : heightsFrom start target = height :: rest) :
    height = start ∧ rest = heightsFrom (start + 1) target := by
  have below : target.toNat + 1 < 2 ^ 32 := by
    by_contra! large
    exact bounded (UInt32.toNat_inj.mp (by rw [UInt32.toNat_add]; have := target.toNat_lt; simp; omega))
  unfold heightsFrom at listed
  obtain ⟨n, count⟩ : ∃ n, target.toNat + 1 - start.toNat = n + 1 := by
    refine Nat.exists_eq_succ_of_ne_zero fun none => ?_
    rw [none] at listed
    simp at listed
  rw [count, range_succ_eq_map, map_cons, map_map] at listed
  obtain ⟨first, others⟩ := cons_eq_cons.mp listed
  have next : (start + 1).toNat = start.toNat + 1 := by
    rw [UInt32.toNat_add]
    exact Nat.mod_eq_of_lt (by simp; omega)
  refine ⟨by simpa using first.symm, ?_⟩
  rw [← others, heightsFrom, next, show target.toNat + 1 - (start.toNat + 1) = n by omega]
  exact map_congr_left fun i _ => by simp [Nat.add_assoc, Nat.add_comm 1]

theorem heightsFrom_eq_nil {start target : UInt32} (beyond : target < start) : heightsFrom start target = [] := by
  have beyond : target.toNat < start.toNat := beyond
  simp [heightsFrom, show target.toNat + 1 - start.toNat = 0 by omega]

theorem prunedHeights_eq (start : UInt32) : prunedHeights settings chain start =
    if chain.currentHeight > settings.recentStateCount then
      heightsFrom start (chain.currentHeight - settings.recentStateCount) else [] := by
  unfold prunedHeights
  by_cases older : chain.currentHeight > settings.recentStateCount
  · by_cases within : start ≤ chain.currentHeight - settings.recentStateCount
    · simp [older, within]
    · simp [older, within, heightsFrom_eq_nil (UInt32.not_le.mp within)]
  · simp [older]

theorem prunedHeights_cons {start : UInt32} {rest : List UInt32} (bounded : chain.currentHeight + 1 ≠ 0)
    (listed : prunedHeights settings chain start = height :: rest) :
    height = start ∧ rest = prunedHeights settings chain (start + 1) := by
  rw [prunedHeights_eq] at listed ⊢
  split_ifs at listed ⊢ with older
  refine heightsFrom_cons (fun wrapped => bounded ?_) listed
  have wrapped := congrArg UInt32.toNat wrapped
  have older : settings.recentStateCount.toNat < chain.currentHeight.toNat := older
  rw [UInt32.toNat_add, UInt32.toNat_sub_of_le _ _ (UInt32.le_iff_toNat_le.mpr older.le)] at wrapped
  refine UInt32.toNat_inj.mp ?_
  rw [UInt32.toNat_add]
  have := chain.currentHeight.toNat_lt
  simp at wrapped ⊢
  omega

def remaining (settings : Settings) (chain : StateRoots) (reset : Bool) (counting pruning : List UInt32) :
    Proc RefCounts Unit := do
  countHeights settings chain reset counting
  Proc.forEach pruning (pruneHeight settings chain)

def EndsAlike (out out' : Outcome Unit × RefCounts) : Prop := out.1 = out'.1 ∧ out.2.db = out'.2.db

theorem EndsAlike.trans {out out' out'' : Outcome Unit × RefCounts} (first : EndsAlike out out')
    (second : EndsAlike out' out'') : EndsAlike out out'' :=
  ⟨first.1.trans second.1, first.2.trans second.2⟩

theorem EndsAlike.symm {out out' : Outcome Unit × RefCounts} (alike : EndsAlike out out') : EndsAlike out' out :=
  ⟨alike.1.symm, alike.2.symm⟩

variable {counting pruning : List UInt32}

theorem remaining_cons : remaining settings chain reset (height :: counting) pruning =
      (do countHeight settings chain reset height; remaining settings chain false counting pruning) :=
  bind_assoc ..

theorem fresh_remaining : Fresh (remaining settings chain reset counting pruning) :=
  fresh_countHeights.bind fun _ => Fresh.forEach fun _ => fresh_pruneHeight

def afterReset (db : PruneDB) : PruneDB := if db.needReset = true then { db with counts := fun _ => none } else db

def startOf (db : PruneDB) : RefCounts :=
  { of (afterReset db) with commits := if db.needReset = true then [afterReset db] else [] }

theorem maybeResetRefCount_of (db : PruneDB) : maybeResetRefCount (of db) = (.ok db.needReset, startOf db) := by
  rcases db with ⟨_, _, _, _ | _⟩ <;> rfl

@[simp] theorem afterReset_heights (db : PruneDB) : (afterReset db).heights = db.heights := by
  unfold afterReset
  split_ifs <;> rfl

theorem eq_of_mem_startOf {stopped : PruneDB} (member : stopped ∈ (startOf db).commits) : stopped = afterReset db := by
  unfold startOf at member
  split_ifs at member
  · exact mem_singleton.mp member
  · cases member

@[simp] theorem startOf_db (db : PruneDB) : (startOf db).db = afterReset db := rfl

theorem runPruning_eq (bounded : chain.currentHeight + 1 ≠ 0) (db : PruneDB) : runPruning settings chain db =
      remaining settings chain db.needReset (heightsFrom db.heights.refCountStartHeight chain.currentHeight)
        (prunedHeights settings chain db.heights.pruningStartHeight) (startOf db) := by
  rw [runPruning, pruneStatesLowMemory, bind_of_ok (maybeResetRefCount_of db), gets_bind, when,
    if_neg bounded, pure_bind, startOf_db, afterReset_heights]
  rfl

/-- What is left of a run fits the database: the heights follow those it records, and the reset has been made. -/
structure Aligned (settings : Settings) (chain : StateRoots) (reset : Bool) (counting pruning : List UInt32) (db : PruneDB) :
    Prop where
  needReset : db.needReset = reset
  uncounted : reset = true → db.counts = fun _ => none
  counting : counting = heightsFrom db.heights.refCountStartHeight chain.currentHeight
  pruning : pruning = prunedHeights settings chain db.heights.pruningStartHeight

variable {counting pruning : List UInt32}

theorem Aligned.afterReset (aligned : Aligned settings chain reset counting pruning db) : afterReset db = db := by
  unfold Pruning.afterReset
  split_ifs with needReset
  · rw [← aligned.uncounted (aligned.needReset ▸ needReset)]
  · rfl

theorem endsAlike_runPruning {stopped : PruneDB} (bounded : chain.currentHeight + 1 ≠ 0)
    (aligned : Aligned settings chain reset counting pruning db) (same : Pruning.afterReset stopped = db)
    (needReset : stopped.needReset = reset) :
    EndsAlike (runPruning settings chain stopped) (remaining settings chain reset counting pruning (of db)) := by
  have heights : stopped.heights = db.heights := by rw [← same, afterReset_heights]
  rw [runPruning_eq bounded, needReset, heights, ← aligned.counting, ← aligned.pruning]
  obtain ⟨result, ended, -⟩ := fresh_remaining (startOf stopped)
  rw [startOf_db, same] at result ended
  exact ⟨result, ended⟩

theorem bind_fresh {x : Proc RefCounts Unit} {next : Proc RefCounts Unit} {ref : RefCounts} (fresh : Fresh next)
    (run : x (of db) = (.ok (), ref)) :
    EndsAlike (next (of ref.db)) ((do x; next) (of db)) ∧
      ((do x; next) (of db)).2.commits = ref.commits ++ (next (of ref.db)).2.commits := by
  rw [bind_of_ok run]
  obtain ⟨result, ended, commits⟩ := fresh ref
  exact ⟨⟨result.symm, ended.symm⟩, commits⟩

theorem remaining_restarts_pruning (bounded : chain.currentHeight + 1 ≠ 0)
    (aligned : Aligned settings chain reset [] pruning db) :
    ∀ stopped ∈ (remaining settings chain reset [] pruning (of db)).2.commits,
      EndsAlike (runPruning settings chain stopped) (remaining settings chain reset [] pruning (of db)) := by
  induction pruning generalizing db with
  | nil => simp [remaining, countHeights, forEach, of]
  | cons height pruning ih =>
    change ∀ stopped ∈ ((do pruneHeight settings chain height; remaining settings chain reset [] pruning) (of db)).2.commits,
      EndsAlike _ ((do pruneHeight settings chain height; remaining settings chain reset [] pruning) (of db))
    have pruned : Pruned height db _ := pruned_pruneHeight settings chain
    cases run : pruneHeight settings chain height (of db) with | mk result ref
    rw [run] at pruned
    cases pruned with
    | failed commits =>
      rw [bind_of_error run, commits]
      simp
    | done listed needReset heights uncounted =>
      obtain ⟨alike, commits⟩ := bind_fresh fresh_remaining run
      have next : Aligned settings chain reset [] pruning ref.db := by
        obtain ⟨start, rest⟩ := prunedHeights_cons bounded aligned.pruning.symm
        refine ⟨needReset.trans aligned.needReset, fun set => uncounted (aligned.uncounted set), ?_, ?_⟩
        · rw [heights]
          exact aligned.counting
        · rw [heights, rest, start]
          rfl
      intro stopped member
      rw [commits, listed, singleton_append, mem_cons] at member
      rcases member with rfl | later
      · exact (endsAlike_runPruning bounded next next.afterReset next.needReset).trans alike
      · exact (ih next stopped later).trans alike

theorem remaining_restarts (bounded : chain.currentHeight + 1 ≠ 0)
    (aligned : Aligned settings chain reset counting pruning db) :
    ∀ stopped ∈ (remaining settings chain reset counting pruning (of db)).2.commits,
      EndsAlike (runPruning settings chain stopped) (remaining settings chain reset counting pruning (of db)) := by
  induction counting generalizing db reset with
  | nil => exact remaining_restarts_pruning bounded aligned
  | cons height counting ih =>
    -- a commit in the middle leaves the flag, and the reset of the next run throws its counts away
    have middle {stopped : PruneDB} (intermediate : Intermediate reset db stopped) :
        EndsAlike (runPruning settings chain stopped) (remaining settings chain reset (height :: counting) pruning (of db)) := by
      obtain ⟨rfl, changed⟩ := intermediate
      have needReset : stopped.needReset = true := by rw [changed]; exact aligned.needReset
      refine endsAlike_runPruning bounded aligned ?_ needReset
      rw [afterReset, if_pos needReset, changed, ← aligned.uncounted rfl]
    rw [remaining_cons] at middle ⊢
    have counted : Counted reset height db _ := counted_countHeight settings chain
    cases run : countHeight settings chain reset height (of db) with | mk result ref
    rw [run] at counted
    cases counted with
    | failed commits =>
      intro stopped member
      rw [bind_of_error run] at member
      exact middle (commits stopped member)
    | done listed commits needReset heights =>
      obtain ⟨alike, all⟩ := bind_fresh fresh_remaining run
      have next : Aligned settings chain false counting pruning ref.db := by
        obtain ⟨start, rest⟩ := heightsFrom_cons bounded aligned.counting.symm
        refine ⟨needReset aligned.needReset.symm, by simp, ?_, ?_⟩
        · rw [heights, rest, start]
          rfl
        · rw [heights]
          exact aligned.pruning
      intro stopped member
      rw [all, listed, append_assoc, singleton_append, mem_append, mem_cons] at member
      rcases member with early | rfl | later
      · exact middle (commits stopped early)
      · exact (endsAlike_runPruning bounded next next.afterReset next.needReset).trans alike
      · exact (ih next stopped later).trans alike

theorem runPruning_unbounded (unbounded : chain.currentHeight + 1 = 0) (db : PruneDB) :
    runPruning settings chain db = (crash "loop without end", startOf db) := by
  rw [runPruning, pruneStatesLowMemory, bind_of_ok (maybeResetRefCount_of db), gets_bind, when, if_pos unbounded]
  rfl

theorem afterReset_afterReset (db : PruneDB) : afterReset (afterReset db) = afterReset db := by
  rcases db with ⟨_, _, _, _ | _⟩ <;> rfl

/-- A pruning run that is stopped after any of its commits and run again ends as the run without the interruption: with the
same result, counts, recorded heights and nodes. -/
theorem pruning_survives_crash (settings : Settings) (chain : StateRoots) (db : PruneDB) :
    ∀ stopped ∈ (runPruning settings chain db).2.commits,
      (runPruning settings chain stopped).1 = (runPruning settings chain db).1 ∧
        (runPruning settings chain stopped).2.db = (runPruning settings chain db).2.db := by
  intro stopped member
  by_cases bounded : chain.currentHeight + 1 = 0
  · rw [runPruning_unbounded bounded] at member ⊢
    rw [runPruning_unbounded bounded]
    exact ⟨rfl, by rw [eq_of_mem_startOf member, startOf_db, startOf_db, afterReset_afterReset]⟩
  · have aligned : Aligned settings chain db.needReset (heightsFrom db.heights.refCountStartHeight chain.currentHeight)
        (prunedHeights settings chain db.heights.pruningStartHeight) (afterReset db) := by
      refine ⟨?_, fun set => ?_, by rw [afterReset_heights], by rw [afterReset_heights]⟩
      · unfold afterReset
        split_ifs <;> rfl
      · simp [afterReset, set]
    have whole := endsAlike_runPruning bounded aligned rfl rfl
    refine EndsAlike.trans ?_ whole.symm
    rw [runPruning_eq bounded, (fresh_remaining (startOf db)).2.2, startOf_db, List.mem_append] at member
    rcases member with first | later
    · obtain rfl := eq_of_mem_startOf first
      exact endsAlike_runPruning bounded aligned (afterReset_afterReset db) aligned.needReset
    · exact remaining_restarts bounded aligned stopped later

namespace Rebuild

def leaf (v : UInt8) : Bytes := (Trie.Collapsed.shortNode [0x20] (.valueNode [v])).serialize

def synced : PruneDB where
  nodes := fun hash => if hash = [1] then some (leaf 1) else if hash = [2] then some (leaf 2) else none
  counts := fun hash => if hash = [2] then some 7 else none
  heights := ⟨none, none⟩
  needReset := true

def frugal : Settings := { recentStateCount := 1, maxRefCountKeysInMemory := 0, depth := 3 }

def headers : StateRoots := { stateRoot := fun height => .ok (if height = 0 then [1] else [2]), currentHeight := 2 }

def halfway : PruneDB := (runPruning frugal headers synced).2.commits.getD 2 synced

theorem pruning_survives_crash_rebuild :
    halfway ∈ (runPruning frugal headers synced).2.commits ∧ (halfway.needReset = true ∧ halfway.counts [1] = some 0) ∧
      (runPruning frugal headers halfway).1 = (runPruning frugal headers synced).1 ∧
        (runPruning frugal headers halfway).2.db = (runPruning frugal headers synced).2.db := by
  have member : halfway ∈ (runPruning frugal headers synced).2.commits := by
    have long : 2 < (runPruning frugal headers synced).2.commits.length := by decide +kernel
    rw [halfway, ← List.getElem_eq_getD (h := long)]
    exact List.getElem_mem long
  exact ⟨member, by decide +kernel, pruning_survives_crash frugal headers synced halfway member⟩

end Rebuild

end Nkn.Pruning
