import Nkn.Proofs.PruningCounts
import Nkn.Soundness.PruningRestart

/-! # What pruning keeps and what it reclaims

A chain store saves blocks, may start anew from a fast-synced state, and runs `PruneStatesLowMemory` in between. The counts
are those of the roots of the heights that are counted and not pruned. -/

namespace Nkn.Pruning

open Go Outcome Store RefCount UInt32 List Function
open RefCounts

/-- A chain store as far as pruning is concerned: the database, the state roots in the headers, and the current height. -/
structure World where
  db : PruneDB
  roots : UInt32 → Bytes
  currentHeight : UInt32

namespace World

def chain (world : World) : StateRoots := ⟨fun height => .ok (world.roots height), world.currentHeight⟩

def run (settings : Settings) (world : World) : Outcome Unit × RefCounts := runPruning settings world.chain world.db

end World

def Settings.Deep (forest : Forest) (settings : Settings) : Prop := ∀ hash, 2 * forest.rank hash + 2 ≤ settings.depth

def window (roots : UInt32 → Bytes) (start stop : Nat) : List Bytes :=
  (List.range' start (stop - start)).map fun i => roots (UInt32.ofNat i)

/-- The references to a node, from the states that are not pruned and from other nodes, can be counted in a `uint32`. -/
def Countable (forest : Forest) (roots : UInt32 → Bytes) (current : UInt32) (db : PruneDB) : Prop :=
  ∀ (live : Finset Bytes) (hash : Bytes),
    references forest.kids (window roots db.heights.pruningStartHeight.toNat (current.toNat + 1)) live hash < 2 ^ 32

/-- The histories of a chain store. `leftover` are the nodes that the database may hold besides those of the tries: a saved
block adds the nodes of its trie only, and before fast sync the database may have held anything. -/
inductive History (forest : Forest) (leftover : Set Bytes) : World → Prop
  | genesis {nodes : Trie.Database} {roots : UInt32 → Bytes} (holds : forest.Holds nodes)
      (complete : forest.Complete nodes (roots 0))
      (fresh : ∀ x, nodes x ≠ none → forest.Reaches (roots 0) x ∨ x ∈ leftover) :
      History forest leftover ⟨⟨nodes, fun _ => none, ⟨none, none⟩, false⟩, roots, 0⟩
  | saveBlock {world : World} {nodes : Trie.Database} {root : Bytes} (history : History forest leftover world)
      (next : world.currentHeight + 1 ≠ 0) (kept : ∀ x, world.db.nodes x ≠ none → nodes x ≠ none)
      (holds : forest.Holds nodes) (complete : forest.Complete nodes root)
      (fresh : ∀ x, nodes x ≠ none → world.db.nodes x ≠ none ∨ forest.Reaches root x ∨ x ∈ leftover) :
      History forest leftover ⟨{ world.db with nodes }, Function.update world.roots (world.currentHeight + 1) root,
        world.currentHeight + 1⟩
  | fastSync {world : World} {nodes : Trie.Database} {roots : UInt32 → Bytes} {height : UInt32}
      (history : History forest leftover world) (holds : forest.Holds nodes) (complete : forest.Complete nodes (roots height))
      (fresh : ∀ x, nodes x ≠ none → forest.Reaches (roots height) x ∨ x ∈ leftover) :
      History forest leftover
        ⟨⟨nodes, world.db.counts, ⟨some (height - 1), some (height - 1)⟩, true⟩, roots, height⟩
  | prune {world : World} {settings : Settings} (history : History forest leftover world) (deep : settings.Deep forest)
      (countable : Countable forest world.roots world.currentHeight world.db) :
      History forest leftover { world with db := (world.run settings).2.db }

variable {forest : Forest} {leftover : Set Bytes} {roots : UInt32 → Bytes} {current : UInt32} {live : Finset Bytes} {db : PruneDB}

variable {start stop : Nat}

theorem window_push (roots : UInt32 → Bytes) (ordered : start ≤ stop) :
    (roots (ofNat stop) :: window roots start stop).Perm (window roots start (stop + 1)) := by
  have split : stop + 1 - start = (stop - start) + 1 := by omega
  rw [window, window, split, range'_concat, map_append, Nat.one_mul, Nat.add_sub_cancel' ordered]
  exact (perm_append_singleton ..).symm

theorem window_pop (nonempty : start < stop) :
    window roots start stop = roots (ofNat start) :: window roots (start + 1) stop := by
  obtain ⟨n, split⟩ : ∃ n, stop - start = n + 1 := ⟨stop - start - 1, by omega⟩
  rw [window, window, split, range'_succ, map_cons, show stop - (start + 1) = n by omega]

theorem window_sublist (roots : UInt32 → Bytes) {stop' : Nat} (below : stop ≤ stop') :
    (window roots start stop).Sublist (window roots start stop') := by
  obtain ⟨more, rfl⟩ := Nat.exists_eq_add_of_le below
  refine Sublist.map _ ?_
  rcases Nat.le_total start stop with ordered | empty
  · rw [show stop + more - start = (stop - start) + more by omega, ← range'_append_1]
    exact sublist_append_left ..
  · rw [Nat.sub_eq_zero_of_le empty]
    exact nil_sublist _

def PruneDB.count (db : PruneDB) (hash : Bytes) : Nat := ((db.counts hash).getD 0).toNat

/-- The counts of a database are those of its window of heights, and it holds all that is live or not yet counted. -/
structure Kept (forest : Forest) (leftover : Set Bytes) (roots : UInt32 → Bytes) (current : UInt32) (live : Finset Bytes)
    (db : PruneDB) : Prop where
  uncounted : db.needReset = true → db.counts = fun _ => none
  holds : forest.Holds db.nodes
  ordered : db.heights.pruningStartHeight.toNat ≤ db.heights.refCountStartHeight.toNat
  reached : db.heights.refCountStartHeight.toNat ≤ current.toNat + 1
  counts : Counts forest.kids live
    (window roots db.heights.pruningStartHeight.toNat db.heights.refCountStartHeight.toNat) db.count
  stored : ∀ x ∈ live, db.nodes x ≠ none
  complete : ∀ height, db.heights.refCountStartHeight ≤ height → height ≤ current → forest.Complete db.nodes (roots height)
  accounted : ∀ x, db.nodes x ≠ none → x ∈ leftover ∨ x ∈ live ∨
    ∃ height, db.heights.refCountStartHeight ≤ height ∧ height ≤ current ∧ forest.Reaches (roots height) x

variable {height : UInt32}

theorem toNat_add_one (below : height ≤ current) (bounded : current + 1 ≠ 0) :
    (height + 1).toNat = height.toNat + 1 := by
  have below : height.toNat ≤ current.toNat := below
  have small : current.toNat + 1 < 2 ^ 32 := by
    by_contra! large
    refine bounded (UInt32.toNat_inj.mp ?_)
    rw [UInt32.toNat_add]
    have := current.toNat_lt
    simp
    omega
  rw [UInt32.toNat_add]
  exact Nat.mod_eq_of_lt (by simp; omega)

theorem Kept.retained (kept : Kept forest leftover roots current live db)
    (unpruned : db.heights.pruningStartHeight ≤ height) (within : height ≤ current) :
    forest.Complete db.nodes (roots height) := by
  by_cases counted : db.heights.refCountStartHeight ≤ height
  · exact kept.complete height counted within
  · have counted : height.toNat < db.heights.refCountStartHeight.toNat := UInt32.not_le.mp counted
    have unpruned : db.heights.pruningStartHeight.toNat ≤ height.toNat := unpruned
    have member : roots height ∈ window roots db.heights.pruningStartHeight.toNat db.heights.refCountStartHeight.toNat :=
      mem_map.mpr ⟨height.toNat, by rw [mem_range'_1]; omega, by rw [UInt32.ofNat_toNat]⟩
    exact fun x reaches => kept.stored x (kept.counts.reached_live (kept.counts.root_live member) reaches)

variable {settings : Settings} {reset : Bool}

def Ends (x : Proc RefCounts Unit) (db db' : PruneDB) : Prop := ∃ ref, x (of db) = (.ok (), ref) ∧ ref.db = db'

theorem Ends.bind {x y : Proc RefCounts Unit} {db' db'' : PruneDB} (fresh : Fresh y) (first : Ends x db db')
    (second : Ends y db' db'') : Ends (do x; y) db db'' := by
  obtain ⟨ref, run, rfl⟩ := first
  obtain ⟨_, run', rfl⟩ := second
  obtain ⟨result, ended, -⟩ := fresh ref
  rw [run'] at result ended
  exact ⟨(y ref).2, (Proc.bind_of_ok run).trans (Prod.ext result rfl), ended⟩

def headers (roots : UInt32 → Bytes) (current : UInt32) : StateRoots := ⟨fun height => .ok (roots height), current⟩

theorem count_flush (ref : RefCounts) (heights : PruningHeights) (needReset : Bool) :
    PruneDB.count ⟨ref.batch.nodes, ref.counts.flush some ref.batch.counts, heights, needReset⟩ = tallied ref := by
  funext x
  change ((ref.counts.flush some ref.batch.counts x).getD 0).toNat = (view ref x).toNat
  rw [GoMap.flush_apply, view]
  cases ref.counts.load x <;> rfl

theorem Kept.countTurn (kept : Kept forest leftover roots current live db) (plain : forest.AllPlain)
    (deep : settings.Deep forest) (countable : Countable forest roots current db) (bounded : current + 1 ≠ 0)
    (due : db.heights.refCountStartHeight ≤ current) (aligned : reset = db.needReset) :
    ∃ db' live', Ends (countHeight settings (headers roots current) reset db.heights.refCountStartHeight) db db' ∧
      Kept forest leftover roots current live' db' ∧
      db'.heights = { db.heights with counted := some db.heights.refCountStartHeight } ∧ db'.needReset = false := by
  generalize start : db.heights.refCountStartHeight = height at *
  have whole := kept.complete height (UInt32.le_of_eq start) due
  have ordered := kept.ordered
  rw [start] at ordered
  have push := window_push roots ordered
  rw [UInt32.ofNat_toNat] at push
  have room : Room forest [roots height] live
      (window roots db.heights.pruningStartHeight.toNat db.heights.refCountStartHeight.toNat) := by
    intro live' _ hash
    rw [start]
    refine (references_mono (push.subperm.trans ?_)).trans_lt (countable live' hash)
    exact (window_sublist roots (Nat.succ_le_succ (le_iff_toNat_le.mp due))).subperm
  obtain ⟨ref, live', run, tally, grown⟩ := adds_createRefCountsOf settings.maxRefCountKeysInMemory reset
    plain kept.holds (deep (roots height)) whole live _ (of db) ⟨rfl, rfl, kept.counts⟩ room
  have ended : ∃ ref', countHeight settings (headers roots current) reset height (of db) = (.ok (), ref') ∧
      ref'.db.nodes = db.nodes ∧ ref'.db.count = tallied ref := by
    cases reset
    all_goals
      refine ⟨_, Proc.bind_of_ok run, ?_, count_flush ..⟩
      change ref.batch.nodes = db.nodes
      rw [tally.clean, tally.nodes_eq]
  obtain ⟨ref', turn, nodes, counted⟩ := ended
  have left : Counted reset height db _ := counted_countHeight settings (headers roots current)
  rw [turn] at left
  cases left with
  | done _ _ needReset heights =>
    have next : ref'.db.heights.refCountStartHeight = height + 1 := by rw [heights]; rfl
    have pruned : ref'.db.heights.pruningStartHeight = db.heights.pruningStartHeight := by rw [heights]; rfl
    have succ := toNat_add_one due bounded
    have later {other : UInt32} (beyond : height + 1 ≤ other) : height ≤ other :=
      le_iff_toNat_le.mpr (by have := le_iff_toNat_le.mp beyond; omega)
    have root : roots height ∈ live' := tally.counts.root_live (mem_cons_self ..)
    refine ⟨ref'.db, live', ⟨ref', turn, rfl⟩, ⟨?_, ?_, ?_, ?_, ?_, ?_, ?_, ?_⟩, heights, needReset aligned⟩
    · rw [needReset aligned]
      simp
    · rw [nodes]
      exact kept.holds
    · rw [next, pruned, succ]
      omega
    · rw [next, succ]
      have : height.toNat ≤ current.toNat := due
      omega
    · rw [next, pruned, succ, counted]
      have counts := tally.counts
      rw [start] at counts
      exact counts.perm push
    · intro x member
      rw [nodes]
      rcases grown.new x member with old | ⟨_, among, reaches⟩
      · exact kept.stored x old
      · rw [mem_singleton.mp among] at reaches
        exact whole x reaches
    · intro other beyond within
      rw [next] at beyond
      rw [nodes]
      exact kept.complete other (by rw [start]; exact later beyond) within
    · intro x present
      rw [nodes] at present
      rcases kept.accounted x present with left | alive | ⟨other, beyond, within, reaches⟩
      · exact .inl left
      · exact .inr (.inl (grown.old alive))
      · rw [start] at beyond
        rw [next]
        by_cases same : other = height
        · subst same
          exact .inr (.inl (tally.counts.reached_live root reaches))
        · refine .inr (.inr ⟨other, le_iff_toNat_le.mpr ?_, within, reaches⟩)
          have beyond : height.toNat ≤ other.toNat := beyond
          have differs : height.toNat ≠ other.toNat := fun equal => same (UInt32.toNat_inj.mp equal.symm)
          omega

theorem Kept.pruneTurn (kept : Kept forest leftover roots current live db) (plain : forest.AllPlain)
    (deep : settings.Deep forest) (bounded : current + 1 ≠ 0) (due : db.heights.pruningStartHeight ≤ current)
    (counted : db.heights.refCountStartHeight.toNat = current.toNat + 1) :
    ∃ db' live', Ends (pruneHeight settings (headers roots current) db.heights.pruningStartHeight) db db' ∧
      Kept forest leftover roots current live' db' ∧
      db'.heights = { db.heights with pruned := some db.heights.pruningStartHeight } ∧ db'.needReset = db.needReset := by
  have whole := kept.retained (UInt32.le_refl _) due
  generalize start : db.heights.pruningStartHeight = height at *
  have before : height.toNat ≤ current.toNat := due
  have split : window roots height.toNat db.heights.refCountStartHeight.toNat =
      roots height :: window roots (height.toNat + 1) db.heights.refCountStartHeight.toNat := by
    rw [window_pop (by omega), UInt32.ofNat_toNat]
  have counts := kept.counts
  rw [start, split] at counts
  obtain ⟨ref, live', run, releasing⟩ := releases_pruneOf live plain kept.holds (deep (roots height)) whole
    live _ (of db) ⟨rfl, by simp [of], fun _ => .inl rfl, Finset.Subset.refl live, counts⟩
  have ended : ∃ ref', pruneHeight settings (headers roots current) height (of db) = (.ok (), ref') ∧
      ref'.db.nodes = ref.batch.nodes ∧ ref'.db.count = tallied ref :=
    ⟨_, Proc.bind_of_ok run, rfl, count_flush ..⟩
  obtain ⟨ref', turn, nodes, viewed⟩ := ended
  have left : Pruned height db _ := pruned_pruneHeight settings (headers roots current)
  rw [turn] at left
  cases left with
  | done _ needReset heights uncounted =>
    have next : ref'.db.heights.pruningStartHeight = height + 1 := by rw [heights]; rfl
    have same : ref'.db.heights.refCountStartHeight = db.heights.refCountStartHeight := by rw [heights]; rfl
    have succ := toNat_add_one due bounded
    have none_left {other : UInt32} (beyond : db.heights.refCountStartHeight ≤ other) (within : other ≤ current) : False := by
      have beyond := le_iff_toNat_le.mp beyond
      have within := le_iff_toNat_le.mp within
      omega
    refine ⟨ref'.db, live', ⟨ref', turn, rfl⟩, ⟨?_, ?_, ?_, ?_, ?_, ?_, ?_, ?_⟩, heights, needReset⟩
    · rw [needReset]
      exact fun set => uncounted (kept.uncounted set)
    · intro hash enc stored
      rw [nodes, releasing.nodes_eq] at stored
      split_ifs at stored
      exact kept.holds hash enc stored
    · rw [next, same, succ]
      omega
    · rw [same]
      exact kept.reached
    · rw [next, same, succ, viewed]
      exact releasing.counts
    · intro x member
      rw [nodes, releasing.nodes_eq, if_neg (by simp [member])]
      exact kept.stored x (releasing.within member)
    · rw [same]
      exact fun other beyond within => (none_left beyond within).elim
    · intro x present
      rw [nodes, releasing.nodes_eq] at present
      split_ifs at present with gone
      · simp at present
      · rcases kept.accounted x present with left | alive | ⟨_, beyond, within, _⟩
        · exact .inl left
        · exact .inr (.inl (by by_contra dead; exact gone ⟨alive, dead⟩))
        · exact (none_left beyond within).elim

theorem heightsFrom_nil {start target : UInt32} (listed : heightsFrom start target = []) : target.toNat + 1 ≤ start.toNat := by
  have none : target.toNat + 1 - start.toNat = 0 := by simpa [heightsFrom] using listed
  omega

theorem Kept.countLoop (kept : Kept forest leftover roots current live db) (plain : forest.AllPlain)
    (deep : settings.Deep forest) (countable : Countable forest roots current db) (bounded : current + 1 ≠ 0)
    (aligned : reset = db.needReset) {heights : List UInt32}
    (listed : heightsFrom db.heights.refCountStartHeight current = heights) :
    ∃ db' live', Ends (countHeights settings (headers roots current) reset heights) db db' ∧
      Kept forest leftover roots current live' db' ∧ db'.heights.refCountStartHeight.toNat = current.toNat + 1 ∧
      db'.heights.pruned = db.heights.pruned ∧ (db.needReset = false → db'.needReset = false) := by
  induction heights generalizing db live reset with
  | nil => exact ⟨db, live, ⟨of db, rfl, rfl⟩, kept, le_antisymm kept.reached (heightsFrom_nil listed), rfl, id⟩
  | cons _ heights ih =>
    obtain ⟨rfl, rest⟩ := heightsFrom_cons bounded listed
    have due : db.heights.refCountStartHeight ≤ current := by
      by_contra beyond
      rw [heightsFrom_eq_nil (UInt32.not_le.mp beyond)] at listed
      cases listed
    obtain ⟨db₁, _, turn, kept₁, recorded, cleared⟩ := kept.countTurn plain deep countable bounded due aligned
    have next : db₁.heights.refCountStartHeight = db.heights.refCountStartHeight + 1 := by rw [recorded]; rfl
    have countable₁ : Countable forest roots current db₁ := by
      rw [Countable, recorded]
      exact countable
    obtain ⟨db₂, live₂, loop, kept₂, counted, pruned, clear⟩ := ih kept₁ countable₁ cleared.symm (by rw [next, rest])
    exact ⟨db₂, live₂, turn.bind fresh_countHeights loop, kept₂, counted, by rw [pruned, recorded], fun _ => clear cleared⟩

theorem Kept.pruneLoop (kept : Kept forest leftover roots current live db) (plain : forest.AllPlain)
    (deep : settings.Deep forest) (bounded : current + 1 ≠ 0)
    (counted : db.heights.refCountStartHeight.toNat = current.toNat + 1) {heights : List UInt32}
    (listed : prunedHeights settings (headers roots current) db.heights.pruningStartHeight = heights) :
    ∃ db' live', Ends (Proc.forEach heights (pruneHeight settings (headers roots current))) db db' ∧
      Kept forest leftover roots current live' db' ∧ db'.heights.refCountStartHeight.toNat = current.toNat + 1 ∧
      db'.needReset = db.needReset := by
  induction heights generalizing db live with
  | nil => exact ⟨db, live, ⟨of db, rfl, rfl⟩, kept, counted, rfl⟩
  | cons _ heights ih =>
    obtain ⟨rfl, rest⟩ := prunedHeights_cons (show (headers roots current).currentHeight + 1 ≠ 0 from bounded) listed
    have due : db.heights.pruningStartHeight ≤ current := by
      unfold prunedHeights at listed
      split_ifs at listed with old
      have below : settings.recentStateCount.toNat < current.toNat := old.1
      have within := le_iff_toNat_le.mp old.2
      change _ ≤ (current - settings.recentStateCount).toNat at within
      rw [UInt32.toNat_sub_of_le _ _ (le_iff_toNat_le.mpr below.le)] at within
      exact le_iff_toNat_le.mpr (by omega)
    obtain ⟨db₁, _, turn, kept₁, recorded, flag⟩ := kept.pruneTurn plain deep bounded due counted
    have next : db₁.heights.pruningStartHeight = db.heights.pruningStartHeight + 1 := by rw [recorded]; rfl
    have same : db₁.heights.refCountStartHeight = db.heights.refCountStartHeight := by rw [recorded]; rfl
    obtain ⟨db₂, live₂, loop, kept₂, counted₂, flag₂⟩ := ih kept₁ (by rw [same, counted]) (by rw [next, rest])
    exact ⟨db₂, live₂, turn.bind (Fresh.forEach fun _ => fresh_pruneHeight) loop, kept₂, counted₂, flag₂.trans flag⟩

theorem Ends.runPruning {chain : StateRoots} {db' : PruneDB} (bounded : chain.currentHeight + 1 ≠ 0)
    (ends : Ends (remaining settings chain db.needReset (heightsFrom db.heights.refCountStartHeight chain.currentHeight)
      (prunedHeights settings chain db.heights.pruningStartHeight)) (afterReset db) db') :
    (runPruning settings chain db).1 = .ok () ∧ (runPruning settings chain db).2.db = db' := by
  obtain ⟨_, run, rfl⟩ := ends
  rw [runPruning_eq bounded]
  obtain ⟨result, ended, -⟩ := fresh_remaining (startOf db)
  rw [startOf_db, run] at result ended
  exact ⟨result, ended⟩

theorem Kept.afterReset (kept : Kept forest leftover roots current live db) : afterReset db = db := by
  unfold Pruning.afterReset
  split_ifs with needReset
  · rw [← kept.uncounted needReset]
  · rfl

variable {world : World}

theorem Kept.run (kept : Kept forest leftover world.roots world.currentHeight live (Pruning.afterReset world.db))
    (plain : forest.AllPlain) (deep : settings.Deep forest)
    (countable : Countable forest world.roots world.currentHeight world.db) :
    ∃ live', Kept forest leftover world.roots world.currentHeight live' (world.run settings).2.db ∧
      (world.db.needReset = false → (world.run settings).2.db.needReset = false) ∧
      ((world.run settings).1 = .ok () ∧
          (world.run settings).2.db.heights.refCountStartHeight.toNat = world.currentHeight.toNat + 1 ∨
        world.currentHeight + 1 = 0 ∧ (world.run settings).1 = crash "loop without end") := by
  by_cases bounded : world.currentHeight + 1 = 0
  · have failed : world.run settings = _ := runPruning_unbounded bounded world.db
    rw [failed]
    exact ⟨live, kept, fun clear => by simp [clear, Pruning.afterReset], .inr ⟨bounded, rfl⟩⟩
  · have needReset : world.db.needReset = (Pruning.afterReset world.db).needReset := by
      unfold Pruning.afterReset
      split_ifs <;> rfl
    have heights := afterReset_heights world.db
    obtain ⟨db₁, _, counting, kept₁, counted, pruned, clear⟩ :=
      kept.countLoop plain deep (by rwa [Countable, heights]) bounded needReset (by rw [heights])
    have same : db₁.heights.pruningStartHeight = world.db.heights.pruningStartHeight := by
      rw [PruningHeights.pruningStartHeight, pruned, heights]
      rfl
    obtain ⟨db₂, live₂, pruning, kept₂, counted₂, flag⟩ := kept₁.pruneLoop plain deep bounded counted rfl
    rw [same] at pruning
    have whole : Ends (remaining settings world.chain world.db.needReset
        (heightsFrom world.db.heights.refCountStartHeight world.chain.currentHeight)
        (prunedHeights settings world.chain world.db.heights.pruningStartHeight)) (Pruning.afterReset world.db) db₂ :=
      counting.bind (Fresh.forEach fun _ => fresh_pruneHeight) pruning
    obtain ⟨result, ended⟩ := whole.runPruning bounded
    rw [World.run, ended]
    exact ⟨live₂, kept₂, fun unset => flag.trans (clear (needReset ▸ unset)), .inl ⟨result, counted₂⟩⟩

theorem window_update (root : Bytes) (before : stop ≤ height.toNat) :
    window (update roots height root) start stop = window roots start stop := by
  refine map_congr_left fun i member => update_of_ne (fun same => ?_) ..
  rw [mem_range'_1] at member
  have small : i < 2 ^ 32 := by
    have := height.toNat_lt
    omega
  have same := congrArg toNat same
  rw [toNat_ofNat_of_lt' small] at same
  omega

theorem Kept.saveBlock {nodes : Trie.Database} {root : Bytes} (kept : Kept forest leftover roots current live db)
    (next : current + 1 ≠ 0) (keeps : ∀ x, db.nodes x ≠ none → nodes x ≠ none) (holds : forest.Holds nodes)
    (complete : forest.Complete nodes root)
    (fresh : ∀ x, nodes x ≠ none → db.nodes x ≠ none ∨ forest.Reaches root x ∨ x ∈ leftover) :
    Kept forest leftover (update roots (current + 1) root) (current + 1) live { db with nodes } := by
  have succ := toNat_add_one (UInt32.le_refl current) next
  have earlier {height : UInt32} (within : height ≤ current) : update roots (current + 1) root height = roots height := by
    refine update_of_ne (fun same => ?_) ..
    have within : height.toNat ≤ current.toNat := within
    rw [same] at within
    omega
  have last {height : UInt32} (within : height ≤ current + 1) : height ≤ current ∨ height = current + 1 := by
    have within := le_iff_toNat_le.mp within
    rcases Nat.lt_or_ge current.toNat height.toNat with beyond | below
    · exact .inr (UInt32.toNat_inj.mp (by omega))
    · exact .inl below
  refine ⟨kept.uncounted, holds, kept.ordered, by have := kept.reached; rw [succ]; exact this.trans (Nat.le_succ _), ?_,
    fun x member => keeps x (kept.stored x member), fun height beyond within => ?_, fun x present => ?_⟩
  · have counts := kept.counts
    rw [← window_update root (show _ ≤ (current + 1).toNat by rw [succ]; exact kept.reached)] at counts
    exact counts
  · rcases last within with old | rfl
    · rw [earlier old]
      exact fun x reaches => keeps x (kept.complete height beyond old x reaches)
    · rw [update_self]
      exact complete
  · rcases fresh x present with old | new | left
    · rcases kept.accounted x old with left | alive | ⟨height, beyond, within, _⟩
      · exact .inl left
      · exact .inr (.inl alive)
      · refine .inr (.inr ⟨height, beyond, ?_, by rwa [earlier within]⟩)
        have within := le_iff_toNat_le.mp within
        exact le_iff_toNat_le.mpr (by omega)
    · refine .inr (.inr ⟨current + 1, le_iff_toNat_le.mpr ?_, UInt32.le_refl _, by rwa [update_self]⟩)
      rw [succ]
      exact kept.reached
    · exact .inl left

theorem kept_fresh {nodes : Trie.Database} {heights : PruningHeights} {needReset : Bool}
    (counted : heights.refCountStartHeight = height) (pruned : heights.pruningStartHeight = height)
    (holds : forest.Holds nodes) (complete : forest.Complete nodes (roots height))
    (fresh : ∀ x, nodes x ≠ none → forest.Reaches (roots height) x ∨ x ∈ leftover) :
    Kept forest leftover roots height ∅ ⟨nodes, fun _ => none, heights, needReset⟩ := by
  have only {other : UInt32} (beyond : heights.refCountStartHeight ≤ other) (within : other ≤ height) : other = height :=
    UInt32.le_antisymm within (counted ▸ beyond)
  refine ⟨fun _ => rfl, holds, by rw [counted, pruned], by rw [counted]; exact Nat.le_succ _, ?_, by simp,
    fun other beyond within => by rw [only beyond within]; exact complete, fun x present => ?_⟩
  · rw [counted, pruned, window, Nat.sub_self]
    exact Counts.empty
  · rcases fresh x present with new | left
    · exact .inr (.inr ⟨height, UInt32.le_of_eq counted, UInt32.le_refl _, new⟩)
    · exact .inl left

theorem History.kept (history : History forest leftover world) (plain : forest.AllPlain) :
    ∃ live, Kept forest leftover world.roots world.currentHeight live (afterReset world.db) := by
  induction history with
  | genesis holds complete fresh => exact ⟨∅, kept_fresh rfl rfl holds complete fresh⟩
  | fastSync _ holds complete fresh =>
    exact ⟨∅, kept_fresh (UInt32.sub_add_cancel ..) (UInt32.sub_add_cancel ..) holds complete fresh⟩
  | @saveBlock world nodes root _ next keeps holds complete fresh ih =>
    obtain ⟨live, kept⟩ := ih
    have same : afterReset { world.db with nodes } = { afterReset world.db with nodes } := by
      unfold afterReset
      split_ifs <;> rfl
    have nodes_eq : (afterReset world.db).nodes = world.db.nodes := by
      unfold afterReset
      split_ifs <;> rfl
    exact ⟨live, by rw [same]; exact kept.saveBlock next (by rwa [nodes_eq]) holds complete (by rwa [nodes_eq])⟩
  | prune _ deep countable ih =>
    obtain ⟨_, kept⟩ := ih
    obtain ⟨live', kept', -⟩ := kept.run plain deep countable
    exact ⟨live', by rw [kept'.afterReset]; exact kept'⟩

def decode (enc : Bytes) : Option Trie.Node := (Trie.mustDecodeNode enc).toOption

/-- Encodings under their hashes, all of which are read, with the ranks of their nodes. -/
structure NodeTable where
  table : List (Bytes × Bytes)
  rank : Bytes → Nat
  falls : ∀ entry ∈ table, ∀ c ∈ (decode entry.2).elim [] refs, rank c < rank entry.1
  decodes : ∀ entry ∈ table, (decode entry.2).isSome = true

def label (n : UInt8) : Bytes := [n]

namespace NodeTable

variable (sample : NodeTable)

def entry (hash : Bytes) : Option Bytes := (sample.table.find? fun entry => entry.1 = hash).map Prod.snd

def put (hashes : List Bytes) (nodes : Trie.Database) : Trie.Database := fun hash =>
  if hash ∈ hashes then sample.entry hash else nodes hash

theorem mem_of_entry {sample : NodeTable} {hash enc : Bytes} (found : sample.entry hash = some enc) :
    (hash, enc) ∈ sample.table := by
  obtain ⟨⟨_, _⟩, first, rfl⟩ := Option.map_eq_some_iff.mp found
  have same := find?_some first
  rw [decide_eq_true_eq] at same
  exact same ▸ List.mem_of_find?_eq_some first

def nodes : Forest where
  node := fun hash => (sample.entry hash).bind decode
  rank := sample.rank
  falls := by
    intro hash n found c kid
    obtain ⟨enc, found, decoded⟩ := Option.bind_eq_some_iff.mp found
    exact sample.falls (hash, enc) (mem_of_entry found) c (by rw [decoded]; exact kid)

/-- The hashes are those of the trie of a root, which has at most three levels of nodes. -/
structure IsTrie (hashes : List Bytes) (root : Bytes) : Prop where
  known : ∀ hash ∈ hashes, sample.entry hash ≠ none
  closed : ∀ hash ∈ hashes, ∀ c ∈ sample.nodes.kids hash, c ∈ hashes
  root_mem : root ∈ hashes
  only : ∀ hash ∈ hashes, hash = root ∨ ∃ c ∈ sample.nodes.kids root, hash = c ∨ hash ∈ sample.nodes.kids c

instance (hashes : List Bytes) (root : Bytes) : Decidable (sample.IsTrie hashes root) := decidable_of_iff
  ((∀ hash ∈ hashes, sample.entry hash ≠ none) ∧ (∀ hash ∈ hashes, ∀ c ∈ sample.nodes.kids hash, c ∈ hashes) ∧
    root ∈ hashes ∧ ∀ hash ∈ hashes, hash = root ∨ ∃ c ∈ sample.nodes.kids root, hash = c ∨ hash ∈ sample.nodes.kids c)
  ⟨fun ⟨known, closed, member, only⟩ => ⟨known, closed, member, only⟩, fun trie => ⟨trie.1, trie.2, trie.3, trie.4⟩⟩

variable {sample} {hashes : List Bytes} {root : Bytes} {stored : Trie.Database}

theorem holds_put (holds : sample.nodes.Holds stored) : sample.nodes.Holds (sample.put hashes stored) := by
  intro hash enc found
  unfold put at found
  split_ifs at found
  · obtain ⟨n, decoded⟩ := Option.isSome_iff_exists.mp (sample.decodes (hash, enc) (mem_of_entry found))
    refine ⟨n, ?_, by simp [nodes, found, decoded]⟩
    unfold decode at decoded
    cases read : Trie.mustDecodeNode enc with
    | error _ => simp [read, Except.toOption] at decoded
    | ok _ =>
      rw [read] at decoded
      rw [Option.some.inj decoded]
  · exact holds hash enc found

namespace IsTrie

theorem put_ne_none (trie : sample.IsTrie hashes root) {hash : Bytes} (found : stored hash ≠ none) :
    sample.put hashes stored hash ≠ none := by
  unfold put
  split_ifs with member
  · exact trie.known hash member
  · exact found

theorem complete (trie : sample.IsTrie hashes root) : sample.nodes.Complete (sample.put hashes stored) root := by
  intro hash reaches
  have member : hash ∈ hashes := reaches.mem_of_closed (fun h member => trie.closed h member) trie.root_mem
  rw [put, if_pos member]
  exact trie.known hash member

theorem fresh (trie : sample.IsTrie hashes root) {hash : Bytes} (found : sample.put hashes stored hash ≠ none) :
    stored hash ≠ none ∨ sample.nodes.Reaches root hash := by
  unfold put at found
  split_ifs at found with member
  · rcases trie.only hash member with rfl | ⟨_, kid, rfl | below⟩
    · exact .inr (.refl _)
    · exact .inr (.step kid (.refl _))
    · exact .inr (.step kid (.step below (.refl _)))
  · exact .inl found

end IsTrie

variable (sample)

def only (labels : List UInt8) : Trie.Database := sample.put (labels.map label) fun _ => none

def genesis (labels : List UInt8) (root : UInt8) : World :=
  ⟨⟨sample.only labels, fun _ => none, ⟨none, none⟩, false⟩, fun _ => label root, 0⟩

def next (world : World) (labels : List UInt8) (root : UInt8) : World :=
  ⟨{ world.db with nodes := sample.put (labels.map label) world.db.nodes },
    Function.update world.roots (world.currentHeight + 1) (label root), world.currentHeight + 1⟩

structure Reached (leftover : Set Bytes) (world : World) : Prop where
  history : History sample.nodes leftover world
  holds : sample.nodes.Holds world.db.nodes

variable {sample} {labels : List UInt8} {top : UInt8}

theorem holds_only : sample.nodes.Holds (sample.only labels) := holds_put (by simp [Forest.Holds])

theorem IsTrie.genesis (trie : sample.IsTrie (labels.map label) (label top)) :
    sample.Reached leftover (sample.genesis labels top) :=
  ⟨.genesis holds_only trie.complete fun x found => .inl ((trie.fresh found).resolve_left (by simp)), holds_only⟩

theorem Reached.next (reached : sample.Reached leftover world) (trie : sample.IsTrie (labels.map label) (label top))
    (bounded : world.currentHeight + 1 ≠ 0) : sample.Reached leftover (sample.next world labels top) := by
  have holds : sample.nodes.Holds (sample.put (labels.map label) world.db.nodes) := holds_put reached.holds
  exact ⟨.saveBlock reached.history bounded (fun x => trie.put_ne_none) holds trie.complete
    fun x found => (trie.fresh found).imp_right .inl, holds⟩

def pruned (settings : Settings) (world : World) : World := { world with db := (world.run settings).2.db }

variable (sample) in
/-- The number of references of all nodes. -/
def references : Nat := ∑ p ∈ (sample.table.map Prod.fst).toFinset, (sample.nodes.kids p).length

theorem countable (few : world.currentHeight.toNat + 1 + sample.references < 2 ^ 32) :
    Countable sample.nodes world.roots world.currentHeight world.db := by
  intro live hash
  refine (references_le fun p refers => ?_).trans_lt (lt_of_le_of_lt (Nat.add_le_add_right ?_ _) few)
  · cases found : sample.entry p with
    | none => exact absurd (by simp [Forest.kids, nodes, found]) refers
    | some enc => exact mem_toFinset.mpr (mem_map_of_mem (mem_of_entry found))
  · rw [window, length_map, length_range']
    exact Nat.sub_le ..

theorem Reached.pruned (reached : sample.Reached leftover world) (deep : settings.Deep sample.nodes)
    (few : world.currentHeight.toNat + 1 + sample.references < 2 ^ 32) :
    sample.Reached leftover (pruned settings world) :=
  ⟨.prune reached.history deep (countable few), fun hash enc found => reached.holds hash enc (nodes_of_runPruning found)⟩

end NodeTable

/-- Pruning keeps retained states: in every history without nodes inside the encodings of others, a run of
`PruneStatesLowMemory` never fails with a count, and then the trie of every height above the pruned ones is in the
database. -/
theorem pruning_keeps_retained_states (plain : forest.AllPlain) (history : History forest Set.univ world)
    (deep : settings.Deep forest) (countable : Countable forest world.roots world.currentHeight world.db) :
    ((world.run settings).1 = .ok () ∨ world.currentHeight + 1 = 0 ∧ (world.run settings).1 = crash "loop without end") ∧
      ∀ height, (world.run settings).2.db.heights.pruningStartHeight ≤ height → height ≤ world.currentHeight →
        ∀ x, forest.Reaches (world.roots height) x → (world.run settings).2.db.nodes x ≠ none := by
  obtain ⟨live, kept⟩ := history.kept plain
  obtain ⟨live', kept', -, result⟩ := kept.run plain deep countable
  exact ⟨result.imp_left And.left, fun height unpruned within => kept'.retained unpruned within⟩

/-! A leaf of fewer than 32 bytes stays in the encoding of its parent and carries the hash of the parent when it is loaded, so
that the parent is counted and released once more for each of them. -/

namespace EmbeddedLeaf

open Trie (Collapsed)
open NodeTable

def leaf (v : UInt8) : Collapsed := .shortNode [0x20] (.valueNode (List.replicate 40 v))

def smallLeaf (v : UInt8) : Collapsed := .shortNode [0x20] (.valueNode [v])

def branch (children : List (Trie.Nibble × Collapsed)) : Bytes :=
  (Collapsed.fullNode fun i => ((children.find? fun child => child.1 = i).map Prod.snd).getD (.valueNode [])).serialize

def hash (n : UInt8) : Collapsed := .hashNode (label n)

def plainTable : List (Bytes × Bytes) :=
  [(label 1, (leaf 1).serialize), (label 2, (leaf 2).serialize), (label 3, (leaf 3).serialize),
    (label 5, branch [(1, hash 1), (2, hash 2)]), (label 11, branch [(0, hash 2), (15, hash 3)]),
    (label 13, branch [(0, hash 5), (15, hash 3)])]

def embeddingTable : List (Bytes × Bytes) :=
  [(label 4, branch [(0, smallLeaf 7), (1, hash 1)]), (label 10, branch [(0, hash 4), (1, hash 4), (15, hash 3)]),
    (label 12, branch [(0, hash 4), (15, hash 3)]), (label 14, branch [(0, hash 4), (14, hash 2), (15, hash 3)])]

def rank (bytes : Bytes) : Nat := (bytes.headD 0).toNat % 16

theorem tables_decode : (∀ entry ∈ plainTable ++ embeddingTable,
      (decode entry.2).isSome = true ∧ ∀ c ∈ (decode entry.2).elim [] refs, rank c < rank entry.1) ∧
    ∀ entry ∈ plainTable, ∀ n ∈ decode entry.2, Plain n := by
  decide +kernel

def plain : NodeTable where
  table := plainTable
  rank := rank
  falls entry member := (tables_decode.1 entry (List.mem_append_left _ member)).2
  decodes entry member := (tables_decode.1 entry (List.mem_append_left _ member)).1

def embedding : NodeTable where
  table := plainTable ++ embeddingTable
  rank := rank
  falls entry member := (tables_decode.1 entry member).2
  decodes entry member := (tables_decode.1 entry member).1

def frugal : Settings := { recentStateCount := 1, maxRefCountKeysInMemory := 2, depth := 40 }

theorem deep_frugal {sample : NodeTable} (ranked : sample.rank = rank) : frugal.Deep sample.nodes := fun hash => by
  have : rank hash < 16 := Nat.mod_lt _ (by decide)
  change 2 * sample.rank hash + 2 ≤ 40
  rw [ranked]
  omega

theorem few_references : plain.references ≤ 100 ∧ embedding.references ≤ 100 := by
  decide +kernel

theorem allPlain : plain.nodes.AllPlain := by
  have table := tables_decode.2
  intro hash n found
  obtain ⟨enc, found, decoded⟩ := Option.bind_eq_some_iff.mp found
  exact table (hash, enc) (mem_of_entry found) n decoded

theorem plain_tries :
    plain.IsTrie ([2, 3, 11].map label) (label 11) ∧ plain.IsTrie ([1, 2, 3, 5, 13].map label) (label 13) := by
  decide +kernel

def threeBlocks : World := plain.next (plain.next (plain.genesis [2, 3, 11] 11) [1, 2, 3, 5, 13] 13) [2, 3, 11] 11

theorem reached_threeBlocks : plain.Reached leftover threeBlocks :=
  (plain_tries.1.genesis.next plain_tries.2 (by decide)).next plain_tries.1 (by decide)

theorem run_threeBlocks :
    (threeBlocks.run frugal).1 = .ok () ∧ (threeBlocks.run frugal).2.db.heights.pruningStartHeight = 2 := by
  decide +kernel

theorem countable_threeBlocks : Countable plain.nodes threeBlocks.roots threeBlocks.currentHeight threeBlocks.db :=
  countable (by
    have height : threeBlocks.currentHeight.toNat = 2 := rfl
    have := few_references.1
    omega)

theorem pruning_keeps_retained_states_threeBlocks : (threeBlocks.run frugal).2.db.heights.pruningStartHeight = 2 ∧
      ∀ x, plain.nodes.Reaches (threeBlocks.roots 2) x → (threeBlocks.run frugal).2.db.nodes x ≠ none :=
  ⟨run_threeBlocks.2, (pruning_keeps_retained_states allPlain reached_threeBlocks.history (deep_frugal rfl)
    countable_threeBlocks).2 2 (UInt32.le_of_eq run_threeBlocks.2) (by decide)⟩

def synced : World :=
  ⟨⟨embedding.only [1, 3, 4, 10], fun _ => none, ⟨some (5 - 1), some (5 - 1)⟩, true⟩, fun _ => label 10, 5⟩

def height6 : World := embedding.next synced [2, 3, 11] 11

def height7 : World := embedding.next (pruned frugal height6) [1, 3, 4, 12] 12

def height8 : World := embedding.next (pruned frugal height7) [1, 2, 3, 5, 13] 13

def height9 : World := embedding.next (pruned frugal height8) [1, 2, 3, 4, 14] 14

theorem embedding_tries :
    embedding.IsTrie ([2].map label) (label 2) ∧ embedding.IsTrie ([1, 3, 4, 10].map label) (label 10) ∧
      embedding.IsTrie ([2, 3, 11].map label) (label 11) ∧ embedding.IsTrie ([1, 3, 4, 12].map label) (label 12) ∧
      embedding.IsTrie ([1, 2, 3, 5, 13].map label) (label 13) ∧ embedding.IsTrie ([1, 2, 3, 4, 14].map label) (label 14) := by
  decide +kernel

theorem reached_synced : embedding.Reached Set.univ synced := by
  obtain ⟨old, trie, -⟩ := embedding_tries
  have first : embedding.Reached Set.univ _ := old.genesis
  refine ⟨History.fastSync first.history holds_only ?_ fun _ _ => .inr trivial, holds_only⟩
  exact trie.complete

theorem reached_height9 : embedding.Reached Set.univ height9 := by
  obtain ⟨-, -, trie6, trie7, trie8, trie9⟩ := embedding_tries
  have deep : frugal.Deep embedding.nodes := deep_frugal rfl
  have few {height : Nat} (low : height ≤ 8) : height + 1 + embedding.references < 2 ^ 32 := by
    have := few_references.2
    omega
  have six : embedding.Reached Set.univ height6 := reached_synced.next trie6 (by decide)
  have seven : embedding.Reached Set.univ height7 := (six.pruned deep (few (by decide))).next trie7 (by decide)
  have eight : embedding.Reached Set.univ height8 := (seven.pruned deep (few (by decide))).next trie8 (by decide)
  exact (eight.pruned deep (few (by decide))).next trie9 (by decide)

theorem run_height9 : (height9.run frugal).1 = .ok () ∧ (height9.run frugal).2.db.heights.pruningStartHeight ≤ 9 ∧
      (height9.run frugal).2.db.nodes (label 1) = none ∧ label 4 ∈ embedding.nodes.kids (label 14) ∧
      label 1 ∈ embedding.nodes.kids (label 4) := by
  decide +kernel

/-- The state of height 9 is retained, and the run deletes a leaf of it: the count of the branching node came back when the
node was deleted, so that its references were not counted again with the state of height 7, and the run releases those of
height 8. -/
theorem retained_state_lost :
    History embedding.nodes Set.univ height9 ∧ frugal.Deep embedding.nodes ∧ (height9.run frugal).1 = .ok () ∧
      (height9.run frugal).2.db.heights.pruningStartHeight ≤ 9 ∧ 9 ≤ height9.currentHeight ∧
      embedding.nodes.Reaches (height9.roots 9) (label 1) ∧ (height9.run frugal).2.db.nodes (label 1) = none := by
  obtain ⟨done, unpruned, lost, kid, grandkid⟩ := run_height9
  exact ⟨reached_height9.history, deep_frugal rfl, done, unpruned, by decide, .step kid (.step grandkid (.refl _)), lost⟩

end EmbeddedLeaf

/-- Pruning reclaims dead nodes: in every history without nodes inside the encodings of others, what a run leaves in the
database is reached from the state root of a height above the pruned ones. -/
theorem pruning_reclaims_dead_nodes (plain : forest.AllPlain) (history : History forest ∅ world)
    (deep : settings.Deep forest) (countable : Countable forest world.roots world.currentHeight world.db)
    (done : (world.run settings).1 = .ok ()) :
    ∀ x, (world.run settings).2.db.nodes x ≠ none →
      ∃ height, (world.run settings).2.db.heights.pruningStartHeight ≤ height ∧ height ≤ world.currentHeight ∧
        forest.Reaches (world.roots height) x := by
  intro x present
  obtain ⟨live, kept⟩ := history.kept plain
  obtain ⟨live', kept', -, ⟨-, counted⟩ | ⟨-, failed⟩⟩ := kept.run plain deep countable
  · rcases kept'.accounted x present with ⟨⟨⟩⟩ | alive | ⟨height, beyond, within, -⟩
    · have bounded (hash : Bytes) : forest.rank hash ≤ settings.depth := by
        have := deep hash
        omega
      obtain ⟨root, member, reaches⟩ := kept'.counts.live_reached forest.kids_fall bounded alive
      obtain ⟨i, between, rfl⟩ := List.mem_map.mp member
      rw [List.mem_range'_1, counted] at between
      have small : i < 2 ^ 32 := by
        have := world.currentHeight.toNat_lt
        omega
      refine ⟨UInt32.ofNat i, UInt32.le_iff_toNat_le.mpr ?_, UInt32.le_iff_toNat_le.mpr ?_, reaches⟩ <;>
        rw [UInt32.toNat_ofNat_of_lt' small] <;> omega
    · have beyond := UInt32.le_iff_toNat_le.mp beyond
      have within := UInt32.le_iff_toNat_le.mp within
      omega
  · rw [failed] at done
    cases done

namespace EmbeddedLeaf

open NodeTable

theorem pruning_reclaims_dead_nodes_threeBlocks :
    (threeBlocks.run frugal).1 = .ok () ∧ ∀ x, (threeBlocks.run frugal).2.db.nodes x ≠ none →
      ∃ height, (threeBlocks.run frugal).2.db.heights.pruningStartHeight ≤ height ∧ height ≤ threeBlocks.currentHeight ∧
        plain.nodes.Reaches (threeBlocks.roots height) x :=
  ⟨run_threeBlocks.1, pruning_reclaims_dead_nodes allPlain reached_threeBlocks.history (deep_frugal rfl)
    countable_threeBlocks run_threeBlocks.1⟩

def height2 : World :=
  embedding.next (embedding.next (embedding.genesis [1, 3, 4, 12] 12) [2, 3, 11] 11) [1, 2, 3, 5, 13] 13

theorem reached_height2 : embedding.Reached ∅ height2 := by
  obtain ⟨-, -, trie1, trie0, trie2, -⟩ := embedding_tries
  exact (trie0.genesis.next trie1 (by decide)).next trie2 (by decide)

theorem run_height2 : (height2.run frugal).1 = .ok () ∧ (height2.run frugal).2.db.heights.pruned = some 1 ∧
      (height2.run frugal).2.db.nodes (label 4) ≠ none ∧ label 4 ∉ [1, 2, 3, 5, 13].map label := by
  decide +kernel

/-- The counts were built from height 0 and heights 0 and 1 are pruned, but the branching node of height 0, which was counted
twice and released once, is still there. -/
theorem dead_node_remains :
    History embedding.nodes ∅ height2 ∧ frugal.Deep embedding.nodes ∧ (height2.run frugal).1 = .ok () ∧
      (height2.run frugal).2.db.heights.pruned = some 1 ∧ (height2.run frugal).2.db.nodes (label 4) ≠ none ∧
      ¬∃ height, (height2.run frugal).2.db.heights.pruningStartHeight ≤ height ∧ height ≤ height2.currentHeight ∧
        embedding.nodes.Reaches (height2.roots height) (label 4) := by
  obtain ⟨done, pruned, remains, outside⟩ := run_height2
  refine ⟨reached_height2.history, deep_frugal rfl, done, pruned, remains, ?_⟩
  rintro ⟨height, above, below, reaches⟩
  have start : (height2.run frugal).2.db.heights.pruningStartHeight = 2 := by
    rw [PruningHeights.pruningStartHeight, pruned]
    rfl
  obtain rfl : height = 2 := UInt32.le_antisymm below (start ▸ above)
  obtain ⟨-, -, -, -, trie, -⟩ := embedding_tries
  exact outside (reaches.mem_of_closed (fun h member => trie.closed h member) trie.root_mem)

end EmbeddedLeaf

end Nkn.Pruning
