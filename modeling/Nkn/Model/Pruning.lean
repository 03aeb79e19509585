import Nkn.Model.Rollback
import Nkn.Model.Trie

/-! # Pruning

`chain/trie/pruning.go` and `PruneStatesLowMemory`: the tries of the heights share their nodes, and the database keeps
for every node the number of references to it. -/

namespace Nkn.Pruning

open Go Outcome Store

/-- What the database holds for the tries: nodes, counts, the heights that are counted and pruned, and the flag that asks
for the counts to be built anew. -/
structure PruneDB where
  nodes : Trie.Database
  counts : Bytes → Option UInt32
  heights : PruningHeights
  needReset : Bool

namespace PruneDB

def deleteNode (db : PruneDB) (hash : Bytes) : PruneDB := { db with nodes := Function.update db.nodes hash none }

def deleteCount (db : PruneDB) (hash : Bytes) : PruneDB := { db with counts := Function.update db.counts hash none }

end PruneDB

/-- `RefCounts` with the database as the last commit left it, the database as the batch will leave it, and what each commit
has left so far. -/
structure RefCounts where
  db : PruneDB
  batch : PruneDB
  counts : GoMap Bytes UInt32
  commits : List PruneDB

/-- A node as `Deserialize` returns it with `needFlags`: the node and the nodes inside its encoding remember the hash under
which they are stored. -/
def withHash (hash : Bytes) : Trie.Node → Trie.Node
  | .shortNode key val _ => .shortNode key (withHash hash val) { hash := some hash }
  | .fullNode children _ => .fullNode (fun i => withHash hash (children i)) { hash := some hash }
  | n => n

def cachedHash (flags : Trie.NodeFlag) : Bytes := flags.hash.getD []

def resolveHash (db : PruneDB) (hash : Bytes) : Outcome Trie.Node := do
  let n ← Trie.Node.resolveHash db.nodes hash
  .ok (withHash hash n)

namespace RefCounts

def of (db : PruneDB) : RefCounts := ⟨db, db, ∅, []⟩

def newRefCounts : Proc RefCounts Unit := Proc.modify fun ref => { ref with counts := ∅ }

def newBatch : Proc RefCounts Unit := Proc.modify fun ref => { ref with batch := ref.db }

def commit : Proc RefCounts Unit := Proc.modify fun ref =>
  { ref with db := ref.batch, commits := ref.commits ++ [ref.batch] }

def inBatch (change : PruneDB → PruneDB) : Proc RefCounts Unit :=
  Proc.modify fun ref => { ref with batch := change ref.batch }

def persistRefCounts : Proc RefCounts Unit := Proc.modify fun ref =>
  { ref with batch := { ref.batch with counts := ref.counts.flush some ref.batch.counts } }

def persistRefCountHeights (height : UInt32) : Proc RefCounts Unit :=
  inBatch fun db => { db with heights := { db.heights with counted := some height } }

def persistPrunedHeights (height : UInt32) : Proc RefCounts Unit :=
  inBatch fun db => { db with heights := { db.heights with pruned := some height } }

def clearNeedReset : Proc RefCounts Unit := inBatch fun db => { db with needReset := false }

def removeAllRefCount : Proc RefCounts Unit := do
  newBatch
  inBatch fun db => { db with counts := fun _ => none }
  commit

def setCount (hash : Bytes) (count : UInt32) : Proc RefCounts Unit :=
  Proc.modify fun ref => { ref with counts := ref.counts.store hash count }

def increment (hash : Bytes) : Proc RefCounts Unit :=
  Proc.modify fun ref => { ref with counts := ref.counts.store hash (ref.counts.read 0 hash + 1) }

/-- The count of a node, from memory or else from the database; it is in memory afterwards. -/
def loadCount (hash : Bytes) : Proc RefCounts UInt32 := do
  let count ← Proc.gets fun ref => (ref.counts.load hash).getD ((ref.db.counts hash).getD 0)
  setCount hash count
  pure count

def flush : Proc RefCounts Unit := do
  persistRefCounts
  commit
  Proc.modify fun ref => { ref with counts := ∅ }
  newBatch

section

variable (maxRefCountKeysInMemory : Nat) (persistIntermediate : Bool)

/-- `createRefCounts`. `depth` bounds the recursion, which ends by itself in a database that holds tries. -/
def createRefCounts : (depth : Nat) → Trie.Node → Proc RefCounts Unit
  | 0, _ => Proc.lift (crash "stack overflow")
  | depth + 1, n => do
    let full ← Proc.gets fun ref => decide (maxRefCountKeysInMemory ≤ ref.counts.keys.length)
    Proc.when (persistIntermediate && full = true) flush
    match n with
    | .shortNode _ val flags => do
      let count ← loadCount (cachedHash flags)
      Proc.when (count = 0) (createRefCounts depth val)
      increment (cachedHash flags)
    | .fullNode children flags => do
      let count ← loadCount (cachedHash flags)
      Proc.when (count = 0) (Proc.forEach (List.finRange 17) fun i =>
        Proc.when ((children i).isNil = false) (createRefCounts depth (children i)))
      increment (cachedHash flags)
    | .hashNode hash => do
      let count ← loadCount hash
      if count ≠ 0 then increment hash
      else
        let db ← Proc.gets RefCounts.db
        let child ← Proc.lift (resolveHash db hash)
        createRefCounts depth child
    | .nil => pure ()
    | .valueNode _ => pure ()

def createRefCountsOf (depth : Nat) (root : Bytes) : Proc RefCounts Unit := do
  let db ← Proc.gets RefCounts.db
  let n ← Proc.lift (resolveHash db root)
  createRefCounts maxRefCountKeysInMemory persistIntermediate depth n

end

/-- The count of a node, from memory or else from the database; a count that is missing ends the process. -/
def knownCount (hash : Bytes) : Proc RefCounts UInt32 := do
  match ← Proc.gets fun ref => (ref.counts.load hash, ref.db.counts hash) with
  | (some count, _) => pure count
  | (none, some count) => do
    setCount hash count
    pure count
  | (none, none) => Proc.lift (crash "Trie get error: leveldb: not found")

/-- The count of a node that is released; a count of zero ends the process. -/
def releasedCount (hash : Bytes) : Proc RefCounts UInt32 := do
  let count ← knownCount hash
  Proc.when (count = 0) (Proc.lift (crash s!"RefCount cannot be zero, {hexText hash}"))
  pure count

def deleteNode (hash : Bytes) : Proc RefCounts Unit := do
  Proc.modify fun ref => { ref with counts := ref.counts.delete hash }
  inBatch fun db => db.deleteNode hash
  inBatch fun db => db.deleteCount hash

def prune : (depth : Nat) → Trie.Node → Proc RefCounts Unit
  | 0, _ => Proc.lift (crash "stack overflow")
  | depth + 1, n =>
    match n with
    | .shortNode _ val flags => do
      let count ← releasedCount (cachedHash flags)
      if count > 1 then setCount (cachedHash flags) (count - 1)
      else do
        deleteNode (cachedHash flags)
        prune depth val
    | .fullNode children flags => do
      let count ← releasedCount (cachedHash flags)
      if count > 1 then setCount (cachedHash flags) (count - 1)
      else do
        deleteNode (cachedHash flags)
        Proc.forEach (List.finRange 17) fun i => Proc.when ((children i).isNil = false) (prune depth (children i))
    | .hashNode hash => do
      let count ← releasedCount hash
      if count > 1 then setCount hash (count - 1)
      else do
        let db ← Proc.gets RefCounts.db
        let child ← Proc.lift (resolveHash db hash)
        prune depth child
    | .nil => pure ()
    | .valueNode _ => pure ()

def pruneOf (depth : Nat) (root : Bytes) : Proc RefCounts Unit := do
  let db ← Proc.gets RefCounts.db
  let n ← Proc.lift (resolveHash db root)
  prune depth n

end RefCounts

/-- What a run depends on besides the database: the number of recent states that are kept, the number of counts that are
kept in memory, and the bound on recursion. -/
structure Settings where
  recentStateCount : UInt32
  maxRefCountKeysInMemory : Nat
  depth : Nat

/-- The headers of the chain as far as pruning reads them: the state roots and the current height. -/
structure StateRoots where
  stateRoot : UInt32 → Outcome Bytes
  currentHeight : UInt32

def heightsFrom (start target : UInt32) : List UInt32 :=
  (List.range (target.toNat + 1 - start.toNat)).map fun i => UInt32.ofNat (start.toNat + i)

section

open RefCounts

variable (settings : Settings) (chain : StateRoots)

def maybeResetRefCount : Proc RefCounts Bool := do
  let needReset ← Proc.gets fun ref => ref.db.needReset
  Proc.when (needReset = true) removeAllRefCount
  pure needReset

/-- One turn of the loop that counts: the trie of a height. The first turn after a reset may commit in between and clears
the flag. -/
def countHeight (reset : Bool) (height : UInt32) : Proc RefCounts Unit := do
  let root ← Proc.lift (chain.stateRoot height)
  newRefCounts
  newBatch
  createRefCountsOf settings.maxRefCountKeysInMemory reset settings.depth root
  persistRefCounts
  persistRefCountHeights height
  Proc.when (reset = true) clearNeedReset
  commit

def countHeights : Bool → List UInt32 → Proc RefCounts Unit
  | _, [] => pure ()
  | reset, height :: rest => do
    countHeight settings chain reset height
    countHeights false rest

def pruneHeight (height : UInt32) : Proc RefCounts Unit := do
  let root ← Proc.lift (chain.stateRoot height)
  newRefCounts
  newBatch
  pruneOf settings.depth root
  persistRefCounts
  persistPrunedHeights height
  commit

def prunedHeights (pruningStartHeight : UInt32) : List UInt32 :=
  if chain.currentHeight > settings.recentStateCount ∧
      pruningStartHeight ≤ chain.currentHeight - settings.recentStateCount then
    heightsFrom pruningStartHeight (chain.currentHeight - settings.recentStateCount)
  else []

/-- `PruneStatesLowMemory` without the compaction that follows a full run. A loop up to the largest height never ends,
since its counter wraps around. -/
def pruneStatesLowMemory : Proc RefCounts Unit := do
  let reset ← maybeResetRefCount
  let heights ← Proc.gets fun ref => ref.db.heights
  Proc.when (chain.currentHeight + 1 = 0) (Proc.lift (crash "loop without end"))
  countHeights settings chain reset (heightsFrom heights.refCountStartHeight chain.currentHeight)
  Proc.forEach (prunedHeights settings chain heights.pruningStartHeight) (pruneHeight settings chain)

def runPruning (db : PruneDB) : Outcome Unit × RefCounts := pruneStatesLowMemory settings chain (RefCounts.of db)

end

end Nkn.Pruning
