import Nkn.Lib.Proc
import Nkn.Model.SaveBlock

/-! # Rollback step by step

`Rollback` of `chain/store` as a computation whose effects stay when it fails: the open state and the caches change on the
way, the database with the commit of the batch at the end. -/

namespace Nkn.Store

open Go Outcome

/-- The heights up to which the tries are counted and pruned, as the database records them. -/
structure PruningHeights where
  counted : Option UInt32
  pruned : Option UInt32
deriving DecidableEq

namespace PruningHeights

def refCountStartHeight (heights : PruningHeights) : UInt32 := heights.counted.elim 0 (· + 1)

def pruningStartHeight (heights : PruningHeights) : UInt32 := heights.pruned.elim 0 (· + 1)

/-- The checks of `RollbackPruning`, and whether the counts of the block's state are released. -/
def rollbackPruning (heights : PruningHeights) (blockHeight : UInt32) : Outcome Bool := do
  let refCountStartHeight := heights.refCountStartHeight
  let pruningStartHeight := heights.pruningStartHeight
  rejectIf (refCountStartHeight < pruningStartHeight)
    s!"pruningStartHeight({pruningStartHeight})is larger than refCountStartHeight({refCountStartHeight})\n"
  if refCountStartHeight = 0 then .ok false
  else
    rejectIf (refCountStartHeight = pruningStartHeight)
      (s!"Cannot rollback, no more full state available in db, pruningStartHeight({pruningStartHeight})" ++
        s!"is equal to refCountStartHeight({refCountStartHeight})\n")
    let refCountedHeight := refCountStartHeight - 1
    if refCountedHeight < blockHeight then .ok false
    else
      rejectIf (refCountedHeight > blockHeight)
        s!"refCountedHeight({refCountedHeight}) is larger than blockHeight({blockHeight})\n"
      .ok true

end PruningHeights

structure LiveStore where
  db : DB
  heights : PruningHeights
  states : Option StateDB
  currentBlockHash : Uint256
  currentBlockHeight : UInt32
  headerCache : HeaderCache
  sigChainCache : GoMap Uint256 Bytes

/-- What LevelDB returns in a call of `Rollback`, and what the release of the counts of the block's state does. -/
structure RollbackStorage where
  getHeader : Outcome Unit := .ok ()
  openTrie : Outcome Unit := .ok ()
  release : ChainStore.Pruning := ⟨fun _ => true, .ok ()⟩
  commit : Outcome Unit := .ok ()

namespace LiveStore

variable (env : Env) (config : Config) (storage : RollbackStorage)

def of (cs : ChainStore) (heights : PruningHeights) : LiveStore :=
  { cs with heights, states := some cs.states }

def openTrie (db : DB) (root : Uint256) : Outcome StateTrie := do
  storage.openTrie
  if root = emptyUint256 then .ok .empty else orFail "missing trie node" (db.tries root)

/-- `rollbackStates`, without the write to the batch: opens the state of the block before and returns its root. -/
def rollbackStates (b : Block) : Proc LiveStore Uint256 := do
  let prevHash ← Proc.lift (uint256ParseFromBytes b.header.unsignedHeader.prevBlockHash)
  Proc.lift storage.getHeader
  let db ← Proc.gets (·.db)
  let prevHead ← Proc.lift (ChainStore.notFound ((db.headers prevHash).map TrimmedBlock.header))
  let root ← Proc.lift (uint256ParseFromBytes prevHead.unsignedHeader.stateRoot)
  let opened := openTrie storage db root
  -- the result of `NewStateDB` is assigned before its error is checked
  Proc.modify fun cs => { cs with states := opened.toOption.map StateDB.new }
  let _ ← Proc.lift opened
  pure root

def rollbackHeaderCache (b : Block) : Proc LiveStore Unit :=
  Proc.modify fun cs => { cs with headerCache := cs.headerCache.rollbackHeader b.header }

def rollbackSigChainCache (b : Block) : Proc LiveStore Unit :=
  Proc.modify fun cs =>
    { cs with sigChainCache := removeCachedSigChain cs.sigChainCache b.header.unsignedHeader.winnerHash }

/-- `RollbackPruning`, without the writes to the batch: whether the counts of the block's state are released. -/
def rollbackRefCounts (b : Block) : Proc LiveStore Bool := do
  let heights ← Proc.gets (·.heights)
  let releases ← Proc.lift (heights.rollbackPruning b.height)
  if releases then do
    let _ ← Proc.lift (uint256ParseFromBytes b.header.unsignedHeader.stateRoot)
    Proc.lift storage.release.outcome
    pure true
  else pure false

def rolledBack (db : DB) (b : Block) (prevHash root : Uint256) (releases : Bool) : DB where
  headers := Function.update db.headers (Block.hash env b) none
  blockHashes := Function.update db.blockHashes b.height none
  transactions := ChainStore.deleteTransactions env db.transactions b
  donations :=
    if ChainStore.fixesDonation config b.height then Function.update db.donations b.height none else db.donations
  tries := if releases then storage.release.remaining db.tries else db.tries
  currentStateTrie := some root
  currentBlock := some (prevHash, b.height - 1)

def commitRollback (b : Block) (prevHash root : Uint256) (releases : Bool) : Proc LiveStore Unit := do
  Proc.lift storage.commit
  Proc.modify fun cs =>
    { cs with
      db := rolledBack env config storage cs.db b prevHash root releases
      heights := if releases then { cs.heights with counted := cs.heights.counted.map (· - 1) } else cs.heights }

def rollback (b : Block) : Proc LiveStore Unit := do
  Proc.lift (rejectIf (b.height = 0) "the genesis block need not be rolled back")
  let prevHash ← Proc.lift (uint256ParseFromBytes b.header.unsignedHeader.prevBlockHash)
  let root ← rollbackStates storage b
  rollbackHeaderCache b
  rollbackSigChainCache b
  let releases ← rollbackRefCounts storage b
  commitRollback env config storage b prevHash root releases
  let prevHash ← Proc.lift (uint256ParseFromBytes b.header.unsignedHeader.prevBlockHash)
  Proc.modify fun cs => { cs with currentBlockHeight := b.height - 1, currentBlockHash := prevHash }

end LiveStore

end Nkn.Store
