import Nkn.Model.BlockValidator
import Nkn.Model.Rollback

/-! # Syncing

How `lnode` brings a node up to its neighbors' chain: headers in batches, checked from the last to the first, the rollback
before a sync, and the check of the synced blocks. -/

namespace Nkn

open Go Outcome Config Store

variable (env : Env) (config : Config)

/-- `TransactionCheck` of an unmarked block with `fastSync`: below the height of a fast sync, signatures are all that is
checked of the transactions after the root. -/
def fastTransactionCheck (b : Block) : Outcome Unit := do
  rejectIf (b.transactions.length = 0) "empty block"
  rejectIf (b.transactions.length > maxNumTxnPerBlock) "block contains too many transactions"
  rejectIf (Block.getTxsSize env b > maxBlockSize) "serialized block is too big"
  rejectIf (b.transactions.head?.map (·.unsignedTx.payload.type) ≠ some .coinbase)
    "first transaction in block is not Coinbase"
  let txnsRoot ← labelled "compute txns root error: " (computeRoot env (b.transactions.map (Transaction.hash env)))
  let headerTxnsRoot := b.header.unsignedHeader.transactionsRoot
  rejectIf (txnsRoot.toArray ≠ headerTxnsRoot)
    s!"computed txn root {hexText txnsRoot.toArray} is different from txn root in header {hexText headerTxnsRoot}"
  b.transactions.forM fun txn => labelled "[VerifyTransaction] " (Transaction.verifySignature env txn)

def transactionCheckWith (cs : ChainStore) (fastSync : Bool) (b : Block) : Outcome Unit :=
  if fastSync then fastTransactionCheck env b else transactionCheck env config cs b

/-- `Uint256ParseFromBytes` of the hash of the block before, where an error is ignored. -/
def prevHash (header : Header) : Uint256 :=
  (uint256ParseFromBytes header.unsignedHeader.prevBlockHash).toOption.getD emptyUint256

/-- The parameters of `syncBlockHeaders`. -/
structure HeaderSync where
  startHeight : UInt32
  stopHeight : UInt32
  batchSize : UInt32
  startPrevHash : Uint256
  stopHash : Uint256
  fullHeader : Bool

/-- What `saveHeader` keeps between its calls; the arrays are indexed by height. -/
structure HeaderSyncState where
  nextHeader : Option Header
  headersHash : UInt32 → Uint256
  headers : UInt32 → Option Header

namespace HeaderSync

variable (sync : HeaderSync)

def numBatches : UInt32 := (sync.stopHeight - sync.startHeight) / sync.batchSize + 1

def batchStartHeight (batchID : UInt32) : UInt32 := sync.startHeight + batchID * sync.batchSize

def batchEndHeight (batchID : UInt32) : UInt32 :=
  let batchEndHeight := sync.batchStartHeight batchID + sync.batchSize - 1
  if batchEndHeight > sync.stopHeight then sync.stopHeight else batchEndHeight

/-- The number of heights from the end of a batch down to its start. -/
def batchLength (batchID : UInt32) : Nat :=
  if sync.batchStartHeight batchID ≤ sync.batchEndHeight batchID then
    (sync.batchEndHeight batchID - sync.batchStartHeight batchID).toNat + 1
  else 0

/-- One turn of the loop of `saveHeader`: whether the header links to the one above it. -/
def checkHeader (height : UInt32) (header : Header) : Proc HeaderSyncState Bool := fun state =>
  let headerHash := Header.hash env header
  if height = sync.stopHeight ∧ headerHash ≠ sync.stopHash then (.ok false, state)
  else
    -- the next header is dereferenced before it is compared with nil
    match if height < sync.stopHeight then state.nextHeader.map prevHash else some headerHash with
    | none => (crash "invalid memory address or nil pointer dereference", state)
    | some nextPrevHash =>
      if headerHash ≠ nextPrevHash then (.ok false, state)
      else if height = sync.startHeight ∧ prevHash header ≠ sync.startPrevHash then (.ok false, state)
      else (.ok true, {
        nextHeader := some header
        headersHash := Function.update state.headersHash height headerHash
        headers := if sync.fullHeader then Function.update state.headers height (some header) else state.headers })

/-- The loop of `saveHeader` over the first headers of a result, from the last one down. -/
def checkDown (start : UInt32) (result : List Header) : Nat → Proc HeaderSyncState Bool
  | 0 => pure true
  | left + 1 => do
    let header ← Proc.lift ((result[left]?).elim (crash "index out of range") .ok)
    let height := start + UInt32.ofNat left
    let linked ← checkHeader env sync height header
    if linked then
      -- the height below 0 is the largest one, and not below the start
      if height = 0 then Proc.lift (crash "index out of range") else checkDown start result left
    else pure false

def saveHeader (batchID : UInt32) (result : List Header) : Proc HeaderSyncState Bool :=
  checkDown env sync (sync.batchStartHeight batchID) result (sync.batchLength batchID)

def initial : HeaderSyncState := ⟨none, fun _ => emptyUint256, fun _ => none⟩

end HeaderSync

/-- What a node asks its neighbors for: headers up from a height, linked to a hash. -/
structure HeaderRequest where
  startHeight : UInt32
  stopHeight : UInt32
  startPrevHash : Uint256
  stopHash : Uint256
deriving DecidableEq

/-- The parameters of `StartSyncing`, and the hashes that the majority of the neighbors has at each height. -/
structure SyncTarget where
  maxRollbackBlocks : UInt32
  syncHeaderMaxSize : UInt32
  syncStopHash : Uint256
  syncStopHeight : UInt32
  majority : UInt32 → Uint256

namespace SyncTarget

variable (target : SyncTarget)

def getBlockHash (cs : LiveStore) (height : UInt32) : Outcome Uint256 := ChainStore.notFound (cs.db.blockHashes height)

def getBlockByHeight (cs : LiveStore) (height : UInt32) : Outcome Block :=
  ChainStore.getBlockByHeight env { cs with states := cs.states.getD (.new .empty) } height

def rollbackOne (height : UInt32) : Proc LiveStore Unit := do
  let cs ← Proc.gets id
  let block ← Proc.lift (labelled s!"get block at height {height} error: " (getBlockByHeight env cs height))
  Proc.labelled "ledger rollback error: " (LiveStore.rollback env config {} block)

def rollbackToHeight (currentHeight : UInt32) : UInt32 :=
  if currentHeight > target.maxRollbackBlocks then currentHeight - target.maxRollbackBlocks else 0

def rollbackHeights (currentHeight rollbackToHeight : UInt32) : List UInt32 :=
  (List.range (currentHeight.toNat - rollbackToHeight.toNat)).map fun i => currentHeight - UInt32.ofNat i

def maybeRollback : Proc LiveStore Bool := do
  let cs ← Proc.gets id
  let currentHeight := cs.currentBlockHeight
  let currentHash ← Proc.lift (labelled "get block hash error: " (getBlockHash cs currentHeight))
  let majorityBlockHash := target.majority currentHeight
  if majorityBlockHash = emptyUint256 then pure false
  else if majorityBlockHash = currentHash then pure false
  else do
    Proc.lift (rejectIf (target.maxRollbackBlocks = 0) "rollback needed but MaxRollbackBlocks is 0")
    let rollbackToHeight := target.rollbackToHeight currentHeight
    Proc.lift (rejectIf (target.majority rollbackToHeight = emptyUint256)
      "get neighbors majority block hash at rollback height failed")
    let rollbackHash := (getBlockHash cs rollbackToHeight).toOption.getD emptyUint256
    Proc.lift (rejectIf (target.majority rollbackToHeight ≠ rollbackHash)
      s!"local ledger has forked for more than {target.maxRollbackBlocks} blocks")
    Proc.forEach (rollbackHeights currentHeight rollbackToHeight) (rollbackOne env config)
    pure true

/-- The request for the first headers after the rollback. The height is the one from before the rollback. -/
def requestHeaders (currentHeight : UInt32) : Proc LiveStore HeaderRequest := do
  let startHeight := currentHeight + 1
  let lastHeight := startHeight + target.syncHeaderMaxSize - 1
  let stopHeight := if lastHeight > target.syncStopHeight then target.syncStopHeight else lastHeight
  let startPrevHash ← Proc.gets fun cs => cs.headerCache.getCachedHeaderHashByHeight (startHeight - 1)
  Proc.lift (rejectIf (startPrevHash = emptyUint256) s!"get block hash of height {startHeight - 1} failed")
  let stopHash := if stopHeight < target.syncStopHeight then target.majority stopHeight else target.syncStopHash
  Proc.lift (rejectIf (stopHeight < target.syncStopHeight ∧ stopHash = emptyUint256)
    s!"get neighbors majority block hash of height {stopHeight} failed")
  pure ⟨startHeight, stopHeight, startPrevHash, stopHash⟩

/-- `StartSyncing` without a fast sync, up to its first request for headers. -/
def startSyncing : Proc LiveStore HeaderRequest := do
  let currentHeight ← Proc.gets (·.currentBlockHeight)
  Proc.lift (rejectIf (target.syncStopHeight ≤ currentHeight)
    s!"sync stop height {target.syncStopHeight} is not higher than current height {currentHeight}")
  let _ ← Proc.labelled "rollback error: " (target.maybeRollback env config)
  target.requestHeaders currentHeight

end SyncTarget

end Nkn
