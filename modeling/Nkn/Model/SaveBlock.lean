import Nkn.Model.Execute

/-! # Saving and rolling back blocks

`persist`, `SaveBlock` and `Rollback` of `chain/store`, with `fastSync = false` and their caches, and the ledger of the
genesis block. -/

namespace Nkn.Store

open Go Outcome Config

namespace HeaderCache

def new : HeaderCache := ⟨∅, ∅, 0⟩

def addHeaderToCache (env : Env) (hc : HeaderCache) (header : Header) : HeaderCache :=
  let hash := Header.hash env header
  let height := header.unsignedHeader.height
  { headerCache := hc.headerCache.store hash header
    headerIndex := hc.headerIndex.store height hash
    currentCacheHeight := if hc.currentCacheHeight < height then height else hc.currentCacheHeight }

variable (hc : HeaderCache)

def removeCachedHeader (height : UInt32) : HeaderCache :=
  match hc.headerIndex.load height with
  | some hash =>
    { hc with headerIndex := hc.headerIndex.delete height, headerCache := hc.headerCache.delete hash }
  | none => hc

def getCachedHeader (hash : Uint256) : Outcome Header :=
  orFail "no header in cache" (hc.headerCache.load hash)

def getCachedHeaderHashByHeight (height : UInt32) : Uint256 := hc.headerIndex.read emptyUint256 height

def dropNewest : HeaderCache where
  headerIndex := hc.headerIndex.delete hc.currentCacheHeight
  headerCache := hc.headerCache.delete (hc.getCachedHeaderHashByHeight hc.currentCacheHeight)
  currentCacheHeight := hc.currentCacheHeight - 1

def rollbackHeader (h : Header) : HeaderCache :=
  if hc.currentCacheHeight = 0 then hc
  else dropNewest^[hc.currentCacheHeight.toNat + 1 - h.unsignedHeader.height.toNat] hc

end HeaderCache

/-- `RemoveCachedSigChain`: a string that is not a hash, or the empty hash, is ignored. -/
def removeCachedSigChain (cache : GoMap Uint256 Bytes) (h : Bytes) : GoMap Uint256 Bytes :=
  match uint256ParseFromBytes h with
  | .ok hash => if hash = emptyUint256 then cache else cache.delete hash
  | .error _ => cache

namespace ChainStore

variable (env : Env) (config : Config)

def isSupported : Pb.PayloadType → Bool
  | .generateID2 | .unknown _ => false
  | _ => true

def trim (b : Block) : TrimmedBlock := ⟨b.header, b.transactions.map (Transaction.hash env)⟩

/-- `Trim`: the encoding of a trimmed block, for the protobuf encoding of headers. -/
def trimmedData (marshal : Header → Bytes) (b : Block) : Bytes :=
  writeVarBytes (marshal b.header) ++ writeUint32 (.ofNat b.transactions.length) ++
    b.transactions.flatMap fun txn => (Transaction.hash env txn).toArray

def readHashes : (length : Nat) → Bytes → Outcome (List Uint256 × Bytes)
  | 0, r => .ok ([], r)
  | length + 1, r => do
    let (p, r) ← readBuffer 32 r
    let (hashes, r) ← readHashes length r
    .ok (copyToUint256 p :: hashes, r)

/-- `FromTrimmedData` before it computes the root. After an error of the first read the second one fails as well. -/
def fromTrimmedData (unmarshal : Bytes → Header) (r : Bytes) : Outcome (TrimmedBlock × Bytes) := do
  let (dt, r) ← readVarBytes r
  let (length, r) ← readUint32 r
  let (hashes, r) ← readHashes length.toNat r
  .ok (⟨unmarshal dt, hashes⟩, r)

def putTransactions (transactions : Uint256 → Option (UInt32 × Transaction)) (b : Block) :
    Uint256 → Option (UInt32 × Transaction) :=
  b.transactions.foldl (fun stored txn => Function.update stored (Transaction.hash env txn) (some (b.height, txn)))
    transactions

def fixesDonation (height : UInt32) : Bool :=
  height % rewardAdjustInterval = 0 && !config.donationNoDelay.getValueAtHeight height

variable (cs : ChainStore)

def nextDonations (height : UInt32) : Outcome (UInt32 → Option Donation) :=
  if fixesDonation config height then do
    let donation ← cs.calcNextDonation config height
    .ok (Function.update cs.db.donations height (some donation))
  else .ok cs.db.donations

def persist (b : Block) : Outcome ChainStore := do
  let headerHash := Block.hash env b
  rejectIf (∃ txn ∈ b.transactions, isSupported txn.unsignedTx.payload.type = false) "unsupported transaction type"
  let (states, root) ← generateStateRoot env config cs b (b.height ≠ 0) true
  let headerRoot ← uint256ParseFromBytes b.header.unsignedHeader.stateRoot
  rejectIf (root.compareTo headerRoot ≠ .eq)
    s!"state root not equal:{hexText root.toArray}, {hexText headerRoot.toArray}"
  let donations ← cs.nextDonations config b.height
  .ok { cs with
    states
    db := {
      headers := Function.update cs.db.headers headerHash (some (trim env b))
      blockHashes := Function.update cs.db.blockHashes b.height (some headerHash)
      transactions := putTransactions env cs.db.transactions b
      donations
      tries := Function.update cs.db.tries root (some states.trie)
      currentStateTrie := some root
      currentBlock := some (headerHash, b.height) } }

/-- `addHeaderSigChainToCache`: the sigchain of the header's winner is cached under the winner's hash. -/
def addHeaderSigChainToCache (header : Header) : Outcome ChainStore := do
  let hash ← uint256ParseFromBytes header.unsignedHeader.winnerHash
  if hash = emptyUint256 then .ok cs
  else do
    let (_, txn) ← orFail s!"sigchain txn {text hash.toArray} not found in ledger" (cs.db.transactions hash)
    let payload ← unpack env txn.unsignedTx.payload
    match payload with
    | .sigChainTxn sigChainTxn => do
      let _ ← parsed (env.codec.sigChain sigChainTxn.sigChain)
      .ok { cs with sigChainCache := cs.sigChainCache.store hash sigChainTxn.sigChain }
    | _ => crash "interface conversion"

def trimCaches : ChainStore :=
  let height := cs.currentBlockHeight
  let sigChainCache :=
    if height ≥ config.sigChainCacheSize then
      let hash := cs.headerCache.getCachedHeaderHashByHeight (height - config.sigChainCacheSize)
      match cs.headerCache.getCachedHeader hash with
      | .ok header => removeCachedSigChain cs.sigChainCache header.unsignedHeader.winnerHash
      | .error _ => cs.sigChainCache
    else cs.sigChainCache
  let headerCache :=
    if height ≥ config.blockHeaderCacheSize then
      cs.headerCache.removeCachedHeader (height - config.blockHeaderCacheSize)
    else cs.headerCache
  { cs with sigChainCache, headerCache }

/-- The store after `persist`: the tip has moved and the caches follow, the sigchain excepted. -/
def moveTo (b : Block) : ChainStore :=
  let moved := trimCaches config { cs with currentBlockHeight := b.height, currentBlockHash := Block.hash env b }
  { moved with headerCache := moved.headerCache.addHeaderToCache env b.header }

/-- `SaveBlock`: the store it leaves behind and what it returns. An error of the last step comes too late to undo
what `persist` has written. -/
def saveBlock (b : Block) : ChainStore × Outcome Unit :=
  match cs.persist env config b with
  | .error fault => (cs, .error fault)
  | .ok persisted =>
    let moved := persisted.moveTo env config b
    match moved.addHeaderSigChainToCache env b.header with
    | .error fault => (moved, .error fault)
    | .ok done => (done, .ok ())

/-- What a run of state pruning does: the roots whose tries it leaves in the database, and what it returns. -/
structure Pruning where
  keeps : Uint256 → Bool
  outcome : Outcome Unit

def Pruning.remaining (pruning : Pruning) (tries : Uint256 → Option StateTrie) (root : Uint256) : Option StateTrie :=
  if pruning.keeps root then tries root else none

/-- `persist` with `fastSync = true`: the block is stored and not executed. -/
def persistFastSync (b : Block) : Outcome ChainStore := do
  let headerHash := Block.hash env b
  rejectIf (∃ txn ∈ b.transactions, isSupported txn.unsignedTx.payload.type = false) "unsupported transaction type"
  .ok { cs with
    db := {
      cs.db with
      headers := Function.update cs.db.headers headerHash (some (trim env b))
      blockHashes := Function.update cs.db.blockHashes b.height (some headerHash)
      transactions := putTransactions env cs.db.transactions b
      currentBlock := some (headerHash, b.height) } }

def persistBlock (b : Block) (fastSync : Bool) : Outcome ChainStore :=
  if fastSync then cs.persistFastSync env b else cs.persist env config b

/-- `SaveBlock` for both values of `fastSync`, with the state pruning that follows it if `pruning` is set and the node
prunes states. -/
def saveBlockWith (b : Block) (pruning : Option Pruning) (fastSync : Bool) :
    ChainStore × Outcome Unit :=
  match cs.persistBlock env config b fastSync with
  | .error fault => (cs, .error fault)
  | .ok persisted =>
    let moved := persisted.moveTo env config b
    match moved.addHeaderSigChainToCache env b.header, pruning, fastSync with
    | .error fault, _, _ => (moved, .error fault)
    | .ok saved, some pruning, false =>
      ({ saved with db := { saved.db with tries := pruning.remaining saved.db.tries } }, pruning.outcome)
    | .ok saved, _, _ => (saved, .ok ())

def deleteTransactions (transactions : Uint256 → Option (UInt32 × Transaction)) (b : Block) :
    Uint256 → Option (UInt32 × Transaction) :=
  b.transactions.foldl (fun stored txn => Function.update stored (Transaction.hash env txn) none) transactions

/-- `Rollback`: the store it leaves behind and what it returns. What `RollbackPruning` does is a parameter; the
in-memory state and caches change before the batch is committed. When the trie of the previous block cannot be opened
the source is left without a state, here with the old one. -/
def rollback (b : Block) (rollbackPruning : Pruning) : ChainStore × Outcome Unit :=
  let header := b.header.unsignedHeader
  if b.height = 0 then (cs, fail "the genesis block need not be rolled back")
  else
    let parsed := do
      let prevHash ← uint256ParseFromBytes header.prevBlockHash
      let prevHead ← cs.getHeader prevHash
      let root ← uint256ParseFromBytes prevHead.unsignedHeader.stateRoot
      let trie ← cs.openTrie root
      .ok (prevHash, root, trie)
    match parsed with
    | .error fault => (cs, .error fault)
    | .ok (prevHash, root, trie) =>
      let restored := {
        cs with
        states := StateDB.new trie
        headerCache := cs.headerCache.rollbackHeader b.header
        sigChainCache := removeCachedSigChain cs.sigChainCache header.winnerHash }
      match rollbackPruning.outcome with
      | .error fault => (restored, .error fault)
      | .ok () =>
        ({ restored with
            db := {
              cs.db with
              headers := Function.update cs.db.headers (Block.hash env b) none
              blockHashes := Function.update cs.db.blockHashes b.height none
              transactions := deleteTransactions env cs.db.transactions b
              donations := if fixesDonation config b.height then Function.update cs.db.donations b.height none
                else cs.db.donations
              tries := rollbackPruning.remaining cs.db.tries
              currentStateTrie := some root
              currentBlock := some (prevHash, b.height - 1) }
            currentBlockHeight := b.height - 1
            currentBlockHash := prevHash }, .ok ())

def new : ChainStore where
  db := ⟨fun _ => none, fun _ => none, fun _ => none, fun _ => none, fun _ => none, none, none⟩
  states := StateDB.new .empty
  currentBlockHash := emptyUint256
  currentBlockHeight := 0
  headerCache := .new
  sigChainCache := ∅

def initLedgerStoreWithGenesisBlock (genesisBlock : Block) : Outcome ChainStore := do
  let cs ← ChainStore.new.persist env config genesisBlock
  .ok { cs with
    headerCache := cs.headerCache.addHeaderToCache env genesisBlock.header
    currentBlockHash := Block.hash env genesisBlock
    currentBlockHeight := 0 }

end ChainStore

variable (env : Env) (config : Config)

def headerVersion : UInt32 := 1

def genesisTimestamp : Int64 := 1561813813

def genesisBeacon : Bytes := List.replicate randomBeaconLength 0

def genesisCoinbase : Pb.Coinbase := ⟨donationAddress.toArray, initialIssueAddress.toArray, 0⟩

def genesisBlockInit (genesisSignerPk packedCoinbase : Bytes) : Block where
  header := {
    unsignedHeader := {
      version := headerVersion
      prevBlockHash := emptyUint256.toArray
      transactionsRoot := []
      stateRoot := []
      timestamp := genesisTimestamp
      height := 0
      randomBeacon := genesisBeacon
      winnerHash := []
      winnerType := .genesisSigner
      signerPk := genesisSignerPk
      signerId := Block.computeID env emptyUint256 emptyUint256 (genesisBeacon.take randomBeaconUniqueLength) }
    signature := [] }
  transactions := [⟨⟨⟨.coinbase, packedCoinbase⟩, 0, 0, []⟩, [⟨[0], [0]⟩]⟩]

/-- `NewBlockchainWithGenesisBlock` on an empty database: the roots of the genesis block are computed, and the block
is stored. -/
def newBlockchainWithGenesisBlock (genesisSignerPk packedCoinbase : Bytes) : Outcome (ChainStore × Block) := do
  let initial := genesisBlockInit env genesisSignerPk packedCoinbase
  let (_, root) ← generateStateRoot env config .new initial false false
  let transactionsRoot := match computeRoot env (initial.transactions.map (Transaction.hash env)) with
    | .ok hash => hash.toArray
    | .error _ => initial.header.unsignedHeader.transactionsRoot
  let genesisBlock : Block := {
    initial with
    header := {
      initial.header with
      unsignedHeader := { initial.header.unsignedHeader with stateRoot := root.toArray, transactionsRoot } } }
  let cs ← ChainStore.initLedgerStoreWithGenesisBlock env config genesisBlock
  .ok (cs, genesisBlock)

end Nkn.Store
