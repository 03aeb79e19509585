import Nkn.Model.BlockValidator
import Nkn.Model.SaveBlock
import Nkn.Model.SigChain

/-! # Header checks and the blockchain

`GetNextBlockSigner`, `SignerCheck`, `HeaderCheck` and `AddBlock` of `chain`, with `fastSync = false`, and the marks
`IsHeaderChecked` and `IsTxnsChecked` that they leave on block objects and trust. -/

namespace Nkn

open Go Outcome Config Store

variable (env : Env) (config : Config)

def proposingTimeTolerance : Int64 := consensusDuration / 2

def numGenesisBlocks : UInt32 := 4

variable (cs : ChainStore)

def getHeightByBlockHash (hash : Uint256) : Outcome UInt32 :=
  match cs.headerCache.getCachedHeader hash with
  | .ok header => .ok header.unsignedHeader.height
  | .error _ => do
    let header ← cs.getHeader hash
    .ok header.unsignedHeader.height

/-- The TXN_SIGNER case: the miner that the sigchain of the header's winner elects. -/
def sigChainSigner (header : Pb.UnsignedHeader) : Outcome (Bytes × Bytes) := do
  let whash ← uint256ParseFromBytes header.winnerHash
  let txn ← cs.getTransaction whash
  rejectIf (txn.unsignedTx.payload.type ≠ .sigChainTxn) "invalid transaction type"
  let payload ← unpack env txn.unsignedTx.payload
  match payload with
  | .sigChainTxn sigChainTxn => do
    let sigChain ← parsed (env.codec.sigChain sigChainTxn.sigChain)
    let blockHash ← uint256ParseFromBytes sigChain.blockHash
    let height ← getHeightByBlockHash cs blockHash
    sigChain.getMiner env config height header.randomBeacon
  | _ => crash "interface conversion"

def genesisSigner : Outcome (Bytes × Bytes) := do
  let genesisBlockHash ← cs.getBlockHash 0
  let genesisBlock ← cs.getBlock env genesisBlockHash
  .ok (genesisBlock.header.unsignedHeader.signerPk, genesisBlock.header.unsignedHeader.signerId)

/-- After a timeout the signer of an earlier block, one block further back with every timeout. -/
def timeoutSigner (timeSinceLastBlock : Int64) : Outcome (Bytes × Bytes) := do
  let height := Int64.ofNat cs.getHeight.toNat - timeSinceLastBlock / consensusTimeout
  let proposerBlockHeight := if height < 0 then 0 else height
  let proposerBlockHash ← cs.getBlockHash proposerBlockHeight.toUInt64.toUInt32
  let proposerBlockHeader ← cs.getHeader proposerBlockHash
  .ok (proposerBlockHeader.unsignedHeader.signerPk, proposerBlockHeader.unsignedHeader.signerId)

/-- `GetNextBlockSigner`: public key, chord ID and winner type; nobody may sign outside a proposer's time window. -/
def getNextBlockSigner (height : UInt32) (timestamp : Int64) :
    Outcome (Bytes × Bytes × Pb.WinnerType) := do
  rejectIf (height > cs.getHeight) s!"height {height} is higher than current height {cs.getHeight}"
  let headerHash := cs.headerCache.getCachedHeaderHashByHeight height
  let header ← cs.getHeader headerHash
  let header := header.unsignedHeader
  if header.winnerType = .genesisSigner then do
    let (publicKey, chordID) ← genesisSigner env cs
    .ok (publicKey, chordID, .genesisSigner)
  else do
    rejectIf (timestamp ≤ header.timestamp)
      s!"timestamp {timestamp} is earlier than previous block timestamp {header.timestamp}"
    let timeSinceLastBlock := timestamp - header.timestamp
    if timeSinceLastBlock ≥ consensusTimeout then
      if timeSinceLastBlock % consensusTimeout > proposingTimeTolerance then .ok ([], [], .genesisSigner)
      else do
        let (publicKey, chordID) ← timeoutSigner cs timeSinceLastBlock
        .ok (publicKey, chordID, .blockSigner)
    else if timeSinceLastBlock < consensusDuration ∨
        timeSinceLastBlock > consensusDuration + proposingTimeTolerance then .ok ([], [], .genesisSigner)
    else if header.winnerType = .txnSigner then do
      let (publicKey, chordID) ← sigChainSigner env config cs header
      .ok (publicKey, chordID, header.winnerType)
    else .ok ([], [], header.winnerType)

def signerCheck (header : Pb.UnsignedHeader) : Outcome Unit := do
  let currentHeight := cs.getHeight
  let (publicKey, chordID, _) ← labelled "get next block signer error: "
    (getNextBlockSigner env config cs currentHeight header.timestamp)
  rejectIf (header.signerPk ≠ publicKey)
    s!"invalid block signer public key {hexText header.signerPk}, should be {hexText publicKey}"
  labelled "invalid public key: " (checkPublicKey header.signerPk)
  rejectIf (chordID.length > 0 ∧ header.signerId ≠ chordID)
    s!"invalid block signer chord ID {hexText header.signerId}, should be {hexText chordID}"
  let id := (cs.getID env config publicKey currentHeight).getD []
  rejectIf (id.length = 0) s!"ID of signer {hexText publicKey} is empty"
  rejectIf (header.signerId ≠ id)
    s!"ID of signer {hexText publicKey} should be {hexText id}, got {hexText header.signerId}"

/-- The random beacon: its first part is the signer's VRF output on the previous one, the rest is the proof. -/
def beaconCheck (header prevHeader : Pb.UnsignedHeader) : Outcome Unit := do
  rejectIf (header.randomBeacon.length ≠ randomBeaconLength)
    s!"invalid header RandomBeacon length {header.randomBeacon.length}, expecting {randomBeaconLength}"
  if prevHeader.randomBeacon.length < randomBeaconUniqueLength then crash "slice bounds out of range"
  else
    let vrf := header.randomBeacon.take randomBeaconUniqueLength
    let proof := header.randomBeacon.drop randomBeaconUniqueLength
    let prevVrf := prevHeader.randomBeacon.take randomBeaconUniqueLength
    rejectIf (env.verifyVrf header.signerPk prevVrf vrf proof = false)
      s!"invalid header RandomBeacon {hexText header.randomBeacon}"

def headerCheck (h : Header) : Outcome Unit := do
  let header := h.unsignedHeader
  let expectedHeight := cs.getHeight + 1
  rejectIf (header.height ≠ expectedHeight)
    s!"block height {header.height} is different from expected height {expectedHeight}"
  labelled s!"invalid header signature {hexText h.signature}: " (Header.verifySignature env h)
  labelled "signer check failed: " (signerCheck env config cs header)
  let currentHash := cs.currentBlockHash
  let prevHash ← labelled s!"parse prev block hash {hexText header.prevBlockHash} error: "
    (uint256ParseFromBytes header.prevBlockHash)
  rejectIf (prevHash ≠ currentHash)
    s!"invalid prev header {hexText prevHash.toArray}, expecting {hexText currentHash.toArray}"
  let prevHeader ← labelled s!"get header by hash {hexText currentHash.toArray} error: " (cs.getHeader currentHash)
  let prevHeader := prevHeader.unsignedHeader
  rejectIf (prevHeader.timestamp ≥ header.timestamp)
    s!"header timestamp {header.timestamp} is not greater than prev timestamp {prevHeader.timestamp}"
  rejectIf (header.winnerType = .genesisSigner ∧ header.height ≥ numGenesisBlocks)
    s!"invalid winner type GENESIS_SIGNER for height {header.height}"
  beaconCheck env header prevHeader

structure BlockObject where
  block : Block
  isHeaderChecked : Bool
  isTxnsChecked : Bool

structure Node (ι : Type) where
  store : ChainStore
  objects : ι → BlockObject

namespace Node

variable {ι : Type} [DecidableEq ι]

/-- `HeaderCheck`: a marked header and a header of height 0 are not checked. -/
def headerCheck (node : Node ι) (i : ι) : Node ι × Outcome Unit :=
  let object := node.objects i
  if object.isHeaderChecked then (node, .ok ())
  else if object.block.height = 0 then (node, .ok ())
  else
    match Nkn.headerCheck env config node.store object.block.header with
    | .error fault => (node, .error fault)
    | .ok () => ({ node with objects := Function.update node.objects i { object with isHeaderChecked := true } }, .ok ())

/-- `TransactionCheck`: the transactions of a marked block are not checked. -/
def transactionCheck (node : Node ι) (i : ι) : Node ι × Outcome Unit :=
  let object := node.objects i
  if object.isTxnsChecked then (node, .ok ())
  else
    match Nkn.transactionCheck env config node.store object.block with
    | .error fault => (node, .error fault)
    | .ok () => ({ node with objects := Function.update node.objects i { object with isTxnsChecked := true } }, .ok ())

def addBlock (node : Node ι) (i : ι) (pruning : Option ChainStore.Pruning) : Node ι × Outcome Unit :=
  match node.headerCheck env config i with
  | (node, .error fault) => (node, .error fault)
  | (node, .ok ()) =>
    match node.transactionCheck env config i with
    | (node, .error fault) => (node, .error fault)
    | (node, .ok ()) =>
      let (store, outcome) := node.store.saveBlockWith env config (node.objects i).block pruning false
      ({ node with store }, outcome)

def rollback (node : Node ι) (b : Block) (pruning : ChainStore.Pruning) : Node ι × Outcome Unit :=
  let (store, outcome) := node.store.rollback env config b pruning
  ({ node with store }, outcome)

inductive Call (ι : Type) where
  | headerCheck (i : ι)
  | transactionCheck (i : ι)
  | addBlock (i : ι) (pruning : Option ChainStore.Pruning)
  | rollback (b : Block) (pruning : ChainStore.Pruning)

def call (node : Node ι) : Call ι → Node ι × Outcome Unit
  | .headerCheck i => node.headerCheck env config i
  | .transactionCheck i => node.transactionCheck env config i
  | .addBlock i pruning => node.addBlock env config i pruning
  | .rollback b pruning => node.rollback env config b pruning

def run (node : Node ι) (calls : List (Call ι)) : Node ι :=
  calls.foldl (fun node call => (node.call env config call).1) node

end Node

end Nkn
