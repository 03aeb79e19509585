import Nkn.Model.ChainStore

/-! # Block execution

`spendTransaction` and `generateStateRoot` of `chain/store/stateGenerator.go`. -/

namespace Nkn.Store

open Go Outcome Config StateDB

variable (env : Env) (config : Config)

/-- Whether execution debits the fee of a transaction: a zero fee of a coinbase, sigchain or nano pay
transaction is skipped, and so is every nano pay fee below the height at which they are charged. -/
def paysFee (height : UInt32) (fee : Int64) : Pb.Message → Bool
  | .nanoPay _ => config.chargesNanoPay height && fee ≠ 0
  | .coinbase _ | .sigChainTxn _ => fee ≠ 0
  | _ => true

def countsNonce : Pb.Message → Bool
  | .nanoPay _ | .sigChainTxn _ => false
  | _ => true

def payNKN (states : StateDB) (payer payee : Uint160) (amount : Int64) : Outcome StateDB := do
  let states ← states.updateBalance payer nknAssetID amount .subtraction
  states.updateBalance payee nknAssetID amount .addition

variable (cs : ChainStore)

/-- The donation leaves the account of the coinbase sender, except in the genesis block. -/
def takeDonation (states : StateDB) (coinbase : Pb.Coinbase) (genesis : Bool) : Outcome StateDB :=
  if genesis then .ok states
  else do
    let donationAmount ← cs.getDonation config
    states.updateBalance (bytesToUint160 coinbase.sender) nknAssetID donationAmount .subtraction

/-- The coinbase case: the recipient gets the payload's amount and all fees, and the supply grows by the reward. -/
def spendCoinbase (states : StateDB) (coinbase : Pb.Coinbase) (totalFee : Int64) (genesis : Bool)
    (height : UInt32) : Outcome StateDB := do
  let states ← takeDonation config cs states coinbase genesis
  let states ←
    states.updateBalance (bytesToUint160 coinbase.recipient) nknAssetID (coinbase.amount + totalFee) .addition
  if height ≠ 0 then states.increaseTotalSupply nknAssetID (getRewardByHeight height) else .ok states

def spendNanoPay (states : StateDB) (sender : Uint160) (nanoPay : Pb.NanoPay) : Outcome StateDB := do
  let addrRecipient := bytesToUint160 nanoPay.recipient
  let (channel, states) := states.getNanoPay sender addrRecipient nanoPay.id
  let claimAmount := nanoPay.amount - channel.balance
  let states ← payNKN states sender addrRecipient claimAmount
  .ok (states.setNanoPay sender addrRecipient nanoPay.id nanoPay.amount nanoPay.nanoPayExpiration)

def spendPayload (states : StateDB) (txn : Transaction) (sender : Uint160) (totalFee : Int64)
    (genesis : Bool) (height : UInt32) : Pb.Message → Outcome StateDB
  | .coinbase coinbase => spendCoinbase config cs states coinbase totalFee genesis height
  | .transferAsset transfer =>
    payNKN states (bytesToUint160 transfer.sender) (bytesToUint160 transfer.recipient) transfer.amount
  | .sigChainTxn _ => .ok states
  | .registerName payload => do
    let states ← payNKN states sender donationAddress payload.registrationFee
    if config.isLegacy height then .ok (states.setNameLegacy env payload.registrant payload.name)
    else .ok (states.registerName env payload.name payload.registrant (defaultNameDuration + height))
  | .transferName payload => .ok (states.transferName env payload.name payload.recipient)
  | .deleteName payload =>
    if config.isLegacy height then .ok (states.deleteNameForRegistrantLegacy env payload.registrant payload.name)
    else .ok (states.deleteName env payload.name)
  | .subscribe payload =>
    .ok (states.subscribe env payload.topic payload.bucket payload.subscriber payload.identifier payload.metadata
      (height + payload.duration))
  | .unsubscribe payload => .ok (states.unsubscribe env payload.topic payload.subscriber payload.identifier)
  | .generateID genID => do
    let states ← states.updateBalance sender nknAssetID genID.registrationFee .subtraction
    let states := states.updateID (createProgramHash env genID.publicKey) (List.replicate 32 0)
      genID.version.toInt8.toUInt8
    states.updateBalance donationAddress nknAssetID genID.registrationFee .addition
  | .nanoPay nanoPay => spendNanoPay states sender nanoPay
  | .issueAsset issue => do
    let assetID := Transaction.hash env txn
    let states ← states.setAsset assetID ⟨issue.name, issue.symbol, issue.totalSupply, issue.precision, sender⟩
    states.updateBalance sender assetID issue.totalSupply .addition

def spendTransaction (totalFee : Int64) (genesis : Bool) (height : UInt32) (states : StateDB)
    (txn : Transaction) : Outcome StateDB := do
  let pl ← unpack env txn.unsignedTx.payload
  let pg ← Transaction.getProgramHashes env txn
  let sender ← Transaction.firstHash pg
  let states ←
    if paysFee config height txn.unsignedTx.fee pl then
      states.updateBalance sender nknAssetID txn.unsignedTx.fee .subtraction
    else .ok states
  let states := if countsNonce pl then states.incrNonce sender else states
  spendPayload env config cs states txn sender totalFee genesis height pl

def spendTransactions (totalFee : Int64) (height : UInt32) (states : StateDB)
    (txns : List Transaction) : Outcome StateDB :=
  txns.foldlM (spendTransaction env config cs totalFee false height) states

/-- The state that the genesis block starts from: the signer's id and the initial assets. -/
def initGenesis (states : StateDB) (header : Pb.UnsignedHeader) : Outcome StateDB := do
  let states := states.updateID (createProgramHash env header.signerPk) header.signerId 0
  let states ← states.setAsset nknAssetID
    ⟨nknAssetName, nknAssetSymbol, initialIssueAmount, nknAssetPrecision, initialIssueAddress⟩
  let states ← states.updateBalance initialIssueAddress nknAssetID initialIssueAmount .addition
  states.setAsset gasAssetID ⟨gasAssetName, gasAssetSymbol, 0, gasAssetPrecision, initialIssueAddress⟩

/-- Gives the sender of a GenerateID transaction of an earlier block its id. -/
def generateID (prevBlockHash : Uint256) (randomBeacon : Bytes) (states : StateDB) (txn : Transaction) :
    Outcome StateDB :=
  if txn.unsignedTx.payload.type = .generateID then do
    if randomBeacon.length < randomBeaconUniqueLength then crash "slice bounds out of range"
    else
      let id := Block.computeID env prevBlockHash (Transaction.hash env txn)
        (randomBeacon.take randomBeaconUniqueLength)
      let pl ← unpack env txn.unsignedTx.payload
      match pl with
      | .generateID genID =>
        .ok (states.updateID (createProgramHash env genID.publicKey) id genID.version.toInt8.toUInt8)
      | _ => crash "interface conversion"
  else .ok states

/-- The ids of the GenerateID transactions of the block `generateIDBlockDelay` heights earlier. -/
def generateIDs (states : StateDB) (header : Pb.UnsignedHeader) : Outcome StateDB :=
  if header.height > generateIDBlockDelay then do
    let prevBlock ← cs.getBlockByHeight env (header.height - generateIDBlockDelay)
    prevBlock.transactions.foldlM (generateID env (Block.hash env prevBlock) header.randomBeacon) states
  else .ok states

def totalFee (txns : List Transaction) : Int64 := txns.foldl (fun total txn => total + txn.unsignedTx.fee) 0

/-- The transactions of a block and, unless it is the genesis block, the cleanup of expired records. -/
def spendBlock (states : StateDB) (b : Block) : Outcome StateDB :=
  let height := b.height
  if height = 0 then
    match b.transactions with
    | [] => crash "index out of range [0] with length 0"
    | first :: rest => do
      let states ← spendTransaction env config cs (totalFee b.transactions) true height states first
      spendTransactions env config cs 0 height states rest
  else do
    let states ← spendTransactions env config cs (totalFee b.transactions) height states b.transactions
    .ok (((states.cleanupNanoPay height).cleanupPubSub height).cleanupNames height)

/-- Whether `FinalizeNames` writes the legacy tables: decided by the height recorded in the database. -/
def finalizesLegacyNames : Bool :=
  let height := match cs.db.currentBlock with
    | some (_, height) => height
    | none => 0
  config.isLegacy (height + 1)

def currentTrie : Outcome StateTrie := do
  let stateRoot ← cs.getCurrentBlockStateRoot
  cs.openTrie stateRoot

def initialTrie (genesisBlockInitialized : Bool) : Outcome StateTrie :=
  if genesisBlockInitialized then currentTrie cs else .ok .empty

def initialStates (trie : StateTrie) (b : Block) : Outcome StateDB :=
  if b.height = 0 then initGenesis env (StateDB.new trie) b.header.unsignedHeader else .ok (StateDB.new trie)

/-- `generateStateRoot`: executes a block on the current state and returns the resulting state and its root. -/
def generateStateRoot (b : Block) (genesisBlockInitialized needBeCommitted : Bool) :
    Outcome (StateDB × Uint256) := do
  let trie ← initialTrie cs genesisBlockInitialized
  let states ← initialStates env trie b
  let states ← generateIDs env cs states b.header.unsignedHeader
  let states ← spendBlock env config cs states b
  let states := states.finalize env (finalizesLegacyNames config cs) needBeCommitted
  .ok (states, env.stateRoot states.trie)

end Nkn.Store
