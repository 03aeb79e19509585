import Nkn.Model.Disk
import Nkn.Model.Execute

/-! # Block execution over the trie

`spendTransaction` and `generateStateRoot` of `chain/store/stateGenerator.go` on the state database with its trie. -/

namespace Nkn.Disk

open Go Outcome Config Store

/-- `ChainStore` with the trie nodes of its database and with the state database in memory. -/
structure ChainStore where
  cs : Store.ChainStore
  nodes : Trie.Database
  states : StateDB

/-- The state database that a block is executed on, the one of the ledger, and the calls of both tries so far. -/
structure Machine where
  states : StateDB
  current : StateDB
  calls : Nat

abbrev BlockExec := Proc Machine

def onStates {α : Type} (x : Exec α) : BlockExec α :=
  x.zoom (fun m => ⟨m.states, m.calls⟩) fun m s => { m with states := s.sdb, calls := s.calls }

def onCurrent {α : Type} (x : Exec α) : BlockExec α :=
  x.zoom (fun m => ⟨m.current, m.calls⟩) fun m s => { m with current := s.sdb, calls := s.calls }

variable (faults : Faults) (env : Env) (config : Config)

variable (cs : Store.ChainStore)

def getDonation : BlockExec Int64 :=
  if config.donationNoDelay.getValueAtHeight (cs.currentBlockHeight + 1) then do
    let balance ← onCurrent (getBalance faults nknAssetID donationAddress)
    pure (balance * 11 / 25000000)
  else do
    let period := cs.currentBlockHeight / rewardAdjustInterval * rewardAdjustInterval
    let donation ← Proc.lift (Store.ChainStore.notFound (cs.db.donations period))
    pure donation.amount

def payNKN (payer payee : Uint160) (amount : Int64) : Exec Unit := do
  updateBalance faults payer nknAssetID amount .subtraction
  updateBalance faults payee nknAssetID amount .addition

def takeDonation (coinbase : Pb.Coinbase) (genesis : Bool) : BlockExec Unit :=
  Proc.when (genesis = false) do
    let donationAmount ← getDonation faults config cs
    onStates (updateBalance faults (bytesToUint160 coinbase.sender) nknAssetID donationAmount .subtraction)

def spendCoinbase (coinbase : Pb.Coinbase) (totalFee : Int64) (genesis : Bool)
    (height : UInt32) : BlockExec Unit := do
  takeDonation faults config cs coinbase genesis
  onStates (updateBalance faults (bytesToUint160 coinbase.recipient) nknAssetID (coinbase.amount + totalFee) .addition)
  Proc.when (height ≠ 0) (onStates (increaseTotalSupply faults nknAssetID (getRewardByHeight height)))

def spendNanoPay (sender : Uint160) (nanoPay : Pb.NanoPay) : Exec Unit := do
  let addrRecipient := bytesToUint160 nanoPay.recipient
  let channel ← getNanoPay faults sender addrRecipient nanoPay.id
  payNKN faults sender addrRecipient (nanoPay.amount - channel.balance)
  setNanoPay faults sender addrRecipient nanoPay.id nanoPay.amount nanoPay.nanoPayExpiration

/-- The effect of a payload other than a coinbase, after the fee and the nonce. -/
def spendMessage (txn : Transaction) (sender : Uint160) (height : UInt32) : Pb.Message → Exec Unit
  | .coinbase _ | .sigChainTxn _ => pure ()
  | .transferAsset transfer =>
    payNKN faults (bytesToUint160 transfer.sender) (bytesToUint160 transfer.recipient) transfer.amount
  | .registerName payload => do
    payNKN faults sender donationAddress payload.registrationFee
    if config.isLegacy height then setNameLegacy env payload.registrant payload.name
    else registerName faults env payload.name payload.registrant (defaultNameDuration + height)
  | .transferName payload => transferName faults env payload.name payload.recipient
  | .deleteName payload =>
    if config.isLegacy height then deleteNameForRegistrantLegacy env payload.registrant payload.name
    else deleteName faults env payload.name
  | .subscribe payload =>
    subscribe faults env payload.topic payload.bucket payload.subscriber payload.identifier payload.metadata
      (height + payload.duration)
  | .unsubscribe payload => unsubscribe faults env payload.topic payload.subscriber payload.identifier
  | .generateID genID => do
    updateBalance faults sender nknAssetID genID.registrationFee .subtraction
    updateID faults (createProgramHash env genID.publicKey) (List.replicate 32 0) genID.version.toInt8.toUInt8
    updateBalance faults donationAddress nknAssetID genID.registrationFee .addition
  | .nanoPay nanoPay => spendNanoPay faults sender nanoPay
  | .issueAsset issue => do
    let assetID := Transaction.hash env txn
    setAsset faults assetID ⟨issue.name, issue.symbol, issue.totalSupply, issue.precision, sender⟩
    updateBalance faults sender assetID issue.totalSupply .addition

def spendPayload (txn : Transaction) (sender : Uint160) (totalFee : Int64) (genesis : Bool)
    (height : UInt32) : Pb.Message → BlockExec Unit
  | .coinbase coinbase => spendCoinbase faults config cs coinbase totalFee genesis height
  | message => onStates (spendMessage faults env config txn sender height message)

def spendTransaction (totalFee : Int64) (genesis : Bool) (height : UInt32) (txn : Transaction) :
    BlockExec Unit := do
  let pl ← Proc.lift (unpack env txn.unsignedTx.payload)
  let pg ← Proc.lift (Transaction.getProgramHashes env txn)
  let sender ← Proc.lift (Transaction.firstHash pg)
  Proc.when (paysFee config height txn.unsignedTx.fee pl = true)
    (onStates (updateBalance faults sender nknAssetID txn.unsignedTx.fee .subtraction))
  Proc.when (countsNonce pl = true) (onStates (incrNonce faults sender))
  spendPayload faults env config cs txn sender totalFee genesis height pl

def initGenesis (header : Pb.UnsignedHeader) : Exec Unit := do
  updateID faults (createProgramHash env header.signerPk) header.signerId 0
  setAsset faults nknAssetID
    ⟨nknAssetName, nknAssetSymbol, initialIssueAmount, nknAssetPrecision, initialIssueAddress⟩
  updateBalance faults initialIssueAddress nknAssetID initialIssueAmount .addition
  setAsset faults gasAssetID ⟨gasAssetName, gasAssetSymbol, 0, gasAssetPrecision, initialIssueAddress⟩

def generateID (prevBlockHash : Uint256) (randomBeacon : Bytes) (txn : Transaction) : Exec Unit :=
  Proc.when (txn.unsignedTx.payload.type = .generateID) do
    let beacon ← Proc.lift
      (if randomBeacon.length < randomBeaconUniqueLength then crash "slice bounds out of range"
      else .ok (randomBeacon.take randomBeaconUniqueLength))
    let id := Block.computeID env prevBlockHash (Transaction.hash env txn) beacon
    match ← Proc.lift (unpack env txn.unsignedTx.payload) with
    | .generateID genID => updateID faults (createProgramHash env genID.publicKey) id genID.version.toInt8.toUInt8
    | _ => Proc.lift (crash "interface conversion")

def generateIDs (header : Pb.UnsignedHeader) : Exec Unit :=
  Proc.when (header.height > generateIDBlockDelay) do
    let prevBlock ← Proc.lift (cs.getBlockByHeight env (header.height - generateIDBlockDelay))
    Proc.forEach prevBlock.transactions (generateID faults env (Block.hash env prevBlock) header.randomBeacon)

def spendBlock (b : Block) : BlockExec Unit :=
  let height := b.height
  if height = 0 then
    match b.transactions with
    | [] => Proc.lift (crash "index out of range [0] with length 0")
    | first :: rest => do
      spendTransaction faults env config cs (totalFee b.transactions) true height first
      Proc.forEach rest (spendTransaction faults env config cs 0 false height)
  else do
    Proc.forEach b.transactions (spendTransaction faults env config cs (totalFee b.transactions) false height)
    onStates (cleanupNanoPay faults height)
    onStates (cleanupPubSub faults height)
    onStates (cleanupNames faults height)

def executeBlock (b : Block) : BlockExec Unit := do
  Proc.when (b.height = 0) (onStates (initGenesis faults env b.header.unsignedHeader))
  onStates (generateIDs faults env cs b.header.unsignedHeader)
  spendBlock faults env config cs b

def initialRoot (genesisBlockInitialized : Bool) : Outcome Uint256 :=
  if genesisBlockInitialized then cs.getCurrentBlockStateRoot else .ok emptyUint256

def newStateDB (nodes : Trie.Database) (root : Uint256) : Outcome StateDB := do
  let t ← Trie.new root (faults.view (.openTrie root) 0 nodes)
  .ok { trie := { t with db := nodes } }

def generateRoot (order : Enumeration) (cs : Store.ChainStore) (b : Block) (needBeCommitted : Bool) :
    BlockExec Uint256 := do
  executeBlock faults env config cs b
  onStates (finalize faults env order (finalizesLegacyNames config cs) needBeCommitted)

def generateStateRoot (order : Enumeration) (store : ChainStore) (b : Block)
    (genesisBlockInitialized needBeCommitted : Bool) : Outcome (StateDB × Uint256) := do
  let stateRoot ← initialRoot store.cs genesisBlockInitialized
  let states ← newStateDB faults store.nodes stateRoot
  let (result, machine) := generateRoot faults env config order store.cs b needBeCommitted ⟨states, store.states, 1⟩
  let root ← result
  .ok (machine.states, root)

/-- The last step of `TransactionCheck`: the root of the header is compared with that of a preview. -/
def checkStateRoot (order : Enumeration) (store : ChainStore) (b : Block) : Outcome Unit := do
  let (_, root) ← generateStateRoot faults env config order store b true false
  let headerRoot := copyToUint256 b.header.unsignedHeader.stateRoot
  rejectIf (root.compareTo headerRoot ≠ .eq)
    s!"[TransactionCheck]state root not equal:{hexText root.toArray}, {text headerRoot.toArray}"

/-- The step of `persist` that executes the block: the state it commits and its root. -/
def commitStateRoot (order : Enumeration) (store : ChainStore) (b : Block) : Outcome (StateDB × Uint256) := do
  let (states, root) ← generateStateRoot faults env config order store b (b.height ≠ 0) true
  let headerRoot ← uint256ParseFromBytes b.header.unsignedHeader.stateRoot
  rejectIf (root.compareTo headerRoot ≠ .eq)
    s!"state root not equal:{hexText root.toArray}, {hexText headerRoot.toArray}"
  .ok (states, root)

end Nkn.Disk
