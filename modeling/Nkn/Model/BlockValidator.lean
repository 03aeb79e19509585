import Nkn.Model.BlockValidationState
import Nkn.Model.Execute
import Nkn.Model.TxValidator

/-! # Checks of a block's transactions against the ledger

`VerifyTransactionWithLedger` and `TransactionCheck` of `chain/blockvalidator.go`, with `fastSync = false`. -/

namespace Nkn

open Go Outcome Config Store

variable (env : Env) (config : Config)

variable (cs : ChainStore)

/-- The switch of `VerifyTransactionWithLedger`: the amount a payload takes from its sender, besides the fee. -/
def verifyMessageWithLedger (txn : Transaction) (height : UInt32) : Pb.Message → Outcome Int64
  | .coinbase _ => do
    let donationAmount ← cs.getDonation config
    rejectIf (cs.getBalance donationAddress < donationAmount) "not sufficient funds in donation account"
    .ok 0
  | .transferAsset pld => .ok pld.amount
  | .sigChainTxn _ => .ok 0
  | .registerName pld =>
    if config.isLegacy height then do
      let name := cs.states.getNameLegacy pld.registrant
      rejectIf (name ≠ []) s!"pubKey {hexText pld.registrant} already has registered name {text name}"
      match cs.states.getRegistrantLegacy env pld.name with
      | some registrant => fail s!"name {text pld.name} is already registered for pubKey {registrant}"
      | none => .ok 0
    else do
      let (registrant, _) := cs.states.getRegistrant env pld.name
      rejectIf (registrant.length > 0 ∧ registrant ≠ pld.registrant)
        s!"name {text pld.name} is already registered for pubKey {registrant}"
      .ok pld.registrationFee
  | .transferName pld => do
    let (registrant, _) := cs.states.getRegistrant env pld.name
    rejectIf (registrant.length = 0) "can not transfer unregistered name"
    rejectIf (registrant = pld.recipient) "can not transfer names to its owner"
    rejectIf (registrant ≠ pld.registrant) "registrant incorrect"
    match txn.programs with
    | [] => crash "index out of range [0] with length 0"
    | program :: _ =>
      let senderPubkey ← getPublicKeyFromCode program.code
      rejectIf (registrant ≠ senderPubkey) "can not transfer names which did not belongs to you"
      .ok 0
  | .deleteName pld =>
    if config.isLegacy height then do
      let name := cs.states.getNameLegacy pld.registrant
      rejectIf (name = []) s!"no name registered for pubKey {pld.registrant}"
      rejectIf (name ≠ pld.name) s!"no name {text pld.name} registered for pubKey {pld.registrant}"
      .ok 0
    else do
      let (registrant, _) := cs.states.getRegistrant env pld.name
      rejectIf (registrant.length = 0) "name doesn't exist"
      rejectIf (registrant ≠ pld.registrant) "can not delete name which did not belongs to you"
      .ok 0
  | .subscribe _ => .ok 0
  | .unsubscribe pld => do
    rejectIf (cs.states.isSubscribed env pld.topic 0 pld.subscriber pld.identifier = false)
      s!"subscription to {text pld.topic} doesn't exist"
    .ok 0
  | .generateID pld => do
    let (id, idVersion) := cs.getIDVersion env pld.publicKey
    rejectIf ((id.getD []).length > 0 ∧ pld.version ≤ Int32.ofNat idVersion.toNat) "id has been registered"
    .ok pld.registrationFee
  | .nanoPay pld => do
    let channelBalance := (cs.getNanoPay (bytesToUint160 pld.sender) (bytesToUint160 pld.recipient) pld.id).1
    rejectIf (height > pld.txnExpiration) "nano pay txn has expired"
    rejectIf (height > pld.nanoPayExpiration) "nano pay has expired"
    let balanceToClaim := pld.amount - channelBalance
    rejectIf (balanceToClaim ≤ 0) "invalid amount"
    .ok balanceToClaim
  | .issueAsset _ => do
    rejectIf ((cs.states.assets.stored (Transaction.hash env txn)).isSome = true) "duplicate IssueAsset txns"
    .ok 0

def verifyTransactionWithLedger (txn : Transaction) (height : UInt32) : Outcome Unit := do
  rejectIf (cs.isTxHashDuplicate (Transaction.hash env txn) = true)
    "[VerifyTransactionWithLedger] duplicate transaction check failed"
  let payload ← unpack env txn.unsignedTx.payload
  let pg ← Transaction.getProgramHashes env txn
  let sender ← Transaction.firstHash pg
  rejectIf (countsNonce payload = true ∧ txn.unsignedTx.nonce < cs.getNonce sender) "nonce is too low"
  let amount ← verifyMessageWithLedger env config cs txn height payload
  rejectIf (cs.getBalance sender < amount + txn.unsignedTx.fee) "not sufficient funds"

/-- What the loop carries along: the block-level totals and the next nonce of every signer seen. -/
structure CheckState where
  bvs : BlockValidationState
  nonces : GoMap Uint160 UInt64

def CheckState.new : CheckState := ⟨.new, ∅⟩

def checksNonce : Pb.PayloadType → Bool
  | .coinbase | .sigChainTxn | .nanoPay => false
  | _ => true

/-- The nonce check of the loop: nonces are counted per signing program, starting from the ledger's nonce. -/
def checkNonce (nonces : GoMap Uint160 UInt64) (txn : Transaction) :
    Outcome (GoMap Uint160 UInt64) :=
  if checksNonce txn.unsignedTx.payload.type then
    match txn.programs with
    | [] => crash "index out of range [0] with length 0"
    | program :: _ => do
      let addr := toCodeHash env program.code
      let expected := nonces.read (cs.getNonce addr) addr
      rejectIf (expected ≠ txn.unsignedTx.nonce)
        s!"txn nonce error, expected: {expected}, Get: {txn.unsignedTx.nonce}"
      .ok (nonces.store addr (expected + 1))
  else .ok nonces

def checkTransaction (height : UInt32) (state : CheckState) (txn : Transaction) :
    Outcome CheckState := do
  labelled "transaction sanity check failed: " (TxValidator.verifyTransaction env config txn height)
  let bvs ← labelled "transaction block check failed: "
    (state.bvs.verifyTransactionWithBlock env config cs txn height)
  labelled "transaction history check failed: " (verifyTransactionWithLedger env config cs txn height)
  let nonces ← checkNonce env cs state.nonces txn
  .ok ⟨bvs.commit, nonces⟩

/-- The transactions after the first one: none of them may be a coinbase transaction. -/
def checkFollowing (height : UInt32) (state : CheckState) (txn : Transaction) :
    Outcome CheckState := do
  rejectIf (txn.unsignedTx.payload.type = .coinbase) "coinbase transaction order is incorrect"
  checkTransaction env config cs height state txn

def checkTransactions (height : UInt32) : List Transaction → Outcome CheckState
  | [] => .ok .new
  | first :: rest => do
    let state ← checkTransaction env config cs height .new first
    rest.foldlM (checkFollowing env config cs height) state

/-- The winner hash of the header is empty or names a transaction of the block or of the ledger. -/
def checkWinner (b : Block) : Outcome Unit := do
  let winnerHash ← uint256ParseFromBytes b.header.unsignedHeader.winnerHash
  rejectIf (winnerHash ≠ emptyUint256 ∧ winnerHash ∉ b.transactions.map (Transaction.hash env) ∧
      (cs.db.transactions winnerHash).isNone = true)
    s!"mining sigchain txn {hexText winnerHash.toArray} not found in block"

def transactionCheck (b : Block) : Outcome Unit := do
  rejectIf (b.transactions.length = 0) "empty block"
  rejectIf (b.transactions.length > maxNumTxnPerBlock) "block contains too many transactions"
  rejectIf (Block.getTxsSize env b > maxBlockSize) "serialized block is too big"
  rejectIf (b.transactions.head?.map (·.unsignedTx.payload.type) ≠ some .coinbase)
    "first transaction in block is not Coinbase"
  let txnsRoot ← labelled "compute txns root error: " (computeRoot env (b.transactions.map (Transaction.hash env)))
  let headerTxnsRoot := b.header.unsignedHeader.transactionsRoot
  rejectIf (txnsRoot.toArray ≠ headerTxnsRoot)
    s!"computed txn root {hexText txnsRoot.toArray} is different from txn root in header {hexText headerTxnsRoot}"
  let _ ← checkTransactions env config cs b.height b.transactions
  checkWinner env cs b
  let (_, root) ← generateStateRoot env config cs b true false
  let headerRoot := copyToUint256 b.header.unsignedHeader.stateRoot
  rejectIf (root.compareTo headerRoot ≠ .eq)
    s!"[TransactionCheck]state root not equal:{hexText root.toArray}, {text headerRoot.toArray}"

end Nkn
