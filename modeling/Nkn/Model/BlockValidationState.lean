import Nkn.Model.ChainStore

/-! # Block-level validation

`BlockValidationState` of `chain/bvs.go`: what the transactions of a block, taken together, may do. -/

namespace Nkn

open Go Outcome Store

structure SubscriptionKey where
  topic : Bytes
  bucket : UInt32
  subscriber : Bytes
  identifier : Bytes
deriving DecidableEq

structure SubscriptionInfo where
  new : Bool
  metadata : Bytes

/-- Key of a payment channel in a block: the payload's sender and recipient bytes in hexadecimal. -/
structure NanoPayKey where
  sender : Bytes
  recipient : Bytes
  nonce : UInt64
deriving DecidableEq

inductive Change where
  | txn (hash : Uint256)
  | name (name : Bytes) (registrant : Option Bytes)
  | generateID (publicKey : Bytes)
  | subscription (key : SubscriptionKey) (info : SubscriptionInfo)
  | nanoPay (key : NanoPayKey) (hash : Uint256) (payload : Pb.NanoPay)
  | amount (sender : Uint160) (total nanoPay : Int64)

structure BlockValidationState where
  txnlist : GoMap Uint256 Unit
  totalAmount : GoMap Uint160 Int64
  registeredNames : GoMap Bytes Unit
  nameRegistrants : GoMap Bytes Unit
  generateIDs : GoMap Bytes Unit
  subscriptions : GoMap SubscriptionKey SubscriptionInfo
  subscriptionCount : GoMap Bytes Int
  subscriptionCountChange : GoMap Bytes Int
  nanoPays : GoMap NanoPayKey Unit
  nanoPayAmount : GoMap Uint160 Int64
  nanoPayPayloads : GoMap Uint256 Pb.NanoPay
  changes : List Change

namespace BlockValidationState

def new : BlockValidationState := ⟨∅, ∅, ∅, ∅, ∅, ∅, ∅, ∅, ∅, ∅, ∅, []⟩

def addTo (amounts : GoMap Uint160 Int64) (key : Uint160) (value : Int64) : GoMap Uint160 Int64 :=
  amounts.store key (amounts.read 0 key + value)

variable (bvs : BlockValidationState)

def apply : Change → BlockValidationState
  | .txn hash => { bvs with txnlist := bvs.txnlist.store hash () }
  | .name name registrant =>
    { bvs with
      registeredNames := bvs.registeredNames.store name ()
      nameRegistrants := match registrant with
        | some registrant => bvs.nameRegistrants.store registrant ()
        | none => bvs.nameRegistrants }
  | .generateID publicKey => { bvs with generateIDs := bvs.generateIDs.store publicKey () }
  | .subscription key info => { bvs with subscriptions := bvs.subscriptions.store key info }
  | .nanoPay key hash payload =>
    { bvs with
      nanoPays := bvs.nanoPays.store key ()
      nanoPayPayloads := bvs.nanoPayPayloads.store hash payload }
  | .amount sender total nanoPay =>
    { bvs with
      totalAmount := addTo bvs.totalAmount sender total
      nanoPayAmount := addTo bvs.nanoPayAmount sender nanoPay }

def reset : BlockValidationState := { bvs with changes := [], subscriptionCountChange := ∅ }

def commit : BlockValidationState :=
  let applied := bvs.changes.foldl apply bvs
  let counts := applied.subscriptionCountChange.entries.foldl
    (fun counts entry => counts.store entry.1 (counts.read 0 entry.1 + entry.2)) applied.subscriptionCount
  reset { applied with subscriptionCount := counts }

def countSubscription (topic : Bytes) (change : Int) : BlockValidationState :=
  { bvs with
    subscriptionCountChange :=
      bvs.subscriptionCountChange.store topic (bvs.subscriptionCountChange.read 0 topic + change) }

variable (env : Env) (config : Config)

/-- What the check of a payload yields: the amounts that count against the sender's balance, and the changes of
the case in question. -/
structure Finding where
  bvs : BlockValidationState
  amount : Int64
  npAmount : Int64
  changes : List Change

def checkName (bvs : BlockValidationState) (height : UInt32) (name registrant : Bytes) : Outcome Unit := do
  rejectIf ((bvs.registeredNames.load name).isSome = true)
    "[VerifyTransactionWithBlock] duplicate name exist in block"
  rejectIf (config.isLegacy height = true ∧ (bvs.nameRegistrants.load (hexEncodeToString registrant)).isSome = true)
    "[VerifyTransactionWithBlock] duplicate registrant exist in block"

/-- The switch of `VerifyTransactionWithBlock`. The subscription limit is not modelled: `MaxSubscriptionsCount`
is 0, which means no limit. -/
def verifyMessage (cs : ChainStore) (bvs : BlockValidationState) (txn : Transaction) (height : UInt32) :
    Pb.Message → Outcome Finding
  | .coinbase coinbase => do
    let donationAmount ← cs.getDonation config
    if height = 0 then crash s!"Invalid height {height}"
    else
      rejectIf (coinbase.amount ≠ getRewardByHeight height + donationAmount) "mining reward incorrectly"
      .ok ⟨bvs, 0, 0, []⟩
  | .transferAsset transfer => .ok ⟨bvs, transfer.amount, 0, []⟩
  | .registerName payload => do
    checkName config bvs height payload.name payload.registrant
    .ok ⟨bvs, payload.registrationFee, 0, [.name payload.name (some (hexEncodeToString payload.registrant))]⟩
  | .transferName payload => .ok ⟨bvs, 0, 0, [.name payload.name none]⟩
  | .deleteName payload => do
    checkName config bvs height payload.name payload.registrant
    .ok ⟨bvs, 0, 0, [.name payload.name (some (hexEncodeToString payload.registrant))]⟩
  | .subscribe payload => do
    let key : SubscriptionKey := ⟨payload.topic, payload.bucket, payload.subscriber, payload.identifier⟩
    rejectIf ((bvs.subscriptions.load key).isSome = true)
      "[VerifyTransactionWithBlock] duplicate subscription exist in block"
    let subscribed := cs.states.isSubscribed env payload.topic payload.bucket payload.subscriber payload.identifier
    let bvs := if subscribed then bvs else bvs.countSubscription payload.topic 1
    .ok ⟨bvs, 0, 0, [.subscription key ⟨!subscribed, payload.metadata⟩]⟩
  | .unsubscribe payload => do
    let key : SubscriptionKey := ⟨payload.topic, 0, payload.subscriber, payload.identifier⟩
    rejectIf ((bvs.subscriptions.load key).isSome = true)
      "[VerifyTransactionWithBlock] duplicate subscription exist in block"
    rejectIf (cs.states.isSubscribed env payload.topic 0 payload.subscriber payload.identifier = false)
      "[VerifyTransactionWithBlock] subscription doesn't exist"
    .ok ⟨bvs.countSubscription payload.topic (-1), 0, 0, [.subscription key ⟨false, []⟩]⟩
  | .generateID payload => do
    let publicKey := hexEncodeToString payload.publicKey
    rejectIf ((bvs.generateIDs.load publicKey).isSome = true) "duplicate GenerateID txns"
    .ok ⟨bvs, payload.registrationFee, 0, [.generateID publicKey]⟩
  | .nanoPay payload => do
    rejectIf (height > payload.txnExpiration) "[VerifyTransactionWithBlock] nano pay txn has expired"
    rejectIf (height > payload.nanoPayExpiration) "[VerifyTransactionWithBlock] nano pay has expired"
    let key : NanoPayKey := ⟨hexEncodeToString payload.sender, hexEncodeToString payload.recipient, payload.id⟩
    rejectIf ((bvs.nanoPays.load key).isSome = true)
      "[VerifyTransactionWithBlock] duplicate payment channel exist in block"
    let channelBalance :=
      (cs.getNanoPay (bytesToUint160 payload.sender) (bytesToUint160 payload.recipient) payload.id).1
    rejectIf (payload.amount ≤ channelBalance) "invalid nanopay amount"
    .ok ⟨bvs, 0, payload.amount - channelBalance, [.nanoPay key (Transaction.hash env txn) payload]⟩
  | .sigChainTxn _ | .issueAsset _ => .ok ⟨bvs, 0, 0, []⟩

/-- The check of the sender's balance against all amounts seen in the block so far. -/
def verifyAmount (cs : ChainStore) (bvs : BlockValidationState) (sender : Uint160) (amount npAmount fee : Int64) :
    Outcome (List Change) :=
  if amount + npAmount + fee > 0 then do
    rejectIf (cs.getBalance sender <
        bvs.totalAmount.read 0 sender + bvs.nanoPayAmount.read 0 sender + amount + npAmount + fee)
      "not sufficient funds"
    .ok [.amount sender (amount + fee) npAmount]
  else .ok []

/-- `VerifyTransactionWithBlock`; deferred changes are recorded in reverse order. -/
def verifyTransactionWithBlock (cs : ChainStore) (bvs : BlockValidationState) (txn : Transaction) (height : UInt32) :
    Outcome BlockValidationState := do
  rejectIf ((bvs.txnlist.load (Transaction.hash env txn)).isSome = true)
    "[VerifyTransactionWithBlock] duplicate transaction exist in block"
  let payload ← unpack env txn.unsignedTx.payload
  let pg ← Transaction.getProgramHashes env txn
  let sender ← Transaction.firstHash pg
  let found ← verifyMessage env config cs bvs txn height payload
  let amounts ← verifyAmount cs bvs sender found.amount found.npAmount txn.unsignedTx.fee
  .ok { found.bvs with
    changes := found.bvs.changes ++ amounts ++ found.changes ++ [.txn (Transaction.hash env txn)] }

end BlockValidationState

end Nkn
