import Nkn.Lib.Proc
import Nkn.Model.BlockValidationState

/-! # Reservations of transactions

What the pool does with a `BlockValidationState`: a failing check changes only the count of subscriptions,
`CleanSubmittedTransactions` takes reservations back, `RefreshBlockValidationState` builds them anew. -/

namespace Nkn.BlockValidationState

open Go Outcome Store

variable (env : Env) (config : Config)

variable (cs : ChainStore)

/-- The state after a check that fails: the switch has counted the subscription before the balance is checked. -/
def afterRejection (bvs : BlockValidationState) (txn : Transaction) (height : UInt32) :
    BlockValidationState :=
  let counted := do
    rejectIf ((bvs.txnlist.load (Transaction.hash env txn)).isSome = true) ""
    let payload ← unpack env txn.unsignedTx.payload
    verifyMessage env config cs bvs txn height payload
  match counted with
  | .ok found => found.bvs
  | .error _ => bvs

def verify (txn : Transaction) (height : UInt32) : Proc BlockValidationState Unit := fun bvs =>
  match bvs.verifyTransactionWithBlock env config cs txn height with
  | .ok bvs' => (.ok (), bvs')
  | .error fault => (.error fault, bvs.afterRejection env config cs txn height)

abbrev Errors := GoMap Uint256 String

/-- Checks transactions one after the other and collects the errors. `settle` is what is done with the state after a
check, which has succeeded or not. -/
def checkEach (settle : Bool → BlockValidationState → BlockValidationState) (cs : ChainStore) (height : UInt32)
    (errMap : Errors) : List Transaction → Proc BlockValidationState Errors
  | [] => pure errMap
  | txn :: txns => fun bvs =>
    match verify env config cs txn height bvs with
    | (.ok (), bvs') => checkEach settle cs height errMap txns (settle true bvs')
    | (.error (.error text), bvs') =>
      checkEach settle cs height (errMap.store (Transaction.hash env txn) text) txns (settle false bvs')
    | (.error (.panic text), bvs') => (.error (.panic text), bvs')

def init (bvs : BlockValidationState) : BlockValidationState := { new with changes := bvs.changes }

/-- `RefreshBlockValidationState`: the changes of all transactions are applied at the end. -/
def refreshBlockValidationState (txns : List Transaction) : Proc BlockValidationState Errors := do
  Proc.modify init
  let errMap ← checkEach env config (fun _ bvs => bvs) cs (cs.getHeight + 1) ∅ txns
  Proc.modify commit
  pure errMap

def releaseAmount (sender : Uint160) (amount fee : Int64) : Proc BlockValidationState Unit := fun bvs =>
  if amount > 0 ∨ fee > 0 then
    match bvs.totalAmount.load sender with
    | some total =>
      if total ≥ amount + fee then
        let rest := total - (amount + fee)
        (.ok (), { bvs with
          totalAmount := if rest = 0 then bvs.totalAmount.delete sender else bvs.totalAmount.store sender rest })
      else (fail "inconsistent block validation state", bvs)
    | none => (fail "inconsistent block validation state", bvs)
  else (.ok (), bvs)

/-- The switch of `CleanSubmittedTransactions`: the amount to take back, and the state without the records. -/
def releaseMessage (bvs : BlockValidationState) (txn : Transaction) : Pb.Message → Int64 × BlockValidationState
  | .transferAsset transfer => (transfer.amount, bvs)
  | .registerName payload =>
    (payload.registrationFee, { bvs with
      registeredNames := bvs.registeredNames.delete payload.name
      nameRegistrants := bvs.nameRegistrants.delete (hexEncodeToString payload.registrant) })
  | .transferName payload => (0, { bvs with registeredNames := bvs.registeredNames.delete payload.name })
  | .deleteName payload =>
    (0, { bvs with
      registeredNames := bvs.registeredNames.delete payload.name
      nameRegistrants := bvs.nameRegistrants.delete (hexEncodeToString payload.registrant) })
  | .subscribe payload =>
    let key : SubscriptionKey := ⟨payload.topic, payload.bucket, payload.subscriber, payload.identifier⟩
    match bvs.subscriptions.load key with
    | some info =>
      let count := bvs.subscriptionCount.read 0 payload.topic - 1
      (0, { bvs with
        subscriptions := bvs.subscriptions.delete key
        subscriptionCount :=
          if info.new then
            if count = 0 then bvs.subscriptionCount.delete payload.topic
            else bvs.subscriptionCount.store payload.topic count
          else bvs.subscriptionCount })
    | none => (0, bvs)
  | .unsubscribe payload =>
    let key : SubscriptionKey := ⟨payload.topic, 0, payload.subscriber, payload.identifier⟩
    match bvs.subscriptions.load key with
    | some _ =>
      (0, { bvs with
        subscriptions := bvs.subscriptions.delete key
        subscriptionCount := bvs.subscriptionCount.store payload.topic (bvs.subscriptionCount.read 0 payload.topic + 1) })
    | none => (0, bvs)
  | .generateID payload =>
    (payload.registrationFee, { bvs with generateIDs := bvs.generateIDs.delete (hexEncodeToString payload.publicKey) })
  | .nanoPay payload =>
    (0, { bvs with
      nanoPays := bvs.nanoPays.delete
        ⟨hexEncodeToString payload.sender, hexEncodeToString payload.recipient, payload.id⟩
      nanoPayPayloads := bvs.nanoPayPayloads.delete (Transaction.hash env txn) })
  | .coinbase _ | .sigChainTxn _ | .issueAsset _ => (0, bvs)

def release (txn : Transaction) : Proc BlockValidationState Unit := do
  let known ← Proc.gets fun bvs => bvs.txnlist.load (Transaction.hash env txn)
  match known with
  | none => pure ()
  | some _ => do
    Proc.modify fun bvs => { bvs with txnlist := bvs.txnlist.delete (Transaction.hash env txn) }
    let payload ← Proc.lift (unpack env txn.unsignedTx.payload)
    let pg ← Proc.lift (Transaction.getProgramHashes env txn)
    let sender ← Proc.lift (Transaction.firstHash pg)
    let amount ← Proc.gets fun bvs => (releaseMessage env bvs txn payload).1
    Proc.modify fun bvs => (releaseMessage env bvs txn payload).2
    releaseAmount sender amount txn.unsignedTx.fee

def recount (payload : Pb.NanoPay) : Proc BlockValidationState Unit := do
  let channelBalance := (cs.getNanoPay (bytesToUint160 payload.sender) (bytesToUint160 payload.recipient) payload.id).1
  Proc.lift (rejectIf (payload.amount ≤ channelBalance) "inconsistent block validation state")
  Proc.modify fun bvs =>
    { bvs with nanoPayAmount := addTo bvs.nanoPayAmount (bytesToUint160 payload.sender) (payload.amount - channelBalance) }

/-- The end of `CleanSubmittedTransactions`: the payments that remain are counted again. -/
def recountNanoPays : Proc BlockValidationState Unit := fun bvs =>
  if bvs.nanoPayAmount.entries.length > 0 then
    Proc.forEach (bvs.nanoPayPayloads.entries.map Sigma.snd) (recount cs) { bvs with nanoPayAmount := ∅ }
  else (.ok (), bvs)

def cleanSubmittedTransactions (txns : List Transaction) : Proc BlockValidationState Unit := do
  Proc.forEach txns (release env)
  recountNanoPays cs

end Nkn.BlockValidationState
