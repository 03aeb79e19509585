import Nkn.Model.BlockValidator
import Nkn.Model.Reservations

/-! # The transaction pool

`TxnPool` of `chain/pool`: the transactions of an account by nonce, the payments of the channels, two indices by hash,
the counters, the reservations, and the recent transactions that neighbors ask for. -/

namespace Nkn

open Go Outcome Store

structure PoolConfig where
  txPoolPerAccountTxCap : UInt32
  txPoolTotalTxCap : UInt32
  txPoolMaxMemorySize : UInt32
  shortHashSalt : Bytes

def shortHashSize : Nat := 8

def errDuplicatedTx : String := "duplicate transaction check failed"

def errRejectLowPriority : String := "txpool full, rejecting transaction with low priority"

def errNanoPayReplace : String := "cannot replace nano pay txn with lower amount or expiration"

/-- `NonceSortedTxs`: the transactions behind `idx`. The map `txs` has the same ones, and `cap` is that of the
configuration. -/
abbrev NonceSortedTxs := List Transaction

namespace NonceSortedTxs

def existTx (env : Env) (list : NonceSortedTxs) (hash : Uint256) : Bool :=
  list.any fun txn => decide (Transaction.hash env txn = hash)

def full (cap : UInt32) (list : NonceSortedTxs) : Bool := decide (list.length ≥ cap.toNat)

/-- The position of a nonce; `none` stands for the errors `ErrNonceSortedTxsEmpty` and `ErrNonceOutofRange`. -/
def position (list : NonceSortedTxs) (nonce : UInt64) : Option Nat :=
  match list.head?, list.getLast? with
  | some first, some last =>
    if nonce < first.unsignedTx.nonce ∨ nonce > last.unsignedTx.nonce then none
    else some (nonce - first.unsignedTx.nonce).toNat
  | _, _ => none

/-- `GetByNonce`, where `none` is an error. A position outside of the list is a panic. -/
def getByNonce (list : NonceSortedTxs) (nonce : UInt64) : Outcome (Option Transaction) :=
  match list.position nonce with
  | none => .ok none
  | some position => (list[position]?).elim (crash "index out of range") fun txn => .ok (some txn)

def replace (list : NonceSortedTxs) (txn : Transaction) : Outcome NonceSortedTxs :=
  match list.position txn.unsignedTx.nonce with
  | none => fail (if list.isEmpty then "empty NonceSortedTxs" else "nonce is not in range")
  | some position =>
    if position < list.length then .ok (list.set position txn) else crash "index out of range"

end NonceSortedTxs

structure TxnPool where
  txLists : GoMap Uint160 NonceSortedTxs
  txMap : GoMap Uint256 Transaction
  txShortHashMap : GoMap Bytes Transaction
  nanoPayTxs : GoMap NanoPayKey Transaction
  blockValidationState : BlockValidationState
  txnCount : Int32
  txnSize : Int64
  lastDroppedTxn : Option Transaction
  twtMap : GoMap Uint256 (Int64 × Transaction)
  twtCount : Int
  twtFingerprint : Option Bytes

namespace TxnPool

variable (env : Env) (config : Config) (poolConfig : PoolConfig) (cs : ChainStore)

def new : TxnPool := ⟨∅, ∅, ∅, ∅, .new, 0, 0, none, ∅, 0, none⟩

def isTxPoolFull (txnCount : Int32) (txnSize : Int64) : Bool :=
  decide (poolConfig.txPoolTotalTxCap > 0 ∧ txnCount > poolConfig.txPoolTotalTxCap.toInt32) ||
    decide (poolConfig.txPoolMaxMemorySize > 0 ∧
      txnSize > Int64.ofNat poolConfig.txPoolMaxMemorySize.toNat * 1024 * 1024)

variable (txn : Transaction)

/-- The fee of a byte, which `CompareTxnsByFeePerSize` compares. -/
def feePerSize : ℚ :=
  let size := Transaction.getSize env txn
  if size > 0 then env.quotient txn.unsignedTx.fee size else 0

def sizeOf : Int64 := Int64.ofNat (Transaction.getSize env txn).toNat

def nanoPayKey (payload : Pb.NanoPay) : NanoPayKey := ⟨payload.sender, payload.recipient, payload.id⟩

def shortHash : Bytes :=
  (env.sha256 ((Transaction.hash env txn).toArray ++ poolConfig.shortHashSalt)).toArray.take shortHashSize

def sender : Outcome Uint160 := do
  let hashes ← Transaction.getProgramHashes env txn
  Transaction.firstHash hashes

def addTransactionToMap (tp : TxnPool) : TxnPool :=
  { tp with
    txMap := tp.txMap.store (Transaction.hash env txn) txn
    txShortHashMap := tp.txShortHashMap.store (shortHash env poolConfig txn) txn }

def deleteTransactionFromMap (tp : TxnPool) : TxnPool :=
  { tp with
    txMap := tp.txMap.delete (Transaction.hash env txn)
    txShortHashMap := tp.txShortHashMap.delete (shortHash env poolConfig txn) }

def addToPool (tp : TxnPool) : TxnPool :=
  let tp := addTransactionToMap env poolConfig txn tp
  { tp with txnCount := tp.txnCount + 1, txnSize := tp.txnSize + sizeOf env txn }

def removeFromPool (tp : TxnPool) : TxnPool :=
  let tp := deleteTransactionFromMap env poolConfig txn tp
  { tp with txnCount := tp.txnCount - 1, txnSize := tp.txnSize - sizeOf env txn }

def getAllTransactions (tp : TxnPool) : List Transaction :=
  tp.txLists.entries.flatMap (fun entry => entry.2) ++ tp.nanoPayTxs.entries.map Sigma.snd

def onState {α : Type} (x : Proc BlockValidationState α) : Proc TxnPool α :=
  x.zoom blockValidationState fun tp bvs => { tp with blockValidationState := bvs }

def getOrNewList (owner : Uint160) : Proc TxnPool NonceSortedTxs := do
  Proc.modify fun tp =>
    if (tp.txLists.load owner).isSome then tp else { tp with txLists := tp.txLists.store owner [] }
  Proc.gets fun tp => tp.txLists.read [] owner

def setList (owner : Uint160) (list : NonceSortedTxs) (tp : TxnPool) : TxnPool :=
  { tp with txLists := tp.txLists.store owner list }

def firstCode : Outcome Bytes :=
  txn.programs.head?.elim (crash "index out of range [0] with length 0") fun program => .ok program.code

/-- The switch of `removeTransactions`: what a transaction of a block takes out of the lists. -/
def takeOut : Proc TxnPool (List Transaction) := fun tp =>
  match txn.unsignedTx.payload.type with
  | .coinbase | .sigChainTxn => (.ok [], tp)
  | .nanoPay =>
    match unpack env txn.unsignedTx.payload with
    | .ok (.nanoPay payload) =>
      if (tp.nanoPayTxs.load (nanoPayKey payload)).isSome then
        (.ok [txn], { tp with nanoPayTxs := tp.nanoPayTxs.delete (nanoPayKey payload) })
      else (.ok [], tp)
    | _ => (.ok [], tp)
  | _ =>
    match firstCode txn with
    | .error fault => (.error fault, tp)
    | .ok code =>
      let sender := toCodeHash env code
      let list := tp.txLists.read [] sender
      match list.position txn.unsignedTx.nonce with
      | none => (.ok [], tp)
      | some position =>
        -- the number to pop is a uint16
        let n := (position + 1) % 2 ^ 16
        if n ≤ list.length ∧ position < list.length then (.ok (list.take n), tp.setList sender (list.drop n))
        else (crash "slice bounds out of range", tp)

def removeTransaction : Proc TxnPool (List Transaction) := do
  let txnsToRemove ← takeOut env txn
  Proc.modify fun tp => txnsToRemove.foldl (fun tp txn => removeFromPool env poolConfig txn tp) tp
  pure txnsToRemove

def removeEach : List Transaction → Proc TxnPool (List Transaction)
  | [] => pure []
  | txn :: txns => do
    let removed ← removeTransaction env poolConfig txn
    let rest ← removeEach txns
    pure (removed ++ rest)

def cleanEmptyLists (tp : TxnPool) : TxnPool :=
  { tp with
    txLists := tp.txLists.entries.foldl
      (fun lists entry => if entry.2.isEmpty then lists.delete entry.1 else lists) tp.txLists }

variable (txns : List Transaction)

def removeTransactions : Proc TxnPool (List Transaction) := do
  let removed ← removeEach env poolConfig txns
  Proc.modify cleanEmptyLists
  pure removed

/-- The state is built anew from the pool if the reservations cannot be taken back. -/
def rebuildState : Proc TxnPool Unit := do
  let all ← Proc.gets getAllTransactions
  let errMap ← onState (BlockValidationState.refreshBlockValidationState env config cs all)
  Proc.when (errMap.entries.isEmpty = false) do
    let _ ← removeTransactions env poolConfig
      (txns.filter fun txn => (errMap.load (Transaction.hash env txn)).isSome)
    pure ()

def cleanBlockValidationState : Proc TxnPool Unit :=
  (onState (BlockValidationState.cleanSubmittedTransactions env cs txns)).recover
    (rebuildState env config poolConfig cs txns)

/-- Checks a transaction against the reservations; the changes it has queued are dropped if it does not pass. -/
def verifyOrReset : Proc TxnPool Unit := fun tp =>
  match onState (BlockValidationState.verify env config cs txn (cs.getHeight + 1)) tp with
  | (.ok (), tp') => (.ok (), tp')
  | (.error (.error text), tp') =>
    (.error (.error text), { tp' with blockValidationState := tp'.blockValidationState.reset })
  | (.error (.panic text), tp') => (.error (.panic text), tp')

def preReplaceTxn (oldTxn newTxn : Transaction) : Proc TxnPool Unit := do
  cleanBlockValidationState env config poolConfig cs [oldTxn]
  verifyOrReset env config cs newTxn
  Proc.modify (removeFromPool env poolConfig oldTxn)

def processNanoPay (payload : Pb.NanoPay) : Proc TxnPool Unit := do
  let pooled ← Proc.gets fun tp => tp.nanoPayTxs.load (nanoPayKey payload)
  match pooled with
  | some oldTxn => do
    let oldPayload ← Proc.lift (unpack env oldTxn.unsignedTx.payload)
    match oldPayload with
    | .nanoPay oldPayload =>
      Proc.lift (rejectIf (payload.amount < oldPayload.amount ∨ payload.txnExpiration < oldPayload.txnExpiration ∨
        payload.nanoPayExpiration < oldPayload.nanoPayExpiration) errNanoPayReplace)
      preReplaceTxn env config poolConfig cs oldTxn txn
    | _ => Proc.lift (crash "interface conversion")
  | none => verifyOrReset env config cs txn
  Proc.modify fun tp => { tp with nanoPayTxs := tp.nanoPayTxs.store (nanoPayKey payload) txn }

/-- A transaction replaces the pooled one with its nonce, or comes after the last one of its account. -/
def processOrdered (owner : Uint160) : Proc TxnPool Unit := do
  let list ← Proc.gets fun tp => tp.txLists.read [] owner
  let pooled ← Proc.lift (list.getByNonce txn.unsignedTx.nonce)
  match pooled with
  | some oldTxn => do
    preReplaceTxn env config poolConfig cs oldTxn txn
    -- a rebuild of the state may have changed the list
    let list ← Proc.gets fun tp => tp.txLists.read [] owner
    let replaced ← Proc.lift (list.replace txn)
    Proc.modify (setList owner replaced)
  | none => do
    Proc.lift (rejectIf (list.full poolConfig.txPoolPerAccountTxCap = true) "txpool per account list is full")
    let expectNonce := list.getLast?.elim (cs.getNonce owner) fun last => last.unsignedTx.nonce + 1
    Proc.lift (rejectIf (txn.unsignedTx.nonce ≠ expectNonce) "nonce is not continuous")
    verifyOrReset env config cs txn
    Proc.modify (setList owner (list ++ [txn]))

def settle : Proc TxnPool Unit := do
  onState (Proc.modify BlockValidationState.commit)
  Proc.modify (addToPool env poolConfig txn)

def processTx : Proc TxnPool Unit := do
  let owner ← Proc.lift (sender env txn)
  let list ← getOrNewList owner
  Proc.lift (rejectIf (list.existTx env (Transaction.hash env txn) = true) errDuplicatedTx)
  let payload ← Proc.lift (unpack env txn.unsignedTx.payload)
  match payload with
  | .coinbase _ => Proc.lift (fail "invalid txn type COINBASE_TYPE")
  | .sigChainTxn _ => pure ()
  | .nanoPay payload => do
    processNanoPay env config poolConfig cs txn payload
    settle env poolConfig txn
  | _ => do
    processOrdered env config poolConfig cs txn owner
    settle env poolConfig txn

def flipped (fingerprint : Option Bytes) (hash : Uint256) : Bytes :=
  fingerprint.elim hash.toArray fun bytes => List.zipWith (· ^^^ ·) bytes hash.toArray

def appendTwt (now : Int64) (txn : Transaction) (tp : TxnPool) : TxnPool :=
  if (tp.twtMap.load (Transaction.hash env txn)).isSome then tp
  else
    { tp with
      twtMap := tp.twtMap.store (Transaction.hash env txn) (now, txn)
      twtCount := tp.twtCount + 1
      twtFingerprint := some (flipped tp.twtFingerprint (Transaction.hash env txn)) }

def removeTwt (hash : Uint256) (tp : TxnPool) : TxnPool :=
  match tp.twtMap.load hash with
  | some (_, txn) =>
    { tp with
      twtMap := tp.twtMap.delete hash
      twtCount := tp.twtCount - 1
      twtFingerprint := some (flipped tp.twtFingerprint (Transaction.hash env txn)) }
  | none => tp

def forgetTwt (hash : Uint256) (tp : TxnPool) : TxnPool :=
  { tp with
    twtMap := tp.twtMap.delete hash
    twtCount := tp.twtCount - 1
    twtFingerprint := some (flipped tp.twtFingerprint hash) }

/-- One turn of the loop of `removeFromTwtMap`; the source takes the number of removed keys off the count at the end. -/
def removeIfTwt (hash : Uint256) (tp : TxnPool) : TxnPool :=
  if (tp.twtMap.load hash).isSome then forgetTwt hash tp else tp

def removeFromTwtMap (txnsRemoved : List Transaction) (tp : TxnPool) : TxnPool :=
  txnsRemoved.foldl (fun tp txn => removeIfTwt (Transaction.hash env txn) tp) tp

def recordTime (now : Int64) (oldTxn : Option Transaction) (txn : Transaction) (tp : TxnPool) : TxnPool :=
  match oldTxn with
  | some oldTxn =>
    if Transaction.hash env oldTxn = Transaction.hash env txn then tp
    else appendTwt env now txn (removeTwt env (Transaction.hash env oldTxn) tp)
  | none => appendTwt env now txn tp

def appendTxnPool (now : Int64) (txn : Transaction) : Proc TxnPool Unit := do
  let lastDroppedTxn ← Proc.gets lastDroppedTxn
  Proc.lift (rejectIf (∃ dropped ∈ lastDroppedTxn, feePerSize env txn ≤ feePerSize env dropped) errRejectLowPriority)
  let owner ← Proc.lift (sender env txn)
  let list ← getOrNewList owner
  let oldTxn ← Proc.lift (list.getByNonce txn.unsignedTx.nonce)
  Proc.lift (rejectIf (oldTxn = none ∧ list.full poolConfig.txPoolPerAccountTxCap = true)
    "account txpool full, too many transaction in list")
  Proc.lift (TxValidator.verifyTransaction env config txn (cs.getHeight + 1))
  Proc.lift (verifyTransactionWithLedger env config cs txn (cs.getHeight + 1))
  processTx env config poolConfig cs txn
  Proc.modify (recordTime env now oldTxn txn)

def cleanSubmittedTransactions : Proc TxnPool Unit := do
  let removed ← removeTransactions env poolConfig txns
  Proc.modify (removeFromTwtMap env removed)
  cleanBlockValidationState env config poolConfig cs removed

end TxnPool

end Nkn
