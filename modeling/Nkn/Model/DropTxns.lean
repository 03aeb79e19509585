import Nkn.Lib.Heap
import Nkn.Model.TxnPool

/-! # Dropping transactions from a full pool

`DropTxns` pops the last transaction of an account with the lowest fee per size off a heap until the pool is not full. -/

namespace Nkn.TxnPool

open Go Store

variable (env : Env) (config : Config) (poolConfig : PoolConfig) (cs : ChainStore)

def cheaper (txn txn' : Transaction) : Bool := decide (feePerSize env txn < feePerSize env txn')

/-- The transactions that may be dropped first: the last ones of the accounts, and the nano pays. -/
def candidates (tp : TxnPool) : List Transaction :=
  (tp.txLists.entries.filterMap fun entry => entry.2.getLast?) ++ tp.nanoPayTxs.entries.map Sigma.snd

/-- What the loop carries along. `spare` says that the slice has room for one more cell. -/
structure DropState where
  pool : TxnPool
  dropList : List Transaction
  spare : Bool
  currentTxnCount : Int32
  currentTxnSize : Int64
  txnsDropped : List Transaction

/-- `heap.Push` of a copy of the slice: without room the copy gets cells of its own. -/
def pushBack (spare : Bool) (dropList : List Transaction) (txn : Transaction) : List Transaction :=
  if spare then Heap.pushed (cheaper env) dropList txn else dropList

def dropFromList (txn : Transaction) (spare : Bool) (tp : TxnPool) (dropList : List Transaction) :
    Bool × TxnPool × List Transaction :=
  match txn.unsignedTx.payload.type with
  | .nanoPay =>
    match unpack env txn.unsignedTx.payload with
    | .ok (.nanoPay payload) =>
      if (tp.nanoPayTxs.load (nanoPayKey payload)).isSome then
        (true, { tp with nanoPayTxs := tp.nanoPayTxs.delete (nanoPayKey payload) }, dropList)
      else (false, tp, dropList)
    | _ => (false, tp, dropList)
  | _ =>
    match sender env txn with
    | .error _ => (false, tp, dropList)
    | .ok account =>
      let list := tp.txLists.read [] account
      match list.getLast? with
      | none => (false, tp, dropList)
      | some last =>
        if Transaction.hash env txn ≠ emptyUint256 ∧ Transaction.hash env last ≠ Transaction.hash env txn then
          -- nothing is dropped, but the last transaction of the account is pushed
          (false, tp, pushBack env spare dropList last)
        else
          (true, tp.setList account list.dropLast, (list.dropLast.getLast?).elim dropList (pushBack env spare dropList))

def dropStep (state : DropState) : DropState ⊕ DropState :=
  let cells := Heap.popped (cheaper env) state.dropList
  match cells.getLast? with
  | none => .inl state
  | some txn =>
    match dropFromList env txn state.spare state.pool cells with
    | (false, pool, dropList) => .inr { state with pool, dropList }
    | (true, pool, dropList) =>
      let next : DropState :=
        { state with
          pool := removeFromPool env poolConfig txn pool
          dropList
          currentTxnCount := state.currentTxnCount - 1
          currentTxnSize := state.currentTxnSize - sizeOf env txn
          txnsDropped := state.txnsDropped ++ [txn] }
      if isTxPoolFull poolConfig next.currentTxnCount next.currentTxnSize then .inr next else .inl next

def dropLoop : Nat → DropState → Option DropState
  | 0, _ => none
  | fuel + 1, state =>
    match dropStep env poolConfig state with
    | .inl state => some state
    | .inr state => dropLoop fuel state

/-- `DropTxns`, with at most `fuel` turns of its loop. `capacity` is what `append` makes of a number of cells. -/
def dropTxns (capacity : Nat → Nat) (fuel : Nat) (tp : TxnPool) : Option (Outcome (List Transaction) × TxnPool) :=
  if isTxPoolFull poolConfig tp.txnCount tp.txnSize = false then
    some (.ok [], { tp with lastDroppedTxn := none })
  else
    let dropList := Heap.init (cheaper env) (candidates tp)
    let start : DropState :=
      ⟨tp, dropList, decide (dropList.length < capacity dropList.length), tp.txnCount, tp.txnSize, []⟩
    (dropLoop env poolConfig fuel start).map fun final =>
      (do
        cleanBlockValidationState env config poolConfig cs final.txnsDropped
        Proc.modify fun tp => { tp with lastDroppedTxn := final.txnsDropped.getLast? }
        pure final.txnsDropped : Proc TxnPool (List Transaction)) final.pool

inductive PoolCall where
  | appendTxnPool (cs : ChainStore) (now : Int64) (txn : Transaction)
  | dropTxns (cs : ChainStore) (capacity : Nat → Nat) (fuel : Nat)
  | cleanSubmittedTransactions (cs : ChainStore) (txns : List Transaction)

/-- The pool after a call; a `DropTxns` that does not end within its turns leaves the pool. -/
def callPool (tp : TxnPool) : PoolCall → TxnPool
  | .appendTxnPool cs now txn => (appendTxnPool env config poolConfig cs now txn tp).2
  | .dropTxns cs capacity fuel => ((dropTxns env config poolConfig cs capacity fuel tp).map Prod.snd).getD tp
  | .cleanSubmittedTransactions cs txns => (cleanSubmittedTransactions env config poolConfig cs txns tp).2

def runPool (calls : List PoolCall) : TxnPool := calls.foldl (callPool env config poolConfig) new

end Nkn.TxnPool
