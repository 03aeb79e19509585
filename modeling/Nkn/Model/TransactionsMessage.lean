import Nkn.Model.TxnPool

/-! # Messages with transactions

`handleTransactionsMessage` of `lnode`: a transaction whose hash has been seen in the last hour is not looked at again. -/

namespace Nkn

open Go Outcome Store

def hashCacheExpiration : Int64 := 3600 * 1000

abbrev HashCache := GoMap Uint256 Int64

namespace HashCache

def found (cache : HashCache) (now : Int64) (hash : Uint256) : Bool :=
  (cache.load hash).any fun expiration => decide (now ≤ expiration)

def add (cache : HashCache) (now : Int64) (hash : Uint256) : HashCache := cache.store hash (now + hashCacheExpiration)

end HashCache

structure TxnNode where
  hashCache : HashCache
  txnPool : TxnPool

namespace TxnNode

variable (env : Env) (config : Config) (poolConfig : PoolConfig) (cs : ChainStore) (now : Int64)

def existHash (hash : Uint256) : Proc TxnNode Bool := fun node =>
  if node.hashCache.found now hash then (.ok true, node)
  else (.ok false, { node with hashCache := node.hashCache.add now hash })

def appendTxnPool (txn : Transaction) : Proc TxnNode Unit :=
  (TxnPool.appendTxnPool env config poolConfig cs now txn).zoom txnPool fun node pool => { node with txnPool := pool }

/-- The loop of `handleTransactionsMessage`: whether the message is to be relayed. -/
def handleEach : List Transaction → Proc TxnNode Bool
  | [] => pure true
  | txn :: txns => do
    let seen ← existHash now (Transaction.hash env txn)
    if seen then pure false
    else fun node =>
      match appendTxnPool env config poolConfig cs now txn node with
      | (.ok (), node') => handleEach txns node'
      | (.error (.error text), node') =>
        if text = errDuplicatedTx ∨ text = errRejectLowPriority then (.ok false, node')
        else (.error (.error text), node')
      | (.error (.panic text), node') => (.error (.panic text), node')

def handleTransactionsMessage (txns : List Transaction) : Proc TxnNode Bool := do
  Proc.lift (rejectIf (txns.length = 0) "no transactions in message body")
  handleEach env config poolConfig cs now txns

end TxnNode

structure Delivery where
  now : Int64
  cs : ChainStore
  txns : List Transaction

namespace TxnNode

def run (env : Env) (config : Config) (poolConfig : PoolConfig) (node : TxnNode) (history : List Delivery) : TxnNode :=
  history.foldl (fun node delivery =>
    (handleTransactionsMessage env config poolConfig delivery.cs delivery.now delivery.txns node).2) node

end TxnNode

end Nkn
