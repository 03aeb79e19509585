import Nkn.Model.DropTxns

/-! # Transactions with their time of arrival

The calls of `chain/pool/txwithtime.go` that change `twtMap`, with the number of its keys and their fingerprint. -/

namespace Nkn

def maxSyncTxnInterval : Int64 := 16000

namespace TxnPool

variable (env : Env)

def replaceTwt (now : Int64) (oldTxn newTxn : Option Transaction) (tp : TxnPool) : TxnPool :=
  match oldTxn, newTxn with
  | some oldTxn, some newTxn => appendTwt env now newTxn (removeTwt env (Transaction.hash env oldTxn) tp)
  | _, _ => tp

/-- The keys that are older than the interval, up to the first one that is not. -/
def expiredKeys (now : Int64) (tp : TxnPool) : List Uint256 :=
  (tp.twtMap.entries.reverse.takeWhile fun entry => decide (entry.2.1 < now - maxSyncTxnInterval)).map Sigma.fst

def removeExpiredTwt (now : Int64) (tp : TxnPool) : TxnPool :=
  (expiredKeys now tp).foldl (fun tp hash => forgetTwt hash tp) tp

def getTwtFingerprintAndCount (tp : TxnPool) : Bytes × Int := (tp.twtFingerprint.getD [], tp.twtCount)

inductive TwtCall where
  | appendTwt (now : Int64) (txn : Transaction)
  | removeTwt (hash : Uint256)
  | replaceTwt (now : Int64) (oldTxn newTxn : Option Transaction)
  | removeExpiredTwt (now : Int64)
  | removeFromTwtMap (txnsRemoved : List Transaction)

def callTwt (tp : TxnPool) : TwtCall → TxnPool
  | .appendTwt now txn => appendTwt env now txn tp
  | .removeTwt hash => removeTwt env hash tp
  | .replaceTwt now oldTxn newTxn => replaceTwt env now oldTxn newTxn tp
  | .removeExpiredTwt now => removeExpiredTwt now tp
  | .removeFromTwtMap txnsRemoved => removeFromTwtMap env txnsRemoved tp

def runTwt (calls : List TwtCall) : TxnPool := calls.foldl (callTwt env) .new

/-- A call of the pool, or one of the regular removals of what has become too old. -/
inductive RecentStep where
  | call (call : PoolCall)
  | removeExpiredTwt (now : Int64)

def recentStep (config : Config) (poolConfig : PoolConfig) (tp : TxnPool) : RecentStep → TxnPool
  | .call call => callPool env config poolConfig tp call
  | .removeExpiredTwt now => removeExpiredTwt now tp

end TxnPool

end Nkn
