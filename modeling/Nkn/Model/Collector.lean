import Nkn.Model.TxnPool

/-! # The transaction collection

`BuildBlock` takes transactions from a collection of the accounts' lists, always from the top with the highest fee per
size. -/

namespace Nkn

open Go Outcome

/-- The lists without their heads, under the accounts, and the heads of the lists that are not used up. -/
structure TxnCollection where
  txns : GoMap Uint160 (List Transaction)
  tops : List Transaction

namespace TxnCollection

/-- What `sort.Sort(sort.Reverse(DefaultSort(tops)))` guarantees; the order of equals is open. -/
structure Sorts (env : Env) (sort : List Transaction → List Transaction) : Prop where
  perm (tops : List Transaction) : (sort tops).Perm tops
  sorted (tops : List Transaction) :
    (sort tops).Pairwise fun txn txn' => TxnPool.feePerSize env txn' ≤ TxnPool.feePerSize env txn

variable (env : Env) (sort : List Transaction → List Transaction) (tc : TxnCollection)

/-- The loop of `NewTxnCollection` over the lists, in the order in which the map is ranged over. -/
def takeTops : List (Sigma fun _ : Uint160 => List Transaction) → TxnCollection → Outcome TxnCollection
  | [], tc => .ok tc
  | ⟨_, []⟩ :: _, _ => crash "index out of range [0] with length 0"
  | ⟨addr, txn :: txnList⟩ :: rest, tc => takeTops rest ⟨tc.txns.store addr txnList, tc.tops ++ [txn]⟩

def new (txnLists : GoMap Uint160 (List Transaction)) : Outcome TxnCollection := do
  let tc ← takeTops txnLists.entries ⟨txnLists, []⟩
  .ok { tc with tops := sort tc.tops }

def peek : Option Transaction := tc.tops.head?

def update : Outcome TxnCollection :=
  match tc.tops with
  | [] => crash "index out of range [0] with length 0"
  | top :: tops => do
    let addr ← TxnPool.sender env top
    match tc.txns.load addr with
    | some (txn :: txnList) => .ok ⟨tc.txns.store addr txnList, sort (txn :: tops)⟩
    | _ => .ok { tc with tops }

def pop : Option Transaction × TxnCollection :=
  match tc.tops with
  | [] => (none, tc)
  | top :: tops => (some top, { tc with tops })

inductive Call
  | peek
  | update
  | pop
deriving DecidableEq

/-- A call, with the transaction it returns or, for `Update`, moves on from. -/
def call : Call → Outcome (Option Transaction × TxnCollection)
  | .peek => .ok (tc.peek, tc)
  | .update => do
    let tc' ← tc.update env sort
    .ok (tc.peek, tc')
  | .pop => .ok tc.pop

abbrev Log := List (Call × Option Transaction)

/-- `Update` is only called when `Peek` gives a transaction. -/
def Allowed (call : Call) : Prop := call = .update → tc.peek ≠ none

inductive Run : Log → TxnCollection → Prop
  | new : Run [] tc
  | call {log : Log} {at' next : TxnCollection} {called : Call} {txn : Option Transaction}
      (before : Run log at') (allowed : at'.Allowed called) (made : at'.call env sort called = .ok (txn, next)) :
      Run (log ++ [(called, txn)]) next

end TxnCollection

end Nkn
