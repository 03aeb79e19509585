import Nkn.Model.TransactionsMessage
import Nkn.Proofs.Keyed
import Nkn.Soundness.PoolRejection

/-! # Look-alikes of transactions

The hash of a transaction does not cover its signature and is remembered before the validation: a wrong signature keeps
out the transaction that it looks like. -/

namespace Nkn

open Go Outcome Store

section

variable {env : Env} {config : Config} {poolConfig : PoolConfig} {cs : ChainStore} {txn : Transaction} {tp tp' : TxnPool}
  {node node' : TxnNode} {now : Int64} {hash : Uint256}

namespace TxnPool

theorem txMap_settle (settled : settle env poolConfig txn tp = (.ok (), tp')) :
    tp'.txMap = tp.txMap.store (Transaction.hash env txn) txn := by
  obtain ⟨-, rfl⟩ := Prod.mk.inj settled
  rfl

theorem processTx_accepted (accepted : processTx env config poolConfig cs txn tp = (.ok (), tp')) :
    ∃ message, unpack env txn.unsignedTx.payload = .ok message ∧
      ((∃ payload, message = .sigChainTxn payload) ∧ tp'.txMap = tp.txMap ∨
        (∀ payload, message ≠ .sigChainTxn payload) ∧ tp'.txMap.load (Transaction.hash env txn) = some txn) := by
  simp only [processTx, Proc.bind_eq_ok, Proc.lift_eq_ok] at accepted
  obtain ⟨owner, _, ⟨-, rfl⟩, _, _, opens, _, _, ⟨-, rfl⟩, message, _, ⟨unpacked, rfl⟩, accepted⟩ := accepted
  obtain ⟨-, rfl⟩ := Prod.mk.inj (getOrNewList_eq.symm.trans opens)
  refine ⟨message, unpacked, ?_⟩
  have stored {first : Proc TxnPool Unit}
      (ran : (first >>= fun _ => settle env poolConfig txn) (opened owner tp) = (.ok (), tp')) :
      tp'.txMap.load (Transaction.hash env txn) = some txn := by
    obtain ⟨_, _, -, settled⟩ := Proc.bind_eq_ok.mp ran
    rw [txMap_settle settled]
    simp
  cases message with
  | coinbase _ => cases (Prod.mk.inj accepted).1
  | sigChainTxn payload =>
    obtain ⟨-, rfl⟩ := Prod.mk.inj accepted
    exact .inl ⟨⟨payload, rfl⟩, unchanged_opened.txMap.symm⟩
  | _ => exact .inr ⟨by simp, stored accepted⟩

theorem append_accepted (accepted : appendTxnPool env config poolConfig cs now txn tp = (.ok (), tp')) :
    ∃ message, unpack env txn.unsignedTx.payload = .ok message ∧
      ((∃ payload, message = .sigChainTxn payload) ∧ tp'.txMap = tp.txMap ∨
        (∀ payload, message ≠ .sigChainTxn payload) ∧ tp'.txMap.load (Transaction.hash env txn) = some txn) := by
  simp only [appendTxnPool, Proc.gets_bind, Proc.bind_eq_ok, Proc.lift_eq_ok] at accepted
  obtain ⟨_, _, ⟨-, rfl⟩, owner, _, ⟨-, rfl⟩, _, _, opens, _, _, ⟨-, rfl⟩, _, _, ⟨-, rfl⟩, _, _, ⟨-, rfl⟩, _, _, ⟨-, rfl⟩,
    _, between, processed, recorded⟩ := accepted
  obtain ⟨-, rfl⟩ := Prod.mk.inj (getOrNewList_eq.symm.trans opens)
  obtain ⟨-, rfl⟩ := Prod.mk.inj recorded
  have kept : tp.txMap = (opened owner tp).txMap := unchanged_opened.txMap
  rw [txMap_recordTime, kept]
  exact processTx_accepted processed

end TxnPool

namespace TxnNode

def handed (env : Env) (config : Config) (poolConfig : PoolConfig) (cs : ChainStore) (now : Int64) (txn : Transaction)
    (node : TxnNode) : Outcome Unit × TxnNode :=
  appendTxnPool env config poolConfig cs now txn
    { node with hashCache := node.hashCache.add now (Transaction.hash env txn) }

variable {txns : List Transaction}

theorem handleEach_found (found : node.hashCache.found now (Transaction.hash env txn) = true) :
    handleEach env config poolConfig cs now (txn :: txns) node = (.ok false, node) := by
  have seen : existHash now (Transaction.hash env txn) node = (.ok true, node) := by simp [existHash, found]
  rw [handleEach, Proc.bind_of_ok seen]
  rfl

theorem handleEach_new (new : node.hashCache.found now (Transaction.hash env txn) = false) :
    handleEach env config poolConfig cs now (txn :: txns) node =
      match handed env config poolConfig cs now txn node with
      | (.ok (), node') => handleEach env config poolConfig cs now txns node'
      | (.error (.error text), node') =>
        if text = errDuplicatedTx ∨ text = errRejectLowPriority then (.ok false, node')
        else (.error (.error text), node')
      | (.error (.panic text), node') => (.error (.panic text), node') := by
  have unseen : existHash now (Transaction.hash env txn) node =
      (.ok false, { node with hashCache := node.hashCache.add now (Transaction.hash env txn) }) := by
    simp [existHash, new]
  rw [handleEach, Proc.bind_of_ok unseen]
  rfl

variable {later : Int64}

theorem found_add {cache : HashCache} {hash' : Uint256}
    (found : (cache.add now hash').found later hash = true) : cache.found later hash = true ∨ hash' = hash := by
  by_cases same : hash = hash'
  · exact .inr same.symm
  · exact .inl (by simpa [HashCache.found, HashCache.add, same] using found)

theorem found_handleEach
    (found : (handleEach env config poolConfig cs now txns node).2.hashCache.found later hash = true) :
    node.hashCache.found later hash = true ∨ ∃ txn ∈ txns, Transaction.hash env txn = hash := by
  induction txns generalizing node with
  | nil => exact .inl found
  | cons txn txns ih =>
    by_cases seen : node.hashCache.found now (Transaction.hash env txn) = true
    · rw [handleEach_found seen] at found
      exact .inl found
    · have first (found : (handed env config poolConfig cs now txn node).2.hashCache.found later hash = true) :
          node.hashCache.found later hash = true ∨ ∃ txn' ∈ txn :: txns, Transaction.hash env txn' = hash :=
        (found_add found).imp_right fun same => ⟨txn, List.mem_cons_self, same⟩
      rw [handleEach_new (Bool.eq_false_iff.mpr seen)] at found
      rcases ran : handed env config poolConfig cs now txn node with ⟨(text | _) | _, _⟩
      · simp only [ran] at found first
        split_ifs at found <;> exact first found
      · simp only [ran] at found first
        exact first found
      · simp only [ran] at found first
        rcases ih found with found | ⟨txn', member, same⟩
        · exact first found
        · exact .inr ⟨txn', List.mem_cons_of_mem _ member, same⟩

theorem found_run {history : List Delivery}
    (found : (node.run env config poolConfig history).hashCache.found later hash = true) :
    node.hashCache.found later hash = true ∨
      ∃ delivery ∈ history, ∃ txn ∈ delivery.txns, Transaction.hash env txn = hash := by
  induction history generalizing node with
  | nil => exact .inl found
  | cons delivery _ ih =>
    rcases ih found with found | ⟨delivery', member, seen⟩
    · simp only [handleTransactionsMessage] at found
      by_cases empty : delivery.txns.length = 0
      · have stops : Proc.lift (rejectIf (delivery.txns.length = 0) "no transactions in message body") node =
            (Outcome.fail "no transactions in message body", node) := by
          simp [Proc.lift, rejectIf, empty]
        rw [Proc.bind_of_error stops] at found
        exact .inl found
      · rw [Proc.bind_of_ok (Proc.lift_rejectIf empty)] at found
        exact (found_handleEach found).imp_right fun seen => ⟨delivery, List.mem_cons_self, seen⟩
    · exact .inr ⟨delivery', List.mem_cons_of_mem _ member, seen⟩

/-- Whether a message with a transaction that the pool would accept puts it there: exactly if its hash is not remembered
and it carries no sigchain. -/
theorem message_admits_iff (history : List Delivery) (start : TxnNode) (fresh : start.hashCache = ∅)
    (node_eq : node = start.run env config poolConfig history)
    (accepts : (TxnPool.appendTxnPool env config poolConfig cs now txn node.txnPool).1 = .ok ())
    (absent : node.txnPool.txMap.load (Transaction.hash env txn) ≠ some txn) :
    ((handleTransactionsMessage env config poolConfig cs now [txn] node).2.txnPool.txMap.load (Transaction.hash env txn) =
        some txn ↔
      node.hashCache.found now (Transaction.hash env txn) = false ∧
        ∀ payload, unpack env txn.unsignedTx.payload ≠ .ok (.sigChainTxn payload)) ∧
    (node.hashCache.found now (Transaction.hash env txn) = true →
      ∃ delivery ∈ history, ∃ lookalike ∈ delivery.txns, Transaction.hash env lookalike = Transaction.hash env txn) := by
  have handles : handleTransactionsMessage env config poolConfig cs now [txn] node =
      handleEach env config poolConfig cs now [txn] node := by
    rw [handleTransactionsMessage, Proc.bind_of_ok (Proc.lift_rejectIf (by simp))]
  refine ⟨?_, fun found => ?_⟩
  · rw [handles]
    by_cases seen : node.hashCache.found now (Transaction.hash env txn) = true
    · rw [handleEach_found seen]
      exact iff_of_false absent fun new => by simp [seen] at new
    · have new := Bool.eq_false_iff.mpr seen
      obtain ⟨message, unpacked, outcome⟩ := TxnPool.append_accepted (Proc.eq_of_fst accepts)
      have ran : handed env config poolConfig cs now txn node =
          (.ok (), ⟨node.hashCache.add now (Transaction.hash env txn),
            (TxnPool.appendTxnPool env config poolConfig cs now txn node.txnPool).2⟩) :=
        Prod.ext accepts rfl
      rw [handleEach_new new, ran]
      simp only [handleEach, Proc.pure_apply, new, true_and, unpacked, Except.ok.injEq, ne_eq]
      rcases outcome with ⟨⟨payload, rfl⟩, kept⟩ | ⟨other, stored⟩
      · rw [kept]
        exact iff_of_false absent fun none => none payload rfl
      · exact iff_of_true stored other
  · rw [node_eq] at found
    refine (found_run found).resolve_left ?_
    simp [fresh, HashCache.found]

end TxnNode

end

namespace PooledTransfers

open Config

def forgery : Delivery := ⟨0, ledger, [first.unsigned]⟩

def node : TxnNode := TxnNode.run tables.env mainnet poolConfig ⟨∅, .new⟩ [forgery]

def delivered : Outcome Bool × TxnNode :=
  node.handleTransactionsMessage tables.env mainnet poolConfig ledger 1000 [first.txn]

theorem deliveries : (first.unsigned.programs = [] ∧
      Transaction.hash tables.env first.unsigned = Transaction.hash tables.env first.txn ∧
      ((⟨∅, .new⟩ : TxnNode).handleTransactionsMessage tables.env mainnet poolConfig ledger 0 [first.unsigned]).1.isOk =
        false) ∧
    (TxnPool.appendTxnPool tables.env mainnet poolConfig ledger 1000 first.txn node.txnPool).1 = .ok () ∧
    node.txnPool.txMap.load (Transaction.hash tables.env first.txn) = none ∧
    delivered.1 = .ok false ∧ delivered.2.txnPool.txMap.load (Transaction.hash tables.env first.txn) = none := by
  decide +kernel

/-- The signed transfer is kept out by the one without a signature, though the pool would accept it. -/
theorem forgery_suppresses_transfer :
    first.unsigned.unsignedTx = first.txn.unsignedTx ∧ first.unsigned.programs = [] ∧
    ((⟨∅, .new⟩ : TxnNode).handleTransactionsMessage tables.env mainnet poolConfig ledger 0 [first.unsigned]).1.isOk =
      false ∧
    (TxnPool.appendTxnPool tables.env mainnet poolConfig ledger 1000 first.txn node.txnPool).1 = .ok () ∧
    delivered.1 = .ok false ∧ delivered.2.txnPool.txMap.load (Transaction.hash tables.env first.txn) = none :=
  have ⟨⟨unsigned, _, rejected⟩, accepts, _, ignored, absent⟩ := deliveries
  ⟨rfl, unsigned, rejected, accepts, ignored, absent⟩

theorem message_admits_iff_forgery :
    (TxnPool.appendTxnPool tables.env mainnet poolConfig ledger 1000 first.txn node.txnPool).1 = .ok () ∧
    (delivered.2.txnPool.txMap.load (Transaction.hash tables.env first.txn) = some first.txn ↔
      node.hashCache.found 1000 (Transaction.hash tables.env first.txn) = false ∧
        ∀ payload, unpack tables.env first.txn.unsignedTx.payload ≠ .ok (.sigChainTxn payload)) :=
  have ⟨_, accepts, absent, _⟩ := deliveries
  ⟨accepts, (TxnNode.message_admits_iff [forgery] ⟨∅, .new⟩ rfl rfl accepts fun stored =>
    nomatch absent.symm.trans stored).1⟩

end PooledTransfers

end Nkn
