import Nkn.Model.DropTxns
import Nkn.Model.PorServer

/-! # Transactions under their hashes

The pool and the cache of sigchains store every transaction under its own hash. -/

namespace Nkn

open Go Store Proc

variable {env : Env} {config : Config} {poolConfig : PoolConfig} {cs : ChainStore}

namespace TxnPool

def Keyed (env : Env) (tp : TxnPool) : Prop :=
  ∀ hash txn, tp.txMap.load hash = some txn → Transaction.hash env txn = hash

variable {tp tp' : TxnPool}

theorem Keyed.of_txMap (keyed : Keyed env tp) (same : tp'.txMap = tp.txMap) : Keyed env tp' := by
  intro hash txn found
  rw [same] at found
  exact keyed hash txn found

theorem Keyed.addToPool (keyed : Keyed env tp) (txn : Transaction) : Keyed env (addToPool env poolConfig txn tp) := by
  intro hash txn' found
  simp only [TxnPool.addToPool, addTransactionToMap, GoMap.load_store] at found
  split_ifs at found with same
  · obtain rfl := Option.some.inj found
    exact same.symm
  · exact keyed hash txn' found

theorem Keyed.removeFromPool (keyed : Keyed env tp) (txn : Transaction) :
    Keyed env (removeFromPool env poolConfig txn tp) := by
  intro hash txn' found
  simp only [TxnPool.removeFromPool, deleteTransactionFromMap, GoMap.load_delete] at found
  split_ifs at found
  exact keyed hash txn' found

abbrev KeepsKeyed {α : Type} (env : Env) (x : Proc TxnPool α) : Prop := Proc.Keeps (Keyed env) x

theorem keepsKeyed_onState {α : Type} (x : Proc BlockValidationState α) : KeepsKeyed env (onState x) :=
  fun _ keyed => keyed.of_txMap rfl

variable (txn : Transaction)

theorem keepsKeyed_takeOut : KeepsKeyed env (takeOut env txn) := by
  intro tp keyed
  unfold takeOut
  split
  · exact keyed
  · exact keyed
  · split
    · split_ifs
      · exact keyed.of_txMap rfl
      · exact keyed
    · exact keyed
  · split
    · exact keyed
    · simp only
      split
      · exact keyed
      · split_ifs
        · exact keyed.of_txMap rfl
        · exact keyed

variable (txns : List Transaction)

theorem keepsKeyed_removeAll :
    KeepsKeyed env (Proc.modify fun tp => txns.foldl (fun tp txn => removeFromPool env poolConfig txn tp) tp) := by
  refine keeps_modify fun tp keyed => ?_
  induction txns generalizing tp with
  | nil => exact keyed
  | cons txn _ ih => exact ih _ (keyed.removeFromPool txn)

theorem keepsKeyed_removeEach : KeepsKeyed env (removeEach env poolConfig txns) := by
  induction txns with
  | nil => exact keeps_pure []
  | cons txn _ ih =>
    refine Proc.Keeps.bind ?_ fun removed => ih.bind fun rest => keeps_pure _
    exact (keepsKeyed_takeOut txn).bind fun removed =>
      (keepsKeyed_removeAll removed).bind fun _ => keeps_pure removed

theorem keepsKeyed_removeTransactions : KeepsKeyed env (removeTransactions env poolConfig txns) :=
  (keepsKeyed_removeEach txns).bind fun removed =>
    (keeps_modify fun _ keyed => keyed.of_txMap rfl).bind fun _ => keeps_pure removed

variable {txns} in
/-- Taking reservations back changes the validation state, and otherwise removes some of the transactions once more. -/
theorem keeps_cleanBlockValidationState {inv : TxnPool → Prop}
    (state : ∀ tp bvs, inv tp → inv { tp with blockValidationState := bvs })
    (removes : ∀ some, some ⊆ txns → Proc.Keeps inv (removeEach env poolConfig some))
    (cleans : ∀ tp, inv tp → inv (cleanEmptyLists tp)) :
    Proc.Keeps inv (cleanBlockValidationState env config poolConfig cs txns) := by
  have keeps {α : Type} (x : Proc BlockValidationState α) : Proc.Keeps inv (onState x) := fun tp holds => state tp _ holds
  refine (keeps _).recover ((keeps_gets _).bind fun all => (keeps _).bind fun errMap => Proc.Keeps.when ?_)
  exact ((removes _ (List.filter_subset_self ..)).bind fun _ => (keeps_modify cleans).bind fun _ => keeps_pure _).bind
    fun _ => keeps_pure ()

theorem keepsKeyed_cleanBlockValidationState :
    KeepsKeyed env (cleanBlockValidationState env config poolConfig cs txns) :=
  keeps_cleanBlockValidationState (fun _ _ keyed => keyed.of_txMap rfl) (fun txns _ => keepsKeyed_removeEach txns)
    fun _ keyed => keyed.of_txMap rfl

theorem keepsKeyed_verifyOrReset : KeepsKeyed env (verifyOrReset env config cs txn) := by
  intro tp keyed
  have kept := keepsKeyed_onState (BlockValidationState.verify env config cs txn (cs.getHeight + 1)) tp keyed
  unfold verifyOrReset
  split
  · rename_i run
    rwa [run] at kept
  · rename_i run
    rw [run] at kept
    exact kept.of_txMap rfl
  · rename_i run
    rwa [run] at kept

theorem keepsKeyed_preReplaceTxn (oldTxn newTxn : Transaction) :
    KeepsKeyed env (preReplaceTxn env config poolConfig cs oldTxn newTxn) :=
  (keepsKeyed_cleanBlockValidationState _).bind fun _ => (keepsKeyed_verifyOrReset newTxn).bind fun _ =>
    keeps_modify fun _ keyed => keyed.removeFromPool oldTxn

theorem keepsKeyed_processNanoPay (payload : Pb.NanoPay) :
    KeepsKeyed env (processNanoPay env config poolConfig cs txn payload) := by
  refine (keeps_gets _).bind fun pooled => ?_
  have stored : KeepsKeyed env (Proc.modify fun tp : TxnPool =>
      { tp with nanoPayTxs := tp.nanoPayTxs.store (nanoPayKey payload) txn }) :=
    keeps_modify fun _ keyed => keyed.of_txMap rfl
  cases pooled with
  | none => exact (keepsKeyed_verifyOrReset txn).bind fun _ => stored
  | some oldTxn =>
    refine (keeps_lift _).bind fun oldPayload => ?_
    cases oldPayload with
    | nanoPay _ =>
      exact (keeps_lift _).bind fun _ => (keepsKeyed_preReplaceTxn oldTxn txn).bind fun _ => stored
    | _ => exact (keeps_lift _).bind fun _ => stored

theorem keepsKeyed_processOrdered (owner : Uint160) :
    KeepsKeyed env (processOrdered env config poolConfig cs txn owner) := by
  refine (keeps_gets _).bind fun list => (keeps_lift _).bind fun pooled => ?_
  cases pooled with
  | none =>
    refine (keeps_lift _).bind fun _ => (keeps_lift _).bind fun _ => ?_
    exact (keepsKeyed_verifyOrReset txn).bind fun _ => keeps_modify fun _ keyed => keyed.of_txMap rfl
  | some oldTxn =>
    refine (keepsKeyed_preReplaceTxn oldTxn txn).bind fun _ => (keeps_gets _).bind fun list => ?_
    exact (keeps_lift _).bind fun replaced => keeps_modify fun _ keyed => keyed.of_txMap rfl

theorem keepsKeyed_settle : KeepsKeyed env (settle env poolConfig txn) :=
  (keepsKeyed_onState _).bind fun _ => keeps_modify fun _ keyed => keyed.addToPool txn

theorem keepsKeyed_getOrNewList (owner : Uint160) : KeepsKeyed env (getOrNewList owner) := by
  refine (keeps_modify fun tp keyed => ?_).bind fun _ => keeps_gets _
  split_ifs
  · exact keyed
  · exact keyed.of_txMap rfl

theorem keepsKeyed_processTx : KeepsKeyed env (processTx env config poolConfig cs txn) := by
  refine (keeps_lift _).bind fun owner => (keepsKeyed_getOrNewList owner).bind fun list =>
    (keeps_lift _).bind fun _ => (keeps_lift _).bind fun payload => ?_
  have ordered : KeepsKeyed env (do
      processOrdered env config poolConfig cs txn owner
      settle env poolConfig txn) :=
    (keepsKeyed_processOrdered txn owner).bind fun _ => keepsKeyed_settle txn
  cases payload with
  | coinbase _ => exact keeps_lift _
  | sigChainTxn _ => exact keeps_pure ()
  | nanoPay payload => exact (keepsKeyed_processNanoPay txn payload).bind fun _ => keepsKeyed_settle txn
  | _ => exact ordered

theorem txMap_removeTwt (hash : Uint256) (tp : TxnPool) : (removeTwt env hash tp).txMap = tp.txMap := by
  unfold removeTwt
  split <;> rfl

theorem txMap_appendTwt (now : Int64) (txn : Transaction) (tp : TxnPool) : (appendTwt env now txn tp).txMap = tp.txMap := by
  unfold appendTwt
  split_ifs <;> rfl

theorem txMap_recordTime (now : Int64) (oldTxn : Option Transaction) (txn : Transaction) (tp : TxnPool) :
    (recordTime env now oldTxn txn tp).txMap = tp.txMap := by
  unfold recordTime
  split
  · split_ifs
    · rfl
    · rw [txMap_appendTwt, txMap_removeTwt]
  · exact txMap_appendTwt now txn tp

theorem keepsKeyed_appendTxnPool (now : Int64) (txn : Transaction) :
    KeepsKeyed env (appendTxnPool env config poolConfig cs now txn) := by
  refine (keeps_gets _).bind fun dropped => (keeps_lift _).bind fun _ =>
    (keeps_lift _).bind fun owner => (keepsKeyed_getOrNewList owner).bind fun list =>
    (keeps_lift _).bind fun oldTxn => (keeps_lift _).bind fun _ => (keeps_lift _).bind fun _ =>
    (keeps_lift _).bind fun _ => (keepsKeyed_processTx txn).bind fun _ => ?_
  exact keeps_modify fun tp keyed => keyed.of_txMap (txMap_recordTime now oldTxn txn tp)

theorem keepsKeyed_cleanSubmittedTransactions :
    KeepsKeyed env (cleanSubmittedTransactions env config poolConfig cs txns) := by
  refine (keepsKeyed_removeTransactions txns).bind fun removed => (keeps_modify fun tp keyed => ?_).bind fun _ =>
    keepsKeyed_cleanBlockValidationState removed
  refine keyed.of_txMap ?_
  clear keyed
  unfold removeFromTwtMap
  induction removed generalizing tp with
  | nil => rfl
  | cons txn _ ih =>
    rw [List.foldl_cons, ih, removeIfTwt]
    split_ifs <;> rfl

theorem keyed_dropFromList (keyed : Keyed env tp) (txn : Transaction) (spare : Bool) (dropList : List Transaction) :
    Keyed env (dropFromList env txn spare tp dropList).2.1 := by
  unfold dropFromList
  split
  · split
    · split_ifs
      · exact keyed.of_txMap rfl
      · exact keyed
    · exact keyed
  · split
    · exact keyed
    · simp only
      split
      · exact keyed
      · split_ifs
        · exact keyed
        · exact keyed.of_txMap rfl

theorem keyed_dropStep {state : DropState} (keyed : Keyed env state.pool) :
    Keyed env (Sum.elim id id (dropStep env poolConfig state)).pool := by
  unfold dropStep
  simp only
  split
  · exact keyed
  · rename_i txn _
    have dropped := keyed_dropFromList keyed txn state.spare (Heap.popped (cheaper env) state.dropList)
    split
    · rename_i run
      rw [run] at dropped
      exact dropped
    · rename_i run
      rw [run] at dropped
      split_ifs <;> exact dropped.removeFromPool txn

/-- What every turn of the loop of `DropTxns` keeps holds when it has ended. -/
theorem dropLoop_keeps {inv : DropState → Prop} {fuel : Nat} {state final : DropState}
    (step : ∀ state, inv state → inv (Sum.elim id id (dropStep env poolConfig state))) (holds : inv state)
    (run : dropLoop env poolConfig fuel state = some final) : inv final := by
  induction fuel generalizing state with
  | zero => cases run
  | succ _ ih =>
    have next := step state holds
    simp only [dropLoop] at run
    split at run
    · rename_i ended
      obtain rfl := Option.some.inj run
      rwa [ended] at next
    · rename_i goes
      rw [goes] at next
      exact ih next run

theorem keyed_callPool (keyed : Keyed env tp) (call : PoolCall) : Keyed env (callPool env config poolConfig tp call) := by
  cases call with
  | appendTxnPool _ now txn => exact keepsKeyed_appendTxnPool now txn tp keyed
  | cleanSubmittedTransactions _ txns => exact keepsKeyed_cleanSubmittedTransactions txns tp keyed
  | dropTxns _ _ fuel =>
    unfold callPool dropTxns
    simp only
    split_ifs
    · exact keyed.of_txMap rfl
    · rw [Option.map_map]
      cases run : dropLoop env poolConfig fuel _ with
      | none => exact keyed
      | some final =>
        have ended := @dropLoop_keeps env poolConfig (fun state => Keyed env state.pool) _ _ _
          (fun _ keyed => keyed_dropStep keyed) keyed run
        exact ((keepsKeyed_cleanBlockValidationState final.txnsDropped).bind fun _ =>
          (keeps_modify fun _ keyed => keyed.of_txMap rfl).bind fun _ => keeps_pure _) final.pool ended

theorem keyed_runPool (calls : List PoolCall) : Keyed env (runPool env config poolConfig calls) := by
  induction calls using List.reverseRecOn with
  | nil => simp [runPool, new, Keyed]
  | append_singleton _ call ih =>
    rw [runPool, List.foldl_append]
    exact keyed_callPool ih call

end TxnPool

namespace PorServer

def Keyed (env : Env) (ps : PorServer) : Prop :=
  ∀ key txn, ps.sigChainTxnCache.load key = some txn → (Transaction.hash env txn).toArray = key

variable {ps : PorServer} {rules : SigChainRules}

abbrev KeepsKeyed {α : Type} (env : Env) (x : Proc PorServer α) : Prop := Proc.Keeps (Keyed env) x

theorem keepsKeyed_add {txn : Transaction} {key : Bytes} (own : (Transaction.hash env txn).toArray = key) :
    KeepsKeyed env (add sigChainTxnCache (fun ps cache => { ps with sigChainTxnCache := cache }) key txn) := by
  intro ps keyed
  rw [add_apply]
  split_ifs
  · exact keyed
  · intro key' txn' found
    simp only [GoMap.load_store] at found
    split_ifs at found with same
    · obtain rfl := Option.some.inj found
      exact own.trans same.symm
    · exact keyed key' txn' found

theorem keepsKeyed_add_other {V : Type} (get : PorServer → GoMap Bytes V) {set : PorServer → GoMap Bytes V → PorServer}
    (same : ∀ ps cache, (set ps cache).sigChainTxnCache = ps.sigChainTxnCache) (key : Bytes) (value : V) :
    KeepsKeyed env (add get set key value) := by
  intro ps keyed
  rw [add_apply]
  split_ifs
  · exact keyed
  · unfold Keyed
    rw [same]
    exact keyed

theorem keyed_addSigChainFromTx (keyed : Keyed env ps) (txn : Transaction) (currentHeight : UInt32) :
    Keyed env (addSigChainFromTx env config poolConfig cs rules txn currentHeight ps).2 := by
  unfold addSigChainFromTx
  cases packaged : newPorPackage env cs rules txn with
  | error _ => exact keyed
  | ok _ =>
    rw [lift_ok_bind]
    have consult (f : PorServer → Outcome Bool) : KeepsKeyed env fun ps => (f ps, ps) := fun _ keyed => keyed
    refine (consult _).bind (fun should => ?_) ps keyed
    split_ifs
    · refine (keeps_lift _).bind fun _ => (keeps_lift _).bind fun _ => ?_
      refine (keepsKeyed_add (txHash_of_newPorPackage packaged).symm).bind fun _ => ?_
      refine (keepsKeyed_add_other _ ?_ _ _).bind fun _ => (keepsKeyed_add_other _ ?_ _ _).bind fun _ => ?_
      · exact fun _ _ => rfl
      · exact fun _ _ => rfl
      · refine (keeps_modify ?_).bind fun _ => keeps_pure _
        exact fun _ keyed => keyed
    · exact keeps_pure _

theorem keyed_arrive (arrivals : List Arrival) : Keyed env (arrive env config poolConfig arrivals) := by
  induction arrivals using List.reverseRecOn with
  | nil => simp [arrive, new, Keyed]
  | append_singleton _ arrival ih =>
    rw [arrive, List.foldl_append]
    exact keyed_addSigChainFromTx ih arrival.txn arrival.currentHeight

end PorServer

end Nkn
