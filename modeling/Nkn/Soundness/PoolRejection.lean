import Nkn.Soundness.Concrete
import Nkn.Model.TxnPool
import Nkn.Proofs.Holdings

/-! # Rejected transactions and the pool

A transaction that `AppendTxnPool` rejects leaves the pool as it was, unless it was to replace a pooled one, whose
reservations are taken back first. -/

namespace Nkn

open Go Outcome Store Transaction NonceSortedTxs Except

section

variable {env : Env} {config : Config} {poolConfig : PoolConfig} {cs : ChainStore} {bvs bvs' : BlockValidationState}
  {txn old : Transaction} {tp tp' : TxnPool} {owner : Uint160} {text : String} {now : Int64}

namespace BlockValidationState

/-- The two states hold the same hashes, amounts, names, ids, subscriptions and channels. -/
structure SameHoldings (bvs bvs' : BlockValidationState) : Prop where
  txnlist : bvs.txnlist = bvs'.txnlist
  totalAmount : bvs.totalAmount = bvs'.totalAmount
  registeredNames : bvs.registeredNames = bvs'.registeredNames
  nameRegistrants : bvs.nameRegistrants = bvs'.nameRegistrants
  generateIDs : bvs.generateIDs = bvs'.generateIDs
  subscriptions : bvs.subscriptions = bvs'.subscriptions
  subscriptionCount : bvs.subscriptionCount = bvs'.subscriptionCount
  nanoPays : bvs.nanoPays = bvs'.nanoPays
  nanoPayAmount : bvs.nanoPayAmount = bvs'.nanoPayAmount
  nanoPayPayloads : bvs.nanoPayPayloads = bvs'.nanoPayPayloads

theorem SameHoldings.refl (bvs : BlockValidationState) : SameHoldings bvs bvs :=
  ⟨rfl, rfl, rfl, rfl, rfl, rfl, rfl, rfl, rfl, rfl⟩

theorem SameHoldings.trans {middle : BlockValidationState} (first : SameHoldings bvs middle)
    (second : SameHoldings middle bvs') : SameHoldings bvs bvs' := by
  cases first
  cases second
  constructor <;> exact Eq.trans ‹_› ‹_›

/-- What a transaction has reserved is there to be taken back, and the payments are above the ledger's. -/
structure Reserved (env : Env) (cs : ChainStore) (bvs : BlockValidationState) (txn : Transaction) : Prop where
  listed : (bvs.txnlist.load (Transaction.hash env txn)).isSome = true
  total : ∃ message, unpack env txn.unsignedTx.payload = .ok message ∧
    (plainAmount message > 0 ∨ txn.unsignedTx.fee > 0 →
      ∃ total, bvs.totalAmount.load (Transaction.programHash env message) = some total ∧
        plainAmount message + txn.unsignedTx.fee ≤ total)
  payments : ∀ payload ∈ bvs.nanoPayPayloads.entries.map Sigma.snd,
    (cs.getNanoPay (bytesToUint160 payload.sender) (bytesToUint160 payload.recipient) payload.id).1 < payload.amount

theorem clean_reserved (reserved : Reserved env cs bvs txn) :
    ∃ bvs', cleanSubmittedTransactions env cs [txn] bvs = (.ok (), bvs') ∧
      bvs'.txnlist = bvs.txnlist.delete (Transaction.hash env txn) := by
  obtain ⟨message, unpacked, covered⟩ := reserved.total
  obtain ⟨_, listed⟩ := Option.isSome_iff_exists.mp reserved.listed
  have released : ∃ after, release env txn bvs = (.ok (), after) ∧
      after.txnlist = bvs.txnlist.delete (Transaction.hash env txn) ∧
      after.nanoPayPayloads.entries.Sublist bvs.nanoPayPayloads.entries := by
    have sender : getProgramHashes env txn = .ok [programHash env message] := by
      simp [getProgramHashes, unpacked]
    simp only [release, Proc.gets_bind, listed, Proc.modify_bind, unpacked, sender, firstHash, Proc.lift_ok_bind]
    generalize earlier : ({ bvs with txnlist := bvs.txnlist.delete (Transaction.hash env txn) } : BlockValidationState) =
      before
    obtain ⟨amount, list, totals, payments⟩ := releaseMessage_spec env before txn message
    rw [amount, releaseAmount]
    subst earlier
    split_ifs with charged
    · obtain ⟨_, stored, enough⟩ := covered charged
      rw [totals, stored]
      simp only [ge_iff_le, enough, if_true]
      exact ⟨_, rfl, list, payments⟩
    · exact ⟨_, rfl, list, payments⟩
  obtain ⟨after, ran, list, payments⟩ := released
  have above := fun payload member => reserved.payments payload ((payments.map Sigma.snd).subset member)
  have cleans : cleanSubmittedTransactions env cs [txn] bvs = recountNanoPays cs after := by
    rw [cleanSubmittedTransactions, Proc.forEach, Proc.bind_assoc, Proc.bind_of_ok ran]
    rfl
  rw [cleans, recountNanoPays]
  split_ifs
  · obtain ⟨_, counted, -⟩ := recounts { after with nanoPayAmount := ∅ } above
    exact ⟨_, counted, list⟩
  · exact ⟨after, rfl, list⟩

theorem sameHoldings_afterRejection (height : UInt32) :
    SameHoldings bvs (afterRejection env config cs bvs txn height).reset := by
  unfold afterRejection
  simp only
  split
  · rename_i found judged
    simp only [bind_eq_ok] at judged
    obtain ⟨_, -, message, -, judged⟩ := judged
    obtain ⟨_, -, -, rfl⟩ := verifyMessage_eq_ok.mp judged
    cases message with
    | subscribe _ =>
      simp only [counted]
      split_ifs <;> exact ⟨rfl, rfl, rfl, rfl, rfl, rfl, rfl, rfl, rfl, rfl⟩
    | _ => exact ⟨rfl, rfl, rfl, rfl, rfl, rfl, rfl, rfl, rfl, rfl⟩
  · exact ⟨rfl, rfl, rfl, rfl, rfl, rfl, rfl, rfl, rfl, rfl⟩

end BlockValidationState

namespace TxnPool

structure Unchanged (tp tp' : TxnPool) : Prop where
  txMap : tp.txMap = tp'.txMap
  txShortHashMap : tp.txShortHashMap = tp'.txShortHashMap
  txLists : ∀ owner, tp.txLists.read [] owner = tp'.txLists.read [] owner
  nanoPayTxs : tp.nanoPayTxs = tp'.nanoPayTxs
  txnCount : tp.txnCount = tp'.txnCount
  txnSize : tp.txnSize = tp'.txnSize
  state : tp.blockValidationState.SameHoldings tp'.blockValidationState
  twtMap : tp.twtMap = tp'.twtMap

def Pooled (env : Env) (tp : TxnPool) (txn old : Transaction) : Pb.Message → Prop
  | .coinbase _ | .sigChainTxn _ => False
  | .nanoPay payload =>
    tp.nanoPayTxs.load (nanoPayKey payload) = some old ∧
      ∃ oldPayload, unpack env old.unsignedTx.payload = .ok (.nanoPay oldPayload) ∧
        ¬(payload.amount < oldPayload.amount ∨ payload.txnExpiration < oldPayload.txnExpiration ∨
          payload.nanoPayExpiration < oldPayload.nanoPayExpiration)
  | message =>
    (tp.txLists.read [] (Transaction.programHash env message)).getByNonce txn.unsignedTx.nonce = .ok (some old)

/-- A transaction passes everything that is checked before it replaces a pooled one. -/
structure Replaces (env : Env) (config : Config) (poolConfig : PoolConfig) (cs : ChainStore) (tp : TxnPool)
    (txn old : Transaction) : Prop where
  priority : ¬∃ dropped ∈ tp.lastDroppedTxn, feePerSize env txn ≤ feePerSize env dropped
  verified : TxValidator.verifyTransaction env config txn (cs.getHeight + 1) = .ok ()
  allowed : verifyTransactionWithLedger env config cs txn (cs.getHeight + 1) = .ok ()
  pooled : ∃ message, unpack env txn.unsignedTx.payload = .ok message ∧ Pooled env tp txn old message ∧
    (tp.txLists.read [] (Transaction.programHash env message)).existTx env (Transaction.hash env txn) = false ∧
    ∃ sameNonce, (tp.txLists.read [] (Transaction.programHash env message)).getByNonce txn.unsignedTx.nonce = .ok sameNonce ∧
      ¬(sameNonce = none ∧
        (tp.txLists.read [] (Transaction.programHash env message)).full poolConfig.txPoolPerAccountTxCap = true)

def opened (owner : Uint160) (tp : TxnPool) : TxnPool :=
  if (tp.txLists.load owner).isSome then tp else { tp with txLists := tp.txLists.store owner [] }

theorem getOrNewList_eq : getOrNewList owner tp = (.ok ((opened owner tp).txLists.read [] owner), opened owner tp) := rfl

theorem read_opened (owner' : Uint160) : (opened owner tp).txLists.read [] owner' = tp.txLists.read [] owner' := by
  unfold opened
  split_ifs with listed
  · rfl
  · by_cases same : owner' = owner
    · subst same
      simp [GoMap.read, Option.not_isSome_iff_eq_none.mp listed]
    · simp [GoMap.read, same]

theorem unchanged_opened : Unchanged tp (opened owner tp) := by
  refine ⟨?_, ?_, fun owner' => (read_opened owner').symm, ?_, ?_, ?_, ?_, ?_⟩ <;> unfold opened <;> split_ifs <;>
    first | rfl | exact .refl _

theorem opened_opened : opened owner (opened owner tp) = opened owner tp := by
  by_cases listed : (tp.txLists.load owner).isSome = true
  · simp [opened, listed]
  · simp [opened, listed]

theorem verifyOrReset_rejected (rejected : verifyOrReset env config cs txn tp = (.error (.error text), tp')) :
    tp' = { tp with blockValidationState :=
      (BlockValidationState.afterRejection env config cs tp.blockValidationState txn (cs.getHeight + 1)).reset } := by
  simp only [verifyOrReset, onState, Proc.zoom, BlockValidationState.verify] at rejected
  rcases checked : tp.blockValidationState.verifyTransactionWithBlock env config cs txn (cs.getHeight + 1) with
    (_ | _) | _ <;> simp only [checked] at rejected
  · exact (Prod.mk.inj rejected).2.symm
  · cases (Prod.mk.inj rejected).1
  · cases (Prod.mk.inj rejected).1

theorem verifyOrReset_accepted (accepted : verifyOrReset env config cs txn tp = (.ok (), tp')) :
    ∃ bvs, tp' = { tp with blockValidationState := bvs } := by
  simp only [verifyOrReset, onState, Proc.zoom, BlockValidationState.verify] at accepted
  rcases checked : tp.blockValidationState.verifyTransactionWithBlock env config cs txn (cs.getHeight + 1) with
    (_ | _) | bvs <;> simp only [checked] at accepted
  · cases (Prod.mk.inj accepted).1
  · cases (Prod.mk.inj accepted).1
  · exact ⟨bvs, (Prod.mk.inj accepted).2.symm⟩

theorem unchanged_rejected (rejected : verifyOrReset env config cs txn tp = (.error (.error text), tp')) :
    Unchanged tp tp' := by
  rw [verifyOrReset_rejected rejected]
  exact ⟨rfl, rfl, fun _ => rfl, rfl, rfl, rfl, BlockValidationState.sameHoldings_afterRejection _, rfl⟩

theorem clean_pooled (config : Config) (poolConfig : PoolConfig) (reserved : tp.blockValidationState.Reserved env cs old) :
    ∃ bvs, cleanBlockValidationState env config poolConfig cs [old] tp = (.ok (), { tp with blockValidationState := bvs }) ∧
      bvs.txnlist = tp.blockValidationState.txnlist.delete (Transaction.hash env old) := by
  obtain ⟨bvs, cleaned, list⟩ := BlockValidationState.clean_reserved reserved
  refine ⟨bvs, ?_, list⟩
  simp only [cleanBlockValidationState, Proc.recover, onState, Proc.zoom, cleaned]

theorem preReplaceTxn_cases (reserved : tp.blockValidationState.Reserved env cs old)
    {result : Outcome Unit} (ran : preReplaceTxn env config poolConfig cs old txn tp = (result, tp')) :
    (∃ text, result = .error (.error text) ∧ tp'.blockValidationState.txnlist.load (Transaction.hash env old) = none) ∨
    (∃ text, result = .error (.panic text)) ∨ (result = .ok () ∧ tp'.txLists = tp.txLists) := by
  obtain ⟨bvs, cleaned, list⟩ := clean_pooled config poolConfig reserved
  rw [preReplaceTxn, Proc.bind_of_ok cleaned] at ran
  rcases checked : verifyOrReset env config cs txn { tp with blockValidationState := bvs } with ⟨(text | text) | _, _⟩
  · rw [Proc.bind_of_error checked] at ran
    obtain ⟨rfl, rfl⟩ := Prod.mk.inj ran
    refine .inl ⟨text, rfl, ?_⟩
    have same := (unchanged_rejected checked).state.txnlist
    rw [← same, list]
    simp
  · rw [Proc.bind_of_error checked] at ran
    exact .inr (.inl ⟨text, (Prod.mk.inj ran).1.symm⟩)
  · rw [Proc.bind_of_ok checked] at ran
    obtain ⟨rfl, rfl⟩ := Prod.mk.inj ran
    obtain ⟨_, rfl⟩ := verifyOrReset_accepted checked
    exact .inr (.inr ⟨rfl, rfl⟩)

theorem Unchanged.refl (tp : TxnPool) : Unchanged tp tp := ⟨rfl, rfl, fun _ => rfl, rfl, rfl, rfl, .refl _, rfl⟩

theorem Unchanged.trans {middle : TxnPool} (first : Unchanged tp middle) (second : Unchanged middle tp') :
    Unchanged tp tp' where
  txMap := first.txMap.trans second.txMap
  txShortHashMap := first.txShortHashMap.trans second.txShortHashMap
  txLists owner := (first.txLists owner).trans (second.txLists owner)
  nanoPayTxs := first.nanoPayTxs.trans second.nanoPayTxs
  txnCount := first.txnCount.trans second.txnCount
  txnSize := first.txnSize.trans second.txnSize
  state := first.state.trans second.state
  twtMap := first.twtMap.trans second.twtMap

theorem processNanoPay_rejected {payload : Pb.NanoPay}
    (covered : ∀ old, Pooled env tp txn old (.nanoPay payload) → tp.blockValidationState.Reserved env cs old)
    (ran : processNanoPay env config poolConfig cs txn payload tp = (.error (.error text), tp')) :
    (Unchanged tp tp' ∧ ¬∃ old, Pooled env tp txn old (.nanoPay payload)) ∨
      (∃ old, Pooled env tp txn old (.nanoPay payload) ∧
        tp'.blockValidationState.txnlist.load (Transaction.hash env old) = none) := by
  simp only [processNanoPay, Proc.gets_bind] at ran
  cases pooled : tp.nanoPayTxs.load (nanoPayKey payload) with
  | none =>
    simp only [pooled, Proc.bind_eq_error] at ran
    rcases ran with rejected | ⟨_, _, _, ran⟩
    · refine .inl ⟨unchanged_rejected rejected, ?_⟩
      rintro ⟨old, same, -⟩
      simp [pooled] at same
    · cases (Prod.mk.inj ran).1
  | some old =>
    simp only [pooled, Proc.bind_eq_error, Proc.lift_eq_error, Proc.lift_eq_ok] at ran
    have unpooled (other : ∀ oldPayload, unpack env old.unsignedTx.payload = .ok (.nanoPay oldPayload) →
        payload.amount < oldPayload.amount ∨ payload.txnExpiration < oldPayload.txnExpiration ∨
          payload.nanoPayExpiration < oldPayload.nanoPayExpiration) :
        ¬∃ old, Pooled env tp txn old (.nanoPay payload) := by
      rintro ⟨_, same, oldPayload, unpacked, above⟩
      obtain rfl := Option.mem_unique pooled same
      exact above (other oldPayload unpacked)
    rcases ran with ⟨unread, rfl⟩ | ⟨message, _, ⟨unpacked, rfl⟩, ran⟩
    · exact .inl ⟨.refl tp, unpooled fun _ unpacked => by rw [unread] at unpacked; cases unpacked⟩
    · cases message with
      | nanoPay oldPayload =>
        simp only [Proc.bind_eq_error, Proc.lift_eq_error, Proc.lift_eq_ok, rejectIf_eq_ok] at ran
        rcases ran with ⟨lower, rfl⟩ | ⟨_, _, ⟨above, rfl⟩, ran⟩
        · refine .inl ⟨.refl tp, unpooled fun other same => ?_⟩
          rw [unpacked] at same
          cases same
          by_contra above
          rw [rejectIf, if_neg above] at lower
          cases lower
        · have replaced : Pooled env tp txn old (.nanoPay payload) := ⟨pooled, oldPayload, unpacked, above⟩
          rcases ran with rejected | ⟨_, _, _, ran⟩
          · rcases preReplaceTxn_cases (covered old replaced) rejected with ⟨_, _, gone⟩ | ⟨_, panics⟩ | ⟨returns, _⟩
            · exact .inr ⟨old, replaced, gone⟩
            · cases panics
            · cases returns
          · cases (Prod.mk.inj ran).1
      | _ => cases (Prod.mk.inj ran).1

theorem replace_getByNonce {list : NonceSortedTxs} (found : list.getByNonce txn.unsignedTx.nonce = .ok (some old)) :
    ∃ replaced, list.replace txn = .ok replaced := by
  unfold getByNonce at found
  unfold replace
  cases at_ : list.position txn.unsignedTx.nonce with
  | none => simp [at_] at found
  | some position =>
    simp only [at_] at found ⊢
    cases inside : list[position]? with
    | none =>
      rw [inside] at found
      cases found
    | some _ => exact ⟨_, if_pos (List.getElem?_eq_some_iff.mp inside).1⟩

theorem processOrdered_rejected
    (covered : ∀ old, (tp.txLists.read [] owner).getByNonce txn.unsignedTx.nonce = .ok (some old) →
      tp.blockValidationState.Reserved env cs old)
    (ran : processOrdered env config poolConfig cs txn owner tp = (.error (.error text), tp')) :
    (Unchanged tp tp' ∧ ¬∃ old, (tp.txLists.read [] owner).getByNonce txn.unsignedTx.nonce = .ok (some old)) ∨
      (∃ old, (tp.txLists.read [] owner).getByNonce txn.unsignedTx.nonce = .ok (some old) ∧
        tp'.blockValidationState.txnlist.load (Transaction.hash env old) = none) := by
  simp only [processOrdered, Proc.gets_bind, Proc.bind_eq_error, Proc.lift_eq_error, Proc.lift_eq_ok] at ran
  rcases ran with ⟨unread, rfl⟩ | ⟨pooled, _, ⟨found, rfl⟩, ran⟩
  · refine .inl ⟨.refl tp, ?_⟩
    rintro ⟨old, found⟩
    rw [unread] at found
    cases found
  · rw [found] at covered ⊢
    cases pooled with
    | none =>
      refine .inl ⟨?_, by rintro ⟨_, same⟩; cases same⟩
      simp only [Proc.bind_eq_error, Proc.lift_eq_error, Proc.lift_eq_ok] at ran
      rcases ran with ⟨_, rfl⟩ | ⟨_, _, ⟨_, rfl⟩, ⟨_, rfl⟩ | ⟨_, _, ⟨_, rfl⟩, rejected | ⟨_, _, _, ran⟩⟩⟩
      · exact .refl tp
      · exact .refl tp
      · exact unchanged_rejected rejected
      · cases (Prod.mk.inj ran).1
    | some old =>
      refine .inr ⟨old, rfl, ?_⟩
      have reserved := covered old rfl
      simp only [Proc.bind_eq_error, Proc.gets_bind, Proc.lift_eq_error, Proc.lift_eq_ok] at ran
      rcases ran with rejected | ⟨_, _, replaced, ⟨missing, _⟩ | ⟨_, _, _, ran⟩⟩
      · rcases preReplaceTxn_cases reserved rejected with ⟨_, _, gone⟩ | ⟨_, panics⟩ | ⟨returns, _⟩
        · exact gone
        · cases panics
        · cases returns
      · -- the lists are as before, so the nonce is still there
        rcases preReplaceTxn_cases reserved replaced with ⟨_, fails, _⟩ | ⟨_, panics⟩ | ⟨_, lists⟩
        · cases fails
        · cases panics
        · obtain ⟨_, replaces⟩ := replace_getByNonce found
          rw [lists, replaces] at missing
          cases missing
      · cases (Prod.mk.inj ran).1

variable {message : Pb.Message}

theorem processTx_rejected (unpacked : unpack env txn.unsignedTx.payload = .ok message)
    (open_ : opened (programHash env message) tp = tp)
    (covered : (tp.txLists.read [] (programHash env message)).existTx env (Transaction.hash env txn) = false →
      ∀ old, Pooled env tp txn old message → tp.blockValidationState.Reserved env cs old)
    (ran : processTx env config poolConfig cs txn tp = (.error (.error text), tp')) :
    (Unchanged tp tp' ∧ ((∃ old, Pooled env tp txn old message) →
      (tp.txLists.read [] (programHash env message)).existTx env (Transaction.hash env txn) = true)) ∨
    ((tp.txLists.read [] (programHash env message)).existTx env (Transaction.hash env txn) = false ∧
      ∃ old, Pooled env tp txn old message ∧ tp'.blockValidationState.txnlist.load (Transaction.hash env old) = none) := by
  have sends : sender env txn = .ok (programHash env message) := by
    simp [sender, getProgramHashes, unpacked, firstHash]
  rw [processTx, sends, Proc.lift_ok_bind, Proc.bind_of_ok getOrNewList_eq, open_, unpacked] at ran
  rcases Proc.bind_eq_error.mp ran with rejected | ⟨_, _, passed, ran⟩
  · obtain ⟨known, rfl⟩ := Proc.lift_eq_error.mp rejected
    refine .inl ⟨.refl tp, fun _ => ?_⟩
    by_contra fresh
    rw [rejectIf, if_neg fresh] at known
    cases known
  · obtain ⟨fresh, rfl⟩ := Proc.lift_eq_ok.mp passed
    have fresh := Bool.eq_false_iff.mpr (rejectIf_eq_ok.mp fresh)
    have covered := covered fresh
    rw [Proc.lift_ok_bind] at ran
    have split_ {first : Proc TxnPool Unit}
        (ran : (first >>= fun _ => settle env poolConfig txn) tp = (.error (.error text), tp')) :
        first tp = (.error (.error text), tp') := by
      rcases Proc.bind_eq_error.mp ran with rejected | ⟨_, _, _, settled⟩
      · exact rejected
      · cases (Prod.mk.inj settled).1
    have ordered (listed : ∀ old, Pooled env tp txn old message ↔
        (tp.txLists.read [] (programHash env message)).getByNonce txn.unsignedTx.nonce = .ok (some old))
        (ran : processOrdered env config poolConfig cs txn (programHash env message) tp = (.error (.error text), tp')) :
        (Unchanged tp tp' ∧ ¬∃ old, Pooled env tp txn old message) ∨ (∃ old, Pooled env tp txn old message ∧
            tp'.blockValidationState.txnlist.load (Transaction.hash env old) = none) := by
      simp only [listed] at covered ⊢
      exact processOrdered_rejected covered ran
    suffices (Unchanged tp tp' ∧ ¬∃ old, Pooled env tp txn old message) ∨ (∃ old, Pooled env tp txn old message ∧
          tp'.blockValidationState.txnlist.load (Transaction.hash env old) = none) from
      this.imp (fun kept => ⟨kept.1, fun pooled => absurd pooled kept.2⟩) (fun gone => ⟨fresh, gone⟩)
    cases message with
    | coinbase _ =>
      obtain ⟨_, rfl⟩ := Proc.lift_eq_error.mp ran
      exact .inl ⟨.refl tp, by rintro ⟨_, none⟩; exact none⟩
    | sigChainTxn _ => cases (Prod.mk.inj ran).1
    | nanoPay _ => exact processNanoPay_rejected covered (split_ ran)
    | _ => exact ordered (fun _ => Iff.rfl) (split_ ran)

structure Admitted (env : Env) (config : Config) (poolConfig : PoolConfig) (cs : ChainStore) (tp : TxnPool)
    (txn : Transaction) (message : Pb.Message) : Prop where
  priority : ¬∃ dropped ∈ tp.lastDroppedTxn, feePerSize env txn ≤ feePerSize env dropped
  unpacked : unpack env txn.unsignedTx.payload = .ok message
  room : ∃ sameNonce,
    (tp.txLists.read [] (Transaction.programHash env message)).getByNonce txn.unsignedTx.nonce = .ok sameNonce ∧
      ¬(sameNonce = none ∧
        (tp.txLists.read [] (Transaction.programHash env message)).full poolConfig.txPoolPerAccountTxCap = true)
  verified : TxValidator.verifyTransaction env config txn (cs.getHeight + 1) = .ok ()
  allowed : verifyTransactionWithLedger env config cs txn (cs.getHeight + 1) = .ok ()

theorem Replaces.admitted (replaces : Replaces env config poolConfig cs tp txn old) :
    ∃ message, Admitted env config poolConfig cs tp txn message := by
  obtain ⟨message, unpacked, -, -, room⟩ := replaces.pooled
  exact ⟨message, replaces.priority, unpacked, room, replaces.verified, replaces.allowed⟩

theorem Admitted.replaces_iff (admitted : Admitted env config poolConfig cs tp txn message) :
    Replaces env config poolConfig cs tp txn old ↔ Pooled env tp txn old message ∧
      (tp.txLists.read [] (programHash env message)).existTx env (Transaction.hash env txn) = false := by
  constructor
  · intro replaces
    obtain ⟨_, unpacked, pooled, fresh, -⟩ := replaces.pooled
    obtain rfl := ok_unique admitted.unpacked unpacked
    exact ⟨pooled, fresh⟩
  · rintro ⟨pooled, fresh⟩
    exact ⟨admitted.priority, admitted.verified, admitted.allowed, message, admitted.unpacked, pooled, fresh, admitted.room⟩

theorem appendTxnPool_rejected (rejected : appendTxnPool env config poolConfig cs now txn tp = (.error (.error text), tp')) :
    (Unchanged tp tp' ∧ ∀ message, ¬Admitted env config poolConfig cs tp txn message) ∨
    ∃ message, Admitted env config poolConfig cs tp txn message ∧
      processTx env config poolConfig cs txn (opened (programHash env message) tp) =
        (.error (.error text), tp') := by
  simp only [appendTxnPool, Proc.gets_bind] at rejected
  rcases Proc.bind_eq_error.mp rejected with failed | ⟨_, _, passed, rejected⟩
  · obtain ⟨low, rfl⟩ := Proc.lift_eq_error.mp failed
    refine .inl ⟨.refl tp, fun message admitted => ?_⟩
    rw [rejectIf, if_neg admitted.priority] at low
    cases low
  obtain ⟨priority, rfl⟩ := Proc.lift_eq_ok.mp passed
  cases unpacked : unpack env txn.unsignedTx.payload with
  | error fault =>
    have unsent : sender env txn = .error fault := by simp [sender, getProgramHashes, unpacked]
    rw [unsent, Proc.lift_error_bind] at rejected
    obtain ⟨-, rfl⟩ := Prod.mk.inj rejected
    refine .inl ⟨.refl tp, fun message admitted => ?_⟩
    rw [admitted.unpacked] at unpacked
    cases unpacked
  | ok message =>
    have sends : sender env txn = .ok (programHash env message) := by
      simp [sender, getProgramHashes, unpacked, firstHash]
    rw [sends, Proc.lift_ok_bind, Proc.bind_of_ok getOrNewList_eq, read_opened] at rejected
    have early (fails : ¬Admitted env config poolConfig cs tp txn message) :
        Unchanged tp (opened (programHash env message) tp) ∧
          ∀ message, ¬Admitted env config poolConfig cs tp txn message := by
      refine ⟨unchanged_opened, fun message' admitted => fails ?_⟩
      obtain rfl := ok_unique unpacked admitted.unpacked
      exact admitted
    rcases Proc.bind_eq_error.mp rejected with failed | ⟨sameNonce, _, passed, rejected⟩
    · obtain ⟨unread, rfl⟩ := Proc.lift_eq_error.mp failed
      refine .inl (early fun admitted => ?_)
      obtain ⟨_, found, -⟩ := admitted.room
      rw [unread] at found
      cases found
    obtain ⟨found, rfl⟩ := Proc.lift_eq_ok.mp passed
    rcases Proc.bind_eq_error.mp rejected with failed | ⟨_, _, passed, rejected⟩
    · obtain ⟨noRoom, rfl⟩ := Proc.lift_eq_error.mp failed
      refine .inl (early fun admitted => ?_)
      obtain ⟨_, found', room⟩ := admitted.room
      obtain rfl := ok_unique found found'
      rw [rejectIf, if_neg room] at noRoom
      cases noRoom
    obtain ⟨room, rfl⟩ := Proc.lift_eq_ok.mp passed
    rcases Proc.bind_eq_error.mp rejected with failed | ⟨_, _, passed, rejected⟩
    · obtain ⟨invalid, rfl⟩ := Proc.lift_eq_error.mp failed
      refine .inl (early fun admitted => ?_)
      rw [admitted.verified] at invalid
      cases invalid
    obtain ⟨verified, rfl⟩ := Proc.lift_eq_ok.mp passed
    rcases Proc.bind_eq_error.mp rejected with failed | ⟨_, _, passed, rejected⟩
    · obtain ⟨refused, rfl⟩ := Proc.lift_eq_error.mp failed
      refine .inl (early fun admitted => ?_)
      rw [admitted.allowed] at refused
      cases refused
    obtain ⟨allowed, rfl⟩ := Proc.lift_eq_ok.mp passed
    rcases Proc.bind_eq_error.mp rejected with rejected | ⟨_, _, _, recorded⟩
    · exact .inr ⟨message, ⟨rejectIf_eq_ok.mp priority, unpacked, ⟨sameNonce, found, rejectIf_eq_ok.mp room⟩, verified,
        allowed⟩, rejected⟩
    · cases (Prod.mk.inj recorded).1

theorem pooled_opened :
    Pooled env (opened (programHash env message) tp) txn old message ↔ Pooled env tp txn old message := by
  cases message <;> simp only [Pooled, read_opened, ← unchanged_opened.nanoPayTxs]

/-- Whether a rejected transaction leaves the pool unchanged: exactly if it was not to replace a pooled one, as long as
the pooled ones have their reservations. -/
theorem append_keeps_iff
    (covered : ∀ old, Replaces env config poolConfig cs tp txn old → tp.blockValidationState.Reserved env cs old)
    (rejected : appendTxnPool env config poolConfig cs now txn tp = (.error (.error text), tp')) :
    Unchanged tp tp' ↔ ¬∃ old, Replaces env config poolConfig cs tp txn old := by
  rcases appendTxnPool_rejected rejected with ⟨same, none⟩ | ⟨message, admitted, rejected⟩
  · refine iff_of_true same ?_
    rintro ⟨old, replaces⟩
    obtain ⟨message, admitted⟩ := replaces.admitted
    exact none message admitted
  · have reserves : (opened (Transaction.programHash env message) tp).blockValidationState = tp.blockValidationState := by
      unfold opened
      split_ifs <;> rfl
    have outcome := processTx_rejected admitted.unpacked opened_opened (fun fresh old pooled => by
      rw [read_opened] at fresh
      rw [reserves]
      exact covered old (admitted.replaces_iff.mpr ⟨pooled_opened.mp pooled, fresh⟩)) rejected
    rw [read_opened] at outcome
    rcases outcome with ⟨same, known⟩ | ⟨fresh, old, pooled, gone⟩
    · refine iff_of_true (unchanged_opened.trans same) ?_
      rintro ⟨old, replaces⟩
      obtain ⟨pooled, fresh⟩ := admitted.replaces_iff.mp replaces
      rw [known ⟨old, pooled_opened.mpr pooled⟩] at fresh
      cases fresh
    · have replaces := admitted.replaces_iff.mpr ⟨pooled_opened.mp pooled, fresh⟩
      refine iff_of_false (fun same => ?_) (not_not.mpr ⟨old, replaces⟩)
      have listed := (covered old replaces).listed
      rw [same.state.txnlist, gone] at listed
      cases listed

end TxnPool

end

namespace PooledTransfers

open Sample Config

/-- A transfer to the donation address, with the digests and the signature that belong to it. -/
structure SignedTransfer where
  amount : Int64
  nonce : UInt64
  hashForSigning : Uint256
  hash : Uint256
  saltedHash : Uint256
  signature : Word 64

namespace SignedTransfer

variable (transfer : SignedTransfer)

def payload : Pb.TransferAsset := ⟨proposer.toArray, donationAddress.toArray, transfer.amount⟩

def unsigned : Transaction := ⟨packed (.transferAsset transfer.payload) transfer.nonce 0, []⟩

def txn : Transaction :=
  ⟨packed (.transferAsset transfer.payload) transfer.nonce 0,
    [⟨createSignatureProgramCode proposerKey, 64 :: transfer.signature.toArray⟩]⟩

end SignedTransfer

def first : SignedTransfer where
  amount := 3
  nonce := 0
  hashForSigning := Word.ofNat 32 0xec0413b422923a1f8324d5ecee15fd97e62e3777cc5cb521d950cc2e127606d5
  hash := Word.ofNat 32 0xf12139a919d8d0a80eb31700c5ac6936b5596d2b12924b376f5c3960018f92ac
  saltedHash := Word.ofNat 32 0x5f2bcae92d3f7044f1142f66585b73eb1596777be26e5cac4e28119abbe8d723
  signature := Word.ofNat 64
    0x0cc2b946fd697a18b4f23cb12d5800736544775a7619c9bb5a501ba9ecda8f1c57dc88b699a518efe572b5dece735c2e5c4c89cdc8ba65bcb7f580b1085bd10e

def second : SignedTransfer where
  amount := 6
  nonce := 1
  hashForSigning := Word.ofNat 32 0x4cd350f8cc11fe0b43e7f8aeda278cfcd78ef5dba946032cbd4d1eda577db6c8
  hash := Word.ofNat 32 0x71b097b38c1417d61d46800df74bb2c06e7d2b15c0c4e1b9c4fdccdb56152929
  saltedHash := Word.ofNat 32 0x6d0b41a45caf1ccb6d3231ff82f80cbaeb626125849b75f6a6350661f2791551
  signature := Word.ofNat 64
    0x8d4bb2c5a3d9b5238228aa033d04d7619022a2654fc01dafa0883cc430e68fe092f528850f8036dd7f4dc369cd89331cf15220de0cf1a2a56a879bd198c6a806

def third : SignedTransfer where
  amount := 1
  nonce := 2
  hashForSigning := Word.ofNat 32 0xa1e82ed84647f7faaa9f70cfd3dd7e0717a9db7b87dd2a1e125e6089a4c786f5
  hash := Word.ofNat 32 0x32721883d1a3e03b9bf8533ed20de2305c8df8601953f29f3aa6b4c13c06b4fe
  saltedHash := Word.ofNat 32 0x2250471fbf806b9d8a6788787cba2a55ae6bb0808d4a124feef587ce3756b713
  signature := Word.ofNat 64
    0x0edcf2f014c5e6f688c73a4ff9056c868d93acae37a0b800c2bc851aa2f11e796c8b193dc3899043a4c0127c0e16879110b5c348e7e039b4d029ffb0612efc00

def other : SignedTransfer where
  amount := 5
  nonce := 0
  hashForSigning := Word.ofNat 32 0xd1a3affc5b6df83d820f5dd6cc9466d7e60c2b943afd40299ec9a0e71fa49224
  hash := Word.ofNat 32 0x6f770395e7e757b43750cf695d7b152945e7f287cf1d9282132a8105f44a10c4
  saltedHash := Word.ofNat 32 0xeef3600f1277f0b527c767227698b3f4d6a6f3b2384f409e39413cd27f264ae2
  signature := Word.ofNat 64
    0xc210c7524769832e825613b2b680edd04a55a09440a21e9bc2bbb1d0c0233bbbd4488de103f6c19982a768764f9d94706530c03b99d74dd44376ec55f3b5f101


def all : List SignedTransfer := [first, second, third, other]

def poolConfig : PoolConfig := ⟨32, 0, 32, List.replicate 32 0⟩

def tables : Tables where
  sha256 :=
    (createSignatureProgramCode proposerKey, FirstBlocks.proposerCodeHash) ::
      all.flatMap fun transfer =>
        (transfer.hash.toArray ++ poolConfig.shortHashSalt, transfer.saltedHash) ::
          Tables.hashedTwice (Transaction.serializeUnsigned transfer.unsigned) transfer.hashForSigning transfer.hash
  ripemd160 := [(FirstBlocks.proposerCodeHash.toArray, proposer)]
  signatures := all.map fun transfer => (proposerKey, transfer.hashForSigning.toArray, transfer.signature.toArray)
  messages := all.map fun transfer => .transferAsset transfer.payload

def ledger : ChainStore := chainStore emptyUint256 (.ofBalances [(proposer, 10)] 80000000000000000)

def append (transfer : SignedTransfer) (tp : TxnPool) : Outcome Unit × TxnPool :=
  tp.appendTxnPool tables.env mainnet poolConfig ledger 0 transfer.txn

def pool : TxnPool := (append second (append first .new).2).2

theorem runs : ((append first .new).1 = .ok () ∧ (append second (append first .new).2).1 = .ok () ∧
      (append other pool).1 = Outcome.fail "not sufficient funds" ∧
      pool.blockValidationState.txnlist.load first.hash = some () ∧
      (append other pool).2.blockValidationState.txnlist.load first.hash = none ∧
      (append other pool).2.txMap.load first.hash = some first.txn) ∧
    (unpack tables.env other.txn.unsignedTx.payload = .ok (.transferAsset other.payload) ∧
      (pool.txLists.read [] proposer).getByNonce 0 = .ok (some first.txn) ∧
      Transaction.hash tables.env first.txn = first.hash ∧
      unpack tables.env first.txn.unsignedTx.payload = .ok (.transferAsset first.payload) ∧
      programHash tables.env (.transferAsset first.payload) = proposer ∧
      programHash tables.env (.transferAsset other.payload) = proposer ∧
      pool.blockValidationState.totalAmount.load proposer = some 9 ∧
      pool.blockValidationState.nanoPayPayloads.entries.length = 0) := by
  decide +kernel

/-- A transfer of 5 at the nonce of that of 3 is rejected, and takes the reservation of the pooled one with it. -/
theorem rejected_replacement_releases :
    (append first .new).1 = .ok () ∧ (append second (append first .new).2).1 = .ok () ∧
    (append other pool).1 = Outcome.fail "not sufficient funds" ∧
    pool.blockValidationState.txnlist.load first.hash = some () ∧
    (append other pool).2.blockValidationState.txnlist.load first.hash = none ∧
    (append other pool).2.txMap.load first.hash = some first.txn ∧ ¬pool.Unchanged (append other pool).2 := by
  obtain ⟨⟨appended, appended', rejected, listed, gone, kept⟩, -⟩ := runs
  refine ⟨appended, appended', rejected, listed, gone, kept, fun same => ?_⟩
  rw [same.state.txnlist, gone] at listed
  cases listed

theorem covered (old : Transaction) (replaces : TxnPool.Replaces tables.env mainnet poolConfig ledger pool other.txn old) :
    pool.blockValidationState.Reserved tables.env ledger old := by
  obtain ⟨⟨-, -, -, listed, -⟩, unpacked, found, hash, unpacked', sender, sender', total, none⟩ := runs
  obtain ⟨_, same, pooled, -⟩ := replaces.pooled
  obtain rfl := ok_unique unpacked same
  have pooled : (pool.txLists.read [] (programHash tables.env (.transferAsset other.payload))).getByNonce 0 =
    .ok (some old) := pooled
  rw [sender', found] at pooled
  obtain rfl := Option.some.inj (ok.inj pooled)
  refine ⟨by rw [hash, listed]; rfl, ⟨_, unpacked', fun _ => ⟨9, by rw [sender]; exact total, by decide⟩⟩, ?_⟩
  rw [List.length_eq_zero_iff.mp none]
  simp

theorem append_keeps_iff_other : (append other pool).1 = Outcome.fail "not sufficient funds" ∧
    (pool.Unchanged (append other pool).2 ↔
      ¬∃ old, TxnPool.Replaces tables.env mainnet poolConfig ledger pool other.txn old) :=
  have rejected := runs.1.2.2.1
  ⟨rejected, TxnPool.append_keeps_iff covered (Proc.eq_of_fst rejected)⟩

end PooledTransfers

end Nkn
