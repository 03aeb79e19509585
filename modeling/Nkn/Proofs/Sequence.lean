import Nkn.Proofs.Totals

/-! # Nonces and hashes in the transaction loop

The loop of `TransactionCheck` counts nonces per signing program and collects hashes; execution counts nonces per account. -/

namespace Nkn

open Go Outcome Config Store List

def Consecutive : UInt64 → List UInt64 → Prop
  | _, [] => True
  | start, nonce :: rest => nonce = start ∧ Consecutive (start + 1) rest

theorem ofNat_succ_eq (count : ℕ) : UInt64.ofNat (count + 1) = 1 + UInt64.ofNat count := by
  rw [Nat.add_comm, UInt64.ofNat_add]
  rfl

theorem consecutive_append {start : UInt64} {front back : List UInt64} : Consecutive start (front ++ back) ↔
      Consecutive start front ∧ Consecutive (start + UInt64.ofNat front.length) back := by
  induction front generalizing start with
  | nil => simp [Consecutive]
  | cons _ _ ih =>
    rw [cons_append, Consecutive, Consecutive, ih, length_cons, ofNat_succ_eq, ← UInt64.add_assoc, and_assoc]

theorem Consecutive.toNat {start : UInt64} {nonces : List UInt64} (consecutive : Consecutive start nonces)
    (bound : start.toNat + nonces.length < 2 ^ 64) :
    nonces.map UInt64.toNat = range' start.toNat nonces.length := by
  induction nonces generalizing start with
  | nil => rfl
  | cons nonce _ ih =>
    obtain ⟨rfl, consecutive⟩ := consecutive
    rw [length_cons] at bound
    have next : (nonce + 1).toNat = nonce.toNat + 1 := by
      rw [UInt64.toNat_add]
      exact Nat.mod_eq_of_lt (by simp; omega)
    rw [map_cons, length_cons, range'_succ, ih consecutive (by omega), next]

variable {env : Env} {config : Config} {cs : ChainStore} {states states' : StateDB} {txn : Transaction}
  {txns : List Transaction} {height : UInt32} {state state' : CheckState} {message : Pb.Message} {fees : Int64}
  {addr : Uint160}

def nonceFrom (env : Env) (addr : Uint160) (txn : Transaction) : Option UInt64 :=
  match unpack env txn.unsignedTx.payload with
  | .ok message =>
    if checksNonce txn.unsignedTx.payload.type = true ∧ Transaction.programHash env message = addr then
      some txn.unsignedTx.nonce
    else none
  | .error _ => none

def noncesFrom (env : Env) (addr : Uint160) (txns : List Transaction) : List UInt64 := txns.filterMap (nonceFrom env addr)

theorem length_noncesFrom_le (env : Env) (addr : Uint160) (txns : List Transaction) :
    (noncesFrom env addr txns).length ≤ txns.length := length_filterMap_le _ _

theorem noncesFrom_cons : noncesFrom env addr (txn :: txns) = (nonceFrom env addr txn).toList ++ noncesFrom env addr txns := by
  unfold noncesFrom
  rw [filterMap_cons]
  cases nonceFrom env addr txn <;> rfl

def CheckState.expected (cs : ChainStore) (state : CheckState) (addr : Uint160) : UInt64 :=
  state.nonces.read (cs.getNonce addr) addr

theorem Verified.signed_of_nonceFrom {nonce : UInt64} (verified : Verified env config txn height message)
    (sent : nonceFrom env addr txn = some nonce) : ∃ key, Transaction.SignedBy env txn addr key := by
  simp only [nonceFrom, verified.unpacked, Option.ite_none_right_eq_some] at sent
  obtain ⟨⟨kind, rfl⟩, _⟩ := sent
  refine verified.signed fun coinbase => ?_
  rw [← unpack_type verified.unpacked, coinbase] at kind
  exact absurd kind (by decide)

theorem checkNonce_eq_ok {nonces nonces' : GoMap Uint160 UInt64} {account : Uint160} {key : Bytes}
    (kind : checksNonce txn.unsignedTx.payload.type = true) (signed : Transaction.SignedBy env txn account key) :
    checkNonce env cs nonces txn = .ok nonces' ↔ nonces.read (cs.getNonce account) account = txn.unsignedTx.nonce ∧
        nonces' = nonces.store account (txn.unsignedTx.nonce + 1) := by
  obtain ⟨_, _, programs, rfl, _⟩ := signed
  simp only [checkNonce, kind, if_true, programs, rejectIf_bind_eq_ok, ne_eq, not_not, Except.ok.injEq]
  constructor
  · rintro ⟨expected, rfl⟩
    exact ⟨expected, by rw [expected]⟩
  · rintro ⟨expected, rfl⟩
    exact ⟨expected, by rw [expected]⟩

theorem checkTransaction_expected (addr : Uint160) (checked : checkTransaction env config cs height state txn = .ok state') :
    Consecutive (state.expected cs addr) (nonceFrom env addr txn).toList ∧
      state'.expected cs addr = state.expected cs addr + UInt64.ofNat (nonceFrom env addr txn).toList.length := by
  obtain ⟨verified, _, _, counted⟩ := checkTransaction_eq_ok.mp checked
  obtain ⟨message, verified⟩ := verifyTransaction_verified verified
  simp only [nonceFrom, verified.unpacked]
  by_cases kind : checksNonce txn.unsignedTx.payload.type = true
  · have sent : nonceFrom env (Transaction.programHash env message) txn = some txn.unsignedTx.nonce := by
      simp [nonceFrom, verified.unpacked, kind]
    obtain ⟨_, signed⟩ := verified.signed_of_nonceFrom sent
    obtain ⟨expected, nonces⟩ := (checkNonce_eq_ok kind signed).mp counted
    by_cases own : Transaction.programHash env message = addr
    · subst own
      simp [kind, Consecutive, CheckState.expected, nonces, expected]
    · have other : addr ≠ Transaction.programHash env message := fun same => own same.symm
      simp [own, other, Consecutive, CheckState.expected, nonces]
  · have same : state'.nonces = state.nonces := by
      rw [checkNonce, if_neg kind] at counted
      exact (Except.ok.inj counted).symm
    simp [kind, Consecutive, CheckState.expected, same]

theorem checkTransactions_expected (addr : Uint160)
    (checked : txns.foldlM (checkTransaction env config cs height) state = .ok state') :
    Consecutive (state.expected cs addr) (noncesFrom env addr txns) := by
  induction txns generalizing state with
  | nil => trivial
  | cons _ _ ih =>
    obtain ⟨_, turn, checked⟩ := foldlM_cons_eq_ok.mp checked
    obtain ⟨own, next⟩ := checkTransaction_expected addr turn
    rw [noncesFrom_cons, consecutive_append]
    refine ⟨own, ?_⟩
    rw [← next]
    exact ih checked

/-- Execution of a verified transaction counts a nonce for an account other than the donation account exactly if the
loop does: the coinbase, whose nonce execution counts and the loop does not check, is sent from that account. -/
theorem getNonce_verified (verified : Verified env config txn height message) (other : addr ≠ donationAddress)
    (run : spendTransaction env config cs fees false height states txn = .ok states') :
    states'.getNonce addr = states.getNonce addr + UInt64.ofNat (nonceFrom env addr txn).toList.length := by
  have payload := verified.payload
  simp only [getNonce_spendTransaction verified.unpacked run, nonceFrom, verified.unpacked,
    ← unpack_type verified.unpacked]
  cases message with
  | coinbase _ =>
    simp only [TxValidator.checkMessage, bind_eq_ok, rejectIf_eq_ok, ne_eq, not_not, exists_const] at payload
    obtain ⟨_, _, sender, _⟩ := payload
    simp [Transaction.programHash, sender, other, Pb.Message.type, checksNonce]
  | sigChainTxn payload | nanoPay payload => simp [countsNonce, Pb.Message.type, checksNonce]
  | _ =>
    simp only [countsNonce, Pb.Message.type, checksNonce, true_and, eq_comm (a := addr)]
    split_ifs <;> rfl

theorem getNonce_spendTransactions (other : addr ≠ donationAddress)
    (verified : ∀ txn ∈ txns, ∃ message, Verified env config txn height message)
    (run : spendTransactions env config cs fees height states txns = .ok states') :
    states'.getNonce addr = states.getNonce addr + UInt64.ofNat (noncesFrom env addr txns).length := by
  induction txns generalizing states with
  | nil =>
    obtain rfl := foldlM_nil_eq_ok.mp run
    exact (UInt64.add_zero _).symm
  | cons _ _ ih =>
    obtain ⟨_, first, rest⟩ := foldlM_cons_eq_ok.mp run
    obtain ⟨⟨_, ok⟩, verified⟩ := forall_mem_cons.mp verified
    rw [ih verified rest, getNonce_verified ok other first, noncesFrom_cons, length_append, UInt64.ofNat_add,
      UInt64.add_assoc]

theorem txnlist_foldl_apply {bvs : BlockValidationState} {changes : List Change} {hash : Uint256} :
    (changes.foldl BlockValidationState.apply bvs).txnlist.load hash = none ↔
      bvs.txnlist.load hash = none ∧ Change.txn hash ∉ changes := by
  induction changes generalizing bvs with
  | nil => simp
  | cons change _ ih =>
    rw [foldl_cons, ih, mem_cons]
    cases change with
    | txn hash' =>
      by_cases same : hash = hash' <;> simp [BlockValidationState.apply, same]
    | _ => simp [BlockValidationState.apply]

theorem checkTransaction_txnlist (checked : checkTransaction env config cs height state txn = .ok state') :
    state.bvs.txnlist.load (Transaction.hash env txn) = none ∧ ∀ hash, state'.bvs.txnlist.load hash = none →
        state.bvs.txnlist.load hash = none ∧ hash ≠ Transaction.hash env txn := by
  obtain ⟨verified, ⟨_, block, committed⟩, _, _⟩ := checkTransaction_eq_ok.mp checked
  obtain ⟨_, verified⟩ := verifyTransaction_verified verified
  obtain ⟨new, _, foundMessage, _, _, rfl⟩ := (verifyTransactionWithBlock_eq_ok verified.unpacked).mp block
  refine ⟨new, fun hash unseen => ?_⟩
  rw [committed] at unseen
  obtain ⟨unseen, notListed⟩ := txnlist_foldl_apply.mp unseen
  rw [← (verifyMessage_foundOk foundMessage).same.txnlist]
  refine ⟨unseen, ?_⟩
  rintro rfl
  simp at notListed

theorem checkTransactions_nodup (checked : txns.foldlM (checkTransaction env config cs height) state = .ok state') :
    (txns.map (Transaction.hash env)).Nodup ∧
      ∀ txn ∈ txns, state.bvs.txnlist.load (Transaction.hash env txn) = none := by
  induction txns generalizing state with
  | nil => simp
  | cons _ _ ih =>
    obtain ⟨_, turn, checked⟩ := foldlM_cons_eq_ok.mp checked
    obtain ⟨nodup, unseen⟩ := ih checked
    obtain ⟨new, recorded⟩ := checkTransaction_txnlist turn
    refine ⟨nodup_cons.mpr ⟨fun member => ?_, nodup⟩, forall_mem_cons.mpr ⟨new, fun later member => ?_⟩⟩
    · obtain ⟨later, member, same⟩ := mem_map.mp member
      exact (recorded _ (unseen later member)).2 same
    · exact (recorded _ (unseen later member)).1

end Nkn
