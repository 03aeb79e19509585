import Nkn.Model.BlockValidator

/-! # What an accepted transaction and an accepted block satisfy

What the checks of a transaction and the loop of `TransactionCheck` establish. -/

namespace Nkn

open Go Outcome Config Store TxValidator Transaction

variable {env : Env} {config : Config} {cs : ChainStore} {txn : Transaction} {height : UInt32}

def maxAmount : Int := 10 ^ 17

def AmountOk (amount : Int64) : Prop := 0 ≤ amount.toInt ∧ amount.toInt ≤ maxAmount

theorem AmountOk.toInt_add {amount fee : Int64} (amountOk : AmountOk amount) (feeOk : AmountOk fee) :
    (amount + fee).toInt = amount.toInt + fee.toInt := by
  unfold AmountOk maxAmount at amountOk feeOk
  exact toInt_add_of_fits (by unfold Fits; omega)

theorem checkAmount_eq_ok {amount : Int64} : checkAmount amount = .ok () ↔ AmountOk amount := by
  have bound : (initialIssueAmount + totalMiningRewards).toInt = maxAmount := by decide
  simp only [checkAmount, rejectIf_bind_eq_ok, rejectIf_eq_ok, gt_iff_lt, not_lt_iff_toInt, toInt_zero, bound, AmountOk]

structure Verified (env : Env) (config : Config) (txn : Transaction) (height : UInt32) (message : Pb.Message) : Prop where
  unpacked : unpack env txn.unsignedTx.payload = .ok message
  fee : AmountOk txn.unsignedTx.fee
  signed : message.type ≠ .coinbase → ∃ key, Transaction.SignedBy env txn (Transaction.programHash env message) key
  payload : TxValidator.checkMessage env config txn height message = .ok ()

theorem verifyTransaction_verified (verified : verifyTransaction env config txn height = .ok ()) :
    ∃ message, Verified env config txn height message := by
  simp only [verifyTransaction, checkTransactionPayload, bind_eq_ok, labelled_eq_ok] at verified
  obtain ⟨_, -, _, fee, _, -, _, signature, message, unpacked, payload⟩ := verified
  refine ⟨message, unpacked, checkAmount_eq_ok.mp fee, fun regular => ?_, payload⟩
  exact verifySignature_signedBy unpacked (unpack_type unpacked ▸ regular) signature

def DonationUnsigned (env : Env) (txns : List Transaction) : Prop :=
  ∀ txn ∈ txns, ∀ key, ¬ Transaction.SignedBy env txn donationAddress key

variable {txns : List Transaction} {message : Pb.Message}

theorem DonationUnsigned.sender_ne
    (unsigned : DonationUnsigned env txns) (member : txn ∈ txns) (verified : Verified env config txn height message)
    (regular : message.type ≠ .coinbase) : programHash env message ≠ donationAddress := by
  intro hit
  obtain ⟨key, signed⟩ := verified.signed regular
  exact unsigned txn member key (hit ▸ signed)

theorem verifyTransactionWithLedger_eq_ok (unpacked : unpack env txn.unsignedTx.payload = .ok message) :
    verifyTransactionWithLedger env config cs txn height = .ok () ↔
      cs.isTxHashDuplicate (Transaction.hash env txn) = false ∧
      (countsNonce message = true → cs.getNonce (programHash env message) ≤ txn.unsignedTx.nonce) ∧
      ∃ amount, verifyMessageWithLedger env config cs txn height message = .ok amount ∧
        amount + txn.unsignedTx.fee ≤ cs.getBalance (programHash env message) := by
  simp only [verifyTransactionWithLedger, unpacked, getProgramHashes, firstHash, ok_bind,
    bind_eq_ok, rejectIf_eq_ok, Bool.not_eq_true, not_and, UInt64.not_lt, Int64.not_lt, exists_const]

theorem verifyTransactionWithBlock_eq_ok {bvs bvs' : BlockValidationState}
    (unpacked : unpack env txn.unsignedTx.payload = .ok message) :
    bvs.verifyTransactionWithBlock env config cs txn height = .ok bvs' ↔
      bvs.txnlist.load (Transaction.hash env txn) = none ∧
      ∃ found, bvs.verifyMessage env config cs txn height message = .ok found ∧
      ∃ amounts, bvs.verifyAmount cs (programHash env message) found.amount found.npAmount
          txn.unsignedTx.fee = .ok amounts ∧
        bvs' = { found.bvs with
          changes := found.bvs.changes ++ amounts ++ found.changes ++ [.txn (Transaction.hash env txn)] } := by
  simp only [BlockValidationState.verifyTransactionWithBlock, unpacked, getProgramHashes,
    firstHash, ok_bind, bind_eq_ok, rejectIf_eq_ok, Except.ok.injEq, Option.isSome_iff_ne_none, ne_eq,
    not_not, exists_const, @eq_comm _ bvs']

variable {state state' : CheckState}

theorem checkTransaction_eq_ok : checkTransaction env config cs height state txn = .ok state' ↔
      verifyTransaction env config txn height = .ok () ∧
      (∃ bvs, state.bvs.verifyTransactionWithBlock env config cs txn height = .ok bvs ∧ state'.bvs = bvs.commit) ∧
      verifyTransactionWithLedger env config cs txn height = .ok () ∧
      checkNonce env cs state.nonces txn = .ok state'.nonces := by
  simp only [checkTransaction, bind_eq_ok, labelled_eq_ok, Except.ok.injEq]
  constructor
  · rintro ⟨_, verified, bvs, block, _, ledger, nonces, counted, rfl⟩
    exact ⟨verified, ⟨bvs, block, rfl⟩, ledger, counted⟩
  · rintro ⟨verified, ⟨bvs, block, committed⟩, ledger, counted⟩
    refine ⟨(), verified, bvs, block, (), ledger, state'.nonces, counted, ?_⟩
    rw [← committed]

theorem checkFollowing_eq_ok : checkFollowing env config cs height state txn = .ok state' ↔
      txn.unsignedTx.payload.type ≠ .coinbase ∧ checkTransaction env config cs height state txn = .ok state' := by
  simp only [checkFollowing, rejectIf_bind_eq_ok, ne_eq]

structure CoinbaseOk (env : Env) (config : Config) (cs : ChainStore) (height : UInt32) (txn : Transaction)
    (coinbase : Pb.Coinbase) (donation : Int64) : Prop where
  verified : Verified env config txn height (.coinbase coinbase)
  sender : bytesToUint160 coinbase.sender = donationAddress
  amountOk : AmountOk coinbase.amount
  current : cs.getDonation config = .ok donation
  nonzero : height ≠ 0
  amount : coinbase.amount = getRewardByHeight height + donation
  funds : donation ≤ cs.getBalance donationAddress

theorem checkTransaction_coinbaseOk (kind : txn.unsignedTx.payload.type = .coinbase)
    (checked : checkTransaction env config cs height state txn = .ok state') :
    ∃ coinbase donation, CoinbaseOk env config cs height txn coinbase donation := by
  obtain ⟨verified, ⟨_, block, _⟩, ledger, _⟩ := checkTransaction_eq_ok.mp checked
  obtain ⟨message, verified⟩ := verifyTransaction_verified verified
  have unpacked := verified.unpacked
  obtain ⟨_, _, message_ok, _⟩ := (verifyTransactionWithBlock_eq_ok unpacked).mp block
  obtain ⟨_, _, _, message_ledger, _⟩ := (verifyTransactionWithLedger_eq_ok unpacked).mp ledger
  cases message with
  | coinbase coinbase =>
    have payload := verified.payload
    simp only [checkMessage, bind_eq_ok, rejectIf_eq_ok, ne_eq, not_not, exists_const] at payload
    obtain ⟨_, _, sender, amountOk⟩ := payload
    simp only [BlockValidationState.verifyMessage, bind_eq_ok] at message_ok
    obtain ⟨donation, current, message_ok⟩ := message_ok
    simp only [verifyMessageWithLedger, current, ok_bind, rejectIf_bind_eq_ok, Int64.not_lt] at message_ledger
    split_ifs at message_ok with zero
    · simp at message_ok
    · simp only [rejectIf_bind_eq_ok, ne_eq, not_not] at message_ok
      exact ⟨coinbase, donation, verified, sender, checkAmount_eq_ok.mp amountOk, current, zero, message_ok.1,
        message_ledger.1⟩
  | _ => exact absurd ((unpack_type unpacked).trans kind) (by simp [Pb.Message.type])

theorem checkFollowing_verified {rest : List Transaction}
    (checked : rest.foldlM (checkFollowing env config cs height) state = .ok state') :
    ∀ txn ∈ rest, ∃ message, Verified env config txn height message ∧ message.type ≠ .coinbase := by
  refine foldlM_forall checked fun {_ txn _} turn => ?_
  obtain ⟨regular, checked⟩ := checkFollowing_eq_ok.mp turn
  obtain ⟨message, verified⟩ := verifyTransaction_verified (checkTransaction_eq_ok.mp checked).1
  exact ⟨message, verified, unpack_type verified.unpacked ▸ regular⟩

variable {state : CheckState}

theorem checkTransactions_cons_eq_ok {first : Transaction} {rest : List Transaction} :
    checkTransactions env config cs height (first :: rest) = .ok state ↔
      ∃ state₁, checkTransaction env config cs height .new first = .ok state₁ ∧
        rest.foldlM (checkFollowing env config cs height) state₁ = .ok state := by
  rw [checkTransactions, bind_eq_ok]

theorem checkTransactions_foldlM (checked : checkTransactions env config cs height txns = .ok state) :
    txns.foldlM (checkTransaction env config cs height) .new = .ok state := by
  cases txns with
  | nil => exact checked
  | cons _ _ =>
    obtain ⟨middle, checkedFirst, checkedRest⟩ := checkTransactions_cons_eq_ok.mp checked
    refine foldlM_cons_eq_ok.mpr ⟨middle, checkedFirst, ?_⟩
    exact foldlM_mono checkedRest fun turn => (checkFollowing_eq_ok.mp turn).2

theorem checkTransactions_forall (checked : checkTransactions env config cs height txns = .ok state) :
    ∀ txn ∈ txns, ∃ before after, checkTransaction env config cs height before txn = .ok after := by
  cases txns with
  | nil => simp
  | cons _ _ =>
    obtain ⟨_, checkedFirst, checkedRest⟩ := checkTransactions_cons_eq_ok.mp checked
    refine List.forall_mem_cons.mpr ⟨⟨_, _, checkedFirst⟩, foldlM_forall checkedRest fun {before _ after} turn => ?_⟩
    exact ⟨before, after, (checkFollowing_eq_ok.mp turn).2⟩

/-- What the loop establishes of a nano pay transaction: its amount exceeds the ledger's balance of the channel, and
the difference does not wrap around. -/
structure PaymentOk (cs : ChainStore) (nanoPay : Pb.NanoPay) : Prop where
  amountOk : AmountOk nanoPay.amount
  exceeds :
    (cs.getNanoPay (bytesToUint160 nanoPay.sender) (bytesToUint160 nanoPay.recipient) nanoPay.id).1 < nanoPay.amount
  claims :
    0 < nanoPay.amount -
      (cs.getNanoPay (bytesToUint160 nanoPay.sender) (bytesToUint160 nanoPay.recipient) nanoPay.id).1

theorem checkTransaction_paymentOk {nanoPay : Pb.NanoPay}
    (unpacked : unpack env txn.unsignedTx.payload = .ok (.nanoPay nanoPay))
    (checked : checkTransaction env config cs height state txn = .ok state') : PaymentOk cs nanoPay := by
  obtain ⟨verified, ⟨_, block, _⟩, ledger, _⟩ := checkTransaction_eq_ok.mp checked
  obtain ⟨_, verified⟩ := verifyTransaction_verified verified
  obtain rfl := ok_unique verified.unpacked unpacked
  obtain ⟨_, _, message_ok, _⟩ := (verifyTransactionWithBlock_eq_ok unpacked).mp block
  obtain ⟨_, _, _, message_ledger, _⟩ := (verifyTransactionWithLedger_eq_ok unpacked).mp ledger
  have payload := verified.payload
  simp only [checkMessage, bind_eq_ok] at payload
  obtain ⟨_, _, _, _, _, amountOk, _⟩ := payload
  simp only [BlockValidationState.verifyMessage, bind_eq_ok, rejectIf_eq_ok, Int64.not_le, exists_const] at message_ok
  simp only [verifyMessageWithLedger, bind_eq_ok, rejectIf_eq_ok, Int64.not_le, exists_const] at message_ledger
  exact ⟨checkAmount_eq_ok.mp amountOk, message_ok.2.2.2.1, message_ledger.2.2.1⟩

theorem transactionCheck_txnsRoot {b : Block} (accepted : transactionCheck env config cs b = .ok ()) :
    ∃ txnsRoot, computeRoot env (b.transactions.map (Transaction.hash env)) = .ok txnsRoot ∧
      txnsRoot.toArray = b.header.unsignedHeader.transactionsRoot := by
  simp only [transactionCheck, bind_eq_ok, rejectIf_eq_ok, not_not, labelled_eq_ok, ne_eq, exists_const] at accepted
  obtain ⟨-, -, -, -, txnsRoot, computed, same, -⟩ := accepted
  exact ⟨txnsRoot, computed, same⟩

theorem transactionCheck_eq_ok {b : Block} (accepted : transactionCheck env config cs b = .ok ()) :
    ∃ first rest state states root, b.transactions = first :: rest ∧ first.unsignedTx.payload.type = .coinbase ∧
      b.transactions.length ≤ maxNumTxnPerBlock ∧
      checkTransactions env config cs b.height b.transactions = .ok state ∧
      generateStateRoot env config cs b true false = .ok (states, root) ∧
      root = copyToUint256 b.header.unsignedHeader.stateRoot := by
  simp only [transactionCheck, bind_eq_ok, rejectIf_eq_ok, not_not, labelled_eq_ok, Word.compareTo_eq_iff, ne_eq,
    exists_const] at accepted
  obtain ⟨_, few, _, head, _, _, _, state, checked, _, _, ⟨states, root⟩, generated, same⟩ := accepted
  cases transactions : b.transactions with
  | nil => simp [transactions] at head
  | cons first rest =>
    rw [transactions] at head few checked
    exact ⟨first, rest, state, states, root, rfl, by simpa using head, Nat.le_of_not_lt few, checked, generated, same⟩

end Nkn
