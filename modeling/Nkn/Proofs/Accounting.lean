import Nkn.Lib.Snapshot
import Nkn.Proofs.Channels
import Nkn.Proofs.Check

/-! # Execution as moves in a book

A state of the chain is read as a book of integer balances and channel amounts, and a transaction as a move in that
book. -/

namespace Nkn.Store

open Go Outcome Config StateDB Snapshot Transaction Int64 Except

noncomputable instance : Fintype Channel :=
  Fintype.ofInjective (fun channel => (channel.sender, channel.recipient, channel.id)) fun
    | ⟨_, _, _⟩, ⟨_, _, _⟩, same => by simpa using same

def book (states : StateDB) : Book Uint160 Channel where
  balance addr := (states.getBalance nknAssetID addr).toInt
  recorded channel := (channelBalance states channel).toInt

def plainAmount : Pb.Message → Int64
  | .transferAsset transfer => transfer.amount
  | .registerName payload => payload.registrationFee
  | .generateID payload => payload.registrationFee
  | _ => 0

def claimed (states : StateDB) : Pb.Message → Int64
  | .nanoPay nanoPay => claimAmount states nanoPay
  | _ => 0

def moveOf (env : Env) (txn : Transaction) : Pb.Message → Move Uint160 Channel
  | .nanoPay nanoPay => .claim (.of nanoPay) nanoPay.amount.toInt txn.unsignedTx.fee.toInt
  | message =>
    .pay (Transaction.programHash env message) (payee message) (plainAmount message).toInt txn.unsignedTx.fee.toInt

variable {env : Env} {config : Config} {cs : ChainStore} {states states' : StateDB} {txn : Transaction}
  {message : Pb.Message} {totalFee : Int64} {genesis : Bool} {height : UInt32}

theorem outlay_eq_add : outlay states message = plainAmount message + claimed states message := by
  cases message <;> simp [outlay, plainAmount, claimed]

@[simp] theorem sender_moveOf : (moveOf env txn message).sender Channel.sender = programHash env message := by
  cases message <;> rfl

@[simp] theorem recipient_moveOf : (moveOf env txn message).recipient Channel.recipient = payee message := by
  cases message <;> rfl

@[simp] theorem fee_moveOf : (moveOf env txn message).fee = txn.unsignedTx.fee.toInt := by
  cases message <;> rfl

theorem ofInt_outlay (env : Env) (txn : Transaction) (states : StateDB) (message : Pb.Message) :
    ofInt ((moveOf env txn message).outlay (book states)) = outlay states message := by
  cases message with
  | nanoPay nanoPay =>
    change ofInt (nanoPay.amount.toInt - (channelBalance states (.of nanoPay)).toInt) = _
    rw [ofInt_sub, ofInt_toInt, ofInt_toInt]
    rfl
  | _ => exact ofInt_toInt _

theorem chargedFee_of_charges (charged : config.chargesNanoPay height = true) :
    chargedFee config height txn message = txn.unsignedTx.fee := by
  unfold chargedFee paysFee
  cases message <;> simp_all

theorem outlay_le_afterFee (charged : config.chargesNanoPay height = true) (fee : 0 ≤ txn.unsignedTx.fee.toInt)
    (fits : Fits ((moveOf env txn message).outlay (book states)))
    (feeFunds : txn.unsignedTx.fee.toInt ≤ (book states).balance (programHash env message))
    (funds : txn.unsignedTx.fee.toInt + (moveOf env txn message).outlay (book states) ≤
      (book states).balance (programHash env message)) :
    outlay states message ≤ (afterFee config height states txn (programHash env message) message).getBalance nknAssetID
        (programHash env message) := by
  simp only [book] at feeFunds funds
  have range := fits_toInt (states.getBalance nknAssetID (programHash env message))
  rw [getBalance_afterFee, if_pos ⟨rfl, rfl⟩, chargedFee_of_charges charged, le_iff_toInt,
    toInt_eq_of_fits fits (ofInt_outlay env txn states message).symm, toInt_sub_of_fits]
  · simp only [book]
    omega
  · unfold Fits at *
    omega

theorem spendPayload_succeeds (regular : message.type ≠ .coinbase)
    (newAsset : message.type = .issueAsset → (states.assets.stored (Transaction.hash env txn)).isSome = false)
    (funds : outlay states message ≤ states.getBalance nknAssetID (programHash env message)) :
    ∃ states', spendPayload env config cs states txn (programHash env message) totalFee genesis height
      message = .ok states' := by
  cases message with
  | coinbase _ => exact absurd rfl regular
  | transferAsset _ => exact ⟨_, payNKN_eq_ok.mpr ⟨funds, rfl⟩⟩
  | registerName payload =>
    have paid : ∃ paid, payNKN states (createProgramHash env payload.registrant) donationAddress
        payload.registrationFee = .ok paid := ⟨_, payNKN_eq_ok.mpr ⟨funds, rfl⟩⟩
    obtain ⟨paid, pays⟩ := paid
    cases legacy : config.isLegacy height <;>
      exact ⟨_, by simp only [spendPayload, programHash, pays, ok_bind, legacy]; rfl⟩
  | deleteName _ =>
    cases legacy : config.isLegacy height <;> exact ⟨_, by simp only [spendPayload, legacy]; rfl⟩
  | generateID _ => exact ⟨_, bind_eq_ok.mpr ⟨_, updateBalance_subtraction_eq_ok.mpr ⟨funds, rfl⟩, rfl⟩⟩
  | nanoPay _ => exact ⟨_, spendNanoPay_eq_ok.mpr ⟨funds, rfl⟩⟩
  | issueAsset _ =>
    exact ⟨_, bind_eq_ok.mpr ⟨_, bind_eq_ok.mpr ⟨(), rejectIf_eq_ok.mpr (by simp [newAsset rfl]), rfl⟩, rfl⟩⟩
  | _ => exact ⟨_, rfl⟩

theorem spendTransaction_succeeds (unpacked : unpack env txn.unsignedTx.payload = .ok message)
    (regular : message.type ≠ .coinbase)
    (newAsset : message.type = .issueAsset → (states.assets.stored (Transaction.hash env txn)).isSome = false)
    (feeFunds : txn.unsignedTx.fee ≤ states.getBalance nknAssetID (programHash env message))
    (funds : outlay states message ≤
      (afterFee config height states txn (programHash env message) message).getBalance nknAssetID
        (programHash env message)) :
    ∃ states', spendTransaction env config cs totalFee genesis height states txn = .ok states' := by
  have payload : ∃ states', spendPayload env config cs
      (afterFee config height states txn (programHash env message) message) txn
      (programHash env message) totalFee genesis height message = .ok states' :=
    spendPayload_succeeds regular (by rwa [assets_afterFee]) (by rwa [outlay_afterFee])
  obtain ⟨states', payload⟩ := payload
  exact ⟨states', spendTransaction_eq_ok.mpr ⟨message, unpacked, fun _ => feeFunds, payload⟩⟩

theorem book_spendTransaction (charged : config.chargesNanoPay height = true)
    (unpacked : unpack env txn.unsignedTx.payload = .ok message) (regular : message.type ≠ .coinbase)
    (issuedNKN : (states.assets.stored nknAssetID).isSome = true)
    (fits : ∀ addr, Fits (((book states).apply Channel.sender Channel.recipient (moveOf env txn message)).balance addr))
    (run : spendTransaction env config cs totalFee genesis height states txn = .ok states') :
    book states' = (book states).apply Channel.sender Channel.recipient (moveOf env txn message) := by
  have balances : (book states').balance =
      ((book states).apply Channel.sender Channel.recipient (moveOf env txn message)).balance := by
    funext addr
    refine toInt_eq_of_fits (fits addr) ?_
    rw [getBalance_nkn_spendTransaction unpacked regular issuedNKN run, chargedFee_of_charges charged]
    simp only [Book.apply, sender_moveOf, recipient_moveOf, fee_moveOf, ofInt_add, ofInt_sub, book,
      ofInt_toInt, apply_ite ofInt, ← ofInt_outlay env txn]
    rfl
  have recorded : (book states').recorded = (moveOf env txn message).record (book states).recorded := by
    funext channel
    simp only [book, channelBalance_spendTransaction unpacked run]
    cases message with
    | nanoPay _ =>
      simp only [paidOn, moveOf, Move.record, Function.update_apply, eq_comm (a := channel)]
      split_ifs <;> rfl
    | _ => rfl
  exact congr (congrArg Book.mk balances) recorded

theorem plainAmount_amountOk (verified : Verified env config txn height message)
    (current : config.isLegacy height = false) : AmountOk (plainAmount message) := by
  have zero : AmountOk 0 := by unfold AmountOk maxAmount; simp
  have payload := verified.payload
  cases message with
  | transferAsset _ =>
    simp only [TxValidator.checkMessage, bind_eq_ok] at payload
    obtain ⟨_, _, _, _, ok⟩ := payload
    exact checkAmount_eq_ok.mp ok
  | registerName _ =>
    simp only [TxValidator.checkMessage, current, Bool.false_eq_true, if_false, bind_eq_ok] at payload
    obtain ⟨_, _, _, ok, _⟩ := payload
    exact checkAmount_eq_ok.mp ok
  | generateID _ =>
    simp only [TxValidator.checkMessage, bind_eq_ok] at payload
    obtain ⟨_, _, _, _, _, _, _, ok, _⟩ := payload
    exact checkAmount_eq_ok.mp ok
  | _ => exact zero

theorem verifyMessageWithLedger_amount {amount : Int64} (current : config.isLegacy height = false)
    (verified : verifyMessageWithLedger env config cs txn height message = .ok amount) :
    amount = plainAmount message + claimed cs.states message := by
  cases message with
  | registerName _ =>
    simp only [verifyMessageWithLedger, current, Bool.false_eq_true, if_false, rejectIf_bind_eq_ok,
      ok.injEq] at verified
    simp [plainAmount, claimed, verified.2]
  | deleteName _ =>
    simp only [verifyMessageWithLedger, current, Bool.false_eq_true, if_false, bind_eq_ok, rejectIf_eq_ok, exists_const,
      ok.injEq] at verified
    simp [plainAmount, claimed, ← verified.2.2]
  | transferName _ =>
    simp only [verifyMessageWithLedger, bind_eq_ok, rejectIf_eq_ok, exists_const] at verified
    obtain ⟨_, _, _, verified⟩ := verified
    split at verified
    · exact absurd verified (crash_ne_ok _ _)
    · simp only [bind_eq_ok, rejectIf_eq_ok, exists_const, ok.injEq] at verified
      obtain ⟨_, _, _, rfl⟩ := verified
      rfl
  | coinbase _ =>
    simp only [verifyMessageWithLedger, bind_eq_ok, rejectIf_eq_ok, exists_const, ok.injEq] at verified
    obtain ⟨_, _, _, rfl⟩ := verified
    rfl
  | nanoPay _ =>
    simp only [verifyMessageWithLedger, bind_eq_ok, rejectIf_eq_ok, exists_const, ok.injEq] at verified
    rw [← verified.2.2.2]
    exact (Int64.zero_add _).symm
  | generateID _ =>
    simp only [verifyMessageWithLedger, rejectIf_bind_eq_ok, ok.injEq] at verified
    simp [plainAmount, claimed, verified.2]
  | transferAsset _ => simp [plainAmount, claimed, ← ok.inj verified]
  | sigChainTxn payload | subscribe payload => exact (ok.inj verified).symm
  | unsubscribe payload | issueAsset payload => exact (ok.inj (rejectIf_bind_eq_ok.mp verified).2).symm

theorem claimed_amountOk (env : Env) (txn : Transaction)
    (payment : ∀ nanoPay, message = .nanoPay nanoPay → PaymentOk cs nanoPay)
    (recorded : ∀ channel, 0 ≤ (book cs.states).recorded channel) : AmountOk (claimed cs.states message) ∧
      (moveOf env txn message).outlay (book cs.states) =
        (plainAmount message).toInt + (claimed cs.states message).toInt := by
  have zero : AmountOk 0 := by unfold AmountOk maxAmount; simp
  cases message with
  | nanoPay nanoPay =>
    have ok := payment nanoPay rfl
    have difference : (claimed cs.states (.nanoPay nanoPay)).toInt =
        nanoPay.amount.toInt - (book cs.states).recorded (.of nanoPay) := toInt_sub_of_pos ok.exceeds ok.claims
    have least := recorded (.of nanoPay)
    have positive := lt_iff_toInt.mp ok.claims
    have amountOk := ok.amountOk
    change 0 < (claimed cs.states (.nanoPay nanoPay)).toInt at positive
    unfold AmountOk at *
    refine ⟨by omega, ?_⟩
    rw [difference]
    simp [moveOf, Move.outlay, plainAmount]
  | _ => exact ⟨zero, by simp [moveOf, Move.outlay, claimed]⟩

end Nkn.Store
