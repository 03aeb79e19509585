import Nkn.Proofs.Accounting

/-! # The totals of block-level validation

What `VerifyTransactionWithBlock` and `Commit` do to the amounts counted for each sender, which stay within the ledger's
balances. -/

namespace Nkn

open Go Outcome Store BlockValidationState List Except Transaction

variable {env : Env} {config : Config} {cs : ChainStore} {bvs bvs' : BlockValidationState} {txn : Transaction}
  {message : Pb.Message} {height : UInt32} {found : Finding}

def Change.IsRecord : Change → Prop
  | .txn _ | .amount _ _ _ => False
  | _ => True

structure SameTotals (bvs bvs' : BlockValidationState) : Prop where
  totalAmount : bvs'.totalAmount = bvs.totalAmount
  nanoPayAmount : bvs'.nanoPayAmount = bvs.nanoPayAmount
  txnlist : bvs'.txnlist = bvs.txnlist

theorem SameTotals.trans {bvs'' : BlockValidationState} (first : SameTotals bvs bvs') (second : SameTotals bvs' bvs'') :
    SameTotals bvs bvs'' :=
  ⟨second.1.trans first.1, second.2.trans first.2, second.3.trans first.3⟩

theorem apply_sameTotals {change : Change} (record : change.IsRecord) : SameTotals bvs (bvs.apply change) := by
  cases change with
  | txn _ => exact record.elim
  | amount _ _ _ => exact record.elim
  | _ => exact ⟨rfl, rfl, rfl⟩

theorem foldl_apply_sameTotals {changes : List Change} (records : ∀ change ∈ changes, change.IsRecord) :
    SameTotals bvs (changes.foldl BlockValidationState.apply bvs) := by
  induction changes generalizing bvs with
  | nil => exact ⟨rfl, rfl, rfl⟩
  | cons _ _ ih =>
    obtain ⟨record, records⟩ := forall_mem_cons.mp records
    exact (apply_sameTotals record).trans (ih records)

structure FoundOk (cs : ChainStore) (bvs : BlockValidationState) (message : Pb.Message) (found : Finding) : Prop where
  same : SameTotals bvs found.bvs
  changes : found.bvs.changes = bvs.changes
  amount : found.amount = plainAmount message
  npAmount : found.npAmount = claimed cs.states message
  records : ∀ change ∈ found.changes, change.IsRecord

theorem foundOk_of_records {changes : List Change} (records : ∀ change ∈ changes, change.IsRecord)
    (verified : ok ⟨bvs, plainAmount message, claimed cs.states message, changes⟩ = (.ok found : Outcome Finding)) :
    FoundOk cs bvs message found := by
  obtain rfl := ok.inj verified
  exact ⟨⟨rfl, rfl, rfl⟩, rfl, rfl, rfl, records⟩

theorem verifyMessage_foundOk (verified : bvs.verifyMessage env config cs txn height message = .ok found) :
    FoundOk cs bvs message found := by
  cases message with
  | coinbase _ =>
    obtain ⟨_, _, verified⟩ := bind_eq_ok.mp verified
    split_ifs at verified
    · simp at verified
    · obtain ⟨_, verified⟩ := rejectIf_bind_eq_ok.mp verified
      exact foundOk_of_records (by simp) verified
  | transferAsset _ => exact foundOk_of_records (by simp) verified
  | sigChainTxn _ => exact foundOk_of_records (by simp) verified
  | registerName _ =>
    obtain ⟨_, _, verified⟩ := bind_eq_ok.mp verified
    exact foundOk_of_records (by simp [Change.IsRecord]) verified
  | transferName _ => exact foundOk_of_records (by simp [Change.IsRecord]) verified
  | deleteName _ =>
    obtain ⟨_, _, verified⟩ := bind_eq_ok.mp verified
    exact foundOk_of_records (by simp [Change.IsRecord]) verified
  | subscribe _ =>
    obtain ⟨_, verified⟩ := rejectIf_bind_eq_ok.mp verified
    obtain rfl := ok.inj verified
    refine ⟨?_, ?_, rfl, rfl, by simp [Change.IsRecord]⟩
    · split_ifs <;> exact ⟨rfl, rfl, rfl⟩
    · split_ifs <;> rfl
  | unsubscribe _ =>
    simp only [verifyMessage, bind_eq_ok, rejectIf_eq_ok, exists_const, ok.injEq] at verified
    obtain ⟨_, _, rfl⟩ := verified
    exact ⟨⟨rfl, rfl, rfl⟩, rfl, rfl, rfl, by simp [Change.IsRecord]⟩
  | generateID _ =>
    obtain ⟨_, verified⟩ := rejectIf_bind_eq_ok.mp verified
    exact foundOk_of_records (by simp [Change.IsRecord]) verified
  | nanoPay _ =>
    simp only [verifyMessage, bind_eq_ok, rejectIf_eq_ok, exists_const, ok.injEq] at verified
    obtain ⟨_, _, _, _, rfl⟩ := verified
    exact foundOk_of_records (by simp [Change.IsRecord]) rfl
  | issueAsset _ => exact foundOk_of_records (by simp) verified

variable {amount npAmount fee : Int64}

theorem verifyAmount_eq_ok {sender : Uint160} {amounts : List Change} :
    bvs.verifyAmount cs sender amount npAmount fee = .ok amounts ↔
      if amount + npAmount + fee > 0 then
        bvs.totalAmount.read 0 sender + bvs.nanoPayAmount.read 0 sender + amount + npAmount + fee ≤
          cs.getBalance sender ∧ amounts = [.amount sender (amount + fee) npAmount]
      else amounts = [] := by
  unfold verifyAmount
  split_ifs
  · simp only [rejectIf_bind_eq_ok, Int64.not_lt, ok.injEq, @eq_comm _ amounts]
  · simp only [ok.injEq, @eq_comm _ amounts]

theorem read_addTo (amounts : GoMap Uint160 Int64) (key addr : Uint160) (value : Int64) :
    (addTo amounts key value).read 0 addr =
      if addr = key then amounts.read 0 addr + value else amounts.read 0 addr := by
  rw [addTo, GoMap.read_store]
  split_ifs with same
  · rw [same]
  · rfl

def reserved (bvs : BlockValidationState) (addr : Uint160) : ℤ :=
  (bvs.totalAmount.read 0 addr).toInt + (bvs.nanoPayAmount.read 0 addr).toInt

structure TotalsOk (cs : ChainStore) (bvs : BlockValidationState) : Prop where
  idle : bvs.changes = []
  totalAmount : ∀ addr, 0 ≤ (bvs.totalAmount.read 0 addr).toInt
  nanoPayAmount : ∀ addr, 0 ≤ (bvs.nanoPayAmount.read 0 addr).toInt
  within : ∀ addr, reserved bvs addr ≤ (cs.getBalance addr).toInt

structure SumsFit (bvs : BlockValidationState) (sender : Uint160) (amount npAmount fee : Int64) : Prop where
  moved : Fits (amount.toInt + npAmount.toInt)
  asked : Fits (amount.toInt + npAmount.toInt + fee.toInt)
  counted : Fits (reserved bvs sender)
  withAmount : Fits (reserved bvs sender + amount.toInt)
  withNanoPay : Fits (reserved bvs sender + amount.toInt + npAmount.toInt)
  needed : Fits (reserved bvs sender + amount.toInt + npAmount.toInt + fee.toInt)
  total : Fits ((bvs.totalAmount.read 0 sender).toInt + (amount.toInt + fee.toInt))
  nanoPay : Fits ((bvs.nanoPayAmount.read 0 sender).toInt + npAmount.toInt)

def balanceBound : ℤ := 2 ^ 61

section

variable {sender : Uint160} {amount npAmount fee : Int64}

theorem TotalsOk.sumsFit (totals : TotalsOk cs bvs) (bound : ∀ addr, (cs.getBalance addr).toInt ≤ balanceBound)
    (amountOk : AmountOk amount) (npAmountOk : AmountOk npAmount) (feeOk : AmountOk fee) :
    SumsFit bvs sender amount npAmount fee := by
  have total := totals.totalAmount sender
  have nanoPay := totals.nanoPayAmount sender
  have within := totals.within sender
  have bound := bound sender
  unfold AmountOk maxAmount at amountOk npAmountOk feeOk
  unfold balanceBound at bound
  unfold reserved at within
  constructor <;> unfold Fits <;> unfold reserved at * <;> omega

theorem SumsFit.needed_le (fits : SumsFit bvs sender amount npAmount fee)
    (funds : bvs.totalAmount.read 0 sender + bvs.nanoPayAmount.read 0 sender + amount + npAmount + fee ≤
      cs.getBalance sender) :
    reserved bvs sender + amount.toInt + npAmount.toInt + fee.toInt ≤ (cs.getBalance sender).toInt := by
  rw [le_iff_toInt, toInt_eq_of_fits fits.needed] at funds
  · exact funds
  · simp only [reserved, Int64.ofInt_add, Int64.ofInt_toInt]

end

theorem commit_totals {amounts records : List Change} {hash : Uint256}
    (pending : bvs.changes = amounts ++ records ++ [.txn hash]) (isRecord : ∀ change ∈ records, change.IsRecord) :
    bvs.commit.totalAmount = (amounts.foldl BlockValidationState.apply bvs).totalAmount ∧
      bvs.commit.nanoPayAmount = (amounts.foldl BlockValidationState.apply bvs).nanoPayAmount ∧
      bvs.commit.txnlist = (amounts.foldl BlockValidationState.apply bvs).txnlist.store hash () := by
  have applied : bvs.changes.foldl BlockValidationState.apply bvs =
      (records.foldl BlockValidationState.apply (amounts.foldl BlockValidationState.apply bvs)).apply (.txn hash) := by
    simp only [pending, foldl_append, foldl_cons, foldl_nil]
  have same : SameTotals (amounts.foldl BlockValidationState.apply bvs) _ := foldl_apply_sameTotals isRecord
  simp only [commit, reset, applied, BlockValidationState.apply, same.totalAmount, same.nanoPayAmount, same.txnlist,
    and_self]

theorem verifyAmount_counts {sender : Uint160} {amounts : List Change}
    {state : BlockValidationState} (fits : SumsFit bvs sender amount npAmount fee) (same : SameTotals bvs state)
    (within : reserved bvs sender ≤ (cs.getBalance sender).toInt)
    (nonneg : 0 ≤ amount.toInt ∧ 0 ≤ npAmount.toInt ∧ 0 ≤ fee.toInt)
    (verified : bvs.verifyAmount cs sender amount npAmount fee = .ok amounts) :
    let counted := amounts.foldl BlockValidationState.apply state
    (∀ addr, counted.totalAmount.read 0 addr =
        bvs.totalAmount.read 0 addr + if addr = sender then amount + fee else 0) ∧
      (∀ addr, counted.nanoPayAmount.read 0 addr =
        bvs.nanoPayAmount.read 0 addr + if addr = sender then npAmount else 0) ∧
      reserved bvs sender + amount.toInt + npAmount.toInt + fee.toInt ≤ (cs.getBalance sender).toInt := by
  have asked : (amount + npAmount + fee).toInt = amount.toInt + npAmount.toInt + fee.toInt :=
    toInt_eq_of_fits fits.asked (by simp only [Int64.ofInt_add, Int64.ofInt_toInt])
  rw [verifyAmount_eq_ok] at verified
  split_ifs at verified with positive
  · obtain ⟨funds, rfl⟩ := verified
    refine ⟨fun addr => ?_, fun addr => ?_, fits.needed_le funds⟩
    · simp only [foldl_cons, foldl_nil, BlockValidationState.apply, read_addTo, same.totalAmount]
      split_ifs <;> simp
    · simp only [foldl_cons, foldl_nil, BlockValidationState.apply, read_addTo, same.nanoPayAmount]
      split_ifs <;> simp
  · rw [gt_iff_lt, lt_iff_toInt, asked, toInt_zero] at positive
    obtain rfl : amount = 0 := Int64.toInt_inj.mp (by rw [toInt_zero]; omega)
    obtain rfl : npAmount = 0 := Int64.toInt_inj.mp (by rw [toInt_zero]; omega)
    obtain rfl : fee = 0 := Int64.toInt_inj.mp (by rw [toInt_zero]; omega)
    subst verified
    simp [same.totalAmount, same.nanoPayAmount, within]

theorem TotalsOk.commit (totals : TotalsOk cs bvs) (bound : ∀ addr, (cs.getBalance addr).toInt ≤ balanceBound)
    (unpacked : unpack env txn.unsignedTx.payload = .ok message) (plainOk : AmountOk (plainAmount message))
    (claimOk : AmountOk (claimed cs.states message)) (feeOk : AmountOk txn.unsignedTx.fee)
    (verified : bvs.verifyTransactionWithBlock env config cs txn height = .ok bvs') :
    TotalsOk cs bvs'.commit ∧ ∀ addr, reserved bvs'.commit addr = reserved bvs addr +
        if addr = programHash env message then
          (plainAmount message).toInt + (claimed cs.states message).toInt + txn.unsignedTx.fee.toInt
        else 0 := by
  obtain ⟨_, found, foundMessage, amounts, counted, built⟩ := (verifyTransactionWithBlock_eq_ok unpacked).mp verified
  have foundOk := verifyMessage_foundOk foundMessage
  rw [foundOk.amount, foundOk.npAmount] at counted
  have fits : SumsFit bvs (programHash env message) _ _ _ := totals.sumsFit bound plainOk claimOk feeOk
  have changes : bvs'.changes = amounts ++ found.changes ++ [.txn (Transaction.hash env txn)] := by
    rw [built, foundOk.changes, totals.idle, nil_append]
  have same : SameTotals bvs bvs' := by
    rw [built]
    exact ⟨foundOk.same.1, foundOk.same.2, foundOk.same.3⟩
  obtain ⟨total, nanoPay, _⟩ := commit_totals changes foundOk.records
  obtain ⟨totalReads, nanoPayReads, _⟩ :=
    verifyAmount_counts fits same (totals.within _) ⟨plainOk.1, claimOk.1, feeOk.1⟩ counted
  simp only [← total] at totalReads
  simp only [← nanoPay] at nanoPayReads
  have totalInt (addr : Uint160) : (bvs'.commit.totalAmount.read 0 addr).toInt =
      (bvs.totalAmount.read 0 addr).toInt + if addr = programHash env message then
        (plainAmount message).toInt + txn.unsignedTx.fee.toInt else 0 := by
    rw [totalReads]
    split_ifs with same
    · subst same
      exact toInt_eq_of_fits fits.total (by simp only [Int64.ofInt_add, Int64.ofInt_toInt])
    · simp
  have nanoPayInt (addr : Uint160) : (bvs'.commit.nanoPayAmount.read 0 addr).toInt =
      (bvs.nanoPayAmount.read 0 addr).toInt + if addr = programHash env message then
        (claimed cs.states message).toInt else 0 := by
    rw [nanoPayReads]
    split_ifs with same
    · subst same
      exact toInt_eq_of_fits fits.nanoPay (by simp only [Int64.ofInt_add, Int64.ofInt_toInt])
    · simp
  have reservedInt (addr : Uint160) : reserved bvs'.commit addr = reserved bvs addr +
      if addr = programHash env message then
        (plainAmount message).toInt + (claimed cs.states message).toInt + txn.unsignedTx.fee.toInt else 0 := by
    simp only [reserved, totalInt, nanoPayInt]
    split_ifs <;> omega
  refine ⟨⟨rfl, fun addr => ?_, fun addr => ?_, fun addr => ?_⟩, reservedInt⟩
  · have := totals.totalAmount addr
    have := plainOk.1
    have := feeOk.1
    rw [totalInt]
    split_ifs <;> omega
  · have := totals.nanoPayAmount addr
    have := claimOk.1
    rw [nanoPayInt]
    split_ifs <;> omega
  · have := totals.within addr
    rw [reservedInt]
    split_ifs with same
    · rw [same]
      omega
    · omega

theorem totalsOk_new (nonneg : ∀ addr, 0 ≤ (cs.getBalance addr).toInt) : TotalsOk cs .new where
  idle := rfl
  totalAmount addr := by simp [BlockValidationState.new]
  nanoPayAmount addr := by simp [BlockValidationState.new]
  within addr := by simpa [reserved, BlockValidationState.new] using nonneg addr

end Nkn
