import Nkn.Proofs.Totals

/-! # Checks and execution in lockstep

The checks of a block compare all amounts of a sender with the ledger, execution debits and credits step by step. -/

namespace Nkn

open Go Outcome Config Store Snapshot Int64 Finset

structure Solvent (cs : ChainStore) : Prop where
  nonneg : ∀ addr, 0 ≤ (book cs.states).balance addr
  total : (book cs.states).total ≤ balanceBound
  recorded : ∀ channel, 0 ≤ (book cs.states).recorded channel

theorem Solvent.bound {cs : ChainStore} (solvent : Solvent cs) (addr : Uint160) :
    (cs.getBalance addr).toInt ≤ balanceBound :=
  (Book.balance_le_total solvent.nonneg addr).trans solvent.total

/-- The largest sum of balances while a block is executed: the ledger's total, all fees of the block, paid out before
they are collected, and the reward. -/
def runningBound : ℤ := 2 ^ 63 - 1

/-- The checks and the execution of a list of transactions, between two of them. The snapshot is the ledger's book
without the donation. -/
structure InStep (cs : ChainStore) (snapshot : Book Uint160 Channel) (bvs : BlockValidationState)
    (states : StateDB) : Prop where
  totals : TotalsOk cs bvs
  covered : Covered Channel.recipient snapshot (reserved bvs) (book states)
  within : ∀ addr, reserved bvs addr ≤ snapshot.balance addr
  total : (book states).total ≤ runningBound
  assets : states.assets.stored = cs.states.assets.stored

variable {env : Env} {config : Config} {cs : ChainStore} {snapshot : Book Uint160 Channel} {state state' : CheckState}
  {states : StateDB} {txn : Transaction} {message : Pb.Message} {height : UInt32} {fees : Int64}

theorem InStep.nonneg {bvs : BlockValidationState} (inStep : InStep cs snapshot bvs states) (addr : Uint160) :
    0 ≤ (book states).balance addr :=
  inStep.covered.nonneg (inStep.within addr)

structure MoveOk (env : Env) (cs : ChainStore) (txn : Transaction) (message : Pb.Message) (state state' : CheckState) :
    Prop where
  fee : AmountOk txn.unsignedTx.fee
  outlay : AmountOk (plainAmount message) ∧ AmountOk (claimed cs.states message)
  claim : ∀ nanoPay, message = .nanoPay nanoPay → 0 ≤ nanoPay.amount.toInt
  move : (moveOf env txn message).outlay (book cs.states) =
    (plainAmount message).toInt + (claimed cs.states message).toInt
  totals : TotalsOk cs state'.bvs
  reserved : ∀ addr, reserved state'.bvs addr = reserved state.bvs addr +
    if addr = Transaction.programHash env message then (moveOf env txn message).reserve (book cs.states) else 0
  newAsset : message.type = .issueAsset → (cs.states.assets.stored (Transaction.hash env txn)).isSome = false

theorem checkTransaction_moveOk (solvent : Solvent cs) (totals : TotalsOk cs state.bvs)
    (current : config.isLegacy height = false) (verified : Verified env config txn height message)
    (checked : checkTransaction env config cs height state txn = .ok state') :
    MoveOk env cs txn message state state' := by
  have unpacked := verified.unpacked
  have payment : ∀ nanoPay, message = .nanoPay nanoPay → PaymentOk cs nanoPay := by
    rintro nanoPay rfl
    exact checkTransaction_paymentOk unpacked checked
  obtain ⟨_, ⟨_, block, committed⟩, ledger, _⟩ := checkTransaction_eq_ok.mp checked
  have plainOk := plainAmount_amountOk verified current
  obtain ⟨claimOk, move⟩ := claimed_amountOk env txn payment solvent.recorded
  obtain ⟨totals, counted⟩ := totals.commit solvent.bound unpacked plainOk claimOk verified.fee block
  refine ⟨verified.fee, ⟨plainOk, claimOk⟩, fun nanoPay same => (payment nanoPay same).amountOk.1, move, committed ▸ totals, fun addr => ?_, fun kind => ?_⟩
  · rw [committed, counted, Move.reserve, move, fee_moveOf]
    split_ifs <;> omega
  · obtain ⟨_, _, _, message_ledger, _⟩ := (verifyTransactionWithLedger_eq_ok unpacked).mp ledger
    cases message with
    | issueAsset _ =>
      simp only [verifyMessageWithLedger, rejectIf_bind_eq_ok, Bool.not_eq_true] at message_ledger
      exact message_ledger.1
    | _ => simp [Pb.Message.type] at kind

theorem InStep.step (inStep : InStep cs snapshot state.bvs states)
    (recorded : snapshot.recorded = (book cs.states).recorded)
    (within : ∀ addr, reserved state'.bvs addr ≤ snapshot.balance addr)
    (issuedNKN : (cs.states.assets.stored nknAssetID).isSome = true) (charged : config.chargesNanoPay height = true)
    (unpacked : unpack env txn.unsignedTx.payload = .ok message) (regular : message.type ≠ .coinbase)
    (moveOk : MoveOk env cs txn message state state') :
    ∃ states', spendTransaction env config cs fees false height states txn = .ok states' ∧
      InStep cs snapshot state'.bvs states' ∧
      book states' = (book states).apply Channel.sender Channel.recipient (moveOf env txn message) := by
  obtain ⟨⟨feeLeast, _⟩, ⟨⟨_, _⟩, ⟨_, _⟩⟩, claim, move, totals, counted,
    newAsset⟩ := moveOk
  have sameOutlay : (moveOf env txn message).outlay snapshot = (moveOf env txn message).outlay (book cs.states) := by
    cases message <;> simp only [moveOf, Move.outlay, recorded]
  have outlayLeast : 0 ≤ (moveOf env txn message).outlay snapshot := by
    rw [sameOutlay, move]
    omega
  -- the sender still holds what the checks have just counted for it
  have funds : (moveOf env txn message).reserve (book cs.states) ≤
      (book states).balance (Transaction.programHash env message) := by
    refine inStep.covered.funds ?_
    have := within (Transaction.programHash env message)
    rwa [counted, if_pos rfl] at this
  have outlayMost := outlay_le inStep.covered.recorded (moveOf env txn message)
  rw [Move.reserve, fee_moveOf, ← sameOutlay] at funds
  have outlayFits : Fits ((moveOf env txn message).outlay (book states)) := by
    have amount : (moveOf env txn message).outlay (book states) ≤ 2 * maxAmount := by omega
    unfold Fits maxAmount at *
    cases message with
    | nanoPay nanoPay =>
      have range := fits_toInt (channelBalance states (.of nanoPay))
      have least := claim nanoPay rfl
      simp only [moveOf, Move.outlay, book, Fits] at *
      omega
    | _ =>
      simp only [moveOf, Move.outlay] at *
      omega
  obtain ⟨states', run⟩ : ∃ states', spendTransaction env config cs fees false height states txn = .ok states' := by
    refine spendTransaction_succeeds unpacked regular (by rwa [inStep.assets]) ?_ ?_
    · rw [le_iff_toInt]
      change _ ≤ (book states).balance _
      omega
    · exact outlay_le_afterFee charged feeLeast outlayFits (by omega) (by omega)
  have covered := inStep.covered.apply Channel.sender outlayLeast
  have spent : (fun addr => reserved state.bvs addr + if addr = (moveOf env txn message).sender Channel.sender then
      (moveOf env txn message).reserve snapshot else 0) = reserved state'.bvs := by
    funext addr
    rw [counted, sender_moveOf, Move.reserve, Move.reserve, sameOutlay]
  rw [spent] at covered
  have nonneg (addr : Uint160) := covered.nonneg (within addr)
  have total : ((book states).apply Channel.sender Channel.recipient (moveOf env txn message)).total =
      (book states).total - txn.unsignedTx.fee.toInt := by rw [total_apply, fee_moveOf]
  have totalMost := inStep.total
  have fits (addr : Uint160) :
      Fits (((book states).apply Channel.sender Channel.recipient (moveOf env txn message)).balance addr) := by
    have most := Book.balance_le_total nonneg addr
    have least := nonneg addr
    unfold runningBound at totalMost
    exact ⟨by omega, by omega⟩
  have stored : (states.assets.stored nknAssetID).isSome = true := by simpa only [inStep.assets] using issuedNKN
  have applied := book_spendTransaction charged unpacked regular stored fits run
  refine ⟨states', run, ⟨totals, applied ▸ covered, within, ?_, ?_⟩, applied⟩
  · rw [applied, total]
    omega
  · rw [assets_spendTransaction run, inStep.assets]

def feeSum (txns : List Transaction) : ℤ := (txns.map (·.unsignedTx.fee.toInt)).sum

theorem totalFee_eq (txns : List Transaction) : totalFee txns = ofInt (feeSum txns) := by
  have fold (start : Int64) : txns.foldl (fun total txn => total + txn.unsignedTx.fee) start =
      start + ofInt (feeSum txns) := by
    induction txns generalizing start with
    | nil => simp [feeSum]
    | cons _ _ ih =>
      rw [List.foldl_cons, ih, feeSum, feeSum, List.map_cons, List.sum_cons, ofInt_add, ofInt_toInt, Int64.add_assoc]
  rw [totalFee, fold, Int64.zero_add]

variable {rest : List Transaction}

theorem checkFollowing_moveOk (solvent : Solvent cs) (totals : TotalsOk cs state.bvs)
    (current : config.isLegacy height = false) (turn : checkFollowing env config cs height state txn = .ok state') :
    ∃ message, Verified env config txn height message ∧ message.type ≠ .coinbase ∧
      MoveOk env cs txn message state state' := by
  obtain ⟨regular, checked⟩ := checkFollowing_eq_ok.mp turn
  obtain ⟨message, verified⟩ := verifyTransaction_verified (checkTransaction_eq_ok.mp checked).1
  exact ⟨message, verified, unpack_type verified.unpacked ▸ regular,
    checkTransaction_moveOk solvent totals current verified checked⟩

theorem TotalsOk.run (solvent : Solvent cs) (totals : TotalsOk cs state.bvs) (current : config.isLegacy height = false)
    (checked : rest.foldlM (checkFollowing env config cs height) state = .ok state') :
    TotalsOk cs state'.bvs ∧
      ∑ addr, reserved state.bvs addr + feeSum rest ≤ ∑ addr, reserved state'.bvs addr := by
  induction rest generalizing state with
  | nil =>
    obtain rfl := foldlM_nil_eq_ok.mp checked
    exact ⟨totals, by simp [feeSum]⟩
  | cons txn _ ih =>
    obtain ⟨middle, turn, checked⟩ := foldlM_cons_eq_ok.mp checked
    obtain ⟨message, _, _, moveOk⟩ := checkFollowing_moveOk solvent totals current turn
    obtain ⟨totals', sum⟩ := ih moveOk.totals checked
    refine ⟨totals', ?_⟩
    have counted : ∑ addr, reserved middle.bvs addr =
        ∑ addr, reserved state.bvs addr + (moveOf env txn message).reserve (book cs.states) := by
      simp only [moveOk.reserved, Finset.sum_add_distrib, Finset.sum_ite_eq', Finset.mem_univ, if_true]
    have outlay := moveOk.move
    obtain ⟨⟨_, _⟩, ⟨_, _⟩⟩ := moveOk.outlay
    simp only [feeSum, List.map_cons, List.sum_cons] at sum ⊢
    rw [counted, Move.reserve, outlay, fee_moveOf] at sum
    omega

theorem InStep.run (inStep : InStep cs snapshot state.bvs states) (solvent : Solvent cs)
    (recorded : snapshot.recorded = (book cs.states).recorded)
    (balance : ∀ addr ≠ donationAddress, snapshot.balance addr = (book cs.states).balance addr)
    (issuedNKN : (cs.states.assets.stored nknAssetID).isSome = true) (charged : config.chargesNanoPay height = true)
    (current : config.isLegacy height = false) (unsigned : DonationUnsigned env rest)
    (checked : rest.foldlM (checkFollowing env config cs height) state = .ok state') :
    ∃ states', spendTransactions env config cs fees height states rest = .ok states' ∧
      InStep cs snapshot state'.bvs states' ∧ (book states').total = (book states).total - feeSum rest ∧
      ∀ step ∈ trace env config cs fees height states rest, ∀ addr, 0 ≤ (book step.after).balance addr := by
  induction rest generalizing state states with
  | nil =>
    obtain rfl := foldlM_nil_eq_ok.mp checked
    exact ⟨states, foldlM_nil_eq_ok.mpr rfl, inStep, by simp [feeSum], by simp [trace]⟩
  | cons txn _ ih =>
    obtain ⟨middle, turn, checked⟩ := foldlM_cons_eq_ok.mp checked
    obtain ⟨_, verified, regular, moveOk⟩ := checkFollowing_moveOk solvent inStep.totals current turn
    have sender := unsigned.sender_ne List.mem_cons_self verified regular
    have within (addr : Uint160) : reserved middle.bvs addr ≤ snapshot.balance addr := by
      by_cases donation : addr = donationAddress
      · rw [moveOk.reserved, if_neg (donation ▸ sender.symm), add_zero]
        exact inStep.within addr
      · rw [balance addr donation]
        exact moveOk.totals.within addr
    obtain ⟨states₁, first, inStep₁, applied⟩ :=
      inStep.step recorded within issuedNKN charged verified.unpacked regular moveOk
    obtain ⟨states', run, inStep', total, nonneg⟩ :=
      ih inStep₁ (fun txn member => unsigned txn (List.mem_cons_of_mem _ member)) checked
    refine ⟨states', foldlM_cons_eq_ok.mpr ⟨states₁, first, run⟩, inStep', ?_, ?_⟩
    · rw [total, applied, total_apply, fee_moveOf]
      simp only [feeSum, List.map_cons, List.sum_cons]
      omega
    · rw [trace_cons first]
      exact List.forall_mem_cons.mpr ⟨inStep₁.nonneg, nonneg⟩

def maxReward : ℤ := 1141552511

theorem getRewardByHeight_bounds (height : UInt32) :
    0 ≤ (getRewardByHeight height).toInt ∧ (getRewardByHeight height).toInt ≤ maxReward := by
  have years : ∀ year < 25, 0 ≤ (miningRewards (UInt32.ofNat year) / ofNat rewardAdjustInterval.toNat).toInt ∧
      (miningRewards (UInt32.ofNat year) / ofNat rewardAdjustInterval.toNat).toInt ≤ maxReward := by
    decide +kernel
  unfold getRewardByHeight
  dsimp only
  generalize (height - 1) / rewardAdjustInterval = year
  split_ifs with late
  · simp [maxReward]
  · rw [← UInt32.ofNat_toNat (x := year)]
    exact years year.toNat (UInt32.lt_iff_toNat_lt.mp (UInt32.not_le.mp late))

section

variable {start : StateDB} {first : Transaction} {coinbase : Pb.Coinbase} {donation : Int64}

def lessDonation (cs : ChainStore) (donation : Int64) : Book Uint160 Channel where
  balance addr := (book cs.states).balance addr - if addr = donationAddress then donation.toInt else 0
  recorded := (book cs.states).recorded

variable (ok : CoinbaseOk env config cs height first coinbase donation)

include ok

theorem CoinbaseOk.amount_toInt : coinbase.amount.toInt = (getRewardByHeight height).toInt + donation.toInt := by
  have amountOk := ok.amountOk
  obtain ⟨_, rewardMost⟩ := getRewardByHeight_bounds height
  have difference : donation = coinbase.amount - getRewardByHeight height := by
    have := ok.amount
    grind
  unfold AmountOk maxAmount at amountOk
  unfold maxReward at rewardMost
  rw [difference, toInt_sub_of_fits ⟨by omega, by omega⟩]
  omega

theorem CoinbaseOk.totals (solvent : Solvent cs)
    (checked : checkTransaction env config cs height .new first = .ok state) :
    TotalsOk cs state.bvs ∧
      ∀ addr, reserved state.bvs addr = if addr = donationAddress then first.unsignedTx.fee.toInt else 0 := by
  have zero : AmountOk 0 := by unfold AmountOk maxAmount; simp
  obtain ⟨_, ⟨_, block, committed⟩, _⟩ := checkTransaction_eq_ok.mp checked
  obtain ⟨totals, counted⟩ := (totalsOk_new solvent.nonneg).commit solvent.bound ok.verified.unpacked zero zero
    ok.verified.fee block
  refine ⟨committed ▸ totals, fun addr => ?_⟩
  rw [committed, counted]
  simp [reserved, BlockValidationState.new, Transaction.programHash, ok.sender, plainAmount, claimed]

def coinbaseBook (cs : ChainStore) (coinbase : Pb.Coinbase) (donation fee : Int64) (fees : ℤ) : Book Uint160 Channel where
  balance addr := (book cs.states).balance addr -
    (if addr = donationAddress then fee.toInt + donation.toInt else 0) +
    (if addr = bytesToUint160 coinbase.recipient then coinbase.amount.toInt + fees else 0)
  recorded := (book cs.states).recorded

theorem total_coinbaseBook (feeSum : ℤ) : (coinbaseBook cs coinbase donation first.unsignedTx.fee feeSum).total =
      (book cs.states).total + (getRewardByHeight height).toInt + feeSum - first.unsignedTx.fee.toInt := by
  simp only [Book.total, coinbaseBook, sum_add_distrib, sum_sub_distrib, sum_ite_eq',
    mem_univ, if_true, ok.amount_toInt]
  omega

theorem inStep_coinbase (solvent : Solvent cs) (checked : checkTransaction env config cs height .new first = .ok state)
    (same : book start = book cs.states) (assets : start.assets.stored = cs.states.assets.stored)
    (affordable : first.unsignedTx.fee.toInt + donation.toInt ≤ (book cs.states).balance donationAddress)
    (feesLeast : first.unsignedTx.fee.toInt ≤ fees.toInt) (feesMost : fees.toInt ≤ balanceBound)
    (run : spendTransaction env config cs fees false height start first = .ok states) :
    InStep cs (lessDonation cs donation) state.bvs states ∧
      book states = coinbaseBook cs coinbase donation first.unsignedTx.fee fees.toInt := by
  obtain ⟨totals, counted⟩ := ok.totals solvent checked
  have feeLeast := ok.verified.fee.1
  have amountLeast := ok.amountOk.1
  obtain ⟨_, rewardMost⟩ := getRewardByHeight_bounds height
  have ledgerTotal := solvent.total
  unfold balanceBound at feesMost ledgerTotal
  unfold maxReward at rewardMost
  have total := total_coinbaseBook ok fees.toInt
  have nonneg (addr : Uint160) :
      0 ≤ (coinbaseBook cs coinbase donation first.unsignedTx.fee fees.toInt).balance addr := by
    have := solvent.nonneg addr
    simp only [coinbaseBook]
    split_ifs with isDonation _ _
    · subst isDonation
      omega
    · subst isDonation
      omega
    · omega
    · omega
  have fits (addr : Uint160) :
      Fits ((coinbaseBook cs coinbase donation first.unsignedTx.fee fees.toInt).balance addr) := by
    have least := nonneg addr
    have most := Book.balance_le_total nonneg addr
    exact ⟨by omega, by omega⟩
  have balances : (book states).balance =
      (coinbaseBook cs coinbase donation first.unsignedTx.fee fees.toInt).balance := by
    funext addr
    refine toInt_eq_of_fits (fits addr) ?_
    have before : start.getBalance nknAssetID addr = ofInt ((book cs.states).balance addr) := by
      rw [← same]
      exact (ofInt_toInt _).symm
    rw [getBalance_spendTransaction_coinbase ok.verified.unpacked ok.nonzero ok.current run, before, ok.sender]
    simp only [coinbaseBook, ofInt_add, ofInt_sub, apply_ite ofInt, ofInt_toInt, true_and]
    rfl
  have recorded : (book states).recorded = (book cs.states).recorded := by
    rw [← same]
    funext channel
    simp only [book, channelBalance_spendTransaction ok.verified.unpacked run, paidOn, Option.elim_none]
  have whole : book states = coinbaseBook cs coinbase donation first.unsignedTx.fee fees.toInt :=
    congr (congrArg Book.mk balances) recorded
  refine ⟨⟨totals, covered_of_balance (congrFun recorded) fun addr => ?_, fun addr => ?_, ?_, ?_⟩, whole⟩
  · rw [balances, counted]
    simp only [lessDonation, coinbaseBook]
    split_ifs <;> omega
  · have := solvent.nonneg addr
    rw [counted]
    simp only [lessDonation]
    split_ifs with isDonation
    · subst isDonation
      omega
    · omega
  · rw [whole, total]
    unfold runningBound
    omega
  · rw [assets_spendTransaction run, assets]

theorem CoinbaseOk.feeSum_fits (solvent : Solvent cs) (current : config.isLegacy height = false)
    (checked : checkTransactions env config cs height (first :: rest) = .ok state) :
    (totalFee (first :: rest)).toInt = feeSum (first :: rest) ∧
      first.unsignedTx.fee.toInt ≤ feeSum (first :: rest) ∧ feeSum (first :: rest) ≤ balanceBound := by
  obtain ⟨_, checkedFirst, checkedRest⟩ := checkTransactions_cons_eq_ok.mp checked
  obtain ⟨totals, counted⟩ := ok.totals solvent checkedFirst
  obtain ⟨totals', sum⟩ := totals.run solvent current checkedRest
  have reservedMost : ∑ addr, reserved state.bvs addr ≤ balanceBound :=
    (Finset.sum_le_sum fun addr _ => totals'.within addr).trans solvent.total
  have feesRest : 0 ≤ feeSum rest := by
    refine List.sum_nonneg fun fee member => ?_
    obtain ⟨txn, listed, rfl⟩ := List.mem_map.mp member
    obtain ⟨_, _, turn⟩ := checkTransactions_forall checked txn (List.mem_cons_of_mem _ listed)
    obtain ⟨_, verified⟩ := verifyTransaction_verified (checkTransaction_eq_ok.mp turn).1
    exact verified.fee.1
  have feeFirst := ok.verified.fee.1
  have split : feeSum (first :: rest) = first.unsignedTx.fee.toInt + feeSum rest := by simp [feeSum]
  simp only [counted, sum_ite_eq', mem_univ, if_true] at sum
  refine ⟨toInt_eq_of_fits ?_ (totalFee_eq _), by omega, by omega⟩
  unfold balanceBound at reservedMost
  exact ⟨by omega, by omega⟩

end

end Nkn
