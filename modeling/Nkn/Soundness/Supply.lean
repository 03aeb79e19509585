import Nkn.Soundness.Chain
import Nkn.Soundness.Execution

/-! # The supply of NKN

Along every chain the NKN balances add up to the recorded supply, which is the initial amount and the rewards of all
blocks, and no 64-bit sum of a block wraps around. The rewards stay within their cap. -/

namespace Nkn

open Go Outcome Config Store Snapshot UInt32 List

def issuedBy (height : ℕ) : ℤ :=
  initialIssueAmount.toInt + ∑ i ∈ Finset.range height, (getRewardByHeight (UInt32.ofNat (i + 1))).toInt

/-- The reward of a block in a year of the schedule, counted from 0. -/
def yearlyReward (year : ℕ) : ℤ :=
  if year < 25 then (miningRewards (UInt32.ofNat year) / Int64.ofNat rewardAdjustInterval.toNat).toInt else 0

theorem yearlyReward_nonneg (year : ℕ) : 0 ≤ yearlyReward year := by
  have listed : ∀ year < 25, 0 ≤ yearlyReward year := by decide +kernel
  by_cases early : year < 25
  · exact listed year early
  · simp [yearlyReward, early]

theorem yearlyReward_le {year later : ℕ} (le : year ≤ later) : yearlyReward later ≤ yearlyReward year := by
  have listed : ∀ year < 25, yearlyReward (year + 1) ≤ yearlyReward year := by decide +kernel
  refine antitone_nat_of_succ_le (fun year => ?_) le
  by_cases early : year < 25
  · exact listed year early
  · simp [yearlyReward, early, show ¬year + 1 < 25 by omega]

theorem toInt_getRewardByHeight {height : UInt32} (nonzero : height ≠ 0) :
    (getRewardByHeight height).toInt = yearlyReward ((height.toNat - 1) / 1576800) := by
  have positive : 1 ≤ height.toNat := Nat.pos_of_ne_zero fun zero => nonzero (UInt32.toNat_inj.mp zero)
  have year : ((height - 1) / rewardAdjustInterval).toNat = (height.toNat - 1) / 1576800 := by
    rw [UInt32.toNat_div, UInt32.toNat_sub_of_le height 1 (le_iff_toNat_le.mpr positive)]
    rfl
  rw [getRewardByHeight, yearlyReward, ← year]
  by_cases late : (height - 1) / rewardAdjustInterval ≥ totalRewardDuration
  · rw [if_pos late, if_neg (Nat.not_lt.mpr (show 25 ≤ _ from le_iff_toNat_le.mp late))]
    rfl
  · rw [if_neg late, if_pos (show _ < 25 from lt_iff_toNat_lt.mp (UInt32.not_le.mp late)), UInt32.ofNat_toNat]

theorem sum_by_year (f : ℕ → ℤ) {interval : ℕ} (positive : 0 < interval) (years : ℕ) :
    ∑ i ∈ Finset.range (years * interval), f (i / interval) = interval * ∑ year ∈ Finset.range years, f year := by
  induction years with
  | zero => simp
  | succ years ih =>
    have last : ∀ i ∈ Finset.range interval, f ((years * interval + i) / interval) = f years := fun i inside => by
      rw [Nat.mul_comm, Nat.mul_add_div positive, Nat.div_eq_of_lt (Finset.mem_range.mp inside), add_zero]
    rw [Nat.succ_mul, Finset.sum_range_add, ih, Finset.sum_congr rfl last, Finset.sum_range_succ, mul_add]
    simp

theorem sum_rewards_le (height : UInt32) :
    ∑ i ∈ Finset.range height.toNat, (getRewardByHeight (ofNat (i + 1))).toInt ≤ totalMiningRewards.toInt := by
  have yearly : ∀ i ∈ Finset.range height.toNat,
      (getRewardByHeight (ofNat (i + 1))).toInt = yearlyReward (i / 1576800) := fun i inside => by
    have range := height.toNat_lt
    have small := toNat_ofNat_of_lt' (show i + 1 < 2 ^ 32 by have := Finset.mem_range.mp inside; omega)
    rw [toInt_getRewardByHeight, small, Nat.add_sub_cancel]
    intro zero
    simp [zero] at small
  have years : height.toNat ≤ 2724 * 1576800 := height.toNat_lt.le.trans (by norm_num)
  have capped : ∑ year ∈ Finset.range 2724, yearlyReward year = ∑ year ∈ Finset.range 25, yearlyReward year := by
    refine (Finset.sum_subset (Finset.range_mono (by norm_num)) fun year _ late => ?_).symm
    simp [yearlyReward, show ¬year < 25 by simpa using late]
  have total : 1576800 * ∑ year ∈ Finset.range 25, yearlyReward year ≤ totalMiningRewards.toInt := by decide +kernel
  calc
    _ = ∑ i ∈ Finset.range height.toNat, yearlyReward (i / 1576800) := Finset.sum_congr rfl yearly
    _ ≤ ∑ i ∈ Finset.range (2724 * 1576800), yearlyReward (i / 1576800) :=
      Finset.sum_le_sum_of_subset_of_nonneg (Finset.range_mono years) fun _ _ _ => yearlyReward_nonneg _
    _ ≤ _ := by rwa [sum_by_year _ (by norm_num), capped]

def supplyBound : ℤ := 115000000000000000

theorem issuedBy_le (height : UInt32) : 0 < issuedBy height.toNat ∧ issuedBy height.toNat ≤ supplyBound := by
  have least := Finset.sum_nonneg fun i (_ : i ∈ Finset.range height.toNat) => (getRewardByHeight_bounds (ofNat (i + 1))).1
  have most := sum_rewards_le height
  have initial : initialIssueAmount.toInt = 70000000000000000 := by decide
  have rewards : totalMiningRewards.toInt = 30000000000000000 := by decide
  unfold supplyBound issuedBy
  omega

theorem issuedBy_succ {height : UInt32} (nonzero : height + 1 ≠ 0) :
    issuedBy (height + 1).toNat = issuedBy height.toNat + (getRewardByHeight (height + 1)).toInt := by
  have next := toNat_next nonzero
  have same : ofNat (height.toNat + 1) = height + 1 := by rw [← next, UInt32.ofNat_toNat]
  rw [next, issuedBy, issuedBy, Finset.sum_range_succ, same, add_assoc]

variable {env : Env} {config : Config} {b : Block} {first : Transaction} {rest : List Transaction}
  {coinbase : Pb.Coinbase} {donation : Int64} {state : CheckState} {start spent : StateDB}

theorem Ledger.book_start (ledger : Ledger) (started : blockStart env ledger.toChainStore b = .ok start) :
    book start = book ledger.states := by
  obtain ⟨_, balances⟩ := ledger.blockStart_reads started
  simp only [book, balances, ledger.channelBalance_start started]

theorem Ledger.assets_start (ledger : Ledger) (started : blockStart env ledger.toChainStore b = .ok start) :
    start.assets = ledger.states.assets := by
  obtain ⟨same, _⟩ := ledger.blockStart_reads started
  rw [same.assets, ledger.mirrors.assets]
  rfl

theorem SolventLedger.executes_block (ledger : SolventLedger)
    (accepted : Accepted env config ledger.toChainStore b first rest coinbase donation state start spent)
    (charged : config.chargesNanoPay b.height = true) (current : config.isLegacy b.height = false)
    (unsigned : DonationUnsigned env b.transactions) :
    InStep ledger.toChainStore (lessDonation ledger.toChainStore donation) state.bvs spent ∧
      (book spent).total = (book ledger.states).total + (getRewardByHeight b.height).toInt ∧
      ∀ step ∈ blockTrace env config ledger.toChainStore b, ∀ addr, 0 ≤ (book step.after).balance addr := by
  have ok := accepted.coinbaseOk
  obtain ⟨_, checkedFirst, checkedRest⟩ := checkTransactions_cons_eq_ok.mp accepted.checked
  obtain ⟨paid, runFirst, runRest⟩ := foldlM_cons_eq_ok.mp accepted.run
  obtain ⟨fees, _, _⟩ := ok.feeSum_fits ledger.solvent current accepted.checked
  have same := ledger.book_start accepted.started
  have assets := ledger.assets_start accepted.started
  have affordable := (ledger.spends_coinbase_iff _ ((ledger.blockStart_reads accepted.started).2 nknAssetID) assets
    ok checkedFirst).mp ⟨paid, runFirst⟩
  obtain ⟨inStep, afterCoinbase⟩ := inStep_coinbase ok ledger.solvent checkedFirst same (by rw [assets]) affordable
    (by omega) (by omega) runFirst
  obtain ⟨_, run, inStep', total, nonneg⟩ := inStep.run ledger.solvent rfl
    (fun addr other => by simp [lessDonation, other]) ledger.issuedNKN charged current
    (fun txn member => unsigned txn (by simp [accepted.transactions, member])) checkedRest
  obtain rfl := ok_unique run runRest
  refine ⟨inStep', ?_, ?_⟩
  · have split : feeSum (first :: rest) = first.unsignedTx.fee.toInt + feeSum rest := by simp [feeSum]
    rw [total, afterCoinbase, total_coinbaseBook ok, fees]
    omega
  · rw [accepted.blockTrace_eq, trace_cons runFirst]
    exact forall_mem_cons.mpr ⟨inStep.nonneg, nonneg⟩

theorem Accepted.readAsset {ledger : Ledger}
    (accepted : Accepted env config ledger.toChainStore b first rest coinbase donation state start spent) {asset : Asset}
    (stored : ledger.trie.assets nknAssetID = some asset) :
    spent.assets.read nknAssetID =
      some { asset with totalSupply := asset.totalSupply + getRewardByHeight b.height } := by
  obtain ⟨paid, runFirst, runRest⟩ := foldlM_cons_eq_ok.mp accepted.run
  have assets : start.assets = Table.ofStore ledger.trie.assets :=
    (ledger.assets_start accepted.started).trans ledger.mirrors.assets
  have issuedNKN : (paid.assets.stored nknAssetID).isSome = true := by
    rw [assets_spendTransaction runFirst, assets]
    simp only [Table.ofStore, stored, Option.isSome_some]
  have read : paid.assets.read nknAssetID =
      some { asset with totalSupply := asset.totalSupply + getRewardByHeight b.height } := by
    obtain ⟨_, _, _, _, _, read, _, rfl⟩ := (spendTransaction_coinbase_eq_ok
      accepted.coinbaseOk.verified.unpacked accepted.coinbaseOk.nonzero).mp runFirst
    rw [assets, Table.read_ofStore, stored, Option.some.injEq] at read
    subst read
    exact (Table.read_put _ _ _ _).trans (if_pos rfl)
  refine (foldlM_invariant (fun states => (states.assets.stored nknAssetID).isSome = true ∧
    states.assets.read nknAssetID = some _) runRest ⟨issuedNKN, read⟩ fun {before txn after} member holds turn => ?_).2
  obtain ⟨_, verified, regular⟩ := accepted.following txn member
  rw [assets_spendTransaction turn, readAsset_spendTransaction verified.unpacked regular holds.1 turn]
  exact holds

theorem channelBalance_committed (height : UInt32) (legacy : Bool) (states : StateDB) (channel : Channel) :
    channelBalance ((cleanup height states).finalize env legacy true) channel = 0 ∨
      channelBalance ((cleanup height states).finalize env legacy true) channel = channelBalance states channel := by
  obtain ⟨stored, pending⟩ := StateDB.cleanupRecords_load states.nanoPay
    (StateDB.getCleanup states.nanoPayCleanup height) channel.key
  have committed : channelBalance ((cleanup height states).finalize env legacy true) channel =
      ((((StateDB.cleanupRecords states.nanoPay (StateDB.getCleanup states.nanoPayCleanup height)).finalize
        NanoPay.encode true).stored channel.key).getD .empty).balance := by
    simp only [channelBalance, StateDB.finalize, Table.read, Table.finalize, if_true, GoMap.load_empty]
    rfl
  rw [committed, Table.stored_finalize, stored]
  unfold channelBalance Table.read
  rcases pending with marked | kept
  · rw [marked]
    exact .inl rfl
  · rw [kept]
    cases states.nanoPay.pending.load channel.key with
    | none => exact .inr rfl
    | some entry =>
      cases entry with
      | none => exact .inl rfl
      | some _ =>
        refine .inr ?_
        simp only [Option.bind_some, NanoPay.encode]
        split_ifs with empty
        · rw [empty]; rfl
        · rfl

/-- The sums that the checks of one transaction compute, against the block and against the ledger. -/
structure CheckFits (env : Env) (config : Config) (cs : ChainStore) (height : UInt32) (state : CheckState)
    (txn : Transaction) : Prop where
  block : ∀ message found, unpack env txn.unsignedTx.payload = .ok message →
    state.bvs.verifyMessage env config cs txn height message = .ok found →
    SumsFit state.bvs (Transaction.programHash env message) found.amount found.npAmount txn.unsignedTx.fee
  ledger : ∀ message amount, unpack env txn.unsignedTx.payload = .ok message →
    verifyMessageWithLedger env config cs txn height message = .ok amount →
    Fits (amount.toInt + txn.unsignedTx.fee.toInt)

def ChecksFit (env : Env) (config : Config) (cs : ChainStore) (height : UInt32) : CheckState → List Transaction → Prop
  | _, [] => True
  | state, txn :: rest => CheckFits env config cs height state txn ∧
    ∀ state', checkTransaction env config cs height state txn = .ok state' →
      ChecksFit env config cs height state' rest

variable {cs : ChainStore} {height : UInt32} {txn : Transaction} {txns : List Transaction} {state' : CheckState}

theorem checkTransaction_fits (solvent : Solvent cs) (totals : TotalsOk cs state.bvs)
    (current : config.isLegacy height = false) (checked : checkTransaction env config cs height state txn = .ok state') :
    CheckFits env config cs height state txn ∧ TotalsOk cs state'.bvs := by
  obtain ⟨message, verified⟩ := verifyTransaction_verified (checkTransaction_eq_ok.mp checked).1
  obtain ⟨fee, ⟨plain, claim⟩, _, _, totals', _, _⟩ := checkTransaction_moveOk solvent totals current verified checked
  have same {message' : Pb.Message} (unpacked : unpack env txn.unsignedTx.payload = .ok message') : message' = message :=
    ok_unique unpacked verified.unpacked
  refine ⟨⟨fun message' found unpacked foundMessage => ?_, fun message' amount unpacked asked => ?_⟩, totals'⟩
  · obtain rfl := same unpacked
    have foundOk := verifyMessage_foundOk foundMessage
    rw [foundOk.amount, foundOk.npAmount]
    exact totals.sumsFit solvent.bound plain claim fee
  · obtain rfl := same unpacked
    have moved : amount.toInt = (plainAmount message').toInt + (claimed cs.states message').toInt := by
      unfold AmountOk maxAmount at plain claim
      rw [verifyMessageWithLedger_amount current asked, toInt_add_of_fits ⟨by omega, by omega⟩]
    unfold AmountOk maxAmount at plain claim fee
    exact ⟨by omega, by omega⟩

theorem checksFit_of_checked (solvent : Solvent cs) (totals : TotalsOk cs state.bvs)
    (current : config.isLegacy height = false)
    (checked : txns.foldlM (checkTransaction env config cs height) state = .ok state') :
    ChecksFit env config cs height state txns := by
  induction txns generalizing state with
  | nil => trivial
  | cons _ _ ih =>
    obtain ⟨_, turn, checked⟩ := foldlM_cons_eq_ok.mp checked
    obtain ⟨fits, totals'⟩ := checkTransaction_fits solvent totals current turn
    refine ⟨fits, fun middle' turn' => ?_⟩
    obtain rfl := ok_unique turn' turn
    exact ih totals' checked

def totalBalance (cs : ChainStore) : ℤ := ∑ addr, (cs.getBalance addr).toInt

/-- The law of the supply for a block saved on `cs`, with the sums computed on the way: the fees, the totals and
requests of the checks, the product behind the donation, the payout, and the balances between transactions. -/
structure SupplyLaw (env : Env) (config : Config) (cs : ChainStore) (b : Block) (cs' : ChainStore) : Prop where
  grows : totalBalance cs' = totalBalance cs + (getRewardByHeight b.height).toInt
  recorded : ∃ asset, cs'.getAsset nknAssetID = .ok asset ∧ asset.totalSupply.toInt = totalBalance cs'
  nonneg : ∀ addr, 0 ≤ (cs'.getBalance addr).toInt
  fees : ∀ count, Fits (feeSum (b.transactions.take count))
  checks : ChecksFit env config cs b.height .new b.transactions
  donation : Fits ((cs.getBalance donationAddress).toInt * 11)
  payout : ∀ first ∈ b.transactions.head?, ∀ coinbase, unpack env first.unsignedTx.payload = .ok (.coinbase coinbase) →
    Fits (coinbase.amount.toInt + feeSum b.transactions)
  during : ∀ step ∈ blockTrace env config cs b, ∀ addr, 0 ≤ (step.after.getBalance nknAssetID addr).toInt

/-- The invariant of a chain: all that was issued is in the accounts and in the recorded supply. -/
structure Conserved (ledger : SolventLedger) : Prop where
  total : (book ledger.states).total = issuedBy ledger.currentBlockHeight.toNat
  supply : ∃ asset, ledger.trie.assets nknAssetID = some asset ∧ asset.isEmpty = false ∧
    asset.totalSupply.toInt = (book ledger.states).total

theorem exists_conserved (ledger : Ledger) (nonneg : ∀ addr, 0 ≤ (book ledger.states).balance addr)
    (recorded : ∀ channel, 0 ≤ (book ledger.states).recorded channel)
    (total : (book ledger.states).total = issuedBy ledger.currentBlockHeight.toNat) (asset : Asset)
    (stored : ledger.trie.assets nknAssetID = some asset) (named : asset.isEmpty = false)
    (supply : asset.totalSupply.toInt = (book ledger.states).total) :
    ∃ solvent : SolventLedger, solvent.toLedger = ledger ∧ Conserved solvent := by
  obtain ⟨_, _⟩ := issuedBy_le ledger.currentBlockHeight
  have bound : supplyBound ≤ balanceBound := by decide
  refine ⟨⟨ledger, ⟨nonneg, by omega, recorded⟩, asset, stored, by omega, by omega⟩, rfl, total, asset, stored, named,
    supply⟩

section

variable {cs' : ChainStore} {root : Uint256}

theorem feeSum_take_fits (nonneg : ∀ txn ∈ txns, 0 ≤ txn.unsignedTx.fee.toInt) (most : feeSum txns ≤ balanceBound)
    (count : ℕ) : Fits (feeSum (txns.take count)) := by
  have part (list : List Transaction) (sublist : ∀ txn ∈ list, txn ∈ txns) : 0 ≤ feeSum list := by
    refine sum_nonneg fun fee member => ?_
    obtain ⟨txn, listed, rfl⟩ := mem_map.mp member
    exact nonneg txn (sublist txn listed)
  have split : feeSum (txns.take count) + feeSum (txns.drop count) = feeSum txns := by
    rw [feeSum, feeSum, ← List.sum_append, ← map_append, take_append_drop, feeSum]
  have front := part (txns.take count) fun _ => mem_of_mem_take
  have back := part (txns.drop count) fun _ => mem_of_mem_drop
  unfold balanceBound at most
  exact ⟨by omega, by omega⟩

theorem Accepted.supply_saved {ledger : Ledger} {asset : Asset} (roots : RootsFaithful env)
    (accepted : Accepted env config ledger.toChainStore b first rest coinbase donation state start spent)
    (next : b.height = ledger.currentBlockHeight + 1) (saved : Saved env config ledger.toChainStore b root cs')
    (stored : ledger.trie.assets nknAssetID = some asset) (named : asset.isEmpty = false)
    (supply : asset.totalSupply.toInt = issuedBy ledger.currentBlockHeight.toNat) :
    ∃ asset', (saved.ledger roots).trie.assets nknAssetID = some asset' ∧ asset'.isEmpty = false ∧
      asset'.totalSupply.toInt = issuedBy b.height.toNat := by
  have grown : issuedBy b.height.toNat = asset.totalSupply.toInt + (getRewardByHeight b.height).toInt := by
    rw [supply, next]
    exact issuedBy_succ (next ▸ accepted.coinbaseOk.nonzero)
  obtain ⟨_, most⟩ := issuedBy_le b.height
  unfold supplyBound at most
  refine ⟨{ asset with totalSupply := asset.totalSupply + getRewardByHeight b.height }, ?_, named, ?_⟩
  · change cs'.states.assets.stored nknAssetID = _
    rw [accepted.states_saved saved]
    exact StateDB.stored_finalizeAssets true (accepted.readAsset stored) named
  · rw [grown]
    exact toInt_add_of_fits ⟨by omega, by omega⟩

theorem Conserved.saved {ledger : SolventLedger} (conserved : Conserved ledger) (roots : RootsFaithful env)
    (accepted : Accepted env config ledger.toChainStore b first rest coinbase donation state start spent)
    (charged : config.chargesNanoPay b.height = true) (current : config.isLegacy b.height = false)
    (unsigned : DonationUnsigned env b.transactions) (next : b.height = ledger.currentBlockHeight + 1)
    (saved : Saved env config ledger.toChainStore b root cs') :
    (book cs'.states).total = (book ledger.states).total + (getRewardByHeight b.height).toInt ∧
      ∃ ledger' : SolventLedger, ledger'.toLedger = saved.ledger roots ∧ Conserved ledger' := by
  obtain ⟨inStep, total, _⟩ := ledger.executes_block accepted charged current unsigned
  have states := accepted.states_saved saved
  obtain ⟨balances, _⟩ := accepted.reads_finalize (finalizesLegacyNames config ledger.toChainStore) true
  have balance : (book cs'.states).balance = (book spent).balance := by
    rw [states]
    simp only [book, balances]
  have grown : (book cs'.states).total = (book ledger.states).total + (getRewardByHeight b.height).toInt := by
    rw [← total, Book.total, Book.total, balance]
  have height : issuedBy b.height.toNat = (book cs'.states).total := by
    rw [grown, conserved.total, next]
    exact issuedBy_succ (next ▸ accepted.coinbaseOk.nonzero)
  obtain ⟨_, stored, named, supply⟩ := conserved.supply
  obtain ⟨asset', stored', named', supply'⟩ :=
    accepted.supply_saved roots next saved stored named (supply.trans conserved.total)
  refine ⟨grown, exists_conserved (saved.ledger roots) ?_ ?_ ?_ asset' stored' named' (supply'.trans height)⟩
  · intro addr
    change 0 ≤ (book cs'.states).balance addr
    rw [balance]
    exact inStep.nonneg addr
  · intro channel
    change 0 ≤ (channelBalance cs'.states channel).toInt
    rw [states]
    rcases channelBalance_committed b.height (finalizesLegacyNames config ledger.toChainStore) spent channel with
      nothing | kept
    · rw [nothing, toInt_zero]
    · rw [kept]
      exact (ledger.solvent.recorded channel).trans (inStep.covered.recorded channel)
  · change (book cs'.states).total = issuedBy cs'.currentBlockHeight.toNat
    rw [saved.height, height]

theorem Conserved.supplyLaw {ledger : SolventLedger} (conserved : Conserved ledger) (roots : RootsFaithful env)
    (charged : config.chargesNanoPay b.height = true) (current : config.isLegacy b.height = false)
    (unsigned : DonationUnsigned env b.transactions) (step : Extends env config ledger.toChainStore b cs') :
    SupplyLaw env config ledger.toChainStore b cs' := by
  obtain ⟨_, _, coinbase, _, _, _, _, accepted⟩ := transactionCheck_accepted step.accepted
  obtain ⟨_, saved⟩ := step.isSaved
  have ok := accepted.coinbaseOk
  obtain ⟨grown, ledger', sameLedger, conserved'⟩ :=
    conserved.saved roots accepted charged current unsigned step.next saved
  obtain ⟨_, _, during⟩ := ledger.executes_block accepted charged current unsigned
  obtain ⟨_, _, feesMost⟩ := ok.feeSum_fits ledger.solvent current accepted.checked
  have transactions := accepted.transactions
  obtain ⟨asset, stored, _, supply⟩ := conserved'.supply
  rw [sameLedger] at stored supply
  refine ⟨grown, ⟨asset, ?_, supply⟩, fun addr => ?_, ?_, ?_, ?_, ?_, during⟩
  · exact orFail_eq_ok.mpr stored
  · have := ledger'.solvent.nonneg addr
    rwa [sameLedger] at this
  · rw [transactions]
    refine feeSum_take_fits (fun txn member => ?_) feesMost
    obtain ⟨_, _, turn⟩ := checkTransactions_forall accepted.checked txn member
    obtain ⟨_, verified⟩ := verifyTransaction_verified (checkTransaction_eq_ok.mp turn).1
    exact verified.fee.1
  · rw [transactions]
    exact checksFit_of_checked ledger.solvent (totalsOk_new ledger.solvent.nonneg) current
      (checkTransactions_foldlM accepted.checked)
  · have least := ledger.solvent.nonneg donationAddress
    have most := Book.balance_le_total ledger.solvent.nonneg donationAddress
    obtain ⟨_, bound⟩ := issuedBy_le ledger.currentBlockHeight
    rw [conserved.total] at most
    unfold supplyBound at bound
    change Fits ((book ledger.states).balance donationAddress * 11)
    exact ⟨by omega, by omega⟩
  · rw [transactions]
    rintro _ ⟨rfl⟩ coinbase' unpacked
    obtain rfl : coinbase' = coinbase := by simpa using unpacked.symm.trans ok.verified.unpacked
    have amountOk := ok.amountOk
    have feeLeast := ok.verified.fee.1
    unfold AmountOk maxAmount at amountOk
    unfold balanceBound at feesMost
    exact ⟨by omega, by omega⟩

end

section

variable {genesisSignerPk packedCoinbase : Bytes}

theorem conserved_genesis (roots : RootsFaithful env)
    (encoded : unpack env ⟨.coinbase, packedCoinbase⟩ = .ok (.coinbase genesisCoinbase))
    (initialized : newBlockchainWithGenesisBlock env config genesisSignerPk packedCoinbase = .ok (cs, b)) :
    ∃ ledger : SolventLedger, ledger.toChainStore = cs ∧ Conserved ledger := by
  obtain ⟨zero, transactions, _, saved⟩ := newBlockchain_saved initialized
  obtain ⟨_, spent, started, run, built⟩ := generateStateRoot_genesis zero transactions saved.generated
  obtain ⟨balances, _, nanoPay, noNil, asset⟩ := initGenesis_eq_ok started
  obtain ⟨same, sameNanoPay, sameAssets⟩ := spendTransaction_genesis _ rfl encoded run
  have noNil := (StateDB.kept_noNil env).spendTransaction noNil run
  have balance (addr : Uint160) : cs.states.getBalance nknAssetID addr =
      if addr = initialIssueAddress then initialIssueAmount else 0 := by
    rw [built, StateDB.getBalance_finalize noNil, same, balances]
  have channels (channel : Channel) : channelBalance cs.states channel = 0 := by
    have none : spent.nanoPay = .ofStore fun _ => none := sameNanoPay.trans nanoPay
    rw [built]
    simp only [channelBalance, StateDB.finalize, none, Table.read, Table.finalize, if_true, GoMap.load_empty,
      GoMap.flush_apply, Table.ofStore]
    rfl
  have total : (book cs.states).total = initialIssueAmount.toInt := by
    simp only [Book.total, book, balance, apply_ite Int64.toInt, toInt_zero, Finset.sum_ite_eq', Finset.mem_univ, if_true]
  have stored : (saved.ledger roots).trie.assets nknAssetID = some initialAsset := by
    change cs.states.assets.stored nknAssetID = _
    rw [built]
    exact StateDB.stored_finalizeAssets true (sameAssets ▸ asset) rfl
  have nonneg (addr : Uint160) : 0 ≤ (book cs.states).balance addr := by
    simp only [book, balance]
    split_ifs <;> decide
  have recorded (channel : Channel) : 0 ≤ (book cs.states).recorded channel := by
    simp only [book, channels, toInt_zero, le_refl]
  have issued : (book cs.states).total = issuedBy cs.currentBlockHeight.toNat := by
    rw [total, saved.height, zero]
    simp [issuedBy]
  obtain ⟨ledger, sameLedger, conserved⟩ :=
    exists_conserved (saved.ledger roots) nonneg recorded issued initialAsset stored rfl total.symm
  exact ⟨ledger, congrArg Ledger.toChainStore sameLedger, conserved⟩

end

/-- Blocks at heights at which names are kept by the current service and nano pay fees are charged, the genesis block
apart, and none of whose transactions is signed for the donation address. -/
structure Ordinary (env : Env) (config : Config) (b : Block) : Prop where
  current : b.height ≠ 0 → config.isLegacy b.height = false
  charged : b.height ≠ 0 → config.chargesNanoPay b.height = true
  unsigned : DonationUnsigned env b.transactions

section

variable {genesisSignerPk packedCoinbase : Bytes} {blocks : List Block} {cs' : ChainStore}

theorem Chain.conserved (chain : Chain env config genesisSignerPk packedCoinbase cs blocks) (roots : RootsFaithful env)
    (encoded : unpack env ⟨.coinbase, packedCoinbase⟩ = .ok (.coinbase genesisCoinbase))
    (ordinary : ∀ b ∈ blocks, Ordinary env config b) :
    ∃ ledger : SolventLedger, ledger.toChainStore = cs ∧ Conserved ledger := by
  induction chain with
  | genesis initialized => exact conserved_genesis roots encoded initialized
  | extend _ step ih =>
    obtain ⟨_, rfl, conserved⟩ := ih fun b member => ordinary b (mem_append_left _ member)
    obtain ⟨current, charged, unsigned⟩ := ordinary _ (mem_append_right _ mem_cons_self)
    obtain ⟨_, _, _, _, _, _, _, accepted⟩ := transactionCheck_accepted step.accepted
    have nonzero := accepted.coinbaseOk.nonzero
    obtain ⟨_, saved⟩ := step.isSaved
    obtain ⟨_, ledger', sameLedger, conserved'⟩ :=
      conserved.saved roots accepted (charged nonzero) (current nonzero) unsigned step.next saved
    exact ⟨ledger', congrArg Ledger.toChainStore sameLedger, conserved'⟩

/-- Along every chain of blocks, the supply of NKN grows by the rewards only, the balances add up to it and are not
negative, and no sum wraps around. -/
theorem supply_conserved (roots : RootsFaithful env)
    (encoded : unpack env ⟨.coinbase, packedCoinbase⟩ = .ok (.coinbase genesisCoinbase))
    (chain : Chain env config genesisSignerPk packedCoinbase cs blocks) (step : Extends env config cs b cs')
    (ordinary : ∀ block ∈ blocks ++ [b], Ordinary env config block) : SupplyLaw env config cs b cs' := by
  obtain ⟨ledger, rfl, conserved⟩ :=
    chain.conserved roots encoded fun b member => ordinary b (List.mem_append_left _ member)
  obtain ⟨current, charged, unsigned⟩ := ordinary b (List.mem_append_right _ List.mem_cons_self)
  obtain ⟨_, _, _, _, _, _, _, accepted⟩ := transactionCheck_accepted step.accepted
  have nonzero := accepted.coinbaseOk.nonzero
  exact conserved.supplyLaw roots (charged nonzero) (current nonzero) unsigned step

/-- The supply that a ledger records is what was issued up to its height. -/
theorem Chain.supply (chain : Chain env config genesisSignerPk packedCoinbase cs blocks) (roots : RootsFaithful env)
    (encoded : unpack env ⟨.coinbase, packedCoinbase⟩ = .ok (.coinbase genesisCoinbase)) :
    ∃ ledger : Ledger, ledger.toChainStore = cs ∧ ∃ asset, ledger.trie.assets nknAssetID = some asset ∧
      asset.isEmpty = false ∧ asset.totalSupply.toInt = issuedBy cs.currentBlockHeight.toNat := by
  induction chain with
  | genesis initialized =>
    obtain ⟨ledger, rfl, conserved⟩ := conserved_genesis roots encoded initialized
    obtain ⟨asset, stored, named, supply⟩ := conserved.supply
    exact ⟨ledger.toLedger, rfl, asset, stored, named, supply.trans conserved.total⟩
  | extend _ step ih =>
    obtain ⟨ledger, rfl, _, stored, named, supply⟩ := ih
    obtain ⟨_, _, _, _, _, _, _, accepted⟩ := transactionCheck_accepted step.accepted
    obtain ⟨_, saved⟩ := step.isSaved
    refine ⟨saved.ledger roots, rfl, ?_⟩
    rw [saved.height]
    exact accepted.supply_saved roots step.next saved stored named supply

end

/-- The rewards of all blocks together stay within `TotalMiningRewards`, they are not negative and never grow, and on no
chain does the increase of the supply fail. -/
theorem rewards_within_cap :
    (∀ height : UInt32, ∑ i ∈ Finset.range height.toNat, (getRewardByHeight (UInt32.ofNat (i + 1))).toInt ≤
      totalMiningRewards.toInt) ∧
    (∀ height : UInt32, 0 ≤ (getRewardByHeight height).toInt) ∧
    (∀ height height' : UInt32, height ≠ 0 → height ≤ height' →
      (getRewardByHeight height').toInt ≤ (getRewardByHeight height).toInt) ∧
    ∀ (env : Env) (config : Config) (genesisSignerPk packedCoinbase : Bytes) (cs : ChainStore) (blocks : List Block),
      RootsFaithful env → unpack env ⟨.coinbase, packedCoinbase⟩ = .ok (.coinbase genesisCoinbase) →
      Chain env config genesisSignerPk packedCoinbase cs blocks → ∀ states : StateDB, states.assets = cs.states.assets →
      ∀ height, ∃ states', states.increaseTotalSupply nknAssetID (getRewardByHeight height) = .ok states' := by
  refine ⟨sum_rewards_le, fun height => (getRewardByHeight_bounds height).1, fun height height' nonzero le => ?_, ?_⟩
  · have le := le_iff_toNat_le.mp le
    have nonzero' : height' ≠ 0 := by
      rintro rfl
      exact nonzero (UInt32.toNat_inj.mp (Nat.le_zero.mp le))
    rw [toInt_getRewardByHeight nonzero, toInt_getRewardByHeight nonzero']
    exact yearlyReward_le (Nat.div_le_div_right (Nat.sub_le_sub_right le 1))
  · intro env config genesisSignerPk packedCoinbase cs blocks roots encoded chain states same height
    obtain ⟨ledger, rfl, asset, stored, -, supply⟩ := chain.supply roots encoded
    obtain ⟨_, _⟩ := issuedBy_le ledger.currentBlockHeight
    have bound : supplyBound ≤ balanceBound := by decide
    obtain ⟨read, grows⟩ := ledger.supply_grows stored (by omega) (by omega) height
    exact ⟨_, increaseTotalSupply_eq_ok.mpr ⟨asset, same ▸ read, grows, rfl⟩⟩

/-- On every chain `GetAsset` reports what was issued, which is at most the initial amount and all mining rewards. Where all
blocks are ordinary, no account holds more. -/
theorem reported_supply {genesisSignerPk packedCoinbase : Bytes} {blocks : List Block} (roots : RootsFaithful env)
    (encoded : unpack env ⟨.coinbase, packedCoinbase⟩ = .ok (.coinbase genesisCoinbase))
    (chain : Chain env config genesisSignerPk packedCoinbase cs blocks) :
    ∃ asset, cs.getAsset nknAssetID = .ok asset ∧ asset.totalSupply.toInt = issuedBy cs.currentBlockHeight.toNat ∧
      asset.totalSupply ≤ initialIssueAmount + totalMiningRewards ∧
      ((∀ b ∈ blocks, Ordinary env config b) → ∀ addr, cs.getBalance addr ≤ asset.totalSupply) := by
  obtain ⟨ledger, rfl, asset, stored, -, supply⟩ := chain.supply roots encoded
  have most : (initialIssueAmount + totalMiningRewards).toInt = initialIssueAmount.toInt + totalMiningRewards.toInt := by
    decide
  refine ⟨asset, orFail_eq_ok.mpr ?_, supply, ?_, fun ordinary addr => ?_⟩
  · rw [ledger.mirrors.assets]
    exact stored
  · rw [Int64.le_iff_toInt_le, most, supply]
    exact Int.add_le_add_left (sum_rewards_le _) _
  · obtain ⟨ledger', same, conserved⟩ := chain.conserved roots encoded ordinary
    have held := Book.balance_le_total ledger'.solvent.nonneg addr
    rw [conserved.total, same, ← supply] at held
    exact Int64.le_iff_toInt_le.mpr held

namespace FirstBlocks

theorem supplyFacts : (∀ block ∈ [genesisBlock, firstBlock] ++ [secondBlock], block.height ≠ 0 →
      currentConfig.isLegacy block.height = false ∧ currentConfig.chargesNanoPay block.height = true) ∧
    genesisBlock.transactions = (genesisBlockInit tables.env Sample.proposerKey packedCoinbase).transactions ∧
    toCodeHash tables.env (createSignatureProgramCode Sample.proposerKey) ≠ donationAddress ∧
    unpack tables.env ⟨.coinbase, packedCoinbase⟩ = .ok (.coinbase genesisCoinbase) := by
  decide +kernel

theorem ordinary : ∀ block ∈ [genesisBlock, firstBlock] ++ [secondBlock], Ordinary tables.env currentConfig block := by
  obtain ⟨heights, genesis, other, -⟩ := supplyFacts
  refine fun block member => ⟨fun positive => (heights block member positive).1,
    fun positive => (heights block member positive).2, ?_⟩
  simp only [cons_append, nil_append, mem_cons, not_mem_nil, or_false] at member
  rcases member with rfl | rfl | rfl
  · rw [genesis]
    simp [DonationUnsigned, Transaction.SignedBy, genesisBlockInit, getPublicKeyFromCode, rejectIf, fail]
  · simp [DonationUnsigned, Transaction.SignedBy, firstBlock, coinbaseTxn]
  · simp [DonationUnsigned, Transaction.SignedBy, secondBlock, coinbaseTxn, transferTxn, other]

theorem supply_conserved_secondBlock : SupplyLaw tables.env currentConfig firstStore secondBlock secondStore :=
  supply_conserved rootsFaithful supplyFacts.2.2.2 chain extends_secondBlock ordinary

theorem rewards_within_cap_firstBlock : ∃ states',
    firstStore.states.increaseTotalSupply nknAssetID (getRewardByHeight 2) = .ok states' :=
  rewards_within_cap.2.2.2 tables.env currentConfig Sample.proposerKey packedCoinbase firstStore
    [genesisBlock, firstBlock] rootsFaithful supplyFacts.2.2.2 chain firstStore.states rfl 2

theorem reported_supply_secondBlock : ∃ asset, secondStore.getAsset nknAssetID = .ok asset :=
  (reported_supply rootsFaithful supplyFacts.2.2.2 (chain.extend extends_secondBlock)).imp fun _ => And.left

end FirstBlocks

end Nkn
