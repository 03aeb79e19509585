import Nkn.Soundness.Concrete
import Nkn.Proofs.Lockstep
import Nkn.Soundness.Ledger

/-! # Validation implies execution

Transactions that pass the loop of `TransactionCheck` are executed without error, unless the fee and donation of the
coinbase together exceed the balance of the donation account. -/

namespace Nkn

open Go Outcome Config Store Snapshot

structure SolventLedger extends Ledger where
  solvent : Solvent toChainStore
  supply : ∃ asset, trie.assets nknAssetID = some asset ∧ 0 < asset.totalSupply.toInt ∧
    asset.totalSupply.toInt ≤ balanceBound

variable {env : Env} {config : Config} {height : UInt32} {txns : List Transaction} {state : CheckState}

def Executes (env : Env) (config : Config) (cs : ChainStore) (height : UInt32) (txns : List Transaction) : Prop :=
  ∃ states, spendTransactions env config cs (totalFee txns) height cs.states txns = .ok states

def DonationAffordable (config : Config) (cs : ChainStore) (txns : List Transaction) : Prop :=
  ∀ first ∈ txns.head?, first.unsignedTx.payload.type = .coinbase → ∀ donation, cs.getDonation config = .ok donation →
    first.unsignedTx.fee.toInt + donation.toInt ≤ (cs.getBalance donationAddress).toInt

theorem SolventLedger.issuedNKN (ledger : SolventLedger) : (ledger.states.assets.stored nknAssetID).isSome = true := by
  obtain ⟨_, stored, _⟩ := ledger.supply
  simp only [ledger.mirrors.assets, Table.ofStore, stored, Option.isSome_some]

theorem Ledger.supply_grows (ledger : Ledger) {asset : Asset} (stored : ledger.trie.assets nknAssetID = some asset)
    (least : 0 < asset.totalSupply.toInt) (most : asset.totalSupply.toInt ≤ balanceBound) (height : UInt32) :
    ledger.states.assets.read nknAssetID = some asset ∧ 0 < asset.totalSupply + getRewardByHeight height := by
  obtain ⟨_, rewardMost⟩ := getRewardByHeight_bounds height
  unfold balanceBound at most
  unfold maxReward at rewardMost
  constructor
  · rw [ledger.mirrors.assets, Table.read_ofStore, stored]
  · rw [lt_iff_toInt, toInt_add_of_fits ⟨by omega, by omega⟩, toInt_zero]
    omega

theorem SolventLedger.executes_following (ledger : SolventLedger) (charged : config.chargesNanoPay height = true)
    (current : config.isLegacy height = false) (unsigned : DonationUnsigned env txns)
    (checked : txns.foldlM (checkFollowing env config ledger.toChainStore height) .new = .ok state) :
    Executes env config ledger.toChainStore height txns := by
  have inStep : InStep ledger.toChainStore (book ledger.states) CheckState.new.bvs ledger.states := by
    have total := ledger.solvent.total
    refine ⟨totalsOk_new ledger.solvent.nonneg, covered_of_balance (fun _ => rfl) fun addr => ?_, fun addr => ?_, ?_,
      rfl⟩
    · simp [reserved, CheckState.new, BlockValidationState.new]
    · simpa [reserved, CheckState.new, BlockValidationState.new] using ledger.solvent.nonneg addr
    · unfold balanceBound at total
      unfold runningBound
      omega
  obtain ⟨states, run, _⟩ := inStep.run ledger.solvent rfl (fun _ _ => rfl) ledger.issuedNKN charged current unsigned
    checked
  exact ⟨states, run⟩

section

variable {first : Transaction} {rest : List Transaction} {coinbase : Pb.Coinbase} {donation : Int64}

theorem SolventLedger.spends_coinbase_iff (ledger : SolventLedger) {start : StateDB} (fees : Int64)
    (balances : ∀ addr, start.getBalance nknAssetID addr = ledger.getBalance addr)
    (assets : start.assets = ledger.states.assets)
    (ok : CoinbaseOk env config ledger.toChainStore height first coinbase donation)
    (checked : checkTransaction env config ledger.toChainStore height .new first = .ok state) :
    (∃ states, spendTransaction env config ledger.toChainStore fees false height start first = .ok states) ↔
      first.unsignedTx.fee.toInt + donation.toInt ≤ (ledger.getBalance donationAddress).toInt := by
  obtain ⟨totals, counted⟩ := ok.totals ledger.solvent checked
  have feeLeast := ok.verified.fee.1
  have feeMost : first.unsignedTx.fee.toInt ≤ (ledger.getBalance donationAddress).toInt := by
    have := totals.within donationAddress
    rwa [counted, if_pos rfl] at this
  have range := fits_toInt (ledger.getBalance donationAddress)
  unfold Fits at range
  have paid : (afterFee config height start first donationAddress (.coinbase coinbase)).getBalance nknAssetID
      donationAddress = ledger.getBalance donationAddress - first.unsignedTx.fee := by
    rw [getBalance_afterFee, chargedFee_coinbase, balances]
    simp
  have donationPaid : donation ≤ ledger.getBalance donationAddress - first.unsignedTx.fee ↔
      first.unsignedTx.fee.toInt + donation.toInt ≤ (ledger.getBalance donationAddress).toInt := by
    rw [le_iff_toInt, toInt_sub_of_fits ⟨by omega, by omega⟩]
    omega
  obtain ⟨asset, stored, least, most⟩ := ledger.supply
  obtain ⟨read, grows⟩ := ledger.supply_grows stored least most height
  simp only [spendTransaction_coinbase_eq_ok ok.verified.unpacked ok.nonzero, ok.sender, ok.current, paid,
    balances, assets]
  constructor
  · rintro ⟨_, _, _, same, enough, _⟩
    obtain rfl := Except.ok.inj same
    exact donationPaid.mp enough
  · intro affordable
    exact ⟨_, fun _ => le_iff_toInt.mpr feeMost, donation, rfl, donationPaid.mpr affordable, asset, read, grows, rfl⟩

theorem SolventLedger.executes_coinbase (ledger : SolventLedger) (charged : config.chargesNanoPay height = true)
    (current : config.isLegacy height = false) (unsigned : DonationUnsigned env (first :: rest))
    (ok : CoinbaseOk env config ledger.toChainStore height first coinbase donation)
    (checked : checkTransactions env config ledger.toChainStore height (first :: rest) = .ok state)
    (affordable : first.unsignedTx.fee.toInt + donation.toInt ≤ (ledger.getBalance donationAddress).toInt) :
    Executes env config ledger.toChainStore height (first :: rest) := by
  obtain ⟨_, checkedFirst, checkedRest⟩ := checkTransactions_cons_eq_ok.mp checked
  obtain ⟨_, _, _⟩ := ok.feeSum_fits ledger.solvent current checked
  obtain ⟨states₁, runFirst⟩ := (ledger.spends_coinbase_iff (totalFee (first :: rest)) (fun _ => rfl) rfl ok checkedFirst).mpr affordable
  obtain ⟨inStep, _⟩ := inStep_coinbase ok ledger.solvent checkedFirst rfl rfl affordable (by omega) (by omega) runFirst
  obtain ⟨states, run, _⟩ := inStep.run ledger.solvent rfl (fun addr other => by simp [lessDonation, other])
    ledger.issuedNKN charged current (fun txn member => unsigned txn (List.mem_cons_of_mem _ member)) checkedRest
  exact ⟨states, foldlM_cons_eq_ok.mpr ⟨states₁, runFirst, run⟩⟩

end

/-- A checked list is executed exactly when its coinbase leaves the donation account enough for the donation. -/
theorem executes_iff (ledger : SolventLedger) (charged : config.chargesNanoPay height = true)
    (current : config.isLegacy height = false) (unsigned : DonationUnsigned env txns)
    (checked : checkTransactions env config ledger.toChainStore height txns = .ok state) :
    Executes env config ledger.toChainStore height txns ↔ DonationAffordable config ledger.toChainStore txns := by
  cases txns with
  | nil => exact ⟨fun _ => by simp [DonationAffordable], fun _ => ⟨ledger.states, foldlM_nil_eq_ok.mpr rfl⟩⟩
  | cons first rest =>
    by_cases kind : first.unsignedTx.payload.type = .coinbase
    · obtain ⟨_, checkedFirst, _⟩ := checkTransactions_cons_eq_ok.mp checked
      obtain ⟨coinbase, donation, ok⟩ := checkTransaction_coinbaseOk kind checkedFirst
      have affordable : DonationAffordable config ledger.toChainStore (first :: rest) ↔
          first.unsignedTx.fee.toInt + donation.toInt ≤ (ledger.getBalance donationAddress).toInt := by
        simp [DonationAffordable, kind, ok.current]
      rw [affordable]
      constructor
      · rintro ⟨states, run⟩
        obtain ⟨states₁, runFirst, _⟩ := foldlM_cons_eq_ok.mp run
        exact (ledger.spends_coinbase_iff _ (fun _ => rfl) rfl ok checkedFirst).mp ⟨states₁, runFirst⟩
      · exact ledger.executes_coinbase charged current unsigned ok checked
    · have following : (first :: rest).foldlM (checkFollowing env config ledger.toChainStore height) .new =
          .ok state := by
        obtain ⟨middle, checkedFirst, checkedRest⟩ := checkTransactions_cons_eq_ok.mp checked
        exact foldlM_cons_eq_ok.mpr ⟨middle, checkFollowing_eq_ok.mpr ⟨kind, checkedFirst⟩, checkedRest⟩
      exact ⟨fun _ => by simp [DonationAffordable, kind],
        fun _ => ledger.executes_following charged current unsigned following⟩

/-! The donation account holds 1000 NKN. A coinbase with a fee of 1000 NKN passes the checks, which compare the fee and
the donation of 0.00044 NKN with the balance one after the other. -/

namespace FeeBesideDonation

open Sample

def tables : Tables where
  sha256 := Tables.hashedTwice (Transaction.serializeUnsigned (coinbaseTxn 0 100000000000))
    (Word.ofNat 32 0xd84b31ef642b36e3545cfa5cd22bce87f7900cf6b2457a764f39defe29b54ba4)
    (Word.ofNat 32 0x131eb9e8487022c5edb3a81d26b36970061adfbc37c683e11c943cc6e7ec6d49)
  messages := [.coinbase coinbase]

def trie : StateTrie := .ofBalances [(donationAddress, 100000000000)] 80000000000000000

def root : Uint256 := Word.ofNat 32 0xb4077d8648f4909b82420477553a2ddecee114b70b283884ec10c3419180e2c5

theorem book_new : book (StateDB.new trie) =
    ⟨fun addr => if addr = donationAddress then 100000000000 else 0, fun _ => 0⟩ := by
  refine congr (congrArg Book.mk (funext fun addr => ?_)) (funext fun channel => rfl)
  rw [trie, getBalance_ofBalances]
  by_cases donation : addr = donationAddress <;> simp [donation]

def ledger : SolventLedger where
  toChainStore := chainStore root trie
  trie := trie
  opens := rfl
  mirrors := mirrors_new trie
  solvent := by
    have same : book (chainStore root trie).states = _ := book_new
    refine ⟨fun addr => ?_, ?_, fun channel => ?_⟩ <;> rw [same]
    · dsimp only
      split_ifs <;> decide
    · simp [Book.total, balanceBound]
  supply := ⟨_, rfl, by decide, by decide⟩

def listed : List Transaction := [coinbaseTxn 0 100000000000]

theorem unsigned : DonationUnsigned tables.env listed := by
  simp [DonationUnsigned, Transaction.SignedBy, listed, coinbaseTxn]

theorem checked : ∃ state, checkTransactions tables.env mainnet ledger.toChainStore 5000000 listed = .ok state := by
  exact isOk_iff.mp (by decide +kernel)

/-- The list passes the checks and execution fails. -/
theorem checked_coinbase_fails :
    mainnet.isLegacy 5000000 = false ∧ mainnet.chargesNanoPay 5000000 = true ∧ DonationUnsigned tables.env listed ∧
      (∃ state, checkTransactions tables.env mainnet ledger.toChainStore 5000000 listed = .ok state) ∧
      ¬ Executes tables.env mainnet ledger.toChainStore 5000000 listed := by
  refine ⟨by decide, by decide, unsigned, checked, fun executes => ?_⟩
  exact absurd (isOk_iff.mpr executes) (by decide +kernel)

theorem executes_iff_listed :
    ∃ state, checkTransactions tables.env mainnet ledger.toChainStore 5000000 listed = .ok state ∧
      (Executes tables.env mainnet ledger.toChainStore 5000000 listed ↔
        DonationAffordable mainnet ledger.toChainStore listed) := by
  obtain ⟨state, checked⟩ := checked
  exact ⟨state, checked, executes_iff ledger (by decide) (by decide) unsigned checked⟩

end FeeBesideDonation

end Nkn
