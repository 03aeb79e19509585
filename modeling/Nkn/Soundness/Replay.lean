import Nkn.Proofs.Sequence
import Nkn.Soundness.Chain

/-! # Replay protection

On every chain, the transactions of an account other than the donation account have the nonces 0, 1, 2, …, and no hash
occurs twice. -/

namespace Nkn

open Config Store

def chainTransactions (blocks : List Block) : List Transaction := blocks.flatMap (·.transactions)

/-- The law of nonces and hashes for the blocks of a ledger: the account of a payload signs for it, its transactions are
numbered from 0, and its nonce is their number. -/
structure ReplayLaw (env : Env) (cs : ChainStore) (blocks : List Block) : Prop where
  signed : ∀ txn ∈ chainTransactions blocks, ∀ addr nonce, nonceFrom env addr txn = some nonce →
    ∃ key, Transaction.SignedBy env txn addr key
  nonces : ∀ addr, addr ≠ donationAddress →
    (noncesFrom env addr (chainTransactions blocks)).map UInt64.toNat =
      List.range (noncesFrom env addr (chainTransactions blocks)).length
  account : ∀ addr, addr ≠ donationAddress →
    (cs.getNonce addr).toNat = (noncesFrom env addr (chainTransactions blocks)).length
  hashes : ((chainTransactions blocks).map (Transaction.hash env)).Nodup

structure Sequenced (env : Env) (ledger : Ledger) (blocks : List Block) : Prop where
  length : blocks.length = ledger.currentBlockHeight.toNat + 1
  count : (chainTransactions blocks).length ≤ maxNumTxnPerBlock * blocks.length
  signed : ∀ txn ∈ chainTransactions blocks, ∀ addr nonce, nonceFrom env addr txn = some nonce →
    ∃ key, Transaction.SignedBy env txn addr key
  nonces : ∀ addr, addr ≠ donationAddress → Consecutive 0 (noncesFrom env addr (chainTransactions blocks))
  account : ∀ addr, addr ≠ donationAddress →
    ledger.getNonce addr = UInt64.ofNat (noncesFrom env addr (chainTransactions blocks)).length
  stored : ∀ hash, (ledger.db.transactions hash).isSome = true ↔
    hash ∈ (chainTransactions blocks).map (Transaction.hash env)
  hashes : ((chainTransactions blocks).map (Transaction.hash env)).Nodup

variable {env : Env} {config : Config} {cs cs' : ChainStore} {b : Block} {blocks : List Block}
  {genesisSignerPk packedCoinbase : Bytes}

theorem chainTransactions_append : chainTransactions (blocks ++ [b]) = chainTransactions blocks ++ b.transactions := by
  simp [chainTransactions]

theorem noncesFrom_append {addr : Uint160} {front back : List Transaction} :
    noncesFrom env addr (front ++ back) = noncesFrom env addr front ++ noncesFrom env addr back :=
  List.filterMap_append

variable {ledger : Ledger}

theorem Sequenced.replayLaw (sequenced : Sequenced env ledger blocks) : ReplayLaw env ledger.toChainStore blocks := by
  have short (addr : Uint160) : (noncesFrom env addr (chainTransactions blocks)).length < 2 ^ 64 := by
    have most := length_noncesFrom_le env addr (chainTransactions blocks)
    have count := sequenced.count
    have height := ledger.currentBlockHeight.toNat_lt
    rw [sequenced.length] at count
    unfold maxNumTxnPerBlock at count
    omega
  refine ⟨sequenced.signed, fun addr other => ?_, fun addr other => ?_, sequenced.hashes⟩
  · have counted := (sequenced.nonces addr other).toNat (by simpa using short addr)
    rwa [UInt64.toNat_zero, ← List.range_eq_range'] at counted
  · rw [sequenced.account addr other, UInt64.toNat_ofNat']
    exact Nat.mod_eq_of_lt (short addr)

theorem sequenced_genesis (roots : RootsFaithful env)
    (encoded : unpack env ⟨.coinbase, packedCoinbase⟩ = .ok (.coinbase genesisCoinbase))
    (initialized : newBlockchainWithGenesisBlock env config genesisSignerPk packedCoinbase = .ok (cs, b)) :
    ∃ ledger : Ledger, ledger.toChainStore = cs ∧ Sequenced env ledger [b] := by
  obtain ⟨zero, transactions, _, saved⟩ := newBlockchain_saved initialized
  obtain ⟨_, _, started, run, built⟩ := generateStateRoot_genesis zero transactions saved.generated
  obtain ⟨_, nonces, _, noNil, _⟩ := initGenesis_eq_ok started
  have noNil := (StateDB.kept_noNil env).spendTransaction noNil run
  have listed : chainTransactions [b] = (genesisBlockInit env genesisSignerPk packedCoinbase).transactions := by
    rw [chainTransactions, List.flatMap_singleton, transactions]
  have unsent (addr : Uint160) : noncesFrom env addr (chainTransactions [b]) = [] := by
    simp [listed, genesisBlockInit, noncesFrom, nonceFrom, encoded, checksNonce]
  have unused {addr : Uint160} (other : addr ≠ donationAddress) : cs.getNonce addr = 0 := by
    have sender : Transaction.programHash env (.coinbase genesisCoinbase) = donationAddress := bytesToUint160_toArray _
    change cs.states.getNonce addr = 0
    rw [built, StateDB.getNonce_finalize noNil, getNonce_spendTransaction encoded run, nonces, sender]
    simp [other]
  refine ⟨saved.ledger roots, rfl, ?_, ?_, ?_, fun addr _ => ?_, fun addr other => ?_, fun hash => ?_, ?_⟩
  · change 1 = cs.currentBlockHeight.toNat + 1
    rw [saved.height, zero]
    rfl
  · rw [listed]
    exact (by decide : 1 ≤ maxNumTxnPerBlock * 1)
  · simp [listed, genesisBlockInit, nonceFrom, encoded, checksNonce]
  · rw [unsent]
    trivial
  · rw [unsent]
    exact unused other
  · change (cs.db.transactions hash).isSome = true ↔ _
    rw [saved.transactions, putTransactions_isSome, chainTransactions, List.flatMap_singleton]
    simp [ChainStore.new]
  · simp [listed, genesisBlockInit]

/-- What a block that is accepted and saved does to the nonces: its transactions have the expected ones, and the ledger
then expects the next ones. -/
structure CountsNonces (env : Env) (config : Config) (cs : ChainStore) (b : Block) (cs' : ChainStore) : Prop where
  verified : ∀ txn ∈ b.transactions, ∃ message, Verified env config txn b.height message
  expected : ∀ addr, Consecutive (cs.getNonce addr) (noncesFrom env addr b.transactions)
  counted : ∀ addr, addr ≠ donationAddress →
    cs'.getNonce addr = cs.getNonce addr + UInt64.ofNat (noncesFrom env addr b.transactions).length

theorem Extends.countsNonces (step : Extends env config ledger.toChainStore b cs') :
    CountsNonces env config ledger.toChainStore b cs' := by
  obtain ⟨first, rest, _, _, _, _, _, accepted⟩ := transactionCheck_accepted step.accepted
  obtain ⟨_, saved⟩ := step.isSaved
  have verified : ∀ txn ∈ first :: rest, ∃ message, Verified env config txn b.height message := by
    intro txn member
    obtain ⟨_, _, turn⟩ := checkTransactions_forall accepted.checked txn member
    exact verifyTransaction_verified (checkTransaction_eq_ok.mp turn).1
  have checked := checkTransactions_foldlM accepted.checked
  have run := accepted.run
  rw [← accepted.transactions] at checked run verified
  refine ⟨verified, fun addr => checkTransactions_expected addr checked, fun addr other => ?_⟩
  change cs'.states.getNonce addr = _
  rw [accepted.states_saved saved, (accepted.reads_finalize _ _).2, getNonce_spendTransactions other verified run,
    ledger.getNonce_start accepted.started]

theorem Sequenced.saved (sequenced : Sequenced env ledger blocks) (roots : RootsFaithful env)
    (step : Extends env config ledger.toChainStore b cs') :
    ∃ ledger' : Ledger, ledger'.toChainStore = cs' ∧ Sequenced env ledger' (blocks ++ [b]) := by
  obtain ⟨verified, expected, nonce⟩ := step.countsNonces
  obtain ⟨_, _, _, _, _, _, _, accepted⟩ := transactionCheck_accepted step.accepted
  obtain ⟨_, saved⟩ := step.isSaved
  have checked := checkTransactions_foldlM accepted.checked
  rw [← accepted.transactions] at checked
  have fresh : ∀ txn ∈ b.transactions, (ledger.db.transactions (Transaction.hash env txn)).isSome = false := by
    intro txn member
    obtain ⟨message, ok⟩ := verified txn member
    rw [accepted.transactions] at member
    obtain ⟨_, _, turn⟩ := checkTransactions_forall accepted.checked txn member
    exact ((verifyTransactionWithLedger_eq_ok ok.unpacked).mp (checkTransaction_eq_ok.mp turn).2.2.1).1
  refine ⟨saved.ledger roots, rfl, ?_, ?_, ?_, fun addr other => ?_, fun addr other => ?_, fun hash => ?_, ?_⟩
  · change (blocks ++ [b]).length = cs'.currentBlockHeight.toNat + 1
    rw [saved.height, step.next, toNat_next (step.next ▸ accepted.coinbaseOk.nonzero), List.length_append,
      sequenced.length, List.length_singleton]
  · have few := accepted.count
    have count := sequenced.count
    rw [chainTransactions_append, List.length_append, List.length_append, List.length_singleton, Nat.mul_succ]
    omega
  · intro txn member
    rw [chainTransactions_append, List.mem_append] at member
    rcases member with earlier | later
    · exact sequenced.signed txn earlier
    · obtain ⟨_, ok⟩ := verified txn later
      exact fun addr nonce sent => ok.signed_of_nonceFrom sent
  · rw [chainTransactions_append, noncesFrom_append, consecutive_append, UInt64.zero_add]
    refine ⟨sequenced.nonces addr other, ?_⟩
    rw [← sequenced.account addr other]
    exact expected addr
  · change cs'.getNonce addr = _
    rw [nonce addr other, sequenced.account addr other, chainTransactions_append, noncesFrom_append, List.length_append,
      UInt64.ofNat_add]
  · change (cs'.db.transactions hash).isSome = true ↔ _
    rw [saved.transactions, putTransactions_isSome, sequenced.stored, chainTransactions_append, List.map_append,
      List.mem_append]
  · obtain ⟨nodup, _⟩ := checkTransactions_nodup checked
    rw [chainTransactions_append, List.map_append]
    refine sequenced.hashes.append nodup fun hash earlier later => ?_
    obtain ⟨txn, member, rfl⟩ := List.mem_map.mp later
    have known := (sequenced.stored _).mpr earlier
    rw [fresh txn member] at known
    exact absurd known (by simp)

theorem Chain.sequenced (chain : Chain env config genesisSignerPk packedCoinbase cs blocks) (roots : RootsFaithful env)
    (encoded : unpack env ⟨.coinbase, packedCoinbase⟩ = .ok (.coinbase genesisCoinbase)) :
    ∃ ledger : Ledger, ledger.toChainStore = cs ∧ Sequenced env ledger blocks := by
  induction chain with
  | genesis initialized => exact sequenced_genesis roots encoded initialized
  | extend _ step ih =>
    obtain ⟨_, rfl, sequenced⟩ := ih
    exact sequenced.saved roots step

/-- Along every chain of blocks, no transaction is replayed. -/
theorem replay_protected (roots : RootsFaithful env)
    (encoded : unpack env ⟨.coinbase, packedCoinbase⟩ = .ok (.coinbase genesisCoinbase))
    (chain : Chain env config genesisSignerPk packedCoinbase cs blocks) : ReplayLaw env cs blocks := by
  obtain ⟨ledger, rfl, sequenced⟩ := chain.sequenced roots encoded
  exact sequenced.replayLaw

namespace FirstBlocks

theorem replay_protected_secondBlock :
    ReplayLaw tables.env secondStore ([genesisBlock, firstBlock] ++ [secondBlock]) :=
  replay_protected rootsFaithful (by decide +kernel) (.extend chain extends_secondBlock)

end FirstBlocks

end Nkn
