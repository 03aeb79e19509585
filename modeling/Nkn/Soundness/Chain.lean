import Nkn.Soundness.Concrete
import Nkn.Proofs.SaveBlock
import Nkn.Soundness.Ledger

/-! # Chains of blocks

A chain starts from the genesis block and grows by blocks that pass `TransactionCheck` on the ledger at the height
after its tip and are then saved. -/

namespace Nkn

open Go Outcome Config Store StateDB Except

def RootsFaithful (env : Env) : Prop := ∀ trie, env.stateRoot trie = emptyUint256 → trie = .empty

theorem RootsFaithful.of_ne {env : Env} (nonzero : ∀ trie, env.stateRoot trie ≠ emptyUint256) : RootsFaithful env :=
  fun trie zero => absurd zero (nonzero trie)

/-- A block is accepted as the next one of a ledger and saved; `SaveBlock` may still return an error after that. -/
structure Extends (env : Env) (config : Config) (cs : ChainStore) (b : Block) (cs' : ChainStore) : Prop where
  accepted : transactionCheck env config cs b = .ok ()
  next : b.height = cs.currentBlockHeight + 1
  persisted : ∃ saved, cs.persist env config b = .ok saved
  saved : cs' = (cs.saveBlock env config b).1

/-- The ledgers reached from the genesis block, with their blocks in order. The genesis block is determined by its
proposer and the encoding of its coinbase. -/
inductive Chain (env : Env) (config : Config) (genesisSignerPk packedCoinbase : Bytes) : ChainStore → List Block → Prop
  | genesis {cs : ChainStore} {b : Block}
      (initialized : newBlockchainWithGenesisBlock env config genesisSignerPk packedCoinbase = .ok (cs, b)) :
      Chain env config genesisSignerPk packedCoinbase cs [b]
  | extend {cs cs' : ChainStore} {blocks : List Block} {b : Block}
      (chain : Chain env config genesisSignerPk packedCoinbase cs blocks) (step : Extends env config cs b cs') :
      Chain env config genesisSignerPk packedCoinbase cs' (blocks ++ [b])

inductive Run (env : Env) (config : Config) (meets : ChainStore → Block → Prop) : ChainStore → ChainStore → Prop
  | refl (cs : ChainStore) : Run env config meets cs cs
  | step {cs cs' cs'' : ChainStore} {b : Block} : Run env config meets cs cs' → Extends env config cs' b cs'' →
      meets cs' b → Run env config meets cs cs''

variable {env : Env} {config : Config} {cs cs' : ChainStore} {b : Block} {root : Uint256}

theorem toNat_next {height : UInt32} (nonzero : height + 1 ≠ 0) : (height + 1).toNat = height.toNat + 1 := by
  have range := height.toNat_lt
  have wraps : height.toNat + 1 ≠ 2 ^ 32 := fun wrap => nonzero (UInt32.toNat_inj.mp (by simp [wrap]))
  rw [UInt32.toNat_add, UInt32.toNat_one, Nat.mod_eq_of_lt (by omega)]

theorem Extends.isSaved (step : Extends env config cs b cs') : ∃ root, Saved env config cs b root cs' := by
  obtain ⟨saved, persisted⟩ := step.persisted
  rw [step.saved]
  exact saveBlock_saved persisted

theorem mirrors_finalize (legacy : Bool) (states : StateDB) :
    Mirrors (states.finalize env legacy true) (states.finalize env legacy true).trie where
  accounts addr := by simp [StateDB.finalize, StateDB.trie, Table.finalize, Table.read]
  nanoPay id := by simp [StateDB.finalize, StateDB.trie, Table.finalize, Table.read]
  assets := by simp [StateDB.finalize, StateDB.trie, StateDB.finalizeAssets, Table.ofStore]

theorem generateStateRoot_finalized {initialized commit : Bool} {states : StateDB}
    (generated : generateStateRoot env config cs b initialized commit = .ok (states, root)) :
    ∃ spent : StateDB, states = spent.finalize env (finalizesLegacyNames config cs) commit ∧ root = env.stateRoot states.trie := by
  simp only [generateStateRoot, bind_eq_ok, ok.injEq, Prod.mk.injEq] at generated
  obtain ⟨_, _, _, _, _, _, spent, _, rfl, rfl⟩ := generated
  exact ⟨spent, rfl, rfl⟩

def Store.Saved.ledger (saved : Saved env config cs b root cs') (roots : RootsFaithful env) : Ledger where
  toChainStore := cs'
  trie := cs'.states.trie
  opens := by
    obtain ⟨_, _, rfl⟩ := generateStateRoot_finalized saved.generated
    simp only [currentTrie, ChainStore.getCurrentBlockStateRoot, saved.currentStateTrie, ChainStore.notFound, orFail,
      ok_bind, ChainStore.openTrie, saved.tries, Function.update_self]
    split_ifs with empty
    · rw [roots _ empty]
    · rfl
  mirrors := by
    obtain ⟨_, built, _⟩ := generateStateRoot_finalized saved.generated
    rw [built]
    exact mirrors_finalize _ _

theorem Accepted.states_saved {first : Transaction} {rest : List Transaction} {coinbase : Pb.Coinbase} {donation : Int64}
    {state : CheckState} {start spent : StateDB}
    (accepted : Accepted env config cs b first rest coinbase donation state start spent)
    (saved : Saved env config cs b root cs') :
    cs'.states = (cleanup b.height spent).finalize env (finalizesLegacyNames config cs) true := by
  have generated := saved.generated
  rw [decide_eq_true accepted.coinbaseOk.nonzero, accepted.generates true] at generated
  exact (Prod.mk.inj (ok.inj generated)).1.symm

section

variable {genesisSignerPk packedCoinbase : Bytes} {header : Pb.UnsignedHeader} {states states' : StateDB}

theorem newBlockchain_saved
    (initialized : newBlockchainWithGenesisBlock env config genesisSignerPk packedCoinbase = .ok (cs, b)) :
    b.height = 0 ∧ b.transactions = (genesisBlockInit env genesisSignerPk packedCoinbase).transactions ∧
      ∃ root, Saved env config .new b root cs := by
  simp only [newBlockchainWithGenesisBlock, bind_eq_ok, ok.injEq, Prod.mk.injEq] at initialized
  obtain ⟨⟨_, _⟩, _, _, initialized, rfl, rfl⟩ := initialized
  exact ⟨rfl, rfl, initLedgerStore_saved rfl initialized⟩

def initialAsset : Asset :=
  ⟨nknAssetName, nknAssetSymbol, initialIssueAmount, nknAssetPrecision, initialIssueAddress⟩

theorem initGenesis_eq_ok (run : initGenesis env (StateDB.new .empty) header = .ok states) :
    (∀ addr, states.getBalance nknAssetID addr = if addr = initialIssueAddress then initialIssueAmount else 0) ∧
      (∀ addr, states.getNonce addr = 0) ∧ states.nanoPay = .ofStore (fun _ => none) ∧ states.accounts.NoNil ∧
      states.assets.read nknAssetID = some initialAsset := by
  simp only [initGenesis, setAsset, bind_eq_ok, rejectIf_eq_ok, exists_const, ok.injEq, updateBalance_addition] at run
  obtain ⟨_, ⟨_, rfl⟩, _, rfl, _, rfl⟩ := run
  refine ⟨fun addr => ?_, fun addr => ?_, rfl, ?_, ?_⟩
  · have nothing : (StateDB.new .empty).getBalance nknAssetID addr = 0 := by
      simp [getBalance, getAccount, StateDB.new, StateTrie.empty]
    rw [getBalance_of_accounts accounts_storeAsset, getBalance_adjust,
      getBalance_of_accounts accounts_storeAsset, getBalance_updateID, nothing, Int64.zero_add]
    simp
  · have nothing : (StateDB.new .empty).getNonce addr = 0 := by
      simp [getNonce, getAccount, StateDB.new, StateTrie.empty]
    rw [getNonce_of_accounts accounts_storeAsset, getNonce_adjust,
      getNonce_of_accounts accounts_storeAsset, getNonce_updateID, nothing]
  · exact ((noNil_new .empty).put _ _).put _ _
  · have other : nknAssetID ≠ gasAssetID := by decide
    exact (Table.read_put _ _ _ _).trans ((if_neg other).trans ((Table.read_put _ _ _ _).trans (if_pos rfl)))

theorem spendTransaction_genesis (txn : Transaction) (noFee : txn.unsignedTx.fee = 0)
    (unpacked : unpack env txn.unsignedTx.payload = .ok (.coinbase genesisCoinbase))
    (run : spendTransaction env config cs 0 true 0 states txn = .ok states') :
    (∀ addr, states'.getBalance nknAssetID addr = states.getBalance nknAssetID addr) ∧
      states'.nanoPay = states.nanoPay ∧ states'.assets = states.assets := by
  obtain ⟨_, unpacked', _, payload⟩ := spendTransaction_eq_ok.mp run
  obtain rfl := ok_unique unpacked' unpacked
  simp only [spendPayload, spendCoinbase, takeDonation, if_true, ok_bind, updateBalance_addition, ne_eq,
    not_true_eq_false, if_false, ok.injEq] at payload
  subst payload
  refine ⟨fun addr => ?_, ?_, ?_⟩
  · rw [getBalance_adjust, getBalance_afterFee, chargedFee_coinbase, noFee]
    have nothing : genesisCoinbase.amount + 0 = 0 := rfl
    rw [nothing]
    split_ifs <;> simp
  · exact nanoPay_afterFee
  · exact assets_afterFee

theorem generateStateRoot_genesis (zero : b.height = 0)
    (transactions : b.transactions = (genesisBlockInit env genesisSignerPk packedCoinbase).transactions)
    (generated : generateStateRoot env config cs b (b.height ≠ 0) true = .ok (states, root)) :
    ∃ start spent, initGenesis env (StateDB.new .empty) b.header.unsignedHeader = .ok start ∧
      spendTransaction env config cs 0 true 0 start ⟨⟨⟨.coinbase, packedCoinbase⟩, 0, 0, []⟩, [⟨[0], [0]⟩]⟩ =
        .ok spent ∧
      states = spent.finalize env (finalizesLegacyNames config cs) true := by
  have early (start : StateDB) : generateIDs env cs start b.header.unsignedHeader = .ok start := by
    have zero : b.header.unsignedHeader.height = 0 := zero
    simp [generateIDs, zero]
  have spends (start : StateDB) : spendBlock env config cs start b = spendTransaction env config cs 0 true 0 start
      ⟨⟨⟨.coinbase, packedCoinbase⟩, 0, 0, []⟩, [⟨[0], [0]⟩]⟩ := by
    simp only [spendBlock, zero, if_true, transactions, genesisBlockInit, spendTransactions, List.foldlM_nil]
    exact bind_pure _
  simp only [zero, ne_eq, not_true_eq_false, decide_false, generateStateRoot, initialTrie, Bool.false_eq_true, if_false,
    initialStates, if_true, ok_bind, bind_eq_ok, ok.injEq, Prod.mk.injEq, early, spends] at generated
  obtain ⟨start, started, spent, run, rfl, _⟩ := generated
  exact ⟨start, spent, started, run, rfl⟩

end

namespace FirstBlocks

theorem initialized_isOk : initialized.isOk = true := by decide +kernel

theorem initialized_eq : newBlockchainWithGenesisBlock tables.env currentConfig Sample.proposerKey packedCoinbase =
    .ok (genesisStore, genesisBlock) := by
  obtain ⟨⟨_, _⟩, opened⟩ := isOk_iff.mp initialized_isOk
  have same : initialized = .ok (genesisStore, genesisBlock) := by
    simp only [genesisStore, genesisBlock, opened, Except.toOption, Option.map_some, Option.getD_some]
  exact same

theorem extends_blocks : Extends tables.env currentConfig genesisStore firstBlock firstStore ∧
    Extends tables.env currentConfig firstStore secondBlock secondStore :=
  ⟨⟨by decide +kernel, by decide +kernel, isOk_iff.mp (by decide +kernel), rfl⟩,
    ⟨by decide +kernel, by decide +kernel, isOk_iff.mp (by decide +kernel), rfl⟩⟩

theorem extends_firstBlock : Extends tables.env currentConfig genesisStore firstBlock firstStore := extends_blocks.1

theorem extends_secondBlock : Extends tables.env currentConfig firstStore secondBlock secondStore := extends_blocks.2

theorem chain : Chain tables.env currentConfig Sample.proposerKey packedCoinbase firstStore [genesisBlock, firstBlock] :=
  .extend (.genesis initialized_eq) extends_firstBlock

theorem rootsFaithful : RootsFaithful tables.env := .of_ne fun trie => by
  simp only [Tables.env, tables]
  split
  · decide
  · split_ifs <;> decide

end FirstBlocks

end Nkn
