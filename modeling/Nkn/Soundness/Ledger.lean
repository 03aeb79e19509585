import Nkn.Proofs.Channels
import Nkn.Proofs.Check

/-! # Ledgers and the execution of a block

A ledger is a chain store whose in-memory state mirrors the state trie of its current root. -/

namespace Nkn

open Go Outcome Config Store Table Except StateDB

structure Mirrors (states : StateDB) (trie : StateTrie) : Prop where
  accounts : ∀ addr, states.accounts.read addr = trie.accounts addr
  nanoPay : ∀ id, (states.nanoPay.read id).getD .empty = (trie.nanoPay id).getD .empty
  assets : states.assets = .ofStore trie.assets

structure Ledger extends ChainStore where
  trie : StateTrie
  opens : currentTrie toChainStore = .ok trie
  mirrors : Mirrors states trie

theorem mirrors_new (trie : StateTrie) : Mirrors (StateDB.new trie) trie where
  accounts _ := read_ofStore _ _
  nanoPay _ := by rw [StateDB.new, read_ofStore]
  assets := rfl

section

variable (env : Env) (config : Config)

def blockStart (cs : ChainStore) (b : Block) : Outcome StateDB := do
  let trie ← currentTrie cs
  generateIDs env cs (StateDB.new trie) b.header.unsignedHeader

def blockTrace (cs : ChainStore) (b : Block) : List Step :=
  match blockStart env cs b with
  | .ok start => trace env config cs (totalFee b.transactions) b.height start b.transactions
  | .error _ => []

/-- What an executed transaction credits to an account: the payout of a coinbase, or the transfer, claim or
registration fee that it pays. -/
def Step.credit (fees : Int64) (addr : Uint160) (step : Step) : Int64 :=
  match unpack env step.txn.unsignedTx.payload with
  | .ok (.coinbase coinbase) => if addr = bytesToUint160 coinbase.recipient then coinbase.amount + fees else 0
  | .ok message => if addr = payee message then outlay step.before message else 0
  | .error _ => 0

def blockCredits (cs : ChainStore) (b : Block) (addr : Uint160) : Int64 :=
  ((blockTrace env config cs b).map (Step.credit env (totalFee b.transactions) addr)).sum

end

variable {env : Env} {config : Config} {cs : ChainStore} {b : Block} {states states' start : StateDB}
  {height : UInt32} {fees : Int64} {txn : Transaction} {txns : List Transaction}

def cleanup (height : UInt32) (states : StateDB) : StateDB :=
  ((states.cleanupNanoPay height).cleanupPubSub height).cleanupNames height

theorem generateStateRoot_eq_ok (commit : Bool) {root : Uint256} (nonzero : b.height ≠ 0) :
    generateStateRoot env config cs b true commit = .ok (states, root) ↔
      ∃ start spent, blockStart env cs b = .ok start ∧
        spendTransactions env config cs (totalFee b.transactions) b.height start b.transactions = .ok spent ∧
        states = (cleanup b.height spent).finalize env (finalizesLegacyNames config cs) commit ∧
        root = env.stateRoot states.trie := by
  have spends (start : StateDB) : spendBlock env config cs start b =
      (do .ok (cleanup b.height
        (← spendTransactions env config cs (totalFee b.transactions) b.height start b.transactions))) := by
    simp only [spendBlock, if_neg nonzero, cleanup]
  simp only [generateStateRoot, initialTrie, initialStates, if_true, if_neg nonzero, blockStart, spends, bind_eq_ok,
    ok.injEq, Prod.mk.injEq, exists_eq_left']
  constructor
  · rintro ⟨trie, opened, start, started, _, ⟨spent, run, rfl⟩, rfl, rfl⟩
    exact ⟨start, spent, ⟨trie, opened, started⟩, run, rfl, rfl⟩
  · rintro ⟨start, spent, ⟨trie, opened, started⟩, run, rfl, rfl⟩
    exact ⟨trie, opened, start, started, _, ⟨spent, run, rfl⟩, rfl, rfl⟩

theorem accounts_cleanup : (cleanup height states).accounts = states.accounts := rfl

structure SameButIDs (states states' : StateDB) : Prop where
  balances : ∀ assetID addr, states'.getBalance assetID addr = states.getBalance assetID addr
  nonces : ∀ addr, states'.getNonce addr = states.getNonce addr
  nanoPay : states'.nanoPay = states.nanoPay
  assets : states'.assets = states.assets
  noNil : states.accounts.NoNil → states'.accounts.NoNil

theorem generateID_sameButIDs {prevBlockHash : Uint256} {randomBeacon : Bytes}
    (run : generateID env prevBlockHash randomBeacon states txn = .ok states') : SameButIDs states states' := by
  have refl : SameButIDs states states := ⟨fun _ _ => rfl, fun _ => rfl, rfl, rfl, id⟩
  unfold generateID at run
  split_ifs at run
  · simp at run
  · obtain ⟨message, _, run⟩ := bind_eq_ok.mp run
    cases message with
    | generateID _ =>
      obtain rfl := ok.inj run
      exact ⟨fun _ _ => by simp, fun _ => by simp, rfl, rfl, fun noNil => noNil.put _ _⟩
    | _ => simp at run
  · exact ok.inj run ▸ refl

variable {header : Pb.UnsignedHeader}

theorem generateIDs_sameButIDs (run : generateIDs env cs states header = .ok states') : SameButIDs states states' := by
  have refl : SameButIDs states states := ⟨fun _ _ => rfl, fun _ => rfl, rfl, rfl, id⟩
  unfold generateIDs at run
  split_ifs at run
  · obtain ⟨_, _, run⟩ := bind_eq_ok.mp run
    refine foldlM_invariant (fun s => SameButIDs states s) run refl fun {_ _ _} _ same turn => ?_
    have next := generateID_sameButIDs turn
    exact ⟨fun assetID addr => (next.balances assetID addr).trans (same.balances assetID addr),
      fun addr => (next.nonces addr).trans (same.nonces addr), next.nanoPay.trans same.nanoPay,
      next.assets.trans same.assets, next.noNil ∘ same.noNil⟩
  · exact ok.inj run ▸ refl

theorem generateIDs_accounts (run : generateIDs env cs states header = .ok states') :
    states' = { states with accounts := states'.accounts } := by
  unfold generateIDs at run
  split_ifs at run
  · obtain ⟨_, _, run⟩ := bind_eq_ok.mp run
    refine foldlM_invariant (fun s => s = { states with accounts := s.accounts }) run rfl fun {before _ _} _ same turn => ?_
    unfold generateID at turn
    split_ifs at turn
    · simp at turn
    · obtain ⟨message, _, turn⟩ := bind_eq_ok.mp turn
      cases message with
      | generateID _ =>
        obtain rfl := ok.inj turn
        rw [same]
        rfl
      | _ => simp at turn
    · exact ok.inj turn ▸ same
  · rw [← ok.inj run]

theorem blockStart_eq_ok (started : blockStart env cs b = .ok start) :
    ∃ trie, currentTrie cs = .ok trie ∧ SameButIDs (StateDB.new trie) start := by
  obtain ⟨trie, opened, assigned⟩ := bind_eq_ok.mp started
  exact ⟨trie, opened, generateIDs_sameButIDs assigned⟩

theorem getBalance_credit {addr : Uint160} {message : Pb.Message}
    (unpacked : unpack env txn.unsignedTx.payload = .ok message) (regular : message.type ≠ .coinbase)
    (other : Transaction.programHash env message ≠ addr) (issuedNKN : (states.assets.stored nknAssetID).isSome = true)
    (run : spendTransaction env config cs fees false height states txn = .ok states') :
    states'.getBalance nknAssetID addr =
      states.getBalance nknAssetID addr + Step.credit env fees addr ⟨states, txn, states'⟩ := by
  have credit : Step.credit env fees addr ⟨states, txn, states'⟩ =
      if addr = payee message then outlay states message else 0 := by
    simp only [Step.credit, unpacked]
    cases message with
    | coinbase _ => exact absurd rfl regular
    | _ => rfl
  rw [getBalance_nkn_spendTransaction unpacked regular issuedNKN run, credit, if_neg other.symm]
  grind

theorem getBalance_credits {addr : Uint160} (issuedNKN : (states.assets.stored nknAssetID).isSome = true)
    (others : ∀ txn ∈ txns, ∃ message, unpack env txn.unsignedTx.payload = .ok message ∧
      message.type ≠ .coinbase ∧ Transaction.programHash env message ≠ addr)
    (run : spendTransactions env config cs fees height states txns = .ok states') :
    states'.getBalance nknAssetID addr = states.getBalance nknAssetID addr +
      ((trace env config cs fees height states txns).map (Step.credit env fees addr)).sum := by
  induction txns generalizing states with
  | nil =>
    obtain rfl := foldlM_nil_eq_ok.mp run
    exact (Int64.add_zero _).symm
  | cons _ _ ih =>
    obtain ⟨middle, first, rest⟩ := foldlM_cons_eq_ok.mp run
    obtain ⟨⟨_, unpacked, regular, other⟩, others⟩ := List.forall_mem_cons.mp others
    have issuedNKN' : (middle.assets.stored nknAssetID).isSome = true := by
      rwa [assets_spendTransaction first]
    rw [ih issuedNKN' others rest, getBalance_credit unpacked regular other issuedNKN first, trace_cons first,
      List.map_cons, List.sum_cons, Int64.add_assoc]

theorem noNil_new (trie : StateTrie) : (StateDB.new trie).accounts.NoNil := noNil_ofStore _

namespace Ledger

variable (ledger : Ledger)

theorem getBalance_new (assetID : Uint256) (addr : Uint160) :
    (StateDB.new ledger.trie).getBalance assetID addr = ledger.states.getBalance assetID addr := by
  simp only [getBalance, getAccount, ledger.mirrors.accounts, StateDB.new, read_ofStore]

variable (started : blockStart env ledger.toChainStore b = .ok start)

include started

theorem blockStart_reads : SameButIDs (StateDB.new ledger.trie) start ∧
      ∀ assetID addr, start.getBalance assetID addr = ledger.states.getBalance assetID addr := by
  obtain ⟨_, opened, same⟩ := blockStart_eq_ok started
  obtain rfl := ok_unique opened ledger.opens
  exact ⟨same, fun assetID addr => (same.balances assetID addr).trans (ledger.getBalance_new assetID addr)⟩

theorem getNonce_start (addr : Uint160) : start.getNonce addr = ledger.getNonce addr := by
  rw [(ledger.blockStart_reads started).1.nonces, ChainStore.getNonce]
  simp only [getNonce, getAccount, ledger.mirrors.accounts, StateDB.new, read_ofStore]

theorem channelBalance_start (channel : Channel) :
    channelBalance start channel = channelBalance ledger.states channel := by
  rw [channelBalance_of_nanoPay (ledger.blockStart_reads started).1.nanoPay, channelBalance, channelBalance,
    ledger.mirrors.nanoPay, StateDB.new, read_ofStore]

end Ledger

/-- An accepted block taken apart: its coinbase and the other transactions, the run of the checks, and the run of
the execution from the state `start` to the state `spent`. -/
structure Accepted (env : Env) (config : Config) (cs : ChainStore) (b : Block) (first : Transaction)
    (rest : List Transaction) (coinbase : Pb.Coinbase) (donation : Int64) (state : CheckState)
    (start spent : StateDB) : Prop where
  transactions : b.transactions = first :: rest
  count : b.transactions.length ≤ maxNumTxnPerBlock
  coinbaseOk : CoinbaseOk env config cs b.height first coinbase donation
  checked : checkTransactions env config cs b.height (first :: rest) = .ok state
  started : blockStart env cs b = .ok start
  run : spendTransactions env config cs (totalFee (first :: rest)) b.height start (first :: rest) = .ok spent

theorem transactionCheck_accepted (accepted : transactionCheck env config cs b = .ok ()) :
    ∃ first rest coinbase donation state start spent,
      Accepted env config cs b first rest coinbase donation state start spent := by
  obtain ⟨first, rest, state, _, _, transactions, kind, count, checked, generated, _⟩ :=
    transactionCheck_eq_ok accepted
  rw [transactions] at checked
  obtain ⟨_, checkedFirst, _⟩ := checkTransactions_cons_eq_ok.mp checked
  obtain ⟨coinbase, donation, ok⟩ := checkTransaction_coinbaseOk kind checkedFirst
  obtain ⟨start, spent, started, run, _⟩ := (generateStateRoot_eq_ok false ok.nonzero).mp generated
  rw [transactions] at run
  exact ⟨first, rest, coinbase, donation, state, start, spent, transactions, count, ok, checked, started, run⟩

namespace Accepted

variable {first : Transaction} {rest : List Transaction} {coinbase : Pb.Coinbase} {donation : Int64}
  {state : CheckState} {spent : StateDB}
  (accepted : Accepted env config cs b first rest coinbase donation state start spent)

include accepted

theorem noNil_cleanup : (cleanup b.height spent).accounts.NoNil := by
  obtain ⟨trie, _, same⟩ := blockStart_eq_ok accepted.started
  exact foldlM_invariant (fun s => s.accounts.NoNil) accepted.run (same.noNil (noNil_new trie))
    fun _ keep turn => (kept_noNil env).spendTransaction keep turn

theorem reads_finalize (legacy commit : Bool) :
    (∀ assetID addr, ((cleanup b.height spent).finalize env legacy commit).getBalance assetID addr =
        spent.getBalance assetID addr) ∧
      ∀ addr, ((cleanup b.height spent).finalize env legacy commit).getNonce addr = spent.getNonce addr := by
  have noNil := accepted.noNil_cleanup
  refine ⟨fun assetID addr => ?_, fun addr => ?_⟩
  · rw [getBalance_finalize noNil, getBalance_of_accounts accounts_cleanup]
  · rw [getNonce_finalize noNil, getNonce_of_accounts accounts_cleanup]

theorem generates (commit : Bool) : generateStateRoot env config cs b true commit =
      .ok ((cleanup b.height spent).finalize env (finalizesLegacyNames config cs) commit,
        env.stateRoot ((cleanup b.height spent).finalize env (finalizesLegacyNames config cs) commit).trie) := by
  have run := accepted.run
  rw [← accepted.transactions] at run
  exact (generateStateRoot_eq_ok commit accepted.coinbaseOk.nonzero).mpr ⟨start, spent, accepted.started, run, rfl, rfl⟩

theorem blockTrace_eq : blockTrace env config cs b =
      trace env config cs (totalFee (first :: rest)) b.height start (first :: rest) := by
  simp only [blockTrace, accepted.started, accepted.transactions]

theorem following : ∀ txn ∈ rest, ∃ message, Verified env config txn b.height message ∧ message.type ≠ .coinbase := by
  obtain ⟨_, _, checkedRest⟩ := checkTransactions_cons_eq_ok.mp accepted.checked
  exact checkFollowing_verified checkedRest

end Accepted

end Nkn
