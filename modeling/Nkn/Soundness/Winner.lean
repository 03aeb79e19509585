import Nkn.Proofs.Blockchain
import Nkn.Soundness.Chain

/-! # The winner of a block

The winner hash of a header names a transaction whose sigchain is cached after the block is stored. No check looks at the
type of that transaction. -/

namespace Nkn

open Go Outcome Store ChainStore

variable {env : Env} {config : Config} {cs store : ChainStore} {b : Block} {hash : Uint256}

/-- The transaction that a hash names once a block is stored: the last one of the block with that hash, or else the one
of the ledger. -/
def namedTransaction (env : Env) (cs : ChainStore) (b : Block) (hash : Uint256) : Option Transaction :=
  (b.transactions.reverse.find? fun txn => Transaction.hash env txn = hash).or ((cs.db.transactions hash).map Prod.snd)

theorem putTransactions_eq : (putTransactions env cs.db.transactions b hash).map Prod.snd = namedTransaction env cs b hash := by
  unfold putTransactions namedTransaction
  generalize cs.db.transactions = stored
  -- the block's transactions are written in turn, so that the search for the last one ends with the first
  induction b.transactions generalizing stored with
  | nil => rfl
  | cons txn _ ih =>
    rw [List.foldl_cons, ih, List.reverse_cons, List.find?_append, Option.or_assoc, Function.update_apply]
    congr 1
    by_cases same : Transaction.hash env txn = hash
    · simp [same]
    · simp [same, Ne.symm same]

def WinnerIsSigChain (env : Env) (cs : ChainStore) (b : Block) : Prop :=
  ∃ hash : Uint256, b.header.unsignedHeader.winnerHash = hash.toArray ∧
    (hash = emptyUint256 ∨ ∃ txn payload, namedTransaction env cs b hash = some txn ∧
      unpack env txn.unsignedTx.payload = .ok (.sigChainTxn payload) ∧ (env.codec.sigChain payload.sigChain).isSome = true)

/-- The winner hash is empty or names a transaction that unpacks, and whose sigchain decodes if it is a SIG_CHAIN_TXN
one. -/
def WinnerResolves (env : Env) (cs : ChainStore) (b : Block) : Prop :=
  ∃ hash : Uint256, b.header.unsignedHeader.winnerHash = hash.toArray ∧
    (hash = emptyUint256 ∨ ∃ txn message, namedTransaction env cs b hash = some txn ∧
      unpack env txn.unsignedTx.payload = .ok message ∧
      ∀ payload, message = .sigChainTxn payload → (env.codec.sigChain payload.sigChain).isSome = true)

theorem unpack_returns (payload : Pb.Payload) : Returns (unpack env payload) := by
  unfold unpack
  cases payload.type <;> simp only [Returns, fail] <;> cases Option.map _ _ <;> trivial

theorem uint256ParseFromBytes_returns (f : Bytes) : Returns (uint256ParseFromBytes f) := by
  unfold uint256ParseFromBytes
  split_ifs <;> trivial

def cacheMessage (env : Env) (store : ChainStore) (hash : Uint256) : Pb.Message → Outcome ChainStore
  | .sigChainTxn sigChainTxn => do
    let _ ← parsed (env.codec.sigChain sigChainTxn.sigChain)
    .ok { store with sigChainCache := store.sigChainCache.store hash sigChainTxn.sigChain }
  | _ => crash "interface conversion"

theorem cacheMessage_succeeds_iff {message : Pb.Message} : (∃ done, cacheMessage env store hash message = .ok done) ↔
    ∃ payload, message = .sigChainTxn payload ∧ (env.codec.sigChain payload.sigChain).isSome = true := by
  cases message with
  | sigChainTxn _ => simp [cacheMessage, bind_eq_ok, Option.isSome_iff_exists]
  | _ => simp [cacheMessage]

theorem cacheMessage_fails_iff {message : Pb.Message} : Fails (cacheMessage env store hash message) ↔
    ∃ payload, message = .sigChainTxn payload ∧ env.codec.sigChain payload.sigChain = none := by
  cases message with
  | sigChainTxn _ =>
    simp [cacheMessage, Fails.bind_iff, parsed, Fails.orFail_iff]
  | _ => simp [cacheMessage]

section

variable (stored : store.db.transactions = putTransactions env cs.db.transactions b)
include stored

theorem addHeaderSigChainToCache_eq (winner : b.header.unsignedHeader.winnerHash = hash.toArray) :
    store.addHeaderSigChainToCache env b.header =
      if hash = emptyUint256 then .ok store
      else orFail s!"sigchain txn {text hash.toArray} not found in ledger" (namedTransaction env cs b hash) >>=
        fun txn => unpack env txn.unsignedTx.payload >>= cacheMessage env store hash := by
  rw [addHeaderSigChainToCache, uint256ParseFromBytes_eq_ok.mpr winner, ok_bind, ← putTransactions_eq, ← stored]
  congr 1
  cases store.db.transactions hash <;> rfl

theorem addHeaderSigChainToCache_succeeds_iff :
    (∃ done, store.addHeaderSigChainToCache env b.header = .ok done) ↔ WinnerIsSigChain env cs b := by
  constructor
  · rintro ⟨done, cached⟩
    obtain ⟨hash, parsed, -⟩ := bind_eq_ok.mp cached
    have winner := uint256ParseFromBytes_eq_ok.mp parsed
    refine ⟨hash, winner, ?_⟩
    rw [addHeaderSigChainToCache_eq stored winner] at cached
    split_ifs at cached with empty
    · exact .inl empty
    · obtain ⟨txn, named, cached⟩ := bind_eq_ok.mp cached
      obtain ⟨_, unpacked, cached⟩ := bind_eq_ok.mp cached
      obtain ⟨payload, rfl, decodes⟩ := cacheMessage_succeeds_iff.mp ⟨done, cached⟩
      exact .inr ⟨txn, payload, orFail_eq_ok.mp named, unpacked, decodes⟩
  · rintro ⟨_, winner, resolved⟩
    rw [addHeaderSigChainToCache_eq stored winner]
    split_ifs with empty
    · exact ⟨store, rfl⟩
    · obtain ⟨txn, payload, named, unpacked, decodes⟩ := resolved.resolve_left empty
      obtain ⟨done, cached⟩ := cacheMessage_succeeds_iff.mpr ⟨payload, rfl, decodes⟩
      exact ⟨done, bind_eq_ok.mpr ⟨txn, orFail_eq_ok.mpr named, bind_eq_ok.mpr ⟨_, unpacked, cached⟩⟩⟩

theorem addHeaderSigChainToCache_fails_iff :
    Fails (store.addHeaderSigChainToCache env b.header) ↔ ¬ WinnerResolves env cs b := by
  by_cases parses : ∃ hash : Uint256, b.header.unsignedHeader.winnerHash = hash.toArray
  · obtain ⟨hash, winner⟩ := parses
    have resolves_iff : WinnerResolves env cs b ↔ hash = emptyUint256 ∨ ∃ txn message,
        namedTransaction env cs b hash = some txn ∧ unpack env txn.unsignedTx.payload = .ok message ∧
        ∀ payload, message = .sigChainTxn payload → (env.codec.sigChain payload.sigChain).isSome = true := by
      refine ⟨?_, fun resolved => ⟨hash, winner, resolved⟩⟩
      rintro ⟨hash', winner', resolved⟩
      obtain rfl : hash = hash' := Word.toArray_inj.mp (winner.symm.trans winner')
      exact resolved
    rw [resolves_iff, addHeaderSigChainToCache_eq stored winner]
    split_ifs with empty
    · simp [empty]
    · cases named : namedTransaction env cs b hash with
      | none => simp [empty, Fails.bind_iff, Fails.orFail_iff]
      | some txn =>
        cases unpacked : unpack env txn.unsignedTx.payload with
        | error _ =>
          have fails : Fails (unpack env txn.unsignedTx.payload) :=
            (Fails.iff_of_returns (unpack_returns _)).mpr (by simp [unpacked])
          refine iff_of_true (Fails.bind_iff.mpr (.inr ⟨txn, rfl, Fails.bind_iff.mpr (.inl fails)⟩)) ?_
          simp [empty, unpacked]
        | ok _ =>
          simp [empty, orFail, unpacked, cacheMessage_fails_iff]
  · have fails : Fails (uint256ParseFromBytes b.header.unsignedHeader.winnerHash) :=
      (Fails.iff_of_returns (uint256ParseFromBytes_returns _)).mpr fun hash parsed =>
        parses ⟨hash, uint256ParseFromBytes_eq_ok.mp parsed⟩
    refine iff_of_true (Fails.bind_iff.mpr (.inl fails)) ?_
    rintro ⟨hash, winner, -⟩
    exact parses ⟨hash, winner⟩

end

structure PassesChecks (env : Env) (config : Config) (cs : ChainStore) (b : Block) : Prop where
  header : headerCheck env config cs b.header = .ok ()
  txns : transactionCheck env config cs b = .ok ()

/-- The winner can be cached from every store that holds the transactions of the ledger and the block: in `SaveBlock`
and after a restart. -/
def CachesWinner (env : Env) (cs : ChainStore) (b : Block) : Prop :=
  ∀ store : ChainStore, store.db.transactions = putTransactions env cs.db.transactions b →
    ∃ done, store.addHeaderSigChainToCache env b.header = .ok done

theorem persistBlock_transactions {persisted : ChainStore} (fastSync : Bool)
    (persists : cs.persistBlock env config b fastSync = .ok persisted) :
    (persisted.moveTo env config b).db.transactions = putTransactions env cs.db.transactions b := by
  cases fastSync with
  | false =>
    obtain ⟨_, _, _, -, -, -, rfl⟩ := persist_eq_ok persists
    rfl
  | true =>
    obtain ⟨-, -, built⟩ := bind_eq_ok.mp persists
    obtain rfl := Except.ok.inj built
    rfl

theorem cachesWinner_iff : CachesWinner env cs b ↔ WinnerIsSigChain env cs b := by
  constructor
  · intro caches
    let stored : ChainStore := { cs with db := { cs.db with transactions := putTransactions env cs.db.transactions b } }
    have transactions : stored.db.transactions = putTransactions env cs.db.transactions b := rfl
    exact (addHeaderSigChainToCache_succeeds_iff transactions).mp (caches stored transactions)
  · intro winner store stored
    exact (addHeaderSigChainToCache_succeeds_iff stored).mpr winner

/-- Every transaction of the ledger has a payload that unpacks. -/
def Unpacks (env : Env) (cs : ChainStore) : Prop :=
  ∀ hash entry, cs.db.transactions hash = some entry → ∃ message, unpack env entry.2.unsignedTx.payload = .ok message

theorem spendBlock_unpacks {states states' : StateDB} (spent : spendBlock env config cs states b = .ok states') :
    ∀ txn ∈ b.transactions, ∃ message, unpack env txn.unsignedTx.payload = .ok message := by
  have one {totalFee genesis height states txn states'}
      (spent : spendTransaction env config cs totalFee genesis height states txn = .ok states') :
      ∃ message, unpack env txn.unsignedTx.payload = .ok message := by
    obtain ⟨message, unpacked, -⟩ := bind_eq_ok.mp spent
    exact ⟨message, unpacked⟩
  unfold spendBlock at spent
  dsimp only at spent
  split_ifs at spent
  · cases transactions : b.transactions with
    | nil => simp
    | cons first rest =>
      simp only [transactions] at spent
      obtain ⟨_, spentFirst, spentRest⟩ := bind_eq_ok.mp spent
      exact List.forall_mem_cons.mpr ⟨one spentFirst, foldlM_forall spentRest one⟩
  · obtain ⟨_, spent, -⟩ := bind_eq_ok.mp spent
    exact foldlM_forall spent one

/-- Executing a block unpacks all its transactions before they are stored. -/
theorem Unpacks.saved {root : Uint256} {cs' : ChainStore} (unpacks : Unpacks env cs) (saved : Saved env config cs b root cs') :
    Unpacks env cs' := by
  intro hash entry stored
  have executed : ∃ states states', spendBlock env config cs states b = .ok states' := by
    have generated := saved.generated
    simp only [generateStateRoot, bind_eq_ok] at generated
    obtain ⟨_, -, _, -, _, -, _, spent, -⟩ := generated
    exact ⟨_, _, spent⟩
  obtain ⟨_, _, spent⟩ := executed
  have named : namedTransaction env cs b hash = some entry.2 := by
    rw [← putTransactions_eq, ← saved.transactions, stored]
    rfl
  rcases Option.or_eq_some_iff.mp named with found | ⟨-, found⟩
  · exact spendBlock_unpacks spent _ (List.mem_reverse.mp (List.mem_of_find?_eq_some found))
  · obtain ⟨earlier, stored, same⟩ := Option.map_eq_some_iff.mp found
    exact same ▸ unpacks hash earlier stored

theorem Chain.unpacks {genesisSignerPk packedCoinbase : Bytes} {blocks : List Block}
    (chain : Chain env config genesisSignerPk packedCoinbase cs blocks) : Unpacks env cs := by
  induction chain with
  | genesis initialized =>
    obtain ⟨-, -, _, saved⟩ := newBlockchain_saved initialized
    have nothing : Unpacks env .new := fun _ _ stored => by cases stored
    exact nothing.saved saved
  | extend _ step unpacks =>
    obtain ⟨_, saved⟩ := step.isSaved
    exact unpacks.saved saved

theorem transactionCheck_winner (passed : transactionCheck env config cs b = .ok ()) : checkWinner env cs b = .ok () := by
  simp only [transactionCheck, bind_eq_ok] at passed
  obtain ⟨_, -, _, -, _, -, _, -, _, -, _, -, _, -, _, winner, -⟩ := passed
  exact winner

theorem namedTransaction_exists (nonempty : hash ≠ emptyUint256)
    (found : ¬(hash ≠ emptyUint256 ∧ hash ∉ b.transactions.map (Transaction.hash env) ∧
      (cs.db.transactions hash).isNone = true)) : ∃ txn, namedTransaction env cs b hash = some txn := by
  rw [← Option.isSome_iff_exists, namedTransaction, Option.isSome_or, Bool.or_eq_true]
  by_cases member : hash ∈ b.transactions.map (Transaction.hash env)
  · obtain ⟨txn, among, same⟩ := List.mem_map.mp member
    exact .inl (List.find?_isSome.mpr ⟨txn, List.mem_reverse.mpr among, decide_eq_true same⟩)
  · refine .inr ?_
    rw [Option.isSome_map, ← Option.not_isNone, Bool.not_eq_true']
    exact Bool.eq_false_iff.mpr fun absent => found ⟨nonempty, member, absent⟩

theorem unpack_sigChainTxn {payload : Pb.Payload} {sigChainTxn : Pb.SigChainTxn}
    (unpacked : unpack env payload = .ok (.sigChainTxn sigChainTxn)) :
    env.codec.sigChainTxn payload.data = some sigChainTxn := by
  have kind : Pb.PayloadType.sigChainTxn = payload.type := unpack_type unpacked
  simpa [unpack, ← kind] using unpacked

theorem Unpacks.named {txn : Transaction} (unpacks : Unpacks env cs) (passed : transactionCheck env config cs b = .ok ())
    (named : namedTransaction env cs b hash = some txn) : ∃ message, unpack env txn.unsignedTx.payload = .ok message := by
  rcases Option.or_eq_some_iff.mp named with found | ⟨-, found⟩
  · obtain ⟨_, _, _, _, _, -, -, -, checked, -⟩ := transactionCheck_eq_ok passed
    obtain ⟨_, _, turn⟩ := checkTransactions_forall checked txn (List.mem_reverse.mp (List.mem_of_find?_eq_some found))
    obtain ⟨message, verified⟩ := verifyTransaction_verified (checkTransaction_eq_ok.mp turn).1
    exact ⟨message, verified.unpacked⟩
  · obtain ⟨entry, stored, same⟩ := Option.map_eq_some_iff.mp found
    exact same ▸ unpacks hash entry stored

/-- What neither check looks at: the transaction that the winner hash names, if it is not empty, has the type of a sigchain
transaction, and the bytes of its sigchain decode. -/
def NamesSigChain (env : Env) (cs : ChainStore) (b : Block) : Prop :=
  ∀ hash txn, b.header.unsignedHeader.winnerHash = hash.toArray → hash ≠ emptyUint256 →
    namedTransaction env cs b hash = some txn → txn.unsignedTx.payload.type = .sigChainTxn ∧
      ∀ payload, env.codec.sigChainTxn txn.unsignedTx.payload.data = some payload →
        (env.codec.sigChain payload.sigChain).isSome = true

/-- The checks see to it that the winner hash is a hash, that it names a transaction, and that its payload unpacks. -/
theorem winnerIsSigChain_iff (unpacks : Unpacks env cs) (passed : transactionCheck env config cs b = .ok ()) :
    WinnerIsSigChain env cs b ↔ NamesSigChain env cs b := by
  constructor
  · rintro ⟨hash, winner, resolved⟩ hash' txn winner' nonempty named
    obtain rfl : hash = hash' := Word.toArray_inj.mp (winner.symm.trans winner')
    obtain ⟨txn', payload, named', unpacked, decodes⟩ := resolved.resolve_left nonempty
    obtain rfl := Option.mem_unique named named'
    refine ⟨(unpack_type unpacked).symm, fun payload' decoded => ?_⟩
    rw [unpack_sigChainTxn unpacked] at decoded
    exact Option.some.inj decoded ▸ decodes
  · intro names
    obtain ⟨hash, parses, found⟩ := bind_eq_ok.mp (transactionCheck_winner passed)
    have winner := uint256ParseFromBytes_eq_ok.mp parses
    refine ⟨hash, winner, or_iff_not_imp_left.mpr fun nonempty => ?_⟩
    obtain ⟨txn, named⟩ := namedTransaction_exists nonempty (rejectIf_eq_ok.mp found)
    obtain ⟨kind, decodes⟩ := names hash txn winner nonempty named
    obtain ⟨message, unpacked⟩ := unpacks.named passed named
    rw [← unpack_type unpacked] at kind
    cases message with
    | sigChainTxn payload => exact ⟨txn, payload, named, unpacked, decodes payload (unpack_sigChainTxn unpacked)⟩
    | _ => cases kind

/-- An accepted block has a winner of the right type that can be cached, by `SaveBlock` and at every restart, exactly when
`NamesSigChain` holds; then `SaveBlock` succeeds once the block is stored. -/
theorem winner_cached_iff {genesisSignerPk packedCoinbase : Bytes} {blocks : List Block}
    (chain : Chain env config genesisSignerPk packedCoinbase cs blocks) (passes : PassesChecks env config cs b) :
    b.height ≠ 0 ∧ (WinnerIsSigChain env cs b ∧ CachesWinner env cs b ↔ NamesSigChain env cs b) ∧
      (NamesSigChain env cs b → ∀ persisted, cs.persist env config b = .ok persisted →
        (cs.saveBlock env config b).2 = .ok ()) := by
  have iff := winnerIsSigChain_iff chain.unpacks passes.txns
  refine ⟨transactionCheck_nonzero passes.txns, ?_, fun names persisted persists => ?_⟩
  · rw [cachesWinner_iff, and_self, iff]
  · have transactions : (persisted.moveTo env config b).db.transactions = putTransactions env cs.db.transactions b :=
      persistBlock_transactions false persists
    obtain ⟨done, cached⟩ := cachesWinner_iff.mpr (iff.mpr names) _ transactions
    simp [saveBlock, persists, cached]

namespace FirstBlocks

def withWinner (hash : Uint256) : Block := {
  firstBlock with
  header := {
    firstBlock.header with unsignedHeader := { firstBlock.header.unsignedHeader with winnerHash := hash.toArray } } }

theorem winner_cached_iff_firstBlock : CachesWinner tables.env genesisStore firstBlock := by
  have passes : PassesChecks tables.env currentConfig genesisStore firstBlock := ⟨by decide +kernel, by decide +kernel⟩
  refine ((winner_cached_iff (.genesis initialized_eq) passes).2.1.mpr fun hash _ winner nonempty => ?_).2
  exact absurd (Word.toArray_inj.mp winner).symm nonempty

/-- The coinbase transaction of the block is its winner: both checks pass, and `SaveBlock` panics. -/
theorem winner_is_coinbase : PassesChecks tables.env currentConfig genesisStore (withWinner firstTxnHash) ∧
      ¬ WinnerIsSigChain tables.env genesisStore (withWinner firstTxnHash) ∧
      (genesisStore.saveBlock tables.env currentConfig (withWinner firstTxnHash)).2 =
        .error (.panic "interface conversion") := by
  refine ⟨⟨by decide +kernel, by decide +kernel⟩, ?_, by decide +kernel⟩
  rintro ⟨hash, winner, empty | ⟨txn, payload, named, unpacked, -⟩⟩
  · rw [empty] at winner
    exact absurd winner (by decide +kernel)
  · obtain rfl : firstTxnHash = hash := Word.toArray_inj.mp winner
    have coinbase : namedTransaction tables.env genesisStore (withWinner firstTxnHash) firstTxnHash =
        some (coinbaseTxn 1) := by decide +kernel
    obtain rfl := Option.mem_unique coinbase named
    have kinds : Pb.PayloadType.sigChainTxn = .coinbase := unpack_type unpacked
    exact absurd kinds (by decide)

end FirstBlocks

def AllOrNothing (env : Env) (config : Config) (cs : ChainStore) (b : Block) (pruning : Option Pruning)
    (fastSync : Bool) : Prop :=
  ∀ text, (cs.saveBlockWith env config b pruning fastSync).2 = .error (.error text) →
    (cs.saveBlockWith env config b pruning fastSync).1 = cs

/-- Nothing can fail once the block is stored: the winner resolves, and state pruning, if it runs, returns no error.
Pruning does not run in fast sync mode, nor when caching the winner stops with a panic. -/
structure Completes (env : Env) (cs : ChainStore) (b : Block) (pruning : Option Pruning) (fastSync : Bool) : Prop where
  winner : WinnerResolves env cs b
  pruning : WinnerIsSigChain env cs b → fastSync = false → ∀ run ∈ pruning, ¬ Fails run.outcome

theorem saveBlockWith_persisted {persisted : ChainStore} (pruning : Option Pruning) (fastSync : Bool)
    (persists : cs.persistBlock env config b fastSync = .ok persisted) :
    (Fails (cs.saveBlockWith env config b pruning fastSync).2 ↔ ¬ Completes env cs b pruning fastSync) ∧
      (cs.saveBlockWith env config b pruning fastSync).1.currentBlockHash = Block.hash env b := by
  have fails_iff := addHeaderSigChainToCache_fails_iff (persistBlock_transactions fastSync persists)
  have succeeds_iff := addHeaderSigChainToCache_succeeds_iff (persistBlock_transactions fastSync persists)
  cases cached : (persisted.moveTo env config b).addHeaderSigChainToCache env b.header with
  | error _ =>
    have other : ¬ WinnerIsSigChain env cs b := by
      rw [← succeeds_iff, cached]
      simp
    have completes_iff : WinnerResolves env cs b ↔ Completes env cs b pruning fastSync :=
      ⟨fun winner => ⟨winner, fun sigChain => absurd sigChain other⟩, Completes.winner⟩
    rw [cached, completes_iff] at fails_iff
    simp only [saveBlockWith, persists, cached]
    refine ⟨Iff.trans ?_ fails_iff, rfl⟩
    simp [Fails]
  | ok done =>
    have sigChain : WinnerIsSigChain env cs b := succeeds_iff.mp ⟨done, cached⟩
    have winner : WinnerResolves env cs b := by
      rw [cached] at fails_iff
      exact not_not.mp (mt fails_iff.mpr (Fails.not_ok done))
    have completes_iff : Completes env cs b pruning fastSync ↔ (fastSync = false → ∀ run ∈ pruning, ¬ Fails run.outcome) :=
      ⟨fun completes => completes.pruning sigChain, fun pruned => ⟨winner, fun _ => pruned⟩⟩
    obtain ⟨_, rfl⟩ := addHeaderSigChainToCache_eq_ok cached
    have moved : (persisted.moveTo env config b).currentBlockHash = Block.hash env b := rfl
    rw [completes_iff]
    cases pruning with
    | none => simp [saveBlockWith, persists, cached, moved]
    | some _ => cases fastSync <;> simp [saveBlockWith, persists, cached, moved]

/-- `SaveBlock` is all or nothing exactly for the blocks that `persist` rejects and those after which nothing can fail;
saving the last block of the ledger once more apart. -/
theorem saveBlock_allOrNothing_iff (env : Env) (config : Config) (cs : ChainStore) (b : Block)
    (pruning : Option Pruning) (fastSync : Bool) :
    let settled := ∀ persisted, cs.persistBlock env config b fastSync = .ok persisted →
      Completes env cs b pruning fastSync
    (settled → AllOrNothing env config cs b pruning fastSync) ∧
      (Block.hash env b ≠ cs.currentBlockHash → AllOrNothing env config cs b pruning fastSync → settled) := by
  constructor
  · intro settled text fails
    cases persists : cs.persistBlock env config b fastSync with
    | error fault => simp [saveBlockWith, persists]
    | ok persisted =>
      have completes := settled persisted persists
      exact absurd completes ((saveBlockWith_persisted pruning fastSync persists).1.mp ⟨text, fails⟩)
  · intro other kept persisted persists
    obtain ⟨fails_iff, moved⟩ := saveBlockWith_persisted pruning fastSync persists
    by_contra incomplete
    obtain ⟨text, fails⟩ := fails_iff.mpr incomplete
    rw [kept text fails] at moved
    exact other moved.symm

/-- A winner hash that no transaction has: an error is returned, and the block is the last one of the ledger. -/
theorem FirstBlocks.saved_with_unknown_winner : let unknown := withWinner (Word.ofNat 32 1)
    Fails (genesisStore.saveBlockWith tables.env currentConfig unknown none false).2 ∧
      genesisStore.currentBlockHeight = 0 ∧
      (genesisStore.saveBlockWith tables.env currentConfig unknown none false).1.currentBlockHeight = 1 ∧
      ¬ AllOrNothing tables.env currentConfig genesisStore unknown none false := by
  have fails : (genesisStore.saveBlockWith tables.env currentConfig (withWinner (Word.ofNat 32 1)) none false).2 =
      .error (.error s!"sigchain txn {text (Word.ofNat 32 1).toArray} not found in ledger") := by decide +kernel
  have before : genesisStore.currentBlockHeight = 0 := by decide +kernel
  have after : (genesisStore.saveBlockWith tables.env currentConfig (withWinner (Word.ofNat 32 1)) none
      false).1.currentBlockHeight = 1 := by decide +kernel
  refine ⟨⟨_, fails⟩, before, after, fun kept => ?_⟩
  rw [kept _ fails, before] at after
  exact absurd after (by decide)

end Nkn
