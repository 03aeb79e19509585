import Nkn.Model.Rollback
import Nkn.Soundness.Chain

/-! # What a rollback leaves behind

A rollback that fails before it opens the earlier state has changed nothing. From then on only the commit of the batch can
still be stopped. -/

namespace Nkn

open Go Outcome Store ChainStore Function

namespace Store.LiveStore

variable {env : Env} {config : Config} {storage : RollbackStorage} {cs : LiveStore} {b : Block}

def previousRoot (storage : RollbackStorage) (cs : LiveStore) (b : Block) : Outcome (Uint256 × Uint256) := do
  rejectIf (b.height = 0) "the genesis block need not be rolled back"
  let prevHash ← uint256ParseFromBytes b.header.unsignedHeader.prevBlockHash
  storage.getHeader
  let prevHead ← ChainStore.notFound ((cs.db.headers prevHash).map TrimmedBlock.header)
  let root ← uint256ParseFromBytes prevHead.unsignedHeader.stateRoot
  .ok (prevHash, root)

def releasesCounts (storage : RollbackStorage) (cs : LiveStore) (b : Block) : Outcome Bool := do
  let releases ← cs.heights.rollbackPruning b.height
  if releases then do
    let _ ← uint256ParseFromBytes b.header.unsignedHeader.stateRoot
    storage.release.outcome
    .ok true
  else .ok false

/-- The store after the state of the block before has been opened and the caches have been rolled back. -/
def reopened (cs : LiveStore) (b : Block) (trie : StateTrie) : LiveStore :=
  { cs with
    states := some (StateDB.new trie)
    headerCache := cs.headerCache.rollbackHeader b.header
    sigChainCache := removeCachedSigChain cs.sigChainCache b.header.unsignedHeader.winnerHash }

def undone (env : Env) (config : Config) (storage : RollbackStorage) (cs : LiveStore) (b : Block) (trie : StateTrie)
    (prevHash root : Uint256) (releases : Bool) : LiveStore :=
  { reopened cs b trie with
    db := rolledBack env config storage cs.db b prevHash root releases
    heights := if releases then { cs.heights with counted := cs.heights.counted.map (· - 1) } else cs.heights
    currentBlockHeight := b.height - 1
    currentBlockHash := prevHash }

variable {prevHash root : Uint256} {trie : StateTrie} {fault : Fault}

theorem previousRoot_eq_ok : previousRoot storage cs b = .ok (prevHash, root) ↔
    b.height ≠ 0 ∧ uint256ParseFromBytes b.header.unsignedHeader.prevBlockHash = .ok prevHash ∧
      storage.getHeader = .ok () ∧ ∃ trimmed, cs.db.headers prevHash = some trimmed ∧
        uint256ParseFromBytes trimmed.header.unsignedHeader.stateRoot = .ok root := by
  simp only [previousRoot, bind_eq_ok, rejectIf_eq_ok, exists_const, Except.ok.injEq, Prod.mk.injEq, ChainStore.notFound,
    orFail_eq_ok, Option.map_eq_some_iff]
  constructor
  · rintro ⟨nonzero, _, parsed, _, read, _, ⟨trimmed, found, rfl⟩, _, parsedRoot, rfl, rfl⟩
    exact ⟨nonzero, parsed, read, trimmed, found, parsedRoot⟩
  · rintro ⟨nonzero, parsed, read, trimmed, found, parsedRoot⟩
    exact ⟨nonzero, prevHash, parsed, (), read, _, ⟨trimmed, found, rfl⟩, root, parsedRoot, rfl, rfl⟩

theorem rollback_of_unread (unread : previousRoot storage cs b = .error fault) :
    rollback env config storage b cs = (.error fault, cs) := by
  simp only [rollback, rollbackStates, Proc.bind_assoc]
  unfold previousRoot at unread
  rcases genesis : rejectIf (b.height = 0) "the genesis block need not be rolled back" with failed | _
  · simp_all
  rcases parsed : uint256ParseFromBytes b.header.unsignedHeader.prevBlockHash with failed | prevHash
  · simp_all
  rcases read : storage.getHeader with failed | _
  · simp_all
  rcases found : ChainStore.notFound ((cs.db.headers prevHash).map TrimmedBlock.header) with failed | prevHead
  · simp_all
  rcases parsedRoot : uint256ParseFromBytes prevHead.unsignedHeader.stateRoot with failed | root
  · simp_all
  · simp_all

theorem rollback_of_unopened (read : previousRoot storage cs b = .ok (prevHash, root))
    (unopened : openTrie storage cs.db root = .error fault) :
    rollback env config storage b cs = (.error fault, { cs with states := none }) := by
  obtain ⟨nonzero, parsed, read, _, found, parsedRoot⟩ := previousRoot_eq_ok.mp read
  simp [rollback, rollbackStates, Proc.bind_assoc, rejectIf, nonzero, parsed, read, found, parsedRoot, unopened,
    ChainStore.notFound, orFail, Except.toOption]

theorem rollback_of_opened (read : previousRoot storage cs b = .ok (prevHash, root))
    (opened : openTrie storage cs.db root = .ok trie) :
    rollback env config storage b cs =
      match (do let releases ← releasesCounts storage cs b; storage.commit; .ok releases : Outcome Bool) with
      | .error fault => (.error fault, reopened cs b trie)
      | .ok releases => (.ok (), undone env config storage cs b trie prevHash root releases) := by
  obtain ⟨nonzero, parsed, read, _, found, parsedRoot⟩ := previousRoot_eq_ok.mp read
  simp only [rollback, rollbackStates, rollbackHeaderCache, rollbackSigChainCache, rollbackRefCounts, commitRollback,
    Proc.bind_assoc, rejectIf, nonzero, parsed, read, found, parsedRoot, opened, ChainStore.notFound, orFail,
    Except.toOption, Proc.lift_ok_bind, Proc.gets_bind, Proc.modify_bind, Proc.pure_bind, if_false, Option.map_some,
    releasesCounts]
  rcases guard : cs.heights.rollbackPruning b.height with failed | releases
  · rfl
  cases releases with
  | false => cases committed : storage.commit <;> rfl
  | true =>
    rcases parsedOwn : uint256ParseFromBytes b.header.unsignedHeader.stateRoot with failed | own
    · rfl
    cases released : storage.release.outcome with
    | error _ => rfl
    | ok _ => cases committed : storage.commit <;> rfl

end Store.LiveStore

open Store.LiveStore

variable {env : Env} {config : Config} {storage : RollbackStorage} {cs : ChainStore} {heights : PruningHeights} {b : Block}

def AllOrNothingRollback (env : Env) (config : Config) (storage : RollbackStorage) (cs : LiveStore) (b : Block) : Prop :=
  ∀ fault cs', rollback env config storage b cs = (.error fault, cs') → cs' = cs

/-- Nothing in memory is to be undone: the open state is that of the block before, and the caches hold neither the header
nor the sigchain of the block. -/
structure NothingToUndo (cs : ChainStore) (b : Block) (trie : StateTrie) : Prop where
  states : cs.states = StateDB.new trie
  headers : cs.headerCache.rollbackHeader b.header = cs.headerCache
  sigChains : removeCachedSigChain cs.sigChainCache b.header.unsignedHeader.winnerHash = cs.sigChainCache

/-- Once the block before has been read, its state opens, and then the counts can be rolled back and the batch committed,
unless nothing in memory is to be undone. -/
def FailsEarly (storage : RollbackStorage) (cs : ChainStore) (heights : PruningHeights) (b : Block) : Prop :=
  ∀ prevHash root, previousRoot storage (.of cs heights) b = .ok (prevHash, root) →
    ∃ trie, openTrie storage cs.db root = .ok trie ∧
      ((∃ releases, releasesCounts storage (.of cs heights) b = .ok releases) ∧ storage.commit = .ok () ∨
        NothingToUndo cs b trie)

theorem reopened_eq_iff {trie : StateTrie} :
    reopened (.of cs heights) b trie = .of cs heights ↔ NothingToUndo cs b trie := by
  constructor
  · intro same
    exact ⟨(Option.some.inj (congrArg LiveStore.states same)).symm, congrArg LiveStore.headerCache same,
      congrArg LiveStore.sigChainCache same⟩
  · rintro ⟨states, headers, sigChains⟩
    have same : (LiveStore.of cs heights).headerCache.rollbackHeader b.header = cs.headerCache := headers
    have same' : removeCachedSigChain (LiveStore.of cs heights).sigChainCache b.header.unsignedHeader.winnerHash =
      cs.sigChainCache := sigChains
    simp only [reopened, same, same', ← states]
    rfl

/-- A rollback is all or nothing exactly when it does not fail after the state of the block before is to be opened. -/
theorem rollback_all_or_nothing_iff (env : Env) (config : Config) (storage : RollbackStorage) (cs : ChainStore)
    (heights : PruningHeights) (b : Block) :
    AllOrNothingRollback env config storage (.of cs heights) b ↔ FailsEarly storage cs heights b := by
  unfold AllOrNothingRollback FailsEarly
  rcases read : previousRoot storage (.of cs heights) b with failed | ⟨prevHash, root⟩
  · rw [rollback_of_unread read]
    simp
  rcases opened : openTrie storage cs.db root with failed | trie
  · rw [rollback_of_unopened read opened]
    simp [opened, LiveStore.of]
  · rw [rollback_of_opened read opened]
    rcases counts : releasesCounts storage (.of cs heights) b with failed | releases
    · simp [opened, reopened_eq_iff]
    rcases committed : storage.commit with failed | _
    · simp [opened, reopened_eq_iff]
    · simp [opened]

def FirstBlocks.prunedStore : ChainStore :=
  { secondStore with
    db := { secondStore.db with tries := fun root => if root = secondRoot then secondStore.db.tries root else none } }

/-- The rollback of the tip fails since the state before it is pruned, and leaves the store without a state. -/
theorem failed_rollback_drops_state : (LiveStore.of FirstBlocks.prunedStore ⟨some 2, some 1⟩).states.isSome = true ∧
    ∃ fault cs, rollback FirstBlocks.tables.env FirstBlocks.currentConfig {} FirstBlocks.secondBlock
      (.of FirstBlocks.prunedStore ⟨some 2, some 1⟩) = (.error fault, cs) ∧ cs.states.isNone = true := by
  have failed : (rollback FirstBlocks.tables.env FirstBlocks.currentConfig {} FirstBlocks.secondBlock
      (.of FirstBlocks.prunedStore ⟨some 2, some 1⟩)).1.isOk = false ∧
      (rollback FirstBlocks.tables.env FirstBlocks.currentConfig {} FirstBlocks.secondBlock
        (.of FirstBlocks.prunedStore ⟨some 2, some 1⟩)).2.states.isNone = true := by
    decide +kernel
  refine ⟨rfl, ?_⟩
  rcases run : rollback FirstBlocks.tables.env FirstBlocks.currentConfig {} FirstBlocks.secondBlock
    (.of FirstBlocks.prunedStore ⟨some 2, some 1⟩) with ⟨fault | _, cs⟩
  · rw [run] at failed
    exact ⟨fault, cs, rfl, failed.2⟩
  · rw [run] at failed
    exact absurd failed.1 (by simp [Except.isOk, Except.toBool])

/-- Two states give the same answer to every query: their tables read alike, and so do their tries. -/
structure SameAnswers (states states' : StateDB) : Prop where
  trie : states.trie = states'.trie
  accounts : ∀ addr, states.accounts.read addr = states'.accounts.read addr
  nanoPay : ∀ id, states.nanoPay.read id = states'.nanoPay.read id
  nanoPayCleanup : ∀ height, states.nanoPayCleanup.read height = states'.nanoPayCleanup.read height
  namesLegacy : ∀ registrant, states.namesLegacy.read registrant = states'.namesLegacy.read registrant
  nameRegistrantsLegacy : ∀ name, states.nameRegistrantsLegacy.read name = states'.nameRegistrantsLegacy.read name
  pubSub : ∀ id, states.pubSub.read id = states'.pubSub.read id
  pubSubCleanup : ∀ height, states.pubSubCleanup.read height = states'.pubSubCleanup.read height
  assets : ∀ assetID, states.assets.read assetID = states'.assets.read assetID
  names : ∀ id, states.names.read id = states'.names.read id
  namesCleanup : ∀ height, states.namesCleanup.read height = states'.namesCleanup.read height

theorem SameAnswers.symm {states states' : StateDB} (same : SameAnswers states states') : SameAnswers states' states :=
  ⟨same.trie.symm, fun k => (same.accounts k).symm, fun k => (same.nanoPay k).symm,
    fun k => (same.nanoPayCleanup k).symm, fun k => (same.namesLegacy k).symm, fun k => (same.nameRegistrantsLegacy k).symm,
    fun k => (same.pubSub k).symm, fun k => (same.pubSubCleanup k).symm, fun k => (same.assets k).symm,
    fun k => (same.names k).symm, fun k => (same.namesCleanup k).symm⟩

/-- A chain store between two blocks: the database records its tip, the header of the tip has the current state root, the
state in memory answers as the trie of that root, and no height above the tip is counted or pruned. -/
structure ConsistentStore (cs : ChainStore) (heights : PruningHeights) (root : Uint256) (trie : StateTrie) : Prop where
  currentBlock : cs.db.currentBlock = some (cs.currentBlockHash, cs.currentBlockHeight)
  currentStateTrie : cs.db.currentStateTrie = some root
  header : ∃ trimmed, cs.db.headers cs.currentBlockHash = some trimmed ∧
    trimmed.header.unsignedHeader.stateRoot = root.toArray
  opens : cs.openTrie root = .ok trie
  states : SameAnswers cs.states (StateDB.new trie)
  counted : ∀ height ∈ heights.counted, height ≤ cs.currentBlockHeight
  pruned : heights.pruningStartHeight ≤ heights.refCountStartHeight

/-- A block that is saved on a store as its next one: it names the tip, its transactions are not in the database, and
neither its hash nor the root of its state collides with those of the tip. -/
structure SavedNext (env : Env) (config : Config) (cs : ChainStore) (b : Block) (root : Uint256) (trie : StateTrie) :
    Prop where
  saved : (cs.saveBlock env config b).2 = .ok ()
  height : b.height = cs.currentBlockHeight + 1
  nonzero : b.height ≠ 0
  prevBlockHash : b.header.unsignedHeader.prevBlockHash = cs.currentBlockHash.toArray
  transactions : ∀ txn ∈ b.transactions, cs.db.transactions (Transaction.hash env txn) = none
  hash : Block.hash env b ≠ cs.currentBlockHash
  root : ∀ states, generateStateRoot env config cs b true true = .ok (states, root) → states.trie = trie

/-- `Rollback` returns, and has restored the database, tries apart, the tip and the answers of the state. -/
structure Restores (env : Env) (config : Config) (cs : ChainStore) (heights : PruningHeights) (b : Block)
    (cs' : LiveStore) : Prop where
  returned : rollback env config {} b (.of (cs.saveBlock env config b).1 heights) = (.ok (), cs')
  headers : cs'.db.headers = cs.db.headers
  blockHashes : cs'.db.blockHashes = cs.db.blockHashes
  transactions : cs'.db.transactions = cs.db.transactions
  donations : cs'.db.donations = cs.db.donations
  currentStateTrie : cs'.db.currentStateTrie = cs.db.currentStateTrie
  currentBlock : cs'.db.currentBlock = cs.db.currentBlock
  height : cs'.currentBlockHeight = cs.currentBlockHeight
  hash : cs'.currentBlockHash = cs.currentBlockHash
  states : ∃ states, cs'.states = some states ∧ SameAnswers states cs.states

/-- The database holds nothing of a block yet, and some counted height is not pruned, if any is counted. -/
structure Unseen (env : Env) (config : Config) (cs : ChainStore) (heights : PruningHeights) (b : Block) : Prop where
  header : cs.db.headers (Block.hash env b) = none
  blockHash : cs.db.blockHashes b.height = none
  donation : ChainStore.fixesDonation config b.height = true → cs.db.donations b.height = none
  heights : heights.refCountStartHeight = 0 ∨ heights.pruningStartHeight ≠ heights.refCountStartHeight

variable {stored : Uint256 → Option (UInt32 × Transaction)}

theorem deleteTransactions_apply {hash : Uint256} : deleteTransactions env stored b hash =
      if hash ∈ b.transactions.map (Transaction.hash env) then none else stored hash := by
  unfold deleteTransactions
  induction b.transactions generalizing stored with
  | nil => simp
  | cons txn _ ih =>
    rw [List.foldl_cons, ih, update_apply]
    by_cases same : hash = Transaction.hash env txn <;> simp [same]

theorem deleteTransactions_putTransactions (new : ∀ txn ∈ b.transactions, stored (Transaction.hash env txn) = none) :
    deleteTransactions env (putTransactions env stored b) b = stored := by
  funext hash
  rw [deleteTransactions_apply]
  split_ifs with member
  · obtain ⟨txn, inside, rfl⟩ := List.mem_map.mp member
    exact (new txn inside).symm
  · exact putTransactions_of_notMem member

theorem update_none_eq_iff {α β : Type} [DecidableEq α] {f : α → Option β} {a : α} {value : Option β} :
    update (update f a value) a none = f ↔ f a = none := by
  rw [update_idem]
  constructor
  · intro same
    rw [← same, update_self]
  · intro none
    rw [← none, update_eq_self]

theorem saveBlock_donations (saved : (cs.saveBlock env config b).2 = .ok ()) :
    ∃ root donation, Saved env config cs b root (cs.saveBlock env config b).1 ∧
      (cs.saveBlock env config b).1.db.donations =
        if fixesDonation config b.height then update cs.db.donations b.height (some donation)
        else cs.db.donations := by
  cases persisted : cs.persist env config b with
  | error _ => simp [saveBlock, persisted] at saved
  | ok _ =>
    obtain ⟨root, kept⟩ := saveBlock_saved persisted
    obtain ⟨_, _, donations, -, -, fixed, rfl⟩ := persist_eq_ok persisted
    have same : (cs.saveBlock env config b).1.db.donations = donations := by
      simp only [saveBlock, persisted] at saved ⊢
      split at saved
      · simp at saved
      · rename_i done cached
        obtain ⟨_, rfl⟩ := addHeaderSigChainToCache_eq_ok cached
        rfl
    rw [same]
    unfold nextDonations at fixed
    split_ifs at fixed with fixes
    · obtain ⟨donation, -, written⟩ := bind_eq_ok.mp fixed
      exact ⟨root, donation, kept, by rw [if_pos fixes, ← Except.ok.inj written]⟩
    · exact ⟨root, ⟨0, 0⟩, kept, by rw [if_neg fixes, ← Except.ok.inj fixed]⟩

theorem ConsistentStore.withHeaders {root : Uint256} {trie : StateTrie} (consistent : ConsistentStore cs heights root trie)
    {headers : Uint256 → Option TrimmedBlock} (blockHashes : UInt32 → Option Uint256)
    (kept : headers cs.currentBlockHash = cs.db.headers cs.currentBlockHash) :
    ConsistentStore { cs with db := { cs.db with headers, blockHashes } } heights root trie := by
  obtain ⟨trimmed, found, stateRoot⟩ := consistent.header
  exact ⟨consistent.currentBlock, consistent.currentStateTrie, ⟨trimmed, kept.trans found, stateRoot⟩, consistent.opens,
    consistent.states, consistent.counted, consistent.pruned⟩

section

variable {root : Uint256} {trie : StateTrie} (consistent : ConsistentStore cs heights root trie)

include consistent

theorem ConsistentStore.rollbackPruning_eq (height : b.height = cs.currentBlockHeight + 1) (nonzero : b.height ≠ 0) :
    (heights.refCountStartHeight = 0 ∨ heights.pruningStartHeight ≠ heights.refCountStartHeight →
        heights.rollbackPruning b.height = .ok false) ∧
      (¬ (heights.refCountStartHeight = 0 ∨ heights.pruningStartHeight ≠ heights.refCountStartHeight) →
        ∃ fault, heights.rollbackPruning b.height = .error fault) := by
  have ordered : ¬ heights.refCountStartHeight < heights.pruningStartHeight := UInt32.not_lt.mpr consistent.pruned
  have below : heights.refCountStartHeight ≠ 0 → heights.refCountStartHeight - 1 < b.height := by
    intro counted
    cases reached : heights.counted with
    | none => simp [PruningHeights.refCountStartHeight, reached] at counted
    | some last =>
      have last_le := consistent.counted last reached
      rw [height] at nonzero ⊢
      simp only [PruningHeights.refCountStartHeight, reached, Option.elim_some, UInt32.add_sub_cancel]
      rw [UInt32.lt_iff_toNat_lt, toNat_next nonzero]
      rw [UInt32.le_iff_toNat_le] at last_le
      omega
  simp only [PruningHeights.rollbackPruning, rejectIf, if_neg ordered, ok_bind]
  by_cases none : heights.refCountStartHeight = 0
  · rw [if_pos none]
    exact ⟨fun _ => rfl, fun closed => absurd (.inl none) closed⟩
  · rw [if_neg none]
    refine ⟨fun allowed => ?_, fun closed => ?_⟩
    · rw [if_neg (allowed.resolve_left none).symm, ok_bind, if_pos (below none)]
    · rw [if_pos (not_not.mp (not_or.mp closed).2).symm]
      exact ⟨_, rfl⟩

end

/-- On a consistent store, saving the next block and rolling it back restores the store exactly when the database held
nothing of the block and some counted height is not pruned, if any is counted. -/
theorem rollback_inverts_save_iff {root : Uint256} {trie : StateTrie} (consistent : ConsistentStore cs heights root trie)
    (next : SavedNext env config cs b root trie) :
    (∃ cs', Restores env config cs heights b cs') ↔ Unseen env config cs heights b := by
  obtain ⟨root', donation, saved, donations⟩ := saveBlock_donations next.saved
  obtain ⟨trimmed, found, parsedRoot⟩ := consistent.header
  have read : previousRoot {} (.of (cs.saveBlock env config b).1 heights) b = .ok (cs.currentBlockHash, root) := by
    refine previousRoot_eq_ok.mpr ⟨next.nonzero, uint256ParseFromBytes_eq_ok.mpr next.prevBlockHash, rfl, trimmed, ?_,
      uint256ParseFromBytes_eq_ok.mpr parsedRoot⟩
    change (cs.saveBlock env config b).1.db.headers _ = _
    rw [saved.headers, Function.update_of_ne next.hash.symm, found]
  have opened : openTrie {} (LiveStore.of (cs.saveBlock env config b).1 heights).db root = .ok trie := by
    have opens := consistent.opens
    unfold ChainStore.openTrie at opens
    change (if root = emptyUint256 then _ else orFail _ ((cs.saveBlock env config b).1.db.tries root)) = _
    split_ifs at opens ⊢
    · exact opens
    · rw [saved.tries, Function.update_apply]
      split_ifs with same
      · subst same
        have generated := saved.generated
        rw [decide_eq_true next.nonzero] at generated
        rw [next.root _ generated]
        rfl
      · exact opens
  have previous : b.height - 1 = cs.currentBlockHeight := by
    rw [next.height, UInt32.add_sub_cancel]
  obtain ⟨allows, forbids⟩ := consistent.rollbackPruning_eq next.height next.nonzero
  by_cases counts : heights.refCountStartHeight = 0 ∨ heights.pruningStartHeight ≠ heights.refCountStartHeight
  · have releases : releasesCounts {} (.of (cs.saveBlock env config b).1 heights) b = .ok false := by
      change (heights.rollbackPruning b.height >>= _) = _
      rw [allows counts]
      rfl
    have run : rollback env config {} b (.of (cs.saveBlock env config b).1 heights) = _ := rollback_of_opened read opened
    rw [releases] at run
    constructor
    · rintro ⟨cs', restores⟩
      obtain rfl := (Prod.mk.inj (restores.returned.symm.trans run)).2
      have headers := restores.headers
      have blockHashes := restores.blockHashes
      have fixed := restores.donations
      simp only [undone, rolledBack, LiveStore.of, saved.headers, update_none_eq_iff] at headers
      simp only [undone, rolledBack, LiveStore.of, saved.blockHashes, update_none_eq_iff] at blockHashes
      refine ⟨headers, blockHashes, fun fixes => ?_, counts⟩
      simpa only [undone, rolledBack, LiveStore.of, donations, fixes, if_true, update_none_eq_iff] using fixed
    · rintro ⟨header, blockHash, unfixed, -⟩
      refine ⟨_, run, ?_, ?_, ?_, ?_, consistent.currentStateTrie.symm, ?_, previous, rfl,
        _, rfl, consistent.states.symm⟩
      · simp only [undone, rolledBack, LiveStore.of, saved.headers, update_none_eq_iff, header]
      · simp only [undone, rolledBack, LiveStore.of, saved.blockHashes, update_none_eq_iff, blockHash]
      · simp only [undone, rolledBack, LiveStore.of, saved.transactions,
          deleteTransactions_putTransactions next.transactions]
      · simp only [undone, rolledBack, LiveStore.of, donations]
        split_ifs with fixes
        · exact update_none_eq_iff.mpr (unfixed fixes)
        · rfl
      · simp only [undone, rolledBack, previous, consistent.currentBlock]
  · obtain ⟨fault, guarded⟩ := forbids counts
    have releases : releasesCounts {} (.of (cs.saveBlock env config b).1 heights) b = .error fault := by
      change (heights.rollbackPruning b.height >>= _) = _
      rw [guarded]
      rfl
    have run : rollback env config {} b (.of (cs.saveBlock env config b).1 heights) = _ := rollback_of_opened read opened
    rw [releases] at run
    constructor
    · rintro ⟨cs', restores⟩
      exact absurd (Prod.mk.inj (restores.returned.symm.trans run)).1 (by simp)
    · exact fun unseen => absurd unseen.heights counts

theorem sameAnswers_of_flushed {states : StateDB} (accounts : states.accounts.pending = ∅)
    (nanoPay : states.nanoPay.pending = ∅) (nanoPayCleanup : states.nanoPayCleanup.pending = ∅)
    (namesLegacy : states.namesLegacy.pending = ∅) (nameRegistrantsLegacy : states.nameRegistrantsLegacy.pending = ∅)
    (pubSub : states.pubSub.pending = ∅) (pubSubCleanup : states.pubSubCleanup.pending = ∅)
    (assets : states.assets.pending = ∅) (names : states.names.pending = ∅) (namesCleanup : states.namesCleanup.pending = ∅) :
    SameAnswers states (StateDB.new states.trie) := by
  obtain ⟨⟨_, _⟩, ⟨_, _⟩, ⟨_, _⟩, ⟨_, _⟩, ⟨_, _⟩, ⟨_, _⟩, ⟨_, _⟩, ⟨_, _⟩, ⟨_, _⟩, ⟨_, _⟩⟩ := states
  simp only at accounts nanoPay nanoPayCleanup namesLegacy nameRegistrantsLegacy pubSub pubSubCleanup assets names namesCleanup
  subst accounts nanoPay nanoPayCleanup namesLegacy nameRegistrantsLegacy pubSub pubSubCleanup assets names namesCleanup
  exact ⟨rfl, fun _ => rfl, fun _ => rfl, fun _ => rfl, fun _ => rfl, fun _ => rfl, fun _ => rfl, fun _ => rfl, fun _ => rfl,
    fun _ => rfl, fun _ => rfl⟩

namespace FirstBlocks

theorem empty_of_entries {κ ν : Type} [DecidableEq κ] {m : GoMap κ ν} (none : m.entries.isEmpty = true) : m = ∅ :=
  AList.ext (List.isEmpty_iff.mp none)

theorem firstStore_tip :
    (firstStore.db.currentBlock = some (firstStore.currentBlockHash, firstStore.currentBlockHeight) ∧
      firstStore.db.currentStateTrie = some firstRoot ∧
      (firstStore.db.headers firstStore.currentBlockHash).map (·.header.unsignedHeader.stateRoot) = some firstRoot.toArray ∧
      firstStore.currentBlockHeight = 1) ∧
    firstStore.states.accounts.pending.entries.isEmpty ∧ firstStore.states.nanoPay.pending.entries.isEmpty ∧
    firstStore.states.nanoPayCleanup.pending.entries.isEmpty ∧ firstStore.states.namesLegacy.pending.entries.isEmpty ∧
    firstStore.states.nameRegistrantsLegacy.pending.entries.isEmpty ∧ firstStore.states.pubSub.pending.entries.isEmpty ∧
    firstStore.states.pubSubCleanup.pending.entries.isEmpty ∧ firstStore.states.assets.pending.entries.isEmpty ∧
    firstStore.states.names.pending.entries.isEmpty ∧ firstStore.states.namesCleanup.pending.entries.isEmpty := by
  decide +kernel

theorem opens_firstStore : firstStore.openTrie firstRoot = .ok firstStore.states.trie := by
  obtain ⟨_, saved⟩ := extends_firstBlock.isSaved
  obtain ⟨root, current, opened⟩ := bind_eq_ok.mp (saved.ledger rootsFaithful).opens
  have current : notFound firstStore.db.currentStateTrie = .ok root := current
  rw [firstStore_tip.1.2.1] at current
  obtain rfl : firstRoot = root := Except.ok.inj current
  exact opened

theorem consistent_firstStore (counted pruned : Option UInt32) (below : ∀ height ∈ counted, height ≤ 1)
    (ordered : pruned.elim 0 (· + 1) ≤ counted.elim 0 (· + 1)) :
    ConsistentStore firstStore ⟨counted, pruned⟩ firstRoot firstStore.states.trie := by
  obtain ⟨⟨currentBlock, currentStateTrie, found, tip⟩, h₁, h₂, h₃, h₄, h₅, h₆, h₇, h₈, h₉, h₁₀⟩ := firstStore_tip
  refine ⟨currentBlock, currentStateTrie, Option.map_eq_some_iff.mp found, opens_firstStore, ?_, ?_, ordered⟩
  · exact sameAnswers_of_flushed (empty_of_entries h₁) (empty_of_entries h₂) (empty_of_entries h₃) (empty_of_entries h₄)
      (empty_of_entries h₅) (empty_of_entries h₆) (empty_of_entries h₇) (empty_of_entries h₈) (empty_of_entries h₉)
      (empty_of_entries h₁₀)
  · rw [tip]
    exact below

/-- The store after the first block and the header of the second one, as header synchronisation leaves it. -/
def headerStore : ChainStore :=
  { firstStore with
    db := { firstStore.db with
      headers := Function.update firstStore.db.headers (Block.hash tables.env secondBlock) (some ⟨secondBlock.header, []⟩)
      blockHashes := Function.update firstStore.db.blockHashes 2 (some (Block.hash tables.env secondBlock)) } }

theorem secondBlock_saved :
    (∀ cs ∈ [firstStore, headerStore], (cs.saveBlock tables.env currentConfig secondBlock).2 = .ok () ∧
      secondBlock.height = cs.currentBlockHeight + 1 ∧ secondBlock.height ≠ 0 ∧
      secondBlock.header.unsignedHeader.prevBlockHash = cs.currentBlockHash.toArray ∧
      (∀ txn ∈ secondBlock.transactions, cs.db.transactions (Transaction.hash tables.env txn) = none) ∧
      Block.hash tables.env secondBlock ≠ cs.currentBlockHash ∧
      (generateStateRoot tables.env currentConfig cs secondBlock true true).toOption.map Prod.snd = some secondRoot) ∧
    ((rollback tables.env currentConfig {} secondBlock
        (.of (headerStore.saveBlock tables.env currentConfig secondBlock).1 ⟨none, none⟩)).2.db.blockHashes 2 = none ∧
      headerStore.db.blockHashes 2 ≠ none) ∧
    (rollback tables.env currentConfig {} secondBlock
        (.of (firstStore.saveBlock tables.env currentConfig secondBlock).1 ⟨some 0, some 0⟩)).1.isOk = false := by
  decide +kernel

theorem savedNext {cs : ChainStore} (store : cs ∈ [firstStore, headerStore]) :
    SavedNext tables.env currentConfig cs secondBlock firstRoot firstStore.states.trie := by
  obtain ⟨saved, height, nonzero, prevBlockHash, transactions, hash, other⟩ := secondBlock_saved.1 cs store
  refine ⟨saved, height, nonzero, prevBlockHash, transactions, hash, fun states generated => ?_⟩
  rw [generated] at other
  have same : firstRoot = secondRoot := Option.some.inj other
  exact absurd same (by decide)

theorem rollback_inverts_save_iff_secondBlock :
    (∃ cs, Restores tables.env currentConfig firstStore ⟨none, none⟩ secondBlock cs) ↔
      Unseen tables.env currentConfig firstStore ⟨none, none⟩ secondBlock :=
  rollback_inverts_save_iff (consistent_firstStore none none (by simp) (by simp)) (savedNext (by simp))

theorem consistent_headerStore : ConsistentStore headerStore ⟨none, none⟩ firstRoot firstStore.states.trie :=
  (consistent_firstStore none none (by simp) (by simp)).withHeaders _
    (update_of_ne (savedNext List.mem_cons_self).hash.symm _ _)

/-- The rollback of a saved block deletes its header, which was in the database before the block was saved. After a fast
sync to height 1, which records height 0 as counted and pruned, it returns an error. -/
theorem rollback_restores_too_little : (ConsistentStore headerStore ⟨none, none⟩ firstRoot firstStore.states.trie ∧
      SavedNext tables.env currentConfig headerStore secondBlock firstRoot firstStore.states.trie ∧
      ¬ ∃ cs, Restores tables.env currentConfig headerStore ⟨none, none⟩ secondBlock cs) ∧
    ConsistentStore firstStore ⟨some 0, some 0⟩ firstRoot firstStore.states.trie ∧
      SavedNext tables.env currentConfig firstStore secondBlock firstRoot firstStore.states.trie ∧
      ¬ ∃ cs, Restores tables.env currentConfig firstStore ⟨some 0, some 0⟩ secondBlock cs := by
  obtain ⟨-, ⟨deleted, known⟩, failed⟩ := secondBlock_saved
  refine ⟨⟨consistent_headerStore, savedNext (by simp), ?_⟩,
    consistent_firstStore (some 0) (some 0) (by simp) (by simp), savedNext (by simp), ?_⟩
  · rintro ⟨cs, restores⟩
    rw [restores.returned, restores.blockHashes] at deleted
    exact known deleted
  · rintro ⟨cs, restores⟩
    rw [restores.returned] at failed
    exact absurd failed (by simp [Except.isOk, Except.toBool])

end FirstBlocks

end Nkn
