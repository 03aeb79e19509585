import Nkn.Model.SaveBlock
import Nkn.Proofs.Execute

/-! # What saving a block writes

The store that `SaveBlock` leaves behind once `persist` has succeeded, and the one that starts from the genesis
block. -/

namespace Nkn.Store

open Go Outcome ChainStore Function List

variable {env : Env} {config : Config} {cs cs' : ChainStore} {b : Block} {root : Uint256}

structure Saved (env : Env) (config : Config) (cs : ChainStore) (b : Block) (root : Uint256) (cs' : ChainStore) :
    Prop where
  generated : generateStateRoot env config cs b (b.height ≠ 0) true = .ok (cs'.states, root)
  stateRoot : b.header.unsignedHeader.stateRoot = root.toArray
  headers : cs'.db.headers = Function.update cs.db.headers (Block.hash env b) (some (trim env b))
  blockHashes : cs'.db.blockHashes = Function.update cs.db.blockHashes b.height (some (Block.hash env b))
  transactions : cs'.db.transactions = putTransactions env cs.db.transactions b
  tries : cs'.db.tries = Function.update cs.db.tries root (some cs'.states.trie)
  currentStateTrie : cs'.db.currentStateTrie = some root
  currentBlock : cs'.db.currentBlock = some (Block.hash env b, b.height)
  height : cs'.currentBlockHeight = b.height
  hash : cs'.currentBlockHash = Block.hash env b

theorem persist_eq_ok (persisted : cs.persist env config b = .ok cs') :
    ∃ states root donations, generateStateRoot env config cs b (b.height ≠ 0) true = .ok (states, root) ∧
      b.header.unsignedHeader.stateRoot = root.toArray ∧ cs.nextDonations config b.height = .ok donations ∧
      cs' = { cs with
        states
        db := {
          headers := update cs.db.headers (Block.hash env b) (some (trim env b))
          blockHashes := update cs.db.blockHashes b.height (some (Block.hash env b))
          transactions := putTransactions env cs.db.transactions b
          donations
          tries := update cs.db.tries root (some states.trie)
          currentStateTrie := some root
          currentBlock := some (Block.hash env b, b.height) } } := by
  simp only [persist, bind_eq_ok, rejectIf_eq_ok, exists_const, uint256ParseFromBytes_eq_ok, Except.ok.injEq,
    ne_eq, not_not, Word.compareTo_eq_iff] at persisted
  obtain ⟨_, ⟨states, root⟩, generated, _, parsed, rfl, donations, fixed, rfl⟩ := persisted
  exact ⟨states, root, donations, generated, parsed, fixed, rfl⟩

theorem addHeaderSigChainToCache_eq_ok {header : Header}
    (cached : cs.addHeaderSigChainToCache env header = .ok cs') : ∃ cache, cs' = { cs with sigChainCache := cache } := by
  obtain ⟨_, _, cached⟩ := bind_eq_ok.mp cached
  split_ifs at cached
  · exact ⟨cs.sigChainCache, (Except.ok.inj cached).symm⟩
  · obtain ⟨⟨_, _⟩, _, cached⟩ := bind_eq_ok.mp cached
    obtain ⟨message, _, cached⟩ := bind_eq_ok.mp cached
    cases message with
    | sigChainTxn _ =>
      obtain ⟨_, _, cached⟩ := bind_eq_ok.mp cached
      exact ⟨_, (Except.ok.inj cached).symm⟩
    | _ => exact absurd cached (crash_ne_ok _ _)

theorem saveBlock_saved (persisted : cs.persist env config b = .ok cs') :
    ∃ root, Saved env config cs b root (cs.saveBlock env config b).1 := by
  obtain ⟨_, root, _, generated, stateRoot, _, built⟩ := persist_eq_ok persisted
  have moved : Saved env config cs b root (cs'.moveTo env config b) := by
    subst built
    exact ⟨generated, stateRoot, rfl, rfl, rfl, rfl, rfl, rfl, rfl, rfl⟩
  refine ⟨root, ?_⟩
  simp only [saveBlock, persisted]
  cases cached : (cs'.moveTo env config b).addHeaderSigChainToCache env b.header with
  | error _ => exact moved
  | ok _ =>
    obtain ⟨_, rfl⟩ := addHeaderSigChainToCache_eq_ok cached
    exact ⟨moved.1, moved.2, moved.3, moved.4, moved.5, moved.6, moved.7, moved.8, moved.9, moved.10⟩

theorem initLedgerStore_saved (genesis : b.height = 0)
    (initialized : initLedgerStoreWithGenesisBlock env config b = .ok cs') : ∃ root, Saved env config .new b root cs' := by
  obtain ⟨_, persists, built⟩ := bind_eq_ok.mp initialized
  obtain rfl := Except.ok.inj built
  obtain ⟨_, root, _, generated, stateRoot, _, rfl⟩ := persist_eq_ok persists
  exact ⟨root, generated, stateRoot, rfl, rfl, rfl, rfl, rfl, rfl, genesis.symm, rfl⟩

variable {stored : Uint256 → Option (UInt32 × Transaction)}

variable {hash : Uint256}

theorem putTransactions_isSome : (putTransactions env stored b hash).isSome = true ↔
      (stored hash).isSome = true ∨ hash ∈ b.transactions.map (Transaction.hash env) := by
  unfold putTransactions
  induction b.transactions generalizing stored with
  | nil => simp
  | cons txn _ ih =>
    rw [foldl_cons, ih, map_cons, mem_cons, update_apply]
    by_cases same : hash = Transaction.hash env txn <;> simp [same]

theorem putTransactions_of_notMem
    (other : hash ∉ b.transactions.map (Transaction.hash env)) : putTransactions env stored b hash = stored hash := by
  unfold putTransactions
  revert other
  induction b.transactions generalizing stored with
  | nil => exact fun _ => rfl
  | cons _ _ ih =>
    intro other
    rw [map_cons, mem_cons, not_or] at other
    rw [foldl_cons, ih other.2, update_of_ne other.1]

theorem putTransactions_of_mem {txn : Transaction}
    (one : Set.InjOn (Transaction.hash env) {txn | txn ∈ b.transactions}) (member : txn ∈ b.transactions) :
    putTransactions env stored b (Transaction.hash env txn) = some (b.height, txn) := by
  -- the last transaction with the hash is stored under it
  have front (txns : List Transaction) (inside : ∀ other ∈ txns, other ∈ b.transactions) (member : txn ∈ txns) :
      txns.foldl (fun stored txn => update stored (Transaction.hash env txn) (some (b.height, txn))) stored
        (Transaction.hash env txn) = some (b.height, txn) := by
    induction txns using reverseRecOn with
    | nil => simp at member
    | append_singleton txns last ih =>
      rw [foldl_append, foldl_cons, foldl_nil, update_apply]
      split_ifs with same
      · rw [one (inside txn member) (inside last (by simp)) same]
      · have earlier : txn ∈ txns := (mem_append.mp member).resolve_right fun atEnd => same (by simp_all)
        exact ih (fun other earlier => inside other (by simp [earlier])) earlier
  exact front b.transactions (fun _ => id) member

theorem Saved.getBlock_of_ok (saved : Saved env config cs b root cs') {p : Block}
    (new : ∀ txn ∈ b.transactions, cs.db.transactions (Transaction.hash env txn) = none)
    (other : hash ≠ Block.hash env b) (found : cs.getBlock env hash = .ok p) : cs'.getBlock env hash = .ok p := by
  have kept (hash : Uint256) (txn : Transaction) (stored : cs.getTransaction hash = .ok txn) :
      cs'.getTransaction hash = .ok txn := by
    have absent : hash ∉ b.transactions.map (Transaction.hash env) := by
      rintro member
      obtain ⟨txn', inside, rfl⟩ := mem_map.mp member
      simp [getTransaction, new txn' inside, notFound] at stored
    rw [getTransaction, saved.transactions, putTransactions_of_notMem absent]
    exact stored
  simp only [getBlock, saved.headers, update_of_ne other]
  obtain ⟨_, read, found⟩ := bind_eq_ok.mp found
  obtain ⟨_, computed, found⟩ := bind_eq_ok.mp found
  obtain ⟨_, mapped, built⟩ := bind_eq_ok.mp found
  rw [read, ok_bind, computed, ok_bind, mapM_mono mapped kept, ok_bind]
  exact built

theorem getBlock_of_put (headers : cs'.db.headers (Block.hash env b) = some (trim env b))
    (transactions : cs'.db.transactions = putTransactions env stored b)
    (one : Set.InjOn (Transaction.hash env) {txn | txn ∈ b.transactions}) {txnsRoot : Uint256}
    (computed : computeRoot env (b.transactions.map (Transaction.hash env)) = .ok txnsRoot)
    (same : txnsRoot.toArray = b.header.unsignedHeader.transactionsRoot) :
    cs'.getBlock env (Block.hash env b) = .ok b := by
  have stored : ∀ txn ∈ b.transactions, cs'.getTransaction (Transaction.hash env txn) = .ok (id txn) := by
    intro txn member
    rw [getTransaction, transactions, putTransactions_of_mem one member]
    rfl
  simp only [getBlock, headers, notFound, orFail, ok_bind, trim,
    labelled_eq_ok.mpr computed, mapM_eq_ok_of_forall stored, same, map_id]

end Nkn.Store
