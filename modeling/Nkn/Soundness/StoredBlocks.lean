import Nkn.Proofs.Readers
import Nkn.Soundness.MerkleRoot

/-! # Blocks that are read back

A block is stored as its header with the hashes of its transactions, and these under their hashes, which leave out the
programs: of two with one hash the last is read back. -/

namespace Nkn.Store

open Go Outcome ChainStore

variable {env : Env} {config : Config} {cs cs' : ChainStore} {b : Block} {fastSync : Bool}

theorem persistBlock_puts (persisted : cs.persistBlock env config b fastSync = .ok cs') :
    cs'.db.headers (Block.hash env b) = some (trim env b) ∧ cs'.db.blockHashes b.height = some (Block.hash env b) ∧
      cs'.db.transactions = putTransactions env cs.db.transactions b := by
  cases fastSync with
  | false =>
    obtain ⟨_, _, _, -, -, -, rfl⟩ := persist_eq_ok persisted
    exact ⟨Function.update_self .., Function.update_self .., rfl⟩
  | true =>
    obtain ⟨-, made⟩ := rejectIf_bind_eq_ok.mp persisted
    obtain rfl := Except.ok.inj made
    exact ⟨Function.update_self .., Function.update_self .., rfl⟩

theorem readsBack_readHashes (hashes : List Uint256) :
    ReadsBack (readHashes hashes.length) hashes (hashes.map Word.toArray) := by
  induction hashes with
  | nil => exact .pure []
  | cons hash _ ih => exact (readsBack_word hash (by decide)).bind (ih.map fun r => by simp)

theorem fromTrimmedData_trimmedData {marshal : Header → Bytes} {unmarshal : Bytes → Header}
    (inverse : unmarshal (marshal b.header) = b.header) (fits : (marshal b.header).length < 2 ^ 64)
    (few : b.transactions.length < 2 ^ 32) :
    fromTrimmedData unmarshal (trimmedData env marshal b) = .ok (trim env b, []) := by
  have reads : ReadsBack (fromTrimmedData unmarshal) (trim env b) _ :=
    (readsBack_varBytes fits).bind ((readsBack_uint32 (.ofNat b.transactions.length)).bind
      (((readsBack_readHashes (b.transactions.map (Transaction.hash env))).congr fun r => by
        rw [UInt32.toNat_ofNat_of_lt' few, List.length_map]).map fun r => by rw [inverse]; rfl))
  simpa [trimmedData, List.flatMap, Function.comp_def] using reads.whole []

/-- A block that is persisted is read back by its hash and by its height, and its transactions by their hashes, exactly if
no two of its transactions have the same hash. Its trimmed form is encoded in a way that can be undone. -/
theorem stored_block_reads_back (persisted : cs.persistBlock env config b fastSync = .ok cs') {txnsRoot : Uint256}
    (computed : computeRoot env (b.transactions.map (Transaction.hash env)) = .ok txnsRoot)
    (inHeader : txnsRoot.toArray = b.header.unsignedHeader.transactionsRoot) :
    ((cs'.getBlock env (Block.hash env b) = .ok b ∧ cs'.getBlockByHeight env b.height = .ok b ∧
        ∀ txn ∈ b.transactions, cs'.getTransaction (Transaction.hash env txn) = .ok txn ∧
          cs'.getTx (Transaction.hash env txn) = .ok (txn, b.height)) ↔
      Set.InjOn (Transaction.hash env) {txn | txn ∈ b.transactions}) ∧
    ∀ (marshal : Header → Bytes) (unmarshal : Bytes → Header), unmarshal (marshal b.header) = b.header →
      (marshal b.header).length < 2 ^ 64 → b.transactions.length < 2 ^ 32 →
      fromTrimmedData unmarshal (trimmedData env marshal b) = .ok (trim env b, []) := by
  obtain ⟨headers, blockHashes, transactions⟩ := persistBlock_puts persisted
  refine ⟨⟨?_, fun one => ?_⟩, fun _ _ => fromTrimmedData_trimmedData⟩
  · rintro ⟨-, -, stored⟩ txn member other member' same
    have first := (stored txn member).1
    rw [same, (stored other member').1] at first
    exact (Except.ok.inj first).symm
  · have found := getBlock_of_put headers transactions one computed inHeader
    refine ⟨found, ?_, fun txn member => ?_⟩
    · rw [getBlockByHeight, getBlockHash, blockHashes]
      exact found
    · have stored : putTransactions env cs.db.transactions b _ = _ := putTransactions_of_mem one member
      simp [getTransaction, getTx, transactions, stored, notFound, orFail]

end Nkn.Store

namespace Nkn.RepeatedEnd

open Sample Config Store

def signedTwice : Block where
  header := header 5000000 rightNode emptyUint256
  transactions := [coinbaseTxn 2 0, { coinbaseTxn 2 0 with programs := [⟨[], []⟩] }]

/-- The transaction with the later programs is read back for both. -/
theorem one_of_two_read_back :
    computeRoot tables.env (signedTwice.transactions.map (Transaction.hash tables.env)) = .ok rightNode ∧
      ∃ cs', (chainStore emptyUint256 .empty).persistBlock tables.env mainnet signedTwice true = .ok cs' ∧
        coinbaseTxn 2 0 ∈ signedTwice.transactions ∧
        cs'.getTransaction (Transaction.hash tables.env (coinbaseTxn 2 0)) ≠ .ok (coinbaseTxn 2 0) := by
  refine ⟨by decide +kernel, _, rfl, by simp [signedTwice], ?_⟩
  decide +kernel

theorem stored_block_reads_back_once :
    ∃ cs', (chainStore emptyUint256 .empty).persistBlock tables.env mainnet block true = .ok cs' ∧
      cs'.getBlock tables.env (Block.hash tables.env block) = .ok block := by
  have facts : computeRoot tables.env (block.transactions.map (Transaction.hash tables.env)) = .ok top ∧
      (block.transactions.map (Transaction.hash tables.env)).Nodup := by decide +kernel
  obtain ⟨cs', persisted⟩ :
      ∃ cs', (chainStore emptyUint256 .empty).persistBlock tables.env mainnet block true = .ok cs' := ⟨_, rfl⟩
  exact ⟨cs', persisted, ((stored_block_reads_back persisted facts.1 rfl).1.mpr fun _ member _ member' =>
    List.inj_on_of_nodup_map facts.2 member member').1⟩

end Nkn.RepeatedEnd
