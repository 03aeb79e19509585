import Nkn.Model.Syncing
import Nkn.Soundness.Chain

/-! # Syncing after a rollback

`StartSyncing` reads the height of the ledger, may roll the ledger back, and then asks for the headers above the height it
has read. -/

namespace Nkn

open Go Outcome Store SyncTarget LiveStore Function List Option UInt32

section

variable {env : Env} {config : Config} {target : SyncTarget} {cs cs' : LiveStore} {rolled : Bool}

def HeightsRight (db : DB) : Prop :=
  ∀ height hash trimmed, db.blockHashes height = some hash → db.headers hash = some trimmed →
    trimmed.header.unsignedHeader.height = height

/-- A ledger below the height to reach whose records agree, and neighbors that answer for every height. -/
structure Behind (cs : LiveStore) (target : SyncTarget) : Prop where
  heights : HeightsRight cs.db
  tip : cs.db.blockHashes cs.currentBlockHeight = some cs.currentBlockHash
  cached : cs.headerCache.headerIndex.load cs.currentBlockHeight = some cs.currentBlockHash
  nonempty : cs.currentBlockHash ≠ emptyUint256
  higher : cs.currentBlockHeight < target.syncStopHeight
  answers : ∀ height ≤ target.syncStopHeight, target.majority height ≠ emptyUint256

/-- A new start of syncing asks for the blocks above the tip. -/
def AsksAbove (env : Env) (config : Config) (target : SyncTarget) (cs cs' : LiveStore) : Prop :=
  ∃ request after, target.startSyncing env config cs = (.ok request, after) ∧
    request.startHeight = cs'.currentBlockHeight + 1 ∧ request.startPrevHash = cs'.currentBlockHash

variable {b : Block}

theorem rollbackStates_db {root : Uint256} (ran : rollbackStates {} b cs = (.ok root, cs')) : cs'.db = cs.db := by
  simp only [rollbackStates, Proc.bind_eq_ok, Proc.lift_eq_ok] at ran
  obtain ⟨_, _, ⟨-, rfl⟩, _, _, ⟨-, rfl⟩, _, _, reads, _, _, ⟨-, rfl⟩, _, _, ⟨-, rfl⟩, _, _, writes, _, _, ⟨-, rfl⟩, ends⟩ := ran
  obtain ⟨-, rfl⟩ := Prod.mk.inj reads
  obtain ⟨-, rfl⟩ := Prod.mk.inj writes
  obtain ⟨-, rfl⟩ := Prod.mk.inj ends
  rfl

theorem rollbackRefCounts_keeps {releases : Bool}
    (ran : rollbackRefCounts {} b cs = (.ok releases, cs')) : cs' = cs := by
  simp only [rollbackRefCounts, Proc.bind_eq_ok, Proc.lift_eq_ok] at ran
  obtain ⟨_, _, reads, _, _, ⟨-, rfl⟩, ends⟩ := ran
  obtain ⟨-, rfl⟩ := Prod.mk.inj reads
  split_ifs at ends
  · simp only [Proc.bind_eq_ok, Proc.lift_eq_ok] at ends
    obtain ⟨_, _, ⟨-, rfl⟩, _, _, ⟨-, rfl⟩, ends⟩ := ends
    exact (Prod.mk.inj ends).2.symm
  · exact (Prod.mk.inj ends).2.symm

theorem rollback_height (ran : LiveStore.rollback env config {} b cs = (.ok (), cs')) :
    cs'.currentBlockHeight = b.height - 1 ∧ (HeightsRight cs.db → HeightsRight cs'.db) := by
  simp only [LiveStore.rollback, Proc.bind_eq_ok, Proc.lift_eq_ok] at ran
  obtain ⟨_, _, ⟨-, rfl⟩, _, _, ⟨-, rfl⟩, _, _, opened, _, _, headers, _, _, sigChains, _, _, released, _,
    committed, commits, _, _, ⟨-, rfl⟩, ends⟩ := ran
  obtain ⟨-, rfl⟩ := Prod.mk.inj headers
  obtain ⟨-, rfl⟩ := Prod.mk.inj sigChains
  obtain rfl := rollbackRefCounts_keeps released
  simp only [LiveStore.commitRollback, Proc.bind_eq_ok, Proc.lift_eq_ok] at commits
  obtain ⟨_, _, ⟨-, rfl⟩, commits⟩ := commits
  obtain ⟨-, rfl⟩ := Prod.mk.inj commits
  obtain ⟨-, rfl⟩ := Prod.mk.inj ends
  refine ⟨rfl, fun right height hash trimmed listed found => ?_⟩
  simp only [LiveStore.rolledBack, rollbackStates_db opened, Function.update_apply] at listed found
  split_ifs at listed found
  exact right height hash trimmed listed found

variable {height : UInt32}

theorem getBlockByHeight_height {block : Block} (right : HeightsRight cs.db)
    (found : getBlockByHeight env cs height = .ok block) : block.height = height := by
  simp only [getBlockByHeight, ChainStore.getBlockByHeight, ChainStore.getBlockHash, ChainStore.getBlock,
    ChainStore.notFound, bind_eq_ok, orFail_eq_ok, labelled_eq_ok, Except.ok.injEq] at found
  obtain ⟨hash, listed, trimmed, stored, _, -, _, -, rfl⟩ := found
  exact right height hash trimmed listed stored

theorem rollbackOne_height (right : HeightsRight cs.db) (ran : rollbackOne env config height cs = (.ok (), cs')) :
    cs'.currentBlockHeight = height - 1 ∧ HeightsRight cs'.db := by
  simp only [rollbackOne, Proc.gets_bind, id_eq, Proc.bind_eq_ok, Proc.lift_eq_ok, labelled_eq_ok, Proc.labelled_eq_ok] at ran
  obtain ⟨_, _, ⟨found, rfl⟩, ran⟩ := ran
  obtain ⟨moved, kept⟩ := rollback_height ran
  exact ⟨by rw [moved, getBlockByHeight_height right found], kept right⟩

theorem forEach_rollbackOne {heights : List UInt32} (right : HeightsRight cs.db)
    (ran : Proc.forEach heights (rollbackOne env config) cs = (.ok (), cs')) :
    cs'.currentBlockHeight = (heights.getLast?.map (· - 1)).getD cs.currentBlockHeight := by
  induction heights generalizing cs with
  | nil =>
    obtain ⟨-, rfl⟩ := Prod.mk.inj ran
    rfl
  | cons _ rest ih =>
    obtain ⟨_, _, first, ran⟩ := Proc.bind_eq_ok.mp ran
    obtain ⟨moved, right⟩ := rollbackOne_height right first
    rw [ih right ran, moved]
    cases rest with
    | nil => rfl
    | cons _ _ => rw [getLast?_cons_cons, getLast?_cons, map_some, getD_some, getD_some]

theorem rollbackToHeight_le (height : UInt32) : target.rollbackToHeight height ≤ height := by
  unfold rollbackToHeight
  split_ifs with above
  · rw [le_iff_toNat_le, UInt32.toNat_sub_of_le _ _ (UInt32.le_of_lt above)]
    omega
  · exact UInt32.zero_le

theorem getLast_rollbackHeights {height low : UInt32} (lower : low < height) :
    ((rollbackHeights height low).getLast?.map (· - 1)) = some low := by
  rw [lt_iff_toNat_lt] at lower
  have range := height.toNat_lt
  obtain ⟨left, count⟩ : ∃ left, height.toNat - low.toNat = left + 1 := ⟨height.toNat - low.toNat - 1, by omega⟩
  have back : height - ofNat left - 1 = low := by
    rw [← UInt32.toNat_inj]
    simp only [UInt32.toNat_sub, toNat_ofNat', toNat_one]
    omega
  simp [rollbackHeights, count, range_succ, back]

theorem maybeRollback_eq_ok (behind : Behind cs target) (ran : target.maybeRollback env config cs = (.ok rolled, cs')) :
    (target.majority cs.currentBlockHeight = cs.currentBlockHash ∧ cs' = cs) ∨
      (target.majority cs.currentBlockHeight ≠ cs.currentBlockHash ∧ cs'.currentBlockHeight < cs.currentBlockHeight) := by
  have below : cs.currentBlockHeight ≤ target.syncStopHeight := UInt32.le_of_lt behind.higher
  simp only [maybeRollback, Proc.gets_bind, id_eq, getBlockHash, behind.tip, Proc.bind_eq_ok, Proc.lift_eq_ok, labelled_eq_ok,
    ChainStore.notFound, orFail_eq_ok, Option.some.injEq] at ran
  obtain ⟨_, _, ⟨rfl, rfl⟩, ran⟩ := ran
  rw [if_neg (behind.answers _ below)] at ran
  split_ifs at ran with same
  · exact .inl ⟨same, (Prod.mk.inj ran).2.symm⟩
  · refine .inr ⟨same, ?_⟩
    simp only [Proc.bind_eq_ok, Proc.lift_eq_ok, rejectIf_eq_ok] at ran
    obtain ⟨_, _, ⟨-, rfl⟩, _, _, ⟨-, rfl⟩, _, _, ⟨shared, rfl⟩, _, _, loop, ends⟩ := ran
    obtain ⟨-, rfl⟩ := Prod.mk.inj ends
    -- the neighbors have the block that the rollback goes back to, so that is not the tip
    have lower : target.rollbackToHeight cs.currentBlockHeight < cs.currentBlockHeight := by
      refine UInt32.lt_of_le_of_ne (rollbackToHeight_le _) fun tip => same ?_
      have shared := not_not.mp (rejectIf_eq_ok.mp shared)
      rwa [tip, behind.tip] at shared
    rw [forEach_rollbackOne behind.heights loop, getLast_rollbackHeights lower]
    exact lower

theorem requestHeaders_start {request : HeaderRequest}
    (asked : target.requestHeaders height cs = (.ok request, cs')) : request.startHeight = height + 1 := by
  simp only [requestHeaders, Proc.gets_bind, Proc.bind_eq_ok, Proc.lift_eq_ok] at asked
  obtain ⟨_, _, ⟨-, rfl⟩, _, _, ⟨-, rfl⟩, ends⟩ := asked
  rw [← Except.ok.inj (Prod.mk.inj ends).1]

theorem requestHeaders_behind (behind : Behind cs target) : ∃ request,
    target.requestHeaders cs.currentBlockHeight cs = (.ok request, cs) ∧
      request.startHeight = cs.currentBlockHeight + 1 ∧ request.startPrevHash = cs.currentBlockHash := by
  have back : cs.currentBlockHeight + 1 - 1 = cs.currentBlockHeight := by grind
  have cached : cs.headerCache.getCachedHeaderHashByHeight cs.currentBlockHeight = cs.currentBlockHash := by
    simp [HeaderCache.getCachedHeaderHashByHeight, GoMap.read, behind.cached]
  simp only [requestHeaders, Proc.gets_bind, back, cached]
  generalize (if cs.currentBlockHeight + 1 + target.syncHeaderMaxSize - 1 > target.syncStopHeight then
    target.syncStopHeight else cs.currentBlockHeight + 1 + target.syncHeaderMaxSize - 1) = stop
  have answered : ¬(stop < target.syncStopHeight ∧
      (if stop < target.syncStopHeight then target.majority stop else target.syncStopHash) = emptyUint256) := by
    rintro ⟨before, empty⟩
    rw [if_pos before] at empty
    exact behind.answers stop (UInt32.le_of_lt before) empty
  rw [Proc.bind_of_ok (Proc.lift_rejectIf behind.nonempty), Proc.bind_of_ok (Proc.lift_rejectIf answered)]
  exact ⟨_, rfl, rfl, rfl⟩

/-- Whether a node that is behind its neighbors asks for the headers above the ledger that `maybeRollback` leaves: exactly
if there was nothing to roll back. -/
theorem sync_resumes_iff (behind : Behind cs target) (ran : target.maybeRollback env config cs = (.ok rolled, cs')) :
    AsksAbove env config target cs cs' ↔ target.majority cs.currentBlockHeight = cs.currentBlockHash := by
  have starts : target.startSyncing env config cs = target.requestHeaders cs.currentBlockHeight cs' := by
    have open_ : ¬target.syncStopHeight ≤ cs.currentBlockHeight := UInt32.not_le.mpr behind.higher
    simp only [startSyncing, Proc.gets_bind]
    rw [Proc.bind_of_ok (Proc.lift_rejectIf open_), Proc.bind_of_ok (Proc.labelled_of_ok _ ran)]
  rw [AsksAbove, starts]
  rcases maybeRollback_eq_ok behind ran with ⟨same, rfl⟩ | ⟨other, lower⟩
  · obtain ⟨request, asked, start, prev⟩ := requestHeaders_behind behind
    exact iff_of_true ⟨request, cs', asked, start, prev⟩ same
  · refine iff_of_false ?_ other
    rintro ⟨request, after, asked, start, -⟩
    have same : cs.currentBlockHeight = cs'.currentBlockHeight := by
      simpa using (requestHeaders_start asked).symm.trans start
    exact UInt32.lt_irrefl _ (same ▸ lower)

theorem of_currentBlockHash (cs : ChainStore) (heights : PruningHeights) :
    (of cs heights).currentBlockHash = cs.currentBlockHash := rfl

theorem HeightsRight.saved {cs cs' : ChainStore} {root : Uint256} (saved : Saved env config cs b root cs')
    (right : HeightsRight cs.db) (fresh : ∀ height, cs.db.blockHashes height ≠ some (Block.hash env b)) :
    HeightsRight cs'.db := by
  intro height hash trimmed listed stored
  rw [saved.blockHashes, update_apply] at listed
  rw [saved.headers, update_apply] at stored
  split_ifs at listed stored with tip known known
  · rw [← Option.some.inj stored, tip]
    rfl
  · exact absurd (Option.some.inj listed).symm known
  · exact absurd listed (known ▸ fresh height)
  · exact right height hash trimmed listed stored

end

namespace ForkedLedger

open FirstBlocks

def ledger : LiveStore := .of secondStore ⟨none, none⟩

def otherHash : Uint256 := Word.ofNat 32 9

def neighbors : SyncTarget :=
  ⟨1, 100, otherHash, 5, fun height =>
    if height = 0 then genesisStore.currentBlockHash
    else if height = 1 then firstStore.currentBlockHash
    else otherHash⟩

theorem runs : (ledger.currentBlockHeight = 2 ∧ ledger.db.blockHashes 2 = some ledger.currentBlockHash ∧
      ledger.headerCache.headerIndex.load 2 = some ledger.currentBlockHash ∧
      [genesisStore.currentBlockHash, firstStore.currentBlockHash, ledger.currentBlockHash, otherHash,
        emptyUint256].Nodup ∧
      neighbors.majority 0 = (ledger.db.blockHashes 0).getD emptyUint256 ∧
      neighbors.majority 1 = (ledger.db.blockHashes 1).getD emptyUint256) ∧
    ((neighbors.maybeRollback tables.env currentConfig ledger).1 = .ok true ∧
      (neighbors.maybeRollback tables.env currentConfig ledger).2.currentBlockHeight = 1 ∧
      (neighbors.maybeRollback tables.env currentConfig ledger).2.currentBlockHash = firstStore.currentBlockHash) ∧
    (neighbors.startSyncing tables.env currentConfig ledger).1 = Outcome.fail "get block hash of height 2 failed" := by
  decide +kernel

theorem heights : HeightsRight ledger.db := by
  obtain ⟨-, -, _, genesis⟩ := newBlockchain_saved initialized_eq
  obtain ⟨_, first⟩ := extends_firstBlock.isSaved
  obtain ⟨_, second⟩ := extends_secondBlock.isSaved
  obtain ⟨⟨-, -, -, apart, -⟩, -⟩ := runs
  have tip : ledger.currentBlockHash = Block.hash tables.env secondBlock := (of_currentBlockHash _ _).trans second.hash
  simp only [genesis.hash, first.hash, tip, nodup_cons, mem_cons, not_or] at apart
  refine HeightsRight.saved second (HeightsRight.saved first (HeightsRight.saved genesis ?_ ?_) ?_) ?_
  · intro height hash _ listed
    cases listed
  · intro height listed
    cases listed
  · intro height listed
    rw [genesis.blockHashes, update_apply] at listed
    split_ifs at listed
    · exact apart.1.1 (some.inj listed)
    · cases listed
  · intro height listed
    rw [first.blockHashes, genesis.blockHashes, update_apply, update_apply] at listed
    split_ifs at listed
    · exact apart.2.1.1 (some.inj listed)
    · exact apart.1.2.1 (some.inj listed)
    · cases listed

theorem behind : Behind ledger neighbors := by
  obtain ⟨⟨height, _, _, apart, -⟩, -⟩ := runs
  simp only [nodup_cons, mem_cons, not_or] at apart
  refine ⟨heights, by rwa [height], by rwa [height], apart.2.2.1.2.1, by rw [height]; decide, fun asked _ => ?_⟩
  simp only [neighbors]
  split_ifs
  · exact apart.1.2.2.2.1
  · exact apart.2.1.2.2.1
  · exact apart.2.2.2.1.1

theorem majority_shared : ∀ height ≤ 1, neighbors.majority height = (ledger.db.blockHashes height).getD emptyUint256 := by
  obtain ⟨⟨-, -, -, -, genesis, first⟩, -⟩ := runs
  intro height low
  obtain rfl | rfl : height = 0 ∨ height = 1 := by
    rw [le_iff_toNat_le, toNat_one] at low
    simp only [← UInt32.toNat_inj, UInt32.toNat_zero, toNat_one]
    omega
  · exact genesis
  · exact first

/-- The ledger goes back to height 1, but headers are asked for from height 3 up, and its cache has no header at 2. -/
theorem sync_stops_after_rollback :
    Chain tables.env currentConfig Sample.proposerKey packedCoinbase secondStore [genesisBlock, firstBlock, secondBlock] ∧
    ledger = .of secondStore ⟨none, none⟩ ∧ Behind ledger neighbors ∧
    (∀ height ≤ 1, neighbors.majority height = (ledger.db.blockHashes height).getD emptyUint256) ∧
    (neighbors.maybeRollback tables.env currentConfig ledger).1 = .ok true ∧
    (neighbors.maybeRollback tables.env currentConfig ledger).2.currentBlockHeight = 1 ∧
    (neighbors.startSyncing tables.env currentConfig ledger).1 = Outcome.fail "get block hash of height 2 failed" :=
  have ⟨_, ⟨rolled, height, _⟩, stopped⟩ := runs
  ⟨.extend chain extends_secondBlock, rfl, behind, majority_shared, rolled, height, stopped⟩

theorem sync_resumes_iff_forked :
    Behind ledger neighbors ∧ (neighbors.maybeRollback tables.env currentConfig ledger).1 = .ok true ∧
      (AsksAbove tables.env currentConfig neighbors ledger (neighbors.maybeRollback tables.env currentConfig ledger).2 ↔
        neighbors.majority ledger.currentBlockHeight = ledger.currentBlockHash) := by
  obtain ⟨-, ⟨rolled, -⟩, -⟩ := runs
  exact ⟨behind, rolled, sync_resumes_iff behind (Proc.eq_of_fst rolled)⟩

end ForkedLedger

end Nkn
