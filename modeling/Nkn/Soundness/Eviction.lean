import Nkn.Model.DropTxns
import Nkn.Soundness.PoolRejection

/-! # Making room in the pool

`DropTxns` works as long as one transaction has to go. Its heap, popped by value, still has that one in its last cell,
and the loop comes back to it. -/

namespace Nkn

open Go Store List GoMap

namespace TxnPool

section

variable {env : Env} {config : Config} {poolConfig : PoolConfig} {cs : ChainStore} {tp tp' : TxnPool} {txn : Transaction}
  {owner : Uint160} {list : NonceSortedTxs} {capacity : Nat → Nat} {state : DropState}

/-- Every transaction stands under its sender or its channel, and its reservations are there. -/
structure Indexed (env : Env) (cs : ChainStore) (tp : TxnPool) : Prop where
  lists : ∀ owner list, tp.txLists.load owner = some list → (list.map (Transaction.hash env)).Nodup ∧
    ∀ txn ∈ list, sender env txn = .ok owner ∧ txn.unsignedTx.payload.type ≠ .nanoPay
  nanoPays : ∀ key txn, tp.nanoPayTxs.load key = some txn →
    txn.unsignedTx.payload.type = .nanoPay ∧
      ∃ payload, unpack env txn.unsignedTx.payload = .ok (.nanoPay payload) ∧ nanoPayKey payload = key
  reserved : ∀ txn ∈ candidates tp, tp.blockValidationState.Reserved env cs txn
  payments : ∀ payload ∈ tp.blockValidationState.nanoPayPayloads.entries.map Sigma.snd,
    (cs.getNanoPay (bytesToUint160 payload.sender) (bytesToUint160 payload.recipient) payload.id).1 < payload.amount

def Lowest (env : Env) (tp : TxnPool) (txn : Transaction) : Prop :=
  txn ∈ candidates tp ∧ ∀ other ∈ candidates tp, feePerSize env txn ≤ feePerSize env other

/-- Transactions go one after the other, each time one with the lowest fee per size from the end of its list or from the
nano pays. -/
inductive Evicted (env : Env) : TxnPool → List Transaction → TxnPool → Prop
  | done {tp tp' : TxnPool} (lists : ∀ owner, tp.txLists.read [] owner = tp'.txLists.read [] owner)
      (nanoPays : tp.nanoPayTxs = tp'.nanoPayTxs) : Evicted env tp [] tp'
  | last {tp tp' : TxnPool} {txn : Transaction} {owner : Uint160} {list : NonceSortedTxs} {dropped : List Transaction}
      (lowest : Lowest env tp txn) (found : tp.txLists.load owner = some (list ++ [txn]))
      (rest : Evicted env (tp.setList owner list) dropped tp') : Evicted env tp (txn :: dropped) tp'
  | nanoPay {tp tp' : TxnPool} {txn : Transaction} {key : NanoPayKey} {dropped : List Transaction}
      (lowest : Lowest env tp txn) (found : tp.nanoPayTxs.load key = some txn)
      (rest : Evicted env { tp with nanoPayTxs := tp.nanoPayTxs.delete key } dropped tp') :
      Evicted env tp (txn :: dropped) tp'

/-- `DropTxns` ends, drops cheapest candidates one by one, and leaves a pool that is empty or not full. -/
def MakesRoom (env : Env) (config : Config) (poolConfig : PoolConfig) (cs : ChainStore) (capacity : Nat → Nat)
    (tp : TxnPool) : Prop :=
  ∃ fuel dropped tp', dropTxns env config poolConfig cs capacity fuel tp = some (.ok dropped, tp') ∧
    (isTxPoolFull poolConfig tp'.txnCount tp'.txnSize = false ∨ tp'.getAllTransactions = []) ∧ Evicted env tp dropped tp'

/-- Of a full pool it is enough to drop one transaction, whichever cheapest candidate it is. -/
def OneIsEnough (env : Env) (poolConfig : PoolConfig) (tp : TxnPool) : Prop :=
  isTxPoolFull poolConfig tp.txnCount tp.txnSize = true → ∀ txn, Lowest env tp txn →
    isTxPoolFull poolConfig (tp.txnCount - 1) (tp.txnSize - sizeOf env txn) = false

/-- What `heap.Init` is for: the cells are the same, and none is below the first one. -/
structure Heapified (env : Env) (cells heap : List Transaction) : Prop where
  perm : heap.Perm cells
  first : ∀ first ∈ heap.head?, ∀ txn ∈ cells, feePerSize env first ≤ feePerSize env txn

theorem mem_candidates : txn ∈ candidates tp ↔
    (∃ owner list, tp.txLists.load owner = some list ∧ list.getLast? = some txn) ∨
      ∃ key, tp.nanoPayTxs.load key = some txn := by
  simp only [candidates, mem_append, mem_filterMap, mem_map]
  constructor
  · rintro (⟨⟨owner, list⟩, member, last⟩ | ⟨⟨key, _⟩, member, rfl⟩)
    · exact .inl ⟨owner, list, mem_entries.mp member, last⟩
    · exact .inr ⟨key, mem_entries.mp member⟩
  · rintro (⟨owner, list, found, last⟩ | ⟨key, found⟩)
    · exact .inl ⟨⟨owner, list⟩, mem_entries.mpr found, last⟩
    · exact .inr ⟨⟨key, txn⟩, mem_entries.mpr found, rfl⟩

theorem dropFromList_last {spare : Bool} {cells : List Transaction} (regular : txn.unsignedTx.payload.type ≠ .nanoPay)
    (sends : sender env txn = .ok owner) :
    dropFromList env txn spare tp cells = (tp.txLists.read [] owner).getLast?.elim (false, tp, cells) fun last =>
      if Transaction.hash env txn ≠ emptyUint256 ∧ Transaction.hash env last ≠ Transaction.hash env txn then
        (false, tp, pushBack env spare cells last)
      else
        (true, tp.setList owner (tp.txLists.read [] owner).dropLast,
          ((tp.txLists.read [] owner).dropLast.getLast?).elim cells (pushBack env spare cells)) := by
  unfold dropFromList
  split
  · exact absurd ‹_› regular
  · simp only [sends]
    cases (tp.txLists.read [] owner).getLast? <;> rfl

theorem dropFromList_nanoPay {spare : Bool} {cells : List Transaction} {payload : Pb.NanoPay}
    (kind : txn.unsignedTx.payload.type = .nanoPay) (unpacked : unpack env txn.unsignedTx.payload = .ok (.nanoPay payload)) :
    dropFromList env txn spare tp cells =
      if (tp.nanoPayTxs.load (nanoPayKey payload)).isSome then
        (true, { tp with nanoPayTxs := tp.nanoPayTxs.delete (nanoPayKey payload) }, cells)
      else (false, tp, cells) := by
  simp only [dropFromList, kind, unpacked]

theorem dropFromList_candidate (indexed : Indexed env cs tp) (member : txn ∈ candidates tp) :
    ∃ pool, (∀ spare cells, ∃ cells', dropFromList env txn spare tp cells = (true, pool, cells') ∧
        (spare = false → cells' = cells)) ∧
      pool.txnCount = tp.txnCount ∧ pool.txnSize = tp.txnSize ∧ pool.blockValidationState = tp.blockValidationState ∧
      (∀ tp', Lowest env tp txn → (∀ owner, pool.txLists.read [] owner = tp'.txLists.read [] owner) →
        pool.nanoPayTxs = tp'.nanoPayTxs → Evicted env tp [txn] tp') ∧
      ∀ tp', tp'.txLists = pool.txLists → tp'.nanoPayTxs = pool.nanoPayTxs → Transaction.hash env txn ≠ emptyUint256 →
        ∀ cells, dropFromList env txn false tp' cells = (false, tp', cells) := by
  rcases mem_candidates.mp member with ⟨owner, list, found, last⟩ | ⟨key, found⟩
  · obtain ⟨distinct, each⟩ := indexed.lists owner list found
    obtain ⟨sends, regular⟩ := each txn (mem_of_getLast? last)
    obtain ⟨rest, rfl⟩ : ∃ rest, list = rest ++ [txn] := ⟨_, (dropLast_append_getLast? txn last).symm⟩
    have read : tp.txLists.read [] owner = rest ++ [txn] := by simp [GoMap.read, found]
    refine ⟨tp.setList owner rest, fun spare cells => ⟨rest.getLast?.elim cells (pushBack env spare cells), by
      rw [dropFromList_last regular sends, read]
      simp, fun none => ?_⟩, rfl, rfl, rfl, fun tp' lowest lists nanoPays => .last lowest found (.done lists nanoPays), ?_⟩
    · subst none
      cases rest.getLast? <;> simp [pushBack]
    · intro tp' lists _ nonempty cells
      rw [dropFromList_last regular sends, lists]
      have read : (tp.setList owner rest).txLists.read [] owner = rest := by simp [setList, GoMap.read]
      rw [read]
      cases ends : rest.getLast? with
      | none => rfl
      | some other =>
        have apart : Transaction.hash env other ≠ Transaction.hash env txn := by
          rw [map_append, nodup_append] at distinct
          exact distinct.2.2 _ (mem_map_of_mem (mem_of_getLast? ends)) _ (by simp)
        simp [nonempty, apart, pushBack]
  · obtain ⟨kind, payload, unpacked, rfl⟩ := indexed.nanoPays key txn found
    refine ⟨{ tp with nanoPayTxs := tp.nanoPayTxs.delete (nanoPayKey payload) }, fun spare cells => ⟨cells, by
      rw [dropFromList_nanoPay kind unpacked, found]
      rfl, fun _ => rfl⟩, rfl, rfl, rfl, fun tp' lowest lists nanoPays => .nanoPay lowest found (.done lists nanoPays), ?_⟩
    intro tp' _ nanoPays _ cells
    rw [dropFromList_nanoPay kind unpacked, nanoPays]
    simp

theorem dropLoop_stale (single : state.dropList = [txn])
    (stale : dropFromList env txn state.spare state.pool [txn] = (false, state.pool, [txn])) (fuel : Nat) :
    dropLoop env poolConfig fuel state = none := by
  have again : dropStep env poolConfig state = .inr state := by
    simp only [dropStep, single, Heap.popped_single, getLast?_singleton, stale]
    rw [← single]
  induction fuel with
  | zero => rfl
  | succ _ ih =>
    simp only [dropLoop, again]
    exact ih

theorem dropStep_first (indexed : Indexed env cs tp) {first : Transaction} {rest : List Transaction}
    (member : first ∈ candidates tp) (spare : Bool) :
    ∃ next : DropState, dropStep env poolConfig ⟨tp, first :: rest, spare, tp.txnCount, tp.txnSize, []⟩ =
        (if isTxPoolFull poolConfig (tp.txnCount - 1) (tp.txnSize - sizeOf env first) then .inr next else .inl next) ∧
      next.txnsDropped = [first] ∧ next.pool.txnCount = tp.txnCount - 1 ∧
      next.pool.txnSize = tp.txnSize - sizeOf env first ∧ next.spare = spare ∧
      next.pool.blockValidationState = tp.blockValidationState ∧
      (∀ tp', Lowest env tp first → (∀ owner, next.pool.txLists.read [] owner = tp'.txLists.read [] owner) →
        next.pool.nanoPayTxs = tp'.nanoPayTxs → Evicted env tp [first] tp') ∧
      (rest = [] → spare = false → Transaction.hash env first ≠ emptyUint256 →
        next.dropList = [first] ∧ dropFromList env first false next.pool [first] = (false, next.pool, [first])) := by
  obtain ⟨pool, drops, count, size, bvs, evicted, stale⟩ := dropFromList_candidate indexed member
  obtain ⟨cells, dropped, same⟩ := drops spare (Heap.popped (cheaper env) (first :: rest))
  refine ⟨⟨removeFromPool env poolConfig first pool, cells, spare, tp.txnCount - 1, tp.txnSize - sizeOf env first, [first]⟩,
    ?_, rfl, ?_, ?_, rfl, bvs, evicted, fun alone none nonempty => ⟨?_,
      stale (removeFromPool env poolConfig first pool) rfl rfl nonempty [first]⟩⟩
  · simp only [dropStep, Heap.getLast?_popped, head?_cons, dropped, nil_append]
  · simp [removeFromPool, deleteTransactionFromMap, count]
  · simp [removeFromPool, deleteTransactionFromMap, size]
  · rw [same none, alone, Heap.popped_single]

theorem getAllTransactions_of_none (none : candidates tp = []) : tp.getAllTransactions = [] := by
  obtain ⟨lists, nanoPays⟩ := append_eq_nil_iff.mp none
  rw [getAllTransactions, nanoPays, append_nil, flatMap_eq_nil_iff]
  intro entry member
  exact getLast?_eq_none_iff.mp (filterMap_eq_nil_iff.mp lists entry member)

theorem clean_none (config : Config) (poolConfig : PoolConfig) (indexed : Indexed env cs tp) :
    ∃ bvs, cleanBlockValidationState env config poolConfig cs [] tp = (.ok (), { tp with blockValidationState := bvs }) := by
  have cleaned : ∃ bvs, BlockValidationState.cleanSubmittedTransactions env cs [] tp.blockValidationState = (.ok (), bvs) := by
    have recounts : BlockValidationState.cleanSubmittedTransactions env cs [] tp.blockValidationState =
        BlockValidationState.recountNanoPays cs tp.blockValidationState := rfl
    rw [recounts, BlockValidationState.recountNanoPays]
    split_ifs
    · obtain ⟨_, counted, -⟩ := BlockValidationState.recounts
        { tp.blockValidationState with nanoPayAmount := ∅ } indexed.payments
      exact ⟨_, counted⟩
    · exact ⟨_, rfl⟩
  obtain ⟨bvs, cleaned⟩ := cleaned
  exact ⟨bvs, by simp only [cleanBlockValidationState, Proc.recover, onState, Proc.zoom, cleaned]⟩

theorem dropTxns_full (full : isTxPoolFull poolConfig tp.txnCount tp.txnSize = true) (fuel : Nat) :
    dropTxns env config poolConfig cs capacity fuel tp =
      (dropLoop env poolConfig fuel ⟨tp, Heap.init (cheaper env) (candidates tp),
        decide ((Heap.init (cheaper env) (candidates tp)).length < capacity (Heap.init (cheaper env) (candidates tp)).length),
        tp.txnCount, tp.txnSize, []⟩).map fun final =>
      (do
        cleanBlockValidationState env config poolConfig cs final.txnsDropped
        Proc.modify fun tp => { tp with lastDroppedTxn := final.txnsDropped.getLast? }
        pure final.txnsDropped : Proc TxnPool (List Transaction)) final.pool := by
  rw [dropTxns, if_neg (by simp [full])]

theorem makesRoom_of_oneIsEnough (indexed : Indexed env cs tp)
    (heap : Heapified env (candidates tp) (Heap.init (cheaper env) (candidates tp)))
    (enough : OneIsEnough env poolConfig tp) : MakesRoom env config poolConfig cs capacity tp := by
  by_cases full : isTxPoolFull poolConfig tp.txnCount tp.txnSize = true
  · unfold MakesRoom
    simp only [dropTxns_full full]
    obtain ⟨perm, lowest⟩ := heap
    cases cells : Heap.init (cheaper env) (candidates tp) with
    | nil =>
      -- nothing can be dropped
      have empty : candidates tp = [] := by
        rw [cells] at perm
        exact perm.symm.eq_nil
      obtain ⟨bvs, cleaned⟩ := clean_none config poolConfig indexed
      refine ⟨1, [], { tp with blockValidationState := bvs, lastDroppedTxn := none }, ?_, .inr ?_,
        .done (fun _ => rfl) rfl⟩
      · simp only [dropLoop, dropStep, Heap.getLast?_popped, head?_nil, Option.map_some]
        rw [Proc.bind_of_ok cleaned]
        rfl
      · exact getAllTransactions_of_none empty
    | cons first rest =>
      rw [cells] at perm lowest
      have member : first ∈ candidates tp := perm.mem_iff.mp mem_cons_self
      have low : Lowest env tp first := ⟨member, lowest first rfl⟩
      obtain ⟨next, step, dropped, count, size, -, bvs, evicted, -⟩ := @dropStep_first env poolConfig cs tp indexed first
        rest member (decide ((first :: rest).length < capacity (first :: rest).length))
      rw [enough full first low] at step
      have reserved : next.pool.blockValidationState.Reserved env cs first := bvs ▸ indexed.reserved first member
      obtain ⟨bvs', cleaned, -⟩ := clean_pooled config poolConfig reserved
      refine ⟨1, [first], { next.pool with blockValidationState := bvs', lastDroppedTxn := some first }, ?_, .inl ?_,
        evicted _ low (fun _ => rfl) rfl⟩
      · simp only [dropLoop, step, Bool.false_eq_true, if_false, Option.map_some, dropped]
        rw [Proc.bind_of_ok cleaned]
        rfl
      · rw [← enough full first low, ← count, ← size]
  · exact ⟨0, [], { tp with lastDroppedTxn := none }, by rw [dropTxns, if_pos (by simpa using full)],
      .inl (by simpa using full), .done (fun _ => rfl) rfl⟩

theorem dropTxns_stuck (indexed : Indexed env cs tp) (single : candidates tp = [txn])
    (nonempty : Transaction.hash env txn ≠ emptyUint256) (tight : capacity 1 = 1)
    (full : isTxPoolFull poolConfig tp.txnCount tp.txnSize = true)
    (still : isTxPoolFull poolConfig (tp.txnCount - 1) (tp.txnSize - sizeOf env txn) = true) (fuel : Nat) :
    dropTxns env config poolConfig cs capacity fuel tp = none := by
  have cells : Heap.init (cheaper env) [txn] = [txn] := by simp [Heap.init]
  have full_ : decide ([txn].length < capacity [txn].length) = false := by simp [tight]
  rw [dropTxns_full full, single, cells, full_]
  obtain ⟨_, step, -, -, -, spare, -, -, stale⟩ := @dropStep_first env poolConfig cs tp indexed txn [] (by simp [single])
    false
  obtain ⟨list, stale⟩ := stale rfl rfl nonempty
  cases fuel with
  | zero => rfl
  | succ fuel =>
    simp only [dropLoop, step, still, if_true]
    rw [dropLoop_stale list (by rw [spare]; exact stale) fuel]
    rfl

theorem oneIsEnough_of_makesRoom (indexed : Indexed env cs tp) (single : candidates tp = [txn])
    (nonempty : Transaction.hash env txn ≠ emptyUint256) (tight : capacity 1 = 1)
    (room : MakesRoom env config poolConfig cs capacity tp) : OneIsEnough env poolConfig tp := by
  intro full other lowest
  obtain rfl : other = txn := by simpa [single] using lowest.1
  by_contra still
  obtain ⟨_, _, _, ran, -⟩ := room
  rw [dropTxns_stuck indexed single nonempty tight full (by simpa using still)] at ran
  cases ran

/-- `DropTxns` makes room if one transaction is enough. If there is only one to choose from, it does so in no other
case: the loop does not end. -/
theorem drop_makes_room (indexed : Indexed env cs tp)
    (heap : Heapified env (candidates tp) (Heap.init (cheaper env) (candidates tp))) :
    (OneIsEnough env poolConfig tp → MakesRoom env config poolConfig cs capacity tp) ∧
    ∀ txn, candidates tp = [txn] → Transaction.hash env txn ≠ emptyUint256 → capacity 1 = 1 →
      (MakesRoom env config poolConfig cs capacity tp ↔ OneIsEnough env poolConfig tp) :=
  ⟨makesRoom_of_oneIsEnough indexed heap, fun _ single nonempty tight =>
    ⟨oneIsEnough_of_makesRoom indexed single nonempty tight, makesRoom_of_oneIsEnough indexed heap⟩⟩

end

end TxnPool

namespace PooledTransfers

open Sample Config

def smallConfig : PoolConfig := { poolConfig with txPoolTotalTxCap := 1 }

def appendSmall (transfer : SignedTransfer) (tp : TxnPool) : Outcome Unit × TxnPool :=
  tp.appendTxnPool tables.env mainnet smallConfig ledger 0 transfer.txn

def crowded : TxnPool := (appendSmall third (appendSmall second (appendSmall first .new).2).2).2

theorem crowded_facts :
    ((appendSmall first .new).1 = .ok () ∧ (appendSmall second (appendSmall first .new).2).1 = .ok () ∧
      (appendSmall third (appendSmall second (appendSmall first .new).2).2).1 = .ok ()) ∧
    (crowded.txLists.entries = [⟨proposer, [first.txn, second.txn, third.txn]⟩] ∧
      crowded.nanoPayTxs.entries.length = 0 ∧
      ([first.txn, second.txn, third.txn].map (Transaction.hash tables.env)).Nodup ∧
      (∀ txn ∈ [first.txn, second.txn, third.txn],
        TxnPool.sender tables.env txn = .ok proposer ∧ txn.unsignedTx.payload.type ≠ .nanoPay)) ∧
    ((crowded.blockValidationState.txnlist.load (Transaction.hash tables.env third.txn)).isSome = true ∧
      unpack tables.env third.txn.unsignedTx.payload = .ok (.transferAsset third.payload) ∧
      crowded.blockValidationState.totalAmount.load
        (Transaction.programHash tables.env (.transferAsset third.payload)) = some 10 ∧
      crowded.blockValidationState.nanoPayPayloads.entries.length = 0) ∧
    (TxnPool.isTxPoolFull smallConfig crowded.txnCount crowded.txnSize = true ∧
      TxnPool.isTxPoolFull smallConfig (crowded.txnCount - 1) (crowded.txnSize - TxnPool.sizeOf tables.env third.txn) =
        true ∧
      Transaction.hash tables.env third.txn ≠ emptyUint256) := by
  decide +kernel

theorem candidates_crowded : TxnPool.candidates crowded = [third.txn] := by
  obtain ⟨-, ⟨lists, nanoPays, -⟩, -⟩ := crowded_facts
  rw [TxnPool.candidates, lists, length_eq_zero_iff.mp nanoPays]
  rfl

theorem indexed_crowded : TxnPool.Indexed tables.env ledger crowded := by
  obtain ⟨-, ⟨lists, nanoPays, distinct, each⟩, ⟨listed, unpacked, total, payloads⟩, -⟩ := crowded_facts
  refine ⟨fun owner list found => ?_, fun key txn found => ?_, fun txn member => ?_, ?_⟩
  · have member := mem_entries.mpr found
    rw [lists, mem_singleton] at member
    cases member
    exact ⟨distinct, each⟩
  · have member := mem_entries.mpr found
    rw [length_eq_zero_iff.mp nanoPays] at member
    cases member
  · rw [candidates_crowded, mem_singleton] at member
    subst member
    refine ⟨listed, ⟨_, unpacked, fun _ => ⟨10, total, by decide⟩⟩, ?_⟩
    rw [length_eq_zero_iff.mp payloads]
    simp
  · rw [length_eq_zero_iff.mp payloads]
    simp

/-- `DropTxns` never returns from the pool with three transfers and a cap of one. -/
theorem drop_never_returns :
    (appendSmall first .new).1 = .ok () ∧ (appendSmall second (appendSmall first .new).2).1 = .ok () ∧
    (appendSmall third (appendSmall second (appendSmall first .new).2).2).1 = .ok () ∧
    TxnPool.Indexed tables.env ledger crowded ∧
    ∀ capacity : Nat → Nat, capacity 1 = 1 → ∀ fuel,
      TxnPool.dropTxns tables.env mainnet smallConfig ledger capacity fuel crowded = none :=
  have ⟨⟨first, second, third⟩, _, _, full, still, nonempty⟩ := crowded_facts
  ⟨first, second, third, indexed_crowded, fun _ tight fuel =>
    TxnPool.dropTxns_stuck indexed_crowded candidates_crowded nonempty tight full still fuel⟩

theorem heapified_crowded : TxnPool.Heapified tables.env (TxnPool.candidates crowded)
    (Heap.init (TxnPool.cheaper tables.env) (TxnPool.candidates crowded)) := by
  have single : Heap.init (TxnPool.cheaper tables.env) [third.txn] = [third.txn] := by simp [Heap.init]
  rw [candidates_crowded, single]
  refine ⟨.refl _, fun first head txn member => ?_⟩
  rw [head?_cons, Option.mem_some_iff] at head
  rw [mem_singleton] at member
  rw [member, head]

theorem drop_makes_room_crowded : TxnPool.Indexed tables.env ledger crowded ∧
    (TxnPool.OneIsEnough tables.env smallConfig crowded →
      TxnPool.MakesRoom tables.env mainnet smallConfig ledger id crowded) ∧
    (TxnPool.MakesRoom tables.env mainnet smallConfig ledger id crowded ↔
      TxnPool.OneIsEnough tables.env smallConfig crowded) :=
  have ⟨_, _, _, _, _, nonempty⟩ := crowded_facts
  have room := @TxnPool.drop_makes_room tables.env mainnet smallConfig ledger crowded id indexed_crowded heapified_crowded
  ⟨indexed_crowded, room.1, room.2 _ candidates_crowded nonempty rfl⟩

end PooledTransfers

end Nkn
