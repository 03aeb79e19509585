import Nkn.Soundness.Concrete
import Nkn.Model.Syncing

/-! # Headers in batches

`saveHeader` checks a batch from its last header down and keeps the header above the next one. A batch that is rejected
on the way down has moved that header, and is linked to the wrong place when it is tried again. -/

namespace Nkn

open Go HeaderSync UInt32

section

variable {env : Env} {sync : HeaderSync} {chain : UInt32 → Header} {state state' : HeaderSyncState} {height : UInt32}
  {header : Header}

/-- The headers of a chain from the block with the first hash to the block with the last one, by height. No height of a
batch exceeds the range of heights. -/
structure HeaderChain (env : Env) (sync : HeaderSync) (chain : UInt32 → Header) : Prop where
  positive : 0 < sync.startHeight
  batches : 0 < sync.batchSize
  range : sync.startHeight ≤ sync.stopHeight
  bounded : sync.stopHeight.toNat + sync.batchSize.toNat < 2 ^ 32
  first : prevHash (chain sync.startHeight) = sync.startPrevHash
  linked : ∀ height, sync.startHeight ≤ height → height < sync.stopHeight →
    prevHash (chain (height + 1)) = Header.hash env (chain height)
  last : Header.hash env (chain sync.stopHeight) = sync.stopHash

/-- No header of a result has the hash of a header of the chain and another block before it. -/
def NoCollisions (env : Env) (sync : HeaderSync) (chain : UInt32 → Header) (result : List Header) : Prop :=
  ∀ header ∈ result, ∀ height, sync.startHeight ≤ height → height ≤ sync.stopHeight →
    Header.hash env header = Header.hash env (chain height) → prevHash header = prevHash (chain height)

/-- The headers above a height are those of the chain, and the one at the height links to the one above it. -/
structure SyncedAbove (env : Env) (sync : HeaderSync) (chain : UInt32 → Header) (height : Nat) (state : HeaderSyncState) :
    Prop where
  headersHash : ∀ above, height < above.toNat → above ≤ sync.stopHeight →
    state.headersHash above = Header.hash env (chain above)
  nextHeader : ∀ here : UInt32, here.toNat = height → sync.startHeight ≤ here → here < sync.stopHeight →
    ∃ next, state.nextHeader = some next ∧ prevHash next = Header.hash env (chain here)

variable (isChain : HeaderChain env sync chain)

include isChain

theorem checkHeader_linked (above : SyncedAbove env sync chain height.toNat state)
    (low : sync.startHeight ≤ height) (high : height ≤ sync.stopHeight)
    (same : Header.hash env header = Header.hash env (chain height)) (prev : prevHash header = prevHash (chain height)) :
    ∃ state', sync.checkHeader env height header state = (.ok true, state') ∧
      SyncedAbove env sync chain (height.toNat - 1) state' := by
  have compared : (if height < sync.stopHeight then state.nextHeader.map prevHash else some (Header.hash env header)) =
      some (Header.hash env header) := by
    split_ifs with inner
    · obtain ⟨_, found, links⟩ := above.nextHeader height rfl low inner
      rw [found, Option.map_some, links, same]
    · rfl
  have atStop : ¬ (height = sync.stopHeight ∧ Header.hash env header ≠ sync.stopHash) := by
    rintro ⟨rfl, other⟩
    exact other (same.trans isChain.last)
  have atStart : ¬ (height = sync.startHeight ∧ prevHash header ≠ sync.startPrevHash) := by
    rintro ⟨rfl, other⟩
    exact other (prev.trans isChain.first)
  have saved : sync.checkHeader env height header state = (.ok true, {
      nextHeader := some header
      headersHash := Function.update state.headersHash height (Header.hash env header)
      headers := if sync.fullHeader then Function.update state.headers height (some header) else state.headers }) := by
    simp only [checkHeader, compared, if_neg atStop, if_neg atStart, ne_eq, not_true, if_false]
  refine ⟨_, saved, ⟨fun other higher bound => ?_, fun here at_here lower inner => ⟨header, rfl, ?_⟩⟩⟩
  · simp only
    rcases eq_or_ne other height with rfl | different
    · rw [Function.update_self, same]
    · rw [Function.update_of_ne different]
      refine above.headersHash other ?_ bound
      have apart : other.toNat ≠ height.toNat := mt UInt32.toNat_inj.mp different
      omega
  · have positive := lt_iff_toNat_lt.mp isChain.positive
    have low := le_iff_toNat_le.mp low
    have zero : (0 : UInt32).toNat = 0 := rfl
    have step : here + 1 = height := by
      rw [← UInt32.toNat_inj, UInt32.toNat_add, toNat_one]
      have := height.toNat_lt
      omega
    rw [prev, ← isChain.linked here lower inner, step]

theorem checkHeader_unlinked (above : SyncedAbove env sync chain height.toNat state)
    (low : sync.startHeight ≤ height) (high : height ≤ sync.stopHeight)
    (other : Header.hash env header ≠ Header.hash env (chain height)) :
    sync.checkHeader env height header state = (.ok false, state) := by
  by_cases top : height = sync.stopHeight
  · subst top
    rw [isChain.last] at other
    simp [checkHeader, other]
  · have inner : height < sync.stopHeight := UInt32.lt_of_le_of_ne high top
    obtain ⟨_, found, links⟩ := above.nextHeader height rfl low inner
    simp [checkHeader, inner, top, found, links, other]

theorem checkDown_spec {start : UInt32} {left : Nat} {result : List Header}
    (low : sync.startHeight ≤ start) (high : start.toNat + left ≤ sync.stopHeight.toNat + 1) (long : left ≤ result.length)
    (noCollisions : NoCollisions env sync chain result)
    (above : SyncedAbove env sync chain (start.toNat + left - 1) state) :
    (∃ state', sync.checkDown env start result left state = (.ok true, state') ∧
        SyncedAbove env sync chain (start.toNat - 1) state') ∨
      ∃ state', sync.checkDown env start result left state = (.ok false, state') ∧
        (∃ i header, result[i]? = some header ∧ i < left ∧
          Header.hash env header ≠ Header.hash env (chain (start + UInt32.ofNat i))) ∧
        ∀ header, 0 < left → result[left - 1]? = some header →
          Header.hash env header ≠ Header.hash env (chain (start + UInt32.ofNat (left - 1))) → state' = state := by
  induction left generalizing state with
  | zero => exact .inl ⟨state, rfl, by simpa using above⟩
  | succ left ih =>
    obtain ⟨header, found⟩ : ∃ header, result[left]? = some header := ⟨_, List.getElem?_eq_getElem (by omega)⟩
    have member := List.mem_of_getElem? found
    have bounded := isChain.bounded
    have toNat : (start + UInt32.ofNat left).toNat = start.toNat + left := by
      rw [UInt32.toNat_add, toNat_ofNat_of_lt' (by simp only [UInt32.size]; omega)]
      omega
    have above : SyncedAbove env sync chain (start + UInt32.ofNat left).toNat state := toNat ▸ above
    have positive := lt_iff_toNat_lt.mp isChain.positive
    have lower := le_iff_toNat_le.mp low
    have low' : sync.startHeight ≤ start + UInt32.ofNat left := le_iff_toNat_le.mpr (by omega)
    have high' : start + UInt32.ofNat left ≤ sync.stopHeight := le_iff_toNat_le.mpr (by omega)
    have nonzero : start + UInt32.ofNat left ≠ 0 := fun zero => by
      have zero := congrArg UInt32.toNat zero
      have none : (0 : UInt32).toNat = 0 := rfl
      omega
    have unfolds {linked : Bool} {next : HeaderSyncState}
        (checked : sync.checkHeader env (start + UInt32.ofNat left) header state = (.ok linked, next)) :
        sync.checkDown env start result (left + 1) state =
          if linked then sync.checkDown env start result left next else (.ok false, next) := by
      rw [checkDown, found, Option.elim_some, Proc.lift_ok_bind, Proc.bind_of_ok checked, if_neg nonzero]
      split_ifs
      · rfl
      · rfl
    by_cases same : Header.hash env header = Header.hash env (chain (start + UInt32.ofNat left))
    · have prev := noCollisions header member _ low' high' same
      obtain ⟨_, checked, above⟩ := checkHeader_linked isChain above low' high' same prev
      rw [unfolds checked, if_pos rfl]
      rcases ih (by omega) (by omega) (toNat ▸ above) with accepted | ⟨last, rejected, ⟨i, wrong, at_i, _, differs⟩, -⟩
      · exact .inl accepted
      · refine .inr ⟨last, rejected, ⟨i, wrong, at_i, by omega, differs⟩, fun header' _ found' other => ?_⟩
        obtain rfl := Option.mem_unique found found'
        exact absurd same other
    · have checked := checkHeader_unlinked isChain above low' high' same
      rw [unfolds checked]
      exact .inr ⟨state, rfl, ⟨left, header, found, by omega, same⟩, fun _ _ _ _ => rfl⟩

/-- A result with a header for every height of the batch. -/
def Complete (sync : HeaderSync) (batchID : UInt32) (result : List Header) : Prop := sync.batchLength batchID ≤ result.length

def lastOf (sync : HeaderSync) (batchID : UInt32) (result : List Header) : Option Header :=
  result[sync.batchLength batchID - 1]?

def lastHeight (sync : HeaderSync) (batchID : UInt32) : UInt32 :=
  sync.batchStartHeight batchID + UInt32.ofNat (sync.batchLength batchID - 1)

/-- The batches are finished from the last one down, and a batch that is rejected is tried again. `harmless` is what is
required of a rejected result. The run has come to the state with the given number of batches left. -/
inductive BatchRun (env : Env) (sync : HeaderSync) (chain : UInt32 → Header) (harmless : UInt32 → List Header → Prop) :
    Nat → HeaderSyncState → Prop
  | start : BatchRun env sync chain harmless sync.numBatches.toNat HeaderSync.initial
  | accepted {batchID : UInt32} {state state' : HeaderSyncState} {result : List Header}
      (run : BatchRun env sync chain harmless (batchID.toNat + 1) state) (complete : Complete sync batchID result)
      (noCollisions : NoCollisions env sync chain result)
      (saved : sync.saveHeader env batchID result state = (.ok true, state')) :
      BatchRun env sync chain harmless batchID.toNat state'
  | rejected {batchID : UInt32} {state state' : HeaderSyncState} {result : List Header}
      (run : BatchRun env sync chain harmless (batchID.toNat + 1) state) (complete : Complete sync batchID result)
      (noCollisions : NoCollisions env sync chain result)
      (saved : sync.saveHeader env batchID result state = (.ok false, state')) (allowed : harmless batchID result) :
      BatchRun env sync chain harmless (batchID.toNat + 1) state'

/-- A rejected result does no harm if it is one for the last batch, or if the last of its headers is wrong already. -/
def WrongAtOnce (env : Env) (sync : HeaderSync) (chain : UInt32 → Header) (batchID : UInt32) (result : List Header) : Prop :=
  batchID.toNat + 1 = sync.numBatches.toNat ∨ ∀ header ∈ lastOf sync batchID result,
    Header.hash env header ≠ Header.hash env (chain (lastHeight sync batchID))

/-- The headers of the chain at the heights of the batch. -/
def Correct (sync : HeaderSync) (chain : UInt32 → Header) (batchID : UInt32) (result : List Header) : Prop :=
  ∀ i < sync.batchLength batchID, result[i]? = some (chain (sync.batchStartHeight batchID + UInt32.ofNat i))

variable {batchID : UInt32}

theorem HeaderChain.toNat_numBatches : sync.numBatches.toNat =
    (sync.stopHeight.toNat - sync.startHeight.toNat) / sync.batchSize.toNat + 1 := by
  have range := le_iff_toNat_le.mp isChain.range
  have positive := lt_iff_toNat_lt.mp isChain.positive
  have fewer := Nat.div_le_self (sync.stopHeight.toNat - sync.startHeight.toNat) sync.batchSize.toNat
  have bounded := sync.stopHeight.toNat_lt
  rw [numBatches, UInt32.toNat_add, UInt32.toNat_div, UInt32.toNat_sub_of_le _ _ isChain.range, toNat_one]
  exact Nat.mod_eq_of_lt (by omega)

/-- The heights of a batch, without overflow: from its start up to the start of the next one, or to the stop height. -/
theorem HeaderChain.batch (listed : batchID.toNat < sync.numBatches.toNat) :
    (sync.batchStartHeight batchID).toNat = sync.startHeight.toNat + batchID.toNat * sync.batchSize.toNat ∧
      sync.batchLength batchID = min sync.batchSize.toNat
        (sync.stopHeight.toNat + 1 - (sync.startHeight.toNat + batchID.toNat * sync.batchSize.toNat)) ∧
      sync.startHeight.toNat + batchID.toNat * sync.batchSize.toNat ≤ sync.stopHeight.toNat := by
  have range := le_iff_toNat_le.mp isChain.range
  have batches : 0 < sync.batchSize.toNat := lt_iff_toNat_lt.mp isChain.batches
  have bounded := isChain.bounded
  rw [isChain.toNat_numBatches] at listed
  have lower := Nat.div_mul_le_self (sync.stopHeight.toNat - sync.startHeight.toNat) sync.batchSize.toNat
  have begins : batchID.toNat * sync.batchSize.toNat ≤
      (sync.stopHeight.toNat - sync.startHeight.toNat) / sync.batchSize.toNat * sync.batchSize.toNat :=
    Nat.mul_le_mul_right _ (by omega)
  have start : (sync.batchStartHeight batchID).toNat = sync.startHeight.toNat + batchID.toNat * sync.batchSize.toNat := by
    rw [batchStartHeight, UInt32.toNat_add, UInt32.toNat_mul, Nat.mod_eq_of_lt (by omega : _ * _ < 2 ^ 32),
      Nat.mod_eq_of_lt (by omega)]
  refine ⟨start, ?_, by omega⟩
  have next : (sync.batchStartHeight batchID + sync.batchSize - 1).toNat =
      (sync.batchStartHeight batchID).toNat + sync.batchSize.toNat - 1 := by
    have sum : (sync.batchStartHeight batchID + sync.batchSize).toNat =
        (sync.batchStartHeight batchID).toNat + sync.batchSize.toNat := by
      rw [UInt32.toNat_add]
      exact Nat.mod_eq_of_lt (by omega)
    rw [UInt32.toNat_sub_of_le _ _ (le_iff_toNat_le.mpr (by rw [sum, toNat_one]; omega)), sum,
      toNat_one]
  have ends : (sync.batchEndHeight batchID).toNat =
      min sync.stopHeight.toNat ((sync.batchStartHeight batchID).toNat + sync.batchSize.toNat - 1) := by
    simp only [batchEndHeight, gt_iff_lt, lt_iff_toNat_lt, next]
    split_ifs with beyond
    · omega
    · rw [next]
      omega
  have ordered : sync.batchStartHeight batchID ≤ sync.batchEndHeight batchID := le_iff_toNat_le.mpr (by omega)
  rw [batchLength, if_pos ordered, UInt32.toNat_sub_of_le _ _ ordered, ends, start]
  omega

/-- The height up to which the headers are still missing when a number of batches is left. -/
def frontier (sync : HeaderSync) (left : Nat) : Nat :=
  min sync.stopHeight.toNat (sync.startHeight.toNat + left * sync.batchSize.toNat - 1)

theorem frontier_succ (listed : batchID.toNat < sync.numBatches.toNat) :
    (sync.batchStartHeight batchID).toNat + sync.batchLength batchID - 1 = frontier sync (batchID.toNat + 1) ∧
      0 < sync.batchLength batchID := by
  obtain ⟨start, length, inside⟩ := isChain.batch listed
  have batches : 0 < sync.batchSize.toNat := lt_iff_toNat_lt.mp isChain.batches
  have next : (batchID.toNat + 1) * sync.batchSize.toNat = batchID.toNat * sync.batchSize.toNat + sync.batchSize.toNat :=
    Nat.succ_mul _ _
  rw [start, length, frontier, next]
  omega

theorem frontier_eq (listed : batchID.toNat < sync.numBatches.toNat) :
    (sync.batchStartHeight batchID).toNat - 1 = frontier sync batchID.toNat := by
  obtain ⟨start, -, inside⟩ := isChain.batch listed
  rw [start, frontier]
  omega

theorem frontier_numBatches : frontier sync sync.numBatches.toNat = sync.stopHeight.toNat := by
  have batches : 0 < sync.batchSize.toNat := lt_iff_toNat_lt.mp isChain.batches
  have upper := @Nat.lt_div_mul_add (sync.stopHeight.toNat - sync.startHeight.toNat) _ batches
  rw [frontier, isChain.toNat_numBatches, Nat.succ_mul]
  omega

omit isChain

theorem syncedAbove_stop : SyncedAbove env sync chain sync.stopHeight.toNat state :=
  ⟨fun _ higher bound => absurd (le_iff_toNat_le.mp bound) (by omega),
    fun _ top _ lower => absurd (lt_iff_toNat_lt.mp lower) (by omega)⟩

theorem saveHeader_spec (isChain : HeaderChain env sync chain) {result : List Header}
    (listed : batchID.toNat < sync.numBatches.toNat) (complete : Complete sync batchID result)
    (noCollisions : NoCollisions env sync chain result)
    (above : SyncedAbove env sync chain (frontier sync (batchID.toNat + 1)) state) :
    (∃ state', sync.saveHeader env batchID result state = (.ok true, state') ∧
        SyncedAbove env sync chain (frontier sync batchID.toNat) state') ∨
      ∃ state', sync.saveHeader env batchID result state = (.ok false, state') ∧ ¬ Correct sync chain batchID result ∧
        (WrongAtOnce env sync chain batchID result →
          SyncedAbove env sync chain (frontier sync (batchID.toNat + 1)) state') := by
  obtain ⟨start, length, inside⟩ := isChain.batch listed
  obtain ⟨height, some⟩ := frontier_succ isChain listed
  have begins : sync.startHeight ≤ sync.batchStartHeight batchID := le_iff_toNat_le.mpr (by omega)
  have bound : (sync.batchStartHeight batchID).toNat + sync.batchLength batchID ≤ sync.stopHeight.toNat + 1 := by
    rw [start, length]
    omega
  rcases checkDown_spec isChain begins bound complete noCollisions (height ▸ above) with
    ⟨state', saved, above'⟩ | ⟨state', rejected, ⟨i, header, found, inside, wrong⟩, unchanged⟩
  · exact .inl ⟨state', saved, frontier_eq isChain listed ▸ above'⟩
  · refine .inr ⟨state', rejected, fun correct => ?_, ?_⟩
    · obtain rfl := Option.mem_unique found (correct i inside)
      exact wrong rfl
    · rintro (isLast | wrongEnd)
      · rw [isLast, frontier_numBatches isChain]
        exact syncedAbove_stop
      · obtain ⟨ending, atEnd⟩ : ∃ header, lastOf sync batchID result = Option.some header :=
          ⟨_, List.getElem?_eq_getElem (by have complete : _ ≤ result.length := complete; omega)⟩
        rw [unchanged ending some atEnd (wrongEnd ending atEnd)]
        exact above

theorem BatchRun.synced (isChain : HeaderChain env sync chain) {left : Nat}
    (run : BatchRun env sync chain (WrongAtOnce env sync chain) left state) :
    left ≤ sync.numBatches.toNat ∧ SyncedAbove env sync chain (frontier sync left) state := by
  induction run with
  | start => exact ⟨le_rfl, frontier_numBatches isChain ▸ syncedAbove_stop⟩
  | accepted _ complete noCollisions saved ih =>
    obtain ⟨listed, above⟩ := ih
    rcases saveHeader_spec isChain listed complete noCollisions above with ⟨_, saved', above'⟩ | ⟨_, rejected, -⟩
    · obtain ⟨-, rfl⟩ := Prod.mk.inj (saved.symm.trans saved')
      exact ⟨by omega, above'⟩
    · simp [saved] at rejected
  | rejected _ complete noCollisions saved allowed ih =>
    obtain ⟨listed, above⟩ := ih
    rcases saveHeader_spec isChain listed complete noCollisions above with ⟨_, accepted, -⟩ | ⟨_, saved', -, above'⟩
    · simp [saved] at accepted
    · obtain ⟨-, rfl⟩ := Prod.mk.inj (saved.symm.trans saved')
      exact ⟨listed, above' allowed⟩

/-- If every rejected result is wrong at once, or one for the last batch, a correct result is accepted whenever it comes,
and the headers are those of the chain when all batches are finished. -/
theorem bad_batches_tolerated (isChain : HeaderChain env sync chain) {left : Nat}
    (run : BatchRun env sync chain (WrongAtOnce env sync chain) left state) :
    (∀ batchID result, left = batchID.toNat + 1 → Complete sync batchID result → NoCollisions env sync chain result →
        Correct sync chain batchID result → ∃ state', sync.saveHeader env batchID result state = (.ok true, state')) ∧
      (left = 0 → ∀ height, sync.startHeight ≤ height → height ≤ sync.stopHeight →
        state.headersHash height = Header.hash env (chain height)) := by
  obtain ⟨listed, above⟩ := run.synced isChain
  constructor
  · rintro batchID result rfl complete noCollisions correct
    rcases saveHeader_spec isChain listed complete noCollisions above with ⟨state', saved, -⟩ | ⟨_, -, incorrect, -⟩
    · exact ⟨state', saved⟩
    · exact absurd correct incorrect
  · rintro rfl height low high
    have positive := lt_iff_toNat_lt.mp isChain.positive
    have low := le_iff_toNat_le.mp low
    have zero : (0 : UInt32).toNat = 0 := rfl
    exact above.headersHash height (by rw [frontier]; omega) high

end

namespace HalfWay

open Sample

def hash₁ : Uint256 := Word.ofNat 32 0x9a4f630b3832a74e011dd2146f8b216d46effcc50e2228ad0e6c0f736d9f735c

def hash₂ : Uint256 := Word.ofNat 32 0xb005b691877dd5d590975752abbc991079509552ad3c0076a7e479077562166c

def hash₃ : Uint256 := Word.ofNat 32 0xdc9106c53dd6530481a8841f17d21975b98f201687c5aefcf6218bebf2cb788c

def linkedTo (prev : Uint256) (height : UInt32) : Header :=
  let header := header height emptyUint256 emptyUint256
  { header with unsignedHeader := { header.unsignedHeader with prevBlockHash := prev.toArray } }

def chain (height : UInt32) : Header :=
  if height = 1 then linkedTo emptyUint256 1 else if height = 2 then linkedTo hash₁ 2 else linkedTo hash₂ 3

def foreign : Header := linkedTo emptyUint256 9

def tables : Tables where
  sha256 :=
    Tables.hashedTwice (Header.serializeUnsigned (chain 1).unsignedHeader)
      (Word.ofNat 32 0x3cd6e00b99d52df007d4d1dd77ccf9523479caf141e51c6b2193f465661565e6) hash₁ ++
    Tables.hashedTwice (Header.serializeUnsigned (chain 2).unsignedHeader)
      (Word.ofNat 32 0x838f894d321f0a2be34dd0a599cde71dbe5c2eb8518779bd57a64b2973efa4e4) hash₂ ++
    Tables.hashedTwice (Header.serializeUnsigned (chain 3).unsignedHeader)
      (Word.ofNat 32 0x4977160afd4c3aeace985b3aaead1a0d15c241e71c1501ceb9487ec3c9617a97) hash₃ ++
    Tables.hashedTwice (Header.serializeUnsigned foreign.unsignedHeader)
      (Word.ofNat 32 0x3a9609d1e29f92e4502becac1b7b3511444673e6c440b940e4166474e29c7019)
      (Word.ofNat 32 0x663676bff6e57f76cc94711efc457603c4141e8504b7b71d82bd806f719153d8)

def sync : HeaderSync where
  startHeight := 1
  stopHeight := 3
  batchSize := 2
  startPrevHash := emptyUint256
  stopHash := hash₃
  fullHeader := false

def state : HeaderSyncState := (sync.saveHeader tables.env 1 [chain 3] HeaderSync.initial).2

def spoiled : HeaderSyncState := (sync.saveHeader tables.env 0 [foreign, chain 2] state).2

def refused : HeaderSyncState := (sync.saveHeader tables.env 0 [chain 1, foreign] state).2

def finished : HeaderSyncState := (sync.saveHeader tables.env 0 [chain 1, chain 2] refused).2

theorem runs : (sync.saveHeader tables.env 1 [chain 3] initial).1 = .ok true ∧
    (sync.saveHeader tables.env 0 [foreign, chain 2] state).1 = .ok false ∧
    (sync.saveHeader tables.env 0 [chain 1, chain 2] spoiled).1 = .ok false ∧
    (sync.saveHeader tables.env 0 [chain 1, foreign] state).1 = .ok false ∧
    (sync.saveHeader tables.env 0 [chain 1, chain 2] refused).1 = .ok true := by
  decide +kernel

theorem hashes : Header.hash tables.env (chain 1) = hash₁ ∧ Header.hash tables.env (chain 2) = hash₂ ∧
    Header.hash tables.env (chain 3) = hash₃ ∧ prevHash (chain 1) = emptyUint256 ∧ prevHash (chain 2) = hash₁ ∧
    prevHash (chain 3) = hash₂ ∧
    ([chain 1, chain 2, chain 3, foreign].map (Header.hash tables.env)).Nodup := by
  decide +kernel

theorem heights {height : UInt32} (low : sync.startHeight ≤ height) (high : height ≤ sync.stopHeight) :
    height = 1 ∨ height = 2 ∨ height = 3 := by
  have low : 1 ≤ height.toNat := le_iff_toNat_le.mp low
  have high : height.toNat ≤ 3 := le_iff_toNat_le.mp high
  simp only [← UInt32.toNat_inj]
  change height.toNat = 1 ∨ height.toNat = 2 ∨ height.toNat = 3
  omega

theorem isChain : HeaderChain tables.env sync chain := by
  obtain ⟨hash₁, hash₂, hash₃, prev₁, prev₂, prev₃, -⟩ := hashes
  refine ⟨by decide, by decide, by decide, by decide, prev₁, fun height low high => ?_, hash₃⟩
  rcases heights low (UInt32.le_of_lt high) with rfl | rfl | rfl
  · exact prev₂.trans hash₁.symm
  · exact prev₃.trans hash₂.symm
  · exact absurd high (by decide)

theorem noCollisions {result : List Header} (known : result ⊆ [chain 1, chain 2, chain 3, foreign]) :
    NoCollisions tables.env sync chain result := by
  obtain ⟨-, -, -, -, -, -, distinct⟩ := hashes
  intro header member height low high same
  have listed : chain height ∈ [chain 1, chain 2, chain 3, foreign] := by
    rcases heights low high with rfl | rfl | rfl <;> simp
  rw [List.inj_on_of_nodup_map distinct (known member) listed same]

theorem correct : Correct sync chain 0 [chain 1, chain 2] := by
  intro i inside
  obtain rfl | rfl : i = 0 ∨ i = 1 := by
    have inside : i < 2 := inside
    omega
  · rfl
  · rfl

/-- The batch with the right headers is rejected after one whose first header was wrong. -/
theorem correct_batch_rejected : Correct sync chain 0 [chain 1, chain 2] ∧
    sync.saveHeader tables.env 1 [chain 3] HeaderSync.initial = (.ok true, state) ∧
    sync.saveHeader tables.env 0 [foreign, chain 2] state = (.ok false, spoiled) ∧
    (sync.saveHeader tables.env 0 [chain 1, chain 2] spoiled).1 = .ok false := by
  obtain ⟨saved, rejected, again, -⟩ := runs
  exact ⟨correct, Proc.eq_of_fst saved, Proc.eq_of_fst rejected, again⟩

/-- The batch is rejected because of its last header, and accepted when it is tried again. -/
theorem bad_batches_tolerated_twoBatches :
    sync.saveHeader tables.env 0 [chain 1, foreign] state = (.ok false, refused) ∧
      (∃ state', sync.saveHeader tables.env 0 [chain 1, chain 2] refused = (.ok true, state')) ∧
      finished.headersHash 1 = hash₁ ∧ HeaderChain tables.env sync chain := by
  obtain ⟨saved, -, -, rejected, again⟩ := runs
  have run : BatchRun tables.env sync chain (WrongAtOnce tables.env sync chain) 1 state :=
    @BatchRun.accepted _ _ _ _ 1 _ _ [chain 3] .start (show sync.batchLength 1 ≤ 1 by decide)
      (noCollisions (by simp)) (Proc.eq_of_fst saved)
  have run : BatchRun tables.env sync chain (WrongAtOnce tables.env sync chain) 1 refused := by
    refine @BatchRun.rejected _ _ _ _ 0 _ _ [chain 1, foreign] run (show sync.batchLength 0 ≤ 2 by decide)
      (noCollisions (by simp)) (Proc.eq_of_fst rejected) (.inr fun header last => ?_)
    obtain rfl := Option.some.inj last
    decide +kernel
  have run' : BatchRun tables.env sync chain (WrongAtOnce tables.env sync chain) 0 finished :=
    @BatchRun.accepted _ _ _ _ 0 _ _ [chain 1, chain 2] run (show sync.batchLength 0 ≤ 2 by decide)
      (noCollisions (by simp)) (Proc.eq_of_fst again)
  refine ⟨Proc.eq_of_fst rejected, ?_, ?_, isChain⟩
  · exact (bad_batches_tolerated isChain run).1 0 [chain 1, chain 2] rfl (show sync.batchLength 0 ≤ 2 by decide)
      (noCollisions (by simp)) correct
  · exact ((bad_batches_tolerated isChain run').2 rfl 1 (by decide) (by decide)).trans hashes.1

end HalfWay

end Nkn
