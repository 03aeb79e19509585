import Nkn.Proofs.Sequence
import Nkn.Soundness.Names

/-! # The versions of node ids

A GenerateID transaction gives its account a placeholder with the version it asks for, and the id `generateIDBlockDelay`
blocks later. -/

namespace Nkn

open Go Outcome Config Store StateDB List Option Except Function HeightDependent

def heldID (states : StateDB) (addr : Uint160) : Bytes × UInt8 :=
  ((states.getIDVersion addr).1.getD [], (states.getIDVersion addr).2)

/-- What a GenerateID transaction asks for: an id for an account, with the version as it is stored. -/
structure IDRequest where
  account : Uint160
  version : UInt8
  deriving DecidableEq

def placeholderID : Bytes := List.replicate 32 0

section

variable (env : Env)

def idRequest (txn : Transaction) : Option IDRequest :=
  match unpack env txn.unsignedTx.payload with
  | .ok (.generateID genID) => some ⟨createProgramHash env genID.publicKey, genID.version.toInt8.toUInt8⟩
  | _ => none

def idRequests (txns : List Transaction) : List IDRequest := txns.filterMap (idRequest env)

def assignmentsFrom (prevBlockHash : Uint256) (randomBeacon : Bytes) (txns : List Transaction) :
    List (IDRequest × Bytes) :=
  txns.filterMap fun txn => (idRequest env txn).map fun request =>
    (request, Block.computeID env prevBlockHash (Transaction.hash env txn) (randomBeacon.take randomBeaconUniqueLength))

def idAssignments (cs : ChainStore) (b : Block) : List (IDRequest × Bytes) :=
  if b.height > generateIDBlockDelay then
    match cs.getBlockByHeight env (b.height - generateIDBlockDelay) with
    | .ok prevBlock =>
      assignmentsFrom env (Block.hash env prevBlock) b.header.unsignedHeader.randomBeacon prevBlock.transactions
    | .error _ => []
  else []

/-- The accounts that a block asks ids for ask once in the block and have asked in none of the blocks that are fewer than
`generateIDBlockDelay` heights below it. The versions fit the byte in which they are stored, and the hash of the block
belongs to no other block. -/
structure IDsApart (cs : ChainStore) (b : Block) : Prop where
  once : ((idRequests env b.transactions).map IDRequest.account).Nodup
  spaced : ∀ t p, cs.getBlockByHeight env t = .ok p → t.toNat < b.height.toNat →
    b.height.toNat < t.toNat + generateIDBlockDelay.toNat → ∀ request ∈ idRequests env p.transactions,
      request.account ∉ (idRequests env b.transactions).map IDRequest.account
  fits : ∀ txn ∈ b.transactions, ∀ genID, unpack env txn.unsignedTx.payload = .ok (.generateID genID) →
    0 ≤ genID.version.toInt ∧ genID.version.toInt < 256
  newHash : ∀ t, cs.db.blockHashes t ≠ some (Block.hash env b)

/-- The id that a ledger holds for the account of a request of the block at height `h`, before and after a further block:
the placeholder until the block that is `generateIDBlockDelay` heights above, which writes the id computed from the
transaction of the request. From then on that id is kept until the account gets one of a higher version. -/
structure HeldAcross (h : UInt32) (request : IDRequest) (cs : ChainStore) (b : Block) (cs' : ChainStore) : Prop where
  waiting : b.height.toNat < h.toNat + generateIDBlockDelay.toNat →
    heldID cs'.states request.account = (placeholderID, request.version)
  assigned : b.height.toNat = h.toNat + generateIDBlockDelay.toNat →
    request.account ∉ (idRequests env b.transactions).map IDRequest.account →
      ∃ p txn, cs.getBlockByHeight env h = .ok p ∧ txn ∈ p.transactions ∧ idRequest env txn = some request ∧
        heldID cs'.states request.account = (Block.computeID env (Block.hash env p) (Transaction.hash env txn)
          (b.header.unsignedHeader.randomBeacon.take randomBeaconUniqueLength), request.version)
  kept : h.toNat + generateIDBlockDelay.toNat < b.height.toNat →
    heldID cs'.states request.account = heldID cs.states request.account ∨
      request.version < (heldID cs'.states request.account).2

/-- What becomes of a request of the last block of a ledger: the placeholder has its version, in every further run the
stores hold the id as `HeldAcross` says, and no later block asks for the same version again. -/
structure AssignedOnce (config : Config) (cs : ChainStore) (request : IDRequest) : Prop where
  placeholder : heldID cs.states request.account = (placeholderID, request.version)
  assigned : ∀ cs' b cs'', Run env config (IDsApart env) cs cs' → Extends env config cs' b cs'' → IDsApart env cs' b →
    HeldAcross env cs.currentBlockHeight request cs' b cs''
  unique : ∀ cs' b cs'', Run env config (IDsApart env) cs cs' → Extends env config cs' b cs'' → IDsApart env cs' b →
    request ∉ idRequests env b.transactions

end

variable {env : Env} {config : Config} {cs cs' cs'' : ChainStore} {b : Block} {states states' start : StateDB}
  {height : UInt32} {fees : Int64} {txn : Transaction} {txns : List Transaction} {addr : Uint160}

theorem mem_idRequests {request : IDRequest} (member : request ∈ idRequests env txns) :
    ∃ txn ∈ txns, ∃ genID, unpack env txn.unsignedTx.payload = .ok (.generateID genID) ∧
      request = ⟨createProgramHash env genID.publicKey, genID.version.toInt8.toUInt8⟩ := by
  obtain ⟨txn, inside, asked⟩ := mem_filterMap.mp member
  refine ⟨txn, inside, ?_⟩
  unfold idRequest at asked
  split at asked
  · exact ⟨_, ‹_›, (some.inj asked).symm⟩
  · simp at asked

variable {prevBlockHash : Uint256} {randomBeacon : Bytes}

theorem exists_mem_assignmentsFrom {request : IDRequest} :
    (∃ id, (request, id) ∈ assignmentsFrom env prevBlockHash randomBeacon txns) ↔ request ∈ idRequests env txns := by
  simp only [assignmentsFrom, idRequests, mem_filterMap, map_eq_some_iff, Prod.mk.injEq]
  constructor
  · rintro ⟨_, txn, inside, _, asked, rfl, rfl⟩
    exact ⟨txn, inside, asked⟩
  · rintro ⟨txn, inside, asked⟩
    exact ⟨_, txn, inside, request, asked, rfl, rfl⟩

theorem heldID_getOrNewAccount : heldID states addr =
    ((states.getOrNewAccount addr).id.getD [], (states.getOrNewAccount addr).idVersion) := by
  simp only [heldID, getIDVersion, getOrNewAccount]
  cases states.getAccount addr <;> rfl

variable {addr' : Uint160}

theorem heldID_setAccount {acc : Account} : heldID (states.setAccount addr acc) addr' =
    if addr' = addr then (acc.id.getD [], acc.idVersion) else heldID states addr' := by
  simp only [heldID, getIDVersion, getAccount_setAccount]
  split_ifs <;> rfl

theorem heldID_of_accounts (same : states'.accounts = states.accounts) : heldID states' addr = heldID states addr := by
  simp only [heldID, getIDVersion, getAccount, same]

@[simp] theorem heldID_adjust {assetID : Uint256} {value : Int64} :
    heldID (states.adjust addr assetID value) addr' = heldID states addr' := by
  rw [adjust, heldID_setAccount]
  split_ifs with same
  · rw [same, heldID_getOrNewAccount]
    rfl
  · rfl

@[simp] theorem heldID_incrNonce : heldID (states.incrNonce addr) addr' = heldID states addr' := by
  rw [incrNonce, heldID_setAccount]
  split_ifs with same
  · rw [same, heldID_getOrNewAccount]
    rfl
  · rfl

@[simp] theorem heldID_updateID {id : Bytes} {version : UInt8} :
    heldID (states.updateID addr id version) addr' = if addr' = addr then (id, version) else heldID states addr' :=
  heldID_setAccount

theorem heldID_spendTransaction (addr : Uint160)
    (run : spendTransaction env config cs fees false height states txn = .ok states') :
    heldID states' addr = (idRequest env txn).elim (heldID states addr) fun request =>
      if addr = request.account then (placeholderID, request.version) else heldID states addr := by
  obtain ⟨message, unpacked, _, payload⟩ := spendTransaction_eq_ok.mp run
  have paid (addr : Uint160) : heldID (afterFee config height states txn (Transaction.programHash env message) message)
      addr = heldID states addr := by
    unfold afterFee
    split_ifs <;> simp
  simp only [idRequest, unpacked]
  cases message with
  | coinbase _ =>
    simp only [spendPayload, spendCoinbase, bind_eq_ok, updateBalance_addition, ok.injEq] at payload
    obtain ⟨debited, debit, _, rfl, supply⟩ := payload
    have debited_id : heldID debited addr = heldID states addr := by
      unfold takeDonation at debit
      split at debit
      · rw [← ok.inj debit, paid]
      · obtain ⟨_, _, debit⟩ := bind_eq_ok.mp debit
        obtain ⟨_, rfl⟩ := updateBalance_subtraction_eq_ok.mp debit
        rw [heldID_adjust, paid]
    split at supply
    · obtain ⟨_, _, _, rfl⟩ := increaseTotalSupply_eq_ok.mp supply
      rw [heldID_of_accounts accounts_storeAsset, heldID_adjust, debited_id]
      rfl
    · rw [← ok.inj supply, heldID_adjust, debited_id]
      rfl
  | generateID _ =>
    rw [heldID_of_accounts (accounts_spendPayload (by simp [Pb.Message.type]) payload)]
    simp only [applyMoves, heldID_adjust, heldID_updateID, paid, elim_some]
    rfl
  | _ =>
    rw [heldID_of_accounts (accounts_spendPayload (by simp [Pb.Message.type]) payload)]
    simp [applyMoves, paid]

theorem heldID_spendTransactions (addr : Uint160)
    (run : spendTransactions env config cs fees height states txns = .ok states') :
    heldID states' addr = heldID states addr ∧ addr ∉ (idRequests env txns).map IDRequest.account ∨
      ∃ request ∈ idRequests env txns, request.account = addr ∧
        heldID states' addr = (placeholderID, request.version) := by
  induction txns generalizing states with
  | nil =>
    obtain rfl := foldlM_nil_eq_ok.mp run
    exact .inl ⟨rfl, by simp [idRequests]⟩
  | cons txn _ ih =>
    obtain ⟨_, first, rest⟩ := foldlM_cons_eq_ok.mp run
    have turn := heldID_spendTransaction addr first
    rcases ih rest with ⟨kept, unasked⟩ | ⟨request, member, own, held⟩
    · rw [kept, turn]
      cases asked : idRequest env txn with
      | none => exact .inl ⟨rfl, by simpa [idRequests, asked] using unasked⟩
      | some request =>
        by_cases own : addr = request.account
        · exact .inr ⟨request, by simp [idRequests, asked], own.symm, if_pos own⟩
        · exact .inl ⟨if_neg own, by simpa [idRequests, asked, own] using unasked⟩
    · refine .inr ⟨request, ?_, own, held⟩
      unfold idRequests at member ⊢
      rw [filterMap_cons]
      split
      · exact member
      · exact mem_cons_of_mem _ member

theorem generateID_eq_ok (run : generateID env prevBlockHash randomBeacon states txn = .ok states') :
    states' = (idRequest env txn).elim states fun request =>
      states.updateID request.account (Block.computeID env prevBlockHash (Transaction.hash env txn)
        (randomBeacon.take randomBeaconUniqueLength)) request.version := by
  unfold generateID at run
  split_ifs at run with kind
  · simp at run
  · obtain ⟨message, unpacked, run⟩ := bind_eq_ok.mp run
    simp only [idRequest, unpacked]
    cases message with
    | generateID _ => exact (ok.inj run).symm
    | _ => simp at run
  · obtain rfl := ok.inj run
    have unasked : idRequest env txn = none := by
      unfold idRequest
      split
      · exact absurd (unpack_type ‹_›).symm kind
      · rfl
    rw [unasked]
    rfl

theorem heldID_assignmentsFrom (run : txns.foldlM (generateID env prevBlockHash randomBeacon) states = .ok states') :
    heldID states' addr = heldID states addr ∧ addr ∉ (idRequests env txns).map IDRequest.account ∨
      ∃ assignment ∈ assignmentsFrom env prevBlockHash randomBeacon txns, assignment.1.account = addr ∧
        heldID states' addr = (assignment.2, assignment.1.version) := by
  induction txns generalizing states with
  | nil =>
    obtain rfl := foldlM_nil_eq_ok.mp run
    exact .inl ⟨rfl, by simp [idRequests]⟩
  | cons txn _ ih =>
    obtain ⟨_, first, rest⟩ := foldlM_cons_eq_ok.mp run
    have turn := generateID_eq_ok first
    rcases ih rest with ⟨kept, unasked⟩ | ⟨assignment, member, own, held⟩
    · rw [kept, turn]
      cases asked : idRequest env txn with
      | none => exact .inl ⟨rfl, by simpa [idRequests, asked] using unasked⟩
      | some request =>
        simp only [elim_some, heldID_updateID]
        by_cases own : addr = request.account
        · exact .inr ⟨_, mem_filterMap.mpr ⟨txn, mem_cons_self, by rw [asked]; rfl⟩, own.symm, if_pos own⟩
        · exact .inl ⟨if_neg own, by simpa [idRequests, asked, own] using unasked⟩
    · refine .inr ⟨assignment, ?_, own, held⟩
      obtain ⟨txn', inside, assigns⟩ := mem_filterMap.mp member
      exact mem_filterMap.mpr ⟨txn', mem_cons_of_mem _ inside, assigns⟩

/-- What the ids that are due in a block make of the id that an account holds. -/
def Assigns (env : Env) (cs : ChainStore) (b : Block) (addr : Uint160) (held held' : Bytes × UInt8) : Prop :=
  held' = held ∧ (∀ assignment ∈ idAssignments env cs b, assignment.1.account ≠ addr) ∨
    ∃ assignment ∈ idAssignments env cs b, assignment.1.account = addr ∧ held' = (assignment.2, assignment.1.version)

theorem heldID_generateIDs (addr : Uint160) (run : generateIDs env cs states b.header.unsignedHeader = .ok states') :
    Assigns env cs b addr (heldID states addr) (heldID states' addr) := by
  change (if b.height > generateIDBlockDelay then (do
    let prevBlock ← cs.getBlockByHeight env (b.height - generateIDBlockDelay)
    prevBlock.transactions.foldlM (generateID env _ _) states) else .ok states) = .ok states' at run
  unfold Assigns idAssignments
  split_ifs at run ⊢ with late
  · obtain ⟨_, found, run⟩ := bind_eq_ok.mp run
    rw [found]
    refine (heldID_assignmentsFrom run).imp_left fun ⟨kept, unasked⟩ => ⟨kept, fun assignment member same => unasked ?_⟩
    exact same ▸ mem_map_of_mem (exists_mem_assignmentsFrom.mp ⟨assignment.2, member⟩)
  · exact .inl ⟨by rw [ok.inj run], by simp⟩

def WellFormedID (held : Bytes × UInt8) : Prop := held.1.length = nodeIDBytes ∨ held = ([], 0)

theorem wellFormedID_placeholder (version : UInt8) : WellFormedID (placeholderID, version) := .inl rfl

theorem heldID_stored {acc : Account} (formed : WellFormedID (acc.id.getD [], acc.idVersion)) :
    (acc.stored.id.getD [], acc.stored.idVersion) = (acc.id.getD [], acc.idVersion) := by
  by_cases versioned : acc.idVersion > 0
  · rcases formed with full | none
    · simp only at full
      simp [Account.stored, Account.encodedID, versioned, full]
    · simp only [Prod.mk.injEq] at none
      simp [none.2] at versioned
  · have zero : acc.idVersion = 0 := by simpa using versioned
    have short : (acc.id.getD []).length ≠ nodeIDBytes + 1 := by
      rcases formed with full | none
      · simp only at full
        omega
      · simp [(Prod.mk.inj none).1, nodeIDBytes]
    simp [Account.stored, Account.encodedID, zero, short]

theorem heldID_finalize {legacy commit : Bool} (noNil : states.accounts.NoNil)
    (formed : WellFormedID (heldID states addr)) :
    heldID (states.finalize env legacy commit) addr = heldID states addr := by
  let observe (entry : Option Account) : Bytes × UInt8 := entry.elim ([], 0) fun acc => (acc.id.getD [], acc.idVersion)
  have observed (states : StateDB) : heldID states addr = observe (states.accounts.read addr) := by
    simp only [heldID, getIDVersion, getAccount]
    cases states.accounts.read addr <;> rfl
  simp only [observed] at formed ⊢
  refine Table.observe_finalize_key observe Account.encode commit noNil fun acc read => ?_
  rw [read] at formed
  unfold Account.encode
  split_ifs with empty
  · -- an empty account is not written; it held no id and hence no version
    have none : acc.id = none := by
      simp only [Account.isEmpty, Bool.and_eq_true, Option.isNone_iff_eq_none] at empty
      exact empty.2
    rcases formed with full | unheld
    · simp [observe, none, nodeIDBytes] at full
    · exact unheld.symm
  · exact heldID_stored formed

/-- A ledger between blocks, as far as ids are concerned: the blocks that it lists are stored, its accounts hold
well-formed ids, and an account whose request is still to be fulfilled has the version that it asked for. -/
structure IDLedger (env : Env) (cs : ChainStore) (trie : StateTrie) : Prop where
  opens : currentTrie cs = .ok trie
  accounts : ∀ addr, cs.states.accounts.read addr = trie.accounts addr
  closed : ∀ t hash, cs.db.blockHashes t = some hash → ∃ p, cs.getBlock env hash = .ok p
  formed : ∀ addr, WellFormedID (heldID cs.states addr)
  pending : ∀ t p, cs.getBlockByHeight env t = .ok p → t.toNat ≤ cs.currentBlockHeight.toNat →
    cs.currentBlockHeight.toNat < t.toNat + generateIDBlockDelay.toNat → ∀ request ∈ idRequests env p.transactions,
      (heldID cs.states request.account).1 ≠ [] ∧ (heldID cs.states request.account).2 = request.version

theorem toNat_storedVersion {version : Int32} (nonneg : 0 ≤ version.toInt) (small : version.toInt < 256) :
    (version.toInt8.toUInt8.toNat : Int) = version.toInt := by
  have wide : version.toInt = (version.toBitVec.toNat : Int) := by
    rw [← Int32.toInt_toBitVec] at nonneg ⊢
    rw [BitVec.toInt_eq_toNat_cond] at nonneg ⊢
    split_ifs at nonneg ⊢ with half
    · rfl
    · have range := version.toBitVec.isLt
      omega
  have narrow : version.toInt8.toUInt8.toNat = version.toBitVec.toNat % 256 := by
    change (version.toBitVec.signExtend 8).toNat = _
    rw [BitVec.signExtend_eq_setWidth_of_le _ (by omega), BitVec.toNat_setWidth]
  omega

theorem request_newer {request : IDRequest} {state : CheckState} (checked : checkTransactions env config cs height txns = .ok state)
    (fits : ∀ txn ∈ txns, ∀ genID, unpack env txn.unsignedTx.payload = .ok (.generateID genID) →
      0 ≤ genID.version.toInt ∧ genID.version.toInt < 256)
    (member : request ∈ idRequests env txns) :
    (heldID cs.states request.account).1 = [] ∨ (heldID cs.states request.account).2 < request.version := by
  obtain ⟨txn, inside, genID, unpacked, rfl⟩ := mem_idRequests member
  obtain ⟨_, _, turn⟩ := checkTransactions_forall checked txn inside
  obtain ⟨-, -, ledger, -⟩ := checkTransaction_eq_ok.mp turn
  obtain ⟨-, -, _, checked, -⟩ := (verifyTransactionWithLedger_eq_ok unpacked).mp ledger
  obtain ⟨_, registered, -⟩ := bind_eq_ok.mp checked
  have newer := rejectIf_eq_ok.mp registered
  obtain ⟨nonneg, small⟩ := fits txn inside genID unpacked
  by_cases none : (heldID cs.states (createProgramHash env genID.publicKey)).1 = []
  · exact .inl none
  · right
    have longer : ¬ genID.version ≤ Int32.ofNat (heldID cs.states (createProgramHash env genID.publicKey)).2.toNat :=
      fun le => newer ⟨length_pos_iff.mpr none, le⟩
    have range := (heldID cs.states (createProgramHash env genID.publicKey)).2.toNat_lt
    rw [Int32.not_le, Int32.lt_iff_toInt_lt, Int32.toInt_ofNat_of_lt (by omega)] at longer
    have stored := toNat_storedVersion nonneg small
    change (heldID cs.states (createProgramHash env genID.publicKey)).2 < genID.version.toInt8.toUInt8
    rw [UInt8.lt_iff_toNat_lt]
    omega

structure IDStep (env : Env) (cs : ChainStore) (b : Block) (cs' : ChainStore) : Prop where
  next : b.height.toNat = cs.currentBlockHeight.toNat + 1
  height : cs'.currentBlockHeight = b.height
  block : cs'.getBlockByHeight env b.height = .ok b
  blocks : ∀ t ≠ b.height, cs'.getBlockByHeight env t = cs.getBlockByHeight env t
  keeps : ∀ addr, (heldID cs.states addr).1 ≠ [] → (heldID cs'.states addr).1 ≠ []
  unasked : ∀ addr ∉ (idRequests env b.transactions).map IDRequest.account,
    (heldID cs'.states addr).2 = (heldID cs.states addr).2
  asked : ∀ request ∈ idRequests env b.transactions,
    heldID cs'.states request.account = (placeholderID, request.version)
  newer : ∀ request ∈ idRequests env b.transactions,
    (heldID cs.states request.account).1 = [] ∨ (heldID cs.states request.account).2 < request.version
  assigns : ∀ addr ∉ (idRequests env b.transactions).map IDRequest.account,
    Assigns env cs b addr (heldID cs.states addr) (heldID cs'.states addr)

theorem mem_idAssignments {request : IDRequest} : (∃ id, (request, id) ∈ idAssignments env cs b) ↔
      generateIDBlockDelay.toNat < b.height.toNat ∧
        ∃ p, cs.getBlockByHeight env (b.height - generateIDBlockDelay) = .ok p ∧
          request ∈ idRequests env p.transactions := by
  unfold idAssignments
  rw [← UInt32.lt_iff_toNat_lt]
  split_ifs with late
  · cases found : cs.getBlockByHeight env (b.height - generateIDBlockDelay) with
    | error _ => simp
    | ok _ => simpa using exists_mem_assignmentsFrom.trans ⟨fun member => ⟨late, member⟩, And.right⟩
  · simp [show ¬ generateIDBlockDelay < b.height from late]

theorem toNat_delayed {height : UInt32} (late : generateIDBlockDelay.toNat < height.toNat) :
    (height - generateIDBlockDelay).toNat = height.toNat - generateIDBlockDelay.toNat :=
  UInt32.toNat_sub_of_le _ _ (UInt32.le_iff_toNat_le.mpr (Nat.le_of_lt late))

variable {assignment : IDRequest × Bytes}

theorem length_of_mem_assignmentsFrom
    (member : assignment ∈ assignmentsFrom env prevBlockHash randomBeacon txns) : assignment.2.length = nodeIDBytes := by
  obtain ⟨_, -, assigns⟩ := mem_filterMap.mp member
  obtain ⟨_, -, rfl⟩ := map_eq_some_iff.mp assigns
  exact Word.length_toArray _

theorem length_of_mem_idAssignments (member : assignment ∈ idAssignments env cs b) : assignment.2.length = nodeIDBytes := by
  unfold idAssignments at member
  split_ifs at member
  · split at member
    · exact length_of_mem_assignmentsFrom member
    · simp at member
  · simp at member

namespace IDLedger

variable {trie : StateTrie} (ledger : IDLedger env cs trie)

include ledger

theorem heldID_start (addr : Uint160) (next : b.height.toNat = cs.currentBlockHeight.toNat + 1)
    (started : blockStart env cs b = .ok start) :
    (heldID start addr).2 = (heldID cs.states addr).2 ∧
      ((heldID cs.states addr).1 ≠ [] → (heldID start addr).1 ≠ []) ∧ WellFormedID (heldID start addr) ∧
      Assigns env cs b addr (heldID cs.states addr) (heldID start addr) := by
  obtain ⟨trie', opened, assigned⟩ := bind_eq_ok.mp started
  obtain rfl := ok_unique opened ledger.opens
  have opening : heldID (StateDB.new trie') addr = heldID cs.states addr := by
    simp only [heldID, getIDVersion, getAccount, ledger.accounts, StateDB.new, Table.read_ofStore]
  have assigns := opening ▸ heldID_generateIDs addr assigned
  rcases assigns with ⟨kept, undue⟩ | ⟨assignment, member, rfl, held⟩
  · rw [kept]
    exact ⟨rfl, id, ledger.formed addr, .inl ⟨rfl, undue⟩⟩
  · obtain ⟨late, p, found, asked⟩ := mem_idAssignments.mp ⟨assignment.2, member⟩
    have delayed := toNat_delayed late
    have full := length_of_mem_idAssignments member
    have version := (ledger.pending _ p found (by rw [delayed, next]; exact Nat.sub_le_of_le_add (Nat.add_le_add_left (by decide) _))
      (by rw [delayed]; omega) _ asked).2
    rw [held, version]
    refine ⟨rfl, fun _ empty => ?_, .inl full, .inr ⟨assignment, member, rfl, rfl⟩⟩
    simp only at empty
    rw [empty] at full
    simp [nodeIDBytes] at full

theorem step (extension : Extends env config cs b cs') (apart : IDsApart env cs b) :
    IDStep env cs b cs' ∧ ∀ addr, WellFormedID (heldID cs'.states addr) := by
  obtain ⟨_, _, _, _, _, _, spent, accepted⟩ := transactionCheck_accepted extension.accepted
  obtain ⟨_, saved⟩ := extension.isSaved
  have next : b.height.toNat = cs.currentBlockHeight.toNat + 1 := by
    have nonzero := accepted.coinbaseOk.nonzero
    rw [extension.next] at nonzero ⊢
    exact toNat_next nonzero
  have checked := accepted.checked
  have run := accepted.run
  rw [← accepted.transactions] at checked run
  have spends (addr : Uint160) := heldID_spendTransactions addr run
  have begins (addr : Uint160) := ledger.heldID_start addr next accepted.started
  have formed (addr : Uint160) : WellFormedID (heldID spent addr) := by
    rcases spends addr with ⟨kept, -⟩ | ⟨request, -, -, held⟩
    · exact kept ▸ (begins addr).2.2.1
    · exact held ▸ wellFormedID_placeholder _
  have ends (addr : Uint160) : heldID cs'.states addr = heldID spent addr := by
    have swept : heldID (cleanup b.height spent) addr = heldID spent addr := heldID_of_accounts accounts_cleanup
    rw [accepted.states_saved saved, heldID_finalize accepted.noNil_cleanup (swept ▸ formed addr), swept]
  have new (txn : Transaction) (member : txn ∈ b.transactions) : cs.db.transactions (Transaction.hash env txn) = none := by
    obtain ⟨_, _, turn⟩ := checkTransactions_forall checked txn member
    obtain ⟨verified, -, onLedger, -⟩ := checkTransaction_eq_ok.mp turn
    obtain ⟨_, verified⟩ := verifyTransaction_verified verified
    obtain ⟨unseen, -⟩ := (verifyTransactionWithLedger_eq_ok verified.unpacked).mp onLedger
    simpa [ChainStore.isTxHashDuplicate] using unseen
  refine ⟨⟨next, saved.height, ?_, fun t other => ?_, fun addr nonempty => ?_, fun addr unasked => ?_,
    fun request member => ?_, fun request member => request_newer checked apart.fits member, fun addr unasked => ?_⟩,
    fun addr => ends addr ▸ formed addr⟩
  · obtain ⟨_, computed, same⟩ := transactionCheck_txnsRoot extension.accepted
    rw [ChainStore.getBlockByHeight, ChainStore.getBlockHash, saved.blockHashes, update_self]
    have distinct := (checkTransactions_nodup (checkTransactions_foldlM checked)).1
    have headers := saved.headers ▸ update_self ..
    exact getBlock_of_put headers saved.transactions (fun _ member _ member' => inj_on_of_nodup_map distinct member member')
      computed same
  · rw [ChainStore.getBlockByHeight, ChainStore.getBlockByHeight, ChainStore.getBlockHash, ChainStore.getBlockHash,
      saved.blockHashes, update_of_ne other]
    cases listed : cs.db.blockHashes t with
    | none => rfl
    | some hash =>
      obtain ⟨_, found⟩ := ledger.closed t hash listed
      have different : hash ≠ Block.hash env b := fun same => apart.newHash t (same ▸ listed)
      change cs'.getBlock env hash = cs.getBlock env hash
      rw [found, saved.getBlock_of_ok new different found]
  · rw [ends]
    rcases spends addr with ⟨kept, -⟩ | ⟨request, -, -, held⟩
    · exact kept ▸ (begins addr).2.1 nonempty
    · rw [held]
      exact cons_ne_nil _ _
  · rw [ends]
    rcases spends addr with ⟨kept, -⟩ | ⟨request, member, rfl, -⟩
    · rw [kept, (begins addr).1]
    · exact absurd (mem_map_of_mem member) unasked
  · rw [ends]
    rcases spends request.account with ⟨-, unasked⟩ | ⟨_, member', same, held⟩
    · exact absurd (mem_map_of_mem member) unasked
    · rw [held, inj_on_of_nodup_map apart.once member' member same]
  · rw [ends]
    rcases spends addr with ⟨kept, -⟩ | ⟨request, member, rfl, -⟩
    · exact kept ▸ (begins addr).2.2.2
    · exact absurd (mem_map_of_mem member) unasked

theorem extend (roots : RootsFaithful env) (extension : Extends env config cs b cs') (apart : IDsApart env cs b) :
    IDLedger env cs' cs'.states.trie := by
  obtain ⟨step, formed⟩ := ledger.step extension apart
  obtain ⟨_, saved⟩ := extension.isSaved
  have mirrors := (saved.ledger roots).mirrors
  refine ⟨extension.opens roots, mirrors.accounts, fun t hash listed => ?_, formed, fun t p found low high => ?_⟩
  · -- a listed block can be read, as its height can
    by_cases own : t = b.height
    · have block := step.block
      rw [← own, ChainStore.getBlockByHeight, ChainStore.getBlockHash, listed] at block
      exact ⟨b, block⟩
    · have before : cs.db.blockHashes t = some hash := by
        rwa [saved.blockHashes, update_of_ne own] at listed
      obtain ⟨p, found⟩ := ledger.closed t hash before
      have same := step.blocks t own
      rw [ChainStore.getBlockByHeight, ChainStore.getBlockByHeight, ChainStore.getBlockHash, ChainStore.getBlockHash,
        listed, before] at same
      exact ⟨p, same.trans found⟩
  · rw [step.height] at low high
    intro request asked
    by_cases own : t = b.height
    · obtain rfl := ok_unique step.block (own ▸ found)
      rw [step.asked request asked]
      exact ⟨cons_ne_nil _ _, rfl⟩
    · rw [step.blocks t own] at found
      have below : t.toNat < b.height.toNat := lt_of_le_of_ne low fun same => own (UInt32.toNat_inj.mp same)
      have unasked := apart.spaced t p found below high request asked
      have next := step.next
      obtain ⟨nonempty, version⟩ := ledger.pending t p found (by omega) (by omega) request asked
      exact ⟨step.keeps _ nonempty, (step.unasked _ unasked).trans version⟩

end IDLedger

theorem IDStep.grows (step : IDStep env cs b cs') (formed : WellFormedID (heldID cs.states addr)) :
    (heldID cs.states addr).2 ≤ (heldID cs'.states addr).2 := by
  by_cases asked : addr ∈ (idRequests env b.transactions).map IDRequest.account
  · obtain ⟨request, member, rfl⟩ := mem_map.mp asked
    rw [step.asked request member]
    rcases step.newer request member with none | older
    · rcases formed with full | unheld
      · rw [none] at full
        simp [nodeIDBytes] at full
      · rw [unheld]
        exact UInt8.zero_le
    · exact UInt8.le_of_lt older
  · rw [step.unasked addr asked]
    exact UInt8.le_refl _

theorem IDLedger.run {trie : StateTrie} (roots : RootsFaithful env) (ledger : IDLedger env cs trie)
    (run : Run env config (IDsApart env) cs cs') :
    (∃ trie', IDLedger env cs' trie') ∧ ∀ addr, (heldID cs.states addr).2 ≤ (heldID cs'.states addr).2 := by
  induction run with
  | refl => exact ⟨⟨trie, ledger⟩, fun _ => UInt8.le_refl _⟩
  | step _ extension apart ih =>
    obtain ⟨⟨_, ledger'⟩, grows⟩ := ih
    refine ⟨⟨_, ledger'.extend roots extension apart⟩, fun addr => UInt8.le_trans (grows addr) ?_⟩
    exact (ledger'.step extension apart).1.grows (ledger'.formed addr)

/-- A ledger at or above the block with a request: the account holds an id of at least that version, the placeholder
until the id is due. The block asks once for the account, those shortly below do not, and those above ask for higher
versions. -/
structure Requested (env : Env) (request : IDRequest) (h : UInt32) (cs : ChainStore) : Prop where
  ledger : ∃ trie, IDLedger env cs trie
  positive : 0 < h.toNat
  above : h.toNat ≤ cs.currentBlockHeight.toNat
  held : (heldID cs.states request.account).1 ≠ [] ∧ request.version ≤ (heldID cs.states request.account).2
  waiting : cs.currentBlockHeight.toNat < h.toNat + generateIDBlockDelay.toNat →
    heldID cs.states request.account = (placeholderID, request.version)
  own : ∃ p, cs.getBlockByHeight env h = .ok p ∧ request ∈ idRequests env p.transactions ∧
    ((idRequests env p.transactions).map IDRequest.account).Nodup
  before : ∀ t p, cs.getBlockByHeight env t = .ok p → t.toNat < h.toNat →
    h.toNat < t.toNat + generateIDBlockDelay.toNat → ∀ other ∈ idRequests env p.transactions,
      other.account ≠ request.account
  after : ∀ t p, cs.getBlockByHeight env t = .ok p → h.toNat < t.toNat → t.toNat ≤ cs.currentBlockHeight.toNat →
    ∀ other ∈ idRequests env p.transactions, other.account = request.account → request.version < other.version

/-- An id that is due in a block is computed for a transaction of the block that is the delay below. -/
theorem of_mem_idAssignments (member : assignment ∈ idAssignments env cs b) :
    generateIDBlockDelay.toNat < b.height.toNat ∧
      ∃ p txn, cs.getBlockByHeight env (b.height - generateIDBlockDelay) = .ok p ∧ txn ∈ p.transactions ∧
        idRequest env txn = some assignment.1 ∧
        assignment.2 = Block.computeID env (Block.hash env p) (Transaction.hash env txn)
          (b.header.unsignedHeader.randomBeacon.take randomBeaconUniqueLength) := by
  unfold idAssignments at member
  split_ifs at member with late
  · split at member
    · obtain ⟨txn, inside, assigns⟩ := mem_filterMap.mp member
      obtain ⟨request, asked, rfl⟩ := map_eq_some_iff.mp assigns
      exact ⟨UInt32.lt_iff_toNat_lt.mp late, _, txn, ‹_›, inside, asked, rfl⟩
    · simp at member
  · simp at member

namespace Requested

variable {request : IDRequest} {h : UInt32}

theorem first {trie : StateTrie} (roots : RootsFaithful env) (ledger : IDLedger env cs trie)
    (extension : Extends env config cs b cs') (apart : IDsApart env cs b)
    (member : request ∈ idRequests env b.transactions) : Requested env request b.height cs' := by
  have step := (ledger.step extension apart).1
  have next := step.next
  refine ⟨⟨_, ledger.extend roots extension apart⟩, by omega, step.height ▸ Nat.le_refl _, ?_, fun _ => step.asked request member,
    ⟨b, step.block, member, apart.once⟩, fun t p found below near other asked same => ?_, fun t p found high low => ?_⟩
  · rw [step.asked request member]
    exact ⟨cons_ne_nil _ _, UInt8.le_refl _⟩
  · rw [step.blocks t fun same => absurd (congrArg UInt32.toNat same) (Nat.ne_of_lt below)] at found
    exact apart.spaced t p found below near other asked (same ▸ mem_map_of_mem member)
  · rw [step.height] at low
    omega

variable (requested : Requested env request h cs)

include requested

theorem newer (extension : Extends env config cs b cs') (apart : IDsApart env cs b) {other : IDRequest}
    (member : other ∈ idRequests env b.transactions) (same : other.account = request.account) :
    request.version < other.version := by
  obtain ⟨_, ledger⟩ := requested.ledger
  rcases (ledger.step extension apart).1.newer other member with none | newer
  · exact absurd (same ▸ none) requested.held.1
  · exact UInt8.lt_of_le_of_lt requested.held.2 (same ▸ newer)

theorem not_mem (extension : Extends env config cs b cs') (apart : IDsApart env cs b) :
    request ∉ idRequests env b.transactions :=
  fun member => UInt8.lt_irrefl _ (requested.newer extension apart member rfl)

theorem heldAcross (extension : Extends env config cs b cs') (apart : IDsApart env cs b) :
    HeldAcross env h request cs b cs' := by
  obtain ⟨_, ledger⟩ := requested.ledger
  have step := (ledger.step extension apart).1
  have next := step.next
  have above := requested.above
  have positive := requested.positive
  have delay : 0 < generateIDBlockDelay.toNat := by decide
  obtain ⟨p, found, member, once⟩ := requested.own
  refine ⟨fun early => ?_, fun due unasked => ?_, fun late => ?_⟩
  · -- neither this block nor the one whose ids it writes asks for the account
    have unasked := apart.spaced h p found (by omega) early request member
    rcases step.assigns _ unasked with ⟨kept, -⟩ | ⟨assignment, assigned, same, -⟩
    · exact kept.trans (requested.waiting (by omega))
    · obtain ⟨long, p', txn, found', inside, asked, -⟩ := of_mem_idAssignments assigned
      have delayed := toNat_delayed long
      exact absurd same (requested.before _ p' found' (by omega) (by omega) _ (mem_filterMap.mpr ⟨txn, inside, asked⟩))
  · have own : b.height - generateIDBlockDelay = h := by
      rw [← UInt32.toNat_inj, toNat_delayed (by omega)]
      omega
    rcases step.assigns _ unasked with ⟨-, undue⟩ | ⟨assignment, assigned, same, held⟩
    · obtain ⟨id, assigned⟩ := mem_idAssignments.mpr ⟨show generateIDBlockDelay.toNat < _ by omega, p, own ▸ found, member⟩
      exact absurd rfl (undue _ assigned)
    · obtain ⟨-, p', txn, found', inside, asked, computed⟩ := of_mem_idAssignments assigned
      obtain rfl := ok_unique (own ▸ found') found
      have equal := inj_on_of_nodup_map once (mem_filterMap.mpr ⟨txn, inside, asked⟩) member same
      exact ⟨p', txn, found, inside, equal ▸ asked, by rw [held, computed, equal]⟩
  · by_cases asked : request.account ∈ (idRequests env b.transactions).map IDRequest.account
    · obtain ⟨other, member', same⟩ := mem_map.mp asked
      rw [← same, step.asked other member']
      exact .inr (requested.newer extension apart member' same)
    · rcases step.assigns _ asked with ⟨kept, -⟩ | ⟨assignment, assigned, same, held⟩
      · exact .inl kept
      · obtain ⟨long, p', txn, found', inside, asked, -⟩ := of_mem_idAssignments assigned
        have delayed := toNat_delayed long
        rw [held]
        exact .inr (requested.after _ p' found' (by omega) (by omega) _ (mem_filterMap.mpr ⟨txn, inside, asked⟩) same)

theorem extend (roots : RootsFaithful env) (extension : Extends env config cs b cs') (apart : IDsApart env cs b) :
    Requested env request h cs' := by
  obtain ⟨_, ledger⟩ := requested.ledger
  have step := (ledger.step extension apart).1
  have next := step.next
  have above := requested.above
  have unlike {t : UInt32} (other : t.toNat ≠ b.height.toNat) : cs'.getBlockByHeight env t = cs.getBlockByHeight env t :=
    step.blocks t fun same => other (congrArg UInt32.toNat same)
  refine ⟨⟨_, ledger.extend roots extension apart⟩, requested.positive, ?_, ⟨step.keeps _ requested.held.1, ?_⟩,
    fun early => (requested.heldAcross extension apart).waiting (step.height ▸ early), ?_,
    fun t p found below => ?_, fun t p found high low other asked => ?_⟩
  · rw [step.height]
    omega
  · exact UInt8.le_trans requested.held.2 (step.grows (ledger.formed _))
  · rw [unlike (by omega)]
    exact requested.own
  · rw [unlike (by omega)] at found
    exact requested.before t p found below
  · by_cases own : t = b.height
    · obtain rfl := ok_unique step.block (own ▸ found)
      exact requested.newer extension apart asked
    · rw [step.blocks t own] at found
      rw [step.height] at low
      have below : t.toNat < b.height.toNat := lt_of_le_of_ne low fun same => own (UInt32.toNat_inj.mp same)
      exact requested.after t p found high (by omega) other asked

theorem run (roots : RootsFaithful env) (run : Run env config (IDsApart env) cs cs') : Requested env request h cs' := by
  induction run with
  | refl => exact requested
  | step _ extension apart ih => exact ih.extend roots extension apart

end Requested

/-- In every run of blocks whose requests for ids are apart, no version of an account decreases, and every request that
is accepted is fulfilled once, after the delay. -/
theorem id_versions_never_regress {trie : StateTrie} (roots : RootsFaithful env) (ledger : IDLedger env cs trie)
    (run : Run env config (IDsApart env) cs cs') :
    (∀ addr, (heldID cs.states addr).2 ≤ (heldID cs'.states addr).2) ∧
      ∀ b cs'', Extends env config cs' b cs'' → IDsApart env cs' b →
        ∀ request ∈ idRequests env b.transactions, AssignedOnce env config cs'' request := by
  obtain ⟨⟨trie', ledger'⟩, grows⟩ := ledger.run roots run
  refine ⟨grows, fun b cs'' extension apart request member => ?_⟩
  have step := (ledger'.step extension apart).1
  have requested := Requested.first roots ledger' extension apart member
  refine ⟨step.asked request member, fun later b' after run extension' apart' => ?_,
    fun later b' after run extension' apart' => (requested.run roots run).not_mem extension' apart'⟩
  rw [step.height]
  exact (requested.run roots run).heldAcross extension' apart'

/-! An account has asked for an id of version 1 in the block at height 4999993. It asks for one of version 2 at height
5000000, and at the next height the id of version 1 is written over the placeholder of version 2. -/

namespace OverlappingRequests

open Sample

def allowed : Config := { mainnet with allowTxnGenerateIDMaxVersion := ⟨[(0, 2)], 2⟩ }

theorem allowed_monotone {height height' : UInt32} (le : height ≤ height') :
    allowed.allowTxnGenerateIDMinVersion.getValueAtHeight height ≤
        allowed.allowTxnGenerateIDMinVersion.getValueAtHeight height' ∧
      allowed.allowTxnGenerateIDMaxVersion.getValueAtHeight height ≤
        allowed.allowTxnGenerateIDMaxVersion.getValueAtHeight height' := by
  have later : 2570000 ≤ height → 2570000 ≤ height' := fun reached => UInt32.le_trans reached le
  refine ⟨?_, by simp [allowed, getValueAtHeight]⟩
  by_cases reached : 2570000 ≤ height
  · simp [allowed, mainnet, getValueAtHeight, reached, later reached]
  · by_cases reached' : 2570000 ≤ height' <;>
      simp [allowed, mainnet, getValueAtHeight, reached, reached']

def request (version : Int32) : Pb.GenerateID := ⟨proposerKey, 1000000000, proposer.toArray, version⟩

def signed (version : Int32) (nonce : UInt64) (signature : Bytes) : Transaction :=
  ⟨packed (.generateID (request version)) nonce 0, [⟨createSignatureProgramCode proposerKey, 64 :: signature⟩]⟩

def firstSignature : Bytes :=
  (Word.ofNat 64 0x528d2524dc312c8e7038d2872561ae469e381243f0e8ca1d95e5e5b7f8576243f6a7b3f7902f501f90eb9e58427e72b778c13aa43ea4ba9bfdd147bdcc81b408).toArray

def secondSignature : Bytes :=
  (Word.ofNat 64 0x507c972c0c71ea2b2d824e1c9a52dcf7d925d2bd38c446fc1bd85c8966f74b6542f60c7a3d21d4a12f2142f8e339f5d298b7e2e478f91be6304a71f0b5f81e0d).toArray

def firstRequest : Transaction := signed 1 0 firstSignature

def secondRequest : Transaction := signed 2 1 secondSignature

def firstRequestHash : Uint256 := Word.ofNat 32 0xfc5ab3b44aa69d7ac3d7975700dadb01bc6083a401544285d497c675c2dfb2c0

def secondRequestHashForSigning : Uint256 := Word.ofNat 32 0xe97c67190a4e9e4165a34a06deca978d57c0755726fabb39694a9f06cba054f9

def secondRequestHash : Uint256 := Word.ofNat 32 0x8e9fe1a0307e06a663a361503ecdcfe9b5e88b4ae709fecf39d4b3e6692dcc9c

def laterTxnHash : Uint256 := Word.ofNat 32 0xcd42b2a47e44ed2379007a72558d32c13888f56ca90338f3c908cfc616142eeb

def laterTxnsRoot : Uint256 := Word.ofNat 32 0x54a54852b69b0da52850c81699ef11cfd86648858804596a95275ba7c5204e89

def laterBlock : Block := ⟨header 4999993 laterTxnsRoot emptyUint256, [coinbaseTxn 1 0, firstRequest]⟩

def laterHash : Uint256 := Word.ofNat 32 0x1af65cfea48cafbe73f12c14b7ab6cbef9bb43e328af24d976d8f3ab8a216e8d

def ledgerRoot : Uint256 := Word.ofNat 32 0xd6d03c630d2f1c0242be3983791bb225d035f90e42fe2110697ec8b24bc79a82

def firstRoot : Uint256 := Word.ofNat 32 0x3ae0bba6042512f66e8dd5a63f4b2e6679b9cf25e010dc3c428cd3111cca6e1c

def secondRoot : Uint256 := Word.ofNat 32 0x8e41ef6e935524ed79d3062b377274cbe877557b7ed8a4896fa8366f00199a1f

def trie : StateTrie :=
  { StateTrie.ofBalances [(proposer, 10000000000)] 80000000000000000 with
    accounts := fun addr =>
      if addr = proposer then
        some (((Account.new.setBalance nknAssetID 10000000000).setNonce 1).setID placeholderID 1)
      else if addr = donationAddress then some ((Account.new.setBalance nknAssetID 100000000000).setNonce 2)
      else none }

def earlierLedger : ChainStore :=
  let cs := chainStore ledgerRoot trie
  { cs with db := { cs.db with currentBlock := some (emptyUint256, 4999999) } }

def ledger : ChainStore :=
  { earlierLedger with
    db := { earlierLedger.db with
      headers :=
        Function.update earlierLedger.db.headers laterHash (some ⟨laterBlock.header, [laterTxnHash, firstRequestHash]⟩)
      blockHashes := Function.update earlierLedger.db.blockHashes 4999993 (some laterHash)
      transactions :=
        Function.update (Function.update earlierLedger.db.transactions laterTxnHash (some (4999993, coinbaseTxn 1 0)))
          firstRequestHash (some (4999993, firstRequest)) } }

def firstCoinbaseHash : Uint256 := Word.ofNat 32 0x390a3922a55a152cef61457e3d51cbe8fb2f11de4a6908208047eae292009b71

def firstTxnsRoot : Uint256 := Word.ofNat 32 0x090ca283a8cd86ec06975a65be3966c2d9cfd5ae2d06478abed2c41d8d41174f

def firstBlock : Block := ⟨header 5000000 firstTxnsRoot firstRoot, [coinbaseTxn 2 0, secondRequest]⟩

def nextCoinbase : Pb.Coinbase := ⟨donationAddress.toArray, proposer.toArray, 1046467574⟩

def nextCoinbaseTxn : Transaction := ⟨packed (.coinbase nextCoinbase) 3 0, []⟩

def secondCoinbaseHash : Uint256 := Word.ofNat 32 0x06358d546dbcf0f80a017533791ff60a61807fe67730480ef2c2dd99bad24b7f

def secondBlock : Block := ⟨header 5000001 secondCoinbaseHash secondRoot, [nextCoinbaseTxn]⟩

def firstID : Uint256 := Word.ofNat 32 0x3e802e33dd00c3dad606a71ea57c85ddb800503265a21f418ca4983f19fe8d89

def tables : Tables where
  sha256 :=
    (createSignatureProgramCode proposerKey, FirstBlocks.proposerCodeHash) ::
    (laterHash.toArray ++ firstRequestHash.toArray ++ List.replicate 32 0, firstID) ::
    Tables.hashedTwice (Transaction.serializeUnsigned (coinbaseTxn 0 0))
      (Word.ofNat 32 0x7cc6ae1f737c3fba0576c66cf6d0bddfd8ed51131c21663357d7e1f2134922ca) earlierTxnHash ++
    Tables.hashedTwice (Header.serializeUnsigned earlierBlock.header.unsignedHeader)
      (Word.ofNat 32 0x44214cfbcad3aa66bfce306a7677b6ba10e49ed972d4ded15c424acc1c16aa90) earlierHash ++
    Tables.hashedTwice (Transaction.serializeUnsigned (coinbaseTxn 1 0))
      (Word.ofNat 32 0x919074897ee066ff951494bd97727b92b24458eac388018d3763840201395c02) laterTxnHash ++
    Tables.hashedTwice (Transaction.serializeUnsigned firstRequest)
      (Word.ofNat 32 0x5aa540e23041f75b7c7f7682a6d48bd6a9dbce9a5d7dde6bf8308feb5faec729) firstRequestHash ++
    Tables.hashedTwice (laterTxnHash.toArray ++ firstRequestHash.toArray)
      (Word.ofNat 32 0x3f243611a8a3fab4a0c0867331ffb6d54600ce45d78893070e8b48c3191dbf7e) laterTxnsRoot ++
    Tables.hashedTwice (Header.serializeUnsigned laterBlock.header.unsignedHeader)
      (Word.ofNat 32 0xfeefacd4071ced12992257bf75bb04708897e7faf6c1c8783353d3e3bbc8b856) laterHash ++
    Tables.hashedTwice (Transaction.serializeUnsigned (coinbaseTxn 2 0))
      (Word.ofNat 32 0x9ba596b4c50368b83d6e70f4b2d91320a801b4c827fa4429add24a016511aef1) firstCoinbaseHash ++
    Tables.hashedTwice (Transaction.serializeUnsigned secondRequest) secondRequestHashForSigning secondRequestHash ++
    Tables.hashedTwice (firstCoinbaseHash.toArray ++ secondRequestHash.toArray)
      (Word.ofNat 32 0xe4232a82a974950b3b3086a234400ce4d09596e929bb0275afc0f9c5bfbc1130) firstTxnsRoot ++
    Tables.hashedTwice (Header.serializeUnsigned firstBlock.header.unsignedHeader)
      (Word.ofNat 32 0xc47f6e3d0d5bd0ae27cfed4377b700bd28528d9c6411cd5c3cce3f7782a048f1)
      (Word.ofNat 32 0x85f78dab513a0b2a4026a50ca5ba3d9c2ceca19127dbd1acb9850ea2fd0a5171) ++
    Tables.hashedTwice (Transaction.serializeUnsigned nextCoinbaseTxn)
      (Word.ofNat 32 0xf412a6c52339102b34e11f8b696010c9617000285152acfb6e755980ce973622) secondCoinbaseHash ++
    Tables.hashedTwice (Header.serializeUnsigned secondBlock.header.unsignedHeader)
      (Word.ofNat 32 0xfc8393b7c54722e7d644db935115f46bfbe948a7a98b700127243140f934587c)
      (Word.ofNat 32 0x7b75726a401755d2fa49faccebb1513e1f9020a532f9350cea8ea2351a5cb734)
  ripemd160 := [(FirstBlocks.proposerCodeHash.toArray, proposer)]
  signatures := [(proposerKey, secondRequestHashForSigning.toArray, secondSignature)]
  messages := [.coinbase coinbase, .coinbase nextCoinbase, .generateID (request 1), .generateID (request 2)]
  regexes := []
  stateRoot := fun trie =>
    match trie.accounts proposer with
    | none => ledgerRoot
    | some acc => if acc.nonce = 1 then ledgerRoot else if acc.idVersion = 2 then firstRoot else secondRoot

def firstStore : ChainStore := (ledger.saveBlock tables.env allowed firstBlock).1

def secondStore : ChainStore := (firstStore.saveBlock tables.env allowed secondBlock).1

def laterStore : ChainStore := (earlierLedger.saveBlock tables.env allowed firstBlock).1

theorem extends_blocks : Extends tables.env allowed ledger firstBlock firstStore ∧
    Extends tables.env allowed firstStore secondBlock secondStore ∧
    Extends tables.env allowed earlierLedger firstBlock laterStore :=
  ⟨⟨by decide +kernel, by decide +kernel, isOk_iff.mp (by decide +kernel), rfl⟩,
    ⟨by decide +kernel, by decide +kernel, isOk_iff.mp (by decide +kernel), rfl⟩,
    ⟨by decide +kernel, by decide +kernel, isOk_iff.mp (by decide +kernel), rfl⟩⟩

theorem held_ids : ((heldID ledger.states proposer).1 ≠ [] ∧ (heldID ledger.states proposer).2 = 1) ∧
    heldID firstStore.states proposer = (placeholderID, 2) ∧ heldID secondStore.states proposer = (firstID.toArray, 1) := by
  decide +kernel

theorem rootsFaithful : RootsFaithful tables.env := .of_ne fun trie => by
  simp only [Tables.env, tables]
  split
  · decide
  · split_ifs <;> decide

theorem formed_trie (addr : Uint160) : WellFormedID (heldID (StateDB.new trie) addr) := by
  simp only [heldID, getIDVersion, getAccount, StateDB.new, Table.read_ofStore, trie]
  split_ifs
  · exact wellFormedID_placeholder 1
  · exact .inr rfl
  · exact .inr rfl

theorem listed_earlierLedger {t : UInt32} {hash : Uint256} (listed : earlierLedger.db.blockHashes t = some hash) :
    hash = earlierHash := by
  obtain ⟨-, same⟩ := ite_none_right_eq_some.mp listed
  exact (Option.some.inj same).symm

theorem listed_ledger {t : UInt32} {hash : Uint256} (listed : ledger.db.blockHashes t = some hash) :
    hash = laterHash ∨ hash = earlierHash := by
  by_cases later : t = 4999993
  · subst later
    exact .inl (Option.some.inj listed).symm
  · refine .inr (listed_earlierLedger (t := t) ?_)
    rw [← listed]
    exact (update_of_ne later _ _).symm

theorem stored_blocks : earlierLedger.getBlock tables.env earlierHash = .ok earlierBlock ∧
    ledger.getBlock tables.env laterHash = .ok laterBlock ∧ ledger.getBlock tables.env earlierHash = .ok earlierBlock ∧
    earlierHash ≠ Block.hash tables.env firstBlock ∧
    unpack tables.env (coinbaseTxn 2 0).unsignedTx.payload = .ok (.coinbase coinbase) ∧
    unpack tables.env secondRequest.unsignedTx.payload = .ok (.generateID (request 2)) ∧
    idRequests tables.env earlierBlock.transactions = [] ∧
    idRequests tables.env laterBlock.transactions = [⟨proposer, 1⟩] ∧
    idRequests tables.env firstBlock.transactions = [⟨proposer, 2⟩] := by
  decide +kernel

theorem getBlock_earlierLedger : earlierLedger.getBlock tables.env earlierHash = .ok earlierBlock := stored_blocks.1

theorem getBlock_ledger : ledger.getBlock tables.env laterHash = .ok laterBlock ∧
    ledger.getBlock tables.env earlierHash = .ok earlierBlock := ⟨stored_blocks.2.1, stored_blocks.2.2.1⟩

theorem requests : idRequests tables.env earlierBlock.transactions = [] ∧
    idRequests tables.env laterBlock.transactions = [⟨proposer, 1⟩] ∧
    idRequests tables.env firstBlock.transactions = [⟨proposer, 2⟩] := by
  obtain ⟨-, -, -, -, -, -, requests⟩ := stored_blocks
  exact requests

theorem idLedger_earlierLedger : IDLedger tables.env earlierLedger trie where
  opens := rfl
  accounts _ := Table.read_ofStore _ _
  closed t hash listed := ⟨_, listed_earlierLedger listed ▸ getBlock_earlierLedger⟩
  formed := formed_trie
  pending t p found _ _ request asked := by
    obtain ⟨_, listed, found⟩ := bind_eq_ok.mp found
    obtain rfl := listed_earlierLedger (orFail_eq_ok.mp listed)
    obtain rfl := ok_unique found getBlock_earlierLedger
    rw [requests.1] at asked
    simp at asked

theorem idLedger_ledger : IDLedger tables.env ledger trie where
  opens := rfl
  accounts _ := Table.read_ofStore _ _
  closed t hash listed := by
    rcases listed_ledger listed with rfl | rfl
    · exact ⟨_, getBlock_ledger.1⟩
    · exact ⟨_, getBlock_ledger.2⟩
  formed := formed_trie
  pending t p found _ _ request asked := by
    obtain ⟨_, listed, found⟩ := bind_eq_ok.mp found
    rcases listed_ledger (orFail_eq_ok.mp listed) with rfl | rfl
    · obtain rfl := ok_unique found getBlock_ledger.1
      rw [requests.2.1, mem_singleton] at asked
      subst asked
      exact held_ids.1
    · obtain rfl := ok_unique found getBlock_ledger.2
      rw [requests.1] at asked
      simp at asked

/-- After the second request the account has version 2, and version 1 again as soon as the first id is written. -/
theorem id_version_regresses : (∀ height height' : UInt32, height ≤ height' →
        allowed.allowTxnGenerateIDMinVersion.getValueAtHeight height ≤
            allowed.allowTxnGenerateIDMinVersion.getValueAtHeight height' ∧
          allowed.allowTxnGenerateIDMaxVersion.getValueAtHeight height ≤
            allowed.allowTxnGenerateIDMaxVersion.getValueAtHeight height') ∧
      IDLedger tables.env ledger trie ∧ Extends tables.env allowed ledger firstBlock firstStore ∧
      Extends tables.env allowed firstStore secondBlock secondStore ∧
      heldID firstStore.states proposer = (placeholderID, 2) ∧
      heldID secondStore.states proposer = (firstID.toArray, 1) :=
  ⟨fun _ _ => allowed_monotone, idLedger_ledger, extends_blocks.1, extends_blocks.2.1, held_ids.2⟩

theorem apart_firstBlock : IDsApart tables.env earlierLedger firstBlock where
  once := by
    rw [requests.2.2]
    decide
  spaced t p found _ _ request asked := by
    obtain ⟨_, listed, found⟩ := bind_eq_ok.mp found
    obtain rfl := listed_earlierLedger (orFail_eq_ok.mp listed)
    obtain rfl := ok_unique found getBlock_earlierLedger
    rw [requests.1] at asked
    simp at asked
  fits txn member genID unpacked := by
    obtain ⟨-, -, -, -, coinbases, asks, -⟩ := stored_blocks
    rcases mem_cons.mp member with rfl | member
    · exact absurd (coinbases.symm.trans unpacked) (by simp)
    · obtain rfl := mem_singleton.mp member
      obtain rfl : request 2 = genID := by simpa using asks.symm.trans unpacked
      decide
  newHash t listed := by
    obtain ⟨-, -, -, other, -⟩ := stored_blocks
    exact other (listed_earlierLedger listed).symm

/-- The theorem applied to the second request after the first one has been fulfilled. -/
theorem id_versions_never_regress_request :
    (heldID earlierLedger.states proposer).2 ≤ (heldID laterStore.states proposer).2 ∧
      AssignedOnce tables.env allowed laterStore ⟨proposer, 2⟩ := by
  have grows := (id_versions_never_regress rootsFaithful idLedger_earlierLedger
    (.step (.refl _) extends_blocks.2.2 apart_firstBlock)).1
  have start : Run tables.env allowed (IDsApart tables.env) earlierLedger earlierLedger := .refl _
  have fulfilled := (id_versions_never_regress rootsFaithful idLedger_earlierLedger start).2
  refine ⟨grows proposer, fulfilled _ _ extends_blocks.2.2 apart_firstBlock _ ?_⟩
  rw [requests.2.2]
  exact List.mem_singleton_self _

end OverlappingRequests

end Nkn
