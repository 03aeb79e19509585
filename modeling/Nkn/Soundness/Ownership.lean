import Nkn.Soundness.Authority
import Nkn.Soundness.Channels
import Nkn.Soundness.Names

/-! # The owners of names over a block

Execution recognises names by the hash of their lower-case spelling, the check of a block by their spelling. Ownership
is checked against the ledger, and the table of spellings stops neither a second spelling nor a transfer. -/

namespace Nkn

open Go Outcome Config Store StateDB Option List

def owner (states : StateDB) (id : Bytes) : Bytes := (nameRecord states id).registrant

inductive NameOp where
  | register (registrant : Bytes)
  | transfer (registrant recipient : Bytes)
  | delete (registrant : Bytes)
  deriving DecidableEq, Repr

namespace NameOp

def registrant : NameOp → Bytes
  | register registrant | transfer registrant _ | delete registrant => registrant

def leaves : NameOp → Bytes
  | register registrant => registrant
  | transfer _ recipient => recipient
  | delete _ => []

def registers : NameOp → Bool
  | register _ => true
  | _ => false

/-- A transaction on a name with the given owner changes nothing, is signed by the owner, or registers a name that has
none. -/
def Allowed (owner : Bytes) (op : NameOp) : Prop :=
  owner = op.leaves ∨ owner = op.registrant ∨ op.registers = true ∧ owner = []

instance (owner : Bytes) (op : NameOp) : Decidable (op.Allowed owner) := inferInstanceAs (Decidable (_ ∨ _ ∨ _ ∧ _))

/-- A transaction on a name may follow another one: two registrations are for one key, and otherwise the second is
allowed by the owner that the first one leaves. -/
def Compatible : NameOp → NameOp → Prop
  | register registrant, register registrant' => registrant = registrant'
  | op, op' => op'.Allowed op.leaves

instance : DecidableRel Compatible
  | register _, register _ => inferInstanceAs (Decidable (_ = _))
  | register _, transfer _ _ | register _, delete _ | transfer _ _, _ | delete _, _ =>
    inferInstanceAs (Decidable (Allowed _ _))

theorem registrant_of_registers {op : NameOp} (registers : op.registers = true) : op.registrant = op.leaves := by
  cases op <;> simp_all [NameOp.registers, registrant, leaves]

theorem compatible_iff {op op' : NameOp} : op.Compatible op' ↔
    op'.Allowed op.leaves ∧ (op.registers = true → op'.registers = true → op.registrant = op'.registrant) := by
  cases op with
  | register _ =>
    cases op' with
    | register _ =>
      refine ⟨fun same => ⟨.inl same, fun _ _ => same⟩, fun ⟨_, same⟩ => same rfl rfl⟩
    | _ => simp [Compatible, registers]
  | _ => simp [Compatible, registers]

end NameOp

section

variable (env : Env) (config : Config) (id : Bytes)

def nameOpOf : Pb.Message → Option NameOp
  | .registerName payload => if getNameId env payload.name = id then some (.register payload.registrant) else none
  | .transferName payload =>
    if getNameId env payload.name = id then some (.transfer payload.registrant payload.recipient) else none
  | .deleteName payload => if getNameId env payload.name = id then some (.delete payload.registrant) else none
  | _ => none

def nameOp (txn : Transaction) : Option NameOp :=
  match unpack env txn.unsignedTx.payload with
  | .ok message => nameOpOf env id message
  | .error _ => none

/-- How a step of a block may change the owner of a name: it transfers or deletes the name for its owner, who signs it,
or registers the name while it has no owner. -/
def LawfulChange (step : Step) : Prop :=
  ∃ op ∈ nameOp env id step.txn,
    if op.registers then owner step.before id = []
    else op.registrant = owner step.before id ∧
      ∃ key, Transaction.SignedBy env step.txn (createProgramHash env (owner step.before id)) key

structure OwnershipLaw (cs : ChainStore) (b : Block) : Prop where
  executed : (blockTrace env config cs b).map Step.txn = b.transactions
  /-- The first transaction finds the owner of the ledger. -/
  opened : ∀ start, blockStart env cs b = .ok start → owner start id = owner cs.states id
  changes : ∀ step ∈ blockTrace env config cs b, owner step.after id ≠ owner step.before id → LawfulChange env id step
  /-- After the transactions only the sweep of the block's height changes the owner. -/
  swept : ∀ start spent states root, blockStart env cs b = .ok start →
    spendTransactions env config cs (totalFee b.transactions) b.height start b.transactions = .ok spent →
    generateStateRoot env config cs b true true = .ok (states, root) →
    owner states id = if id ∈ getCleanup spent.namesCleanup b.height then [] else owner spent id
  registrants : ∀ op ∈ b.transactions.filterMap (nameOp env id), ∀ op' ∈ b.transactions.filterMap (nameOp env id),
    op.registers = true → op'.registers = true → op.registrant = op'.registrant

end

/-- A ledger whose state in memory reads the names of its trie, at the height that the database records. -/
structure MirrorsNames (cs : ChainStore) (trie : StateTrie) : Prop where
  opens : currentTrie cs = .ok trie
  records : ∀ id, nameRecord cs.states id = (trie.names id).getD .empty
  recorded : ∃ hash, cs.db.currentBlock = some (hash, cs.currentBlockHeight)

variable {env : Env} {config : Config} {cs : ChainStore} {b : Block} {states states' : StateDB}
  {height : UInt32} {fees : Int64} {txn : Transaction} {txns : List Transaction} {id : Bytes}

theorem nameRecord_registerName {name registrant : Bytes} {expiresAt : UInt32} :
    nameRecord (states.registerName env name registrant expiresAt) id =
      if id = getNameId env name then ⟨registrant, expiresAt⟩ else nameRecord states id :=
  nameRecord_of_put (by simp [registerName, getNameInfo]) id

theorem nameRecord_transferName {name recipient : Bytes} : nameRecord (states.transferName env name recipient) id =
      if id = getNameId env name then { nameRecord states id with registrant := recipient } else nameRecord states id := by
  rw [nameRecord_of_put names_transferName]
  split_ifs with same
  · rw [same]
  · rfl

theorem names_deleteName {name : Bytes} :
    (states.deleteName env name).names = states.names.put (getNameId env name) .empty := by
  by_cases empty : (states.getNameInfo (getNameId env name)).1 = .empty
  · simp only [deleteName, if_pos empty]
    exact congrArg (states.names.put _) empty
  · simp only [deleteName, if_neg empty]
    exact Table.put_put _ _ _ _

theorem owner_step (current : config.isLegacy height = false)
    (run : spendTransaction env config cs fees false height states txn = .ok states') :
    owner states' id = (nameOp env id txn).elim (owner states id) (·.leaves) := by
  obtain ⟨message, sender, unpacked, names, -⟩ := names_spendTransaction run
  have record : nameRecord states' id = nameRecord (applyRecords env config states txn sender height message) id := by
    simp only [nameRecord, names]
  simp only [owner, record, nameOp, unpacked]
  cases message with
  | registerName _ =>
    simp only [applyRecords, current, Bool.false_eq_true, if_false, nameRecord_registerName, nameOpOf, @eq_comm _ id]
    split_ifs <;> rfl
  | transferName _ =>
    simp only [applyRecords, nameRecord_transferName, nameOpOf, @eq_comm _ id]
    split_ifs <;> rfl
  | deleteName _ =>
    simp only [applyRecords, current, Bool.false_eq_true, if_false, nameRecord_of_put names_deleteName, nameOpOf,
      @eq_comm _ id]
    split_ifs <;> rfl
  | _ =>
    rw [nameRecord, (others_applyRecords rfl).2.1 (by simp [Pb.Message.type])]
    rfl

namespace NamesUnmarked

variable {name : Bytes} (unmarked : NamesUnmarked states)

include unmarked

theorem registerName (registrant : Bytes) (expiresAt : UInt32) :
    NamesUnmarked (states.registerName env name registrant expiresAt) := by
  refine ⟨(unmarked.names.put _ _).put _ _, ?_⟩
  by_cases empty : (states.getNameInfo (getNameId env name)).1 = .empty
  · simp only [StateDB.registerName, if_pos empty]
    exact unmarked.cleanup.put _ _
  · simp only [StateDB.registerName, if_neg empty]
    exact Table.NoNil.put (unmarked.cleanup.put _ _) _ _

theorem deleteName : NamesUnmarked (states.deleteName env name) := by
  refine ⟨names_deleteName ▸ unmarked.names.put _ _, ?_⟩
  by_cases empty : (states.getNameInfo (getNameId env name)).1 = .empty
  · simp only [StateDB.deleteName, if_pos empty]
    exact unmarked.cleanup
  · simp only [StateDB.deleteName, if_neg empty]
    exact unmarked.cleanup.put _ _

theorem step (current : config.isLegacy height = false)
    (run : spendTransaction env config cs fees false height states txn = .ok states') : NamesUnmarked states' := by
  obtain ⟨message, sender, -, names, cleanup⟩ := names_spendTransaction run
  suffices applied : NamesUnmarked (applyRecords env config states txn sender height message) from
    ⟨names ▸ applied.names, cleanup ▸ applied.cleanup⟩
  cases message with
  | registerName _ =>
    simp only [applyRecords, current, Bool.false_eq_true, if_false]
    exact unmarked.registerName _ _
  | transferName _ => exact ⟨(unmarked.names.put _ _).put _ _, unmarked.cleanup⟩
  | deleteName _ =>
    simp only [applyRecords, current, Bool.false_eq_true, if_false]
    exact unmarked.deleteName
  | _ =>
    refine ⟨?_, ?_⟩
    · rw [(others_applyRecords rfl).2.1 (by simp [Pb.Message.type])]
      exact unmarked.names
    · rw [(others_applyRecords rfl).2.2.1 (by simp [Pb.Message.type])]
      exact unmarked.cleanup

end NamesUnmarked

/-- What the checks establish of a transaction on a name: the owner on the ledger is the registrant, or the name is
registered and has no owner; the registrant's account signs. -/
structure NameChecked (env : Env) (cs : ChainStore) (id : Bytes) (txn : Transaction) (op : NameOp) : Prop where
  owned : owner cs.states id = op.registrant ∨ op.registers = true ∧ owner cs.states id = []
  unowned : owner cs.states id = [] → op.registers = true
  signed : ∃ key, Transaction.SignedBy env txn (createProgramHash env op.registrant) key

theorem checkTransaction_nameChecked {state state' : CheckState} {op : NameOp} (current : config.isLegacy height = false)
    (checked : checkTransaction env config cs height state txn = .ok state') (named : nameOp env id txn = some op) :
    NameChecked env cs id txn op := by
  obtain ⟨verified, -, ledger, -⟩ := checkTransaction_eq_ok.mp checked
  obtain ⟨message, verified⟩ := verifyTransaction_verified verified
  obtain ⟨-, -, _, checked, -⟩ := (verifyTransactionWithLedger_eq_ok verified.unpacked).mp ledger
  simp only [nameOp, verified.unpacked] at named
  cases message with
  | registerName _ =>
    simp only [nameOpOf, ite_none_right_eq_some, Option.some.injEq] at named
    obtain ⟨rfl, rfl⟩ := named
    refine ⟨?_, fun _ => rfl, verified.signed (by simp [Pb.Message.type])⟩
    rcases registrant_of_checked current checked rfl with unowned | owned
    · exact .inr ⟨rfl, unowned⟩
    · exact .inl (Option.some.inj owned).symm
  | transferName _ =>
    simp only [nameOpOf, ite_none_right_eq_some, Option.some.injEq] at named
    obtain ⟨rfl, rfl⟩ := named
    simp only [verifyMessageWithLedger, bind_eq_ok, rejectIf_eq_ok, exists_const, not_not] at checked
    exact ⟨.inl checked.2.2.1, fun none => absurd (congrArg length none) checked.1,
      verified.signed (by simp [Pb.Message.type])⟩
  | deleteName _ =>
    simp only [nameOpOf, ite_none_right_eq_some, Option.some.injEq] at named
    obtain ⟨rfl, rfl⟩ := named
    simp only [verifyMessageWithLedger, current, Bool.false_eq_true, if_false, bind_eq_ok, rejectIf_eq_ok, exists_const,
      not_not] at checked
    exact ⟨.inl checked.2.1, fun none => absurd (congrArg length none) checked.1,
      verified.signed (by simp [Pb.Message.type])⟩
  | _ => simp [nameOpOf] at named

section

variable (current : config.isLegacy height = false)
  (run : spendTransactions env config cs fees height states txns = .ok states')

include current run

theorem namesUnmarked_run (unmarked : NamesUnmarked states) : NamesUnmarked states' :=
  foldlM_invariant NamesUnmarked run unmarked fun _ keep turn => keep.step current turn

theorem lawful_iff_isChain
    (checked : ∀ txn ∈ txns, ∀ op ∈ nameOp env id txn, NameChecked env cs id txn op) (before : NameOp)
    (leaves : owner states id = before.leaves) :
    (∀ step ∈ trace env config cs fees height states txns,
        owner step.after id ≠ owner step.before id → LawfulChange env id step) ↔
      (before :: txns.filterMap (nameOp env id)).IsChain fun op op' => op'.Allowed op.leaves := by
  induction txns generalizing states before with
  | nil => simp [trace]
  | cons txn _ ih =>
    obtain ⟨middle, first, rest⟩ := foldlM_cons_eq_ok.mp run
    obtain ⟨checkedFirst, checkedRest⟩ := forall_mem_cons.mp checked
    have after : owner middle id = _ := owner_step current first
    rw [trace_cons first, forall_mem_cons]
    cases named : nameOp env id txn with
    | none =>
      rw [named, elim_none] at after
      rw [filterMap_cons_none named, ← ih rest checkedRest before (after.trans leaves)]
      simp [after]
    | some op =>
      rw [named, elim_some] at after
      rw [filterMap_cons_some named, isChain_cons_cons, ← ih rest checkedRest op after]
      refine and_congr_left fun _ => ?_
      obtain ⟨-, -, key, signed⟩ := checkedFirst op named
      simp only [LawfulChange, named, mem_some_iff, exists_eq_left', after, leaves, NameOp.Allowed]
      by_cases same : before.leaves = op.leaves
      · simp [same]
      · simp only [ne_eq, Ne.symm same, not_false_iff, true_implies, same, false_or]
        cases registers : op.registers with
        | true => simp [NameOp.registrant_of_registers registers, same]
        | false =>
          simp only [Bool.false_eq_true, if_false, false_and, or_false, @eq_comm _ before.leaves]
          exact ⟨And.left, fun owned => ⟨owned, key, owned ▸ signed⟩⟩

end

theorem compatible_isChain_iff {ops : List NameOp} (checked : ∀ op ∈ ops, ∃ txn, NameChecked env cs id txn op) :
    ops.IsChain NameOp.Compatible ↔ ops.IsChain (fun op op' => op'.Allowed op.leaves) ∧
      ∀ op ∈ ops, ∀ op' ∈ ops, op.registers = true → op'.registers = true → op.registrant = op'.registrant := by
  constructor
  · intro chain
    refine ⟨chain.imp fun _ _ compatible => (NameOp.compatible_iff.mp compatible).1, fun op member op' member' => ?_⟩
    by_cases unowned : owner cs.states id = []
    · -- only registrations, so the chain is one of equal registrants
      have registers (op : NameOp) (member : op ∈ ops) : op.registers = true :=
        (checked op member).choose_spec.unowned unowned
      have equal : ops.IsChain fun op op' => op.registrant = op'.registrant :=
        chain.imp_of_mem_imp fun op op' member member' compatible =>
          (NameOp.compatible_iff.mp compatible).2 (registers op member) (registers op' member')
      have trans : IsTrans NameOp fun op op' => op.registrant = op'.registrant := ⟨fun _ _ _ => Eq.trans⟩
      have symm : Std.Symm fun op op' : NameOp => op.registrant = op'.registrant := ⟨fun _ _ => Eq.symm⟩
      have pairs : ops.Pairwise fun op op' => op.registrant = op'.registrant := List.isChain_iff_pairwise.mp equal
      intro _ _
      rcases eq_or_ne op op' with rfl | different
      · rfl
      · exact pairs.forall member member' different
    · -- the ledger names the only possible registrant
      intro _ _
      have same (op : NameOp) (member : op ∈ ops) : owner cs.states id = op.registrant :=
        (checked op member).choose_spec.owned.resolve_right fun none => unowned none.2
      exact (same op member).symm.trans (same op' member')
  · rintro ⟨allowed, registrants⟩
    exact allowed.imp_of_mem_imp fun op op' member member' allowed =>
      NameOp.compatible_iff.mpr ⟨allowed, registrants op member op' member'⟩

theorem MirrorsNames.finalizesLegacyNames_eq {trie : StateTrie} (mirrors : MirrorsNames cs trie)
    (next : b.height = cs.currentBlockHeight + 1) : finalizesLegacyNames config cs = config.isLegacy b.height := by
  obtain ⟨_, recorded⟩ := mirrors.recorded
  simp only [finalizesLegacyNames, recorded, next]

theorem MirrorsNames.start {trie : StateTrie} (mirrors : MirrorsNames cs trie) {start : StateDB}
    (started : blockStart env cs b = .ok start) :
    NamesUnmarked start ∧ ∀ id, nameRecord start id = nameRecord cs.states id := by
  obtain ⟨_, opened, assigned⟩ := bind_eq_ok.mp started
  obtain rfl := ok_unique opened mirrors.opens
  obtain ⟨names, cleanup⟩ := generateIDs_frame assigned
  refine ⟨⟨names ▸ Table.noNil_ofStore _, cleanup ▸ Table.noNil_ofStore _⟩, fun id => ?_⟩
  rw [mirrors.records, nameRecord, names, StateDB.new, Table.read_ofStore]

theorem owner_sweep (unmarked : NamesUnmarked states) (id : Bytes) :
    owner ((cleanup height states).finalize env false true) id =
      if id ∈ getCleanup states.namesCleanup height then [] else owner states id := by
  have unswept : NamesUnmarked ((states.cleanupNanoPay height).cleanupPubSub height) := ⟨unmarked.names, unmarked.cleanup⟩
  have committed : nameRecord ((cleanup height states).finalize env false true) id =
      nameRecord (StateDB.new ((cleanup height states).finalize env false true).trie) id := by
    simp only [nameRecord, StateDB.new, Table.read_ofStore]
    simp [StateDB.trie, StateDB.finalize, Table.finalize, Table.read]
  have swept : nameRecord (StateDB.new ((cleanup height states).finalize env false true).trie) id =
      if ((getCleanup states.namesCleanup height).load id).isSome = true then .empty else nameRecord states id :=
    nameRecord_sweep unswept id
  have due : ((getCleanup states.namesCleanup height).load id).isSome = true ↔ id ∈ getCleanup states.namesCleanup height :=
    AList.lookup_isSome
  rw [owner, committed, swept]
  simp only [due]
  split_ifs <;> rfl

/-- On a name, an accepted block at a height with the current name service follows the law exactly when its transactions
on the name are compatible in block order. -/
theorem ownership_law_iff {trie : StateTrie} (mirrors : MirrorsNames cs trie)
    (accepted : transactionCheck env config cs b = .ok ()) (next : b.height = cs.currentBlockHeight + 1)
    (current : config.isLegacy b.height = false) (id : Bytes) :
    OwnershipLaw env config id cs b ↔ (b.transactions.filterMap (nameOp env id)).IsChain NameOp.Compatible := by
  obtain ⟨first, rest, coinbase, donation, state, start, spent, accepted⟩ := transactionCheck_accepted accepted
  have nonzero := accepted.coinbaseOk.nonzero
  have steps := accepted.blockTrace_eq
  have run := accepted.run
  have checked := accepted.checked
  rw [← accepted.transactions] at steps run checked
  have named : ∀ txn ∈ b.transactions, ∀ op ∈ nameOp env id txn, NameChecked env cs id txn op := by
    intro txn member op named
    obtain ⟨_, _, turn⟩ := checkTransactions_forall checked txn member
    exact checkTransaction_nameChecked current turn named
  obtain ⟨unmarked, records⟩ := mirrors.start accepted.started
  have opened : owner start id = owner cs.states id := congrArg NameInfo.registrant (records id)
  have lawful := lawful_iff_isChain current run named (.register (owner cs.states id)) opened
  have ops : ∀ op ∈ b.transactions.filterMap (nameOp env id), ∃ txn, NameChecked env cs id txn op := by
    intro op member
    obtain ⟨txn, inside, hit⟩ := List.mem_filterMap.mp member
    exact ⟨txn, named txn inside op hit⟩
  have first : (NameOp.register (owner cs.states id) :: b.transactions.filterMap (nameOp env id)).IsChain
      (fun op op' => op'.Allowed op.leaves) ↔
      (b.transactions.filterMap (nameOp env id)).IsChain fun op op' => op'.Allowed op.leaves := by
    cases split : b.transactions.filterMap (nameOp env id) with
    | nil => simp
    | cons op _ =>
      obtain ⟨_, ok⟩ := ops op (split ▸ List.mem_cons_self)
      rw [List.isChain_cons_cons, and_iff_right]
      exact .inr ok.owned
  rw [compatible_isChain_iff ops, ← first, ← lawful, ← steps]
  constructor
  · exact fun law => ⟨law.changes, law.registrants⟩
  · rintro ⟨changes, registrants⟩
    refine ⟨?_, fun start' started => ?_, changes, fun start' spent' states root started run' generated => ?_, registrants⟩
    · rw [steps, txns_trace run]
    · rwa [← ok_unique accepted.started started]
    · obtain rfl := ok_unique accepted.started started
      obtain rfl := ok_unique run run'
      obtain ⟨_, _, started', run'', rfl, -⟩ := (generateStateRoot_eq_ok true nonzero).mp generated
      obtain rfl := ok_unique started started'
      obtain rfl := ok_unique run run''
      rw [mirrors.finalizesLegacyNames_eq next, current]
      exact owner_sweep (namesUnmarked_run current run unmarked) id

/-! Two keys register `example` and `Example` in one block. The second registration takes the name from the first. -/

namespace RespelledName

open Sample
open RespelledChannel (senderKey sender)
open RenewedName (renewed nameId registration registerTxn registerHash registerHashForSigning)

def respelled : Bytes := [69, 120, 97, 109, 112, 108, 101]

def otherRegistration : Pb.RegisterName := ⟨senderKey, respelled, 1000000000⟩

def otherSignature : Bytes :=
  (Word.ofNat 64 0xba6d301f4f09536f90afc170d6ac862a5a38252ab453c30f2397d60a1bae8c10d5b831ae0ab5ae7292eb92723820cb8a56a8d30b044bd16e069a74a89ea4130f).toArray

def otherTxn : Transaction :=
  ⟨packed (.registerName otherRegistration) 0 0, [⟨createSignatureProgramCode senderKey, 64 :: otherSignature⟩]⟩

def otherHashForSigning : Uint256 := Word.ofNat 32 0x44fe6d85850db0bc299d26fe094f1485d8e1dd207bd3ea61fa88f97b6dfca9ed

def otherHash : Uint256 := Word.ofNat 32 0x87e822c5fd12b35efcdef200030246a6b005b35277b1b9d8ed3a99789fc5ff06

def leftNode : Uint256 := Word.ofNat 32 0x3638140efea7fe522c97be77aa0603144d1666e1660f8ba1d8cf150d338ca2ce

def rightNode : Uint256 := Word.ofNat 32 0xffb30004e85b49d8d793ee7daf51b37a3c1f10e97616c5c5ae5d20beb45ba22a

def txnsRoot : Uint256 := Word.ofNat 32 0xe9120ab3bfd924d1738df3b2a60cdb6949fcbd671dfb514632141e08386119e4

def root : Uint256 := Word.ofNat 32 0x818b9d42a539ae018e089b1672ebc4523520440e20cd34bee60468757e0cd4de

def nextRoot : Uint256 := Word.ofNat 32 0x289458c4e26f124f1c6e4e41def2114c0b9aa6593e6490187e01237b4f2d4226

def tables : Tables where
  sha256 :=
    (createSignatureProgramCode proposerKey, FirstBlocks.proposerCodeHash) ::
    (createSignatureProgramCode senderKey, RespelledChannel.codeHash) ::
    (renewed, Word.ofNat 32 0x50d858e0985ecc7f60418aaf0cc5ab587f42c2570a884095a9e8ccacd0f6545c) ::
    Tables.hashedTwice (Transaction.serializeUnsigned (coinbaseTxn 1 0))
      (Word.ofNat 32 0x919074897ee066ff951494bd97727b92b24458eac388018d3763840201395c02) RespelledChannel.coinbaseHash ++
    Tables.hashedTwice (Transaction.serializeUnsigned registerTxn) registerHashForSigning registerHash ++
    Tables.hashedTwice (Transaction.serializeUnsigned otherTxn) otherHashForSigning otherHash ++
    Tables.hashedTwice (RespelledChannel.coinbaseHash.toArray ++ registerHash.toArray)
      (Word.ofNat 32 0xeb6e2e1473417f0af8dab689819f00770862f0624ae9c812fbf5bd997499bce0) leftNode ++
    Tables.hashedTwice (otherHash.toArray ++ otherHash.toArray)
      (Word.ofNat 32 0xa2fc0c9bc445a66060b2e86c0e15d17de2b8b6f64241889d9ac46b8ff4190d61) rightNode ++
    Tables.hashedTwice (leftNode.toArray ++ rightNode.toArray)
      (Word.ofNat 32 0xeab197630d65f8104de65fe19476a5892475cc4e38e571f8b3c6bacc6584410f) txnsRoot
  ripemd160 := [(FirstBlocks.proposerCodeHash.toArray, proposer), (RespelledChannel.codeHash.toArray, sender)]
  signatures :=
    [(proposerKey, registerHashForSigning.toArray, RenewedName.firstSignature),
      (senderKey, otherHashForSigning.toArray, otherSignature)]
  messages := [.coinbase coinbase, .registerName registration, .registerName otherRegistration]
  regexes :=
    [(mainnet.allowNameRegex.getValueAtHeight 5000000, renewed), (mainnet.allowNameRegex.getValueAtHeight 5000000, respelled)]
  stateRoot := fun _ => nextRoot

def trie : StateTrie :=
  .ofBalances [(donationAddress, 100000000000), (proposer, 10000000000), (sender, 10000000000)] 80000000000000000

def ledger : ChainStore :=
  let cs := chainStore root trie
  { cs with db := { cs.db with currentBlock := some (emptyUint256, 4999999) } }

def block : Block := ⟨header 5000000 txnsRoot nextRoot, [coinbaseTxn 1 0, registerTxn, otherTxn]⟩

theorem mirrorsNames : MirrorsNames ledger trie where
  opens := rfl
  records _ := rfl
  recorded := ⟨_, rfl⟩

theorem accepted : transactionCheck tables.env mainnet ledger block = .ok () := by
  decide +kernel

theorem respelled_name_taken :
    mainnet.isLegacy block.height = false ∧ transactionCheck tables.env mainnet ledger block = .ok () ∧
      ¬ OwnershipLaw tables.env mainnet nameId ledger block := by
  refine ⟨by decide, accepted, fun law => ?_⟩
  have ops : block.transactions.filterMap (nameOp tables.env nameId) = [.register proposerKey, .register senderKey] := by
    decide +kernel
  have same := law.registrants (.register proposerKey) (by simp [ops]) (.register senderKey) (by simp [ops]) rfl rfl
  exact absurd same (by decide)

theorem ownership_law_iff_block : OwnershipLaw tables.env mainnet nameId ledger block ↔
      (block.transactions.filterMap (nameOp tables.env nameId)).IsChain NameOp.Compatible :=
  ownership_law_iff mirrorsNames accepted (by decide) (by decide) nameId

end RespelledName

end Nkn
