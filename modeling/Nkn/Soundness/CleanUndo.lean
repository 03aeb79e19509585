import Nkn.Soundness.Concrete
import Nkn.Proofs.Holdings

/-!
# Taking a reservation back

A transaction that is verified, committed and cleaned leaves a state that answers as before, unless it transfers a name
that another one has reserved: cleaning it frees the name for both.
-/

namespace Nkn

open Go Outcome Store

namespace BlockValidationState

variable {env : Env} {config : Config} {cs : ChainStore} {height : UInt32} {bvs bvs' after : BlockValidationState}
  {entries : List (Entry env config cs height)} {entry : Entry env config cs height}

def MovesReserved (bvs : BlockValidationState) (message : Pb.Message) : Prop :=
  ∃ payload, message = .transferName payload ∧ bvs.registeredNames.load payload.name ≠ none

def Undoes (env : Env) (config : Config) (cs : ChainStore) (height : UInt32) (txn : Transaction)
    (committed bvs : BlockValidationState) : Prop :=
  ∃ after, cleanSubmittedTransactions env cs [txn] committed = (.ok (), after) ∧ Alike config cs height after bvs ∧
    ∀ next, (after.verifyTransactionWithBlock env config cs next height).isOk =
      (bvs.verifyTransactionWithBlock env config cs next height).isOk

theorem name_mem_records {name : Bytes} {registrant : Option Bytes} (asks : .name name registrant ∈ entry.changes) :
    .name name registrant ∈ records env cs entry.txn entry.message := by
  rw [entry.changes_eq, List.mem_append, List.mem_append] at asks
  rcases asks with (amount | recorded) | listed
  · unfold amountsOf at amount
    split_ifs at amount <;> simp at amount
  · exact recorded
  · simp at listed

theorem namesApart_of_verified (current : config.isLegacy height = false) (stands : Stands bvs entries)
    (verified : bvs.verifyTransactionWithBlock env config cs entry.txn height = .ok bvs')
    (apart : ¬MovesReserved bvs entry.message) : ∀ other ∈ entries, entry.NamesApart other := by
  intro other member name asked has
  have there : Holds bvs (.name name) := (stands.keys _).mpr ⟨other, member, has⟩
  obtain ⟨message, _, _, reserves, free, -⟩ := verify_iff.mp verified
  obtain rfl := ok_unique entry.reserved reserves
  obtain ⟨change, asks, same⟩ := List.mem_filterMap.mp asked
  rcases change with _ | ⟨_, _ | _⟩ | _ | _ | _ | _ <;> cases same
  · have recorded := name_mem_records asks
    cases shape : entry.message with
    | transferName payload =>
      have moved : name = payload.name := by simpa [shape, records] using recorded
      exact apart ⟨payload, shape, moved ▸ there⟩
    | _ => simp [shape, records] at recorded
  · exact (free_record_iff current (by simp)).mp (free _ asks) _ rfl there

theorem recount_names {payload : Pb.NanoPay} (ran : recount cs payload bvs = (.ok (), bvs')) :
    bvs'.registeredNames = bvs.registeredNames := by
  obtain ⟨_, _, checked, ran⟩ := Proc.bind_eq_ok.mp ran
  obtain ⟨-, rfl⟩ := Proc.lift_eq_ok.mp checked
  obtain rfl := (Prod.mk.inj ran).2
  rfl

theorem recounts_names {payloads : List Pb.NanoPay} (ran : Proc.forEach payloads (recount cs) bvs = (.ok (), bvs')) :
    bvs'.registeredNames = bvs.registeredNames := by
  induction payloads generalizing bvs with
  | nil => rw [← (Prod.mk.inj ran).2]
  | cons _ _ ih =>
    obtain ⟨_, _, first, ran⟩ := Proc.bind_eq_ok.mp ran
    rw [ih ran, recount_names first]

theorem recountNanoPays_names (ran : recountNanoPays cs bvs = (.ok (), bvs')) :
    bvs'.registeredNames = bvs.registeredNames := by
  unfold recountNanoPays at ran
  split_ifs at ran
  · have kept := recounts_names ran
    exact kept
  · rw [← (Prod.mk.inj ran).2]

theorem releaseAmount_names {sender : Uint160} {amount fee : Int64}
    (ran : releaseAmount sender amount fee bvs = (.ok (), bvs')) : bvs'.registeredNames = bvs.registeredNames := by
  unfold releaseAmount at ran
  split_ifs at ran
  · split at ran
    · split_ifs at ran
      · rw [← (Prod.mk.inj ran).2]
      · cases (Prod.mk.inj ran).1
    · cases (Prod.mk.inj ran).1
  · rw [← (Prod.mk.inj ran).2]

theorem clean_frees_name {txn : Transaction} {payload : Pb.TransferName}
    (unpacked : unpack env txn.unsignedTx.payload = .ok (.transferName payload))
    (listed : Holds bvs (.txn (Transaction.hash env txn)))
    (ran : cleanSubmittedTransactions env cs [txn] bvs = (.ok (), after)) :
    after.registeredNames.load payload.name = none := by
  obtain ⟨_, known⟩ := Option.ne_none_iff_exists'.mp listed
  obtain ⟨_, _, looped, counted⟩ := Proc.bind_eq_ok.mp ran
  obtain ⟨_, _, released, ended⟩ := Proc.bind_eq_ok.mp looped
  obtain rfl := (Prod.mk.inj ended).2
  simp only [release, Proc.gets_bind, known, Proc.modify_bind, unpacked, Proc.lift_ok_bind] at released
  obtain ⟨_, _, hashes, released⟩ := Proc.bind_eq_ok.mp released
  obtain ⟨-, rfl⟩ := Proc.lift_eq_ok.mp hashes
  obtain ⟨_, _, first, released⟩ := Proc.bind_eq_ok.mp released
  obtain ⟨-, rfl⟩ := Proc.lift_eq_ok.mp first
  rw [recountNanoPays_names counted, releaseAmount_names released]
  simp [releaseMessage]

theorem undoes_of_apart (current : config.isLegacy height = false)
    (bound : ∀ addr, (cs.getBalance addr).toInt ≤ balanceBound) (stands : Stands bvs entries) (totals : TotalsOk cs bvs)
    (verified : bvs.verifyTransactionWithBlock env config cs entry.txn height = .ok bvs')
    (apart : ¬MovesReserved bvs entry.message) : Undoes env config cs height entry.txn bvs'.commit bvs := by
  have holds : HoldsAll bvs'.commit ([entry] ++ entries) :=
    (stands.commit current bound totals verified).1.toHoldsAll.perm List.perm_append_comm
  obtain ⟨after, ran, stands'⟩ := cleanSubmittedTransactions_stands holds (List.pairwise_singleton _ _)
    fun entry' single => by
      obtain rfl := List.mem_singleton.mp single
      exact namesApart_of_verified current stands verified apart
  have alike := stands'.alike current stands
  exact ⟨after, ran, alike, alike.accepts⟩

theorem not_undoes_of_moves (current : config.isLegacy height = false)
    (bound : ∀ addr, (cs.getBalance addr).toInt ≤ balanceBound) (stands : Stands bvs entries) (totals : TotalsOk cs bvs)
    (verified : bvs.verifyTransactionWithBlock env config cs entry.txn height = .ok bvs')
    (moves : MovesReserved bvs entry.message) : ¬Undoes env config cs height entry.txn bvs'.commit bvs := by
  rintro ⟨_, ran, alike, -⟩
  obtain ⟨payload, shape, there⟩ := moves
  have listed : Holds bvs'.commit (.txn (Transaction.hash env entry.txn)) :=
    ((stands.commit current bound totals verified).1.keys _).mpr ⟨entry, by simp, by simp [Entry.keys_eq]⟩
  have free := clean_frees_name (shape ▸ entry.unpacked) listed ran
  -- A registration of the name would now be let through.
  have answer := alike (.name payload.name (some []))
  rw [free_record_iff current (by simp), free_record_iff current (by simp)] at answer
  exact answer.mp (by simp [checkedKey, keyOf, Holds, free]) _ rfl there

/-- In every state reached by verifying and committing transactions, an accepted transaction is undone by its cleaning
exactly if it does not move a name that is reserved already. Any transactions of the state can be cleaned at once, if
none of them has a name in common with another one, and what is left answers as a state built from the others. -/
theorem clean_undoes_iff (current : config.isLegacy height = false)
    (bound : ∀ addr, (cs.getBalance addr).toInt ≤ balanceBound) (nonneg : ∀ addr, 0 ≤ (cs.getBalance addr).toInt)
    (reached : Reaches env config cs height entries bvs) :
    (∀ (entry : Entry env config cs height) bvs', bvs.verifyTransactionWithBlock env config cs entry.txn height = .ok bvs' →
      (Undoes env config cs height entry.txn bvs'.commit bvs ↔ ¬MovesReserved bvs entry.message)) ∧
    ∀ cleaned rest : List (Entry env config cs height), entries.Perm (cleaned ++ rest) → cleaned.Pairwise Entry.NamesApart →
      (∀ entry ∈ cleaned, ∀ other ∈ rest, entry.NamesApart other) →
      ∃ after, cleanSubmittedTransactions env cs (cleaned.map Entry.txn) bvs = (.ok (), after) ∧
        ∀ rest' built, rest.Perm rest' → Reaches env config cs height rest' built →
          Alike config cs height after built ∧
          ∀ next, (after.verifyTransactionWithBlock env config cs next height).isOk =
            (built.verifyTransactionWithBlock env config cs next height).isOk := by
  obtain ⟨stands, totals⟩ := reached.stands current bound nonneg
  refine ⟨fun entry bvs' verified => ⟨fun undone moves => ?_, undoes_of_apart current bound stands totals verified⟩, ?_⟩
  · exact not_undoes_of_moves current bound stands totals verified moves undone
  · intro cleaned rest split named named'
    obtain ⟨after, ran, stands'⟩ := cleanSubmittedTransactions_stands (stands.toHoldsAll.perm split) named named'
    refine ⟨after, ran, fun rest' built same reached' => ?_⟩
    have alike := (Stands.perm stands' same).alike current (reached'.stands current bound nonneg).1
    exact ⟨alike, alike.accepts⟩

end BlockValidationState

namespace NameHandover

open Sample Config BlockValidationState

def name : Bytes := [110, 107, 110, 111, 114, 103]

def recipientKey : Bytes := (Word.ofNat 32 0x8139770ea87d175f56a35466c34c7ecccb8d8a91b4ee37a25df60f5b8fc9b394).toArray

structure Digested where
  message : Pb.Message
  nonce : UInt64
  hashForSigning : Uint256
  hash : Uint256

def Digested.txn (digested : Digested) : Transaction := ⟨packed digested.message digested.nonce 0, []⟩

def renewal : Digested where
  message := .registerName ⟨proposerKey, name, 10⟩
  nonce := 0
  hashForSigning := Word.ofNat 32 0x1057d56b00c38864e274b7a383120e98a42938063d857f767fbb8addb53cfe61
  hash := Word.ofNat 32 0xa8b2cb34e981e92b98742cf59568a97f7afd201399ba1254faf51affaa31369d

def handover : Digested where
  message := .transferName ⟨name, proposerKey, recipientKey⟩
  nonce := 1
  hashForSigning := Word.ofNat 32 0xa4d92c91ceb83befaf46573af11b0f4b8fd4085795aeeda9584c0edd2ba91289
  hash := Word.ofNat 32 0x745911c8da2e792949cb49711b8ec92a05c72b6c353594251dbb04d17691e650

def again : Digested where
  message := .registerName ⟨proposerKey, name, 10⟩
  nonce := 2
  hashForSigning := Word.ofNat 32 0x421995a8ee3df17780c75ebc7349093345900d2f8083f750f9eb154781e8ea83
  hash := Word.ofNat 32 0x39bba620f2022412a873f21bc07487adb45fdf4b4be0f51ebda7b1f657a98ed7

def all : List Digested := [renewal, handover, again]

def tables : Tables where
  sha256 :=
    (createSignatureProgramCode proposerKey, FirstBlocks.proposerCodeHash) ::
      all.flatMap fun digested =>
        Tables.hashedTwice (Transaction.serializeUnsigned digested.txn) digested.hashForSigning digested.hash
  ripemd160 := [(FirstBlocks.proposerCodeHash.toArray, proposer)]
  signatures := []
  messages := all.map Digested.message

def ledger : ChainStore := chainStore emptyUint256 (.ofBalances [(proposer, 30)] 80000000000000000)

def verify (bvs : BlockValidationState) (digested : Digested) : Outcome BlockValidationState :=
  bvs.verifyTransactionWithBlock tables.env mainnet ledger digested.txn 5000000

def accept (bvs : BlockValidationState) (digested : Digested) : BlockValidationState :=
  ((verify bvs digested).toOption.getD bvs).commit

def pending : BlockValidationState := accept .new renewal

def cleaned : BlockValidationState :=
  (cleanSubmittedTransactions tables.env ledger [handover.txn] (accept pending handover)).2

theorem runs : ((verify .new renewal).isOk = true ∧ (verify pending handover).isOk = true ∧
      (cleanSubmittedTransactions tables.env ledger [handover.txn] (accept pending handover)).1 = .ok () ∧
      (verify pending again).isOk = false ∧ (verify cleaned again).isOk = true) ∧
    (unpack tables.env renewal.txn.unsignedTx.payload = .ok renewal.message ∧
      unpack tables.env handover.txn.unsignedTx.payload = .ok handover.message ∧
      (reservation tables.env mainnet ledger renewal.txn 5000000).isOk = true ∧
      (reservation tables.env mainnet ledger handover.txn 5000000).isOk = true) := by
  decide +kernel

def renewalEntry : Entry tables.env mainnet ledger 5000000 where
  txn := renewal.txn
  message := renewal.message
  changes := (reservation tables.env mainnet ledger renewal.txn 5000000).toOption.getD []
  unpacked := runs.2.1
  reserved := eq_ok_of_isOk runs.2.2.2.1
  plain := ⟨by decide, by decide⟩
  claim := ⟨by decide, by decide⟩
  fee := ⟨by decide, by decide⟩

def handoverEntry : Entry tables.env mainnet ledger 5000000 where
  txn := handover.txn
  message := handover.message
  changes := (reservation tables.env mainnet ledger handover.txn 5000000).toOption.getD []
  unpacked := runs.2.2.1
  reserved := eq_ok_of_isOk runs.2.2.2.2
  plain := ⟨by decide, by decide⟩
  claim := ⟨by decide, by decide⟩
  fee := ⟨by decide, by decide⟩

theorem reaches_pending : Reaches tables.env mainnet ledger 5000000 [renewalEntry] pending :=
  @Reaches.verify _ _ _ _ [] _ _ renewalEntry .new (eq_ok_of_isOk runs.1.1)

theorem balances (addr : Uint160) : ledger.getBalance addr = if addr = proposer then 30 else 0 := by
  have balance : ledger.getBalance addr = if nknAssetID = nknAssetID ∧ addr = proposer then 30 else 0 :=
    getBalance_ofBalances _ _ _ _ _
  simpa using balance

/-- A pending renewal keeps a second one out, until a transfer of the name comes and is cleaned again. -/
theorem handover_frees_name : Reaches tables.env mainnet ledger 5000000 [renewalEntry] pending ∧
    (verify pending handover).isOk = true ∧
    cleanSubmittedTransactions tables.env ledger [handover.txn] (accept pending handover) = (.ok (), cleaned) ∧
    (verify pending again).isOk = false ∧ (verify cleaned again).isOk = true ∧
    ¬Undoes tables.env mainnet ledger 5000000 handover.txn (accept pending handover) pending := by
  obtain ⟨⟨-, accepted, ran, before, later⟩, -⟩ := runs
  refine ⟨reaches_pending, accepted, Proc.eq_of_fst ran, before, later, fun undone => ?_⟩
  obtain ⟨after, ran', -, same⟩ := undone
  obtain rfl := (Prod.mk.inj ((Proc.eq_of_fst ran).symm.trans ran')).2
  have answers : (verify cleaned again).isOk = (verify pending again).isOk := same again.txn
  rw [before, later] at answers
  cases answers

theorem clean_undoes_iff_handover :
    (Undoes tables.env mainnet ledger 5000000 handover.txn (accept pending handover) pending ↔
      ¬MovesReserved pending handover.message) ∧
    ∃ after, cleanSubmittedTransactions tables.env ledger [renewal.txn] pending = (.ok (), after) ∧
      Alike mainnet ledger 5000000 after .new := by
  obtain ⟨one, many⟩ := clean_undoes_iff (by decide) (fun addr => by rw [balances]; split_ifs <;> decide)
    (fun addr => by rw [balances]; split_ifs <;> decide) reaches_pending
  obtain ⟨after, ran, alike⟩ := many [renewalEntry] [] (.refl _) (List.pairwise_singleton _ _) (by simp)
  exact ⟨one handoverEntry _ (eq_ok_of_isOk runs.1.2.1), after, ran, (alike [] .new (.refl _) .new).1⟩

end NameHandover

end Nkn
