import Nkn.Lib.Expiry
import Nkn.Soundness.Chain

/-! # The schedule of names

A name is released by the sweep of the height at which it expires. Registration adds its id there; renewal and deletion
are to take it out, but look for the name, which is no id. -/

namespace Nkn

open Go Outcome Config Store StateDB Table Expiry.Book List

def nameRecord (states : StateDB) (id : Bytes) : NameInfo := (states.names.read id).getD .empty

def nameBook (states : StateDB) : Expiry.Book UInt32 Bytes where
  expiry id := if nameRecord states id = .empty then none else some (nameRecord states id).expiresAt
  due height id := ((getCleanup states.namesCleanup height).load id).isSome = true

structure NamesUnmarked (states : StateDB) : Prop where
  names : states.names.NoNil
  cleanup : states.namesCleanup.NoNil

variable {env : Env} {config : Config} {cs cs' : ChainStore} {b : Block} {states states' : StateDB} {height now : UInt32}
  {name : Bytes}

theorem nameBook_congr (names : states'.names = states.names) (cleanup : states'.namesCleanup = states.namesCleanup) :
    nameBook states' = nameBook states := by
  obtain ⟨_, _, _, _, _, _, _, _, names', cleanup'⟩ := states'
  obtain rfl : names' = states.names := names
  obtain rfl : cleanup' = states.namesCleanup := cleanup
  rfl

variable {id : Bytes}

theorem expiry_eq_none : (nameBook states).expiry id = none ↔ nameRecord states id = .empty := by
  simp only [nameBook]
  split_ifs with empty <;> simp [empty]

variable {t : UInt32}

theorem expiry_eq_some :
    (nameBook states).expiry id = some t ↔ nameRecord states id ≠ .empty ∧ (nameRecord states id).expiresAt = t := by
  simp only [nameBook]
  split_ifs with empty <;> simp [empty]

theorem nameRecord_of_put {ni : NameInfo} (names : states'.names = states.names.put id ni) (id' : Bytes) :
    nameRecord states' id' = if id' = id then ni else nameRecord states id' := by
  simp only [nameRecord, names, read_put]
  split_ifs <;> rfl

theorem namesCleanup_registerName {registrant : Bytes} {expiresAt : UInt32}
    (absent : (nameBook states).expiry (getNameId env name) = none) :
    (states.registerName env name registrant expiresAt).namesCleanup =
      cleanupAtHeight states.namesCleanup expiresAt (getNameId env name) := by
  change cleanupAtHeight (if nameRecord states (getNameId env name) = .empty then _ else _) _ _ = _
  rw [if_pos (expiry_eq_none.mp absent)]

theorem nameBook_registerName {registrant : Bytes} {expiresAt : UInt32} (nonzero : expiresAt ≠ 0)
    (absent : (nameBook states).expiry (getNameId env name) = none) :
    nameBook (states.registerName env name registrant expiresAt) = (nameBook states).add (getNameId env name) expiresAt := by
  have cleanup : (states.registerName env name registrant expiresAt).namesCleanup = _ := namesCleanup_registerName absent
  have names : (states.registerName env name registrant expiresAt).names =
      states.names.put (getNameId env name) ⟨registrant, expiresAt⟩ := by
    simp [registerName, getNameInfo]
  ext
  · rename_i id t
    simp only [nameBook, add, nameRecord_of_put names]
    by_cases same : id = getNameId env name
    · simp [same, NameInfo.empty, nonzero]
    · simp [same]
  · rename_i t id
    simp only [nameBook, add, cleanup, cleanupAtHeight, getCleanup, read_put]
    by_cases sameSet : t = expiresAt
    · by_cases same : id = getNameId env name
      · simp [sameSet, same]
      · simp [sameSet, same]
    · simp [sameSet]

theorem names_transferName {recipient : Bytes} : (states.transferName env name recipient).names =
    states.names.put (getNameId env name) { nameRecord states (getNameId env name) with registrant := recipient } := by
  simp only [transferName, getNameInfo, put_put]
  rfl

theorem nameBook_transferName {recipient : Bytes} (nonzero : t ≠ 0)
    (present : (nameBook states).expiry (getNameId env name) = some t) :
    nameBook (states.transferName env name recipient) = nameBook states := by
  obtain ⟨registered, expires⟩ := expiry_eq_some.mp present
  ext
  · rename_i id t
    simp only [nameBook, nameRecord_of_put names_transferName]
    by_cases same : id = getNameId env name
    · subst same
      have renamed : (⟨recipient, (nameRecord states (getNameId env name)).expiresAt⟩ : NameInfo) ≠ .empty :=
        fun empty => nonzero (expires.symm.trans (congrArg NameInfo.expiresAt empty))
      simp [registered, renamed]
    · simp [same]
  · rfl

theorem cleanupRecords_load_iff {V : Type} (records : Table Bytes V) (ids : Cleanup) (key : Bytes) :
    (cleanupRecords records ids).pending.load key =
      if (ids.load key).isSome then some none else records.pending.load key := by
  have keys : (ids.load key).isSome = true ↔ key ∈ ids.keys := AList.lookup_isSome
  simp only [keys]
  unfold cleanupRecords
  induction ids.keys generalizing records with
  | nil => rfl
  | cons id rest ih =>
    rw [foldl_cons, ih]
    by_cases member : key ∈ rest
    · simp [member]
    · by_cases same : key = id
      · simp [same, putNil]
      · simp [member, same, putNil]

theorem nameRecord_sweep (unmarked : NamesUnmarked states) (id : Bytes) :
    nameRecord (StateDB.new ((states.cleanupNames height).finalize env false true).trie) id =
      if ((getCleanup states.namesCleanup height).load id).isSome = true then .empty else nameRecord states id := by
  have stored : nameRecord (StateDB.new ((states.cleanupNames height).finalize env false true).trie) id =
      (((states.cleanupNames height).names.finalize NameInfo.encode true).stored id).getD .empty := by
    simp [nameRecord, StateDB.new, StateDB.trie, StateDB.finalize]
  rw [stored, Table.stored_finalize]
  simp only [StateDB.cleanupNames, cleanupRecords_load_iff, (cleanupRecords_load _ _ id).1]
  split_ifs with due
  · rfl
  · rw [nameRecord, Table.read]
    rcases entry : states.names.pending.load id with _ | _ | ni
    · rfl
    · exact absurd entry (unmarked.names id)
    · by_cases empty : ni = .empty <;> simp [NameInfo.encode, empty]

theorem load_encode (ids : Cleanup) (id : Bytes) : ((Cleanup.encode ids).getD ∅).load id = ids.load id := by
  unfold Cleanup.encode
  split_ifs with empty
  · have none : ids.entries = [] := by simpa using empty
    have same : ids = ∅ := AList.ext none
    simp [same]
  · rfl

theorem getCleanup_sweep (unmarked : NamesUnmarked states) (t : UInt32) (id : Bytes) :
    (getCleanup (StateDB.new ((states.cleanupNames height).finalize env false true).trie).namesCleanup t).load id =
      if t = height then none else (getCleanup states.namesCleanup t).load id := by
  have stored : getCleanup (StateDB.new ((states.cleanupNames height).finalize env false true).trie).namesCleanup t =
      (((states.cleanupNames height).namesCleanup.finalize Cleanup.encode true).stored t).getD ∅ := by
    simp [getCleanup, StateDB.new, StateDB.trie, StateDB.finalize]
  rw [stored, Table.stored_finalize]
  simp only [StateDB.cleanupNames, Table.putNil, GoMap.load_store]
  by_cases same : t = height
  · simp [same]
  · rw [if_neg same, if_neg same, getCleanup, Table.read]
    rcases entry : states.namesCleanup.pending.load t with _ | _ | ids
    · rfl
    · exact absurd entry (unmarked.cleanup t)
    · exact load_encode ids id

theorem nameBook_sweep (unmarked : NamesUnmarked states) :
    nameBook (StateDB.new ((states.cleanupNames height).finalize env false true).trie) = (nameBook states).sweep height := by
  ext
  · rename_i id t
    rw [expiry_eq_some, nameRecord_sweep unmarked]
    by_cases due : (nameBook states).due height id
    · have due' : ((getCleanup states.namesCleanup height).load id).isSome = true := due
      simp [sweep, due, due']
    · have due' : ¬ ((getCleanup states.namesCleanup height).load id).isSome = true := due
      have kept : ((nameBook states).sweep height).expiry id = (nameBook states).expiry id := if_neg due
      rw [if_neg due', kept, expiry_eq_some]
  · rename_i t id
    simp only [nameBook, sweep, getCleanup_sweep unmarked]
    split_ifs with same <;> simp [same]

section

variable (env : Env)

def registeredId (txn : Transaction) : Option Bytes :=
  match unpack env txn.unsignedTx.payload with
  | .ok (.registerName payload) => some (getNameId env payload.name)
  | _ => none

def transferredId (txn : Transaction) : Option Bytes :=
  match unpack env txn.unsignedTx.payload with
  | .ok (.transferName payload) => some (getNameId env payload.name)
  | _ => none

def deletesName (txn : Transaction) : Bool :=
  match unpack env txn.unsignedTx.payload with
  | .ok (.deleteName _) => true
  | _ => false

end

/-- A list of transactions registers names without a record, each once, transfers names with a record, and deletes
none. -/
structure NewNames (env : Env) (states : StateDB) (txns : List Transaction) : Prop where
  distinct : (txns.filterMap (registeredId env)).Nodup
  unregistered : ∀ id ∈ txns.filterMap (registeredId env), (nameBook states).expiry id = none
  registered : ∀ id ∈ txns.filterMap (transferredId env), (nameBook states).expiry id ≠ none
  undeleted : ∀ txn ∈ txns, deletesName env txn = false

variable {fees : Int64}

theorem names_spendTransaction {txn : Transaction}
    (run : spendTransaction env config cs fees false height states txn = .ok states') :
    ∃ message sender, unpack env txn.unsignedTx.payload = .ok message ∧
      states'.names = (applyRecords env config states txn sender height message).names ∧
      states'.namesCleanup = (applyRecords env config states txn sender height message).namesCleanup := by
  obtain ⟨message, unpacked, _, payload⟩ := spendTransaction_eq_ok.mp run
  refine ⟨message, Transaction.programHash env message, unpacked, ?_⟩
  by_cases regular : message.type = .coinbase
  · cases message with
    | coinbase _ =>
      rw [records_spendCoinbase payload, afterFee_frame]
      exact ⟨rfl, rfl⟩
    | _ => cases regular
  · rw [records_spendTransaction unpacked regular run]
    exact ⟨rfl, rfl⟩

theorem nameBook_spendTransaction {txn : Transaction} (current : config.isLegacy height = false)
    (nonzero : defaultNameDuration + height ≠ 0) (expires : ∀ id, (nameBook states).expiry id ≠ some 0)
    (unmarked : NamesUnmarked states) (unregistered : ∀ id ∈ registeredId env txn, (nameBook states).expiry id = none)
    (registered : ∀ id ∈ transferredId env txn, (nameBook states).expiry id ≠ none)
    (undeleted : deletesName env txn = false)
    (run : spendTransaction env config cs fees false height states txn = .ok states') :
    NamesUnmarked states' ∧ nameBook states' = (registeredId env txn).elim (nameBook states)
      fun id => (nameBook states).add id (defaultNameDuration + height) := by
  obtain ⟨message, _, unpacked, names, cleanup⟩ := names_spendTransaction run
  simp only [registeredId, transferredId, deletesName, unpacked] at unregistered registered undeleted ⊢
  cases message with
  | registerName _ =>
    have absent := unregistered _ rfl
    simp only [applyRecords, current, Bool.false_eq_true, if_false] at names cleanup
    refine ⟨⟨?_, ?_⟩, (nameBook_congr names cleanup).trans (nameBook_registerName nonzero absent)⟩
    · rw [names]
      exact (unmarked.names.put _ _).put _ _
    · rw [cleanup, namesCleanup_registerName absent]
      exact unmarked.cleanup.put _ _
  | transferName _ =>
    obtain ⟨t, present⟩ := Option.ne_none_iff_exists'.mp (registered _ rfl)
    have expires : t ≠ 0 := fun zero => expires _ (zero ▸ present)
    refine ⟨⟨?_, ?_⟩, (nameBook_congr names cleanup).trans (nameBook_transferName expires present)⟩
    · rw [names]
      exact (unmarked.names.put _ _).put _ _
    · rw [cleanup]
      exact unmarked.cleanup
  | deleteName _ => cases undeleted
  | _ =>
    rw [(others_applyRecords rfl).2.1 (by simp [Pb.Message.type])] at names
    rw [(others_applyRecords rfl).2.2.1 (by simp [Pb.Message.type])] at cleanup
    exact ⟨⟨names ▸ unmarked.names, cleanup ▸ unmarked.cleanup⟩, nameBook_congr names cleanup⟩

theorem NewNames.run {txns : List Transaction} (new : NewNames env states txns)
    (current : config.isLegacy height = false) (scheduled : Expiry.Scheduled now (nameBook states))
    (unmarked : NamesUnmarked states) (later : now < defaultNameDuration + height)
    (run : spendTransactions env config cs fees height states txns = .ok states') :
    Expiry.Scheduled now (nameBook states') ∧ NamesUnmarked states' ∧
      ∀ id t, (nameBook states).expiry id = some t → (nameBook states').expiry id = some t := by
  have positive {t : UInt32} (after : now < t) : t ≠ 0 := by
    rintro rfl
    exact absurd after (by simp)
  induction txns generalizing states with
  | nil =>
    obtain rfl := foldlM_nil_eq_ok.mp run
    exact ⟨scheduled, unmarked, fun _ _ => id⟩
  | cons txn txns ih =>
    obtain ⟨middle, first, rest⟩ := foldlM_cons_eq_ok.mp run
    obtain ⟨distinct, unregistered, registered, undeleted⟩ := new
    obtain ⟨undeletedFirst, undeleted⟩ := forall_mem_cons.mp undeleted
    have unregisteredFirst (id : Bytes) (member : id ∈ registeredId env txn) : (nameBook states).expiry id = none :=
      unregistered id (mem_filterMap.mpr ⟨txn, mem_cons_self, member⟩)
    have registeredFirst (id : Bytes) (member : id ∈ transferredId env txn) : (nameBook states).expiry id ≠ none :=
      registered id (mem_filterMap.mpr ⟨txn, mem_cons_self, member⟩)
    have expires (id : Bytes) : (nameBook states).expiry id ≠ some 0 := fun found =>
      positive (scheduled.later id 0 found) rfl
    obtain ⟨unmarked, book⟩ := nameBook_spendTransaction current (positive later) expires unmarked unregisteredFirst
      registeredFirst undeletedFirst first
    have registeredRest (id : Bytes) (member : id ∈ txns.filterMap (transferredId env)) : (nameBook states).expiry id ≠ none := by
      obtain ⟨txn', inside, transfers⟩ := mem_filterMap.mp member
      exact registered id (mem_filterMap.mpr ⟨txn', mem_cons_of_mem _ inside, transfers⟩)
    cases registers : registeredId env txn with
    | none =>
      rw [registers, Option.elim_none] at book
      rw [filterMap_cons_none registers] at distinct unregistered
      rw [← book] at scheduled unregistered registeredRest ⊢
      exact ih ⟨distinct, unregistered, registeredRest, undeleted⟩ scheduled unmarked rest
    | some id =>
      rw [registers, Option.elim_some] at book
      rw [filterMap_cons_some registers] at distinct unregistered
      obtain ⟨other, distinct⟩ := nodup_cons.mp distinct
      obtain ⟨absent, unregistered⟩ := forall_mem_cons.mp unregistered
      have entry (id' : Bytes) (different : id' ≠ id) : (nameBook middle).expiry id' = (nameBook states).expiry id' := by
        rw [book, expiry_add, if_neg different]
      have new : NewNames env middle txns := by
        refine ⟨distinct, fun id' member => ?_, fun id' member => ?_, undeleted⟩
        · rw [entry id' fun same => other (same ▸ member)]
          exact unregistered id' member
        · by_cases same : id' = id
          · simp [book, expiry_add, same]
          · rw [entry id' same]
            exact registeredRest id' member
      obtain ⟨scheduled, unmarked, kept⟩ := ih new (book ▸ scheduled.add absent later) unmarked rest
      refine ⟨scheduled, unmarked, fun id' t found => kept id' t ?_⟩
      rw [entry id' fun same => by rw [same, absent] at found; cases found]
      exact found

def releasedAt (trie : StateTrie) (height : UInt32) : Cleanup := (trie.namesCleanup height).getD ∅

/-- The schedule of names at a height: a name with a record expires later and is to be released when it expires, and only
names with a record are to be released. -/
structure NameSchedule (height : UInt32) (trie : StateTrie) : Prop where
  records : ∀ id ni, trie.names id = some ni → ni ≠ .empty →
    height < ni.expiresAt ∧ ∀ t, id ∈ releasedAt trie t ↔ t = ni.expiresAt
  released : ∀ t id, id ∈ releasedAt trie t → ∃ ni, trie.names id = some ni ∧ ni ≠ .empty ∧ ni.expiresAt = t

theorem due_new {trie : StateTrie} : (nameBook (StateDB.new trie)).due t id ↔ id ∈ releasedAt trie t := by
  simp only [nameBook, getCleanup, StateDB.new, read_ofStore]
  exact AList.lookup_isSome

theorem expiry_new {trie : StateTrie} : (nameBook (StateDB.new trie)).expiry id = some t ↔
      ∃ ni, trie.names id = some ni ∧ ni ≠ .empty ∧ ni.expiresAt = t := by
  rw [expiry_eq_some]
  simp only [nameRecord, StateDB.new, read_ofStore]
  cases trie.names id with
  | none => simp
  | some _ => simp

theorem nameSchedule_iff {trie : StateTrie} : NameSchedule height trie ↔ Expiry.Scheduled height (nameBook (StateDB.new trie)) := by
  constructor
  · rintro ⟨records, released⟩
    refine ⟨fun t id => ?_, fun id t found => ?_⟩
    · rw [due_new, expiry_new]
      refine ⟨released t id, ?_⟩
      rintro ⟨ni, found, registered, rfl⟩
      exact ((records id ni found registered).2 _).mpr rfl
    · obtain ⟨ni, stored, registered, rfl⟩ := expiry_new.mp found
      exact (records id ni stored registered).1
  · rintro ⟨due, later⟩
    refine ⟨fun id ni found registered => ⟨?_, fun t => ?_⟩, fun t id member => ?_⟩
    · exact later id _ (expiry_new.mpr ⟨ni, found, registered, rfl⟩)
    · rw [← due_new, due, expiry_new.mpr ⟨ni, found, registered, rfl⟩, Option.some.injEq, eq_comm]
    · exact expiry_new.mp ((due t id).mp (due_new.mpr member))

/-- A ledger whose state in memory has the names of its trie, at the height that the database records. -/
structure NameLedger (cs : ChainStore) (trie : StateTrie) : Prop where
  opens : currentTrie cs = .ok trie
  names : cs.states.names = .ofStore trie.names
  recorded : ∃ hash, cs.db.currentBlock = some (hash, cs.currentBlockHeight)

/-- A block at a height with the current name service registers only names that have no record, each once, and deletes
none; the names that it registers expire at a height that fits 32 bits. -/
structure RegistersNew (env : Env) (config : Config) (cs : ChainStore) (b : Block) : Prop where
  current : config.isLegacy b.height = false
  fits : defaultNameDuration.toNat + b.height.toNat < 2 ^ 32
  distinct : (b.transactions.filterMap (registeredId env)).Nodup
  unregistered : ∀ id ∈ b.transactions.filterMap (registeredId env), nameRecord cs.states id = .empty
  undeleted : ∀ txn ∈ b.transactions, deletesName env txn = false

theorem generateIDs_frame {header : Pb.UnsignedHeader} (run : generateIDs env cs states header = .ok states') :
    states'.names = states.names ∧ states'.namesCleanup = states.namesCleanup := by
  rw [generateIDs_accounts run]
  exact ⟨rfl, rfl⟩

theorem transferred_registered {height : UInt32} {txns : List Transaction} {state : CheckState}
    (checked : checkTransactions env config cs height txns = .ok state)
    (member : id ∈ txns.filterMap (transferredId env)) : nameRecord cs.states id ≠ .empty := by
  obtain ⟨txn, inside, transfers⟩ := mem_filterMap.mp member
  obtain ⟨_, _, turn⟩ := checkTransactions_forall checked txn inside
  obtain ⟨-, -, ledger, -⟩ := checkTransaction_eq_ok.mp turn
  unfold transferredId at transfers
  cases unpacked : unpack env txn.unsignedTx.payload with
  | error _ => simp [unpacked] at transfers
  | ok message =>
    rw [unpacked] at transfers
    cases message with
    | transferName _ =>
      obtain rfl := Option.some.inj transfers
      obtain ⟨-, -, _, checked, -⟩ := (verifyTransactionWithLedger_eq_ok unpacked).mp ledger
      simp only [verifyMessageWithLedger, bind_eq_ok, rejectIf_eq_ok, exists_const] at checked
      intro empty
      exact checked.1 (by rw [getRegistrant, getNameInfo]; exact congrArg (length ∘ NameInfo.registrant) empty)
    | _ => simp at transfers

theorem Extends.opens (roots : RootsFaithful env) (step : Extends env config cs b cs') :
    currentTrie cs' = .ok cs'.states.trie := by
  obtain ⟨_, saved⟩ := step.isSaved
  exact (saved.ledger roots).opens

theorem NameLedger.extend {trie : StateTrie} (roots : RootsFaithful env) (ledger : NameLedger cs trie)
    (schedule : NameSchedule cs.currentBlockHeight trie) (step : Extends env config cs b cs')
    (new : RegistersNew env config cs b) :
    NameLedger cs' cs'.states.trie ∧ NameSchedule cs'.currentBlockHeight cs'.states.trie ∧
      ∀ id ni, trie.names id = some ni → ni ≠ .empty →
        ((nameBook (StateDB.new cs'.states.trie)).expiry id = none ↔ b.height = ni.expiresAt) := by
  obtain ⟨first, rest, _, _, _, start, spent, accepted⟩ := transactionCheck_accepted step.accepted
  obtain ⟨_, saved⟩ := step.isSaved
  have current : finalizesLegacyNames config cs = false := by
    obtain ⟨_, recorded⟩ := ledger.recorded
    simp only [finalizesLegacyNames, recorded, ← step.next]
    exact new.current
  have after : cs'.states = (cleanup b.height spent).finalize env false true := current ▸ accepted.states_saved saved
  -- the state on which the transactions are executed has the names of the ledger
  obtain ⟨trie', opened, assigned⟩ := bind_eq_ok.mp accepted.started
  obtain rfl := ok_unique opened ledger.opens
  obtain ⟨names, namesCleanup⟩ := generateIDs_frame assigned
  have book : nameBook start = nameBook (StateDB.new trie') := nameBook_congr names namesCleanup
  have unmarked : NamesUnmarked start := ⟨names ▸ Table.noNil_ofStore _, namesCleanup ▸ Table.noNil_ofStore _⟩
  have record (id : Bytes) : nameRecord start id = nameRecord cs.states id := by
    simp only [nameRecord, names, ledger.names, StateDB.new]
  have newNames : NewNames env start (first :: rest) := by
    rw [← accepted.transactions]
    refine ⟨new.distinct, fun id member => ?_, fun id member => ?_, new.undeleted⟩
    · exact expiry_eq_none.mpr ((record id).trans (new.unregistered id member))
    · rw [ne_eq, expiry_eq_none, record]
      rw [accepted.transactions] at member
      exact transferred_registered accepted.checked member
  have nextHeight : b.height.toNat = cs.currentBlockHeight.toNat + 1 := by
    have nonzero := accepted.coinbaseOk.nonzero
    rw [step.next] at nonzero ⊢
    exact toNat_next nonzero
  have later : cs.currentBlockHeight < defaultNameDuration + b.height := by
    rw [UInt32.lt_iff_toNat_lt, UInt32.toNat_add, Nat.mod_eq_of_lt new.fits]
    omega
  obtain ⟨scheduled, unmarked, kept⟩ := newNames.run new.current (book ▸ nameSchedule_iff.mp schedule) unmarked later
    accepted.run
  have swept : nameBook (StateDB.new cs'.states.trie) = (nameBook spent).sweep b.height := by
    rw [after]
    have unswept : NamesUnmarked ((spent.cleanupNanoPay b.height).cleanupPubSub b.height) :=
      ⟨unmarked.names, unmarked.cleanup⟩
    exact nameBook_sweep unswept
  refine ⟨⟨step.opens roots, ?_, ?_⟩, ?_, fun id ni found registered => ?_⟩
  · rw [after]
    simp [StateDB.finalize, StateDB.trie, Table.finalize, Table.ofStore]
  · exact ⟨_, saved.height ▸ saved.currentBlock⟩
  · rw [nameSchedule_iff, swept, saved.height]
    refine scheduled.sweep fun t after other => ?_
    rw [UInt32.lt_iff_toNat_lt] at after ⊢
    have different : t.toNat ≠ b.height.toNat := fun same => other (UInt32.toNat_inj.mp same)
    omega
  · have present : (nameBook start).expiry id = some ni.expiresAt := by
      rw [book]
      exact expiry_new.mpr ⟨ni, found, registered, rfl⟩
    rw [swept, scheduled.expiry_sweep (kept id _ present)]

/-- In every run of blocks that register only names without a record and delete none, from a ledger whose names are
scheduled, the names of every ledger on the way are scheduled, and a name is released by the block at which it expires
and by no other. -/
theorem names_scheduled (roots : RootsFaithful env) {trie : StateTrie} (ledger : NameLedger cs trie)
    (schedule : NameSchedule cs.currentBlockHeight trie) (run : Run env config (RegistersNew env config) cs cs') :
    ∃ trie', currentTrie cs' = .ok trie' ∧ NameSchedule cs'.currentBlockHeight trie' ∧
      ∀ b cs'', Extends env config cs' b cs'' → RegistersNew env config cs' b →
        ∀ id ni, trie'.names id = some ni → ni ≠ .empty →
          ((cs''.states.trie.names id).getD .empty = .empty ↔ b.height = ni.expiresAt) := by
  have along : ∃ trie', NameLedger cs' trie' ∧ NameSchedule cs'.currentBlockHeight trie' := by
    induction run with
    | refl => exact ⟨trie, ledger, schedule⟩
    | step run step new ih =>
      obtain ⟨trie', ledger, schedule⟩ := ih
      obtain ⟨ledger, schedule, -⟩ := ledger.extend roots schedule step new
      exact ⟨_, ledger, schedule⟩
  obtain ⟨trie', ledger, schedule⟩ := along
  refine ⟨trie', ledger.opens, schedule, fun b cs'' step new id ni found registered => ?_⟩
  rw [← (ledger.extend roots schedule step new).2.2 id ni found registered, expiry_eq_none, nameRecord, StateDB.new,
    Table.read_ofStore]

namespace RenewedName

open Sample

def renewed : Bytes := [101, 120, 97, 109, 112, 108, 101]

def nameId : Bytes := (Word.ofNat 20 0x50d858e0985ecc7f60418aaf0cc5ab587f42c257).toArray

def registration : Pb.RegisterName := ⟨proposerKey, renewed, 1000000000⟩

def signed (nonce : UInt64) (signature : Bytes) : Transaction :=
  ⟨packed (.registerName registration) nonce 0, [⟨createSignatureProgramCode proposerKey, 64 :: signature⟩]⟩

def firstSignature : Bytes :=
  (Word.ofNat 64 0xee914fd62fc4da95471afbdbacfd235edce3126bf3ecad525dbdf8991af17f8b8815d712e8372a8396104729cad2e8aa4d4d1c0e502a83a8571c3af35db2fe0d).toArray

def secondSignature : Bytes :=
  (Word.ofNat 64 0x9ddc4a28a0f35b2c87f99c3f9c3e0df2f6b4ee5cbabee7069869b53e14ac3d769319208de37e41e695d82d86db05faa644d749c59a474829695e79478aac1c05).toArray

def registerTxn : Transaction := signed 0 firstSignature

def renewTxn : Transaction := signed 1 secondSignature

def nextCoinbase : Pb.Coinbase := ⟨donationAddress.toArray, proposer.toArray, 1046467574⟩

def nextCoinbaseTxn : Transaction := ⟨packed (.coinbase nextCoinbase) 3 0, []⟩

def root : Uint256 := Word.ofNat 32 0x16f8e6d573b1d3bef75729ecea38b860fa2eb8e98891ec932bd279b208eea386

def firstRoot : Uint256 := Word.ofNat 32 0xfc0d1d516b838539e8a0cca4d3c9c0e4b62382ecd34c13fe379f7f812b9e42db

def secondRoot : Uint256 := Word.ofNat 32 0xc33d7098a8f2d2dd0effd82614c011c7e2f07891e0749fe05630c8f2ff01bbd8

def trie : StateTrie :=
  { StateTrie.ofBalances [(proposer, 10000000000)] 80000000000000000 with
    accounts := fun addr =>
      if addr = proposer then some (Account.new.setBalance nknAssetID 10000000000)
      else if addr = donationAddress then some ((Account.new.setBalance nknAssetID 100000000000).setNonce 2)
      else none }

def laterTxnHash : Uint256 := Word.ofNat 32 0xcd42b2a47e44ed2379007a72558d32c13888f56ca90338f3c908cfc616142eeb

def laterBlock : Block := ⟨header 4999993 laterTxnHash emptyUint256, [coinbaseTxn 1 0]⟩

def laterHash : Uint256 := Word.ofNat 32 0xf7a8ffc4059d66b81dd677661f50e4d2979e6aa921d23fbbc786e101680b0611

/-- The store before the two blocks, with the blocks from which they take the ids of their registrants. -/
def ledger : ChainStore :=
  let cs := chainStore root trie
  { cs with
    db := { cs.db with
      headers := Function.update cs.db.headers laterHash (some ⟨laterBlock.header, [laterTxnHash]⟩)
      blockHashes := Function.update cs.db.blockHashes 4999993 (some laterHash)
      transactions := Function.update cs.db.transactions laterTxnHash (some (4999993, coinbaseTxn 1 0))
      currentBlock := some (emptyUint256, 4999999) } }

def firstTxnsRoot : Uint256 := Word.ofNat 32 0x8136744fc2568dfc15e351db1175a9f5ec7a19aad6e945da511c1f86d4c60f03

def firstBlock : Block := ⟨header 5000000 firstTxnsRoot firstRoot, [coinbaseTxn 2 0, registerTxn]⟩

def secondTxnsRoot : Uint256 := Word.ofNat 32 0x468172134a8850b4ce5177f8452bb89d6e69e15d8f7cc36159386dc8b21838eb

def secondBlock : Block := ⟨header 5000001 secondTxnsRoot secondRoot, [nextCoinbaseTxn, renewTxn]⟩

def firstCoinbaseHash : Uint256 := Word.ofNat 32 0x390a3922a55a152cef61457e3d51cbe8fb2f11de4a6908208047eae292009b71

def registerHashForSigning : Uint256 := Word.ofNat 32 0x2ba1c4db3415e43c7fcfa2d6580177cb5fdfe3ff384619853c025af00aab05ba

def registerHash : Uint256 := Word.ofNat 32 0xaa29c53aacda8ec7d3a1be6a7cbc951e1ba06bd6a3ee67251ecc88ba0cbf358e

def secondCoinbaseHash : Uint256 := Word.ofNat 32 0x06358d546dbcf0f80a017533791ff60a61807fe67730480ef2c2dd99bad24b7f

def renewHashForSigning : Uint256 := Word.ofNat 32 0x917b5f32b9ad491a1da935fe0b996e14a28414d50a102ea7901c7e0def168ab6

def renewHash : Uint256 := Word.ofNat 32 0xbf46161380875a61a858132c514f3d0ab8a0858373c420f381577bbcd411789a

def tables : Tables where
  sha256 :=
    (createSignatureProgramCode proposerKey, FirstBlocks.proposerCodeHash) ::
    (renewed, Word.ofNat 32 0x50d858e0985ecc7f60418aaf0cc5ab587f42c2570a884095a9e8ccacd0f6545c) ::
    Tables.hashedTwice (Transaction.serializeUnsigned (coinbaseTxn 0 0))
      (Word.ofNat 32 0x7cc6ae1f737c3fba0576c66cf6d0bddfd8ed51131c21663357d7e1f2134922ca) earlierTxnHash ++
    Tables.hashedTwice (Header.serializeUnsigned earlierBlock.header.unsignedHeader)
      (Word.ofNat 32 0x44214cfbcad3aa66bfce306a7677b6ba10e49ed972d4ded15c424acc1c16aa90) earlierHash ++
    Tables.hashedTwice (Transaction.serializeUnsigned (coinbaseTxn 1 0))
      (Word.ofNat 32 0x919074897ee066ff951494bd97727b92b24458eac388018d3763840201395c02) laterTxnHash ++
    Tables.hashedTwice (Header.serializeUnsigned laterBlock.header.unsignedHeader)
      (Word.ofNat 32 0xcf2b0b7ae13a00a2ab90df402feb7ade8a79dac7345f62bd14e00fac52812bd9) laterHash ++
    Tables.hashedTwice (Transaction.serializeUnsigned (coinbaseTxn 2 0))
      (Word.ofNat 32 0x9ba596b4c50368b83d6e70f4b2d91320a801b4c827fa4429add24a016511aef1) firstCoinbaseHash ++
    Tables.hashedTwice (Transaction.serializeUnsigned registerTxn) registerHashForSigning registerHash ++
    Tables.hashedTwice (firstCoinbaseHash.toArray ++ registerHash.toArray)
      (Word.ofNat 32 0x289e82c6a243980827724fcbc1776c8538f2a66a7d4a76740e790e0053be6953) firstTxnsRoot ++
    Tables.hashedTwice (Header.serializeUnsigned firstBlock.header.unsignedHeader)
      (Word.ofNat 32 0x00a2c9a587ad44a58b14d43a223a3048950a5ed168e9b5c7241ae6a9489eb1f5)
      (Word.ofNat 32 0x1688cc1826cdd2e0c804669c58b381b834a8b42f35db37e1ab8b760986118743) ++
    Tables.hashedTwice (Transaction.serializeUnsigned nextCoinbaseTxn)
      (Word.ofNat 32 0xf412a6c52339102b34e11f8b696010c9617000285152acfb6e755980ce973622) secondCoinbaseHash ++
    Tables.hashedTwice (Transaction.serializeUnsigned renewTxn) renewHashForSigning renewHash ++
    Tables.hashedTwice (secondCoinbaseHash.toArray ++ renewHash.toArray)
      (Word.ofNat 32 0xb7408902c26428108cb1f0a922baeffc7f3edc5b17dbdd5db809e4a6830b8bf4) secondTxnsRoot ++
    Tables.hashedTwice (Header.serializeUnsigned secondBlock.header.unsignedHeader)
      (Word.ofNat 32 0x387a4f51fb4d93d42de09199a84a5378184fb58f9e3cb994343ff93c98806937)
      (Word.ofNat 32 0x5dc299592bc14cbada9f9feff242a5022365c80e32019d524cbd572b3bc51823)
  ripemd160 := [(FirstBlocks.proposerCodeHash.toArray, proposer)]
  signatures :=
    [(proposerKey, registerHashForSigning.toArray, firstSignature), (proposerKey, renewHashForSigning.toArray, secondSignature)]
  messages := [.coinbase coinbase, .coinbase nextCoinbase, .registerName registration]
  regexes := [(mainnet.allowNameRegex.getValueAtHeight 5000000, renewed)]
  stateRoot := fun trie =>
    match trie.names nameId with
    | none => root
    | some record => if record.expiresAt = 6576800 then firstRoot else secondRoot

def firstStore : ChainStore := (ledger.saveBlock tables.env mainnet firstBlock).1

def secondStore : ChainStore := (firstStore.saveBlock tables.env mainnet secondBlock).1

theorem extends_blocks : Extends tables.env mainnet ledger firstBlock firstStore ∧
    Extends tables.env mainnet firstStore secondBlock secondStore :=
  ⟨⟨by decide +kernel, by decide +kernel, isOk_iff.mp (by decide +kernel), rfl⟩,
    ⟨by decide +kernel, by decide +kernel, isOk_iff.mp (by decide +kernel), rfl⟩⟩

theorem blocks_names :
    (mainnet.isLegacy firstBlock.height = false ∧ (firstBlock.transactions.filterMap (registeredId tables.env)).Nodup ∧
      ∀ txn ∈ firstBlock.transactions, deletesName tables.env txn = false) ∧
    mainnet.isLegacy secondBlock.height = false ∧
    secondStore.states.trie.names nameId = some ⟨proposerKey, 6576801⟩ ∧
    nameId ∈ releasedAt secondStore.states.trie 6576800 ∧ nameId ∈ releasedAt secondStore.states.trie 6576801 := by
  decide +kernel

theorem rootsFaithful : RootsFaithful tables.env := .of_ne fun trie => by
  simp only [Tables.env, tables]
  split
  · decide
  · split_ifs <;> decide

theorem nameLedger : NameLedger ledger trie where
  opens := rfl
  names := rfl
  recorded := ⟨_, rfl⟩

theorem nameSchedule : NameSchedule ledger.currentBlockHeight trie where
  records := fun _ _ found => nomatch found
  released := fun _ _ member => nomatch member

theorem registersNew_firstBlock : RegistersNew tables.env mainnet ledger firstBlock where
  current := blocks_names.1.1
  fits := by decide
  distinct := blocks_names.1.2.1
  unregistered := fun _ _ => rfl
  undeleted := blocks_names.1.2.2

theorem names_scheduled_firstBlock : Run tables.env mainnet (RegistersNew tables.env mainnet) ledger firstStore ∧
    ∃ trie', currentTrie firstStore = .ok trie' ∧ NameSchedule firstStore.currentBlockHeight trie' ∧
      ∀ b cs, Extends tables.env mainnet firstStore b cs → RegistersNew tables.env mainnet firstStore b →
        ∀ id ni, trie'.names id = some ni → ni ≠ .empty →
          ((cs.states.trie.names id).getD .empty = .empty ↔ b.height = ni.expiresAt) :=
  have run := (Run.refl ledger).step extends_blocks.1 registersNew_firstBlock
  ⟨run, names_scheduled rootsFaithful nameLedger nameSchedule run⟩

/-- The owner of a name renews it in the next block. The name then expires at height 6576801, but the ledger still
releases it at height 6576800, since the registration cancels the cleanup of the name itself and not of its id. -/
theorem renewed_name_released_early : NameSchedule ledger.currentBlockHeight trie ∧
    (mainnet.isLegacy firstBlock.height = false ∧ Extends tables.env mainnet ledger firstBlock firstStore) ∧
    (mainnet.isLegacy secondBlock.height = false ∧ Extends tables.env mainnet firstStore secondBlock secondStore) ∧
    currentTrie secondStore = .ok secondStore.states.trie ∧
    secondStore.states.trie.names nameId = some ⟨proposerKey, 6576801⟩ ∧
    nameId ∈ releasedAt secondStore.states.trie 6576800 ∧ nameId ∈ releasedAt secondStore.states.trie 6576801 :=
  ⟨nameSchedule, ⟨blocks_names.1.1, extends_blocks.1⟩, ⟨blocks_names.2.1, extends_blocks.2⟩,
    extends_blocks.2.opens rootsFaithful, blocks_names.2.2⟩

end RenewedName

end Nkn
