import Nkn.Soundness.PlainMap

/-! # The schedules of channels and subscriptions

Along every chain of blocks, the set of a later height holds exactly the channels, or subscriptions, that expire there,
and nothing that has expired is left. -/

namespace Nkn

open Go Outcome Store StateDB Function Table Nkn.Shelf Expiry.Book

namespace Shelf

variable {V : Type} [DecidableEq V] {empty value : V} {expiresAt : V → UInt32} {shelf : Shelf V} {now old height : UInt32}
  {id : Bytes}

def book (empty : V) (expiresAt : V → UInt32) (shelf : Shelf V) : Expiry.Book UInt32 Bytes where
  expiry id := if shelf.record id = empty then none else some (expiresAt (shelf.record id))
  due height id := id ∈ shelf.due height

theorem expiry_book {t : UInt32} : (shelf.book empty expiresAt).expiry id = some t ↔
    shelf.record id ≠ empty ∧ expiresAt (shelf.record id) = t := by
  simp only [book]
  split_ifs with none <;> simp [none]

theorem book_drop (scheduled : Expiry.Scheduled now (shelf.book empty expiresAt))
    (covers : ∀ t, (shelf.book empty expiresAt).expiry id = some t → t = old) :
    ((shelf.cancel old id).write id empty).book empty expiresAt = (shelf.book empty expiresAt).drop id := by
  ext
  · rename_i key t
    by_cases same : key = id <;> simp [book, drop, write, cancel, same]
  · rename_i t key
    have due := scheduled.due_iff t key
    simp only [book, drop, write, cancel, update_apply] at due ⊢
    by_cases same : key = id
    · subst same
      split_ifs with this
      · simp
      · simp only [ne_eq, not_true_eq_false, false_and, iff_false]
        exact fun member => this (covers t (due.mp member))
    · split_ifs with this
      · simp [same, this]
      · simp [same]

theorem book_renew (scheduled : Expiry.Scheduled now (shelf.book empty expiresAt))
    (covers : ∀ t, (shelf.book empty expiresAt).expiry id = some t → t = old) (nonempty : value ≠ empty)
    (expires : expiresAt value = height) :
    (((shelf.cancel old id).schedule height id).write id value).book empty expiresAt =
      ((shelf.book empty expiresAt).drop id).add id height := by
  rw [← book_drop scheduled covers]
  ext
  · rename_i key t
    by_cases same : key = id <;> simp [book, add, write, schedule, same, nonempty, expires]
  · rename_i t key
    simp only [book, add, write, schedule, update_apply]
    split_ifs with this <;> simp [this]

theorem book_sweep : (shelf.sweep empty height).book empty expiresAt = (shelf.book empty expiresAt).sweep height := by
  ext
  · rename_i key t
    rw [expiry_book]
    by_cases due : key ∈ shelf.due height
    · have due' : (shelf.book empty expiresAt).due height key := due
      simp [sweep, Expiry.Book.sweep, due, due']
    · have due' : ¬ (shelf.book empty expiresAt).due height key := due
      simp only [sweep, due, if_false, Expiry.Book.sweep, due']
      exact expiry_book.symm
  · rename_i t key
    simp only [book, sweep, Expiry.Book.sweep, update_apply]
    split_ifs with this <;> simp [this]

theorem cancel_of_unrecorded (scheduled : Expiry.Scheduled now (shelf.book empty expiresAt))
    (unrecorded : shelf.record id = empty) : shelf.cancel old id = shelf := by
  refine cancel_of_notMem fun member => ?_
  have found := (scheduled.due_iff old id).mp member
  exact (expiry_book.mp found).1 unrecorded

end Shelf

theorem isStale_of_noNil {K V : Type} [DecidableEq K] {table : Table K V} (noNil : table.NoNil) (key : K) :
    table.isStale key = false := by
  unfold isStale
  split
  · exact absurd ‹_› (noNil key)
  · rfl

theorem read_of_view {K V : Type} [DecidableEq K] {empty : V} {table : Table K V} {key : K}
    (present : table.view empty key ≠ empty) : (table.read key).getD empty = table.view empty key := by
  refine read_eq_view ?_
  unfold isStale
  unfold Table.view at present
  split
  · rename_i marked
    simp [marked] at present
  · rfl

/-- The channels and subscriptions of a state that is being built after a height are scheduled. -/
structure Expiring (now : UInt32) (states : StateDB) : Prop where
  channels : Expiry.Scheduled now (states.plain.channels.book .empty NanoPay.expiresAt)
  subscriptions : Expiry.Scheduled now (states.plain.subscriptions.book .empty PubSub.expiresAt)
  channelSets : states.nanoPayCleanup.NoNil
  subscriptionSets : states.pubSubCleanup.NoNil

variable {env : Env} {config : Config} {cs cs' : ChainStore} {b : Block} {states states' : StateDB} {now height : UInt32}
  {fees : Int64} {txn : Transaction} {txns : List Transaction}

variable {V : Type} {empty : V} {expiresAt : V → UInt32}

theorem shelf_renewed [DecidableEq V] {empty value : V} {records : Table Bytes V}
    {schedule schedule' : Table UInt32 Cleanup} {id : Bytes} {old : UInt32}
    (scheduled : Expiry.Scheduled now ((shelf empty records schedule).book empty expiresAt)) (noNil : schedule.NoNil)
    (covers : records.view empty id ≠ empty → expiresAt (records.view empty id) = old)
    (cancels : schedule' = cancelCleanupAtHeight schedule old id ∨ schedule' = schedule ∧ records.view empty id = empty)
    (nonempty : value ≠ empty) (expires : expiresAt value = height) (later : now < height) :
    Expiry.Scheduled now ((shelf empty (records.put id value) (cleanupAtHeight schedule' height id)).book empty expiresAt) ∧
      (cleanupAtHeight schedule' height id).NoNil := by
  have noNil' : schedule'.NoNil := by
    rcases cancels with rfl | ⟨rfl, -⟩
    · exact noNil.put _ _
    · exact noNil
  refine ⟨?_, noNil'.put _ _⟩
  have covered : ∀ t, ((shelf empty records schedule).book empty expiresAt).expiry id = some t → t = old := by
    intro t found
    obtain ⟨present, rfl⟩ := expiry_book.mp found
    exact covers present
  have cancelled : shelf empty records schedule' = (shelf empty records schedule).cancel old id := by
    rcases cancels with rfl | ⟨rfl, none⟩
    · exact shelf_cancelCleanupAtHeight (isStale_of_noNil noNil _)
    · exact (cancel_of_unrecorded scheduled none).symm
  rw [shelf_put, shelf_cleanupAtHeight (isStale_of_noNil noNil' _), cancelled,
    book_renew scheduled covered nonempty expires]
  exact scheduled.renew later

theorem ne_zero_of_later (later : now < height) : height ≠ 0 := by
  rintro rfl
  exact absurd later (by simp)

namespace Expiring

variable (expiring : Expiring now states)

include expiring

theorem setNanoPay {sender recipient : Uint160} {nonce : UInt64} {balance : Int64} (later : now < height) :
    Expiring now ((states.getNanoPay sender recipient nonce).2.setNanoPay sender recipient nonce balance height) := by
  have set : (states.getNanoPay sender recipient nonce).2.setNanoPay sender recipient nonce balance height =
      { states with
        nanoPayCleanup := cleanupAtHeight (cancelCleanupAtHeight states.nanoPayCleanup
          (states.getNanoPay sender recipient nonce).1.expiresAt (getNanoPayId sender recipient nonce)) height
            (getNanoPayId sender recipient nonce)
        nanoPay := states.nanoPay.put (getNanoPayId sender recipient nonce) ⟨balance, height⟩ } := by
    have cached : (states.getNanoPay sender recipient nonce).2.nanoPay.pending.load (getNanoPayId sender recipient nonce) =
        some (some (states.getNanoPay sender recipient nonce).1) := by
      simp [getNanoPay, getNanoPayById, put]
    simp only [StateDB.setNanoPay, cached]
    simp only [getNanoPay, getNanoPayById, put_put]
  have nonempty : (⟨balance, height⟩ : NanoPay) ≠ .empty := fun empty =>
    ne_zero_of_later later (congrArg NanoPay.expiresAt empty)
  obtain ⟨channels, sets⟩ := shelf_renewed expiring.channels expiring.channelSets
    (fun present => congrArg NanoPay.expiresAt (read_of_view present).symm) (.inl rfl) nonempty rfl later
  rw [set]
  exact ⟨channels, expiring.subscriptions, sets, expiring.subscriptionSets⟩

theorem subscribe {topic subscriber identifier metadata : Bytes} {bucket : UInt32} (later : now < height) :
    Expiring now (states.subscribe env topic bucket subscriber identifier metadata height) := by
  let id := getPubSubId env topic bucket subscriber identifier
  let ps := (states.getPubSub id).1
  have nonempty (renewed : PubSub) : { renewed with metadata, expiresAt := height } ≠ PubSub.empty := fun empty =>
    ne_zero_of_later later (congrArg PubSub.expiresAt empty)
  -- a subscription that reads as empty is none
  have unrecorded (none : ps = .empty) : states.pubSub.view .empty id = .empty := by
    by_contra present
    exact present ((read_of_view present).symm.trans none)
  have cancels : (if ps = .empty then states.pubSubCleanup
        else cancelCleanupAtHeight states.pubSubCleanup ps.expiresAt id) =
        cancelCleanupAtHeight states.pubSubCleanup ps.expiresAt id ∨
      (if ps = .empty then states.pubSubCleanup else cancelCleanupAtHeight states.pubSubCleanup ps.expiresAt id) =
        states.pubSubCleanup ∧ states.pubSub.view .empty id = .empty := by
    split_ifs with none
    · exact .inr ⟨rfl, unrecorded none⟩
    · exact .inl rfl
  obtain ⟨subscriptions, sets⟩ := shelf_renewed expiring.subscriptions expiring.subscriptionSets
    (fun present => congrArg PubSub.expiresAt (read_of_view present).symm) cancels
    (nonempty (if ps = .empty then { ps with subscriber, identifier } else ps)) rfl later
  refine ⟨expiring.channels, ?_, expiring.channelSets, sets⟩
  have put : (states.subscribe env topic bucket subscriber identifier metadata height).pubSub = states.pubSub.put id
        { (if ps = .empty then { ps with subscriber, identifier } else ps) with metadata, expiresAt := height } :=
    put_put _ _ _ _
  simp only [plain, put]
  exact subscriptions

theorem unsubscribe {topic subscriber identifier : Bytes} :
    Expiring now (states.unsubscribe env topic subscriber identifier) := by
  let id := getPubSubId env topic 0 subscriber identifier
  by_cases none : (states.getPubSub id).1 = .empty
  · have kept : states.unsubscribe env topic subscriber identifier = (states.getPubSub id).2 := by
      simp only [StateDB.unsubscribe]
      exact if_pos none
    have unrecorded : states.pubSub.view .empty id = .empty := by
      by_contra present
      exact present ((read_of_view present).symm.trans none)
    have same : (states.getPubSub id).2.plain.subscriptions = states.plain.subscriptions := by
      have put : (states.getPubSub id).2.pubSub = states.pubSub.put id .empty :=
        congrArg (states.pubSub.put id) none
      change shelf _ (states.getPubSub id).2.pubSub states.pubSubCleanup = _
      rw [put, shelf_put, write]
      have written : update (shelf .empty states.pubSub states.pubSubCleanup).record id .empty =
          (shelf .empty states.pubSub states.pubSubCleanup).record := update_eq_self_iff.mpr unrecorded.symm
      rw [written]
      rfl
    rw [kept]
    exact ⟨expiring.channels, same ▸ expiring.subscriptions, expiring.channelSets, expiring.subscriptionSets⟩
  · have removed : states.unsubscribe env topic subscriber identifier = { (states.getPubSub id).2 with
          pubSubCleanup := cancelCleanupAtHeight states.pubSubCleanup (states.getPubSub id).1.expiresAt id
          pubSub := (states.getPubSub id).2.pubSub.putNil id } := by
      simp only [StateDB.unsubscribe]
      exact if_neg none
    rw [removed]
    refine ⟨expiring.channels, ?_, expiring.channelSets, expiring.subscriptionSets.put _ _⟩
    have dropped : shelf .empty ((states.getPubSub id).2.pubSub.putNil id)
        (cancelCleanupAtHeight states.pubSubCleanup (states.getPubSub id).1.expiresAt id) =
          (states.plain.subscriptions.cancel (states.getPubSub id).1.expiresAt id).write id .empty := by
      have put : (states.getPubSub id).2.pubSub = states.pubSub.put id (states.getPubSub id).1 := rfl
      rw [shelf_putNil, put, shelf_put, shelf_cancelCleanupAtHeight (isStale_of_noNil expiring.subscriptionSets _)]
      simp only [write, update_idem]
      rfl
    have covers (t : UInt32) (found : (states.plain.subscriptions.book .empty PubSub.expiresAt).expiry id = some t) :
        t = (states.getPubSub id).1.expiresAt := by
      obtain ⟨present, rfl⟩ := expiry_book.mp found
      exact congrArg PubSub.expiresAt (read_of_view present).symm
    change Expiry.Scheduled now (Shelf.book .empty PubSub.expiresAt (shelf .empty _ _))
    rw [dropped, book_drop expiring.subscriptions covers]
    exact expiring.subscriptions.drop

end Expiring

/-- The heights of expiry that a transaction sets are above a height, and those of subscriptions fit 32 bits. -/
def Timely (env : Env) (now height : UInt32) (txn : Transaction) : Prop :=
  match unpack env txn.unsignedTx.payload with
  | .ok (.nanoPay nanoPay) => now < nanoPay.nanoPayExpiration
  | .ok (.subscribe payload) => now < height + payload.duration
  | _ => True

variable (expiring : Expiring now states)

include expiring

theorem Expiring.congr (nanoPay : states'.nanoPay = states.nanoPay)
    (nanoPayCleanup : states'.nanoPayCleanup = states.nanoPayCleanup) (pubSub : states'.pubSub = states.pubSub)
    (pubSubCleanup : states'.pubSubCleanup = states.pubSubCleanup) : Expiring now states' := by
  obtain ⟨channels, subscriptions, channelSets, subscriptionSets⟩ := expiring
  simp only [plain] at channels subscriptions
  refine ⟨?_, ?_, nanoPayCleanup ▸ channelSets, pubSubCleanup ▸ subscriptionSets⟩
  · simp only [plain, nanoPay, nanoPayCleanup]
    exact channels
  · simp only [plain, pubSub, pubSubCleanup]
    exact subscriptions

theorem Expiring.applyRecords {sender : Uint160} {message : Pb.Message}
    (unpacked : unpack env txn.unsignedTx.payload = .ok message) (timely : Timely env now height txn) :
    Expiring now (applyRecords env config states txn sender height message) := by
  simp only [Timely, unpacked] at timely
  have others := @others_applyRecords env config states _ txn message sender height rfl
  cases message with
  | nanoPay _ => exact expiring.setNanoPay timely
  | subscribe _ => exact expiring.subscribe timely
  | unsubscribe _ => exact expiring.unsubscribe
  | _ =>
    obtain ⟨nanoPay, nanoPayCleanup⟩ := others.1 (by simp [Pb.Message.type])
    obtain ⟨pubSub, pubSubCleanup⟩ := others.2.2.2 (by simp [Pb.Message.type])
    exact expiring.congr nanoPay nanoPayCleanup pubSub pubSubCleanup

theorem Expiring.spendTransaction (timely : Timely env now height txn) {genesis : Bool}
    (run : spendTransaction env config cs fees genesis height states txn = .ok states') : Expiring now states' := by
  obtain ⟨message, unpacked, _, payload⟩ := spendTransaction_eq_ok.mp run
  by_cases regular : message.type = .coinbase
  · cases message with
    | coinbase _ =>
      have records := records_spendCoinbase payload
      rw [afterFee_frame] at records
      rw [records]
      exact expiring.congr rfl rfl rfl rfl
    | _ => cases regular
  · rw [records_spendTransaction unpacked regular run]
    exact (expiring.applyRecords unpacked timely).congr rfl rfl rfl rfl

theorem Expiring.spendTransactions (timely : ∀ txn ∈ txns, Timely env now height txn)
    (run : spendTransactions env config cs fees height states txns = .ok states') : Expiring now states' :=
  foldlM_invariant (Expiring now) run expiring fun member expiring turn =>
    expiring.spendTransaction (timely _ member) turn

def CommittedExpiring (height : UInt32) (trie : StateTrie) : Prop := Expiring height (StateDB.new trie)

theorem Expiring.sweep (next : ∀ t, now < t → t ≠ height → height < t) {legacy : Bool} :
    CommittedExpiring height ((cleanup height states).finalize env legacy true).trie := by
  have channels : (StateDB.new ((cleanup height states).finalize env legacy true).trie).plain.channels =
      states.plain.channels.sweep .empty height :=
    (shelf_finalize getD_encodeNanoPay).trans (shelf_sweep (isStale_of_noNil expiring.channelSets _))
  have subscriptions : (StateDB.new ((cleanup height states).finalize env legacy true).trie).plain.subscriptions =
      states.plain.subscriptions.sweep .empty height :=
    (shelf_finalize getD_encodePubSub).trans (shelf_sweep (isStale_of_noNil expiring.subscriptionSets _))
  refine ⟨?_, ?_, noNil_ofStore _, noNil_ofStore _⟩
  · rw [channels, book_sweep]
    exact expiring.channels.sweep next
  · rw [subscriptions, book_sweep]
    exact expiring.subscriptions.sweep next

omit expiring

structure NonemptyRecords (states : StateDB) : Prop where
  channels : ∀ id, states.nanoPay.stored id ≠ some .empty
  subscriptions : ∀ id, states.pubSub.stored id ≠ some .empty

theorem kept_nonemptyRecords (env : Env) : Kept env NonemptyRecords where
  setAccount _ _ _ nonempty := ⟨nonempty.1, nonempty.2⟩
  getNanoPay _ _ _ _ nonempty := ⟨nonempty.1, nonempty.2⟩
  setNanoPay sdb sender recipient nonce balance expiresAt nonempty := by
    obtain ⟨_, set⟩ := @setNanoPay_frame sdb sender recipient nonce balance expiresAt
    rw [set]
    exact ⟨nonempty.1, nonempty.2⟩
  registerName _ _ _ _ nonempty := ⟨nonempty.1, nonempty.2⟩
  transferName _ _ _ nonempty := ⟨nonempty.1, nonempty.2⟩
  deleteName sdb name nonempty := by
    obtain ⟨_, deleted⟩ := @deleteName_frame sdb env name
    rw [deleted]
    exact ⟨nonempty.1, nonempty.2⟩
  setNameLegacy _ _ _ nonempty := ⟨nonempty.1, nonempty.2⟩
  deleteNameForRegistrantLegacy _ _ _ nonempty := ⟨nonempty.1, nonempty.2⟩
  subscribe _ _ _ _ _ _ _ nonempty := ⟨nonempty.1, nonempty.2⟩
  unsubscribe sdb topic subscriber identifier nonempty := by
    obtain ⟨_, _, removed⟩ := @unsubscribe_frame sdb env topic subscriber identifier
    rw [removed]
    exact ⟨nonempty.1, nonempty.2⟩
  storeAsset _ _ _ nonempty := ⟨nonempty.1, nonempty.2⟩

theorem stored_finalize_nonempty {encode : V → Option V} {records : Table Bytes V}
    (drops : ∀ value, encode value ≠ some empty) (nonempty : ∀ id, records.stored id ≠ some empty) (id : Bytes) :
    (records.finalize encode true).stored id ≠ some empty := by
  rw [stored_finalize]
  rcases records.pending.load id with _ | _ | value
  · exact nonempty id
  · simp
  · exact drops value

theorem NonemptyRecords.finalize (nonempty : NonemptyRecords states) {legacy : Bool} :
    NonemptyRecords (StateDB.new (states.finalize env legacy true).trie) := by
  refine ⟨stored_finalize_nonempty (fun np => ?_) nonempty.channels,
    stored_finalize_nonempty (fun ps => ?_) nonempty.subscriptions⟩
  · unfold NanoPay.encode
    split_ifs with none <;> simp [none]
  · unfold PubSub.encode
    split_ifs with none <;> simp [none]

theorem NonemptyRecords.cleanup (nonempty : NonemptyRecords states) : NonemptyRecords (cleanup height states) := by
  refine ⟨fun id => ?_, fun id => ?_⟩
  · have stored : (Nkn.cleanup height states).nanoPay.stored = states.nanoPay.stored :=
      (cleanupRecords_load states.nanoPay _ id).1
    rw [stored]
    exact nonempty.channels id
  · have stored : (Nkn.cleanup height states).pubSub.stored = states.pubSub.stored :=
      (cleanupRecords_load states.pubSub _ id).1
    rw [stored]
    exact nonempty.subscriptions id

/-- No subscription of the block ends beyond the largest height. -/
def DurationsFit (env : Env) (b : Block) : Prop :=
  ∀ txn ∈ b.transactions, ∀ payload, unpack env txn.unsignedTx.payload = .ok (.subscribe payload) →
    b.height.toNat + payload.duration.toNat < 2 ^ 32

theorem timely_of_checked {state : CheckState} (next : b.height.toNat = now.toNat + 1)
    (checked : checkTransactions env config cs b.height b.transactions = .ok state) (fits : DurationsFit env b) :
    ∀ txn ∈ b.transactions, Timely env now b.height txn := by
  intro txn member
  obtain ⟨_, _, turn⟩ := checkTransactions_forall checked txn member
  obtain ⟨verified, -, ledger, -⟩ := checkTransaction_eq_ok.mp turn
  obtain ⟨message, verified⟩ := verifyTransaction_verified verified
  obtain ⟨-, -, _, onLedger, -⟩ := (verifyTransactionWithLedger_eq_ok verified.unpacked).mp ledger
  have unpacked := verified.unpacked
  have payload := verified.payload
  simp only [Timely, unpacked]
  cases message with
  | nanoPay nanoPay =>
    simp only [verifyMessageWithLedger, bind_eq_ok, rejectIf_eq_ok, exists_const] at onLedger
    have unexpired : b.height ≤ nanoPay.nanoPayExpiration := UInt32.not_lt.mp onLedger.2.1
    simp only [UInt32.lt_iff_toNat_lt]
    rw [UInt32.le_iff_toNat_le] at unexpired
    omega
  | subscribe payload' =>
    simp only [TxValidator.checkMessage, bind_eq_ok, rejectIf_eq_ok, exists_const] at payload
    have lasting : payload'.duration.toNat ≠ 0 := fun zero => payload.1 (UInt32.toNat_inj.mp zero)
    have fits := fits txn member payload' unpacked
    simp only [UInt32.lt_iff_toNat_lt]
    rw [UInt32.toNat_add, Nat.mod_eq_of_lt fits]
    omega
  | _ => trivial

structure ExpiryLedger (cs : ChainStore) (trie : StateTrie) : Prop where
  opens : currentTrie cs = .ok trie
  expiring : Expiring cs.currentBlockHeight (StateDB.new trie)
  nonempty : NonemptyRecords (StateDB.new trie)

theorem ExpiryLedger.extend {trie : StateTrie} (roots : RootsFaithful env) (ledger : ExpiryLedger cs trie)
    (step : Extends env config cs b cs') (fits : DurationsFit env b) : ExpiryLedger cs' cs'.states.trie := by
  obtain ⟨_, _, _, _, _, start, spent, accepted⟩ := transactionCheck_accepted step.accepted
  obtain ⟨_, saved⟩ := step.isSaved
  have next : b.height.toNat = cs.currentBlockHeight.toNat + 1 := by
    have nonzero := accepted.coinbaseOk.nonzero
    rw [step.next] at nonzero ⊢
    exact toNat_next nonzero
  have checked := accepted.checked
  have run := accepted.run
  rw [← accepted.transactions] at checked run
  -- the transactions start from the channels and subscriptions of the trie
  obtain ⟨_, opened, assigned⟩ := bind_eq_ok.mp accepted.started
  obtain rfl := ok_unique opened ledger.opens
  have started : Expiring cs.currentBlockHeight start ∧ NonemptyRecords start := by
    rw [generateIDs_accounts assigned]
    exact ⟨ledger.expiring.congr rfl rfl rfl rfl, ledger.nonempty.1, ledger.nonempty.2⟩
  have spends : Expiring cs.currentBlockHeight spent :=
    started.1.spendTransactions (timely_of_checked next checked fits) run
  have kept : NonemptyRecords spent := foldlM_invariant NonemptyRecords run started.2 fun _ keep turn =>
    (kept_nonemptyRecords env).spendTransaction keep turn
  refine ⟨step.opens roots, ?_, ?_⟩
  · rw [saved.height, accepted.states_saved saved]
    refine spends.sweep fun t after other => ?_
    rw [UInt32.lt_iff_toNat_lt] at after ⊢
    have different : t.toNat ≠ b.height.toNat := fun same => other (UInt32.toNat_inj.mp same)
    omega
  · rw [accepted.states_saved saved]
    exact kept.cleanup.finalize

theorem scheduled_ofNothing [DecidableEq V] : Expiry.Scheduled now
      ((shelf empty (.ofStore fun _ => none) (.ofStore fun _ => none)).book empty expiresAt) := by
  have unrecorded (id : Bytes) :
      ((shelf empty (.ofStore fun _ => none) (.ofStore fun _ => none)).book empty expiresAt).expiry id = none := if_pos rfl
  refine ⟨fun t id => ?_, fun id t found => ?_⟩
  · rw [unrecorded]
    simp only [reduceCtorEq, iff_false]
    intro member
    change id ∈ dueAt (.ofStore fun _ => none) t at member
    rw [mem_dueAt, view_ofStore] at member
    simp at member
  · rw [unrecorded] at found
    simp at found

variable {genesisSignerPk packedCoinbase : Bytes}

theorem expiryLedger_genesis (roots : RootsFaithful env)
    (encoded : unpack env ⟨.coinbase, packedCoinbase⟩ = .ok (.coinbase genesisCoinbase))
    (initialized : newBlockchainWithGenesisBlock env config genesisSignerPk packedCoinbase = .ok (cs, b)) :
    ExpiryLedger cs cs.states.trie := by
  obtain ⟨zero, transactions, _, saved⟩ := newBlockchain_saved initialized
  obtain ⟨start, spent, started, run, finalized⟩ := generateStateRoot_genesis zero transactions saved.generated
  have empty : start = { StateDB.new .empty with accounts := start.accounts, assets := start.assets } := by
    simp only [initGenesis, setAsset, bind_eq_ok, rejectIf_eq_ok, exists_const, Except.ok.injEq,
      updateBalance_addition] at started
    obtain ⟨_, ⟨_, rfl⟩, _, rfl, _, rfl⟩ := started
    rfl
  have nothing : Expiring 0 (StateDB.new .empty) :=
    ⟨scheduled_ofNothing, scheduled_ofNothing, noNil_ofStore _, noNil_ofStore _⟩
  have opening : Expiring 0 start ∧ NonemptyRecords start := by
    rw [empty]
    exact ⟨nothing.congr rfl rfl rfl rfl, fun id => by simp [StateDB.new, ofStore, StateTrie.empty],
      fun id => by simp [StateDB.new, ofStore, StateTrie.empty]⟩
  have timely : Timely env 0 0 ⟨⟨⟨.coinbase, packedCoinbase⟩, 0, 0, []⟩, [⟨[0], [0]⟩]⟩ := by
    simp only [Timely, encoded]
  have spends := opening.1.spendTransaction timely run
  have kept := (kept_nonemptyRecords env).spendTransaction opening.2 run
  refine ⟨(saved.ledger roots).opens, ?_, ?_⟩
  · rw [saved.height, zero, finalized]
    refine ⟨?_, ?_, noNil_ofStore _, noNil_ofStore _⟩
    · have channels : (StateDB.new (spent.finalize env (finalizesLegacyNames config .new) true).trie).plain.channels =
          spent.plain.channels := shelf_finalize getD_encodeNanoPay
      rw [channels]
      exact spends.channels
    · have subscriptions :
          (StateDB.new (spent.finalize env (finalizesLegacyNames config .new) true).trie).plain.subscriptions =
            spent.plain.subscriptions := shelf_finalize getD_encodePubSub
      rw [subscriptions]
      exact spends.subscriptions
  · rw [finalized]
    exact kept.finalize

/-- The schedule of committed records at a height: the set of a later height holds the ids of the records that expire
there, and no record that has expired is left. -/
structure ExpirySchedule {V : Type} (empty : V) (expiresAt : V → UInt32) (height : UInt32) (records : Bytes → Option V)
    (sets : UInt32 → Option Cleanup) : Prop where
  due : ∀ e id, height < e →
    (id ∈ (sets e).getD ∅ ↔ ∃ record, records id = some record ∧ record ≠ empty ∧ expiresAt record = e)
  later : ∀ id record, records id = some record → height < expiresAt record

theorem expirySchedule_of_scheduled [DecidableEq V] {records : Bytes → Option V} {sets : UInt32 → Option Cleanup}
    (scheduled : Expiry.Scheduled height ((shelf empty (.ofStore records) (.ofStore sets)).book empty expiresAt))
    (nonempty : ∀ id, records id ≠ some empty) : ExpirySchedule empty expiresAt height records sets := by
  have expiry (id : Bytes) (t : UInt32) :
      ((shelf empty (.ofStore records) (.ofStore sets)).book empty expiresAt).expiry id = some t ↔
        ∃ record, records id = some record ∧ record ≠ empty ∧ expiresAt record = t := by
    rw [expiry_book]
    change (records id).getD empty ≠ empty ∧ expiresAt ((records id).getD empty) = t ↔ _
    cases records id <;> simp
  refine ⟨fun e id _ => ?_, fun id record found => ?_⟩
  · rw [← expiry, ← scheduled.due_iff]
    change id ∈ (ofStore sets).view ∅ e ↔ id ∈ dueAt (ofStore sets) e
    exact mem_dueAt.symm
  · refine scheduled.later id _ ((expiry id _).mpr ⟨record, found, ?_, rfl⟩)
    rintro rfl
    exact nonempty id found

theorem Chain.expiryLedger {blocks : List Block} (roots : RootsFaithful env)
    (encoded : unpack env ⟨.coinbase, packedCoinbase⟩ = .ok (.coinbase genesisCoinbase))
    (chain : Chain env config genesisSignerPk packedCoinbase cs blocks) (fits : ∀ b ∈ blocks, DurationsFit env b) :
    ∃ trie, ExpiryLedger cs trie := by
  induction chain with
  | genesis initialized => exact ⟨_, expiryLedger_genesis roots encoded initialized⟩
  | extend _ step ih =>
    obtain ⟨_, ledger⟩ := ih fun b member => fits b (List.mem_append_left _ member)
    exact ⟨_, ledger.extend roots step (fits _ (List.mem_append_right _ (List.mem_singleton_self _)))⟩

/-- Along every chain of blocks, the schedules of channels and of subscriptions are those of the records. -/
theorem channels_and_subscriptions_scheduled {genesisSignerPk packedCoinbase : Bytes} {blocks : List Block}
    (roots : RootsFaithful env) (encoded : unpack env ⟨.coinbase, packedCoinbase⟩ = .ok (.coinbase genesisCoinbase))
    (chain : Chain env config genesisSignerPk packedCoinbase cs blocks) (fits : ∀ b ∈ blocks, DurationsFit env b) :
    ∃ trie, currentTrie cs = .ok trie ∧
      ExpirySchedule .empty NanoPay.expiresAt cs.currentBlockHeight trie.nanoPay trie.nanoPayCleanup ∧
      ExpirySchedule .empty PubSub.expiresAt cs.currentBlockHeight trie.pubSub trie.pubSubCleanup := by
  obtain ⟨trie, ledger⟩ := chain.expiryLedger roots encoded fits
  exact ⟨trie, ledger.opens, expirySchedule_of_scheduled ledger.expiring.channels ledger.nonempty.channels,
    expirySchedule_of_scheduled ledger.expiring.subscriptions ledger.nonempty.subscriptions⟩

namespace FirstBlocks

/-- The third block subscribes for ten blocks and opens a channel until height 200. -/
theorem scheduled_thirdBlock : ∃ trie, currentTrie thirdStore = .ok trie ∧
      ExpirySchedule .empty NanoPay.expiresAt thirdStore.currentBlockHeight trie.nanoPay trie.nanoPayCleanup ∧
      ExpirySchedule .empty PubSub.expiresAt thirdStore.currentBlockHeight trie.pubSub trie.pubSubCleanup := by
  have extends_thirdBlock : Extends tables.env currentConfig secondStore thirdBlock thirdStore :=
    ⟨by decide +kernel, by decide +kernel, isOk_iff.mp (by decide +kernel), rfl⟩
  refine channels_and_subscriptions_scheduled rootsFaithful (by decide +kernel)
    (.extend (.extend chain extends_secondBlock) extends_thirdBlock) ?_
  have unsubscribed : ∀ b ∈ [genesisBlock, firstBlock] ++ [secondBlock], ∀ txn ∈ b.transactions,
      txn.unsignedTx.payload.type ≠ .subscribe := by decide +kernel
  have once : ∀ txn ∈ thirdBlock.transactions, txn.unsignedTx.payload.type = .subscribe → txn = subscriptionTxn := by
    decide +kernel
  have subscribes : unpack tables.env subscriptionTxn.unsignedTx.payload = .ok (.subscribe subscription) := by
    decide +kernel
  intro b member txn inside payload unpacked
  rcases List.mem_append.mp member with earlier | last
  · exact absurd (unpack_type unpacked).symm (unsubscribed b earlier txn inside)
  · obtain rfl := List.mem_singleton.mp last
    obtain rfl := once txn inside (unpack_type unpacked).symm
    cases subscribes.symm.trans unpacked
    decide

end FirstBlocks

end Nkn
