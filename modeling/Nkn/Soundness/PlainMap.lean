import Nkn.Lib.Tombstone
import Nkn.Soundness.Authority
import Nkn.Soundness.Names

/-! # The caches of the state as plain maps

The caches of channels, names and subscriptions stand for a plain map from ids to records, with the ids that each height
is to release. Every operation acts on them as on the plain map, as long as it reads no entry that was removed before and
is still in the trie. -/

namespace Nkn

open Go Store StateDB Function AList Table

@[ext]
structure Shelf (V : Type) where
  record : Bytes → V
  due : UInt32 → Finset Bytes

namespace Shelf

variable {V : Type}

def write (shelf : Shelf V) (id : Bytes) (value : V) : Shelf V :=
  { shelf with record := Function.update shelf.record id value }

def schedule (shelf : Shelf V) (height : UInt32) (id : Bytes) : Shelf V :=
  { shelf with due := Function.update shelf.due height (insert id (shelf.due height)) }

def cancel (shelf : Shelf V) (height : UInt32) (id : Bytes) : Shelf V :=
  { shelf with due := Function.update shelf.due height ((shelf.due height).erase id) }

theorem cancel_of_notMem {shelf : Shelf V} {height : UInt32} {id : Bytes} (absent : id ∉ shelf.due height) :
    shelf.cancel height id = shelf := by
  rw [cancel, Finset.erase_eq_of_notMem absent, update_eq_self]

def sweep (empty : V) (shelf : Shelf V) (height : UInt32) : Shelf V where
  record id := if id ∈ shelf.due height then empty else shelf.record id
  due := Function.update shelf.due height ∅

end Shelf

structure PlainState where
  channels : Shelf NanoPay
  names : Shelf NameInfo
  subscriptions : Shelf PubSub

inductive RecordOp where
  | getNanoPay (sender recipient : Uint160) (nonce : UInt64)
  | setNanoPay (sender recipient : Uint160) (nonce : UInt64) (balance : Int64) (expiresAt : UInt32)
  | cleanupNanoPay (height : UInt32)
  | getNameInfo (nameId : Bytes)
  | registerName (name registrant : Bytes) (expiresAt : UInt32)
  | transferName (name recipient : Bytes)
  | deleteName (name : Bytes)
  | cleanupNames (height : UInt32)
  | getPubSub (id : Bytes)
  | subscribe (topic : Bytes) (bucket : UInt32) (subscriber identifier metadata : Bytes) (expiresAt : UInt32)
  | unsubscribe (topic subscriber identifier : Bytes)
  | isSubscribed (topic : Bytes) (bucket : UInt32) (subscriber identifier : Bytes)
  | cleanupPubSub (height : UInt32)

inductive Answer where
  | done
  | nanoPay (np : NanoPay)
  | name (ni : NameInfo)
  | pubSub (ps : PubSub)
  | subscribed (found : Bool)
  deriving DecidableEq

section

variable (env : Env)

def Store.StateDB.perform (sdb : StateDB) : RecordOp → Answer × StateDB
  | .getNanoPay sender recipient nonce =>
    let (np, sdb) := sdb.getNanoPay sender recipient nonce
    (.nanoPay np, sdb)
  | .setNanoPay sender recipient nonce balance expiresAt =>
    (.done, sdb.setNanoPay sender recipient nonce balance expiresAt)
  | .cleanupNanoPay height => (.done, sdb.cleanupNanoPay height)
  | .getNameInfo nameId =>
    let (ni, sdb) := sdb.getNameInfo nameId
    (.name ni, sdb)
  | .registerName name registrant expiresAt => (.done, sdb.registerName env name registrant expiresAt)
  | .transferName name recipient => (.done, sdb.transferName env name recipient)
  | .deleteName name => (.done, sdb.deleteName env name)
  | .cleanupNames height => (.done, sdb.cleanupNames height)
  | .getPubSub id =>
    let (ps, sdb) := sdb.getPubSub id
    (.pubSub ps, sdb)
  | .subscribe topic bucket subscriber identifier metadata expiresAt =>
    (.done, sdb.subscribe env topic bucket subscriber identifier metadata expiresAt)
  | .unsubscribe topic subscriber identifier => (.done, sdb.unsubscribe env topic subscriber identifier)
  | .isSubscribed topic bucket subscriber identifier =>
    (.subscribed (sdb.isSubscribed env topic bucket subscriber identifier),
      (sdb.getPubSub (getPubSubId env topic bucket subscriber identifier)).2)
  | .cleanupPubSub height => (.done, sdb.cleanupPubSub height)

def PlainState.perform (plain : PlainState) : RecordOp → Answer × PlainState
  | .getNanoPay sender recipient nonce =>
    (.nanoPay (plain.channels.record (getNanoPayId sender recipient nonce)), plain)
  | .setNanoPay sender recipient nonce balance expiresAt =>
    let id := getNanoPayId sender recipient nonce
    let np := plain.channels.record id
    let cancelled := if np = .empty then plain.channels else plain.channels.cancel np.expiresAt id
    (.done, { plain with channels := (cancelled.schedule expiresAt id).write id ⟨balance, expiresAt⟩ })
  | .cleanupNanoPay height => (.done, { plain with channels := plain.channels.sweep .empty height })
  | .getNameInfo nameId => (.name (plain.names.record nameId), plain)
  | .registerName name registrant expiresAt =>
    let id := getNameId env name
    let ni := plain.names.record id
    let cancelled := if ni = .empty then plain.names else plain.names.cancel ni.expiresAt name
    (.done, { plain with names := (cancelled.schedule expiresAt id).write id ⟨registrant, expiresAt⟩ })
  | .transferName name recipient =>
    let id := getNameId env name
    (.done, { plain with names := plain.names.write id { plain.names.record id with registrant := recipient } })
  | .deleteName name =>
    let id := getNameId env name
    let ni := plain.names.record id
    (.done, if ni = .empty then plain
      else { plain with names := (plain.names.cancel ni.expiresAt name).write id .empty })
  | .cleanupNames height => (.done, { plain with names := plain.names.sweep .empty height })
  | .getPubSub id => (.pubSub (plain.subscriptions.record id), plain)
  | .subscribe topic bucket subscriber identifier metadata expiresAt =>
    let id := getPubSubId env topic bucket subscriber identifier
    let ps := plain.subscriptions.record id
    let renewed := if ps = .empty then { ps with subscriber, identifier } else ps
    let cancelled := if ps = .empty then plain.subscriptions else plain.subscriptions.cancel ps.expiresAt id
    (.done, { plain with
      subscriptions := (cancelled.schedule expiresAt id).write id { renewed with metadata, expiresAt } })
  | .unsubscribe topic subscriber identifier =>
    let id := getPubSubId env topic 0 subscriber identifier
    let ps := plain.subscriptions.record id
    (.done, if ps = .empty then plain
      else { plain with subscriptions := (plain.subscriptions.cancel ps.expiresAt id).write id .empty })
  | .isSubscribed topic bucket subscriber identifier =>
    (.subscribed (plain.subscriptions.record (getPubSubId env topic bucket subscriber identifier) ≠ .empty), plain)
  | .cleanupPubSub height => (.done, { plain with subscriptions := plain.subscriptions.sweep .empty height })

end

def dueAt (schedule : Table UInt32 Cleanup) (height : UInt32) : Finset Bytes := (schedule.view ∅ height).keys.toFinset

def shelf {V : Type} (empty : V) (records : Table Bytes V) (schedule : Table UInt32 Cleanup) : Shelf V where
  record := records.view empty
  due := dueAt schedule

def Store.StateDB.plain (sdb : StateDB) : PlainState where
  channels := shelf .empty sdb.nanoPay sdb.nanoPayCleanup
  names := shelf .empty sdb.names sdb.namesCleanup
  subscriptions := shelf .empty sdb.pubSub sdb.pubSubCleanup

variable {env : Env} {V : Type} {empty : V} {records : Table Bytes V} {schedule : Table UInt32 Cleanup} {height : UInt32}
  {id : Bytes}

theorem mem_dueAt : id ∈ dueAt schedule height ↔ id ∈ schedule.view ∅ height := by
  rw [dueAt, List.mem_toFinset, mem_keys]

variable {ids : Cleanup}

theorem mem_store {id id' : Bytes} : id' ∈ ids.store id () ↔ id' = id ∨ id' ∈ ids := mem_insert ids

theorem mem_delete {id id' : Bytes} : id' ∈ ids.delete id ↔ id' ≠ id ∧ id' ∈ ids := mem_erase

theorem shelf_put (value : V) : shelf empty (records.put id value) schedule = (shelf empty records schedule).write id value := by
  ext key
  · simp only [shelf, Shelf.write, view_put, update_apply]
  · rfl

theorem shelf_put_read (fresh : records.isStale id = false) :
    shelf empty (records.put id ((records.read id).getD empty)) schedule = shelf empty records schedule := by
  simp only [shelf, view_put_read fresh]

theorem shelf_putNil : shelf empty (records.putNil id) schedule = (shelf empty records schedule).write id empty := by
  ext key
  · simp only [shelf, Shelf.write, view_putNil, update_apply]
  · rfl

theorem shelf_cleanupAtHeight (fresh : schedule.isStale height = false) :
    shelf empty records (cleanupAtHeight schedule height id) = (shelf empty records schedule).schedule height id := by
  have set : getCleanup schedule height = schedule.view ∅ height := read_eq_view fresh
  ext key
  · rfl
  · rename_i t
    simp only [shelf, Shelf.schedule, update_apply, mem_dueAt, cleanupAtHeight, view_put, set]
    split_ifs with same
    · rw [mem_store, Finset.mem_insert, mem_dueAt]
    · rw [mem_dueAt]

theorem shelf_cancelCleanupAtHeight (fresh : schedule.isStale height = false) :
    shelf empty records (cancelCleanupAtHeight schedule height id) = (shelf empty records schedule).cancel height id := by
  have set : getCleanup schedule height = schedule.view ∅ height := read_eq_view fresh
  ext key
  · rfl
  · rename_i t
    simp only [shelf, Shelf.cancel, update_apply, mem_dueAt, cancelCleanupAtHeight, view_put, set]
    split_ifs with same
    · rw [mem_delete, Finset.mem_erase, mem_dueAt]
    · rw [mem_dueAt]

theorem view_cleanupRecords {key : Bytes} :
    (cleanupRecords records ids).view empty key = if key ∈ ids then empty else records.view empty key := by
  have due : (ids.load key).isSome = true ↔ key ∈ ids := lookup_isSome
  simp only [Table.view, cleanupRecords_load_iff, due, (cleanupRecords_load _ _ key).1]
  split_ifs <;> rfl

theorem shelf_sweep (fresh : schedule.isStale height = false) :
    shelf empty (cleanupRecords records (getCleanup schedule height)) (schedule.putNil height) =
      (shelf empty records schedule).sweep empty height := by
  have set : getCleanup schedule height = schedule.view ∅ height := read_eq_view fresh
  ext key
  · change (cleanupRecords records _).view empty key = if key ∈ dueAt schedule height then empty else records.view empty key
    simp only [view_cleanupRecords, set, mem_dueAt]
  · rename_i t
    simp only [shelf, Shelf.sweep, update_apply, mem_dueAt, view_putNil]
    split_ifs with same
    · simp
    · rw [mem_dueAt]

section

def freshAt {V : Type} [DecidableEq V] (empty : V) (expiresAt : V → UInt32) (records : Table Bytes V)
    (schedule : Table UInt32 Cleanup) (id : Bytes) : Bool :=
  let record := (records.read id).getD empty
  !records.isStale id && (record = empty || !schedule.isStale (expiresAt record))

variable (env : Env)

/-- An operation reads no stale entry; a channel that is set is cached or has no record in the trie, and is not scheduled
for height 0. -/
def Store.StateDB.fresh (sdb : StateDB) : RecordOp → Bool
  | .getNanoPay sender recipient nonce => !sdb.nanoPay.isStale (getNanoPayId sender recipient nonce)
  | .setNanoPay sender recipient nonce _ expiresAt =>
    let id := getNanoPayId sender recipient nonce
    !sdb.nanoPayCleanup.isStale expiresAt &&
      match sdb.nanoPay.pending.load id with
      | some (some np) =>
        !sdb.nanoPayCleanup.isStale np.expiresAt &&
          (np ≠ .empty || !((getCleanup sdb.nanoPayCleanup 0).load id).isSome)
      | some none => true
      | none => (sdb.nanoPay.stored id).isNone
  | .cleanupNanoPay height => !sdb.nanoPayCleanup.isStale height
  | .getNameInfo nameId => !sdb.names.isStale nameId
  | .registerName name _ expiresAt =>
    freshAt .empty NameInfo.expiresAt sdb.names sdb.namesCleanup (getNameId env name) && !sdb.namesCleanup.isStale expiresAt
  | .transferName name _ => !sdb.names.isStale (getNameId env name)
  | .deleteName name => freshAt .empty NameInfo.expiresAt sdb.names sdb.namesCleanup (getNameId env name)
  | .cleanupNames height => !sdb.namesCleanup.isStale height
  | .getPubSub id => !sdb.pubSub.isStale id
  | .subscribe topic bucket subscriber identifier _ expiresAt =>
    freshAt .empty PubSub.expiresAt sdb.pubSub sdb.pubSubCleanup (getPubSubId env topic bucket subscriber identifier) &&
      !sdb.pubSubCleanup.isStale expiresAt
  | .unsubscribe topic subscriber identifier =>
    freshAt .empty PubSub.expiresAt sdb.pubSub sdb.pubSubCleanup (getPubSubId env topic 0 subscriber identifier)
  | .isSubscribed topic bucket subscriber identifier =>
    !sdb.pubSub.isStale (getPubSubId env topic bucket subscriber identifier)
  | .cleanupPubSub height => !sdb.pubSubCleanup.isStale height

end

variable [DecidableEq V] {expiresAt : V → UInt32}

theorem freshAt_eq_true : freshAt empty expiresAt records schedule id = true ↔ records.isStale id = false ∧
    (records.view empty id = empty ∨ schedule.isStale (expiresAt (records.view empty id)) = false) := by
  simp only [freshAt, Bool.and_eq_true, Bool.not_eq_true', Bool.or_eq_true, decide_eq_true_eq]
  refine and_congr_right fun fresh => ?_
  rw [read_eq_view fresh]

theorem shelf_renew {value : V} {key : Bytes} (fresh : freshAt empty expiresAt records schedule id = true)
    (freshHeight : schedule.isStale height = false) :
    let record := (records.read id).getD empty
    shelf empty ((records.put id record).put id value)
        (cleanupAtHeight (if record = empty then schedule else cancelCleanupAtHeight schedule (expiresAt record) key)
          height id) =
      (((if records.view empty id = empty then shelf empty records schedule
        else (shelf empty records schedule).cancel (expiresAt (records.view empty id)) key)).schedule height id).write id
          value := by
  obtain ⟨freshRecord, freshExpiry⟩ := freshAt_eq_true.mp fresh
  intro record
  have same : record = records.view empty id := read_eq_view freshRecord
  rw [put_put, shelf_put, same]
  split_ifs with none
  · rw [shelf_cleanupAtHeight freshHeight]
  · rw [shelf_cleanupAtHeight, shelf_cancelCleanupAtHeight (freshExpiry.resolve_left none)]
    rw [cancelCleanupAtHeight, isStale_put]
    split_ifs
    · rfl
    · exact freshHeight

variable {sdb : StateDB}

theorem plain_setNanoPay {sender recipient : Uint160} {nonce : UInt64} {balance : Int64} {expiresAt : UInt32}
    (fresh : sdb.fresh env (.setNanoPay sender recipient nonce balance expiresAt) = true) :
    (sdb.setNanoPay sender recipient nonce balance expiresAt).plain =
      (sdb.plain.perform env (.setNanoPay sender recipient nonce balance expiresAt)).2 := by
  simp only [StateDB.fresh, Bool.and_eq_true, Bool.not_eq_true'] at fresh
  obtain ⟨freshHeight, fresh⟩ := fresh
  have scheduled {cleanup : Table UInt32 Cleanup} (fresh : cleanup.isStale expiresAt = false) :
      shelf .empty (sdb.nanoPay.put (getNanoPayId sender recipient nonce) ⟨balance, expiresAt⟩)
          (cleanupAtHeight cleanup expiresAt (getNanoPayId sender recipient nonce)) =
        ((shelf .empty sdb.nanoPay cleanup).schedule expiresAt (getNanoPayId sender recipient nonce)).write
          (getNanoPayId sender recipient nonce) ⟨balance, expiresAt⟩ := by
    rw [shelf_put, shelf_cleanupAtHeight fresh]
  -- without a cached record nothing is cancelled, and there is no record
  have unrecorded (none : sdb.nanoPay.view .empty (getNanoPayId sender recipient nonce) = .empty) :
      (sdb.plain.perform env (.setNanoPay sender recipient nonce balance expiresAt)).2 = { sdb.plain with
        channels := (sdb.plain.channels.schedule expiresAt (getNanoPayId sender recipient nonce)).write
          (getNanoPayId sender recipient nonce) ⟨balance, expiresAt⟩ } := by
    have empty : sdb.plain.channels.record (getNanoPayId sender recipient nonce) = .empty := none
    simp only [PlainState.perform, empty, if_true]
  rcases entry : sdb.nanoPay.pending.load (getNanoPayId sender recipient nonce) with _ | _ | np
  · rw [entry] at fresh
    have absent : sdb.nanoPay.stored (getNanoPayId sender recipient nonce) = none := Option.isNone_iff_eq_none.mp fresh
    rw [unrecorded (by simp [Table.view, entry, absent])]
    simp only [setNanoPay, entry]
    exact congrArg (fun channels => { sdb.plain with channels }) (scheduled freshHeight)
  · rw [unrecorded (by simp [Table.view, entry])]
    simp only [setNanoPay, entry]
    exact congrArg (fun channels => { sdb.plain with channels }) (scheduled freshHeight)
  · simp only [entry, Bool.and_eq_true, Bool.not_eq_true', Bool.or_eq_true, decide_eq_true_eq] at fresh
    obtain ⟨freshExpiry, unscheduled⟩ := fresh
    have freshCancelled : (cancelCleanupAtHeight sdb.nanoPayCleanup np.expiresAt
        (getNanoPayId sender recipient nonce)).isStale expiresAt = false := by
      rw [cancelCleanupAtHeight, isStale_put]
      split_ifs
      · rfl
      · exact freshHeight
    have cached : sdb.plain.channels.record (getNanoPayId sender recipient nonce) = np := by
      change sdb.nanoPay.view .empty _ = np
      simp [Table.view, entry]
    simp only [setNanoPay, entry, PlainState.perform, cached]
    refine congrArg (fun channels => { sdb.plain with channels }) ((scheduled freshCancelled).trans ?_)
    rw [shelf_cancelCleanupAtHeight freshExpiry]
    split_ifs with none
    · subst none
      have absent : getNanoPayId sender recipient nonce ∉ dueAt sdb.nanoPayCleanup 0 := by
        have set : getCleanup sdb.nanoPayCleanup 0 = sdb.nanoPayCleanup.view ∅ 0 := read_eq_view freshExpiry
        have unscheduled := unscheduled.resolve_left (by simp)
        rw [mem_dueAt, ← set]
        exact fun member => absurd (lookup_isSome.mpr member) (by rw [GoMap.load] at unscheduled; simp [unscheduled])
      rw [Shelf.cancel_of_notMem absent]
      rfl
    · rfl

variable {schedule : Table UInt32 Cleanup}

theorem shelf_drop {V : Type} [DecidableEq V] {empty : V} {expiresAt : V → UInt32} {records dropped : Table Bytes V}
    {id key : Bytes} (fresh : freshAt empty expiresAt records schedule id = true)
    (drops : ∀ cleanup, shelf empty dropped cleanup = (shelf empty records cleanup).write id empty)
    (present : records.view empty id ≠ empty) :
    shelf empty dropped (cancelCleanupAtHeight schedule (expiresAt (records.view empty id)) key) =
      ((shelf empty records schedule).cancel (expiresAt (records.view empty id)) key).write id empty := by
  obtain ⟨-, freshExpiry⟩ := freshAt_eq_true.mp fresh
  rw [drops, shelf_cancelCleanupAtHeight (freshExpiry.resolve_left present)]

theorem plain_deleteName {name : Bytes} (fresh : sdb.fresh env (.deleteName name) = true) :
    (sdb.deleteName env name).plain = (sdb.plain.perform env (.deleteName name)).2 := by
  obtain ⟨freshRecord, -⟩ := freshAt_eq_true.mp fresh
  have found : (sdb.getNameInfo (getNameId env name)).1 = sdb.plain.names.record (getNameId env name) :=
    read_eq_view freshRecord
  by_cases none : sdb.plain.names.record (getNameId env name) = .empty
  · simp only [deleteName, PlainState.perform, found, none, if_true]
    exact congrArg (fun names => { sdb.plain with names }) (shelf_put_read freshRecord)
  · simp only [deleteName, PlainState.perform, found, none, if_false]
    refine congrArg (fun names => { sdb.plain with names }) (shelf_drop fresh (fun cleanup => ?_) none)
    exact (congrArg (shelf NameInfo.empty · cleanup) (put_put _ _ _ _)).trans (shelf_put _)

theorem plain_unsubscribe {topic subscriber identifier : Bytes}
    (fresh : sdb.fresh env (.unsubscribe topic subscriber identifier) = true) :
    (sdb.unsubscribe env topic subscriber identifier).plain =
      (sdb.plain.perform env (.unsubscribe topic subscriber identifier)).2 := by
  obtain ⟨freshRecord, -⟩ := freshAt_eq_true.mp fresh
  have found : (sdb.getPubSub (getPubSubId env topic 0 subscriber identifier)).1 =
      sdb.plain.subscriptions.record (getPubSubId env topic 0 subscriber identifier) := read_eq_view freshRecord
  by_cases none : sdb.plain.subscriptions.record (getPubSubId env topic 0 subscriber identifier) = .empty
  · simp only [unsubscribe, PlainState.perform, found, none, if_true]
    exact congrArg (fun subscriptions => { sdb.plain with subscriptions }) (shelf_put_read freshRecord)
  · simp only [unsubscribe, PlainState.perform, found, none, if_false]
    refine congrArg (fun subscriptions => { sdb.plain with subscriptions }) (shelf_drop fresh (fun cleanup => ?_) none)
    rw [shelf_putNil]
    exact congrArg (Shelf.write · _ _) (shelf_put_read freshRecord)

theorem perform_plain {op : RecordOp} (fresh : sdb.fresh env op = true) :
    (sdb.perform env op).1 = (sdb.plain.perform env op).1 ∧ (sdb.perform env op).2.plain = (sdb.plain.perform env op).2 := by
  cases op with
  | getNanoPay sender recipient nonce =>
    have fresh : sdb.nanoPay.isStale (getNanoPayId sender recipient nonce) = false := by simpa [StateDB.fresh] using fresh
    exact ⟨congrArg Answer.nanoPay (read_eq_view fresh),
      congrArg (fun channels => { sdb.plain with channels }) (shelf_put_read fresh)⟩
  | setNanoPay _ _ _ _ _ => exact ⟨rfl, plain_setNanoPay fresh⟩
  | cleanupNanoPay height =>
    have fresh : sdb.nanoPayCleanup.isStale height = false := by simpa [StateDB.fresh] using fresh
    exact ⟨rfl, congrArg (fun channels => { sdb.plain with channels }) (shelf_sweep fresh)⟩
  | getNameInfo nameId =>
    have fresh : sdb.names.isStale nameId = false := by simpa [StateDB.fresh] using fresh
    exact ⟨congrArg Answer.name (read_eq_view fresh),
      congrArg (fun names => { sdb.plain with names }) (shelf_put_read fresh)⟩
  | registerName _ _ _ =>
    simp only [StateDB.fresh, Bool.and_eq_true, Bool.not_eq_true'] at fresh
    exact ⟨rfl, congrArg (fun names => { sdb.plain with names }) (shelf_renew fresh.1 fresh.2)⟩
  | transferName name recipient =>
    have fresh : sdb.names.isStale (getNameId env name) = false := by simpa [StateDB.fresh] using fresh
    have renamed : shelf .empty (sdb.transferName env name recipient).names sdb.namesCleanup =
        sdb.plain.names.write (getNameId env name)
          { (sdb.names.read (getNameId env name)).getD .empty with registrant := recipient } :=
      (congrArg (shelf NameInfo.empty · sdb.namesCleanup) (put_put _ _ _ _)).trans (shelf_put _)
    rw [read_eq_view fresh] at renamed
    exact ⟨rfl, congrArg (fun names => { sdb.plain with names }) renamed⟩
  | deleteName _ => exact ⟨rfl, plain_deleteName fresh⟩
  | cleanupNames height =>
    have fresh : sdb.namesCleanup.isStale height = false := by simpa [StateDB.fresh] using fresh
    exact ⟨rfl, congrArg (fun names => { sdb.plain with names }) (shelf_sweep fresh)⟩
  | getPubSub id =>
    have fresh : sdb.pubSub.isStale id = false := by simpa [StateDB.fresh] using fresh
    exact ⟨congrArg Answer.pubSub (read_eq_view fresh),
      congrArg (fun subscriptions => { sdb.plain with subscriptions }) (shelf_put_read fresh)⟩
  | subscribe _ _ _ _ _ _ =>
    simp only [StateDB.fresh, Bool.and_eq_true, Bool.not_eq_true'] at fresh
    obtain ⟨freshRecord, -⟩ := freshAt_eq_true.mp fresh.1
    refine ⟨rfl, congrArg (fun subscriptions => { sdb.plain with subscriptions }) ((shelf_renew fresh.1 fresh.2).trans ?_)⟩
    simp only [read_eq_view freshRecord]
    rfl
  | unsubscribe _ _ _ => exact ⟨rfl, plain_unsubscribe fresh⟩
  | isSubscribed topic bucket subscriber identifier =>
    have fresh : sdb.pubSub.isStale (getPubSubId env topic bucket subscriber identifier) = false := by
      simpa [StateDB.fresh] using fresh
    have found : (sdb.getPubSub (getPubSubId env topic bucket subscriber identifier)).1 =
        sdb.plain.subscriptions.record (getPubSubId env topic bucket subscriber identifier) := read_eq_view fresh
    refine ⟨?_, congrArg (fun subscriptions => { sdb.plain with subscriptions }) (shelf_put_read fresh)⟩
    simp only [StateDB.perform, isSubscribed, found, PlainState.perform]
  | cleanupPubSub height =>
    have fresh : sdb.pubSubCleanup.isStale height = false := by simpa [StateDB.fresh] using fresh
    exact ⟨rfl, congrArg (fun subscriptions => { sdb.plain with subscriptions }) (shelf_sweep fresh)⟩

section

variable (env : Env)

def Store.StateDB.performAll (sdb : StateDB) : List RecordOp → List Answer × StateDB
  | [] => ([], sdb)
  | op :: ops =>
    let (answer, sdb) := sdb.perform env op
    let (answers, sdb) := performAll sdb ops
    (answer :: answers, sdb)

def PlainState.performAll (plain : PlainState) : List RecordOp → List Answer × PlainState
  | [] => ([], plain)
  | op :: ops =>
    let (answer, plain) := plain.perform env op
    let (answers, plain) := performAll plain ops
    (answer :: answers, plain)

def Store.StateDB.freshAll (sdb : StateDB) : List RecordOp → Bool
  | [] => true
  | op :: ops => sdb.fresh env op && freshAll (sdb.perform env op).2 ops

end

theorem performAll_plain {ops : List RecordOp} (fresh : sdb.freshAll env ops = true) :
    (sdb.performAll env ops).1 = (sdb.plain.performAll env ops).1 ∧
      (sdb.performAll env ops).2.plain = (sdb.plain.performAll env ops).2 := by
  induction ops generalizing sdb with
  | nil => exact ⟨rfl, rfl⟩
  | cons _ _ ih =>
    rw [StateDB.freshAll, Bool.and_eq_true] at fresh
    obtain ⟨answer, plain⟩ := perform_plain fresh.1
    obtain ⟨answers, rest⟩ := ih fresh.2
    simp only [StateDB.performAll, PlainState.performAll, answer, answers, rest, plain, and_self]

theorem getD_encodeCleanup (ids : Cleanup) : (Cleanup.encode ids).getD ∅ = ids := by
  unfold Cleanup.encode
  split_ifs with none
  · exact (ext (List.isEmpty_iff.mp none)).symm
  · rfl

theorem getD_encodeNanoPay (np : NanoPay) : (NanoPay.encode np).getD .empty = np := by
  unfold NanoPay.encode
  split_ifs with none
  · exact none.symm
  · rfl

theorem getD_encodePubSub (ps : PubSub) : (PubSub.encode ps).getD .empty = ps := by
  unfold PubSub.encode
  split_ifs with none
  · exact none.symm
  · rfl

theorem shelf_finalize {V : Type} {empty : V} {encode : V → Option V} {records : Table Bytes V}
    (faithful : ∀ value, (encode value).getD empty = value) :
    shelf empty (.ofStore (records.finalize encode true).stored) (.ofStore (schedule.finalize Cleanup.encode true).stored) =
      shelf empty records schedule := by
  ext key
  · exact view_finalize faithful
  · rename_i t
    rw [shelf, shelf, mem_dueAt, mem_dueAt, view_ofStore, view_finalize getD_encodeCleanup]

theorem plain_finalize : (StateDB.new (sdb.finalize env false true).trie).plain = sdb.plain := by
  have names (ni : NameInfo) : (NameInfo.encode ni).getD .empty = ni := by
    unfold NameInfo.encode
    split_ifs with none
    · exact none.symm
    · rfl
  simp only [StateDB.plain, StateDB.new, StateDB.trie, StateDB.finalize, Bool.false_eq_true, if_false,
    shelf_finalize getD_encodeNanoPay, shelf_finalize names, shelf_finalize getD_encodePubSub]

/-- From an opened state on, every operation of a list that reads no entry which was removed before and has a record in
the trie returns what it returns on plain maps, and writing the caches back makes the trie these maps. -/
theorem cache_refines_map (env : Env) (trie : StateTrie) (ops : List RecordOp)
    (fresh : (StateDB.new trie).freshAll env ops = true) :
    ((StateDB.new trie).performAll env ops).1 = ((StateDB.new trie).plain.performAll env ops).1 ∧
      (StateDB.new (((StateDB.new trie).performAll env ops).2.finalize env false true).trie).plain =
        ((StateDB.new trie).plain.performAll env ops).2 := by
  obtain ⟨answers, plain⟩ := performAll_plain fresh
  exact ⟨answers, plain_finalize.trans plain⟩

namespace RemovedSubscription

open Sample OwnSubscription

def trie : StateTrie :=
  (((StateDB.new .empty).subscribe tables.env topic 0 proposerKey identifier [] 5001000).finalize tables.env false true).trie

def lookup : RecordOp := .isSubscribed topic 0 proposerKey identifier

def removal : RecordOp := .unsubscribe topic proposerKey identifier

theorem cache_refines_map_removal : ((StateDB.new trie).performAll tables.env [lookup, removal]).1 =
        ((StateDB.new trie).plain.performAll tables.env [lookup, removal]).1 ∧
      (StateDB.new (((StateDB.new trie).performAll tables.env [lookup, removal]).2.finalize tables.env false true).trie).plain =
        ((StateDB.new trie).plain.performAll tables.env [lookup, removal]).2 :=
  cache_refines_map tables.env trie [lookup, removal] (by decide +kernel)

/-- Looked up after its removal the subscription is there again, and writing the caches back keeps it in the trie. -/
theorem removed_subscription_returns :
    ((StateDB.new trie).performAll tables.env [removal, lookup]).1 = [.done, .subscribed true] ∧
      ((StateDB.new trie).plain.performAll tables.env [removal, lookup]).1 = [.done, .subscribed false] ∧
      ((((StateDB.new trie).performAll tables.env [removal, lookup]).2.finalize tables.env false true).trie.pubSub
        (getPubSubId tables.env topic 0 proposerKey identifier)).isSome = true ∧
      ((StateDB.new trie).plain.performAll tables.env [removal, lookup]).2.subscriptions.record
        (getPubSubId tables.env topic 0 proposerKey identifier) = .empty := by
  decide +kernel

end RemovedSubscription

end Nkn
