import Nkn.Model.DiskExecute

/-! # Execution with reads that fail

A call of the trie in which a read fails returns an error, and every other call does what it does on the whole
database. -/

namespace Nkn.Trie

open Go Outcome

variable {db db' : Database}

def Database.Below (db' db : Database) : Prop := ∀ hash enc, db' hash = some enc → db hash = some enc

namespace Node

variable (below : Database.Below db' db)

include below

theorem resolveHash_follows (h : Bytes) : Follows (resolveHash db' h) (resolveHash db h) := by
  unfold resolveHash
  cases found : db' h with
  | none => exact .inl ⟨_, rfl⟩
  | some enc => rw [below h enc found]; exact .refl _

theorem resolve_follows (n : Node) : Follows (resolve db' n) (resolve db n) := by
  cases n with
  | hashNode h => exact resolveHash_follows below h
  | _ => exact .refl _

theorem tryGet_follows (depth : Nat) (n : Node) (key : Key) :
    Follows (n.tryGet db' depth key) (n.tryGet db depth key) := by
  induction depth generalizing n key with
  | zero => exact .refl _
  | succ _ ih =>
    cases n with
    | nil => exact .refl _
    | valueNode _ => exact .refl _
    | shortNode _ val _ =>
      simp only [tryGet]
      split_ifs
      · exact (ih val _).bind fun _ => .refl _
      · exact .refl _
    | fullNode children _ =>
      cases key with
      | nil => exact .refl _
      | cons i key => exact (ih (children i) key).bind fun _ => .refl _
    | hashNode h => exact (resolveHash_follows below h).bind fun child => ih child key

theorem insert_follows (depth : Nat) (n : Node) (key : Key) (value : Node) :
    Follows (n.insert db' depth key value) (n.insert db depth key value) := by
  induction depth generalizing n key with
  | zero => exact .refl _
  | succ _ ih =>
    cases key with
    | nil => cases n <;> exact .refl _
    | cons i key =>
      cases n with
      | nil => exact .refl _
      | valueNode _ => exact .refl _
      | shortNode nKey val _ =>
        simp only [insert]
        by_cases whole : prefixLen (i :: key) nKey = nKey.length
        · rw [if_pos whole, if_pos whole]
          exact (ih val _).bind fun _ => .refl _
        · rw [if_neg whole, if_neg whole]
          exact .refl _
      | fullNode children _ => exact (ih (children i) key).bind fun _ => .refl _
      | hashNode h => exact (resolveHash_follows below h).bind fun child => ih child _

theorem delete_follows (depth : Nat) (n : Node) (key : Key) :
    Follows (n.delete db' depth key) (n.delete db depth key) := by
  induction depth generalizing n key with
  | zero => exact .refl _
  | succ _ ih =>
    cases n with
    | nil => exact .refl _
    | valueNode _ => exact .refl _
    | shortNode _ val _ =>
      simp only [delete]
      split_ifs
      · exact .refl _
      · exact .refl _
      · exact (ih val _).bind fun _ => .refl _
    | fullNode children _ =>
      cases key with
      | nil => exact .refl _
      | cons i key =>
        refine (ih (children i) key).bind fun nn => ?_
        dsimp only
        cases onlyChild (Function.update children i nn) with
        | none => exact .refl _
        | some _ =>
          dsimp only
          split_ifs
          · exact .refl _
          · exact (resolve_follows below _).bind fun _ => .refl _
    | hashNode h => exact (resolveHash_follows below h).bind fun child => ih child key

end Node

def Tolerant {α : Type} (call : Trie → Outcome (α × Trie)) : Prop := ∀ (t : Trie) (db' : Database),
  Database.Below db' t.db →
    Follows ((call { t with db := db' }).map fun answer => (answer.1, answer.2.root))
      ((call t).map fun answer => (answer.1, answer.2.root))

theorem map_bind {α β γ : Type} (result : Outcome α) (next : α → Outcome β) (f : β → γ) :
    (result >>= next).map f = result >>= fun value => (next value).map f := by
  cases result <;> rfl

theorem tolerant_tryGet (key : Bytes) : Tolerant fun t => t.tryGet key := by
  intro t db' below
  simp only [Trie.tryGet, map_bind]
  exact (Node.tryGet_follows below _ _ _).bind fun _ => .refl _

theorem tolerant_tryUpdate (key value : Bytes) : Tolerant fun t => (t.tryUpdate key value).map fun t => ((), t) := by
  intro t db' below
  simp only [Trie.tryUpdate, map_bind]
  exact (Node.insert_follows below _ _ _ _).bind fun _ => .refl _

theorem tolerant_tryDelete (key : Bytes) : Tolerant fun t => (t.tryDelete key).map fun t => ((), t) := by
  intro t db' below
  simp only [Trie.tryDelete, map_bind]
  exact (Node.delete_follows below _ _ _).bind fun _ => .refl _

end Nkn.Trie

namespace Nkn.Disk

open Go Outcome Config Store Proc.Matches Proc.Follows

variable {α V : Type} {faults : Faults} {env : Env} {config : Config} {inv : StateDB → Prop}

theorem below_view (faults : Faults) (site : Site) (calls : Nat) (db : Trie.Database) :
    Trie.Database.Below (faults.view site calls db) db := by
  intro hash enc found
  unfold Faults.view at found
  split_ifs at found
  exact found

theorem view_none (site : Site) (calls : Nat) (db : Trie.Database) : Faults.none.view site calls db = db := rfl

namespace Faults

/-- No read fails in a lookup of a key. -/
def SparesKey (faults : Faults) (key : Bytes) : Prop := ∀ calls hash, faults (.access (.tryGet key)) calls hash = false

def SparesAccounts (faults : Faults) : Prop := ∀ addr : Uint160, faults.SparesKey (accountPrefix ++ addr.toArray)

def SparesAsset (faults : Faults) (assetID : Uint256) : Prop := faults.SparesKey (issueAssetPrefix ++ assetID.toArray)

/-- No read fails in a lookup of an account, nor of an asset that the block sets: the assets of the genesis block and
those that its transactions issue. -/
structure Spares (env : Env) (faults : Faults) (b : Block) : Prop where
  accounts : faults.SparesAccounts
  genesis : b.height = 0 → faults.SparesAsset nknAssetID ∧ faults.SparesAsset gasAssetID
  issued : ∀ txn ∈ b.transactions, ∀ issue, unpack env txn.unsignedTx.payload = .ok (.issueAsset issue) →
    faults.SparesAsset (Transaction.hash env txn)

theorem sparesAccounts_none : Faults.none.SparesAccounts := fun _ _ _ => rfl

theorem sparesAsset_none (assetID : Uint256) : Faults.none.SparesAsset assetID := fun _ _ => rfl

theorem spares_none {env : Env} (b : Block) : Faults.none.Spares env b :=
  ⟨sparesAccounts_none, fun _ => ⟨sparesAsset_none _, sparesAsset_none _⟩, fun _ _ _ _ => sparesAsset_none _⟩

end Faults

structure Stable (inv : StateDB → Prop) : Prop where
  lookup : ∀ {sdb : StateDB} {key : Bytes} {value : Option Bytes} {t : Trie}, inv sdb →
    sdb.trie.tryGet key = .ok (value, t) → inv { sdb with trie := { sdb.trie with root := t.root } }
  memory : ∀ {sdb sdb' : StateDB}, inv sdb → sdb'.trie = sdb.trie → sdb'.names = sdb.names →
    sdb'.nameRegistrants = sdb.nameRegistrants → sdb'.namesCleanup = sdb.namesCleanup → inv sdb'

abbrev Tracks (inv : StateDB → Prop) (x y : Exec α) : Prop := Proc.Follows (fun s => inv s.sdb) x y

abbrev Equals (inv : StateDB → Prop) (x y : Exec α) : Prop := Proc.Matches (fun s => inv s.sdb) x y

/-- A computation that reads the trie follows the one without faults. -/
abbrev Survives (inv : StateDB → Prop) (faults : Faults) (x : Faults → Exec α) : Prop := Tracks inv (x faults) (x .none)

abbrev Immune (inv : StateDB → Prop) (faults : Faults) (x : Faults → Exec α) : Prop := Equals inv (x faults) (x .none)

theorem equals_update {change : StateDB → StateDB} (keep : ∀ sdb, inv sdb → inv (change sdb)) :
    Equals inv (update change) (update change) :=
  Proc.matches_modify fun s => keep s.sdb

theorem onTrie_eq (access : Trie.Access) (call : Trie → Outcome (α × Trie)) (s : Session) :
    onTrie faults access call s =
      match (call { s.sdb.trie with db := faults.view (.access access) s.calls s.sdb.trie.db }).map
          fun answer => (answer.1, answer.2.root) with
      | .ok (answer, root) =>
        (.ok answer, { sdb := { s.sdb with trie := { s.sdb.trie with root } }, calls := s.calls + 1 })
      | .error fault => (.error fault, { s with calls := s.calls + 1 }) := by
  simp only [onTrie]
  cases call { s.sdb.trie with db := faults.view (.access access) s.calls s.sdb.trie.db } <;> rfl

variable {call : Trie → Outcome (α × Trie)}

theorem onTrie_follows {access : Trie.Access} (tolerant : Trie.Tolerant call)
    (s : Session) : Fails (onTrie faults access call s).1 ∨ onTrie faults access call s = onTrie .none access call s := by
  rw [onTrie_eq, onTrie_eq, view_none]
  rcases tolerant s.sdb.trie _ (below_view faults (.access access) s.calls s.sdb.trie.db) with ⟨text, failed⟩ | same
  · exact .inl ⟨text, by rw [failed]⟩
  · exact .inr (by rw [same])

theorem tracks_tryGet (stable : Stable inv) (key : Bytes) : Tracks inv (tryGet faults key) (tryGet .none key) := by
  intro s holds
  refine (onTrie_follows (Trie.tolerant_tryGet key) s).imp_right fun same => ⟨same, ?_⟩
  simp only [tryGet, onTrie, view_none]
  cases found : s.sdb.trie.tryGet key with
  | error _ => exact holds
  | ok _ => exact stable.lookup holds found

theorem tryGet_spared {key : Bytes} (spared : faults.SparesKey key) :
    tryGet faults key = tryGet .none key := by
  funext s
  have whole : faults.view (.access (.tryGet key)) s.calls s.sdb.trie.db = s.sdb.trie.db := by
    funext hash
    simp [Faults.view, spared _ _]
  simp only [tryGet, onTrie, whole, view_none]

theorem equals_tryGet (stable : Stable inv) {key : Bytes} (spared : faults.SparesKey key) :
    Equals inv (tryGet faults key) (tryGet .none key) := by
  intro s holds
  rw [tryGet_spared spared]
  refine ⟨rfl, ?_⟩
  simp only [tryGet, onTrie, view_none]
  cases found : s.sdb.trie.tryGet key with
  | error _ => exact holds
  | ok _ => exact stable.lookup holds found

theorem tracks_getRecord (stable : Stable inv) {cached : StateDB → Option V} {label : String} {key : Bytes}
    {deserialize : Bytes → Outcome V} {empty : V} {keep : V → StateDB → StateDB}
    (keeps : ∀ record sdb, inv sdb → inv (keep record sdb)) :
    Survives inv faults (getRecord · cached label key deserialize empty keep) := by
  unfold getRecord
  refine (Proc.matches_gets _).follows.bind fun found => ?_
  cases found with
  | some record => exact (Proc.matches_pure record).follows
  | none =>
    refine ((tracks_tryGet stable key).labelled label).bind fun enc => ?_
    refine (Proc.matches_lift _).follows.bind fun record => ?_
    exact (equals_update (keeps record)).follows.bind fun _ => (Proc.matches_pure record).follows

section

variable (stable : Stable inv) (spared : faults.SparesAccounts)
include stable

theorem equals_setAccount (addr : Uint160) (acc : Account) : Equals inv (setAccount addr acc) (setAccount addr acc) :=
  equals_update fun _ holds => stable.memory holds rfl rfl rfl rfl

include spared

theorem equals_getAccount (addr : Uint160) : Immune inv faults (getAccount · addr) := by
  unfold getAccount
  refine (Proc.matches_gets _).bind fun found => ?_
  cases found with
  | some acc => exact Proc.matches_pure acc
  | none =>
    refine ((equals_tryGet stable (spared addr)).labelled _).bind fun enc => ?_
    split_ifs
    · exact Proc.matches_lift _
    · exact (Proc.matches_lift _).bind fun data => (equals_setAccount stable addr data).bind fun _ =>
        Proc.matches_pure data

variable (assetID : Uint256)

theorem equals_getBalance (addr : Uint160) : Immune inv faults (getBalance · assetID addr) :=
  ((equals_getAccount stable spared addr).bind fun _ => Proc.matches_pure _).recover (Proc.matches_pure 0)

theorem equals_getOrNewAccount (addr : Uint160) : Immune inv faults (getOrNewAccount · addr) := by
  have lookup := equals_getAccount stable spared addr
  refine lookup.recover ?_
  refine ((lookup.bind fun _ => Proc.matches_pure ()).recover (Proc.matches_pure ())).bind fun _ => ?_
  exact (equals_setAccount stable addr .new).bind fun _ => Proc.matches_pure _

theorem equals_updateBalance (addr : Uint160) (assetID : Uint256) (value : Int64) (op : Store.StateDB.Operation) :
    Immune inv faults (updateBalance · addr assetID value op) := by
  refine (equals_getOrNewAccount stable spared addr).bind fun acc => ?_
  cases op with
  | addition => exact equals_setAccount stable addr _
  | subtraction => exact (Proc.matches_lift _).bind fun _ => equals_setAccount stable addr _

theorem equals_incrNonce (addr : Uint160) : Immune inv faults (incrNonce · addr) :=
  (equals_getOrNewAccount stable spared addr).bind fun _ => equals_setAccount stable addr _

theorem equals_updateID (addr : Uint160) (id : Bytes) (version : UInt8) :
    Immune inv faults (updateID · addr id version) :=
  (equals_getOrNewAccount stable spared addr).bind fun _ => equals_setAccount stable addr _

theorem equals_payNKN (payer payee : Uint160) (amount : Int64) : Immune inv faults (payNKN · payer payee amount) :=
  (equals_updateBalance stable spared _ _ _ _).bind fun _ => equals_updateBalance stable spared _ _ _ _

omit spared in
theorem equals_keepAsset (enc : Option Bytes) : Equals inv
      (if enc.getD [] = [] then pure none
      else do
        let asset ← Proc.lift (Asset.deserialize (enc.getD []))
        update (storeAsset assetID asset)
        pure (some asset))
      (if enc.getD [] = [] then pure none
      else do
        let asset ← Proc.lift (Asset.deserialize (enc.getD []))
        update (storeAsset assetID asset)
        pure (some asset)) := by
  split_ifs
  · exact Proc.matches_pure none
  · refine (Proc.matches_lift _).bind fun asset => bind ?_ fun _ => Proc.matches_pure _
    exact equals_update fun _ holds => stable.memory holds rfl rfl rfl rfl

omit spared in
theorem equals_setAsset (spared : faults.SparesAsset assetID) (asset : Asset) :
    Immune inv faults (setAsset · assetID asset) := by
  have read : Immune inv faults (readAsset · assetID) := (equals_tryGet stable spared).bind (equals_keepAsset stable assetID)
  refine (read.recover (Proc.matches_pure none)).bind fun found => ?_
  exact (Proc.matches_lift _).bind fun _ => equals_update fun _ holds => stable.memory holds rfl rfl rfl rfl

omit spared in
theorem tracks_getAsset : Survives inv faults (getAsset · assetID) := by
  refine (Proc.matches_gets _).follows.bind fun cached => ?_
  cases cached with
  | some _ => exact (Proc.matches_pure _).follows
  | none => exact (tracks_tryGet stable _).bind fun enc => (equals_keepAsset stable assetID enc).follows

omit spared in
theorem tracks_increaseTotalSupply (amount : Int64) : Survives inv faults (increaseTotalSupply · assetID amount) := by
  refine (tracks_getAsset stable assetID).bind fun found => follows ?_
  cases found with
  | none => exact Proc.matches_lift _
  | some _ =>
    refine (Proc.matches_lift _).bind fun _ => ?_
    exact equals_update fun _ holds => stable.memory holds rfl rfl rfl rfl

end

namespace Schedule

variable {schedule : Schedule} (stable : Stable inv) (keeps : ∀ sets sdb, inv sdb → inv (schedule.set sets sdb))
include stable keeps

theorem tracks_getCleanup (height : UInt32) : Survives inv faults (schedule.getCleanup · height) :=
  tracks_getRecord stable fun _ _ holds => keeps _ _ holds

theorem tracks_cleanupAtHeight (height : UInt32) (id : Bytes) :
    Survives inv faults (schedule.cleanupAtHeight · height id) :=
  (tracks_getCleanup stable keeps height).bind fun _ => (equals_update fun _ holds => keeps _ _ holds).follows

theorem tracks_cancelCleanupAtHeight (height : UInt32) (id : Bytes) :
    Survives inv faults (schedule.cancelCleanupAtHeight · height id) :=
  (tracks_getCleanup stable keeps height).bind fun _ => (equals_update fun _ holds => keeps _ _ holds).follows

theorem tracks_cleanup {mark : StateDB → Bytes → StateDB} (marks : ∀ sdb id, inv sdb → inv (mark sdb id))
    (height : UInt32) : Survives inv faults (schedule.cleanup · mark height) := by
  refine (tracks_getCleanup stable keeps height).bind fun ids => bind ?_ fun _ => ?_
  · refine (equals_update fun sdb holds => ?_).follows
    induction ids.keys generalizing sdb with
    | nil => exact holds
    | cons id _ ih => exact ih (mark sdb id) (marks sdb id holds)
  · exact (equals_update fun _ holds => keeps _ _ holds).follows

end Schedule

section

variable (stable : Stable inv)
include stable

theorem keeps_nanoPaySchedule (sets : GoMap UInt32 (Option Cleanup)) (sdb : StateDB) (holds : inv sdb) :
    inv (nanoPaySchedule.set sets sdb) :=
  stable.memory holds rfl rfl rfl rfl

theorem keeps_pubSubSchedule (sets : GoMap UInt32 (Option Cleanup)) (sdb : StateDB) (holds : inv sdb) :
    inv (pubSubSchedule.set sets sdb) :=
  stable.memory holds rfl rfl rfl rfl

theorem keeps_storeNanoPay (id : Bytes) (np : Option NanoPay) (sdb : StateDB) (holds : inv sdb) :
    inv (storeNanoPay id np sdb) :=
  stable.memory holds rfl rfl rfl rfl

theorem keeps_storePubSub (id : Bytes) (ps : Option PubSub) (sdb : StateDB) (holds : inv sdb) :
    inv (storePubSub id ps sdb) :=
  stable.memory holds rfl rfl rfl rfl

theorem tracks_getNanoPay (sender recipient : Uint160) (nonce : UInt64) :
    Survives inv faults (getNanoPay · sender recipient nonce) :=
  tracks_getRecord stable fun _ _ holds => stable.memory holds rfl rfl rfl rfl

theorem tracks_setNanoPay (sender recipient : Uint160) (nonce : UInt64) (balance : Int64) (expiresAt : UInt32) :
    Survives inv faults (setNanoPay · sender recipient nonce balance expiresAt) := by
  have schedules := keeps_nanoPaySchedule stable
  refine (Proc.matches_gets _).follows.bind fun found => ?_
  cases found with
  | some _ =>
    refine (Schedule.tracks_cancelCleanupAtHeight stable schedules _ _).bind fun _ => ?_
    refine (Schedule.tracks_cleanupAtHeight stable schedules _ _).bind fun _ => ?_
    exact (equals_update (keeps_storeNanoPay stable _ _)).follows
  | none =>
    refine (equals_update (keeps_storeNanoPay stable _ _)).follows.bind fun _ => ?_
    exact Schedule.tracks_cleanupAtHeight stable schedules _ _

theorem tracks_cleanupNanoPay (height : UInt32) : Survives inv faults (cleanupNanoPay · height) :=
  Schedule.tracks_cleanup stable (keeps_nanoPaySchedule stable)
    (fun sdb id => keeps_storeNanoPay stable id none sdb) height

theorem tracks_getPubSub (id : Bytes) : Survives inv faults (getPubSub · id) :=
  tracks_getRecord stable fun _ _ holds => stable.memory holds rfl rfl rfl rfl

theorem tracks_subscribe (topic : Bytes) (bucket : UInt32) (subscriber identifier metadata : Bytes)
    (expiresAt : UInt32) :
    Survives inv faults (subscribe · env topic bucket subscriber identifier metadata expiresAt) := by
  have schedules := keeps_pubSubSchedule stable
  refine (tracks_getPubSub stable _).bind fun ps => ?_
  refine (Schedule.tracks_cancelCleanupAtHeight stable schedules _ _).when.bind fun _ => ?_
  refine (Schedule.tracks_cleanupAtHeight stable schedules _ _).bind fun _ => ?_
  exact (equals_update (keeps_storePubSub stable _ _)).follows

theorem tracks_unsubscribe (topic subscriber identifier : Bytes) :
    Survives inv faults (unsubscribe · env topic subscriber identifier) := by
  refine (tracks_getPubSub stable _).bind fun ps => when ?_
  refine (Schedule.tracks_cancelCleanupAtHeight stable (keeps_pubSubSchedule stable) _ _).bind fun _ => ?_
  exact (equals_update (keeps_storePubSub stable _ _)).follows

theorem tracks_cleanupPubSub (height : UInt32) : Survives inv faults (cleanupPubSub · height) :=
  Schedule.tracks_cleanup stable (keeps_pubSubSchedule stable)
    (fun sdb id => keeps_storePubSub stable id none sdb) height

def OfTrie (inv : StateDB → Prop) : Prop := ∀ ⦃sdb sdb' : StateDB⦄, inv sdb → sdb'.trie = sdb.trie → inv sdb'

omit stable in
theorem OfTrie.keeps_storeName (ofTrie : OfTrie inv) (key : Bytes) (entry : Option NameEntry) (sdb : StateDB)
    (holds : inv sdb) : inv (storeName key entry sdb) :=
  ofTrie holds rfl

omit stable in
theorem OfTrie.keeps_namesSchedule (ofTrie : OfTrie inv) (sets : GoMap UInt32 (Option Cleanup)) (sdb : StateDB)
    (holds : inv sdb) : inv (namesSchedule.set sets sdb) :=
  ofTrie holds rfl

variable (ofTrie : OfTrie inv)
include ofTrie

theorem tracks_getNameInfo (nameId : Bytes) : Survives inv faults (getNameInfo · nameId) :=
  tracks_getRecord stable fun _ _ holds => ofTrie holds rfl

theorem tracks_registerName (name registrant : Bytes) (expiresAt : UInt32) :
    Survives inv faults (registerName · env name registrant expiresAt) := by
  have schedules := ofTrie.keeps_namesSchedule
  refine (tracks_getNameInfo stable ofTrie _).bind fun ni => ?_
  refine (Schedule.tracks_cancelCleanupAtHeight stable schedules _ _).when.bind fun _ => ?_
  refine (equals_update (ofTrie.keeps_storeName _ _)).follows.bind fun _ => ?_
  exact Schedule.tracks_cleanupAtHeight stable schedules _ _

theorem tracks_transferName (name recipient : Bytes) : Survives inv faults (transferName · env name recipient) :=
  (tracks_getNameInfo stable ofTrie _).bind fun _ => (equals_update (ofTrie.keeps_storeName _ _)).follows

theorem tracks_deleteName (name : Bytes) : Survives inv faults (deleteName · env name) := by
  refine (tracks_getNameInfo stable ofTrie _).bind fun ni => when ?_
  refine (Schedule.tracks_cancelCleanupAtHeight stable ofTrie.keeps_namesSchedule _ _).bind fun _ => ?_
  exact (equals_update (ofTrie.keeps_storeName _ _)).follows

theorem tracks_cleanupNames (height : UInt32) : Survives inv faults (cleanupNames · height) :=
  Schedule.tracks_cleanup stable ofTrie.keeps_namesSchedule (fun sdb id => ofTrie.keeps_storeName id none sdb) height

end

def touchesNames : Pb.Message → Bool
  | .registerName _ | .transferName _ | .deleteName _ => true
  | _ => false

abbrev BlockTracks (inv : StateDB → Prop) (x y : BlockExec α) : Prop := Proc.Follows (fun m => inv m.states) x y

abbrev BlockSurvives (inv : StateDB → Prop) (faults : Faults) (x : Faults → BlockExec α) : Prop :=
  BlockTracks inv (x faults) (x .none)

theorem blockTracks_onStates {x y : Exec α} (tracks : Tracks inv x y) : BlockTracks inv (onStates x) (onStates y) :=
  tracks.zoom (fun _ holds => holds) fun _ _ _ holds => holds

theorem Tracks.reached {x : Exec α} {s s' : Session} {value : α} (tracks : Tracks inv x x) (holds : inv s.sdb)
    (run : x s = (.ok value, s')) : inv s'.sdb := by
  have kept := Proc.Follows.reached tracks holds run
  exact kept

theorem BlockTracks.reached {x : BlockExec α} {m m' : Machine} {value : α} (tracks : BlockTracks inv x x)
    (holds : inv m.states) (run : x m = (.ok value, m')) : inv m'.states := by
  have kept := Proc.Follows.reached tracks holds run
  exact kept

theorem onStates_eq_ok {x : Exec α} {m m' : Machine} {value : α} (run : onStates x m = (.ok value, m')) :
    ∃ s, x ⟨m.states, m.calls⟩ = (.ok value, s) ∧ m'.states = s.sdb := by
  obtain ⟨s, ran, rfl⟩ := Proc.zoom_eq_ok.mp run
  exact ⟨s, ran, rfl⟩

theorem stable_true : Stable fun _ => True := ⟨fun _ _ => trivial, fun _ _ _ _ _ => trivial⟩

theorem blockTracks_getDonation (spared : faults.SparesAccounts) (cs : Store.ChainStore) :
    BlockSurvives inv faults (getDonation · config cs) := by
  unfold getDonation
  split_ifs
  · have balance := (equals_getBalance stable_true spared nknAssetID donationAddress).follows
    refine bind ?_ fun _ => (Proc.matches_pure _).follows
    exact balance.zoom (fun _ _ => trivial) fun _ _ holds _ => holds
  · exact (Proc.matches_lift _).follows.bind fun _ => (Proc.matches_pure _).follows

section

variable (stable : Stable inv) (spared : faults.SparesAccounts)
include stable spared

theorem blockTracks_spendCoinbase (cs : Store.ChainStore) (coinbase : Pb.Coinbase) (totalFee : Int64) (genesis : Bool)
    (height : UInt32) : BlockSurvives inv faults (spendCoinbase · config cs coinbase totalFee genesis height) := by
  have paid (addr : Uint160) (value : Int64) (op : Store.StateDB.Operation) :=
    blockTracks_onStates (equals_updateBalance stable spared addr nknAssetID value op).follows
  refine bind ?_ fun _ => (paid _ _ _).bind fun _ => ?_
  · exact ((blockTracks_getDonation spared cs).bind fun _ => paid _ _ _).when
  · exact (blockTracks_onStates (tracks_increaseTotalSupply stable _ _)).when

theorem tracks_spendNanoPay (sender : Uint160) (nanoPay : Pb.NanoPay) :
    Survives inv faults (spendNanoPay · sender nanoPay) := by
  refine (tracks_getNanoPay stable _ _ _).bind fun channel => ?_
  exact (equals_payNKN stable spared _ _ _).follows.bind fun _ => tracks_setNanoPay stable _ _ _ _ _

theorem tracks_spendMessage (txn : Transaction) (sender : Uint160) (height : UInt32) {message : Pb.Message}
    (names : OfTrie inv ∨ touchesNames message = false)
    (issued : ∀ issue, message = .issueAsset issue → faults.SparesAsset (Transaction.hash env txn)) :
    Survives inv faults (spendMessage · env config txn sender height message) := by
  have paid (payer payee : Uint160) (amount : Int64) := (equals_payNKN stable spared payer payee amount).follows
  have balance (addr : Uint160) (assetID : Uint256) (value : Int64) (op : Store.StateDB.Operation) :=
    (equals_updateBalance stable spared addr assetID value op).follows
  have ofTrie (touches : touchesNames message = true) : OfTrie inv := names.resolve_right (by simp [touches])
  cases message with
  | coinbase coinbase | sigChainTxn payload => exact (Proc.matches_pure ()).follows
  | transferAsset _ => exact paid _ _ _
  | registerName _ =>
    refine (paid _ _ _).bind fun _ => ?_
    split_ifs
    · refine follows ?_
      exact equals_update fun _ holds => ofTrie rfl holds rfl
    · exact tracks_registerName stable (ofTrie rfl) _ _ _
  | transferName _ => exact tracks_transferName stable (ofTrie rfl) _ _
  | deleteName _ =>
    simp only [spendMessage]
    split_ifs
    · refine follows ?_
      exact equals_update fun _ holds => ofTrie rfl holds rfl
    · exact tracks_deleteName stable (ofTrie rfl) _
  | subscribe _ => exact tracks_subscribe stable _ _ _ _ _ _
  | unsubscribe _ => exact tracks_unsubscribe stable _ _ _
  | generateID _ =>
    refine (balance _ _ _ _).bind fun _ => ?_
    exact (equals_updateID stable spared _ _ _).follows.bind fun _ => balance _ _ _ _
  | nanoPay _ => exact tracks_spendNanoPay stable spared _ _
  | issueAsset _ => exact (equals_setAsset stable _ (issued _ rfl) _).follows.bind fun _ => balance _ _ _ _

theorem blockTracks_spendTransaction (cs : Store.ChainStore) (totalFee : Int64) (genesis : Bool) (height : UInt32)
    {txn : Transaction}
    (names : ∀ message, unpack env txn.unsignedTx.payload = .ok message → OfTrie inv ∨ touchesNames message = false)
    (issued : ∀ issue, unpack env txn.unsignedTx.payload = .ok (.issueAsset issue) →
      faults.SparesAsset (Transaction.hash env txn)) :
    BlockSurvives inv faults (spendTransaction · env config cs totalFee genesis height txn) := by
  refine lift_bind fun message unpacked => ?_
  refine (Proc.matches_lift _).follows.bind fun pg => (Proc.matches_lift _).follows.bind fun sender => ?_
  refine (blockTracks_onStates (equals_updateBalance stable spared _ _ _ _).follows).when.bind fun _ => ?_
  refine (blockTracks_onStates (equals_incrNonce stable spared _).follows).when.bind fun _ => ?_
  have spent : BlockTracks inv (onStates (spendMessage faults env config txn sender height message))
      (onStates (spendMessage .none env config txn sender height message)) :=
    blockTracks_onStates (tracks_spendMessage stable spared txn sender height (names message unpacked)
      fun issue same => issued issue (same ▸ unpacked))
  cases message with
  | coinbase coinbase => exact blockTracks_spendCoinbase stable spared cs coinbase totalFee genesis height
  | _ => exact spent

theorem tracks_initGenesis (nkn : faults.SparesAsset nknAssetID) (gas : faults.SparesAsset gasAssetID)
    (header : Pb.UnsignedHeader) : Survives inv faults (initGenesis · env header) := by
  refine (equals_updateID stable spared _ _ _).follows.bind fun _ => ?_
  refine (equals_setAsset stable _ nkn _).follows.bind fun _ => ?_
  refine (equals_updateBalance stable spared _ _ _ _).follows.bind fun _ => ?_
  exact (equals_setAsset stable _ gas _).follows

theorem tracks_generateIDs (cs : Store.ChainStore) (header : Pb.UnsignedHeader) :
    Survives inv faults (generateIDs · env cs header) := by
  refine ((Proc.matches_lift _).follows.bind fun prevBlock => forEach _ fun txn _ => ?_).when
  refine ((Proc.matches_lift _).follows.bind fun beacon => (Proc.matches_lift _).follows.bind fun message => ?_).when
  cases message with
  | generateID _ => exact (equals_updateID stable spared _ _ _).follows
  | _ => exact (Proc.matches_lift _).follows

omit spared in
theorem blockTracks_cleanups (ofTrie : OfTrie inv) (height : UInt32) : BlockTracks inv
      (do
        onStates (cleanupNanoPay faults height)
        onStates (cleanupPubSub faults height)
        onStates (cleanupNames faults height))
      (do
        onStates (cleanupNanoPay .none height)
        onStates (cleanupPubSub .none height)
        onStates (cleanupNames .none height)) :=
  (blockTracks_onStates (tracks_cleanupNanoPay stable height)).bind fun _ =>
    (blockTracks_onStates (tracks_cleanupPubSub stable height)).bind fun _ =>
      blockTracks_onStates (tracks_cleanupNames stable ofTrie height)

end

section

variable (stable : Stable inv) {b : Block} (spared : faults.Spares env b)
include stable spared

theorem blockTracks_spendBlock (ofTrie : OfTrie inv) (cs : Store.ChainStore) :
    BlockSurvives inv faults (spendBlock · env config cs b) := by
  have spent (totalFee : Int64) (genesis : Bool) (txn : Transaction) (member : txn ∈ b.transactions) :
      BlockSurvives inv faults (spendTransaction · env config cs totalFee genesis b.height txn) :=
    blockTracks_spendTransaction stable spared.accounts cs totalFee genesis b.height (fun _ _ => .inl ofTrie)
      (spared.issued txn member)
  unfold spendBlock
  dsimp only
  split_ifs
  · cases txns : b.transactions with
    | nil => exact (Proc.matches_lift _).follows
    | cons _ _ =>
      rw [txns] at spent
      refine (spent _ _ _ List.mem_cons_self).bind fun _ => forEach _ fun txn member => ?_
      exact spent _ _ txn (List.mem_cons_of_mem _ member)
  · refine (forEach _ fun txn member => spent _ _ txn member).bind fun _ => ?_
    exact blockTracks_cleanups stable ofTrie b.height

theorem blockTracks_executeBlock (ofTrie : OfTrie inv) (cs : Store.ChainStore) :
    BlockSurvives inv faults (executeBlock · env config cs b) := by
  refine bind ?_ fun _ => ?_
  · by_cases genesis : b.height = 0
    · obtain ⟨nkn, gas⟩ := spared.genesis genesis
      exact (blockTracks_onStates (tracks_initGenesis stable spared.accounts nkn gas _)).when
    · simp only [Proc.when, genesis, if_false]
      exact (Proc.matches_pure ()).follows
  · refine (blockTracks_onStates (tracks_generateIDs stable spared.accounts _ _)).bind fun _ => ?_
    exact blockTracks_spendBlock stable spared ofTrie cs

end

abbrev Interrupted (x y : Exec α) : Prop := Tracks (fun _ => True) x y

theorem interrupted_onTrie {access : Trie.Access} (tolerant : Trie.Tolerant call) :
    Interrupted (onTrie faults access call) (onTrie .none access call) :=
  fun s _ => (onTrie_follows tolerant s).imp_right fun same => ⟨same, trivial⟩

theorem interrupted_tryUpdate (key value : Bytes) : Interrupted (tryUpdate faults key value) (tryUpdate .none key value) :=
  interrupted_onTrie (Trie.tolerant_tryUpdate key value)

theorem interrupted_tryDelete (key : Bytes) : Interrupted (tryDelete faults key) (tryDelete .none key) :=
  interrupted_onTrie (Trie.tolerant_tryDelete key)

theorem interrupted_update (change : StateDB → StateDB) : Interrupted (update change) (update change) :=
  follows (Proc.matches_modify fun _ _ => trivial)

theorem interrupted_flushEntry (key : Bytes) (value : Option Bytes) (commit : Bool) (forget : StateDB → StateDB) :
    Interrupted (flushEntry faults key value commit forget) (flushEntry .none key value commit forget) := by
  refine bind ?_ fun _ => (interrupted_update forget).when
  cases value with
  | some enc => exact interrupted_tryUpdate key enc
  | none => exact (interrupted_tryDelete key).bind fun _ => interrupted_update forget

variable {order : Enumeration}

theorem interrupted_finalizeSchedule (schedule : Schedule) (commit : Bool) :
    Interrupted (schedule.finalize faults order commit) (schedule.finalize .none order commit) :=
  (Proc.matches_gets _).follows.bind fun _ => forEach _ fun _ _ => interrupted_flushEntry _ _ _ _

theorem interrupted_deleteNameLegacy (registrantId : Bytes) :
    Interrupted (deleteNameLegacy faults env registrantId) (deleteNameLegacy .none env registrantId) := by
  refine (tracks_tryGet stable_true _).bind fun name => ?_
  refine (interrupted_tryDelete _).bind fun _ => (interrupted_tryDelete _).bind fun _ => ?_
  exact interrupted_update _

theorem interrupted_finalizeNameLegacy (commit : Bool) (registrantId : Bytes) (entry : Option NameEntry) :
    Interrupted (finalizeNameLegacy faults env commit registrantId entry)
      (finalizeNameLegacy .none env commit registrantId entry) := by
  refine bind ?_ fun _ => (interrupted_update _).when
  match entry with
  | some (.name (first :: rest)) =>
    refine (Proc.matches_gets _).follows.bind fun found => ?_
    cases found with
    | none => exact (Proc.matches_pure ()).follows
    | some _ =>
      refine bind ?_ fun _ => (interrupted_update _).when
      exact (interrupted_tryUpdate _ _).bind fun _ => interrupted_tryUpdate _ _
  | some (.name []) | some (.info ni) | none => exact interrupted_deleteNameLegacy registrantId

theorem interrupted_flush (legacy commit : Bool) :
    Interrupted (flush faults env order legacy commit) (flush .none env order legacy commit) := by
  have turn (key : Bytes) (value : Option Bytes) (forget : StateDB → StateDB) :
      Interrupted (flushEntry faults key value commit forget) (flushEntry .none key value commit forget) :=
    interrupted_flushEntry key value commit forget
  have schedule (schedule : Schedule) :
      Interrupted (schedule.finalize faults order commit) (schedule.finalize .none order commit) :=
    interrupted_finalizeSchedule schedule commit
  have loop {β : Type} (entries : List β) {body body' : β → Exec Unit}
      (each : ∀ entry, Interrupted (body entry) (body' entry)) :
      Interrupted (Proc.forEach entries body) (Proc.forEach entries body') :=
    forEach entries fun entry _ => each entry
  refine ((Proc.matches_gets _).follows.bind fun _ => loop _ fun _ => turn _ _ _).bind fun _ => ?_
  refine bind ?_ fun _ => bind ?_ fun _ => bind ?_ fun _ => ?_
  · exact (Proc.matches_gets _).follows.bind fun _ => (loop _ fun _ => turn _ _ _).bind fun _ => schedule _
  · unfold finalizeNames
    split_ifs
    · exact (Proc.matches_gets _).follows.bind fun _ => loop _ fun _ => interrupted_finalizeNameLegacy _ _ _
    · exact (Proc.matches_gets _).follows.bind fun _ => (loop _ fun _ => turn _ _ _).bind fun _ => schedule _
  · exact (Proc.matches_gets _).follows.bind fun _ => (loop _ fun _ => turn _ _ _).bind fun _ => schedule _
  · refine (Proc.matches_gets _).follows.bind fun _ => loop _ fun _ => ?_
    exact (interrupted_tryUpdate _ _).when.bind fun _ => (interrupted_update _).when

theorem interrupted_finalize (legacy commit : Bool) :
    Interrupted (finalize faults env order legacy commit) (finalize .none env order legacy commit) :=
  (interrupted_flush legacy commit).bind fun _ _ _ => .inr ⟨rfl, trivial⟩

theorem newStateDB_follows (nodes : Trie.Database) (root : Uint256) :
    Follows (newStateDB faults nodes root) (newStateDB .none nodes root) := by
  unfold newStateDB Trie.new
  split_ifs
  · simp only [bind_assoc, ok_bind]
    exact (Trie.Node.resolveHash_follows (below_view _ _ _ _) _).bind fun _ => .refl _
  · exact .refl _

end Nkn.Disk
