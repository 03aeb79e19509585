import Nkn.Soundness.Encodings
import Nkn.Soundness.StateTrie

/-! # Queries and the root of the state

A query keeps the record that it reads in memory, and `Finalize` writes it back, as it was read or as the deletion of an
absent entry. -/

namespace Nkn

open Go Store Cleanup Proc Proc.Keeps

namespace Store

theorem keys_perm {K V : Type} [DecidableEq K] {map map' : GoMap K V} (same : ∀ k, map.load k = map'.load k) :
    map.keys.Perm map'.keys := by
  refine (List.perm_ext_iff_of_nodup map.keys_nodup map'.keys_nodup).mpr fun k => ?_
  exact (AList.lookup_isSome.symm.trans (Eq.congr_left (congrArg Option.isSome (same k)))).trans AList.lookup_isSome

theorem Account.Same.serialize_eq {acc acc' : Account} (same : acc.Same acc') :
    acc'.serialize acc'.balances.keys = acc.serialize acc.balances.keys := by
  have balance (assetID : Uint256) : acc'.getBalance assetID = acc.getBalance assetID := by
    simp only [getBalance, GoMap.read, same.balances]
  have id : acc'.encodedID = acc.encodedID := by simp only [encodedID, same.id, same.idVersion]
  rw [acc'.serialize_perm (keys_perm same.balances)]
  simp only [serialize, same.nonce, balance, id]

theorem written_again {ids ids' : Cleanup} (perm : ids'.keys.Perm ids.keys) (nonempty : ids.keys ≠ []) :
    (Cleanup.encode ids').map (fun ids => serialize ids.keys) = some (serialize ids.keys) := by
  have entries : ids'.entries.isEmpty = false := by
    rw [List.isEmpty_eq_false_iff]
    exact fun empty => nonempty (by simpa [AList.keys, empty] using perm)
  simp [Cleanup.encode, entries, serialize_perm perm]

end Store

namespace Disk

variable {env : Env} {m : Trie.Map}

/-- A committed state holds encodings of records that are not empty, with the lengths of Go slices. -/
structure Recorded (m : Trie.Map) : Prop where
  accounts : ∀ (addr : Uint160) enc, m (accountPrefix ++ addr.toArray) = some enc →
    ∃ acc : Account, acc.IdOk ∧ acc.balances.keys.length < 2 ^ 63 ∧ acc.serialize acc.balances.keys = enc
  nanoPay : ∀ id enc, m (nanoPayPrefix ++ id) = some enc → ∃ np : NanoPay, np ≠ .empty ∧ np.serialize = enc
  names : ∀ nameId enc, m (namePrefix ++ nameId) = some enc →
    ∃ ni : NameInfo, ni.registrant.length < 2 ^ 64 ∧ ni ≠ .empty ∧ ni.bytes = enc
  pubSub : ∀ id enc, m (pubSubPrefix ++ id) = some enc → ∃ ps : PubSub, ps.subscriber.length < 2 ^ 64 ∧
    ps.identifier.length < 2 ^ 64 ∧ ps.metadata.length < 2 ^ 64 ∧ ps ≠ .empty ∧ ps.serialize = enc
  cleanups : ∀ keyPrefix ∈ [nanoPayCleanupPrefix, nameCleanupPrefix, pubSubCleanupPrefix], ∀ height enc,
    m (keyPrefix ++ writeUint32 height) = some enc → ∃ ids : Cleanup, ids.keys.length < 2 ^ 64 ∧
      (∀ id ∈ ids.keys, id.length < 2 ^ 64) ∧ ids.keys ≠ [] ∧ Cleanup.serialize ids.keys = enc
  assets : ∀ (assetID : Uint256) enc, m (issueAssetPrefix ++ assetID.toArray) = some enc →
    ∃ ia : Asset, ia.name.length < 2 ^ 64 ∧ ia.symbol.length < 2 ^ 64 ∧ ia.serialize = enc

namespace Writer

variable {K V : Type} [DecidableEq K] {writer : Writer K V} {map : GoMap K V}

/-- Writing the map back changes nothing. -/
def Agrees (writer : Writer K V) (m : Trie.Map) (map : GoMap K V) : Prop :=
  ∀ k v, map.load k = some v → m (writer.key k) = writer.value v

theorem Agrees.store (agrees : writer.Agrees m map) {k : K} {v : V} (same : m (writer.key k) = writer.value v) :
    writer.Agrees m (map.store k v) := by
  intro k' v' found
  rw [GoMap.load_store] at found
  split_ifs at found with equal
  · rw [equal, same, Option.some.inj found]
  · exact agrees k' v' found

theorem Agrees.entries (agrees : writer.Agrees m map) {entry : Bytes × Option Bytes} (member : entry ∈ writer.entries map) :
    m entry.1 = entry.2 := by
  obtain ⟨⟨k, v⟩, inside, rfl⟩ := List.mem_map.mp member
  exact agrees k v (GoMap.mem_entries.mp inside)

end Writer

/-- What is in memory is what the trie holds. -/
structure Clean (m : Trie.Map) (sdb : StateDB) : Prop where
  accounts : accountWriter.Agrees m sdb.accounts
  nanoPay : nanoPayWriter.Agrees m sdb.nanoPay
  nanoPayCleanup : nanoPayCleanupWriter.Agrees m sdb.nanoPayCleanup
  names : nameWriter.Agrees m sdb.names
  namesCleanup : namesCleanupWriter.Agrees m sdb.namesCleanup
  pubSub : pubSubWriter.Agrees m sdb.pubSub
  pubSubCleanup : pubSubCleanupWriter.Agrees m sdb.pubSubCleanup
  assets : ∀ assetID asset, sdb.assets.load assetID = some asset → asset.isEmpty = false →
    m (issueAssetPrefix ++ assetID.toArray) = some asset.serialize

theorem Clean.written {sdb : StateDB} (clean : Clean m sdb) : writeAll m (written sdb) = m := by
  refine writeAll_eq_self fun entry member => ?_
  simp only [Disk.written, List.mem_append] at member
  rcases member with member | (member | member) | (member | member) | (member | member) | member
  · exact clean.accounts.entries member
  · exact clean.nanoPay.entries member
  · exact clean.nanoPayCleanup.entries member
  · exact clean.names.entries member
  · exact clean.namesCleanup.entries member
  · exact clean.pubSub.entries member
  · exact clean.pubSubCleanup.entries member
  · obtain ⟨⟨assetID, asset⟩, inside, member⟩ := List.mem_flatMap.mp member
    unfold writtenAsset at member
    split_ifs at member with empty
    · simp at member
    · obtain rfl := List.mem_singleton.mp member
      exact clean.assets assetID asset (GoMap.mem_entries.mp inside) (by simpa using empty)

structure Unchanged (env : Env) (m : Trie.Map) (s : Session) : Prop where
  reads : s.sdb.trie.Reads env m
  clean : Clean m s.sdb

theorem keeps_tryGet {α : Type} {get : Exec (Option Bytes)} {next : Option Bytes → Exec α} {key : Bytes}
    (gets : ∀ {s answer s'}, tryGet .none key s = (.ok answer, s') → get s = (.ok answer, s'))
    (rest : Proc.Keeps (Unchanged env m) (next (m key))) : Proc.Keeps (Unchanged env m) (get >>= next) := by
  rintro s ⟨reads, clean⟩
  obtain ⟨_, got, reads⟩ := tryGet_reads reads key
  rw [bind_of_ok (gets got)]
  exact rest _ ⟨reads, { clean with }⟩

theorem keeps_getRecord {K V W : Type} (writer : Writer K W) (k : K) (wrap : V → W) {cached : StateDB → Option V}
    {label : String} {deserialize : Bytes → Outcome V} {empty : V} {keep : V → StateDB → StateDB}
    (absent : writer.value (wrap empty) = none)
    (again : ∀ enc, m (writer.key k) = some enc → ∃ record, deserialize enc = .ok record ∧ writer.value (wrap record) = some enc)
    (kept : ∀ record sdb, m (writer.key k) = writer.value (wrap record) → Clean m sdb →
      Clean m (keep record sdb) ∧ (keep record sdb).trie = sdb.trie) :
    Proc.Keeps (Unchanged env m) (getRecord .none cached label (writer.key k) deserialize empty keep) := by
  refine (keeps_gets _).bind fun found => ?_
  cases found with
  | some record => exact keeps_pure record
  | none =>
    refine keeps_tryGet (labelled_of_ok label) (lift_bind fun record ok => ?_)
    have same : m (writer.key k) = writer.value (wrap record) := by
      cases found : m (writer.key k) with
      | none =>
        rw [found] at ok
        rw [← absent, Except.ok.inj ok]
      | some enc =>
        obtain ⟨_, read, written⟩ := again enc found
        rw [found, Option.getD_some, decoded, if_neg (writer.nonempty _ _ written), read] at ok
        rw [← written, Except.ok.inj ok]
    refine bind (keeps_modify fun s unchanged => ?_) fun _ => keeps_pure record
    obtain ⟨clean, trie⟩ := kept record s.sdb same unchanged.clean
    exact ⟨trie ▸ unchanged.reads, clean⟩

theorem keeps_getAccount (recorded : Recorded m) (addr : Uint160) : Proc.Keeps (Unchanged env m) (getAccount .none addr) := by
  refine (keeps_gets _).bind fun found => ?_
  cases found with
  | some acc => exact keeps_pure acc
  | none =>
    refine keeps_tryGet (labelled_of_ok _) ?_
    cases found : m (accountPrefix ++ addr.toArray) with
    | none => exact keeps_lift _
    | some enc =>
      obtain ⟨acc, idOk, few, rfl⟩ := recorded.accounts addr enc found
      have short := idOk.encodedID_length
      have read := (Account.readsBack few (by omega)).alone (acc.flatten_pieces _)
      have same := (acc.same_readBack idOk (.refl _)).serialize_eq
      have nonempty : (acc.readBack acc.balances.keys).isEmpty = false := by
        simp [Account.isEmpty, Account.readBack, Account.stored]
      rw [Option.getD_some, if_neg (acc.serialize_ne_nil _), Account.deserialize, read]
      refine lift_bind fun data ok => ?_
      obtain rfl := Except.ok.inj ok
      refine bind (keeps_modify fun s unchanged => ?_) fun _ => keeps_pure _
      refine ⟨unchanged.reads, { unchanged.clean with accounts := unchanged.clean.accounts.store ?_ }⟩
      exact found.trans (by simp [accountWriter, nonempty, same])

theorem keeps_getAsset (recorded : Recorded m) (assetID : Uint256) :
    Proc.Keeps (Unchanged env m) (getAsset .none assetID) := by
  refine (keeps_gets _).bind fun found => ?_
  cases found with
  | some _ => exact keeps_pure _
  | none =>
    refine keeps_tryGet id ?_
    cases found : m (issueAssetPrefix ++ assetID.toArray) with
    | none => exact keeps_pure _
    | some enc =>
      obtain ⟨asset, name, symbol, rfl⟩ := recorded.assets assetID enc found
      have read : Asset.read asset.serialize = _ :=
        (Asset.readsBack name symbol).alone (by simp [Asset.serialize, Asset.pieces])
      rw [Option.getD_some, if_neg asset.serialize_ne_nil, Asset.deserialize, read]
      refine lift_bind fun data ok => ?_
      obtain rfl := Except.ok.inj ok
      refine bind (keeps_modify fun s unchanged => ?_) fun _ => keeps_pure _
      refine ⟨unchanged.reads, { unchanged.clean with assets := fun other asset' stored nonempty => ?_ }⟩
      rw [storeAsset, GoMap.load_store] at stored
      split_ifs at stored with same
      · obtain rfl := Option.some.inj stored
        rw [same]
        exact found
      · exact unchanged.clean.assets other asset' stored nonempty

theorem keeps_getCleanup (recorded : Recorded m) {schedule : Schedule}
    (listed : schedule.keyPrefix ∈ [nanoPayCleanupPrefix, nameCleanupPrefix, pubSubCleanupPrefix])
    (keeps : ∀ sets sdb, (schedule.set sets sdb).trie = sdb.trie)
    (kept : ∀ height ids sdb, m ((cleanupWriter schedule keeps).key height) = (cleanupWriter schedule keeps).value (some ids) →
      Clean m sdb → Clean m (schedule.store height (some ids) sdb)) (height : UInt32) :
    Proc.Keeps (Unchanged env m) (schedule.getCleanup .none height) := by
  refine keeps_getRecord (cleanupWriter schedule keeps) height some rfl (fun enc found => ?_)
    fun ids sdb same clean => ⟨kept height ids sdb same clean, keeps _ _⟩
  obtain ⟨ids, few, sized, nonempty, rfl⟩ := recorded.cleanups _ listed height enc found
  have read := (readsBack few sized).alone (flatten_pieces ids.keys)
  refine ⟨_, by rw [Cleanup.deserialize, read]; rfl, ?_⟩
  exact written_again (keys_perm (load_listed_keys (.refl ids.keys))) nonempty

theorem keeps_getNanoPayById (recorded : Recorded m) (id : Bytes) :
    Proc.Keeps (Unchanged env m) (getNanoPayById .none id) := by
  refine keeps_getRecord nanoPayWriter id some rfl (fun enc found => ?_) fun np sdb same clean => ⟨?_, rfl⟩
  · obtain ⟨np, nonempty, rfl⟩ := recorded.nanoPay id enc found
    have read : NanoPay.read np.serialize = _ := np.readsBack.alone (by simp [NanoPay.serialize])
    exact ⟨np, by rw [NanoPay.deserialize, read]; rfl, by simp [nanoPayWriter, NanoPay.encode, nonempty]⟩
  · exact { clean with nanoPay := clean.nanoPay.store same }

theorem keeps_getPubSub (recorded : Recorded m) (id : Bytes) : Proc.Keeps (Unchanged env m) (getPubSub .none id) := by
  refine keeps_getRecord pubSubWriter id some rfl (fun enc found => ?_) fun ps sdb same clean => ⟨?_, rfl⟩
  · obtain ⟨ps, subscriber, identifier, metadata, nonempty, rfl⟩ := recorded.pubSub id enc found
    have read : PubSub.read ps.serialize = _ :=
      (PubSub.readsBack subscriber identifier metadata).alone (by simp [PubSub.serialize, PubSub.pieces])
    exact ⟨ps, by rw [PubSub.deserialize, read]; rfl, by simp [pubSubWriter, PubSub.encode, nonempty]⟩
  · exact { clean with pubSub := clean.pubSub.store same }

theorem keeps_getNameInfo (recorded : Recorded m) (nameId : Bytes) :
    Proc.Keeps (Unchanged env m) (getNameInfo .none nameId) := by
  refine keeps_getRecord nameWriter nameId (fun ni => some (.info ni)) rfl (fun enc found => ?_)
    fun ni sdb same clean => ⟨?_, rfl⟩
  · obtain ⟨ni, registrant, nonempty, rfl⟩ := recorded.names nameId enc found
    have read : NameInfo.read ni.bytes = _ :=
      (NameInfo.readsBack registrant).alone (by simp [NameInfo.bytes, NameInfo.pieces])
    exact ⟨ni, by rw [NameInfo.deserialize, read]; rfl, by simp [nameWriter, NameEntry.encode, NameInfo.encode, nonempty]⟩
  · exact { clean with names := clean.names.store same }

/-- A query, by the record that it reads: `GetBalance`, `GetNonce` and `GetID` read an account, `isSubscribed` and
`getSubscription` a subscription, `getRegistrant` a name. -/
inductive Query where
  | account (addr : Uint160)
  | nanoPay (sender recipient : Uint160) (nonce : UInt64)
  | subscription (topic : Bytes) (bucket : UInt32) (subscriber identifier : Bytes)
  | registrant (name : Bytes)
  | asset (assetID : Uint256)
  | nanoPayCleanup (height : UInt32)
  | namesCleanup (height : UInt32)
  | pubSubCleanup (height : UInt32)

/-- The state after a query, whatever it returns. -/
def Query.run (env : Env) (s : Session) : Query → Session
  | account addr => (getAccount .none addr s).2
  | nanoPay sender recipient nonce => (getNanoPay .none sender recipient nonce s).2
  | subscription topic bucket subscriber identifier =>
    (getPubSub .none (Store.StateDB.getPubSubId env topic bucket subscriber identifier) s).2
  | registrant name => (getNameInfo .none (Store.StateDB.getNameId env name) s).2
  | asset assetID => (getAsset .none assetID s).2
  | nanoPayCleanup height => (nanoPaySchedule.getCleanup .none height s).2
  | namesCleanup height => (namesSchedule.getCleanup .none height s).2
  | pubSubCleanup height => (pubSubSchedule.getCleanup .none height s).2

theorem Unchanged.query (recorded : Recorded m) {s : Session} (unchanged : Unchanged env m s) (query : Query) :
    Unchanged env m (query.run env s) := by
  cases query with
  | account addr => exact keeps_getAccount recorded addr s unchanged
  | asset assetID => exact keeps_getAsset recorded assetID s unchanged
  | nanoPay _ _ _ => exact keeps_getNanoPayById recorded _ s unchanged
  | subscription _ _ _ _ => exact keeps_getPubSub recorded _ s unchanged
  | registrant _ => exact keeps_getNameInfo recorded _ s unchanged
  | nanoPayCleanup height =>
    refine keeps_getCleanup recorded (by decide) (fun _ _ => rfl) (fun height ids sdb same clean => ?_) height s unchanged
    exact { clean with nanoPayCleanup := clean.nanoPayCleanup.store same }
  | namesCleanup height =>
    refine keeps_getCleanup recorded (by decide) (fun _ _ => rfl) (fun height ids sdb same clean => ?_) height s unchanged
    exact { clean with namesCleanup := clean.namesCleanup.store same }
  | pubSubCleanup height =>
    refine keeps_getCleanup recorded (by decide) (fun _ _ => rfl) (fun height ids sdb same clean => ?_) height s unchanged
    exact { clean with pubSubCleanup := clean.pubSubCleanup.store same }

theorem Unchanged.queries (recorded : Recorded m) {s : Session} (unchanged : Unchanged env m s) (queries : List Query) :
    Unchanged env m (queries.foldl (Query.run env) s) := by
  induction queries generalizing s with
  | nil => exact unchanged
  | cons query _ ih => exact ih (unchanged.query recorded query)

theorem commitRoot_of_committed {nodes : Trie.Database} {root : Uint256} {tree : Trie.Tree}
    (committed : Trie.Committed env nodes root m) (proper : Trie.Proper tree) (same : Trie.contents tree = m) :
    Trie.commitRoot env tree = root := by
  cases committed with
  | empty =>
    obtain rfl := proper.eq_nil_iff.mpr same
    rfl
  | trie proper' held =>
    obtain rfl := proper.ext proper' same
    exact Trie.commitRoot_eq (by rintro rfl; exact held.inner)

/-- Whatever is asked of a committed state, `Finalize` afterwards returns its root. -/
theorem queries_keep_root {nodes : Trie.Database} {root : Uint256} (committed : Trie.Committed env nodes root m)
    (recorded : Recorded m) (queries : List Query) (order : Enumeration) :
    ∃ states s', newStateDB .none nodes root = .ok states ∧
      finalize .none env order false true (queries.foldl (Query.run env) ⟨states, 0⟩) = (.ok root, s') := by
  obtain ⟨n, -, opened, -⟩ := committed.new fun _ => True
  have opened : newStateDB .none nodes root = .ok { trie := ⟨n, nodes, []⟩ } := by
    rw [newStateDB_none, opened]
    rfl
  have start : Unchanged env m ⟨{ trie := ⟨n, nodes, []⟩ }, 0⟩ := by
    refine ⟨reads_newStateDB committed opened, ?_⟩
    constructor <;> intro k v found <;> cases found
  have asked := start.queries recorded queries
  obtain ⟨tree, s', contents, finalized, holds⟩ := (settles_current asked.reads).committed order
  rw [asked.clean.written] at contents
  exact ⟨_, s', opened, commitRoot_of_committed committed holds.proper contents ▸ finalized⟩

end Disk

/-! A state with an account and a subscription that is due at height 97. -/

namespace TwoRecords

open Trie Config Disk

def addr : Uint160 := Word.ofNat 20 7

def account : Account := (Account.new.setBalance nknAssetID 500000000).setNonce 3

def due : Cleanup := Cleanup.listed [[97]] ∅

def accountKey : Bytes := accountPrefix ++ addr.toArray

def dueKey : Bytes := pubSubCleanupPrefix ++ writeUint32 97

def accountLeaf : Tree := .short ((keyBytesToHex accountKey).drop 2) (.value (account.serialize account.balances.keys))

def dueLeaf : Tree := .short ((keyBytesToHex dueKey).drop 2) (.value (Cleanup.serialize due.keys))

def branch : Tree := .fork 6 dueLeaf 0 accountLeaf

def tree : Tree := .short [0] branch

def accountHash : Uint256 := Word.ofNat 32 0x7e2f9ca7d0a11d841919d2afbf1255b336ce111759d2cd3f5ee62c989b504181

def branchHash : Uint256 := Word.ofNat 32 0x68e98eec41f1e8b4447c8c344436eb6b79646c52cf826445fd57130701a7a381

def root : Uint256 := Word.ofNat 32 0x06f17ae3096d29d2c796f4161086f499c02d33e1d36935c4d2b205c96bfc7d31

def accountEncoding : Bytes :=
  [2, 21, 32] ++ addr.toArray ++ [1, 43] ++ account.serialize account.balances.keys

def branchEncoding : Bytes :=
  [17, 0, 0, 32] ++ accountHash.toArray ++ [1, 1, 0, 2, 1, 0, 3, 1, 0, 4, 1, 0, 5, 1, 0, 6, 2, 5, 32, 97, 0, 0, 0, 1, 3] ++
    Cleanup.serialize due.keys ++
    [7, 1, 0, 8, 1, 0, 9, 1, 0, 10, 1, 0, 11, 1, 0, 12, 1, 0, 13, 1, 0, 14, 1, 0, 15, 1, 0, 16, 1, 0]

def encoding : Bytes := [2, 1, 16, 0, 32] ++ branchHash.toArray

def env : Env := Tables.env {
  sha256 :=
    Tables.hashedTwice accountEncoding
      (Word.ofNat 32 0x55ce44355fd3e3213d9e530279cabc3bde17241d63d0ba693450ea67a415a71a) accountHash ++
    Tables.hashedTwice branchEncoding
      (Word.ofNat 32 0x1adad05ac9e4f3fb8bf83436a3d03b00ed693016ddaf203ef900af6f644d2aec) branchHash ++
    Tables.hashedTwice encoding
      (Word.ofNat 32 0x7783257716eed6b1d191b7ba3cce3df4e045c982426f5aae375538a87c109ed6) root }

def db : Database := fun key =>
  [(root.toArray, encoding), (branchHash.toArray, branchEncoding), (accountHash.toArray, accountEncoding)].lookup key

theorem inserted : Proper tree ∧ contents tree =
    Function.update (Function.update (fun _ => none) accountKey (some (account.serialize account.balances.keys)))
      dueKey (some (Cleanup.serialize due.keys)) := by
  obtain ⟨proper, first⟩ := proper_nil.insert accountKey (account.serialize account.balances.keys)
  obtain ⟨proper, second⟩ := proper.insert dueKey (Cleanup.serialize due.keys)
  exact ⟨proper, second.trans (by rw [first]; rfl)⟩

theorem hashed : rootHash env tree = root ∧ Has env db (Trie.encode env accountLeaf) ∧ Has env db (Trie.encode env branch) ∧
    Has env db (Trie.encode env tree) := by
  unfold Has
  decide +kernel

theorem forall_branch {p : Tree → Prop} (absent : p .nil) (account : p accountLeaf) (due : p dueLeaf) (i : Nibble) :
    p (Function.update (Function.update (fun _ => (.nil : Tree)) 0 accountLeaf) 6 dueLeaf i) := by
  rw [Function.update_apply, Function.update_apply]
  split_ifs
  exacts [due, account, absent]

theorem readable : Readable tree := by
  refine ⟨⟨[0], by decide, .inl rfl⟩, by decide, forall_branch trivial ?_ ?_⟩
  · exact ⟨⟨((keyBytesToHex accountKey).drop 2).dropLast, by decide, .inr rfl⟩, by decide, by decide, by decide⟩
  · exact ⟨⟨((keyBytesToHex dueKey).drop 2).dropLast, by decide, .inr rfl⟩, by decide, by decide, by decide⟩

theorem committed : Committed env db root (contents tree) := by
  obtain ⟨root_eq, account, branch, top⟩ := hashed
  have kept : Kept env db tree :=
    ⟨fun _ => top, fun _ => branch, forall_branch trivial ⟨fun _ => account, trivial⟩
      ⟨fun large => absurd large (by decide +kernel), trivial⟩⟩
  exact root_eq ▸ Committed.trie inserted.1 ⟨trivial, readable, top, kept⟩ (root_eq ▸ by decide)

theorem recorded : Recorded (contents tree) := by
  rw [inserted.2]
  refine ⟨fun addr' enc found => ?_, ?_, ?_, ?_, List.forall_mem_cons.mpr ⟨?_, List.forall_mem_cons.mpr ⟨?_,
    List.forall_mem_singleton.mpr fun height enc found => ?_⟩⟩, ?_⟩
  · rw [Function.update_of_ne (by simp [dueKey, accountPrefix, pubSubCleanupPrefix]), Function.update_apply] at found
    split_ifs at found with same
    exact ⟨account, .inl ⟨rfl, rfl⟩, by decide, Option.some.inj found⟩
  pick_goal 6
  · rw [Function.update_apply] at found
    split_ifs at found with same
    · exact ⟨due, by decide, by decide, by decide, Option.some.inj found⟩
    · simp [accountKey, accountPrefix, pubSubCleanupPrefix] at found
  all_goals simp [accountKey, dueKey, accountPrefix, nanoPayPrefix, namePrefix, pubSubPrefix, issueAssetPrefix,
    nanoPayCleanupPrefix, nameCleanupPrefix, pubSubCleanupPrefix]

theorem queries_keep_root_twoRecords : ∃ states s', newStateDB .none db root = .ok states ∧
    finalize .none env .stored false true
      ([Query.account addr, .asset (Word.ofNat 32 7), .pubSubCleanup 97].foldl (Query.run env) ⟨states, 0⟩) =
        (.ok root, s') :=
  queries_keep_root committed recorded _ _

end TwoRecords

end Nkn
