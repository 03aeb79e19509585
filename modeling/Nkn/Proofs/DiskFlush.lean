import Nkn.Proofs.DiskFaults
import Nkn.Proofs.TrieRun

/-! # Writing a state to its trie

What `Finalize` writes does not depend on the order of the maps: keys are sorted, every loop writes each key at most once,
and the trie is determined by its content. -/

namespace Nkn

open Go Outcome List Proc

namespace Word

variable {n : Nat}

theorem compareBytes_ne_gt {xs ys : Bytes} (lengths : xs.length = ys.length) : compareBytes xs ys ≠ .gt ↔ xs ≤ ys := by
  induction xs generalizing ys with
  | nil =>
    obtain rfl := length_eq_zero_iff.mp lengths.symm
    simp [compareBytes]
  | cons x _ ih =>
    cases ys with
    | nil => simp at lengths
    | cons y _ =>
      have tails := ih (Nat.succ.inj lengths)
      rw [compareBytes, cons_le_cons_iff]
      split_ifs with greater less
      · simp only [ne_eq, not_true_eq_false, false_iff, not_or]
        refine ⟨fun less => ?_, fun same => ?_⟩
        · exact UInt8.lt_irrefl x (UInt8.lt_trans less greater)
        · exact UInt8.lt_irrefl y (same.1 ▸ greater)
      · simp [less]
      · have same : x = y := by
          rw [UInt8.lt_iff_toNat_lt] at greater less
          rw [← UInt8.toNat_inj]
          omega
        rw [tails]
        simp [same]

theorem compareTo_ne_gt {word other : Word n} : word.compareTo other ≠ .gt ↔ word.toArray ≤ other.toArray :=
  compareBytes_ne_gt (by simp)

end Word

namespace Store

theorem sortIDs_perm {ids ids' : List Uint256} (perm : ids.Perm ids') : sortIDs ids = sortIDs ids' := by
  have : Std.Total fun a b : Uint256 => a.compareTo b ≠ .gt :=
    ⟨fun a b => by simpa only [Word.compareTo_ne_gt] using List.le_total a.toArray b.toArray⟩
  have : IsTrans Uint256 fun a b => a.compareTo b ≠ .gt :=
    ⟨fun a b c => by simpa only [Word.compareTo_ne_gt] using List.le_trans⟩
  have : Std.Antisymm fun a b : Uint256 => a.compareTo b ≠ .gt :=
    ⟨fun a b => by simpa only [Word.compareTo_ne_gt, ← Word.toArray_inj] using List.le_antisymm⟩
  refine List.Perm.eq_of_pairwise' (pairwise_insertionSort _ _) (pairwise_insertionSort _ _) ?_
  exact (perm_insertionSort _ _).trans (perm.trans (perm_insertionSort _ _).symm)

theorem sortStrings_perm {ids ids' : List Bytes} (perm : ids.Perm ids') :
    Cleanup.sortStrings ids = Cleanup.sortStrings ids' :=
  List.Perm.eq_of_pairwise' (pairwise_insertionSort _ _) (pairwise_insertionSort _ _)
    ((perm_insertionSort _ _).trans (perm.trans (perm_insertionSort _ _).symm))

theorem Account.serialize_perm (acc : Account) {ids ids' : List Uint256} (perm : ids.Perm ids') :
    acc.serialize ids = acc.serialize ids' := by
  rw [serialize, serialize, sortIDs_perm perm, perm.length_eq]

theorem Cleanup.serialize_perm {ids ids' : List Bytes} (perm : ids.Perm ids') :
    Cleanup.serialize ids = Cleanup.serialize ids' := by
  rw [serialize, serialize, sortStrings_perm perm, perm.length_eq]

theorem varUint_ne_nil (value : Nat) : varUint value ≠ [] := by
  unfold varUint
  split_ifs <;> simp

theorem Account.serialize_ne_nil (acc : Account) (ids : List Uint256) : acc.serialize ids ≠ [] := by
  simp [serialize, varUint_ne_nil]

theorem Cleanup.serialize_ne_nil (ids : List Bytes) : Cleanup.serialize ids ≠ [] := by
  simp [serialize, varUint_ne_nil]

theorem NanoPay.serialize_ne_nil (np : NanoPay) : np.serialize ≠ [] := by
  simp [serialize, writeUint32, littleEndian]

theorem NameInfo.bytes_ne_nil (ni : NameInfo) : ni.bytes ≠ [] := by
  simp [bytes, writeUint32, littleEndian]

theorem PubSub.serialize_ne_nil (ps : PubSub) : ps.serialize ≠ [] := by
  simp [serialize, writeUint32, littleEndian]

theorem Asset.serialize_ne_nil (ia : Asset) : ia.serialize ≠ [] := by
  simp [serialize, writeUint32, littleEndian]

end Store

namespace Disk

open Store

variable {env : Env} {m : Trie.Map} {order : Enumeration} {s : Session}

theorem tryGet_reads (reads : s.sdb.trie.Reads env m) (key : Bytes) :
    ∃ root, tryGet .none key s = (.ok (m key), ⟨{ s.sdb with trie := { s.sdb.trie with root } }, s.calls + 1⟩) ∧
      Trie.Reads env { s.sdb.trie with root } m := by
  obtain ⟨root, got, reads⟩ := reads.tryGet key
  exact ⟨root, by simp only [tryGet, onTrie, view_none, got], reads⟩

theorem tryUpdate_reads (reads : s.sdb.trie.Reads env m) (key value : Bytes) :
    ∃ root, tryUpdate .none key value s = (.ok (), ⟨{ s.sdb with trie := { s.sdb.trie with root } }, s.calls + 1⟩) ∧
      Trie.Reads env { s.sdb.trie with root } (Function.update m key (some value)) := by
  obtain ⟨root, updated, reads⟩ := reads.tryUpdate key value
  exact ⟨root, by simp only [tryUpdate, onTrie, view_none, updated, Except.map], reads⟩

theorem tryDelete_reads (reads : s.sdb.trie.Reads env m) (key : Bytes) :
    ∃ root, tryDelete .none key s = (.ok (), ⟨{ s.sdb with trie := { s.sdb.trie with root } }, s.calls + 1⟩) ∧
      Trie.Reads env { s.sdb.trie with root } (Function.update m key none) := by
  obtain ⟨root, deleted, reads⟩ := reads.tryDelete key
  exact ⟨root, by simp only [tryDelete, onTrie, view_none, deleted, Except.map], reads⟩

theorem stable_reads : Stable fun sdb => sdb.trie.Reads env m where
  lookup reads found := by
    obtain ⟨_, got, reads⟩ := reads.tryGet _
    obtain ⟨-, rfl⟩ := Prod.mk.inj (ok_unique found got)
    exact reads
  memory reads same _ _ _ := by rwa [same]

theorem ofTrie_reads : OfTrie fun sdb => sdb.trie.Reads env m := fun _ _ reads same => by simpa only [same] using reads

theorem newStateDB_none (nodes : Trie.Database) (root : Uint256) :
    newStateDB .none nodes root = (Trie.new root nodes).map fun t => { trie := t } := by
  unfold newStateDB Trie.new
  rw [view_none]
  split_ifs
  · cases Trie.Node.resolveHash nodes root.toArray <;> rfl
  · rfl

theorem reads_newStateDB {nodes : Trie.Database} {root : Uint256} (committed : Trie.Committed env nodes root m)
    {states : StateDB} (opened : newStateDB .none nodes root = .ok states) : states.trie.Reads env m := by
  rw [newStateDB_none] at opened
  cases found : Trie.new root nodes with
  | error _ => rw [found] at opened; cases opened
  | ok _ =>
    rw [found] at opened
    obtain rfl := Except.ok.inj opened
    exact committed.reads found

/-- What a part of `Finalize` reaches: the trie holds `m`, and in memory only what `forget` removes is changed. -/
structure Flushed {ι : Type} (env : Env) (forget : ι → StateDB → StateDB) (s : Session) (m : Trie.Map) (s' : Session) :
    Prop where
  reads : s'.sdb.trie.Reads env m
  same : ∀ {β : Type} (view : StateDB → β), (∀ sdb t, view { sdb with trie := t } = view sdb) →
    (∀ i sdb, view (forget i sdb) = view sdb) → view s'.sdb = view s.sdb

section

variable {ι : Type} {forget : ι → StateDB → StateDB} (keeps : ∀ i sdb, (forget i sdb).trie = sdb.trie)
include keeps

theorem flushEntry_flushed (i : ι) (key : Bytes) {value : Option Bytes} (commit : Bool)
    (reads : s.sdb.trie.Reads env m) :
    ∃ s', flushEntry .none key value commit (forget i) s = (.ok (), s') ∧
      Flushed env forget s (Function.update m key value) s' := by
  -- the entry is written to the trie, and forgotten or not
  have written : ∃ s', writeEntry .none key (forget i) value s = (.ok (), s') ∧
      Flushed env forget s (Function.update m key value) s' := by
    cases value with
    | some enc =>
      obtain ⟨root, updated, reads⟩ := tryUpdate_reads reads key enc
      exact ⟨_, updated, reads, fun view blind _ => blind _ _⟩
    | none =>
      obtain ⟨_, deleted, reads⟩ := tryDelete_reads reads key
      refine ⟨_, bind_of_ok deleted, ?_, fun view blind unseen => (unseen i _).trans (blind _ _)⟩
      exact (keeps i _).symm ▸ reads
  obtain ⟨s', ran, flushed⟩ := written
  rw [flushEntry, bind_of_ok ran]
  cases commit with
  | false => exact ⟨s', rfl, flushed⟩
  | true =>
    refine ⟨_, rfl, ?_, fun view blind unseen => (unseen i _).trans (flushed.same view blind unseen)⟩
    exact (keeps i _).symm ▸ flushed.reads

theorem forEach_flushed (entries : List ι) (key : ι → Bytes) (value : ι → Option Bytes) (commit : Bool)
    (reads : s.sdb.trie.Reads env m) :
    ∃ s', forEach entries (fun i => flushEntry .none (key i) (value i) commit (forget i)) s = (.ok (), s') ∧
      Flushed env forget s (writeAll m (entries.map fun i => (key i, value i))) s' := by
  induction entries generalizing s m with
  | nil => exact ⟨s, rfl, reads, fun _ _ _ => rfl⟩
  | cons i _ ih =>
    obtain ⟨_, turned, first⟩ := flushEntry_flushed keeps i (key i) commit reads
    obtain ⟨s', ran, second⟩ := ih first.reads
    refine ⟨s', (bind_of_ok turned).trans ran, second.reads, fun view blind unseen => ?_⟩
    exact (second.same view blind unseen).trans (first.same view blind unseen)

end

/-- How the entries of a map in memory are written: the key and the value in the trie, and how an entry is forgotten. -/
structure Writer (K V : Type) where
  key : K → Bytes
  value : V → Option Bytes
  forget : K → StateDB → StateDB
  injective : Function.Injective key
  nonempty : ∀ v enc, value v = some enc → enc ≠ []
  keeps : ∀ k sdb, (forget k sdb).trie = sdb.trie

namespace Writer

variable {K V : Type} (writer : Writer K V)

def entries (map : GoMap K V) : List (Bytes × Option Bytes) :=
  map.entries.map fun entry => (writer.key entry.1, writer.value entry.2)

theorem consistent (map : GoMap K V) :
    ∀ entry ∈ writer.entries map, ∀ entry' ∈ writer.entries map, entry.1 = entry'.1 → entry = entry' := by
  intro entry member entry' member' same
  obtain ⟨⟨k, _⟩, inside, rfl⟩ := mem_map.mp member
  obtain ⟨⟨k', _⟩, inside', rfl⟩ := mem_map.mp member'
  obtain rfl : k = k' := writer.injective same
  obtain rfl := map.nodupKeys.eq_of_mk_mem inside inside'
  rfl

theorem range_flushed (place : Bytes) (map : GoMap K V) (ordered : K → V → Option Bytes)
    (same : ∀ k v, ordered k v = writer.value v) (commit : Bool) (reads : s.sdb.trie.Reads env m) :
    ∃ s', forEach (order.range place map) (fun entry =>
        flushEntry .none (writer.key entry.1) (ordered entry.1 entry.2) commit (writer.forget entry.1)) s = (.ok (), s') ∧
      Flushed env writer.forget s (writeAll m (writer.entries map)) s' := by
  obtain ⟨s', ran, flushed⟩ := forEach_flushed (fun entry : Sigma fun _ : K => V => writer.keeps entry.1)
    (order.range place map) (fun entry => writer.key entry.1) (fun entry => writer.value entry.2) commit
    reads
  have enumerated : writeAll m (writer.entries map) =
      writeAll m ((order.range place map).map fun entry => (writer.key entry.1, writer.value entry.2)) :=
    writeAll_perm ((order.perm place map).map _).symm (writer.consistent map)
  refine ⟨s', ?_, enumerated ▸ flushed.reads, fun view blind unseen => flushed.same view blind fun entry => unseen entry.1⟩
  simpa only [same] using ran

end Writer

def accountWriter : Writer Uint160 Account where
  key addr := accountPrefix ++ addr.toArray
  value acc := if acc.isEmpty then none else some (acc.serialize acc.balances.keys)
  forget addr sdb := { sdb with accounts := sdb.accounts.delete addr }
  injective _ _ same := Word.toArray_inj.mp (List.append_cancel_left same)
  nonempty acc enc written := by
    split_ifs at written
    exact Option.some.inj written ▸ acc.serialize_ne_nil _
  keeps _ _ := rfl

def nanoPayWriter : Writer Bytes (Option NanoPay) where
  key id := nanoPayPrefix ++ id
  value np := np.bind fun np => np.encode.map NanoPay.serialize
  forget id sdb := { sdb with nanoPay := sdb.nanoPay.delete id }
  injective _ _ := List.append_cancel_left
  nonempty np enc written := by
    obtain ⟨np, -, written⟩ := Option.bind_eq_some_iff.mp written
    obtain ⟨np', -, rfl⟩ := Option.map_eq_some_iff.mp written
    exact np'.serialize_ne_nil
  keeps _ _ := rfl

def pubSubWriter : Writer Bytes (Option PubSub) where
  key id := pubSubPrefix ++ id
  value ps := ps.bind fun ps => ps.encode.map PubSub.serialize
  forget id sdb := { sdb with pubSub := sdb.pubSub.delete id }
  injective _ _ := List.append_cancel_left
  nonempty ps enc written := by
    obtain ⟨ps, -, written⟩ := Option.bind_eq_some_iff.mp written
    obtain ⟨ps', -, rfl⟩ := Option.map_eq_some_iff.mp written
    exact ps'.serialize_ne_nil
  keeps _ _ := rfl

def nameWriter : Writer Bytes (Option NameEntry) where
  key nameId := namePrefix ++ nameId
  value := NameEntry.encode
  forget nameId sdb := { sdb with names := sdb.names.delete nameId }
  injective _ _ := List.append_cancel_left
  nonempty entry enc written := by
    match entry with
    | some (.info ni) =>
      obtain ⟨ni', -, rfl⟩ := Option.map_eq_some_iff.mp written
      exact ni'.bytes_ne_nil
  keeps _ _ := rfl

def cleanupWriter (schedule : Schedule) (keeps : ∀ sets sdb, (schedule.set sets sdb).trie = sdb.trie) :
    Writer UInt32 (Option Cleanup) where
  key height := schedule.keyPrefix ++ writeUint32 height
  value set := set.bind fun ids => ids.encode.map fun ids => Cleanup.serialize ids.keys
  forget height sdb := schedule.set ((schedule.get sdb).delete height) sdb
  injective _ _ same := selfDelimiting_writeUint32.injOn trivial trivial (List.append_cancel_left same)
  nonempty set enc written := by
    obtain ⟨ids, -, written⟩ := Option.bind_eq_some_iff.mp written
    obtain ⟨ids', -, rfl⟩ := Option.map_eq_some_iff.mp written
    exact Cleanup.serialize_ne_nil _
  keeps _ _ := keeps _ _

theorem perm_enumerated {K V : Type} (place : Bytes) (map : GoMap K V) : (enumerated order place map).Perm map.keys :=
  (order.perm place map).map Sigma.fst

/-- A part of `Finalize` returns and writes entries that are determined by what is in memory before it. -/
def Writes {ι : Type} (env : Env) (x : Exec Unit) (entries : StateDB → List (Bytes × Option Bytes))
    (forget : ι → StateDB → StateDB) : Prop :=
  ∀ s m, s.sdb.trie.Reads env m → ∃ s', x s = (.ok (), s') ∧ Flushed env forget s (writeAll m (entries s.sdb)) s'

theorem Writes.bind {ι κ : Type} {x y : Exec Unit} {first second : StateDB → List (Bytes × Option Bytes)}
    {forget : ι → StateDB → StateDB} {forget' : κ → StateDB → StateDB} (writes : Writes env x first forget)
    (writes' : Writes env y second forget') (blind : ∀ sdb t, second { sdb with trie := t } = second sdb)
    (unseen : ∀ i sdb, second (forget i sdb) = second sdb) :
    Writes env (x >>= fun _ => y) (fun sdb => first sdb ++ second sdb) (Sum.elim forget forget') := by
  intro s m reads
  obtain ⟨between, ran, flushed⟩ := writes s m reads
  obtain ⟨s', ran', flushed'⟩ := writes' between _ flushed.reads
  refine ⟨s', (bind_of_ok ran).trans ran', ?_, fun view blind unseen => ?_⟩
  · rw [writeAll_append, ← flushed.same second blind unseen]
    exact flushed'.reads
  · rw [flushed'.same view blind fun i => unseen (.inr i), flushed.same view blind fun i => unseen (.inl i)]

theorem writes_finalizeAccounts (env : Env) (order : Enumeration) (commit : Bool) :
    Writes env (finalizeAccounts .none order commit) (fun sdb => accountWriter.entries sdb.accounts)
      accountWriter.forget := by
  intro s m reads
  let ordered (addr : Uint160) (acc : Account) : Option Bytes :=
    if acc.isEmpty then none
    else some (acc.serialize (enumerated order (accountPrefix ++ addr.toArray) acc.balances))
  refine accountWriter.range_flushed accountPrefix s.sdb.accounts ordered (fun addr acc => ?_) commit reads
  simp only [ordered, accountWriter, acc.serialize_perm (perm_enumerated _ _)]

theorem writes_finalizeSchedule (schedule : Schedule) (keeps : ∀ sets sdb, (schedule.set sets sdb).trie = sdb.trie)
    (commit : Bool) :
    Writes env (schedule.finalize .none order commit)
      (fun sdb => (cleanupWriter schedule keeps).entries (schedule.get sdb)) (cleanupWriter schedule keeps).forget := by
  intro s m reads
  let ordered (height : UInt32) (set : Option Cleanup) : Option Bytes :=
    set.bind fun ids => ids.encode.map fun ids =>
      Cleanup.serialize (enumerated order (schedule.keyPrefix ++ writeUint32 height) ids)
  refine (cleanupWriter schedule keeps).range_flushed schedule.keyPrefix (schedule.get s.sdb) ordered
    (fun height set => ?_) commit reads
  simp only [ordered, cleanupWriter, Cleanup.serialize_perm (perm_enumerated _ _)]

theorem Writer.writes_range {K V : Type} (writer : Writer K V) (place : Bytes) (get : StateDB → GoMap K V)
    (commit : Bool) :
    Writes env
      (gets (fun s => get s.sdb) >>= fun map => forEach (order.range place map) fun entry =>
        flushEntry .none (writer.key entry.1) (writer.value entry.2) commit (writer.forget entry.1))
      (fun sdb => writer.entries (get sdb)) writer.forget :=
  fun s _ reads => writer.range_flushed place (get s.sdb) (fun _ v => writer.value v) (fun _ _ => rfl) commit reads

def nanoPayCleanupWriter : Writer UInt32 (Option Cleanup) := cleanupWriter nanoPaySchedule fun _ _ => rfl

def namesCleanupWriter : Writer UInt32 (Option Cleanup) := cleanupWriter namesSchedule fun _ _ => rfl

def pubSubCleanupWriter : Writer UInt32 (Option Cleanup) := cleanupWriter pubSubSchedule fun _ _ => rfl

theorem writes_finalizeNanoPay (env : Env) (order : Enumeration) (commit : Bool) :
    Writes env (finalizeNanoPay .none order commit)
      (fun sdb => nanoPayWriter.entries sdb.nanoPay ++ nanoPayCleanupWriter.entries sdb.nanoPayCleanup)
      (Sum.elim nanoPayWriter.forget nanoPayCleanupWriter.forget) :=
  (nanoPayWriter.writes_range nanoPayPrefix StateDB.nanoPay commit).bind
    (writes_finalizeSchedule nanoPaySchedule _ commit) (fun _ _ => rfl) fun _ _ => rfl

theorem writes_finalizePubSub (env : Env) (order : Enumeration) (commit : Bool) :
    Writes env (finalizePubSub .none order commit)
      (fun sdb => pubSubWriter.entries sdb.pubSub ++ pubSubCleanupWriter.entries sdb.pubSubCleanup)
      (Sum.elim pubSubWriter.forget pubSubCleanupWriter.forget) :=
  (pubSubWriter.writes_range pubSubPrefix StateDB.pubSub commit).bind
    (writes_finalizeSchedule pubSubSchedule _ commit) (fun _ _ => rfl) fun _ _ => rfl

theorem writes_finalizeCurrentNames (env : Env) (order : Enumeration) (commit : Bool) :
    Writes env (finalizeCurrentNames .none order commit)
      (fun sdb => nameWriter.entries sdb.names ++ namesCleanupWriter.entries sdb.namesCleanup)
      (Sum.elim nameWriter.forget namesCleanupWriter.forget) :=
  (nameWriter.writes_range namePrefix StateDB.names commit).bind
    (writes_finalizeSchedule namesSchedule _ commit) (fun _ _ => rfl) fun _ _ => rfl

def forgetAsset (assetID : Uint256) (sdb : StateDB) : StateDB := { sdb with assets := sdb.assets.delete assetID }

def writtenAsset (entry : Sigma fun _ : Uint256 => Asset) : Option (Bytes × Option Bytes) :=
  if entry.2.isEmpty then none else some (issueAssetPrefix ++ entry.1.toArray, some entry.2.serialize)

theorem asset_flushed (entry : Sigma fun _ : Uint256 => Asset) (commit : Bool) (reads : s.sdb.trie.Reads env m) :
    ∃ s', (do
        when (entry.2.isEmpty = false)
          (tryUpdate .none (issueAssetPrefix ++ entry.1.toArray) entry.2.serialize)
        when (entry.2.isEmpty = true ∨ commit = true) (update (forgetAsset entry.1)) : Exec Unit) s = (.ok (), s') ∧
      Flushed env forgetAsset s (writeAll m (writtenAsset entry).toList) s' := by
  cases empty : entry.2.isEmpty with
  | true =>
    have unwritten : writeAll m (writtenAsset entry).toList = m := by simp [writtenAsset, empty, writeAll]
    rw [unwritten]
    exact ⟨⟨forgetAsset entry.1 s.sdb, s.calls⟩, rfl, reads, fun view _ unseen => unseen entry.1 s.sdb⟩
  | false =>
    obtain ⟨_, updated, reads⟩ :=
      tryUpdate_reads reads (issueAssetPrefix ++ entry.1.toArray) entry.2.serialize
    have written : writeAll m (writtenAsset entry).toList =
        Function.update m (issueAssetPrefix ++ entry.1.toArray) (some entry.2.serialize) := by
      simp [writtenAsset, empty, writeAll]
    rw [written]
    cases commit with
    | false => exact ⟨_, bind_of_ok updated, reads, fun view blind _ => blind _ _⟩
    | true => exact ⟨_, bind_of_ok updated, reads, fun view blind unseen => (unseen entry.1 _).trans (blind _ _)⟩

theorem assets_flushed (entries : List (Sigma fun _ : Uint256 => Asset)) (commit : Bool)
    (reads : s.sdb.trie.Reads env m) :
    ∃ s', forEach entries (fun entry => (do
        when (entry.2.isEmpty = false)
          (tryUpdate .none (issueAssetPrefix ++ entry.1.toArray) entry.2.serialize)
        when (entry.2.isEmpty = true ∨ commit = true) (update (forgetAsset entry.1)) : Exec Unit)) s = (.ok (), s') ∧
      Flushed env forgetAsset s (writeAll m (entries.flatMap fun entry => (writtenAsset entry).toList)) s' := by
  induction entries generalizing s m with
  | nil => exact ⟨s, rfl, reads, fun _ _ _ => rfl⟩
  | cons entry _ ih =>
    obtain ⟨_, turned, first⟩ := asset_flushed entry commit reads
    obtain ⟨s', ran, second⟩ := ih first.reads
    refine ⟨s', (bind_of_ok turned).trans ran, ?_, fun view blind unseen => ?_⟩
    · rw [flatMap_cons, writeAll_append]
      exact second.reads
    · exact (second.same view blind unseen).trans (first.same view blind unseen)

def assetEntries (assets : GoMap Uint256 Asset) : List (Bytes × Option Bytes) :=
  assets.entries.flatMap fun entry => (writtenAsset entry).toList

theorem consistent_assets (assets : GoMap Uint256 Asset) :
    ∀ entry ∈ assetEntries assets, ∀ entry' ∈ assetEntries assets, entry.1 = entry'.1 → entry = entry' := by
  intro entry member entry' member' same
  obtain ⟨⟨assetID, _⟩, inside, written⟩ := mem_flatMap.mp member
  obtain ⟨⟨assetID', _⟩, inside', written'⟩ := mem_flatMap.mp member'
  simp only [writtenAsset, Option.mem_toList, Option.ite_none_left_eq_some, Option.some.injEq] at written written'
  obtain ⟨-, rfl⟩ := written
  obtain ⟨-, rfl⟩ := written'
  obtain rfl : assetID = assetID' := Word.toArray_inj.mp (append_cancel_left same)
  obtain rfl := assets.nodupKeys.eq_of_mk_mem inside inside'
  rfl

theorem writes_finalizeIssueAsset (env : Env) (order : Enumeration) (commit : Bool) :
    Writes env (finalizeIssueAsset .none order commit) (fun sdb => assetEntries sdb.assets) forgetAsset := by
  intro s m reads
  obtain ⟨s', ran, flushed⟩ := assets_flushed (order.range issueAssetPrefix s.sdb.assets) commit reads
  have enumerated : writeAll m (assetEntries s.sdb.assets) =
      writeAll m ((order.range issueAssetPrefix s.sdb.assets).flatMap fun entry => (writtenAsset entry).toList) :=
    writeAll_perm ((order.perm issueAssetPrefix s.sdb.assets).flatMap_right _).symm (consistent_assets _)
  exact ⟨s', ran, enumerated ▸ flushed.reads, flushed.same⟩

def written (sdb : StateDB) : List (Bytes × Option Bytes) :=
  accountWriter.entries sdb.accounts ++
    ((nanoPayWriter.entries sdb.nanoPay ++ nanoPayCleanupWriter.entries sdb.nanoPayCleanup) ++
      ((nameWriter.entries sdb.names ++ namesCleanupWriter.entries sdb.namesCleanup) ++
        ((pubSubWriter.entries sdb.pubSub ++ pubSubCleanupWriter.entries sdb.pubSubCleanup) ++ assetEntries sdb.assets)))

theorem flush_reads (commit : Bool) (reads : s.sdb.trie.Reads env m) :
    ∃ s', flush .none env order false commit s = (.ok (), s') ∧ s'.sdb.trie.Reads env (writeAll m (written s.sdb)) := by
  have subscriptions := (writes_finalizePubSub env order commit).bind (writes_finalizeIssueAsset env order commit)
    (fun _ _ => rfl) (by rintro (_ | _) _ <;> rfl)
  have names := (writes_finalizeCurrentNames env order commit).bind subscriptions
    (fun _ _ => rfl) (by rintro (_ | _) _ <;> rfl)
  have channels := (writes_finalizeNanoPay env order commit).bind names (fun _ _ => rfl) (by rintro (_ | _) _ <;> rfl)
  obtain ⟨s', ran, flushed⟩ :=
    (writes_finalizeAccounts env order commit).bind channels (fun _ _ => rfl) (fun _ _ => rfl) s m reads
  exact ⟨s', ran, flushed.reads⟩

def Settles (env : Env) (legacy : Bool) (s : Session) (m : Trie.Map) : Prop := ∀ order commit,
  ∃ s', flush .none env order legacy commit s = (.ok (), s') ∧ s'.sdb.trie.Reads env m

theorem settles_current (reads : s.sdb.trie.Reads env m) : Settles env false s (writeAll m (written s.sdb)) :=
  fun _ commit => flush_reads commit reads

section

open Trie

variable {legacy : Bool} (settles : Settles env legacy s m) (order : Enumeration)
include settles

theorem Settles.committed : ∃ tree s', contents tree = m ∧
    finalize .none env order legacy true s = (.ok (commitRoot env tree), s') ∧
    s'.sdb.trie.Holds env (fun _ => True) tree := by
  obtain ⟨between, flushed, reads⟩ := settles order true
  obtain ⟨tree, t', contents, committed, holds⟩ := reads.commitTo
  refine ⟨tree, { between with sdb := { between.sdb with trie := t' } }, contents, ?_, holds⟩
  rw [finalize, bind_of_ok flushed]
  simp [rootOf, committed]

theorem Settles.previewed (nonempty : m ≠ fun _ => none) : ∃ tree s', Proper tree ∧ contents tree = m ∧ tree ≠ .nil ∧
    finalize .none env order legacy false s = (.ok (rootHash env tree), s') := by
  obtain ⟨between, flushed, reads⟩ := settles order false
  obtain ⟨tree, t', proper, contents, present, hashed, -⟩ := reads.hash nonempty
  refine ⟨tree, { between with sdb := { between.sdb with trie := t' } }, proper, contents, present, ?_⟩
  rw [finalize, bind_of_ok flushed]
  simp [rootOf, hashed]

omit settles in
theorem Settles.not_previewed (settles : Settles env legacy s fun _ => none) {root : Uint256} {s' : Session} :
    finalize .none env order legacy false s ≠ (.ok root, s') := by
  obtain ⟨_, flushed, reads⟩ := settles order false
  rw [finalize, bind_of_ok flushed]
  simp [rootOf, reads.hash_empty, crash]

end

end Disk

end Nkn
