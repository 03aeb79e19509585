import Nkn.Proofs.DiskFlush

/-! # Names before the name service change

At legacy heights the map of names holds the name that each registrant gets, and a second map holds the registrant
that each name gets. -/

namespace Nkn.Disk

open Go Outcome Store Proc List

variable {env : Env} {m : Trie.Map} {s : Session}

def NameEntry.spelling : Option NameEntry → Bytes
  | some (.name spelled) => spelled
  | _ => []

abbrev NameItem := Sigma fun _ : Bytes => Option NameEntry

namespace NameItem

variable (item : NameItem)

def Writes : Prop := NameEntry.spelling item.2 ≠ []

instance : Decidable item.Writes := inferInstanceAs (Decidable (_ ≠ _))

/-- The id that an entry is about: that of the name that it writes, or of the name in the trie that it deletes. -/
def nameId (env : Env) (m : Trie.Map) : Bytes :=
  if item.Writes then env.toLower (NameEntry.spelling item.2)
  else env.toLower ((m (nameRegistrantPrefix ++ item.1)).getD [])

def writes (env : Env) (m : Trie.Map) : List (Bytes × Option Bytes) :=
  if item.Writes then
    [(namePrefixLegacy ++ item.nameId env m, some item.1),
      (nameRegistrantPrefix ++ item.1, some (NameEntry.spelling item.2))]
  else [(nameRegistrantPrefix ++ item.1, none), (namePrefixLegacy ++ item.nameId env m, none)]

end NameItem

def forgetLegacy : Bytes ⊕ Bytes → StateDB → StateDB
  | .inl registrantId, sdb => { sdb with names := sdb.names.delete registrantId }
  | .inr nameId, sdb => { sdb with nameRegistrants := sdb.nameRegistrants.delete nameId }

def Registered (env : Env) (sdb : StateDB) (item : NameItem) : Prop := item.Writes →
  sdb.nameRegistrants.load (env.toLower (NameEntry.spelling item.2)) = some (some item.1)

structure Turned (env : Env) (item : NameItem) (s : Session) (m : Trie.Map) (s' : Session) : Prop where
  flushed : Flushed env forgetLegacy s (writeAll m (item.writes env m)) s'
  registrants : ∀ id, id ≠ item.nameId env m → s'.sdb.nameRegistrants.load id = s.sdb.nameRegistrants.load id

theorem updateNameLegacy_reads (registrant name : Bytes) (reads : s.sdb.trie.Reads env m) :
    ∃ t, updateNameLegacy .none env registrant name s = (.ok (), ⟨{ s.sdb with trie := t }, s.calls + 2⟩) ∧
      t.Reads env (writeAll m
        [(namePrefixLegacy ++ env.toLower name, some registrant), (nameRegistrantPrefix ++ registrant, some name)]) := by
  obtain ⟨root, updated, reads⟩ := tryUpdate_reads reads (namePrefixLegacy ++ env.toLower name) registrant
  obtain ⟨_, updated', reads⟩ := tryUpdate_reads
    (s := ⟨{ s.sdb with trie := { s.sdb.trie with root } }, s.calls + 1⟩) reads (nameRegistrantPrefix ++ registrant) name
  exact ⟨_, (bind_of_ok updated).trans updated', reads⟩

theorem deleteNameLegacy_reads (registrantId : Bytes) (reads : s.sdb.trie.Reads env m) :
    ∃ t, deleteNameLegacy .none env registrantId s = (.ok (), ⟨forgetLegacy (.inl registrantId) (forgetLegacy
          (.inr (env.toLower ((m (nameRegistrantPrefix ++ registrantId)).getD []))) { s.sdb with trie := t }), s.calls + 3⟩) ∧
      t.Reads env (writeAll m [(nameRegistrantPrefix ++ registrantId, none),
        (namePrefixLegacy ++ env.toLower ((m (nameRegistrantPrefix ++ registrantId)).getD []), none)]) := by
  obtain ⟨root, got, reads⟩ := tryGet_reads reads (nameRegistrantPrefix ++ registrantId)
  obtain ⟨root, deleted, reads⟩ := tryDelete_reads
    (s := ⟨{ s.sdb with trie := { s.sdb.trie with root } }, s.calls + 1⟩) reads (nameRegistrantPrefix ++ registrantId)
  obtain ⟨root, deleted', reads⟩ := tryDelete_reads
    (s := ⟨{ s.sdb with trie := { s.sdb.trie with root } }, s.calls + 2⟩) reads
    (namePrefixLegacy ++ env.toLower ((m (nameRegistrantPrefix ++ registrantId)).getD []))
  refine ⟨_, ?_, reads⟩
  rw [deleteNameLegacy, bind_of_ok got]
  exact (bind_of_ok deleted).trans (bind_of_ok deleted')

variable {item : NameItem}

theorem NameItem.nameId_of_writes (writes : item.Writes) :
    item.nameId env m = env.toLower (NameEntry.spelling item.2) := if_pos writes

theorem NameItem.nameId_of_deletes (deletes : ¬ item.Writes) :
    item.nameId env m = env.toLower ((m (nameRegistrantPrefix ++ item.1)).getD []) := if_neg deletes

theorem deletes_turned (deletes : ¬ item.Writes) (commit : Bool) (reads : s.sdb.trie.Reads env m) :
    ∃ s', writeNameLegacy .none env commit item.1 item.2 s = (.ok (), s') ∧ Turned env item s m s' := by
  have same : writeNameLegacy .none env commit item.1 item.2 = deleteNameLegacy .none env item.1 := by
    obtain ⟨_, _ | ⟨_ | ⟨first, rest⟩⟩ | _⟩ := item
    · rfl
    · rfl
    · exact absurd (cons_ne_nil first rest) deletes
    · rfl
  rw [same]
  obtain ⟨_, deleted, reads⟩ := deleteNameLegacy_reads item.1 reads
  rw [← NameItem.nameId_of_deletes deletes] at deleted reads
  refine ⟨_, deleted, ⟨by rw [NameItem.writes, if_neg deletes]; exact reads, fun view blind unseen => ?_⟩, fun id other => ?_⟩
  · exact (unseen (.inl _) _).trans ((unseen (.inr _) _).trans (blind _ _))
  · simp [forgetLegacy, other]

theorem writes_turned (writes : item.Writes) (commit : Bool) (registered : Registered env s.sdb item)
    (reads : s.sdb.trie.Reads env m) :
    ∃ s', writeNameLegacy .none env commit item.1 item.2 s = (.ok (), s') ∧ Turned env item s m s' := by
  have registrant := registered writes
  obtain ⟨t, updated, reads⟩ := updateNameLegacy_reads item.1 (NameEntry.spelling item.2) reads
  have same : writeNameLegacy .none env commit item.1 item.2 s = (do
      updateNameLegacy .none env item.1 (NameEntry.spelling item.2)
      when (commit = true) (update (forgetLegacy (.inr (env.toLower (NameEntry.spelling item.2)))))) s := by
    obtain ⟨registrantId, _ | ⟨_ | ⟨first, rest⟩⟩ | _⟩ := item
    · exact absurd rfl writes
    · exact absurd rfl writes
    · have found : (gets fun s : Session => (s.sdb.nameRegistrants.load (env.toLower (first :: rest))).join) s =
          (.ok (some registrantId), s) := by
        rw [gets, show s.sdb.nameRegistrants.load (env.toLower (first :: rest)) = _ from registrant]
        rfl
      exact bind_of_ok found
    · exact absurd rfl writes
  rw [same, bind_of_ok updated]
  have reads : t.Reads env (writeAll m (item.writes env m)) := by
    rw [NameItem.writes, if_pos writes, NameItem.nameId_of_writes writes]
    exact reads
  cases commit with
  | false => exact ⟨_, rfl, ⟨reads, fun view blind _ => blind _ _⟩, fun _ _ => rfl⟩
  | true =>
    refine ⟨_, rfl, ⟨reads, fun view blind unseen => (unseen (.inr _) _).trans (blind _ _)⟩, fun id other => ?_⟩
    rw [NameItem.nameId_of_writes writes] at other
    simp [forgetLegacy, other]

theorem finalizeNameLegacy_turned (item : NameItem) (commit : Bool) (registered : Registered env s.sdb item)
    (reads : s.sdb.trie.Reads env m) :
    ∃ s', finalizeNameLegacy .none env commit item.1 item.2 s = (.ok (), s') ∧ Turned env item s m s' := by
  have written : ∃ s', writeNameLegacy .none env commit item.1 item.2 s = (.ok (), s') ∧ Turned env item s m s' := by
    by_cases writes : item.Writes
    · exact writes_turned writes commit registered reads
    · exact deletes_turned writes commit reads
  obtain ⟨s', ran, turned⟩ := written
  rw [finalizeNameLegacy, bind_of_ok ran]
  cases commit with
  | false => exact ⟨s', rfl, turned⟩
  | true =>
    refine ⟨_, rfl, ⟨turned.flushed.reads, fun view blind unseen => ?_⟩, turned.registrants⟩
    exact (unseen (.inl item.1) _).trans (turned.flushed.same view blind unseen)

namespace NameItem

variable {item other : NameItem} {m' : Trie.Map}

theorem nameId_congr (same : m' (nameRegistrantPrefix ++ item.1) = m (nameRegistrantPrefix ++ item.1)) :
    item.nameId env m' = item.nameId env m := by
  rw [nameId, nameId, same]

theorem writes_congr (same : m' (nameRegistrantPrefix ++ item.1) = m (nameRegistrantPrefix ++ item.1)) :
    item.writes env m' = item.writes env m := by
  rw [writes, writes, nameId_congr same]

theorem mem_writes {entry : Bytes × Option Bytes} (member : entry ∈ item.writes env m) :
    entry = (nameRegistrantPrefix ++ item.1, if item.Writes then some (NameEntry.spelling item.2) else none) ∨
      entry = (namePrefixLegacy ++ item.nameId env m, if item.Writes then some item.1 else none) := by
  unfold writes at member
  split_ifs at member ⊢
  · simpa [or_comm] using member
  · simpa using member

theorem writeAll_other (apart : other.1 ≠ item.1) :
    writeAll m (item.writes env m) (nameRegistrantPrefix ++ other.1) = m (nameRegistrantPrefix ++ other.1) := by
  have different : nameRegistrantPrefix ++ other.1 ≠ nameRegistrantPrefix ++ item.1 := fun same =>
    apart (append_cancel_left same)
  have different' : nameRegistrantPrefix ++ other.1 ≠ namePrefixLegacy ++ item.nameId env m := by
    simp [nameRegistrantPrefix, namePrefixLegacy]
  unfold writes
  split_ifs <;> simp [writeAll, Function.update_of_ne, different, different']

end NameItem

/-- The entries of a list can be written one after another: each is registered, and none is about a name that another
one writes. -/
structure Writable (env : Env) (m : Trie.Map) (items : List NameItem) (sdb : StateDB) : Prop where
  nodup : (items.map Sigma.fst).Nodup
  registered : ∀ item ∈ items, Registered env sdb item
  apart : ∀ item ∈ items, ∀ other ∈ items, item ≠ other → item.Writes → item.nameId env m ≠ other.nameId env m

variable {items : List NameItem}

theorem Writable.tail (writable : Writable env m (item :: items) s.sdb)
    {s' : Session} (turned : Turned env item s m s') :
    Writable env (writeAll m (item.writes env m)) items s'.sdb ∧
      ∀ other ∈ items, writeAll m (item.writes env m) (nameRegistrantPrefix ++ other.1) = m (nameRegistrantPrefix ++ other.1) := by
  obtain ⟨fresh, nodup⟩ := nodup_cons.mp writable.nodup
  have distinct : ∀ other ∈ items, other.1 ≠ item.1 := fun other member same =>
    fresh (same ▸ mem_map_of_mem member)
  have kept : ∀ other ∈ items,
      writeAll m (item.writes env m) (nameRegistrantPrefix ++ other.1) = m (nameRegistrantPrefix ++ other.1) :=
    fun other member => NameItem.writeAll_other (distinct other member)
  refine ⟨⟨nodup, fun other member writes => ?_, fun first member second member' different writes => ?_⟩, kept⟩
  · have registrant := writable.registered other (mem_cons_of_mem _ member) writes
    have about := writable.apart other (mem_cons_of_mem _ member) item mem_cons_self
      (fun same => distinct other member (congrArg Sigma.fst same)) writes
    rw [NameItem.nameId_of_writes writes] at about
    exact (turned.registrants _ about).trans registrant
  · rw [NameItem.nameId_congr (kept first member), NameItem.nameId_congr (kept second member')]
    exact writable.apart first (mem_cons_of_mem _ member) second (mem_cons_of_mem _ member') different writes

theorem forEach_turned (items : List NameItem) (commit : Bool) (writable : Writable env m items s.sdb)
    (reads : s.sdb.trie.Reads env m) :
    ∃ s', forEach items (fun item => finalizeNameLegacy .none env commit item.1 item.2) s = (.ok (), s') ∧
      Flushed env forgetLegacy s (writeAll m (items.flatMap (NameItem.writes · env m))) s' := by
  induction items generalizing s m with
  | nil => exact ⟨s, rfl, reads, fun _ _ _ => rfl⟩
  | cons item rest ih =>
    obtain ⟨_, ran, turned⟩ := finalizeNameLegacy_turned item commit
      (writable.registered item mem_cons_self) reads
    obtain ⟨writable, kept⟩ := writable.tail turned
    obtain ⟨s', ran', flushed⟩ := ih writable turned.flushed.reads
    refine ⟨s', (bind_of_ok ran).trans ran', ?_, fun view blind unseen => ?_⟩
    · have same : rest.flatMap (NameItem.writes · env (writeAll m (item.writes env m))) =
          rest.flatMap (NameItem.writes · env m) :=
        flatMap_congr fun other member => NameItem.writes_congr (kept other member)
      rw [flatMap_cons, writeAll_append, ← same]
      exact flushed.reads
    · exact (flushed.same view blind unseen).trans (turned.flushed.same view blind unseen)

variable {sdb : StateDB}

theorem Writable.consistent (writable : Writable env m items sdb) :
    ∀ entry ∈ items.flatMap (NameItem.writes · env m), ∀ entry' ∈ items.flatMap (NameItem.writes · env m),
      entry.1 = entry'.1 → entry = entry' := by
  intro entry member entry' member' same
  obtain ⟨item, inside, written⟩ := mem_flatMap.mp member
  obtain ⟨item', inside', written'⟩ := mem_flatMap.mp member'
  have apart : nameRegistrantPrefix ≠ namePrefixLegacy := by decide
  rcases NameItem.mem_writes written with rfl | rfl <;> rcases NameItem.mem_writes written' with rfl | rfl
  · obtain rfl := inj_on_of_nodup_map writable.nodup inside inside' (append_cancel_left same)
    rfl
  · exact absurd (append_inj_left same rfl) apart
  · exact absurd (append_inj_left same rfl) apart.symm
  · -- two entries about one name are the same, or both delete it
    have same := append_cancel_left same
    by_cases equal : item = item'
    · rw [equal]
    · have deletes : ¬ item.Writes := fun writes => writable.apart item inside item' inside' equal writes same
      have deletes' : ¬ item'.Writes := fun writes =>
        writable.apart item' inside' item inside (Ne.symm equal) writes same.symm
      rw [same, if_neg deletes, if_neg deletes']

theorem finalizeNamesLegacy_flushed (order : Enumeration) (commit : Bool) (writable : Writable env m s.sdb.names.entries s.sdb)
    (reads : s.sdb.trie.Reads env m) :
    ∃ s', finalizeNamesLegacy .none env order commit s = (.ok (), s') ∧
      Flushed env forgetLegacy s (writeAll m (s.sdb.names.entries.flatMap (NameItem.writes · env m))) s' := by
  have perm := order.perm namePrefix s.sdb.names
  have ordered : Writable env m (order.range namePrefix s.sdb.names) s.sdb := by
    refine ⟨(perm.map _).nodup_iff.mpr writable.nodup, fun item member => ?_, fun item member other member' => ?_⟩
    · exact writable.registered item (perm.mem_iff.mp member)
    · exact writable.apart item (perm.mem_iff.mp member) other (perm.mem_iff.mp member')
  obtain ⟨s', ran, flushed⟩ := forEach_turned _ commit ordered reads
  refine ⟨s', ran, ?_⟩
  rwa [writeAll_perm (perm.flatMap_right _) ordered.consistent] at flushed

def beforeNames (m : Trie.Map) (sdb : StateDB) : Trie.Map :=
  writeAll (writeAll m (accountWriter.entries sdb.accounts))
    (nanoPayWriter.entries sdb.nanoPay ++ nanoPayCleanupWriter.entries sdb.nanoPayCleanup)

theorem Writer.entries_ne {K V : Type} (writer : Writer K V) (map : GoMap K V) (key : Bytes)
    (other : ∀ k, writer.key k ≠ key) : ∀ entry ∈ writer.entries map, entry.1 ≠ key := by
  intro entry member
  obtain ⟨⟨k, _⟩, -, rfl⟩ := mem_map.mp member
  exact other k

theorem beforeNames_apply (sdb : StateDB) (registrant : Bytes) :
    beforeNames m sdb (nameRegistrantPrefix ++ registrant) = m (nameRegistrantPrefix ++ registrant) := by
  have accounts := accountWriter.entries_ne sdb.accounts (nameRegistrantPrefix ++ registrant)
    fun addr => by simp [accountWriter, accountPrefix, nameRegistrantPrefix]
  have channels := nanoPayWriter.entries_ne sdb.nanoPay (nameRegistrantPrefix ++ registrant)
    fun addr => by simp [nanoPayWriter, nanoPayPrefix, nameRegistrantPrefix]
  have cleanups := nanoPayCleanupWriter.entries_ne sdb.nanoPayCleanup (nameRegistrantPrefix ++ registrant)
    fun height => by
      simp [nanoPayCleanupWriter, cleanupWriter, nanoPaySchedule, nanoPayCleanupPrefix, nameRegistrantPrefix]
  rw [beforeNames, writeAll_append, writeAll_apply_of_ne cleanups, writeAll_apply_of_ne channels,
    writeAll_apply_of_ne accounts]

def flushedLegacy (env : Env) (m : Trie.Map) (sdb : StateDB) : Trie.Map :=
  let before := beforeNames m sdb
  writeAll (writeAll before (sdb.names.entries.flatMap (NameItem.writes · env before)))
    ((pubSubWriter.entries sdb.pubSub ++ pubSubCleanupWriter.entries sdb.pubSubCleanup) ++ assetEntries sdb.assets)

def StateDB.later (sdb : StateDB) : StateDB :=
  { sdb with trie := ⟨.nil, fun _ => none, []⟩, accounts := ∅, nanoPay := ∅, nanoPayCleanup := ∅ }

theorem flush_beforeNames (order : Enumeration) (commit : Bool) (reads : s.sdb.trie.Reads env m) :
    ∃ s₁ s₂, finalizeAccounts .none order commit s = (.ok (), s₁) ∧ finalizeNanoPay .none order commit s₁ = (.ok (), s₂) ∧
      s₂.sdb.trie.Reads env (beforeNames m s.sdb) ∧
      ∀ {β : Type} (view : StateDB → β), (∀ sdb, view sdb.later = view sdb) → view s₂.sdb = view s.sdb := by
  obtain ⟨s₁, accounts, flushed₁⟩ := writes_finalizeAccounts env order commit s m reads
  obtain ⟨s₂, channels, flushed₂⟩ := writes_finalizeNanoPay env order commit s₁ _ flushed₁.reads
  have pays : s₁.sdb.nanoPay = s.sdb.nanoPay := flushed₁.same _ (fun _ _ => rfl) fun _ _ => rfl
  have cleanups : s₁.sdb.nanoPayCleanup = s.sdb.nanoPayCleanup := flushed₁.same _ (fun _ _ => rfl) fun _ _ => rfl
  have later : s₂.sdb.later = s.sdb.later :=
    (flushed₂.same StateDB.later (fun _ _ => rfl) (by rintro (_ | _) _ <;> rfl)).trans
      (flushed₁.same StateDB.later (fun _ _ => rfl) fun _ _ => rfl)
  refine ⟨s₁, s₂, accounts, channels, ?_, fun view seen => ?_⟩
  · rw [beforeNames, ← pays, ← cleanups]
    exact flushed₂.reads
  · rw [← seen, later, seen]

theorem Writable.congr {m' : Trie.Map} {sdb sdb' : StateDB} (writable : Writable env m items sdb)
    (same : ∀ registrant, m' (nameRegistrantPrefix ++ registrant) = m (nameRegistrantPrefix ++ registrant))
    (registrants : sdb'.nameRegistrants = sdb.nameRegistrants) : Writable env m' items sdb' where
  nodup := writable.nodup
  registered item member := by
    unfold Registered
    rw [registrants]
    exact writable.registered item member
  apart item member other member' := by
    rw [NameItem.nameId_congr (same _), NameItem.nameId_congr (same _)]
    exact writable.apart item member other member'

theorem settles_legacy (writable : Writable env m s.sdb.names.entries s.sdb) (reads : s.sdb.trie.Reads env m) :
    Settles env true s (flushedLegacy env m s.sdb) := by
  intro order commit
  obtain ⟨_, s₂, accounts, channels, before, kept⟩ := flush_beforeNames order commit reads
  have names : s₂.sdb.names = s.sdb.names := kept StateDB.names fun _ => rfl
  have writable : Writable env (beforeNames m s.sdb) s₂.sdb.names.entries s₂.sdb :=
    names ▸ writable.congr (beforeNames_apply s.sdb) (kept StateDB.nameRegistrants fun _ => rfl)
  obtain ⟨s₃, named, flushed⟩ := finalizeNamesLegacy_flushed order commit writable before
  have subscriptions := (writes_finalizePubSub env order commit).bind (writes_finalizeIssueAsset env order commit)
    (fun _ _ => rfl) (by rintro (_ | _) _ <;> rfl)
  obtain ⟨s₄, subscribed, flushed'⟩ := subscriptions s₃ _ flushed.reads
  have last : s₃.sdb.pubSub = s.sdb.pubSub ∧ s₃.sdb.pubSubCleanup = s.sdb.pubSubCleanup ∧ s₃.sdb.assets = s.sdb.assets :=
    ⟨(flushed.same _ (fun _ _ => rfl) (by rintro (_ | _) _ <;> rfl)).trans (kept StateDB.pubSub fun _ => rfl),
      (flushed.same _ (fun _ _ => rfl) (by rintro (_ | _) _ <;> rfl)).trans (kept StateDB.pubSubCleanup fun _ => rfl),
      (flushed.same _ (fun _ _ => rfl) (by rintro (_ | _) _ <;> rfl)).trans (kept StateDB.assets fun _ => rfl)⟩
  refine ⟨s₄, ?_, ?_⟩
  · rw [flush, bind_of_ok accounts, bind_of_ok channels]
    exact (bind_of_ok named).trans subscribed
  · have reads := flushed'.reads
    simp only [last.1, last.2.1, last.2.2, names] at reads
    exact reads

/-- What a transaction does to the legacy names: it registers a name for a registrant, or deletes the registrant's. -/
structure NameChange where
  registrant : Bytes
  name : Bytes
  registers : Bool

def NameChange.spelling (c : NameChange) : Bytes := if c.registers then c.name else []

/-- The names of two changes differ in lower case if one of the changes registers its name. -/
def NameChange.Apart (env : Env) (c c' : NameChange) : Prop :=
  c.spelling ≠ [] ∨ c'.spelling ≠ [] → env.toLower c.name ≠ env.toLower c'.name

def nameChange (env : Env) (txn : Transaction) : Option NameChange :=
  match unpack env txn.unsignedTx.payload with
  | .ok (.registerName payload) => some ⟨payload.registrant, payload.name, true⟩
  | .ok (.deleteName payload) => some ⟨payload.registrant, payload.name, false⟩
  | _ => none

def nameChanges (env : Env) (txns : List Transaction) : List NameChange := txns.filterMap (nameChange env)

structure Pending (env : Env) (m : Trie.Map) (changes : List NameChange) (sdb : StateDB) : Prop where
  reads : sdb.trie.Reads env m
  names : ∀ registrant entry, sdb.names.load registrant = some entry →
    ∃ c ∈ changes, registrant = c.registrant ∧ entry = some (.name c.spelling)
  registrants : ∀ c ∈ changes, c.spelling ≠ [] →
    sdb.nameRegistrants.load (env.toLower c.name) = some (some c.registrant)

structure Unscheduled (env : Env) (m : Trie.Map) (changes : List NameChange) (sdb : StateDB) : Prop
    extends Pending env m changes sdb where
  namesCleanup : sdb.namesCleanup = ∅

theorem unscheduled_new {t : Trie} (reads : t.Reads env m) : Unscheduled env m [] { trie := t } :=
  ⟨⟨reads, fun registrant _ found => by simp at found, fun _ member => absurd member not_mem_nil⟩, rfl⟩

theorem unscheduled_newStateDB {nodes : Trie.Database} {root : Uint256} (committed : Trie.Committed env nodes root m)
    {states : StateDB} (opened : newStateDB .none nodes root = .ok states) : Unscheduled env m [] states := by
  rw [newStateDB_none] at opened
  cases found : Trie.new root nodes with
  | error _ => rw [found] at opened; cases opened
  | ok _ =>
    rw [found] at opened
    obtain rfl := Except.ok.inj opened
    exact unscheduled_new (committed.reads found)

variable {changes : List NameChange}

theorem stable_unscheduled : Stable (Unscheduled env m changes) where
  lookup start found := ⟨⟨stable_reads.lookup start.reads found, start.names, start.registrants⟩, start.namesCleanup⟩
  memory start trie names registrants cleanup :=
    ⟨⟨trie ▸ start.reads, names ▸ start.names, registrants ▸ start.registrants⟩, cleanup.trans start.namesCleanup⟩

def NameChange.apply (env : Env) (c : NameChange) (sdb : StateDB) : StateDB :=
  { sdb with
    names := sdb.names.store c.registrant (some (.name c.spelling))
    nameRegistrants := sdb.nameRegistrants.store (env.toLower c.name) (if c.registers then some c.registrant else none) }

theorem Unscheduled.apply (start : Unscheduled env m changes sdb) {c : NameChange}
    (apart : ∀ earlier ∈ changes, earlier.Apart env c) :
    Unscheduled env m (changes ++ [c]) (c.apply env sdb) where
  reads := start.reads
  names registrant entry found := by
    rw [NameChange.apply, GoMap.load_store] at found
    split_ifs at found with same
    · exact ⟨c, by simp, same, (Option.some.inj found).symm⟩
    · obtain ⟨earlier, inside, known⟩ := start.names registrant entry found
      exact ⟨earlier, mem_append_left _ inside, known⟩
  registrants earlier member spelled := by
    rw [NameChange.apply, GoMap.load_store]
    rcases mem_append.mp member with inside | last
    · rw [if_neg (apart earlier inside (.inl spelled))]
      exact start.registrants earlier inside spelled
    · obtain rfl := mem_singleton.mp last
      have registers : earlier.registers = true := by
        by_contra deletes
        simp [NameChange.spelling, deletes] at spelled
      rw [if_pos rfl, if_pos registers]
  namesCleanup := start.namesCleanup

variable {config : Config} {cs : Store.ChainStore} {totalFee : Int64} {genesis : Bool} {height : UInt32}
  {txn : Transaction} {machine machine' : Machine}

theorem spendTransaction_eq_ok
    (ran : spendTransaction .none env config cs totalFee genesis height txn machine = (.ok (), machine')) :
    ∃ message sender between, unpack env txn.unsignedTx.payload = .ok message ∧
      (∀ inv : StateDB → Prop, Stable inv → inv machine.states → inv between.states) ∧
      spendPayload .none env config cs txn sender totalFee genesis height message between = (.ok (), machine') := by
  obtain ⟨message, _, lifted, ran⟩ := Proc.bind_eq_ok.mp ran
  obtain ⟨unpacked, rfl⟩ := Prod.mk.inj lifted
  obtain ⟨_, _, lifted, ran⟩ := Proc.bind_eq_ok.mp ran
  obtain ⟨-, rfl⟩ := Prod.mk.inj lifted
  obtain ⟨sender, _, lifted, ran⟩ := Proc.bind_eq_ok.mp ran
  obtain ⟨-, rfl⟩ := Prod.mk.inj lifted
  obtain ⟨⟨⟩, paid, fee, ran⟩ := Proc.bind_eq_ok.mp ran
  obtain ⟨⟨⟩, between, nonce, ran⟩ := Proc.bind_eq_ok.mp ran
  refine ⟨message, sender, between, unpacked, fun inv stable holds => ?_, ran⟩
  have charged : inv paid.states := by
    refine BlockTracks.reached ?_ holds fee
    exact (blockTracks_onStates (equals_updateBalance stable Faults.sparesAccounts_none _ _ _ _).follows).when
  refine BlockTracks.reached ?_ charged nonce
  exact (blockTracks_onStates (equals_incrNonce stable Faults.sparesAccounts_none _).follows).when

theorem spendTransaction_unscheduled (legacy : config.isLegacy height = true)
    (untransferred : ∀ payload, unpack env txn.unsignedTx.payload ≠ .ok (.transferName payload))
    (apart : ∀ earlier ∈ changes, ∀ c ∈ (nameChange env txn).toList, earlier.Apart env c)
    (start : Unscheduled env m changes machine.states)
    (ran : spendTransaction .none env config cs totalFee genesis height txn machine = (.ok (), machine')) :
    Unscheduled env m (changes ++ (nameChange env txn).toList) machine'.states := by
  obtain ⟨message, _, _, unpacked, charged, spent⟩ := spendTransaction_eq_ok ran
  cases message with
  | registerName payload =>
    have change : nameChange env txn = some ⟨payload.registrant, payload.name, true⟩ := by rw [nameChange, unpacked]
    rw [change] at apart ⊢
    obtain ⟨after, spent, reached⟩ := onStates_eq_ok spent
    obtain ⟨⟨⟩, paid, payment, named⟩ := Proc.bind_eq_ok.mp spent
    have start : Unscheduled env m changes paid.sdb := by
      refine Tracks.reached ?_ (charged _ stable_unscheduled start) payment
      exact (equals_payNKN stable_unscheduled Faults.sparesAccounts_none _ _ _).follows
    rw [if_pos legacy] at named
    obtain ⟨-, rfl⟩ := Prod.mk.inj named
    exact reached ▸ start.apply fun earlier inside => apart earlier inside _ (mem_singleton_self _)
  | deleteName payload =>
    have change : nameChange env txn = some ⟨payload.registrant, payload.name, false⟩ := by rw [nameChange, unpacked]
    rw [change] at apart ⊢
    obtain ⟨_, spent, reached⟩ := onStates_eq_ok spent
    rw [spendMessage, if_pos legacy] at spent
    obtain ⟨-, rfl⟩ := Prod.mk.inj spent
    refine reached ▸ (charged _ stable_unscheduled start).apply fun earlier inside => ?_
    exact apart earlier inside _ (mem_singleton_self _)
  | transferName payload => exact absurd unpacked (untransferred payload)
  | _ =>
    have change : nameChange env txn = none := by rw [nameChange, unpacked]
    rw [change, Option.toList_none, append_nil]
    refine BlockTracks.reached ?_ start ran
    refine blockTracks_spendTransaction stable_unscheduled Faults.sparesAccounts_none cs totalFee genesis height
      (fun message found => ?_) fun _ _ => Faults.sparesAsset_none _
    obtain rfl := ok_unique unpacked found
    exact .inr rfl

theorem forEach_unscheduled (legacy : config.isLegacy height = true) (txns : List Transaction)
    (untransferred : ∀ txn ∈ txns, ∀ payload, unpack env txn.unsignedTx.payload ≠ .ok (.transferName payload))
    (distinct : (changes ++ nameChanges env txns).Pairwise (NameChange.Apart env))
    (start : Unscheduled env m changes machine.states)
    (ran : forEach txns (spendTransaction .none env config cs totalFee genesis height) machine = (.ok (), machine')) :
    Unscheduled env m (changes ++ nameChanges env txns) machine'.states := by
  induction txns generalizing changes machine with
  | nil =>
    obtain ⟨-, rfl⟩ := Prod.mk.inj ran
    rwa [nameChanges, filterMap_nil, append_nil]
  | cons txn rest ih =>
    obtain ⟨⟨⟩, _, first, ran⟩ := Proc.bind_eq_ok.mp ran
    obtain ⟨here, others⟩ := forall_mem_cons.mp untransferred
    have split : changes ++ nameChanges env (txn :: rest) =
        (changes ++ (nameChange env txn).toList) ++ nameChanges env rest := by
      cases change : nameChange env txn <;> simp [nameChanges, change]
    rw [split] at distinct ⊢
    have apart := (pairwise_append.mp (pairwise_append.mp distinct).1).2.2
    exact ih others distinct (spendTransaction_unscheduled legacy here apart start first) ran

theorem cleanupNames_pending {s' : Session} (start : Unscheduled env m changes s.sdb)
    (uncleaned : m (nameCleanupPrefix ++ writeUint32 height) = none) (ran : cleanupNames .none height s = (.ok (), s')) :
    Pending env m changes s'.sdb := by
  obtain ⟨root, got, reads⟩ := tryGet_reads start.reads (nameCleanupPrefix ++ writeUint32 height)
  rw [uncleaned] at got
  have absent : (gets fun s : Session => ((namesSchedule.get s.sdb).load height).join) s = (.ok none, s) := by
    rw [gets, show namesSchedule.get s.sdb = ∅ from start.namesCleanup, GoMap.load_empty]
    rfl
  have read : (namesSchedule.getCleanup .none height) s = (.ok ∅,
      ⟨namesSchedule.store height (some ∅) { s.sdb with trie := { s.sdb.trie with root } }, s.calls + 1⟩) := by
    rw [Schedule.getCleanup, getRecord, bind_of_ok absent]
    exact bind_of_ok (labelled_of_ok _ got)
  rw [cleanupNames, Schedule.cleanup, bind_of_ok read] at ran
  obtain ⟨-, rfl⟩ := Prod.mk.inj ran
  exact ⟨reads, start.names, start.registrants⟩

/-- A block whose registered names differ, up to case, from each other, from those of its deletions and from the names
that these delete. No name is transferred, and no name expires with the block. -/
structure SeparateNames (env : Env) (m : Trie.Map) (b : Block) : Prop where
  untransferred : ∀ txn ∈ b.transactions, ∀ payload, unpack env txn.unsignedTx.payload ≠ .ok (.transferName payload)
  uncleaned : b.height ≠ 0 → m (nameCleanupPrefix ++ writeUint32 b.height) = none
  distinct : (nameChanges env b.transactions).Pairwise (NameChange.Apart env)
  undeleted : ∀ c ∈ nameChanges env b.transactions, c.spelling ≠ [] →
    ∀ deleted ∈ nameChanges env b.transactions, deleted.spelling = [] →
      env.toLower c.name ≠ env.toLower ((m (nameRegistrantPrefix ++ deleted.registrant)).getD [])

variable {b : Block}

theorem spendBlock_pending (legacy : config.isLegacy b.height = true) (separate : SeparateNames env m b)
    (start : Unscheduled env m [] machine.states)
    (ran : spendBlock .none env config cs b machine = (.ok (), machine')) :
    Pending env m (nameChanges env b.transactions) machine'.states := by
  have distinct := separate.distinct
  have untransferred := separate.untransferred
  unfold spendBlock at ran
  split_ifs at ran with genesis
  · cases txns : b.transactions with
    | nil => rw [txns] at ran; cases (Prod.mk.inj ran).1
    | cons first rest =>
      rw [txns] at ran distinct untransferred
      obtain ⟨⟨⟩, _, spends, ran⟩ := Proc.bind_eq_ok.mp ran
      obtain ⟨here, others⟩ := forall_mem_cons.mp untransferred
      have start := spendTransaction_unscheduled legacy here (fun _ inside => absurd inside not_mem_nil) start spends
      have split : nameChanges env (first :: rest) = (nameChange env first).toList ++ nameChanges env rest := by
        cases change : nameChange env first <;> simp [nameChanges, change]
      rw [split] at distinct ⊢
      exact (forEach_unscheduled legacy rest others distinct start ran).toPending
  · obtain ⟨⟨⟩, spent, spends, ran⟩ := Proc.bind_eq_ok.mp ran
    obtain ⟨⟨⟩, _, pays, ran⟩ := Proc.bind_eq_ok.mp ran
    obtain ⟨⟨⟩, _, subscribes, ran⟩ := Proc.bind_eq_ok.mp ran
    have start : Unscheduled env m (nameChanges env b.transactions) spent.states :=
      forEach_unscheduled legacy b.transactions untransferred distinct start spends
    have start := BlockTracks.reached (blockTracks_onStates (tracks_cleanupNanoPay stable_unscheduled _)) start pays
    have start := BlockTracks.reached (blockTracks_onStates (tracks_cleanupPubSub stable_unscheduled _)) start subscribes
    obtain ⟨_, cleaned, reached⟩ := onStates_eq_ok ran
    exact reached ▸ cleanupNames_pending start (separate.uncleaned genesis) cleaned

theorem executeBlock_pending (legacy : config.isLegacy b.height = true) (separate : SeparateNames env m b)
    (start : Unscheduled env m [] machine.states)
    (ran : executeBlock .none env config cs b machine = (.ok (), machine')) :
    Pending env m (nameChanges env b.transactions) machine'.states := by
  obtain ⟨⟨⟩, _, starts, ran⟩ := Proc.bind_eq_ok.mp ran
  obtain ⟨⟨⟩, _, assigns, ran⟩ := Proc.bind_eq_ok.mp ran
  have start := BlockTracks.reached
    (blockTracks_onStates (tracks_initGenesis stable_unscheduled Faults.sparesAccounts_none (Faults.sparesAsset_none _)
      (Faults.sparesAsset_none _) _)).when start starts
  have start := BlockTracks.reached
    (blockTracks_onStates (tracks_generateIDs stable_unscheduled Faults.sparesAccounts_none _ _)) start assigns
  exact spendBlock_pending legacy separate start ran

theorem Pending.writable (separate : SeparateNames env m b)
    (pending : Pending env m (nameChanges env b.transactions) sdb) : Writable env m sdb.names.entries sdb := by
  have known : ∀ item ∈ sdb.names.entries, ∃ c ∈ nameChanges env b.transactions,
      item = ⟨c.registrant, some (.name c.spelling)⟩ := by
    rintro ⟨registrant, entry⟩ member
    obtain ⟨c, inside, rfl, rfl⟩ := pending.names registrant entry (AList.mem_lookup_iff.mpr member)
    exact ⟨c, inside, rfl⟩
  have named (c : NameChange) (spelled : c.spelling ≠ []) : c.spelling = c.name := by
    unfold NameChange.spelling at spelled ⊢
    split_ifs at spelled ⊢
    · rfl
    · exact absurd rfl spelled
  refine ⟨sdb.names.nodupKeys, fun item member writes => ?_, fun item member other member' different writes => ?_⟩
  · obtain ⟨c, inside, rfl⟩ := known item member
    have spelled : NameEntry.spelling (some (.name c.spelling)) = c.name := named c writes
    rw [spelled]
    exact pending.registrants c inside writes
  · obtain ⟨c, inside, rfl⟩ := known item member
    obtain ⟨c', inside', rfl⟩ := known other member'
    have spelled : NameEntry.spelling (some (.name c.spelling)) = c.name := named c writes
    rw [NameItem.nameId_of_writes writes, spelled]
    by_cases writes' : NameItem.Writes ⟨c'.registrant, some (.name c'.spelling)⟩
    · have spelled' : NameEntry.spelling (some (.name c'.spelling)) = c'.name := named c' writes'
      rw [NameItem.nameId_of_writes writes', spelled']
      have symmetric : Std.Symm (NameChange.Apart env) := ⟨fun _ _ apart spelled => (apart spelled.symm).symm⟩
      exact separate.distinct.forall inside inside' (fun same => different (same ▸ rfl)) (.inl writes)
    · rw [NameItem.nameId_of_deletes writes']
      exact separate.undeleted c inside writes c' inside' (not_not.mp writes')

end Nkn.Disk
