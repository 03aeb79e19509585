import Nkn.Lib.Proc
import Nkn.Model.ChainStore
import Nkn.Model.Trie

/-! # The state database over its trie

`StateDB` of `chain/store` with its trie: records are read from the trie and decoded, `Finalize` encodes and writes them,
and reads of trie nodes can fail. -/

namespace Nkn.Disk

open Go Outcome Store

inductive Site where
  | openTrie (root : Uint256)
  | access (access : Trie.Access)
deriving DecidableEq

/-- The reads of nodes that fail, by the call that makes them, the number of calls before it and the hash read. -/
abbrev Faults := Site → (calls : Nat) → (hash : Bytes) → Bool

namespace Faults

def none : Faults := fun _ _ _ => false

def view (faults : Faults) (site : Site) (calls : Nat) (db : Trie.Database) : Trie.Database :=
  fun hash => if faults site calls hash then .none else db hash

end Faults

/-- What the map of names holds: a string of the legacy name service, or a record. -/
inductive NameEntry where
  | name (name : Bytes)
  | info (ni : NameInfo)

/-- `StateDB`: a value of a `sync.Map` is `none` where the source stores a nil. -/
structure StateDB where
  trie : Trie
  accounts : GoMap Uint160 Account := ∅
  nanoPay : GoMap Bytes (Option NanoPay) := ∅
  nanoPayCleanup : GoMap UInt32 (Option Cleanup) := ∅
  names : GoMap Bytes (Option NameEntry) := ∅
  nameRegistrants : GoMap Bytes (Option Bytes) := ∅
  namesCleanup : GoMap UInt32 (Option Cleanup) := ∅
  pubSub : GoMap Bytes (Option PubSub) := ∅
  pubSubCleanup : GoMap UInt32 (Option Cleanup) := ∅
  assets : GoMap Uint256 Asset := ∅

/-- A state database in use, with the number of calls of its trie so far. -/
structure Session where
  sdb : StateDB
  calls : Nat

abbrev Exec := Proc Session

def update (change : StateDB → StateDB) : Exec Unit := .modify fun s => { s with sdb := change s.sdb }

/-- A call of the trie, which changes its root; one that fails leaves the trie as it was. -/
def onTrie {α : Type} (faults : Faults) (access : Trie.Access) (call : Trie → Outcome (α × Trie)) : Exec α := fun s =>
  let t := s.sdb.trie
  match call { t with db := faults.view (.access access) s.calls t.db } with
  | .ok (answer, t') => (.ok answer, { sdb := { s.sdb with trie := { t with root := t'.root } }, calls := s.calls + 1 })
  | .error fault => (.error fault, { s with calls := s.calls + 1 })

variable (faults : Faults)

def tryGet (key : Bytes) : Exec (Option Bytes) := onTrie faults (.tryGet key) fun t => t.tryGet key

def tryUpdate (key value : Bytes) : Exec Unit :=
  onTrie faults (.tryUpdate key value) fun t => (t.tryUpdate key value).map fun t => ((), t)

def tryDelete (key : Bytes) : Exec Unit :=
  onTrie faults (.tryDelete key) fun t => (t.tryDelete key).map fun t => ((), t)

def decoded {V : Type} (deserialize : Bytes → Outcome V) (empty : V) (enc : Bytes) : Outcome V :=
  if enc = [] then .ok empty else deserialize enc

/-- What `getNanoPay`, `getNameInfo`, `getPubSub` and the readers of cleanup sets do: the record in memory, else the
record of the trie or an empty one, which is kept. -/
def getRecord {V : Type} (cached : StateDB → Option V) (label : String) (key : Bytes) (deserialize : Bytes → Outcome V)
    (empty : V) (keep : V → StateDB → StateDB) : Exec V := do
  match ← Proc.gets fun s => cached s.sdb with
  | some record => pure record
  | none =>
    let enc ← (tryGet faults key).labelled label
    let record ← Proc.lift (decoded deserialize empty (enc.getD []))
    update (keep record)
    pure record

variable (addr : Uint160)

def setAccount (acc : Account) : Exec Unit :=
  update fun sdb => { sdb with accounts := sdb.accounts.store addr acc }

def getAccount (addr : Uint160) : Exec Account := do
  match ← Proc.gets fun s => s.sdb.accounts.load addr with
  | some acc => pure acc
  | none =>
    let enc ← (tryGet faults (accountPrefix ++ addr.toArray)).labelled "[getAccount]can not get account from trie: "
    if enc.getD [] = [] then Proc.lift (fail "[getAccount]can not get account from trie: <nil>")
    else do
      let data ← Proc.lift (labelled s!"[getAccount]Failed to decode state object for addr {hexText addr.toArray}: "
        (Account.deserialize (enc.getD [])))
      setAccount addr data
      pure data

def getBalance (assetID : Uint256) (addr : Uint160) : Exec Int64 :=
  Proc.recover
    (do
      let account ← getAccount faults addr
      pure (account.getBalance assetID))
    (pure 0)

/-- `createAccount`: it reads the account once more and ignores the result. -/
def createAccount : Exec Account := do
  Proc.recover
    (do
      let _ ← getAccount faults addr
      pure ())
    (pure ())
  setAccount addr .new
  pure .new

def getOrNewAccount : Exec Account := (getAccount faults addr).recover (createAccount faults addr)

def updateBalance (assetID : Uint256) (value : Int64) (op : StateDB.Operation) : Exec Unit := do
  let acc ← getOrNewAccount faults addr
  let amount := acc.getBalance assetID
  match op with
  | .addition => setAccount addr (acc.setBalance assetID (amount + value))
  | .subtraction => do
    Proc.lift (rejectIf (amount < value) "UpdateBalance: no sufficient funds")
    setAccount addr (acc.setBalance assetID (amount - value))

def incrNonce : Exec Unit := do
  let acc ← getOrNewAccount faults addr
  setAccount addr (acc.setNonce (acc.nonce + 1))

def updateID (id : Bytes) (version : UInt8) : Exec Unit := do
  let acc ← getOrNewAccount faults addr
  setAccount addr (acc.setID id version)

structure Schedule where
  reader : String
  kind : String
  keyPrefix : Bytes
  get : StateDB → GoMap UInt32 (Option Cleanup)
  set : GoMap UInt32 (Option Cleanup) → StateDB → StateDB

def nanoPaySchedule : Schedule where
  reader := "[getNanoPayCleanup]"
  kind := "nano pay"
  keyPrefix := nanoPayCleanupPrefix
  get := StateDB.nanoPayCleanup
  set sets sdb := { sdb with nanoPayCleanup := sets }

def namesSchedule : Schedule where
  reader := "[getNamesCleanup]"
  kind := "name"
  keyPrefix := nameCleanupPrefix
  get := StateDB.namesCleanup
  set sets sdb := { sdb with namesCleanup := sets }

def pubSubSchedule : Schedule where
  reader := "[getPubSubCleanup]"
  kind := "pub sub"
  keyPrefix := pubSubCleanupPrefix
  get := StateDB.pubSubCleanup
  set sets sdb := { sdb with pubSubCleanup := sets }

namespace Schedule

variable (schedule : Schedule)

def store (height : UInt32) (ids : Option Cleanup) (sdb : StateDB) : StateDB :=
  schedule.set ((schedule.get sdb).store height ids) sdb

def getCleanup (height : UInt32) : Exec Cleanup :=
  getRecord faults (fun sdb => ((schedule.get sdb).load height).join)
    s!"{schedule.reader}can not get {schedule.kind} cleanup from trie: " (schedule.keyPrefix ++ writeUint32 height)
    (fun enc => labelled s!"{schedule.reader}Failed to decode state object for {schedule.kind} cleanup: "
      (Cleanup.deserialize enc))
    ∅ fun ids => schedule.store height (some ids)

def cleanupAtHeight (height : UInt32) (id : Bytes) : Exec Unit := do
  let ids ← schedule.getCleanup faults height
  update (schedule.store height (some (ids.store id ())))

def cancelCleanupAtHeight (height : UInt32) (id : Bytes) : Exec Unit := do
  let ids ← schedule.getCleanup faults height
  update (schedule.store height (some (ids.delete id)))

/-- `CleanupNanoPay`, `CleanupNames`, `CleanupPubSub`: `mark` stores a nil for the record of an id. -/
def cleanup (mark : StateDB → Bytes → StateDB) (height : UInt32) : Exec Unit := do
  let ids ← schedule.getCleanup faults height
  update fun sdb => ids.keys.foldl mark sdb
  update (schedule.store height none)

end Schedule

def storeNanoPay (id : Bytes) (np : Option NanoPay) (sdb : StateDB) : StateDB :=
  { sdb with nanoPay := sdb.nanoPay.store id np }

def getNanoPayById (id : Bytes) : Exec NanoPay :=
  getRecord faults (fun sdb => (sdb.nanoPay.load id).join) "" (nanoPayPrefix ++ id)
    (fun enc => labelled "[getNanoPay]Failed to decode state object for nano pay: " (NanoPay.deserialize enc)) .empty
    fun np => storeNanoPay id (some np)

def getNanoPay (sender recipient : Uint160) (nonce : UInt64) : Exec NanoPay :=
  getNanoPayById faults (Store.StateDB.getNanoPayId sender recipient nonce)

def setNanoPay (sender recipient : Uint160) (nonce : UInt64) (balance : Int64) (expiresAt : UInt32) : Exec Unit := do
  let id := Store.StateDB.getNanoPayId sender recipient nonce
  match ← Proc.gets fun s => (s.sdb.nanoPay.load id).join with
  | some np => do
    nanoPaySchedule.cancelCleanupAtHeight faults np.expiresAt id
    nanoPaySchedule.cleanupAtHeight faults expiresAt id
    update (storeNanoPay id (some ⟨balance, expiresAt⟩))
  | none => do
    update (storeNanoPay id (some ⟨balance, expiresAt⟩))
    nanoPaySchedule.cleanupAtHeight faults expiresAt id

def cleanupNanoPay (height : UInt32) : Exec Unit :=
  nanoPaySchedule.cleanup faults (fun sdb id => storeNanoPay id none sdb) height

variable (env : Env)

def storeName (key : Bytes) (entry : Option NameEntry) (sdb : StateDB) : StateDB :=
  { sdb with names := sdb.names.store key entry }

/-- The record of a name id in memory, if what is stored there is a record. -/
def StateDB.cachedInfo (sdb : StateDB) (nameId : Bytes) : Option NameInfo :=
  match sdb.names.load nameId with
  | some (some (.info ni)) => some ni
  | _ => none

def getNameInfo (nameId : Bytes) : Exec NameInfo :=
  getRecord faults (fun sdb => sdb.cachedInfo nameId) "" (namePrefix ++ nameId) NameInfo.deserialize .empty
    fun ni => storeName nameId (some (.info ni))

def registerName (name registrant : Bytes) (expiresAt : UInt32) : Exec Unit := do
  let nameId := Store.StateDB.getNameId env name
  let ni ← getNameInfo faults nameId
  Proc.when (ni ≠ .empty) (namesSchedule.cancelCleanupAtHeight faults ni.expiresAt name)
  update (storeName nameId (some (.info ⟨registrant, expiresAt⟩)))
  namesSchedule.cleanupAtHeight faults expiresAt nameId

def transferName (name recipient : Bytes) : Exec Unit := do
  let nameId := Store.StateDB.getNameId env name
  let ni ← getNameInfo faults nameId
  update (storeName nameId (some (.info { ni with registrant := recipient })))

def deleteName (name : Bytes) : Exec Unit := do
  let nameId := Store.StateDB.getNameId env name
  let ni ← getNameInfo faults nameId
  Proc.when (ni ≠ .empty) do
    namesSchedule.cancelCleanupAtHeight faults ni.expiresAt name
    update (storeName nameId (some (.info .empty)))

def cleanupNames (height : UInt32) : Exec Unit :=
  namesSchedule.cleanup faults (fun sdb id => storeName id none sdb) height

def setNameLegacy (registrant name : Bytes) : Exec Unit := update fun sdb =>
  { sdb with
    names := sdb.names.store registrant (some (.name name))
    nameRegistrants := sdb.nameRegistrants.store (env.toLower name) (some registrant) }

def deleteNameForRegistrantLegacy (registrant name : Bytes) : Exec Unit := update fun sdb =>
  { sdb with
    names := sdb.names.store registrant (some (.name []))
    nameRegistrants := sdb.nameRegistrants.store (env.toLower name) none }

def storePubSub (id : Bytes) (ps : Option PubSub) (sdb : StateDB) : StateDB :=
  { sdb with pubSub := sdb.pubSub.store id ps }

def getPubSub (id : Bytes) : Exec PubSub :=
  getRecord faults (fun sdb => (sdb.pubSub.load id).join) "" (pubSubPrefix ++ id)
    (fun enc => labelled "[getPubSub]Failed to decode state object for pub sub: " (PubSub.deserialize enc)) .empty
    fun ps => storePubSub id (some ps)

def subscribe (topic : Bytes) (bucket : UInt32) (subscriber identifier metadata : Bytes) (expiresAt : UInt32) :
    Exec Unit := do
  let id := Store.StateDB.getPubSubId env topic bucket subscriber identifier
  let ps ← getPubSub faults id
  Proc.when (ps ≠ .empty) (pubSubSchedule.cancelCleanupAtHeight faults ps.expiresAt id)
  pubSubSchedule.cleanupAtHeight faults expiresAt id
  let named := if ps = .empty then { ps with subscriber, identifier } else ps
  update (storePubSub id (some { named with metadata, expiresAt }))

def unsubscribe (topic subscriber identifier : Bytes) : Exec Unit := do
  let id := Store.StateDB.getPubSubId env topic 0 subscriber identifier
  let ps ← getPubSub faults id
  Proc.when (ps ≠ .empty) do
    pubSubSchedule.cancelCleanupAtHeight faults ps.expiresAt id
    update (storePubSub id none)

def cleanupPubSub (height : UInt32) : Exec Unit :=
  pubSubSchedule.cleanup faults (fun sdb id => storePubSub id none sdb) height

variable (assetID : Uint256)

def storeAsset (asset : Asset) (sdb : StateDB) : StateDB :=
  { sdb with assets := sdb.assets.store assetID asset }

def readAsset : Exec (Option Asset) := do
  let enc ← tryGet faults (issueAssetPrefix ++ assetID.toArray)
  if enc.getD [] = [] then pure none
  else do
    let asset ← Proc.lift (Asset.deserialize (enc.getD []))
    update (storeAsset assetID asset)
    pure (some asset)

def getAsset : Exec (Option Asset) := do
  match ← Proc.gets fun s => s.sdb.assets.load assetID with
  | some asset => pure (some asset)
  | none => readAsset faults assetID

def setAsset (asset : Asset) : Exec Unit := do
  let found ← (readAsset faults assetID).recover (pure none)
  Proc.lift (rejectIf (found.isSome = true) s!"asset {hexText assetID.toArray} has already exist")
  update (storeAsset assetID asset)

def increaseTotalSupply (amount : Int64) : Exec Unit := do
  match ← getAsset faults assetID with
  | none => Proc.lift (crash "invalid memory address or nil pointer dereference")
  | some asset => do
    Proc.lift (rejectIf (asset.totalSupply + amount ≤ 0) "totalSupply overflow")
    update (storeAsset assetID { asset with totalSupply := asset.totalSupply + amount })

variable (order : Enumeration)

def enumerated {K V : Type} (place : Bytes) (map : GoMap K V) : List K := (order.range place map).map Sigma.fst

def writeEntry (key : Bytes) (forget : StateDB → StateDB) : (value : Option Bytes) → Exec Unit
  | some enc => tryUpdate faults key enc
  | none => do
    tryDelete faults key
    update forget

/-- One turn of a `Finalize` loop: an entry that is committed is forgotten. -/
def flushEntry (key : Bytes) (value : Option Bytes) (commit : Bool) (forget : StateDB → StateDB) : Exec Unit := do
  writeEntry faults key forget value
  Proc.when (commit = true) (update forget)

variable (commit : Bool)

def finalizeAccounts : Exec Unit := do
  let accounts ← Proc.gets fun s => s.sdb.accounts
  Proc.forEach (order.range accountPrefix accounts) fun ⟨addr, acc⟩ =>
    let key := accountPrefix ++ addr.toArray
    let value := if acc.isEmpty then none else some (acc.serialize (enumerated order key acc.balances))
    flushEntry faults key value commit
      fun sdb => { sdb with accounts := sdb.accounts.delete addr }

/-- The loop over the cleanup sets of `FinalizeNanoPay`, `FinalizeNames` and `FinalizePubSub`. -/
def Schedule.finalize (schedule : Schedule) (commit : Bool) : Exec Unit := do
  let sets ← Proc.gets fun s => schedule.get s.sdb
  Proc.forEach (order.range schedule.keyPrefix sets) fun ⟨height, set⟩ =>
    let key := schedule.keyPrefix ++ writeUint32 height
    let value := set.bind fun ids => ids.encode.map fun ids => Cleanup.serialize (enumerated order key ids)
    flushEntry faults key value commit fun sdb => schedule.set ((schedule.get sdb).delete height) sdb

def finalizeNanoPay : Exec Unit := do
  let nanoPay ← Proc.gets fun s => s.sdb.nanoPay
  Proc.forEach (order.range nanoPayPrefix nanoPay) fun ⟨id, np⟩ =>
    flushEntry faults (nanoPayPrefix ++ id) (np.bind fun np => np.encode.map NanoPay.serialize) commit
      fun sdb => { sdb with nanoPay := sdb.nanoPay.delete id }
  nanoPaySchedule.finalize faults order commit

def finalizePubSub : Exec Unit := do
  let pubSub ← Proc.gets fun s => s.sdb.pubSub
  Proc.forEach (order.range pubSubPrefix pubSub) fun ⟨id, ps⟩ =>
    flushEntry faults (pubSubPrefix ++ id) (ps.bind fun ps => ps.encode.map PubSub.serialize) commit
      fun sdb => { sdb with pubSub := sdb.pubSub.delete id }
  pubSubSchedule.finalize faults order commit

/-- What `FinalizeNames` writes for an entry of the map of names: nothing for a string. -/
def NameEntry.encode : Option NameEntry → Option Bytes
  | some (.info ni) => ni.encode.map NameInfo.bytes
  | _ => none

def finalizeCurrentNames : Exec Unit := do
  let names ← Proc.gets fun s => s.sdb.names
  Proc.forEach (order.range namePrefix names) fun ⟨nameId, entry⟩ =>
    flushEntry faults (namePrefix ++ nameId) (NameEntry.encode entry) commit
      fun sdb => { sdb with names := sdb.names.delete nameId }
  namesSchedule.finalize faults order commit

def deleteNameLegacy (registrantId : Bytes) : Exec Unit := do
  let name ← tryGet faults (nameRegistrantPrefix ++ registrantId)
  let nameId := env.toLower (name.getD [])
  tryDelete faults (nameRegistrantPrefix ++ registrantId)
  tryDelete faults (namePrefixLegacy ++ nameId)
  update fun sdb =>
    { sdb with names := sdb.names.delete registrantId, nameRegistrants := sdb.nameRegistrants.delete nameId }

def updateNameLegacy (registrant name : Bytes) : Exec Unit := do
  tryUpdate faults (namePrefixLegacy ++ env.toLower name) registrant
  tryUpdate faults (nameRegistrantPrefix ++ registrant) name

/-- Writes an entry of `FinalizeNames_legacy`: a name for whoever is its registrant. -/
def writeNameLegacy (registrantId : Bytes) : (entry : Option NameEntry) → Exec Unit
  | some (.name (first :: rest)) => do
    let name := first :: rest
    let nameId := env.toLower name
    match ← Proc.gets fun s => (s.sdb.nameRegistrants.load nameId).join with
    | some registrant => do
      updateNameLegacy faults env registrant name
      Proc.when (commit = true)
        (update fun sdb => { sdb with nameRegistrants := sdb.nameRegistrants.delete nameId })
    | none => pure ()
  | _ => deleteNameLegacy faults env registrantId

def finalizeNameLegacy (registrantId : Bytes) (entry : Option NameEntry) : Exec Unit := do
  writeNameLegacy faults env commit registrantId entry
  Proc.when (commit = true) (update fun sdb => { sdb with names := sdb.names.delete registrantId })

def finalizeNamesLegacy : Exec Unit := do
  let names ← Proc.gets fun s => s.sdb.names
  Proc.forEach (order.range namePrefix names) fun ⟨registrantId, entry⟩ =>
    finalizeNameLegacy faults env commit registrantId entry

def finalizeIssueAsset : Exec Unit := do
  let assets ← Proc.gets fun s => s.sdb.assets
  Proc.forEach (order.range issueAssetPrefix assets) fun ⟨assetID, asset⟩ => do
    Proc.when (asset.isEmpty = false) (tryUpdate faults (issueAssetPrefix ++ assetID.toArray) asset.serialize)
    Proc.when (asset.isEmpty = true ∨ commit = true)
      (update fun sdb => { sdb with assets := sdb.assets.delete assetID })

def finalizeNames (legacy commit : Bool) : Exec Unit :=
  if legacy then finalizeNamesLegacy faults env order commit else finalizeCurrentNames faults order commit

def flush (legacy commit : Bool) : Exec Unit := do
  finalizeAccounts faults order commit
  finalizeNanoPay faults order commit
  finalizeNames faults env order legacy commit
  finalizePubSub faults order commit
  finalizeIssueAsset faults order commit

def rootOf (hash : Trie → Outcome (Uint256 × Trie)) : Exec Uint256 := fun s =>
  match hash s.sdb.trie with
  | .ok (root, t) => (.ok root, { s with sdb := { s.sdb with trie := t } })
  | .error fault => (.error fault, s)

def finalize (legacy commit : Bool) : Exec Uint256 := do
  flush faults env order legacy commit
  rootOf fun t => if commit then t.commitTo env else t.hash env

end Nkn.Disk
