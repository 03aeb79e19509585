import Nkn.Model.Transaction

/-! # The state database

`StateDB` of `chain/store`: write-back caches over a state trie for accounts, channels, names, subscriptions and assets,
the ids to delete at a height, and `Finalize`. -/

namespace Nkn.Store

open Go Outcome

/-- `StateDB`; a table holds the trie's entries of one key family and the `sync.Map` over them. The source
keeps the names of both name services in one `sync.Map`, under 20-byte name ids and registrants' keys. -/
structure StateDB where
  accounts : Table Uint160 Account
  nanoPay : Table Bytes NanoPay
  nanoPayCleanup : Table UInt32 Cleanup
  namesLegacy : Table Bytes Bytes
  nameRegistrantsLegacy : Table Bytes Bytes
  pubSub : Table Bytes PubSub
  pubSubCleanup : Table UInt32 Cleanup
  assets : Table Uint256 Asset
  names : Table Bytes NameInfo
  namesCleanup : Table UInt32 Cleanup

namespace StateDB

def new (trie : StateTrie) : StateDB where
  accounts := .ofStore trie.accounts
  nanoPay := .ofStore trie.nanoPay
  nanoPayCleanup := .ofStore trie.nanoPayCleanup
  namesLegacy := .ofStore trie.namesLegacy
  nameRegistrantsLegacy := .ofStore trie.nameRegistrantsLegacy
  pubSub := .ofStore trie.pubSub
  pubSubCleanup := .ofStore trie.pubSubCleanup
  assets := .ofStore trie.assets
  names := .ofStore trie.names
  namesCleanup := .ofStore trie.namesCleanup

variable (sdb : StateDB)

def trie : StateTrie where
  accounts := sdb.accounts.stored
  nanoPay := sdb.nanoPay.stored
  nanoPayCleanup := sdb.nanoPayCleanup.stored
  nameRegistrantsLegacy := sdb.nameRegistrantsLegacy.stored
  namesLegacy := sdb.namesLegacy.stored
  pubSub := sdb.pubSub.stored
  pubSubCleanup := sdb.pubSubCleanup.stored
  assets := sdb.assets.stored
  names := sdb.names.stored
  namesCleanup := sdb.namesCleanup.stored

def getAccount (addr : Uint160) : Option Account := sdb.accounts.read addr

def setAccount (addr : Uint160) (acc : Account) : StateDB :=
  { sdb with accounts := sdb.accounts.put addr acc }

def getOrNewAccount (addr : Uint160) : Account := (sdb.getAccount addr).getD .new

def getBalance (sdb : StateDB) (assetID : Uint256) (addr : Uint160) : Int64 :=
  match sdb.getAccount addr with
  | some acc => acc.getBalance assetID
  | none => 0

def getNonce (addr : Uint160) : UInt64 :=
  match sdb.getAccount addr with
  | some acc => acc.nonce
  | none => 0

def getID (config : Config) (sdb : StateDB) (addr : Uint160) (height : UInt32) : Option Bytes :=
  match sdb.getAccount addr with
  | some acc => acc.getID config height
  | none => none

def getIDVersion (addr : Uint160) : Option Bytes × UInt8 :=
  match sdb.getAccount addr with
  | some acc => (acc.id, acc.idVersion)
  | none => (none, 0)

inductive Operation where
  | addition
  | subtraction
deriving DecidableEq

def updateBalance (addr : Uint160) (assetID : Uint256) (value : Int64) (op : Operation) :
    Outcome StateDB :=
  let acc := sdb.getOrNewAccount addr
  let amount := acc.getBalance assetID
  match op with
  | .addition => .ok (sdb.setAccount addr (acc.setBalance assetID (amount + value)))
  | .subtraction => do
    rejectIf (amount < value) "UpdateBalance: no sufficient funds"
    .ok (sdb.setAccount addr (acc.setBalance assetID (amount - value)))

def incrNonce (addr : Uint160) : StateDB :=
  let acc := sdb.getOrNewAccount addr
  sdb.setAccount addr (acc.setNonce (acc.nonce + 1))

def updateID (addr : Uint160) (id : Bytes) (version : UInt8) : StateDB :=
  sdb.setAccount addr ((sdb.getOrNewAccount addr).setID id version)

/-! The three schedules share one implementation over their own table. -/

def getCleanup (schedule : Table UInt32 Cleanup) (height : UInt32) : Cleanup := (schedule.read height).getD ∅

def cleanupAtHeight (schedule : Table UInt32 Cleanup) (height : UInt32) (id : Bytes) : Table UInt32 Cleanup :=
  schedule.put height ((getCleanup schedule height).store id ())

def cancelCleanupAtHeight (schedule : Table UInt32 Cleanup) (height : UInt32) (id : Bytes) : Table UInt32 Cleanup :=
  schedule.put height ((getCleanup schedule height).delete id)

def cleanupRecords {V : Type} (records : Table Bytes V) (ids : Cleanup) : Table Bytes V :=
  ids.keys.foldl (fun records id => records.putNil id) records

def getNanoPayId (sender recipient : Uint160) (nonce : UInt64) : Bytes :=
  sender.toArray ++ recipient.toArray ++ writeUint64 nonce

/-- `getNanoPay`: an absent channel is an empty record; the record found is cached. -/
def getNanoPayById (id : Bytes) : NanoPay × StateDB :=
  let np := (sdb.nanoPay.read id).getD .empty
  (np, { sdb with nanoPay := sdb.nanoPay.put id np })

def getNanoPay (sender recipient : Uint160) (nonce : UInt64) : NanoPay × StateDB :=
  sdb.getNanoPayById (getNanoPayId sender recipient nonce)

def setNanoPay (sender recipient : Uint160) (nonce : UInt64) (balance : Int64)
    (expiresAt : UInt32) : StateDB :=
  let id := getNanoPayId sender recipient nonce
  match sdb.nanoPay.pending.load id with
  | some (some np) =>
    let schedule := cancelCleanupAtHeight sdb.nanoPayCleanup np.expiresAt id
    { sdb with
      nanoPayCleanup := cleanupAtHeight schedule expiresAt id
      nanoPay := sdb.nanoPay.put id ⟨balance, expiresAt⟩ }
  | _ =>
    { sdb with
      nanoPay := sdb.nanoPay.put id ⟨balance, expiresAt⟩
      nanoPayCleanup := cleanupAtHeight sdb.nanoPayCleanup expiresAt id }

def cleanupNanoPay (height : UInt32) : StateDB :=
  { sdb with
    nanoPay := cleanupRecords sdb.nanoPay (getCleanup sdb.nanoPayCleanup height)
    nanoPayCleanup := sdb.nanoPayCleanup.putNil height }

variable (env : Env)

def hashPrefixLength : Nat := 20

def getNameId (name : Bytes) : Bytes := (env.sha256 (env.toLower name)).toArray.take hashPrefixLength

variable (sdb : StateDB)

def getNameInfo (nameId : Bytes) : NameInfo × StateDB :=
  let ni := (sdb.names.read nameId).getD .empty
  (ni, { sdb with names := sdb.names.put nameId ni })

def getRegistrant (name : Bytes) : Bytes × UInt32 :=
  let ni := (sdb.getNameInfo (getNameId env name)).1
  (ni.registrant, ni.expiresAt)

/-- `registerName`: a pending cleanup is cancelled under the name itself, not under its id. -/
def registerName (name registrant : Bytes) (expiresAt : UInt32) : StateDB :=
  let nameId := getNameId env name
  let (ni, sdb) := sdb.getNameInfo nameId
  let schedule := if ni = .empty then sdb.namesCleanup else cancelCleanupAtHeight sdb.namesCleanup ni.expiresAt name
  { sdb with
    names := sdb.names.put nameId ⟨registrant, expiresAt⟩
    namesCleanup := cleanupAtHeight schedule expiresAt nameId }

def transferName (name recipient : Bytes) : StateDB :=
  let nameId := getNameId env name
  let (ni, sdb) := sdb.getNameInfo nameId
  { sdb with names := sdb.names.put nameId { ni with registrant := recipient } }

def deleteName (name : Bytes) : StateDB :=
  let nameId := getNameId env name
  let (ni, sdb) := sdb.getNameInfo nameId
  if ni = .empty then sdb
  else
    { sdb with
      namesCleanup := cancelCleanupAtHeight sdb.namesCleanup ni.expiresAt name
      names := sdb.names.put nameId .empty }

def cleanupNames (height : UInt32) : StateDB :=
  { sdb with
    names := cleanupRecords sdb.names (getCleanup sdb.namesCleanup height)
    namesCleanup := sdb.namesCleanup.putNil height }

def setNameLegacy (registrant name : Bytes) : StateDB :=
  { sdb with
    namesLegacy := sdb.namesLegacy.put registrant name
    nameRegistrantsLegacy := sdb.nameRegistrantsLegacy.put (env.toLower name) registrant }

def deleteNameForRegistrantLegacy (registrant name : Bytes) : StateDB :=
  { sdb with
    namesLegacy := sdb.namesLegacy.put registrant []
    nameRegistrantsLegacy := sdb.nameRegistrantsLegacy.putNil (env.toLower name) }

def getNameLegacy (registrant : Bytes) : Bytes := (sdb.namesLegacy.read registrant).getD []

/-- `getRegistrant_legacy`: the trie is read under `NamePrefix`, which the legacy service never writes. -/
def getRegistrantLegacy (name : Bytes) : Option Bytes :=
  match sdb.nameRegistrantsLegacy.pending.load (env.toLower name) with
  | some (some registrant) => some registrant
  | _ => (sdb.names.stored (env.toLower name)).map NameInfo.bytes

def getTopicId (topic : Bytes) : Bytes := (env.sha256 (env.toLower topic)).toArray.take hashPrefixLength

def getTopicBucketId (topic : Bytes) (bucket : UInt32) : Bytes := getTopicId env topic ++ writeUint32 bucket

def getPubSubId (topic : Bytes) (bucket : UInt32) (subscriber identifier : Bytes) : Bytes :=
  getTopicBucketId env topic bucket ++ (env.sha256 (subscriber ++ identifier)).toArray.take hashPrefixLength

def getPubSub (id : Bytes) : PubSub × StateDB :=
  let ps := (sdb.pubSub.read id).getD .empty
  (ps, { sdb with pubSub := sdb.pubSub.put id ps })

def subscribe (topic : Bytes) (bucket : UInt32) (subscriber identifier metadata : Bytes)
    (expiresAt : UInt32) : StateDB :=
  let id := getPubSubId env topic bucket subscriber identifier
  let (ps, sdb) := sdb.getPubSub id
  let renewed := if ps = .empty then { ps with subscriber, identifier } else ps
  let schedule := if ps = .empty then sdb.pubSubCleanup else cancelCleanupAtHeight sdb.pubSubCleanup ps.expiresAt id
  { sdb with
    pubSub := sdb.pubSub.put id { renewed with metadata, expiresAt }
    pubSubCleanup := cleanupAtHeight schedule expiresAt id }

def unsubscribe (topic subscriber identifier : Bytes) : StateDB :=
  let id := getPubSubId env topic 0 subscriber identifier
  let (ps, sdb) := sdb.getPubSub id
  if ps = .empty then sdb
  else
    { sdb with
      pubSubCleanup := cancelCleanupAtHeight sdb.pubSubCleanup ps.expiresAt id
      pubSub := sdb.pubSub.putNil id }

def isSubscribed (topic : Bytes) (bucket : UInt32) (subscriber identifier : Bytes) : Bool :=
  (sdb.getPubSub (getPubSubId env topic bucket subscriber identifier)).1 ≠ .empty

def cleanupPubSub (height : UInt32) : StateDB :=
  { sdb with
    pubSub := cleanupRecords sdb.pubSub (getCleanup sdb.pubSubCleanup height)
    pubSubCleanup := sdb.pubSubCleanup.putNil height }

def storeAsset (assetID : Uint256) (asset : Asset) : StateDB :=
  { sdb with assets := sdb.assets.put assetID asset }

def setAsset (assetID : Uint256) (asset : Asset) : Outcome StateDB := do
  rejectIf ((sdb.assets.stored assetID).isSome = true) s!"asset {hexText assetID.toArray} has already exist"
  .ok (sdb.storeAsset assetID asset)

/-- `increaseTotalSupply`: the source does not check that the asset exists. -/
def increaseTotalSupply (assetID : Uint256) (amount : Int64) : Outcome StateDB :=
  match sdb.assets.read assetID with
  | none => crash "invalid memory address or nil pointer dereference"
  | some asset => do
    rejectIf (asset.totalSupply + amount ≤ 0) "totalSupply overflow"
    .ok (sdb.storeAsset assetID { asset with totalSupply := asset.totalSupply + amount })

def finalizeNameLegacy (commit : Bool) (sdb : StateDB) (registrantId : Bytes) : StateDB :=
  match sdb.namesLegacy.pending.load registrantId with
  | some (some (first :: rest)) =>
    let name := first :: rest
    let nameId := env.toLower name
    match sdb.nameRegistrantsLegacy.pending.load nameId with
    | some (some registrant) =>
      let registrants := sdb.nameRegistrantsLegacy
      let names := sdb.namesLegacy
      { sdb with
        nameRegistrantsLegacy := {
          stored := Function.update registrants.stored nameId (some registrant)
          pending := if commit then registrants.pending.delete nameId else registrants.pending }
        namesLegacy := { names with stored := Function.update names.stored registrant (some name) } }
    | _ => sdb
  | _ =>
    -- `deleteName_legacy`: the name is taken from the trie, and both directions are removed
    let nameId := env.toLower ((sdb.namesLegacy.stored registrantId).getD [])
    let registrants := sdb.nameRegistrantsLegacy
    let names := sdb.namesLegacy
    { sdb with
      namesLegacy := {
        stored := Function.update names.stored registrantId none
        pending := names.pending.delete registrantId }
      names := { sdb.names with pending := sdb.names.pending.delete registrantId }
      nameRegistrantsLegacy := {
        stored := Function.update registrants.stored nameId none
        pending := registrants.pending.delete nameId } }

/-- `FinalizeNames_legacy` visits the entries of both name services: a record of the newer one is not a name, and
its key is deleted. -/
def finalizeNamesLegacy (commit : Bool) (sdb : StateDB) : StateDB :=
  let keys := env.rangeOrder (sdb.namesLegacy.pending.keys ++ sdb.names.pending.keys)
  let visited := keys.foldl (finalizeNameLegacy env commit) sdb
  if commit then
    { visited with
      namesLegacy := { visited.namesLegacy with pending := ∅ }
      names := { visited.names with pending := ∅ } }
  else visited

/-- `FinalizeIssueAsset`: an empty pending asset is dropped and leaves the trie alone. -/
def finalizeAssets (commit : Bool) (assets : Table Uint256 Asset) : Table Uint256 Asset where
  stored assetID :=
    match assets.pending.load assetID with
    | some (some asset) => if asset.isEmpty then assets.stored assetID else some asset
    | _ => assets.stored assetID
  pending := if commit then ∅ else assets.pending

/-- `Finalize`: writes the pending records to the trie; which name service is written depends on `legacy`. -/
def finalize (legacy commit : Bool) (sdb : StateDB) : StateDB :=
  let named :=
    if legacy then finalizeNamesLegacy env commit sdb
    else
      { sdb with
        names := sdb.names.finalize NameInfo.encode commit
        namesCleanup := sdb.namesCleanup.finalize Cleanup.encode commit }
  { named with
    accounts := sdb.accounts.finalize Account.encode commit
    nanoPay := sdb.nanoPay.finalize NanoPay.encode commit
    nanoPayCleanup := sdb.nanoPayCleanup.finalize Cleanup.encode commit
    pubSub := sdb.pubSub.finalize PubSub.encode commit
    pubSubCleanup := sdb.pubSubCleanup.finalize Cleanup.encode commit
    assets := finalizeAssets commit sdb.assets }

end StateDB

end Nkn.Store
