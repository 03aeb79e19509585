import Nkn.Lib.GoMap
import Nkn.Model.Config

/-! # State records

The records of the state trie (`chain/store`) and the trie's content as one table per key family. -/

namespace Nkn.Store

open Go

structure Account where
  nonce : UInt64
  balances : GoMap Uint256 Int64
  /-- `none` is a nil slice. -/
  id : Option Bytes
  idVersion : UInt8

namespace Account

def new : Account := ⟨0, ∅, none, 0⟩

variable (acc : Account)

def getBalance (assetID : Uint256) : Int64 := acc.balances.read 0 assetID

def setBalance (assetID : Uint256) (amount : Int64) : Account :=
  { acc with balances := acc.balances.store assetID amount }

def setNonce (nonce : UInt64) : Account := { acc with nonce }

def setID (id : Bytes) (version : UInt8) : Account :=
  { acc with id := some id, idVersion := version }

def getID (config : Config) (acc : Account) (height : UInt32) : Option Bytes :=
  let version := Int32.ofNat acc.idVersion.toNat
  if version ≥ config.allowGetIDMinVersion.getValueAtHeight height ∧
      version ≤ config.allowGetIDMaxVersion.getValueAtHeight height then acc.id
  else none

def isEmpty (acc : Account) : Bool := acc.nonce = 0 && acc.balances.entries.isEmpty && acc.id.isNone

/-- The id field of the encoding: the id, after its version if that is not 0. -/
def encodedID : Bytes :=
  if acc.idVersion > 0 then acc.idVersion :: acc.id.getD [] else acc.id.getD []

/-- The account read back from its encoding: the first byte of a 33-byte id is taken as the version. -/
def stored : Account :=
  let versioned : Bool := acc.encodedID.length = Config.nodeIDBytes + 1
  { acc with
    id := some (if versioned then acc.encodedID.drop 1 else acc.encodedID)
    idVersion := if versioned then acc.encodedID.getD 0 0 else 0 }

def encode : Option Account := if acc.isEmpty then none else some acc.stored

@[simp] theorem getBalance_new (assetID : Uint256) : new.getBalance assetID = 0 := rfl

@[simp] theorem getBalance_setBalance (assetID assetID' : Uint256) (amount : Int64) :
    (acc.setBalance assetID amount).getBalance assetID' =
      if assetID' = assetID then amount else acc.getBalance assetID' :=
  GoMap.read_store _ _ _ _ _

theorem getBalance_of_isEmpty {acc : Account} (empty : acc.isEmpty = true) (assetID : Uint256) :
    acc.getBalance assetID = 0 := by
  simp only [isEmpty, Bool.and_eq_true, List.isEmpty_iff] at empty
  have none : acc.balances.load assetID = none := by
    simp [GoMap.load, AList.lookup, empty.1.2]
  simp [getBalance, GoMap.read, none]

theorem nonce_of_isEmpty {acc : Account} (empty : acc.isEmpty = true) : acc.nonce = 0 := by
  simp only [isEmpty, Bool.and_eq_true, decide_eq_true_eq] at empty
  exact empty.1.1

end Account

structure Asset where
  name : Bytes
  symbol : Bytes
  totalSupply : Int64
  precision : UInt32
  owner : Uint160

def Asset.isEmpty (asset : Asset) : Bool := asset.name.isEmpty && asset.symbol.isEmpty

structure NanoPay where
  balance : Int64
  expiresAt : UInt32
deriving DecidableEq

namespace NanoPay

def empty : NanoPay := ⟨0, 0⟩

def encode (np : NanoPay) : Option NanoPay := if np = empty then none else some np

end NanoPay

structure NameInfo where
  registrant : Bytes
  expiresAt : UInt32
deriving DecidableEq

namespace NameInfo

def empty : NameInfo := ⟨[], 0⟩

def bytes (ni : NameInfo) : Bytes := writeVarBytes ni.registrant ++ writeUint32 ni.expiresAt

def encode (ni : NameInfo) : Option NameInfo := if ni = empty then none else some ni

end NameInfo

structure PubSub where
  subscriber : Bytes
  identifier : Bytes
  metadata : Bytes
  expiresAt : UInt32
deriving DecidableEq

namespace PubSub

def empty : PubSub := ⟨[], [], [], 0⟩

def encode (ps : PubSub) : Option PubSub := if ps = empty then none else some ps

end PubSub

/-- The ids to be deleted at some height: `nanoPayCleanup`, `namesCleanup` and `pubSubCleanup`. -/
abbrev Cleanup := GoMap Bytes Unit

def Cleanup.encode (ids : Cleanup) : Option Cleanup := if ids.entries.isEmpty then none else some ids

structure StateTrie where
  accounts : Uint160 → Option Account
  nanoPay : Bytes → Option NanoPay
  nanoPayCleanup : UInt32 → Option Cleanup
  /-- Registrant by name id, under `NamePrefix_legacy`. -/
  nameRegistrantsLegacy : Bytes → Option Bytes
  /-- Name by registrant, under `NameRegistrantPrefix`. -/
  namesLegacy : Bytes → Option Bytes
  pubSub : Bytes → Option PubSub
  pubSubCleanup : UInt32 → Option Cleanup
  assets : Uint256 → Option Asset
  names : Bytes → Option NameInfo
  namesCleanup : UInt32 → Option Cleanup

def StateTrie.empty : StateTrie :=
  ⟨fun _ => none, fun _ => none, fun _ => none, fun _ => none, fun _ => none, fun _ => none, fun _ => none,
    fun _ => none, fun _ => none, fun _ => none⟩

end Nkn.Store
