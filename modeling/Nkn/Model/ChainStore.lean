import Nkn.Model.Header
import Nkn.Model.StateDB

/-! # The chain store

`ChainStore` of `chain/store`: the database by key family, the readers over it, and the donation paid out
with every block. -/

namespace Nkn.Store

open Go Outcome Config

/-- A block as `Trim` writes it: its header and the hashes of its transactions. -/
structure TrimmedBlock where
  header : Header
  hashes : List Uint256

structure Donation where
  height : UInt32
  amount : Int64
deriving DecidableEq

structure DB where
  headers : Uint256 → Option TrimmedBlock
  blockHashes : UInt32 → Option Uint256
  transactions : Uint256 → Option (UInt32 × Transaction)
  donations : UInt32 → Option Donation
  /-- The tries whose nodes are stored, by root. -/
  tries : Uint256 → Option StateTrie
  currentStateTrie : Option Uint256
  currentBlock : Option (Uint256 × UInt32)

structure HeaderCache where
  headerIndex : GoMap UInt32 Uint256
  headerCache : GoMap Uint256 Header
  currentCacheHeight : UInt32

structure ChainStore where
  db : DB
  states : StateDB
  currentBlockHash : Uint256
  currentBlockHeight : UInt32
  headerCache : HeaderCache
  sigChainCache : GoMap Uint256 Bytes

namespace ChainStore

variable (env : Env) (config : Config)

variable (cs : ChainStore)

def getHeight : UInt32 := cs.currentBlockHeight

def isTxHashDuplicate (txhash : Uint256) : Bool := (cs.db.transactions txhash).isSome

def notFound {α : Type} (found : Option α) : Outcome α := orFail "leveldb: not found" found

def getBlockHash (height : UInt32) : Outcome Uint256 := notFound (cs.db.blockHashes height)

def getHeader (hash : Uint256) : Outcome Header :=
  notFound ((cs.db.headers hash).map TrimmedBlock.header)

def getHeaderByHeight (height : UInt32) : Outcome Header := do
  let hash ← cs.getBlockHash height
  cs.getHeader hash

def getTx (hash : Uint256) : Outcome (Transaction × UInt32) := notFound ((cs.db.transactions hash).map Prod.swap)

def getTransaction (hash : Uint256) : Outcome Transaction :=
  notFound ((cs.db.transactions hash).map Prod.snd)

/-- `GetBlock`: `FromTrimmedData` recomputes the transactions root from the stored hashes. -/
def getBlock (hash : Uint256) : Outcome Block := do
  let trimmed ← notFound (cs.db.headers hash)
  let root ← labelled "block Deserialize merkleTree compute failed: " (computeRoot env trimmed.hashes)
  let transactions ← trimmed.hashes.mapM cs.getTransaction
  .ok {
    header := {
      trimmed.header with
      unsignedHeader := { trimmed.header.unsignedHeader with transactionsRoot := root.toArray } }
    transactions }

def getBlockByHeight (height : UInt32) : Outcome Block := do
  let hash ← cs.getBlockHash height
  cs.getBlock env hash

def getBalance (cs : ChainStore) (addr : Uint160) : Int64 := cs.states.getBalance nknAssetID addr

def getNonce (cs : ChainStore) (addr : Uint160) : UInt64 := cs.states.getNonce addr

def getID (cs : ChainStore) (publicKey : Bytes) (height : UInt32) : Option Bytes :=
  cs.states.getID config (createProgramHash env publicKey) height

def getIDVersion (cs : ChainStore) (publicKey : Bytes) : Option Bytes × UInt8 :=
  cs.states.getIDVersion (createProgramHash env publicKey)

/-- The recorded balance of a channel and the height at which the channel expires. -/
def getNanoPay (cs : ChainStore) (sender recipient : Uint160) (nonce : UInt64) : Int64 × UInt32 :=
  let np := (cs.states.getNanoPay sender recipient nonce).1
  (np.balance, np.expiresAt)

def getAsset (assetID : Uint256) : Outcome Asset :=
  orFail "asset in GetAsset is nil" (cs.states.assets.stored assetID)

def getCurrentBlockStateRoot : Outcome Uint256 := notFound cs.db.currentStateTrie

def openTrie (root : Uint256) : Outcome StateTrie :=
  if root = emptyUint256 then .ok .empty else orFail "missing trie node" (cs.db.tries root)

/-- `getDonation`: a share of the donation account's balance, or the amount fixed for the current period. -/
def currentDonation : Outcome Donation :=
  if config.donationNoDelay.getValueAtHeight (cs.currentBlockHeight + 1) then
    .ok ⟨cs.currentBlockHeight + 1, cs.getBalance donationAddress * 11 / 25000000⟩
  else
    notFound (cs.db.donations (cs.currentBlockHeight / rewardAdjustInterval * rewardAdjustInterval))

def getDonation : Outcome Int64 := do
  let donation ← cs.currentDonation config
  .ok donation.amount

/-- `CalcNextDonation_legacy`: half of the donation account's balance, spread over a period. -/
def calcNextDonation (height : UInt32) : Outcome Donation :=
  if height = 0 then .ok ⟨0, 0⟩
  else do
    let last ← cs.currentDonation config
    rejectIf (last.height + rewardAdjustInterval ≠ height) "invalid height to update donation"
    let donation := cs.getBalance donationAddress * 1 / 2
    .ok ⟨height, donation / Int64.ofNat rewardAdjustInterval.toNat⟩

end ChainStore

end Nkn.Store
