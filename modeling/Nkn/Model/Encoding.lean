import Mathlib.Data.List.Sort
import Nkn.Model.Records

/-! # Encodings of the state records

How the records of `chain/store` are written to the state trie and read from it, and the keys under which they stand. -/

namespace Nkn

open Go Outcome

def writeFixed64 (f : Int64) : Bytes := writeUint64 f.toUInt64

/-- What `ReadUint16`, `ReadUint32` and `ReadUint64` do: a number of `width` bytes. -/
def readUint (width : Nat) (r : Bytes) : Outcome (Nat × Bytes) :=
  match readBuffer width r with
  | .ok (p, r) => .ok (fromLittleEndian p, r)
  | .error _ => fail "got EOF, can not get the next byte"

def writeUint16 (val : UInt16) : Bytes := littleEndian 2 val.toNat

def readUint16 (r : Bytes) : Outcome (UInt16 × Bytes) := do
  let (val, r) ← readUint 2 r
  .ok (UInt16.ofNat val, r)

def readUint32 (r : Bytes) : Outcome (UInt32 × Bytes) := do
  let (val, r) ← readUint 4 r
  .ok (UInt32.ofNat val, r)

def readUint64 (r : Bytes) : Outcome (UInt64 × Bytes) := do
  let (val, r) ← readUint 8 r
  .ok (UInt64.ofNat val, r)

def readFixed64 (r : Bytes) : Outcome (Int64 × Bytes) := do
  let (p, r) ← readBuffer 8 r
  .ok ((UInt64.ofNat (fromLittleEndian p)).toInt64, r)

def readVarUint64 (r : Bytes) : Outcome (Nat × Bytes) := readVarUint (2 ^ 64 - 1) r

namespace Store

def accountPrefix : Bytes := [0x00]

def nanoPayPrefix : Bytes := [0x01]

def nanoPayCleanupPrefix : Bytes := [0x02]

def namePrefixLegacy : Bytes := [0x03]

def nameRegistrantPrefix : Bytes := [0x04]

def pubSubPrefix : Bytes := [0x05]

def pubSubCleanupPrefix : Bytes := [0x06]

def issueAssetPrefix : Bytes := [0x07]

def namePrefix : Bytes := [0x08]

def nameCleanupPrefix : Bytes := [0x09]

def sortIDs (ids : List Uint256) : List Uint256 := ids.insertionSort fun a b => a.compareTo b ≠ .gt

namespace Account

/-- `Serialize`, with the asset ids in the order in which the balances are enumerated. -/
def serialize (acc : Account) (ids : List Uint256) : Bytes :=
  varUint acc.nonce.toNat ++ varUint ids.length ++
    (sortIDs ids).flatMap (fun id => id.toArray ++ writeFixed64 (acc.getBalance id)) ++ writeVarBytes acc.encodedID

def readBalances : (size : Nat) → GoMap Uint256 Int64 → Bytes → Outcome (GoMap Uint256 Int64 × Bytes)
  | 0, balances, r => .ok (balances, r)
  | size + 1, balances, r => do
    let (assetID, r) ← labelled "balance asset id serialize error: " (readBuffer 32 r)
    let (amount, r) ← labelled "balance amount deserialize error:" (readFixed64 r)
    readBalances size (balances.store (copyToUint256 assetID) amount) r

def read (r : Bytes) : Outcome (Account × Bytes) := do
  let (nonce, r) ← labelled "deserialize nonce error: " (readVarUint64 r)
  let (balanceSize, r) ← labelled "deserialize length of balances error: " (readVarUint64 r)
  let size := if balanceSize < 2 ^ 63 then balanceSize else 0
  let (balances, r) ← labelled "deserialize balances error: " (readBalances size ∅ r)
  let (id, r) ← labelled "deserialize id error: " (readVarBytes r)
  let versioned : Bool := id.length = Config.nodeIDBytes + 1
  .ok ({
    nonce := UInt64.ofNat nonce
    balances
    id := some (if versioned then id.drop 1 else id)
    idVersion := if versioned then id.getD 0 0 else 0 }, r)

def deserialize (r : Bytes) : Outcome Account := (read r).map Prod.fst

end Account

namespace NanoPay

def serialize (np : NanoPay) : Bytes := writeFixed64 np.balance ++ writeUint32 np.expiresAt

def read (r : Bytes) : Outcome (NanoPay × Bytes) := labelled "deserialize nanoPay error: " do
  let (balance, r) ← readFixed64 r
  let (expiresAt, r) ← readUint32 r
  .ok (⟨balance, expiresAt⟩, r)

def deserialize (r : Bytes) : Outcome NanoPay := (read r).map Prod.fst

end NanoPay

def NameInfo.read (r : Bytes) : Outcome (NameInfo × Bytes) := do
  let (registrant, r) ← readVarBytes r
  let (expiresAt, r) ← readUint32 r
  .ok (⟨registrant, expiresAt⟩, r)

def NameInfo.deserialize (r : Bytes) : Outcome NameInfo := (read r).map Prod.fst

namespace PubSub

def serialize (ps : PubSub) : Bytes :=
  writeVarBytes ps.subscriber ++ writeVarBytes ps.identifier ++ writeVarBytes ps.metadata ++ writeUint32 ps.expiresAt

def read (r : Bytes) : Outcome (PubSub × Bytes) := do
  let (subscriber, r) ← readVarBytes r
  let (identifier, r) ← readVarBytes r
  let (metadata, r) ← readVarBytes r
  let (expiresAt, r) ← readUint32 r
  .ok (⟨subscriber, identifier, metadata, expiresAt⟩, r)

def deserialize (r : Bytes) : Outcome PubSub := (read r).map Prod.fst

end PubSub

namespace Asset

def serialize (ia : Asset) : Bytes :=
  writeVarBytes ia.name ++ writeVarBytes ia.symbol ++ writeFixed64 ia.totalSupply ++ writeUint32 ia.precision ++
    ia.owner.toArray

def read (r : Bytes) : Outcome (Asset × Bytes) := do
  let (name, r) ← readVarBytes r
  let (symbol, r) ← readVarBytes r
  let (totalSupply, r) ← readFixed64 r
  let (precision, r) ← readUint32 r
  let (owner, r) ← readBuffer 20 r
  .ok (⟨name, symbol, totalSupply, precision, bytesToUint160 owner⟩, r)

def deserialize (r : Bytes) : Outcome Asset := (read r).map Prod.fst

end Asset

namespace Cleanup

def sortStrings (ids : List Bytes) : List Bytes := ids.insertionSort (· ≤ ·)

/-- What `updateNanoPayCleanup` and its siblings write, with the ids in the order in which they are enumerated. -/
def serialize (ids : List Bytes) : Bytes := varUint ids.length ++ (sortStrings ids).flatMap writeVarBytes

def readIds : (length : Nat) → Cleanup → Bytes → Outcome (Cleanup × Bytes)
  | 0, ids, r => .ok (ids, r)
  | length + 1, ids, r => do
    let (id, r) ← readVarBytes r
    readIds length (ids.store id ()) r

def read (r : Bytes) : Outcome (Cleanup × Bytes) := do
  let (length, r) ← readVarUint64 r
  readIds length ∅ r

def deserialize (r : Bytes) : Outcome Cleanup := (read r).map Prod.fst

end Cleanup

end Store

end Nkn
