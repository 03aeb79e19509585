import Nkn.Model.Transaction

/-! # Block headers

The hashing encoder of `block/header.go` and the Merkle root of a block's transactions. -/

namespace Nkn

open Go Outcome

abbrev Header := Pb.Header

abbrev Block := Pb.Block

variable (env : Env)

namespace Header

/-- The bytes that are hashed and signed: neither the random beacon nor the winner hash is among them. -/
def serializeUnsigned (h : Pb.UnsignedHeader) : Bytes :=
  writeUint32 h.version ++ (writeVarBytes h.prevBlockHash ++ (writeVarBytes h.transactionsRoot ++
    (writeVarBytes h.stateRoot ++ (writeUint64 h.timestamp.toUInt64 ++ (writeUint32 h.height ++
    (writeUint32 h.winnerType.code ++ (writeVarBytes h.signerPk ++ writeVarBytes h.signerId)))))))

def getHashForSigning (h : Header) : Bytes := (env.sha256 (serializeUnsigned h.unsignedHeader)).toArray

def hash (h : Header) : Uint256 := env.sha256 (getHashForSigning env h)

def verifySignature (h : Header) : Outcome Unit :=
  rejectIf (env.verify h.unsignedHeader.signerPk (getHashForSigning env h) h.signature = false) "invalid signature"

end Header

def doubleSha256 (s : List Uint256) : Uint256 := env.sha256 (env.sha256 (s.flatMap Word.toArray)).toArray

/-- The next level of the tree; a last node without partner is paired with itself. -/
def levelUp : List Uint256 → List Uint256
  | left :: right :: rest => doubleSha256 env [left, right] :: levelUp rest
  | [single] => [doubleSha256 env [single, single]]
  | [] => []

/-- Goes up the tree until one node is left; a list of `n` nodes needs fewer than `n` levels. -/
def climb : Nat → List Uint256 → Outcome Uint256
  | _, [root] => .ok root
  | levels + 1, nodes => climb levels (levelUp env nodes)
  | 0, _ => fail "newMerkleTree input no item error"

def computeRoot (hashes : List Uint256) : Outcome Uint256 := climb env hashes.length hashes

namespace Block

def hash (b : Block) : Uint256 := Header.hash env b.header

def height (b : Block) : UInt32 := b.header.unsignedHeader.height

def getTxsSize (b : Block) : Nat := (b.transactions.map fun txn => (Transaction.getSize env txn).toNat).sum

def computeID (preBlockHash txnHash : Uint256) (randomBeacon : Bytes) : Bytes :=
  (env.sha256 (preBlockHash.toArray ++ txnHash.toArray ++ randomBeacon)).toArray

end Block

end Nkn
