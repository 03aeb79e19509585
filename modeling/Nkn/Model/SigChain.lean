import Nkn.Model.Transaction

/-! # Sigchains

The part of `pb/sigchain.go` that elects the miner of a relay path: the hash of the last relay, the signature hash, and
the choice of one relay by it. -/

namespace Nkn

open Go Outcome

/-- One bit to the right; `carry` is the bit that comes in from the left, in the highest position. -/
def shiftRight (carry : UInt8) : Bytes → Bytes
  | [] => []
  | byte :: rest => (byte >>> 1 ||| carry) :: shiftRight (byte <<< 7) rest

def shiftLeft : Bytes → Bytes
  | [] => []
  | byte :: rest => (byte <<< 1 ||| rest.headD 0 >>> 7) :: shiftLeft rest

/-- `rightShiftBytes`: a shift to the left ends early once the highest bit is set. -/
def rightShiftBytes (b : Bytes) (n : Int) : Bytes :=
  if 0 ≤ n then (shiftRight 0)^[n.toNat] b
  else (fun b => if b.headD 0 &&& 0x80 = 0x80 then b else shiftLeft b)^[(-n).toNat] b

namespace Pb.SigChainElem

def serializationUnsigned (elem : SigChainElem) : Bytes :=
  writeVarBytes elem.id ++ writeVarBytes elem.nextPubkey ++ [if elem.mining then 1 else 0] ++ elem.vrf

def hash (env : Env) (elem : SigChainElem) (prevHash : Bytes) : Bytes :=
  (env.sha256 (prevHash ++ elem.serializationUnsigned)).toArray

end Pb.SigChainElem

namespace Pb.SigChain

variable (env : Env) (config : Config) (sc : SigChain)

def serializationMetadata : Bytes :=
  writeUint32 sc.nonce ++ writeUint32 sc.dataSize ++ writeVarBytes sc.blockHash ++ writeVarBytes sc.srcId ++
    writeVarBytes sc.srcPubkey ++ writeVarBytes sc.destId ++ writeVarBytes sc.destPubkey

/-- Whether the path has reached its destination, after at least one relay. -/
def isComplete : Bool :=
  match sc.elems.reverse with
  | last :: relay :: _ :: _ =>
    (last.id = [] || last.id = sc.destId) && (relay.nextPubkey = [] || relay.nextPubkey = sc.destPubkey)
  | _ => false

/-- What the next relay signs: the hash of an element with a VRF output, the signature of any other element. -/
def relayHash (prevHash : Bytes) (elem : SigChainElem) : Bytes :=
  if elem.vrf.length > 0 then elem.hash env prevHash else elem.signature

def lastRelayHash : Outcome Bytes := do
  rejectIf (sc.isComplete = false) "sigchain is not complete"
  let metaHash := env.sha256 sc.serializationMetadata
  .ok (sc.elems.dropLast.foldl (relayHash env) metaHash.toArray)

/-- `ComputeSignatureHash`: the longer the sigchain, the smaller the number. -/
def computeSignatureHash (lastRelayHash : Bytes) (sigChainLen : Nat) (height : UInt32) (leftShiftBit : Int) : Bytes :=
  let maxSigChainLen := (config.sigChainBitShiftMaxLength.getValueAtHeight height).toInt
  let counted := if 0 < maxSigChainLen ∧ maxSigChainLen < sigChainLen then maxSigChainLen else sigChainLen
  let perElement := (config.sigChainBitShiftPerElement.getValueAtHeight height).toInt
  rightShiftBytes (env.sha256 lastRelayHash).toArray (perElement * counted - leftShiftBit)

def signatureHash (height : UInt32) (leftShiftBit : Int) : Outcome Bytes := do
  let lastRelayHash ← sc.lastRelayHash env
  .ok (computeSignatureHash env config lastRelayHash sc.elems.length height leftShiftBit)

/-- How often the relay at a position is among the candidates: relays in the middle of the path count more. The
weights of the source are small natural numbers, on which `math.Pow` is exact. -/
def minerWeight (height : UInt32) (length position : Nat) : Nat :=
  let base := (config.sigChainMinerWeightBase.getValueAtHeight height).toInt
  let maxExponent := (config.sigChainMinerWeightMaxExponent.getValueAtHeight height).toInt
  let exponent := min (min maxExponent (position - 1)) (length - 2 - position)
  base.toNat ^ exponent.toNat

def minerElems (height : UInt32) : List Nat :=
  sc.elems.zipIdx.flatMap fun (elem, position) =>
    if 0 < position ∧ position < sc.elems.length - 1 ∧ elem.mining = true then
      List.replicate (minerWeight config height sc.elems.length position) position
    else []

def bigEndian (b : Bytes) : Nat := b.foldl (fun value byte => value * 256 + byte.toNat) 0

def getMiner (height : UInt32) (randomBeacon : Bytes) : Outcome (Bytes × Bytes) := do
  rejectIf (sc.isComplete = false) "sigchain is not complete"
  let candidates := sc.minerElems config height
  rejectIf (candidates = []) "no mining element"
  let sigHash ← sc.signatureHash env config height 0
  let h := if config.sigChainMinerSalt.getValueAtHeight height then (env.sha256 (sigHash ++ randomBeacon)).toArray
    else sigHash
  let position := candidates.getD (bigEndian h % candidates.length) 0
  match sc.elems[position - 1]?, sc.elems[position]? with
  | some relay, some elem =>
    if position = 0 then fail "invalid miner index" else .ok (relay.nextPubkey, elem.id)
  | _, _ => crash "index out of range"

end Pb.SigChain

end Nkn
