import Nkn.Model.Blockchain

/-! # Building a sigchain

`por/porserver.go`: a message carries the hash of its path from relay to relay. -/

namespace Nkn

open Go Outcome Store

structure SigChainElemInfo where
  nextPubkey : Bytes
  prevNodeID : Bytes
  prevHash : Bytes
  blockHash : Bytes
  mining : Bool
  backtracked : Bool
  sigAlgo : Pb.SigAlgo

/-- The `PorServer` of a relay. Signatures and VRFs are made with the key of its account; a VRF depends on the data only, so
that the cache of VRFs is left out. -/
structure Relayer where
  id : Bytes
  pubKey : Bytes
  sign : Bytes → Outcome Bytes
  getOrComputeVrf : Bytes → Outcome (Bytes × Bytes)
  cs : ChainStore
  sigChainElemCache : GoMap Bytes SigChainElemInfo
  finalizedBlockCache : GoMap Bytes Unit

variable (env : Env) (config : Config)

namespace Relayer

variable (ps : Relayer)

def sigAlgo (blockHash : Uint256) : Pb.SigAlgo :=
  match getHeightByBlockHash ps.cs blockHash with
  | .ok height => if config.allowSigChainHashSignature.getValueAtHeight height then .hash else .signature
  | .error _ => .hash

def updateRelayMessage (relayMessage : Pb.Relay) (nextPubkey prevNodeID : Bytes) (mining : Bool) :
    Outcome (Relayer × Pb.Relay) := do
  let (vrf, _) ← ps.getOrComputeVrf relayMessage.blockHash
  let blockHash ← uint256ParseFromBytes relayMessage.blockHash
  let sigAlgo := ps.sigAlgo config blockHash
  let sce : Pb.SigChainElem := ⟨ps.id, nextPubkey, mining, [], vrf, sigAlgo, []⟩
  let hash := sce.hash env relayMessage.lastHash
  let scei := (ps.sigChainElemCache.load hash).getD
    ⟨nextPubkey, prevNodeID, relayMessage.lastHash, relayMessage.blockHash, mining, false, sigAlgo⟩
  .ok ({ ps with sigChainElemCache := ps.sigChainElemCache.store hash scei },
    { relayMessage with lastHash := hash, sigChainLen := relayMessage.sigChainLen + 1 })

def finalize (blockHash : Bytes) : Relayer :=
  { ps with finalizedBlockCache := ps.finalizedBlockCache.store blockHash () }

def backtrackSigChain (elems : List Pb.SigChainElem) (hash : Bytes) (senderPubkey : Option Bytes) :
    Outcome (List Pb.SigChainElem × Bytes × Bytes) := do
  let scei ← orFail s!"sigchain element with hash {hexText hash} not found" (ps.sigChainElemCache.load hash)
  rejectIf (scei.backtracked = true) "sigchain has already been backtracked"
  rejectIf (∃ key ∈ senderPubkey, key ≠ scei.nextPubkey) "sender pubkey is different from expected value"
  rejectIf (ps.finalizedBlockCache.load scei.blockHash = none) s!"block {hexText scei.blockHash} is not finalized yet"
  let (vrf, proof) ← labelled "get or compute VRF error: " (ps.getOrComputeVrf scei.blockHash)
  let signature ← match scei.sigAlgo with
    | .signature => labelled "sign error: " (ps.sign hash)
    | .hash => .ok hash
    | .other _ => fail "unknown sigAlgo"
  .ok (⟨ps.id, scei.nextPubkey, scei.mining, signature, vrf, scei.sigAlgo, proof⟩ :: elems, scei.prevHash, scei.prevNodeID)

/-- The way back from the last relay to the first one: the elements and the hash that is left. -/
def collect (blockHash : Bytes) (elems : List Pb.SigChainElem) (hash : Bytes) :
    List Relayer → Outcome (List Pb.SigChainElem × Bytes × Option Bytes)
  | [] => .ok (elems, hash, none)
  | ps :: rest => do
    let (elems, hash, senderPubkey) ← collect blockHash elems hash rest
    let (elems, hash, _) ← (ps.finalize blockHash).backtrackSigChain elems hash senderPubkey
    .ok (elems, hash, some ps.pubKey)

/-- `CreateSigChainForClient`, without the cache of the sigchains that a node has created. -/
def createSigChainForClient (nonce dataSize : UInt32) (blockHash srcID srcPubkey destID destPubkey signature : Bytes)
    (sigAlgo : Pb.SigAlgo) : Pb.SigChain :=
  ⟨nonce, dataSize, blockHash, srcID, srcPubkey, destID, destPubkey, [⟨[], ps.pubKey, false, signature, [], sigAlgo, []⟩]⟩

end Relayer

def verifySigAlgo (pubkey hash : Bytes) (e : Pb.SigChainElem) : Outcome Unit :=
  match e.sigAlgo with
  | .signature => rejectIf (env.verify pubkey hash e.signature = false) "signature is invalid"
  | .hash => rejectIf (e.signature ≠ hash) "signature is different from expected value"
  | .other _ => fail "unknown SigAlgo"

def verifyElems (sc : Pb.SigChain) : List Pb.SigChainElem → (prevNextPubkey prevHash : Bytes) → Outcome Unit
  | [], _, _ => .ok ()
  | e :: rest, prevNextPubkey, prevHash => do
    rejectIf (prevNextPubkey.length ≠ 32) s!"invalid pubkey {hexText prevNextPubkey}"
    let hash := e.hash env (if sc.isComplete = true ∧ rest = [] then (env.sha256 prevHash).toArray else prevHash)
    verifySigAlgo env prevNextPubkey hash e
    rejectIf (e.vrf.length > 0 ∧ env.verifyVrf prevNextPubkey sc.blockHash e.vrf e.proof = false) "invalid vrf or proof"
    verifyElems sc rest
      (if sc.isComplete = true ∧ rest.length = 1 ∧ e.nextPubkey.length = 0 then sc.destPubkey else e.nextPubkey)
      (if e.vrf.length > 0 then hash else e.signature)

def verifySigChainSignatures (sc : Pb.SigChain) : Outcome Unit :=
  verifyElems env sc sc.elems sc.srcPubkey (env.sha256 sc.serializationMetadata).toArray

end Nkn
