import Mathlib.Data.Nat.Size
import Nkn.Lib.Search
import Nkn.Model.SigChain

/-! # The path of a sigchain

`por/sigchain.go` without the signatures, and the check of `lnode/neighbor.go` that looks for a skipped node. -/

namespace Nkn

open Go Outcome Pb.SigChain

/-- The functions of the overlay library on ids, which the source calls with ids of `NodeIDBytes * 8` bits. -/
structure Chord where
  distance : Bytes → Bytes → ℕ
  powerOffset : Bytes → UInt32 → Bytes
  betweenLeftIncl : Bytes → Bytes → Bytes → Bool
  compareID : Bytes → Bytes → ℤ

namespace Chord

/-- `BitLen() - 1` of a distance. -/
def bitIdx (dist : ℕ) : ℤ := dist.size - 1

variable (chord : Chord)

def fingerIdx (fromID toID : Bytes) : ℤ := bitIdx (chord.distance fromID toID)

def fingerStartID (fromID toID : Bytes) : Bytes := chord.powerOffset fromID (.ofInt (chord.fingerIdx fromID toID))

def inFinger (fromID : Bytes) (fingerIdx : ℤ) (id : Bytes) : Bool :=
  chord.betweenLeftIncl (chord.powerOffset fromID (.ofInt fingerIdx)) (chord.powerOffset fromID (.ofInt (fingerIdx + 1))) id

end Chord

variable (env : Env) (config : Config) (chord : Chord)

namespace Pb.SigChain

def relays (sc : SigChain) : List SigChainElem := (sc.elems.drop 1).dropLast

def relayIDs (sc : SigChain) : List Bytes := sc.relays.map (·.id)

/-- The hops from relay to relay, from element `i` to element `i + 1`, with `1 ≤ i < Length - 2`. -/
def hops (sc : SigChain) : List (Bytes × Bytes) := sc.relayIDs.zip (sc.relayIDs.drop 1)

end Pb.SigChain

def verifyElemMeta (length : ℕ) (height : UInt32) (e : Pb.SigChainElem) (i : ℕ) : Outcome Unit := do
  if i = 0 ∨ i = length - 1 then do
    rejectIf (e.vrf.length > 0) s!"sigchain elem {i} vrf should be empty"
    rejectIf (e.proof.length > 0) s!"sigchain elem {i} proof should be empty"
  else do
    rejectIf (e.vrf.length = 0) s!"sigchain elem {i} vrf should not be empty"
    rejectIf (e.proof.length = 0) s!"sigchain elem {i} proof should not be empty"
  rejectIf (config.allowSigChainHashSignature.getValueAtHeight height = false ∧ e.sigAlgo ≠ .signature)
    s!"sigchain elem {i} sig algo should be SIGNATURE"

def verifySigChainMeta (sc : Pb.SigChain) (height : UInt32) : Outcome Unit := do
  rejectIf (sc.elems.length < 3) s!"sigchain should have at least 3 elements, but only has {sc.elems.length}"
  match sc.elems, sc.elems.reverse with
  | first :: second :: _, last :: lastRelay :: _ => do
    rejectIf (first.id.length > 0 ∧ sc.srcId ≠ first.id) "sigchain has wrong src id"
    rejectIf (sc.isComplete = false) "sigchain is not complete"
    rejectIf (first.id = second.id) "src and first relayer has the same ID"
    rejectIf (last.id = lastRelay.id) "dest and last relayer has the same ID"
    rejectIf (last.nextPubkey.length > 0) "next pubkey in last sigchain elem should be empty"
    rejectIf (first.mining = true) "first sigchain element should have mining set to false"
    rejectIf (last.mining = true) "last sigchain element should have mining set to false"
    sc.elems.zipIdx.foldlM (fun _ (e, i) => verifyElemMeta config sc.elems.length height e i) ()
  | _, _ => crash "index out of range"

/-- The first loop of `VerifySigChainPath`, from element `i` on: the way that is left is halved by every hop. -/
def verifyDistances (lastNodeID : Bytes) : (i prevDistance : ℕ) → List Bytes → Outcome Unit
  | _, _, [] => .ok ()
  | i, prevDistance, id :: ids => do
    let dist := chord.distance id lastNodeID
    rejectIf (dist = prevDistance) s!"relayer {i - 1} and {i} has the same ID"
    rejectIf (dist * 2 > prevDistance) "signature chain path is invalid"
    verifyDistances lastNodeID (i + 1) dist ids

/-- The second loop: the next hop is in the finger table of the relay, in the part of the destination or below it. -/
def verifyFingerTableRange (destID lastNodeID : Bytes) (hop : Bytes × Bytes) : Outcome Unit := do
  let fingerIdx := chord.fingerIdx hop.1 destID
  rejectIf (fingerIdx < 0) "invalid finger table index"
  let fingerIdx := if chord.inFinger hop.1 fingerIdx lastNodeID = false ∧ fingerIdx > 1 then fingerIdx - 1 else fingerIdx
  rejectIf (chord.inFinger hop.1 fingerIdx hop.2 = false) "next hop is not in finger table range"

def verifySigChainPath (sc : Pb.SigChain) (height : UInt32) : Outcome Unit :=
  match sc.relayIDs, sc.relayIDs.getLast? with
  | first :: rest, some lastNodeID => do
    verifyDistances chord lastNodeID 2 (chord.distance first lastNodeID) rest
    if config.sigChainVerifyFingerTableRange.getValueAtHeight height then
      -- the last hop is not checked, it may lead to a successor
      sc.hops.dropLast.foldlM (fun _ hop => verifyFingerTableRange chord sc.destId lastNodeID hop) ()
    else .ok ()
  | _, _ => crash "index out of range"

def verifySigChainLight (sc : Pb.SigChain) (height : UInt32) : Outcome Unit := do
  verifySigChainMeta config sc height
  verifySigChainPath config chord sc height

def skipCount (fromID toID : Bytes) (sm : List Bytes) : ℤ :=
  let fingerStartID := chord.fingerStartID fromID toID
  let beg := search sm.length fun i => (sm[i]?).any fun id => decide (chord.compareID id fingerStartID ≥ 0)
  let «end» := search sm.length fun i => (sm[i]?).any fun id => decide (chord.compareID id toID ≥ 0)
  if chord.compareID fingerStartID toID ≤ 0 then («end» : ℤ) - beg else (beg : ℤ) - «end» + sm.length

/-- `SignatureHashWithPenalty` of a sigchain for a block at a height, with the recent miners and the miners that may be
skipped as they stand in their caches. -/
def signatureHashWithPenalty (rm : Bytes → ℕ) (sm : List Bytes) (sc : Pb.SigChain) (height : UInt32) : Outcome Bytes :=
  let recentMinerBitShift := (config.sigChainRecentMinerBitShift.getValueAtHeight height).toInt
  let skipMinerBitShift := (config.sigChainSkipMinerBitShift.getValueAtHeight height).toInt
  let maxAllowed := (config.sigChainSkipMinerMaxAllowed.getValueAtHeight height).toInt
  let mined : ℤ := if recentMinerBitShift > 0 then
      ((sc.elems.take (sc.elems.length - 2)).map fun elem => rm elem.nextPubkey).sum * recentMinerBitShift else 0
  let skipped : ℤ := if skipMinerBitShift > 0 then
      (sc.hops.map fun hop => max 0 (skipCount chord hop.1 hop.2 sm - maxAllowed)).sum * skipMinerBitShift else 0
  sc.signatureHash env config height (mined + skipped)

/-- Whether a hop leads over a node, from the start of the finger on. -/
def leadsOver (hop : Bytes × Bytes) (id : Bytes) : Bool :=
  chord.betweenLeftIncl (chord.fingerStartID hop.1 hop.2) hop.2 id

def verifySigChainObjection (sc : Pb.SigChain) (reporterID : Bytes) (height : UInt32) : Outcome ℤ :=
  if config.sigChainObjection.getValueAtHeight height = false then fail "sigchain objection is not enabled"
  else if config.sigChainVerifySkipNode.getValueAtHeight height then
    match sc.hops.dropLast.findIdx? (leadsOver chord · reporterID) with
    | some i => .ok (i + 1)
    | none => fail "reporter is not skipped"
  else .ok 0

end Nkn
