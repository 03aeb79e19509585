import Nkn.Lib.Heap
import Nkn.Model.Blockchain
import Nkn.Model.Relay
import Nkn.Model.SigChainPath
import Nkn.Model.TxnPool

/-! # The sigchains that compete for a block

`PorServer` of `por`: the sigchain transactions that have arrived, and for every height to vote for a heap of the best
ones. -/

namespace Nkn

open Go Outcome Store

def sigChainPropagationHeightOffset : UInt32 := 3

def sigChainMiningHeightOffset : UInt32 := 2 + sigChainPropagationHeightOffset

def sigChainBlockDelay : UInt32 := 1

def maxNumSigChainInCache : Nat := 8

def maxNextHopChoice : Nat := 4

structure SigChainRules where
  verifySigChainLight : Pb.SigChain → UInt32 → Outcome Unit
  verifySigChainSignatures : Pb.SigChain → Outcome Unit
  signatureHashWithPenalty : Pb.SigChain → Outcome Bytes
  /-- The hop that a sigchain has skipped, by an objection of the node with an id. -/
  verifySigChainObjection : Pb.SigChain → Bytes → UInt32 → Outcome Int

/-- The rules of a node with a ledger: `rm` and `sm` are the recent miners and the miners that may be skipped, by block hash. -/
def SigChainRules.ofLedger (env : Env) (config : Config) (chord : Chord) (cs : ChainStore)
    (rm : Bytes → Outcome (Bytes → ℕ)) (sm : Bytes → Outcome (List Bytes)) : SigChainRules where
  verifySigChainLight := Nkn.verifySigChainLight config chord
  verifySigChainSignatures := Nkn.verifySigChainSignatures env
  signatureHashWithPenalty sc := do
    let blockHash ← uint256ParseFromBytes sc.blockHash
    rejectIf (blockHash = emptyUint256) "block hash in sigchain is empty"
    let height ← getHeightByBlockHash cs blockHash
    let mined ← if config.sigChainRecentMinerBitShift.getValueAtHeight height > 0 then rm sc.blockHash else .ok fun _ => 0
    let skippable ← if config.sigChainSkipMinerBitShift.getValueAtHeight height > 0 then sm sc.blockHash else .ok []
    Nkn.signatureHashWithPenalty env config chord mined skippable sc height
  verifySigChainObjection := Nkn.verifySigChainObjection config chord

structure PorPackage where
  height : UInt32
  voteForHeight : UInt32
  blockHash : Bytes
  txHash : Bytes
  sigHash : Bytes
  sigChain : Pb.SigChain
deriving DecidableEq

structure SigChainObjection where
  reporterPubkey : Bytes
  reporterID : Bytes
  skippedHop : Int

structure PorServer where
  sigChainTxnCache : GoMap Bytes Transaction
  sigChainTxnSigHashCache : GoMap Bytes Transaction
  sigChainTxnShortHashCache : GoMap Bytes Transaction
  miningPorPackageCache : GoMap UInt32 (List PorPackage)
  sigChainObjectionCache : GoMap Bytes (List SigChainObjection)

variable (env : Env) (config : Config) (poolConfig : PoolConfig) (cs : ChainStore) (rules : SigChainRules)

def newPorPackage (txn : Transaction) : Outcome PorPackage := do
  rejectIf (txn.unsignedTx.payload.type ≠ .sigChainTxn) "transaction type should be sigchain"
  let payload ← unpack env txn.unsignedTx.payload
  match payload with
  | .sigChainTxn rs => do
    let sigChain ← parsed (env.codec.sigChain rs.sigChain)
    rejectIf (¬∃ elem ∈ sigChain.elems, elem.mining = true) "no miner node in signature chain"
    let blockHash ← uint256ParseFromBytes sigChain.blockHash
    rejectIf (blockHash = emptyUint256) "block hash in sigchain is empty"
    let height ← getHeightByBlockHash cs blockHash
    rules.verifySigChainLight sigChain height
    let sigHash ← rules.signatureHashWithPenalty sigChain
    .ok {
      height
      voteForHeight := height + sigChainMiningHeightOffset + sigChainBlockDelay
      blockHash := sigChain.blockHash
      txHash := (Transaction.hash env txn).toArray
      sigHash
      sigChain }
  | _ => crash "interface conversion"

variable {env cs rules} in
theorem txHash_of_newPorPackage {txn : Transaction} {porPkg : PorPackage}
    (packaged : newPorPackage env cs rules txn = .ok porPkg) : porPkg.txHash = (Transaction.hash env txn).toArray := by
  simp only [newPorPackage, bind_eq_ok] at packaged
  obtain ⟨_, -, payload, -, packaged⟩ := packaged
  cases payload with
  | sigChainTxn _ =>
    simp only [bind_eq_ok] at packaged
    obtain ⟨_, -, _, -, _, -, _, -, _, -, _, -, _, -, made⟩ := packaged
    rw [← Except.ok.inj made]
  | _ => exact absurd packaged (by simp [crash])

/-- The check of one element in `VerifyID`: it has the id of the key that the element before it names. -/
def verifyElemID (height : UInt32) (pk id : Bytes) : Outcome Unit := do
  let known := (cs.getID env config pk height).getD []
  rejectIf (known.length = 0) s!"id of pk {hexText pk} is empty"
  rejectIf (id ≠ known) s!"id of pk {hexText pk} should be {hexText known}, got {hexText id}"

/-- `VerifyID`: the first element, and the last one of a complete sigchain, have no id to check. -/
def verifyID (sc : Pb.SigChain) (height : UInt32) : Outcome Unit :=
  (sc.elems.zip (sc.elems.drop 1)).zipIdx.foldlM (fun _ ((prev, elem), i) =>
    if sc.isComplete = true ∧ i + 2 = sc.elems.length then .ok ()
    else verifyElemID env config cs height prev.nextPubkey elem.id) ()

namespace PorServer

def new : PorServer := ⟨∅, ∅, ∅, ∅, ∅⟩

def less (a b : PorPackage) : Bool := decide (a.sigHash < b.sigHash)

def shouldAddSigChainToCache (ps : PorServer) (currentHeight voteForHeight : UInt32) (sigHash : Bytes)
    (replace : Bool) : Outcome Bool :=
  if voteForHeight < currentHeight + sigChainPropagationHeightOffset then .ok false
  else if voteForHeight > currentHeight + sigChainMiningHeightOffset then .ok false
  else
    match ps.miningPorPackageCache.load voteForHeight with
    | some p =>
      match p.getLast? with
      | some last => .ok (if replace then !decide (last.sigHash < sigHash) else decide (sigHash < last.sigHash))
      | none => crash "index out of range [-1]"
    | none => .ok true

def add {V : Type} (get : PorServer → GoMap Bytes V) (set : PorServer → GoMap Bytes V → PorServer) (key : Bytes) (value : V) :
    Proc PorServer Unit := do
  let cache ← Proc.gets get
  Proc.lift (rejectIf ((cache.load key).isSome = true) s!"Item {text key} already exists")
  Proc.modify fun ps => set ps (cache.store key value)

theorem add_apply {V : Type} (get : PorServer → GoMap Bytes V) (set : PorServer → GoMap Bytes V → PorServer) (key : Bytes)
    (value : V) (ps : PorServer) : add get set key value ps =
      if ((get ps).load key).isSome = true then (fail s!"Item {text key} already exists", ps)
      else (.ok (), set ps ((get ps).store key value)) := by
  unfold add
  rw [Proc.gets_bind]
  split_ifs with there
  · rw [rejectIf, if_pos there]
    rfl
  · rw [Proc.bind_of_ok (Proc.lift_rejectIf there)]
    rfl

def insert (p : Option (List PorPackage)) (porPkg : PorPackage) : List PorPackage :=
  match p with
  | some p =>
    if p.length ≥ maxNumSigChainInCache then Heap.fix less (p.set (p.length - 1) porPkg) (p.length - 1)
    else Heap.push less p porPkg
  | none => Heap.init less [porPkg]

/-- `AddSigChainFromTx`; `none` is the nil that is returned for a sigchain that is not good enough. -/
def addSigChainFromTx (txn : Transaction) (currentHeight : UInt32) : Proc PorServer (Option PorPackage) := do
  let porPkg ← Proc.lift (newPorPackage env cs rules txn)
  let should ← fun ps => (ps.shouldAddSigChainToCache currentHeight porPkg.voteForHeight porPkg.sigHash false, ps)
  if should then do
    Proc.lift (verifyID env config cs porPkg.sigChain porPkg.height)
    Proc.lift (rules.verifySigChainSignatures porPkg.sigChain)
    add sigChainTxnCache (fun ps cache => { ps with sigChainTxnCache := cache }) porPkg.txHash txn
    add sigChainTxnSigHashCache (fun ps cache => { ps with sigChainTxnSigHashCache := cache }) porPkg.sigHash txn
    add sigChainTxnShortHashCache (fun ps cache => { ps with sigChainTxnShortHashCache := cache })
      (TxnPool.shortHash env poolConfig txn) txn
    Proc.modify fun ps => { ps with
      miningPorPackageCache := ps.miningPorPackageCache.store porPkg.voteForHeight
        (insert (ps.miningPorPackageCache.load porPkg.voteForHeight) porPkg) }
    pure (some porPkg)
  else pure none

/-- A sigchain transaction that arrives, with the ledger and its rules at that time. -/
structure Arrival where
  cs : ChainStore
  rules : SigChainRules
  txn : Transaction
  currentHeight : UInt32

def arrive (arrivals : List Arrival) : PorServer :=
  arrivals.foldl (fun ps arrival =>
    (addSigChainFromTx env config poolConfig arrival.cs arrival.rules arrival.txn arrival.currentHeight ps).2) new

/-- Counts the verified objections to a sigchain, up to the first hop that enough nodes report; ids and hops that are
looked up on the way are kept. -/
def countObjections (sc : Pb.SigChain) (height : UInt32) :
    List SigChainObjection → GoMap Int Nat → GoMap Int Nat × List SigChainObjection
  | [], verifiedCount => (verifiedCount, [])
  | sco :: scos, verifiedCount =>
    let id := (cs.getID env config sco.reporterPubkey height).getD []
    let (counted, sco) : Bool × SigChainObjection :=
      if sco.reporterID.length = 0 then
        match rules.verifySigChainObjection sc id height with
        | .ok i => (true, { sco with reporterID := id, skippedHop := i })
        | .error _ => (false, { sco with reporterID := id })
      else (true, sco)
    if counted = false then
      let (verifiedCount, rest) := countObjections sc height scos verifiedCount
      (verifiedCount, sco :: rest)
    else
      let verifiedCount := if sco.skippedHop > 0 then
        verifiedCount.store sco.skippedHop (verifiedCount.read 0 sco.skippedHop + 1) else verifiedCount
      if verifiedCount.read 0 sco.skippedHop ≥ maxNextHopChoice then (verifiedCount, sco :: scos)
      else
        let (verifiedCount, rest) := countObjections sc height scos verifiedCount
        (verifiedCount, sco :: rest)

def isSigChainInvalid (height : UInt32) (porPkg : PorPackage) : Proc PorServer Bool := fun ps =>
  match ps.sigChainObjectionCache.load porPkg.sigHash with
  | some scos =>
    if scos.length ≥ maxNextHopChoice then
      let (verifiedCount, scos) := countObjections env config cs rules porPkg.sigChain height scos ∅
      (.ok (verifiedCount.entries.any fun entry => decide (entry.2 ≥ maxNextHopChoice)),
        { ps with sigChainObjectionCache := ps.sigChainObjectionCache.store porPkg.sigHash scos })
    else (.ok false, ps)
  | none => (.ok false, ps)

def firstValid (height : UInt32) : List PorPackage → Proc PorServer Uint256
  | [] => pure emptyUint256
  | porPkg :: rest => do
    let invalid ← isSigChainInvalid env config cs rules height porPkg
    let cached ← Proc.gets fun ps => (ps.sigChainTxnCache.load porPkg.txHash).isSome
    if invalid = false ∧ cached = true then Proc.lift (uint256ParseFromBytes porPkg.txHash) else firstValid height rest

def getMiningSigChainTxnHash (voteForHeight : UInt32) : Proc PorServer Uint256 := do
  let height := if voteForHeight > sigChainMiningHeightOffset + sigChainBlockDelay then
    voteForHeight - sigChainMiningHeightOffset - sigChainBlockDelay else 0
  let p ← Proc.gets fun ps => ps.miningPorPackageCache.read [] voteForHeight
  firstValid env config cs rules height p

end PorServer

end Nkn
