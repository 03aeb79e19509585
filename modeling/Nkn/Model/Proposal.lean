import Nkn.Model.PorServer

/-! # Block proposals

How a node gets the proposals of a height and makes its first vote. -/

namespace Nkn

open Go Outcome Store

def hasDuplicateHash (txnsHash : List Uint256) : Bool := decide ¬txnsHash.Nodup

def verifyRoot (env : Env) (txnsHash : List Uint256) (txnsRoot : Bytes) : Outcome Unit := do
  rejectIf (hasDuplicateHash txnsHash = true) "transactions contain duplicate hash"
  let computedRoot ← computeRoot env txnsHash
  rejectIf (computedRoot.toArray ≠ txnsRoot)
    s!"computed txn root {hexText computedRoot.toArray} is different from txn root in header {hexText txnsRoot}"

def unix (time : Int) : Int := time / 1000000000

def timestampTolerancePast : Int := 10000000000

def timestampToleranceFuture : Int := 5000000000

def timestampToleranceVariance : Int := 20000000000 / 6

/-- `TimestampCheck` at a moment; the offset of a soft check depends on a salt of the node. -/
def timestampCheck (cs : ChainStore) (now : Int) (soft : Option Int) (header : Header) : Outcome Unit := do
  let prevHeader ← cs.getHeaderByHeight (header.unsignedHeader.height - 1)
  let t := header.unsignedHeader.timestamp.toInt
  let prevBlockTimestamp := prevHeader.unsignedHeader.timestamp.toInt
  rejectIf (t ≤ prevBlockTimestamp) s!"block timestamp {t} is not later than previous block timestamp {prevBlockTimestamp}"
  let earliest := unix (now - timestampTolerancePast + soft.getD (-timestampToleranceVariance))
  let latest := unix (now + timestampToleranceFuture)
  rejectIf (t < earliest ∨ t > latest) s!"block timestamp {t} exceed my tolerance [{earliest}, {latest}]"

structure RequestProposalInfo where
  neighborID : String
  height : UInt32
  blockHash : Uint256

structure Consensus where
  expectedHeight : UInt32
  /-- The cache of proposals; nothing expires. -/
  proposals : GoMap Bytes Block
  neighborBlocklist : GoMap String String
  proposalChan : List Block
  requestProposalChan : List RequestProposalInfo

def proposalChanLen : Nat := 100

def requestProposalChanLen : Nat := 10000

structure LocalView where
  store : ChainStore
  txnPool : TxnPool
  porServer : PorServer
  now : Int
  minVerifiableHeight : UInt32

inductive RequestTransactionType where
  | full
  | hash
  | shortHash
  | unknown (code : Int32)
deriving DecidableEq

structure BlockProposalReply where
  /-- `none` is a nil block or header. -/
  block : Option Block
  transactionsHash : List Bytes

structure RemoteNode where
  id : String
  requestBlockProposal : RequestTransactionType → Outcome BlockProposalReply
  requestProposalTransactions : RequestTransactionType → List Bytes → Outcome (List Transaction)

namespace Consensus

variable (env : Env) (config : Config) (poolConfig : PoolConfig)

def getBlockProposal (consensus : Consensus) (blockHash : Uint256) : Outcome Block :=
  orFail s!"block {hexText blockHash.toArray} not found in local cache" (consensus.proposals.load blockHash.toArray)

variable (view : LocalView)

def canVerifyHeight (height : UInt32) : Bool :=
  decide (height = view.store.getHeight + 1 ∧ height ≥ view.minVerifiableHeight)

def getTxnHash (txn : Transaction) : RequestTransactionType → Outcome Bytes
  | .hash => .ok (Transaction.hash env txn).toArray
  | .shortHash => .ok (TxnPool.shortHash env poolConfig txn)
  | _ => fail "unsupported request type"

def nextIs (requestType : RequestTransactionType) (hash : Bytes) (txns : List Transaction) : Outcome Bool :=
  match txns with
  | [] => .ok false
  | txn :: _ => do
    let txnHashBytes ← getTxnHash env poolConfig txn requestType
    .ok (decide (txnHashBytes = hash))

/-- The loop of `mergeTxns`, over what is left of the hashes and of both lists. -/
def mergeLoop (requestType : RequestTransactionType) :
    List Bytes → List Transaction → List Transaction → Outcome (List Transaction)
  | [], _, _ => .ok []
  | hash :: txnsHash, existingTxns, requestedTxns => do
    let existing ← nextIs env poolConfig requestType hash existingTxns
    if existing then do
      let merged ← mergeLoop requestType txnsHash existingTxns.tail requestedTxns
      .ok (existingTxns.take 1 ++ merged)
    else do
      let requested ← nextIs env poolConfig requestType hash requestedTxns
      if requested then do
        let merged ← mergeLoop requestType txnsHash existingTxns requestedTxns.tail
        .ok (requestedTxns.take 1 ++ merged)
      else fail "merge txn error: hash mismatch"

def mergeTxns (existingTxns requestedTxns : List Transaction) (txnsHash : List Bytes)
    (requestType : RequestTransactionType) : Outcome (List Transaction) := do
  rejectIf (existingTxns.length + requestedTxns.length ≠ txnsHash.length)
    s!"sum of existing txn array len {existingTxns.length} and requested txn array len {requestedTxns.length} is different from txn hash array len {txnsHash.length}"
  mergeLoop env poolConfig requestType txnsHash existingTxns requestedTxns

def requestProposalTransactions (neighbor : RemoteNode) (requestType : RequestTransactionType) (txnsHash : List Bytes) :
    Outcome (List Transaction) := do
  let txns ← neighbor.requestProposalTransactions requestType txnsHash
  rejectIf (txns.length ≠ txnsHash.length)
    s!"returned txn count {txns.length} is different from requested count {txnsHash.length}"
  (txns.zip txnsHash).zipIdx.forM fun ((txn, expected), i) => do
    let txnHash ← getTxnHash env poolConfig txn requestType
    rejectIf (txnHash ≠ expected) s!"the {i}th txn hash {hexText txnHash} is different from expected {hexText expected}"
  .ok txns

/-- The transactions of a reply under a key of each; of equal keys the last one counts. -/
def blockTxns {K : Type} [DecidableEq K] (key : Transaction → K) (txns : List Transaction) : GoMap K Transaction :=
  txns.foldl (fun map txn => map.store (key txn) txn) ∅

/-- Where a transaction of a hash may already be: in the reply, in the pool or among the sigchains. -/
def findByHash (b : Block) (hash : Uint256) : Option Transaction :=
  (((blockTxns (Transaction.hash env) b.transactions).load hash).or (view.txnPool.txMap.load hash)).or
    (view.porServer.sigChainTxnCache.load hash.toArray)

def findByShortHash (b : Block) (hash : Bytes) : Option Transaction :=
  (((blockTxns (TxnPool.shortHash env poolConfig) b.transactions).load hash).or
    (view.txnPool.txShortHashMap.load hash)).or (view.porServer.sigChainTxnShortHashCache.load hash)

def partitionTxns (b : Block) (transactionsHash : List Bytes) :
    RequestTransactionType → Outcome (List Transaction × List Bytes)
  | .hash => do
    let txnsHash ← transactionsHash.mapM uint256ParseFromBytes
    verifyRoot env txnsHash b.header.unsignedHeader.transactionsRoot
    .ok (txnsHash.filterMap (findByHash env view b),
      (txnsHash.filter fun hash => (findByHash env view b hash).isNone).map Word.toArray)
  | .shortHash =>
    .ok (transactionsHash.filterMap (findByShortHash env poolConfig view b),
      transactionsHash.filter fun hash => (findByShortHash env poolConfig view b hash).isNone)
  | _ => fail "unsupported request type"

def collectTxns (neighbor : RemoteNode) (b : Block) (transactionsHash : List Bytes)
    (requestType : RequestTransactionType) : Outcome (List Transaction) := do
  let (existingTxns, missingTxnsHash) ← partitionTxns env poolConfig view b transactionsHash requestType
  if missingTxnsHash.length > 0 then do
    let requestedTxns ← requestProposalTransactions env poolConfig neighbor requestType missingTxnsHash
    mergeTxns env poolConfig existingTxns requestedTxns transactionsHash requestType
  else .ok existingTxns

def verifyTxnsRoot (b : Block) (txns : List Transaction) : Outcome Unit :=
  verifyRoot env (txns.map (Transaction.hash env)) b.header.unsignedHeader.transactionsRoot

def cacheIfFails (blockHash : Uint256) (b : Block) (label : String) (check : Outcome Unit) : Proc Consensus Unit :=
  match check with
  | .ok () => pure ()
  | .error fault => do
    Proc.modify fun consensus => { consensus with proposals := consensus.proposals.store blockHash.toArray b }
    Proc.lift (labelled label (.error fault))

/-- The hard timestamp check and the signer check, at a height that can be verified. -/
def checkSigner (blockHash : Uint256) (b : Block) : Proc Consensus Unit :=
  if canVerifyHeight view b.height then do
    cacheIfFails blockHash b "proposal fails to pass hard timestamp check: " (timestampCheck view.store view.now none b.header)
    cacheIfFails blockHash b "proposal fails to pass signer check: "
      (signerCheck env config view.store b.header.unsignedHeader)
  else pure ()

def checkSignature (neighbor : RemoteNode) (b : Block) : Proc Consensus Unit :=
  match Header.verifySignature env b.header with
  | .ok () => pure ()
  | .error fault => do
    Proc.modify fun consensus => { consensus with
      neighborBlocklist := consensus.neighborBlocklist.store neighbor.id "proposal fails to pass signature check" }
    Proc.lift (labelled "proposal fails to pass signature check: " (.error fault))

def checkProposalHeader (neighbor : RemoteNode) (blockHash : Uint256) (height : UInt32) (b : Block) :
    Proc Consensus Unit := do
  Proc.lift (rejectIf (b.height ≠ height) s!"received block height {b.height} is different from expected height {height}")
  Proc.lift (rejectIf (Block.hash env b ≠ blockHash)
    s!"received block hash {hexText (Block.hash env b).toArray} is different from requested hash {hexText blockHash.toArray}")
  checkSigner env config view blockHash b
  checkSignature env neighbor b

/-- `requestProposal`, with what is done if the transactions found by short hashes do not have the root. -/
def requestProposalOr (fallback : Proc Consensus Block) (view : LocalView) (neighbor : RemoteNode) (blockHash : Uint256)
    (height : UInt32) (requestType : RequestTransactionType) : Proc Consensus Block := do
  let reply ← Proc.lift (neighbor.requestBlockProposal requestType)
  match reply.block with
  | none => Proc.lift (crash "invalid memory address or nil pointer dereference")
  | some b => do
    checkProposalHeader env config view neighbor blockHash height b
    match requestType with
    | .full => do
      Proc.lift (verifyTxnsRoot env b b.transactions)
      pure b
    | _ => do
      let mergedTxns ← Proc.lift (collectTxns env poolConfig view neighbor b reply.transactionsHash requestType)
      if requestType = .shortHash ∧ (verifyTxnsRoot env b mergedTxns).isOk = false then fallback
      else pure { b with transactions := mergedTxns }

/-- `requestProposal`. What the node knows may change before it falls back to the hashes. -/
def requestProposal (view view' : LocalView) (neighbor : RemoteNode) (blockHash : Uint256) (height : UInt32)
    (requestType : RequestTransactionType) : Proc Consensus Block :=
  -- a request by hashes does not fall back
  let byHash := requestProposalOr env config poolConfig (Proc.lift (fail "")) view' neighbor blockHash height .hash
  requestProposalOr env config poolConfig byHash view neighbor blockHash height requestType

def receiveProposal (block : Block) : Proc Consensus Unit := do
  let expectedHeight ← Proc.gets Consensus.expectedHeight
  Proc.lift (rejectIf (block.height ≠ expectedHeight)
    s!"receive invalid proposal height {block.height} instead of {expectedHeight}")
  let waiting ← Proc.gets Consensus.proposalChan
  Proc.lift (rejectIf (waiting.length ≥ proposalChanLen) "prososal chan full, discarding proposal")
  Proc.modify fun consensus => { consensus with
    proposalChan := waiting ++ [block]
    proposals := consensus.proposals.store (Block.hash env block).toArray block }

def receiveProposalHash (neighborID : String) (height : UInt32) (blockHash : Uint256) : Proc Consensus Unit := do
  Proc.lift (rejectIf (blockHash = emptyUint256) "receive empty block hash")
  let known ← Proc.gets fun consensus => (consensus.proposals.load blockHash.toArray).isSome
  if known then pure ()
  else do
    let blocked ← Proc.gets fun consensus => (consensus.neighborBlocklist.load neighborID).isSome
    Proc.lift (rejectIf (blocked = true)
      s!"ignore block hash {hexText blockHash.toArray} from blocklist neighbor {neighborID}")
    let expectedHeight ← Proc.gets Consensus.expectedHeight
    Proc.lift (rejectIf (height ≠ expectedHeight)
      s!"receive invalid block hash height {height} instead of {expectedHeight}")
    let waiting ← Proc.gets Consensus.requestProposalChan
    Proc.lift (rejectIf (waiting.length ≥ requestProposalChanLen) "request prososal chan full")
    Proc.modify fun consensus => { consensus with
      requestProposalChan := waiting ++ [⟨neighborID, height, blockHash⟩] }

def requestTurn (view view' : LocalView) (neighbors : String → Option RemoteNode) : Proc Consensus Unit := do
  let waiting ← Proc.gets Consensus.requestProposalChan
  match waiting with
  | [] => pure ()
  | info :: rest => do
    Proc.modify fun consensus => { consensus with requestProposalChan := rest }
    let expectedHeight ← Proc.gets Consensus.expectedHeight
    let known ← Proc.gets fun consensus => (consensus.proposals.load info.blockHash.toArray).isSome
    if info.height ≠ expectedHeight ∨ info.blockHash = emptyUint256 ∨ known = true then pure ()
    else
      match neighbors info.neighborID with
      | none => pure ()
      | some neighbor => do
        let block ← requestProposal env config poolConfig view view' neighbor info.blockHash info.height .shortHash
        receiveProposal env block

inductive Event where
  | receiveHash (neighborID : String) (height : UInt32) (blockHash : Uint256)
  | request (view view' : LocalView) (neighbors : String → Option RemoteNode)
  | take
  /-- `setExpectedHeight`: a new height has a new channel. -/
  | setExpectedHeight (height : UInt32)

def handle (consensus : Consensus) : Event → Consensus
  | .receiveHash neighborID height blockHash => (receiveProposalHash neighborID height blockHash consensus).2
  | .request view view' neighbors => (requestTurn env config poolConfig view view' neighbors consensus).2
  | .take => { consensus with proposalChan := consensus.proposalChan.tail }
  | .setExpectedHeight height =>
    if height = consensus.expectedHeight then consensus
    else { consensus with expectedHeight := height, proposalChan := [] }

def start (expectedHeight : UInt32) : Consensus := ⟨expectedHeight, ∅, ∅, [], []⟩

def run (expectedHeight : UInt32) (events : List Event) : Consensus :=
  events.foldl (handle env config poolConfig) (start expectedHeight)

end Consensus

/-- A proposal that `waitAndHandleProposal` takes from the channel, with what the checks of it say at that moment. -/
structure TakenProposal where
  proposal : Block
  early : Bool
  verifiable : Bool
  timestampCheck : Outcome Unit
  headerCheck : Outcome Unit
  nextBlockProposerCheck : Outcome Unit
  transactionCheck : Outcome Unit

/-- What `waitAndHandleProposal` carries along, and the vote of the election. -/
structure ProposalHandling where
  proposals : GoMap Uint256 Block
  initialVote : Uint256
  proposalCount : Nat
  announced : List Uint256
  /-- The votes that are sent when the time for the initial vote is over, unless the initial vote is another one then. -/
  scheduled : List Uint256
  selfVote : Option Uint256

namespace ProposalHandling

variable (env : Env)

def start : ProposalHandling := ⟨∅, emptyUint256, 0, [], [], none⟩

def verdict (taken : TakenProposal) : Outcome Unit := do
  taken.timestampCheck
  taken.headerCheck
  taken.nextBlockProposerCheck
  taken.transactionCheck

def takeProposal (handling : ProposalHandling) (taken : TakenProposal) : ProposalHandling :=
  let blockHash := Block.hash env taken.proposal
  let counted := { handling with proposalCount := handling.proposalCount + 1 }
  if taken.early = false ∧ taken.verifiable = false then
    { counted with announced := counted.announced ++ [blockHash] }
  else
    let proposals := counted.proposals.store blockHash taken.proposal
    if proposals.entries.length > 2 then { counted with proposals }
    else
      let acceptProposal : Bool :=
        decide (taken.early = false ∧ ¬proposals.entries.length > 1 ∧ (verdict taken).isOk = true)
      let initialVote := if acceptProposal then blockHash else counted.initialVote
      { counted with
        proposals
        initialVote
        announced := counted.announced ++ [blockHash]
        scheduled := counted.scheduled ++ [initialVote]
        selfVote := some initialVote }

def waitAndHandleProposal (taken : List TakenProposal) : ProposalHandling := taken.foldl (takeProposal env) start

end ProposalHandling

end Nkn
