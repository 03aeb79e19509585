import Nkn.Soundness.Concrete
import Nkn.Model.Proposal
import Nkn.Proofs.Keyed

/-! # Proposals that are downloaded

Whatever the neighbor answers, `requestProposal` returns the block that was asked for, with all its transactions: the pool
and the cache of sigchains store each under its own hash. -/

namespace Nkn

open Go Outcome Store List Except

variable {env : Env} {config : Config} {poolConfig : PoolConfig}

/-- What the node knows comes from calls of the pool and from sigchains that have arrived. -/
structure LocalView.Reached (env : Env) (config : Config) (poolConfig : PoolConfig) (view : LocalView) : Prop where
  pool : ∃ calls, view.txnPool = TxnPool.runPool env config poolConfig calls
  sigChains : ∃ arrivals, view.porServer = PorServer.arrive env config poolConfig arrivals

theorem LocalView.Reached.keyed {view : LocalView} (reached : view.Reached env config poolConfig) :
    view.txnPool.Keyed env ∧ view.porServer.Keyed env := by
  obtain ⟨calls, pool⟩ := reached.pool
  obtain ⟨arrivals, sigChains⟩ := reached.sigChains
  rw [pool, sigChains]
  exact ⟨TxnPool.keyed_runPool calls, PorServer.keyed_arrive arrivals⟩

namespace Consensus

section

variable {view : LocalView} {neighbor : RemoteNode} {b : Block}

theorem key_of_blockTxns {K : Type} [DecidableEq K] {key : Transaction → K} {txns : List Transaction} {hash : K}
    {txn : Transaction} (found : (blockTxns key txns).load hash = some txn) : key txn = hash := by
  induction txns using reverseRecOn with
  | nil => simp [blockTxns] at found
  | append_singleton _ _ ih =>
    simp only [blockTxns, foldl_append, foldl_cons, foldl_nil, GoMap.load_store] at found
    split_ifs at found with same
    · obtain rfl := Option.some.inj found
      exact same.symm
    · exact ih found

theorem hash_of_findByHash (reached : view.Reached env config poolConfig) {hash : Uint256} {txn : Transaction}
    (found : findByHash env view b hash = some txn) : Transaction.hash env txn = hash := by
  obtain ⟨pool, sigChains⟩ := reached.keyed
  rcases Option.or_eq_some_iff.mp found with found | ⟨-, found⟩
  · rcases Option.or_eq_some_iff.mp found with found | ⟨-, found⟩
    · exact key_of_blockTxns found
    · exact pool hash txn found
  · exact Word.toArray_inj.mp (sigChains hash.toArray txn found)

theorem map_filterMap_of_found {K : Type} {find : K → Option Transaction} {key : Transaction → K} {keys : List K}
    (own : ∀ k txn, find k = some txn → key txn = k) (all : ∀ k ∈ keys, (find k).isNone = false) :
    (keys.filterMap find).map key = keys := by
  induction keys with
  | nil => rfl
  | cons k _ ih =>
    obtain ⟨txn, found⟩ := Option.isSome_iff_exists.mp (by simpa using all k (by simp) : (find k).isSome = true)
    rw [filterMap_cons_some found, map_cons, own k txn found, ih fun k member => all k (by simp [member])]

variable {requestType : RequestTransactionType}

theorem nextIs_eq_ok {hash : Bytes} {txns : List Transaction}
    (next : nextIs env poolConfig requestType hash txns = .ok true) :
    ∃ txn rest, txns = txn :: rest ∧ getTxnHash env poolConfig txn requestType = .ok hash := by
  cases txns with
  | nil => cases next
  | cons txn rest =>
    simp only [nextIs, bind_eq_ok] at next
    obtain ⟨bytes, hashed, same⟩ := next
    obtain rfl : bytes = hash := by simpa using same
    exact ⟨txn, rest, rfl, hashed⟩

theorem hashes_of_mergeLoop {txnsHash : List Bytes} {existing requested merged : List Transaction}
    (ran : mergeLoop env poolConfig requestType txnsHash existing requested = .ok merged) :
    merged.map (getTxnHash env poolConfig · requestType) = txnsHash.map .ok := by
  induction txnsHash generalizing existing requested merged with
  | nil =>
    obtain rfl := ok.inj ran
    rfl
  | cons _ _ ih =>
    simp only [mergeLoop, bind_eq_ok] at ran
    obtain ⟨_, next, ran⟩ := ran
    split_ifs at ran with taken
    · obtain ⟨rest, looped, made⟩ := bind_eq_ok.mp ran
      obtain rfl := ok.inj made
      subst taken
      obtain ⟨txn, tail, rfl, hashed⟩ := nextIs_eq_ok next
      simpa [hashed] using ih looped
    · obtain ⟨_, next', ran⟩ := bind_eq_ok.mp ran
      split_ifs at ran with taken'
      · obtain ⟨_, looped, made⟩ := bind_eq_ok.mp ran
        obtain rfl := ok.inj made
        subst taken'
        obtain ⟨_, _, rfl, hashed⟩ := nextIs_eq_ok next'
        simpa [hashed] using ih looped
      · exact absurd ran (by simp)

/-- Two lists of transactions, both in the order of a list of hashes, account for each position of it exactly once. -/
inductive Interleaved (env : Env) (poolConfig : PoolConfig) (requestType : RequestTransactionType) :
    List Bytes → List Transaction → List Transaction → Prop
  | nil : Interleaved env poolConfig requestType [] [] []
  | existing {hash : Bytes} {txnsHash : List Bytes} {txn : Transaction} {existing requested : List Transaction} :
      getTxnHash env poolConfig txn requestType = .ok hash →
      Interleaved env poolConfig requestType txnsHash existing requested →
      Interleaved env poolConfig requestType (hash :: txnsHash) (txn :: existing) requested
  | requested {hash : Bytes} {txnsHash : List Bytes} {txn : Transaction} {existing requested : List Transaction} :
      getTxnHash env poolConfig txn requestType = .ok hash →
      Interleaved env poolConfig requestType txnsHash existing requested →
      Interleaved env poolConfig requestType (hash :: txnsHash) existing (txn :: requested)

theorem Interleaved.merge {txnsHash : List Bytes} {existing requested : List Transaction}
    (interleaved : Interleaved env poolConfig requestType txnsHash existing requested)
    (apart : ∀ txn ∈ existing, ∀ other ∈ requested,
      getTxnHash env poolConfig txn requestType ≠ getTxnHash env poolConfig other requestType) :
    existing.length + requested.length = txnsHash.length ∧
      ∃ merged, mergeLoop env poolConfig requestType txnsHash existing requested = .ok merged := by
  induction interleaved with
  | nil => exact ⟨rfl, [], rfl⟩
  | @existing _ _ txn _ _ hashed _ ih =>
    obtain ⟨count, merged, looped⟩ := ih fun txn member => apart txn (by simp [member])
    exact ⟨by simp; omega, txn :: merged, by simp [mergeLoop, nextIs, hashed, looped]⟩
  | @requested hash _ txn existing _ hashed _ ih =>
    obtain ⟨_, merged, looped⟩ := ih fun txn member other member' => apart txn member other (by simp [member'])
    -- the greedy choice of an existing transaction does not block: its hash is not the one of this position
    have passed : nextIs env poolConfig requestType hash existing = .ok false := by
      cases existing with
      | nil => rfl
      | cons first _ =>
        have differ := apart first (by simp) txn (by simp)
        rw [hashed] at differ
        cases requestType with
        | hash | shortHash => simpa [nextIs, getTxnHash] using differ
        | _ => cases hashed
    refine ⟨by simp; omega, txn :: merged, ?_⟩
    rw [mergeLoop, passed, ok_bind]
    simp [nextIs, hashed, looped]

/-- `mergeTxns` merges two lists that account for each position exactly once and have no hash in common, and whatever it
merges has the hash of its position. -/
theorem merges_by_hash (env : Env) (poolConfig : PoolConfig) (requestType : RequestTransactionType) (txnsHash : List Bytes)
    (existing requested : List Transaction) :
    (Interleaved env poolConfig requestType txnsHash existing requested →
      (∀ txn ∈ existing, ∀ other ∈ requested,
        getTxnHash env poolConfig txn requestType ≠ getTxnHash env poolConfig other requestType) →
      ∃ merged, mergeTxns env poolConfig existing requested txnsHash requestType = .ok merged) ∧
    ∀ merged, mergeTxns env poolConfig existing requested txnsHash requestType = .ok merged →
      merged.map (getTxnHash env poolConfig · requestType) = txnsHash.map .ok := by
  refine ⟨fun interleaved apart => ?_, fun merged ran => ?_⟩
  · obtain ⟨count, merged, looped⟩ := interleaved.merge apart
    exact ⟨merged, by simp [mergeTxns, rejectIf, count, looped]⟩
  · simp only [mergeTxns, rejectIf_bind_eq_ok] at ran
    exact hashes_of_mergeLoop ran.2

theorem toArray_of_parsed {bytes : List Bytes} {hashes : List Uint256} (ran : bytes.mapM uint256ParseFromBytes = .ok hashes) :
    hashes.map Word.toArray = bytes := by
  induction bytes generalizing hashes with
  | nil =>
    obtain rfl := ok.inj ran
    rfl
  | cons _ _ ih =>
    rw [mapM_cons] at ran
    obtain ⟨_, first, ran⟩ := bind_eq_ok.mp ran
    obtain ⟨_, tail, made⟩ := bind_eq_ok.mp ran
    obtain rfl := ok.inj made
    rw [map_cons, ih tail, uint256ParseFromBytes_eq_ok.mp first]

theorem root_of_collectTxns (reached : view.Reached env config poolConfig) {transactionsHash : List Bytes}
    {merged : List Transaction}
    (ran : collectTxns env poolConfig view neighbor b transactionsHash .hash = .ok merged) :
    verifyTxnsRoot env b merged = .ok () := by
  simp only [collectTxns, partitionTxns, bind_eq_ok] at ran
  obtain ⟨⟨_, _⟩, ⟨txnsHash, parsed, _, root, made⟩, ran⟩ := ran
  obtain ⟨rfl, rfl⟩ := Prod.mk.inj (ok.inj made)
  have hashes : merged.map (Transaction.hash env) = txnsHash := by
    simp only at ran
    split_ifs at ran with some
    · obtain ⟨_, -, ran⟩ := bind_eq_ok.mp ran
      simp only [mergeTxns, rejectIf_bind_eq_ok] at ran
      have merged := hashes_of_mergeLoop ran.2
      rw [← toArray_of_parsed parsed, map_map] at merged
      have injective : Function.Injective fun hash : Uint256 => (.ok hash.toArray : Outcome Bytes) :=
        fun _ _ same => Word.toArray_inj.mp (ok.inj same)
      exact map_injective_iff.mpr injective (map_map.trans merged)
    · obtain rfl := ok.inj ran
      refine map_filterMap_of_found (fun _ _ => hash_of_findByHash reached) fun hash member => ?_
      have none : txnsHash.filter (fun hash => (findByHash env view b hash).isNone) = [] := by simpa using some
      simpa [Option.isSome_iff_ne_none] using filter_eq_nil_iff.mp none hash member
  unfold verifyTxnsRoot
  rw [hashes]
  exact root

variable {consensus consensus' : Consensus} {blockHash : Uint256}

variable {height : UInt32}

theorem checkProposalHeader_ok
    (ran : checkProposalHeader env config view neighbor blockHash height b consensus = (.ok (), consensus')) :
    b.height = height ∧ Block.hash env b = blockHash ∧ Header.verifySignature env b.header = .ok () := by
  simp only [checkProposalHeader, Proc.bind_eq_ok, Proc.lift_eq_ok, rejectIf_eq_ok, ne_eq, not_not] at ran
  obtain ⟨_, _, ⟨same, rfl⟩, _, _, ⟨hashed, rfl⟩, _, _, -, signed⟩ := ran
  refine ⟨same, hashed, ?_⟩
  unfold checkSignature at signed
  cases verified : Header.verifySignature env b.header with
  | ok _ => rfl
  | error _ =>
    rw [verified] at signed
    cases (Prod.mk.inj signed).1

/-- What `requestProposal` returns: the block that was asked for, with a valid signature and all its transactions. -/
structure Downloaded (env : Env) (blockHash : Uint256) (height : UInt32) (b : Block) : Prop where
  height_eq : b.height = height
  hash_eq : Block.hash env b = blockHash
  signed : Header.verifySignature env b.header = .ok ()
  complete : verifyRoot env (b.transactions.map (Transaction.hash env)) b.header.unsignedHeader.transactionsRoot = .ok ()

theorem downloaded_of_requestProposalOr {fallback : Proc Consensus Block} (reached : view.Reached env config poolConfig)
    (fallen : requestType = .shortHash → ∀ {before b}, fallback before = (.ok b, consensus') → Downloaded env blockHash height b)
    (ran : requestProposalOr env config poolConfig fallback view neighbor blockHash height requestType consensus =
      (.ok b, consensus')) : Downloaded env blockHash height b := by
  obtain ⟨reply, _, replied, ran⟩ := Proc.bind_eq_ok.mp ran
  obtain ⟨-, rfl⟩ := Proc.lift_eq_ok.mp replied
  cases sent : reply.block with
  | none =>
    rw [sent] at ran
    cases (Prod.mk.inj ran).1
  | some _ =>
    simp only [sent] at ran
    obtain ⟨_, _, checked, ran⟩ := Proc.bind_eq_ok.mp ran
    obtain ⟨height_eq, hash_eq, signed⟩ := checkProposalHeader_ok checked
    cases requestType with
    | full =>
      obtain ⟨_, _, verified, returned⟩ := Proc.bind_eq_ok.mp ran
      obtain ⟨complete, -⟩ := Proc.lift_eq_ok.mp verified
      obtain ⟨same, -⟩ := Prod.mk.inj returned
      obtain rfl := ok.inj same
      exact ⟨height_eq, hash_eq, signed, complete⟩
    | hash =>
      obtain ⟨merged, _, collected, returned⟩ := Proc.bind_eq_ok.mp ran
      obtain ⟨found, -⟩ := Proc.lift_eq_ok.mp collected
      have complete := root_of_collectTxns reached found
      obtain ⟨same, -⟩ := Prod.mk.inj returned
      obtain rfl := ok.inj same
      exact ⟨height_eq, hash_eq, signed, complete⟩
    | shortHash =>
      obtain ⟨merged, _, -, returned⟩ := Proc.bind_eq_ok.mp ran
      split_ifs at returned with wrong
      · exact fallen rfl returned
      · obtain ⟨same, -⟩ := Prod.mk.inj returned
        obtain rfl := ok.inj same
        obtain ⟨_, complete⟩ := isOk_iff.mp (by simpa using wrong)
        exact ⟨height_eq, hash_eq, signed, complete⟩
    | unknown _ =>
      obtain ⟨_, _, collected, -⟩ := Proc.bind_eq_ok.mp ran
      obtain ⟨collected, -⟩ := Proc.lift_eq_ok.mp collected
      cases collected

theorem downloaded_of_requestProposal {view' : LocalView} (reached : view.Reached env config poolConfig)
    (reached' : view'.Reached env config poolConfig)
    (ran : requestProposal env config poolConfig view view' neighbor blockHash height requestType consensus =
      (.ok b, consensus')) : Downloaded env blockHash height b :=
  downloaded_of_requestProposalOr reached (fun _ _ _ fell =>
    downloaded_of_requestProposalOr reached' (fun impossible => by cases impossible) fell) ran

/-- Whatever a neighbor answers, a block that is returned is complete. -/
theorem requestProposal_downloads {view' : LocalView} {requestType : RequestTransactionType} {blockHash : Uint256}
    {height : UInt32} {consensus consensus' : Consensus} (reached : view.Reached env config poolConfig)
    (reached' : view'.Reached env config poolConfig)
    (ran : requestProposal env config poolConfig view view' neighbor blockHash height requestType consensus =
      (.ok b, consensus')) :
    Block.hash env b = blockHash ∧ b.height = height ∧ Header.verifySignature env b.header = .ok () ∧
      verifyRoot env (b.transactions.map (Transaction.hash env)) b.header.unsignedHeader.transactionsRoot = .ok () := by
  have done := downloaded_of_requestProposal reached reached' ran
  exact ⟨done.hash_eq, done.height_eq, done.signed, done.complete⟩

end

end Consensus

end Nkn

namespace Nkn.SlowClock

open Config Store Sample Consensus

def prevHash : Uint256 := Word.ofNat 32 0x0a9f414e2a3faefb9499c55fca133a681c03fcdbb7b52069a419b5cc29ad4b4f

def proposalHash : Uint256 := Word.ofNat 32 0xf8a2953133ef253e1d2623f863fd4389ad916e0515e980832ae2e59a1eb0ec39

def proposal : Block where
  header := {
    unsignedHeader := { (header 5000000 earlierTxnHash emptyUint256).unsignedHeader with timestamp := 1666662420 }
    signature := (Word.ofNat 64
      0x45db9bb135e1712395e06124237a79cadfc18bd0264df7d1f1bc907662247d48896557b24718e6bdd5d83bca8c92d04e3b87da27710e707088d3e3050a42d406).toArray }
  transactions := [coinbaseTxn 0 0]

def poolConfig : PoolConfig := ⟨32, 0, 32, List.replicate 32 0⟩

def saltedHash : Uint256 := Word.ofNat 32 0x4bc783f5a688d152c772ef988b187d466dcd49468d9faa421bea4ec660269b02

def signingHash : Uint256 := Word.ofNat 32 0x26012a290f7c5bda498b7e38840cab99c5f17d87a0c3d29a58e4106778d939bf

def tables : Tables where
  sha256 :=
    (earlierTxnHash.toArray ++ poolConfig.shortHashSalt, saltedHash) ::
      (Tables.hashedTwice (Header.serializeUnsigned proposal.header.unsignedHeader) signingHash proposalHash ++
        Tables.hashedTwice (Transaction.serializeUnsigned (coinbaseTxn 0 0))
          (Word.ofNat 32 0x7cc6ae1f737c3fba0576c66cf6d0bddfd8ed51131c21663357d7e1f2134922ca) earlierTxnHash)
  signatures := [(proposerKey, signingHash.toArray, proposal.header.signature)]

def ledger : ChainStore :=
  .holding emptyUint256 .empty prevHash ⟨header 4999999 earlierTxnHash emptyUint256, [coinbaseTxn 0 0]⟩ [earlierTxnHash] 4999999

def view (seconds : Int) (minVerifiableHeight : UInt32) : LocalView :=
  ⟨ledger, .new, .new, seconds * 1000000000, minVerifiableHeight⟩

theorem reached (seconds : Int) (minVerifiableHeight : UInt32) :
    (view seconds minVerifiableHeight).Reached tables.env mainnet poolConfig :=
  ⟨⟨[], rfl⟩, ⟨[], rfl⟩⟩

def neighbor (transactions : List Transaction) : RemoteNode where
  id := "neighbor"
  requestBlockProposal := fun _ => .ok ⟨some { proposal with transactions }, [saltedHash.toArray.take 8]⟩
  requestProposalTransactions := fun _ _ => .ok [coinbaseTxn 0 0]

/-- The transaction of the proposal is requested, and the one that the node has comes after it. -/
theorem merges_by_hash_proposal : ∃ merged, mergeTxns tables.env poolConfig [⟨packed (.coinbase coinbase) 1 0, []⟩]
    [coinbaseTxn 0 0] [earlierTxnHash.toArray, emptyUint256.toArray] .hash = .ok merged := by
  have hashes : getTxnHash tables.env poolConfig (coinbaseTxn 0 0) .hash = .ok earlierTxnHash.toArray ∧
      getTxnHash tables.env poolConfig ⟨packed (.coinbase coinbase) 1 0, []⟩ .hash = .ok emptyUint256.toArray := by
    decide +kernel
  exact (merges_by_hash ..).1 (.requested hashes.1 (.existing hashes.2 .nil)) (by simp [hashes]; decide)

/-- A node that cannot verify the height yet gets the block that it asks for. -/
theorem requestProposal_downloads_first :
    ∃ b, ((requestProposal tables.env mainnet poolConfig (view 1666662420 5000001) (view 1666662420 5000001)
        (neighbor proposal.transactions) proposalHash 5000000 .shortHash (start 5000000)).1 = .ok b) ∧
      Block.hash tables.env b = proposalHash := by
  have returned : ((requestProposal tables.env mainnet poolConfig (view 1666662420 5000001) (view 1666662420 5000001)
      (neighbor proposal.transactions) proposalHash 5000000 .shortHash (start 5000000)).1).isOk = true := by decide +kernel
  obtain ⟨b, found⟩ := Go.Outcome.isOk_iff.mp returned
  exact ⟨b, found, (requestProposal_downloads (reached _ _) (reached _ _) (Go.Proc.eq_of_fst found)).1⟩

end Nkn.SlowClock
