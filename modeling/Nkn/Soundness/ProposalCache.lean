import Nkn.Soundness.ProposalDownload

/-! # The cache of proposals

A proposal whose header fails the hard timestamp or the signer check is cached without its transactions. Apart from such
replies every cached block is complete. -/

namespace Nkn.Consensus

open Go Outcome Proc

variable {env : Env} {config : Config} {poolConfig : PoolConfig} {consensus : Consensus} {view view' : LocalView}
  {neighbor : RemoteNode} {b : Block}

def CacheComplete (env : Env) (consensus : Consensus) : Prop :=
  ∀ key b, consensus.proposals.load key = some b →
    verifyRoot env (b.transactions.map (Transaction.hash env)) b.header.unsignedHeader.transactionsRoot = .ok ()

/-- A reply to a request of a type: its block is complete if a check of its header fails at a height that can be verified. -/
def ReplyComplete (env : Env) (config : Config) (view : LocalView) (neighbor : RemoteNode)
    (requestType : RequestTransactionType) : Prop :=
  ∀ reply b, neighbor.requestBlockProposal requestType = .ok reply → reply.block = some b →
    canVerifyHeight view b.height = true →
    (timestampCheck view.store view.now none b.header).isOk = false ∨
      (signerCheck env config view.store b.header.unsignedHeader).isOk = false →
    verifyTxnsRoot env b b.transactions = .ok ()

/-- An event: what the node knows comes from its pool and its sigchains, and no reply brings an incomplete block with a
header that is refused. -/
def EventComplete (env : Env) (config : Config) (poolConfig : PoolConfig) : Event → Prop
  | .request view view' neighbors =>
    view.Reached env config poolConfig ∧ view'.Reached env config poolConfig ∧
      ∀ neighborID neighbor, neighbors neighborID = some neighbor →
        ReplyComplete env config view neighbor .shortHash ∧ ReplyComplete env config view' neighbor .hash
  | _ => True

theorem CacheComplete.of_proposals {consensus' : Consensus} (complete : CacheComplete env consensus)
    (same : consensus'.proposals = consensus.proposals) : CacheComplete env consensus' := by
  intro key b found
  rw [same] at found
  exact complete key b found

theorem CacheComplete.store (complete : CacheComplete env consensus) {blockHash : Bytes} {consensus' : Consensus}
    (stored : consensus'.proposals = consensus.proposals.store blockHash b)
    (whole : verifyTxnsRoot env b b.transactions = .ok ()) :
    CacheComplete env consensus' := by
  intro key b' found
  rw [stored, GoMap.load_store] at found
  split_ifs at found
  · obtain rfl := Option.some.inj found
    exact whole
  · exact complete key b' found

variable {blockHash : Uint256}

theorem complete_cacheIfFails {label : String} {check : Outcome Unit}
    (whole : check.isOk = false → verifyTxnsRoot env b b.transactions = .ok ()) :
    Proc.Keeps (CacheComplete env) (cacheIfFails blockHash b label check) := by
  intro consensus complete
  cases check with
  | ok _ => exact complete
  | error _ => exact complete.store rfl (whole rfl)

theorem complete_checkProposalHeader {height : UInt32} (whole : canVerifyHeight view b.height = true →
      (timestampCheck view.store view.now none b.header).isOk = false ∨
        (signerCheck env config view.store b.header.unsignedHeader).isOk = false →
      verifyTxnsRoot env b b.transactions = .ok ()) :
    Proc.Keeps (CacheComplete env) (checkProposalHeader env config view neighbor blockHash height b) := by
  refine (keeps_lift _).bind fun _ => (keeps_lift _).bind fun _ => Proc.Keeps.bind ?_ fun _ => ?_
  · unfold checkSigner
    split_ifs with verifiable
    · exact (complete_cacheIfFails fun failed => whole verifiable (.inl failed)).bind fun _ =>
        complete_cacheIfFails fun failed => whole verifiable (.inr failed)
    · exact keeps_pure ()
  · unfold checkSignature
    cases Header.verifySignature env b.header with
    | ok _ => exact keeps_pure ()
    | error _ =>
      refine (keeps_modify ?_).bind fun _ => keeps_lift _
      exact fun _ complete => complete.of_proposals rfl

theorem complete_requestProposalOr {fallback : Proc Consensus Block} {requestType : RequestTransactionType}
    {height : UInt32} (fallen : Proc.Keeps (CacheComplete env) fallback)
    (replies : ReplyComplete env config view neighbor requestType) :
    Proc.Keeps (CacheComplete env)
      (requestProposalOr env config poolConfig fallback view neighbor blockHash height requestType) := by
  refine Proc.Keeps.lift_bind fun reply replied => ?_
  cases sent : reply.block with
  | none => exact keeps_lift _
  | some b =>
    refine (complete_checkProposalHeader (replies reply b replied sent)).bind fun _ => ?_
    have collects (requestType : RequestTransactionType) : Proc.Keeps (CacheComplete env) (do
        let mergedTxns ← lift (collectTxns env poolConfig view neighbor b reply.transactionsHash requestType)
        if requestType = .shortHash ∧ (verifyTxnsRoot env b mergedTxns).isOk = false then fallback
        else pure { b with transactions := mergedTxns }) := by
      refine (keeps_lift _).bind fun mergedTxns => ?_
      split_ifs
      · exact fallen
      · exact keeps_pure _
    cases requestType with
    | full => exact (keeps_lift _).bind fun _ => keeps_pure _
    | _ => exact collects _

variable (poolConfig) in
theorem complete_requestProposal (blockHash : Uint256) (height : UInt32)
    (replies : ReplyComplete env config view neighbor .shortHash) (replies' : ReplyComplete env config view' neighbor .hash) :
    Proc.Keeps (CacheComplete env) (requestProposal env config poolConfig view view' neighbor blockHash height .shortHash) :=
  complete_requestProposalOr (complete_requestProposalOr (keeps_lift _) replies') replies

theorem complete_receiveProposal (whole : verifyTxnsRoot env b b.transactions = .ok ()) :
    Proc.Keeps (CacheComplete env) (receiveProposal env b) := by
  refine (keeps_gets _).bind fun _ => (keeps_lift _).bind fun _ => (keeps_gets _).bind fun _ =>
    (keeps_lift _).bind fun _ => keeps_modify ?_
  exact fun _ complete => complete.store rfl whole

theorem complete_download {info : RequestProposalInfo} (complete : CacheComplete env consensus)
    (reached : view.Reached env config poolConfig) (reached' : view'.Reached env config poolConfig)
    (replies : ReplyComplete env config view neighbor .shortHash) (replies' : ReplyComplete env config view' neighbor .hash) :
    CacheComplete env ((requestProposal env config poolConfig view view' neighbor info.blockHash info.height .shortHash >>=
      receiveProposal env) consensus).2 := by
  cases ran : requestProposal env config poolConfig view view' neighbor info.blockHash info.height .shortHash consensus with
  | mk result next =>
    have kept := complete_requestProposal poolConfig info.blockHash info.height replies replies' consensus complete
    rw [ran] at kept
    cases result with
    | error _ =>
      rw [bind_of_error ran]
      exact kept
    | ok _ =>
      rw [bind_of_ok ran]
      exact complete_receiveProposal (downloaded_of_requestProposal reached reached' ran).complete next kept

theorem complete_request {neighbors : String → Option RemoteNode} (complete : CacheComplete env consensus)
    (step : EventComplete env config poolConfig (.request view view' neighbors)) :
    CacheComplete env (requestTurn env config poolConfig view view' neighbors consensus).2 := by
  obtain ⟨reached, reached', replies⟩ := step
  unfold requestTurn
  rw [gets_bind]
  cases consensus.requestProposalChan with
  | nil => exact complete
  | cons info rest =>
    simp only [modify_bind, gets_bind]
    have popped : CacheComplete env { consensus with requestProposalChan := rest } := complete.of_proposals rfl
    split_ifs
    · exact popped
    · cases known : neighbors info.neighborID with
      | none => exact popped
      | some neighbor =>
        obtain ⟨short, hash⟩ := replies _ neighbor known
        exact complete_download popped reached reached' short hash

theorem proposals_receiveProposalHash (neighborID : String) (height : UInt32) (blockHash : Uint256) (consensus : Consensus) :
    (receiveProposalHash neighborID height blockHash consensus).2.proposals = consensus.proposals := by
  have kept : Proc.Keeps (fun state : Consensus => state.proposals = consensus.proposals)
      (receiveProposalHash neighborID height blockHash) := by
    refine (keeps_lift _).bind fun _ => (keeps_gets _).bind fun known => ?_
    split_ifs
    · exact keeps_pure ()
    · refine (keeps_gets _).bind fun _ => (keeps_lift _).bind fun _ => (keeps_gets _).bind fun _ =>
        (keeps_lift _).bind fun _ => (keeps_gets _).bind fun _ => (keeps_lift _).bind fun _ =>
        keeps_modify ?_
      exact fun _ same => same
  exact kept consensus rfl

theorem complete_handle (complete : CacheComplete env consensus) {event : Event}
    (step : EventComplete env config poolConfig event) : CacheComplete env (handle env config poolConfig consensus event) := by
  cases event with
  | receiveHash neighborID height blockHash =>
    exact complete.of_proposals (proposals_receiveProposalHash neighborID height blockHash consensus)
  | request _ _ _ => exact complete_request complete step
  | take => exact complete.of_proposals rfl
  | setExpectedHeight _ =>
    simp only [handle]
    split_ifs
    · exact complete
    · exact complete.of_proposals rfl

theorem complete_run (expectedHeight : UInt32) {events : List Event}
    (steps : ∀ event ∈ events, EventComplete env config poolConfig event) :
    CacheComplete env (run env config poolConfig expectedHeight events) := by
  induction events using List.reverseRecOn with
  | nil => simp [run, start, CacheComplete]
  | append_singleton _ event ih =>
    rw [run, List.foldl_append]
    exact complete_handle (ih fun event member => steps event (by simp [member])) (steps event (by simp))

/-- If no reply brings an incomplete block with a header that is refused, every block of the cache is complete. -/
theorem cached_proposals_complete (expectedHeight : UInt32) (events : List Event)
    (steps : ∀ event ∈ events, EventComplete env config poolConfig event) (blockHash : Uint256) (b : Block)
    (cached : (run env config poolConfig expectedHeight events).getBlockProposal blockHash = .ok b) :
    verifyRoot env (b.transactions.map (Transaction.hash env)) b.header.unsignedHeader.transactionsRoot = .ok () :=
  complete_run expectedHeight steps blockHash.toArray b (orFail_eq_ok.mp cached)

end Nkn.Consensus

namespace Nkn.SlowClock

open Config Consensus

def events (view : LocalView) (transactions : List Transaction) : List Event :=
  [.receiveHash "neighbor" 5000000 proposalHash, .request view view fun _ => some (neighbor transactions)]

/-- The clock is 20 seconds behind: the header is refused, and is cached without its transaction. -/
theorem refused_proposal_is_incomplete :
    (((run tables.env mainnet poolConfig 5000000 (events (view 1666662400 0) [])).getBlockProposal proposalHash).toOption.map
        fun b => b.transactions) = some [] ∧
      (verifyRoot tables.env [] proposal.header.unsignedHeader.transactionsRoot).isOk = false := by
  decide +kernel

/-- A node that cannot verify the height yet gets the whole block. -/
theorem cached_proposals_complete_first :
    ∃ b, (run tables.env mainnet poolConfig 5000000 (events (view 1666662420 5000001) proposal.transactions)).getBlockProposal
        proposalHash = .ok b ∧
      verifyRoot tables.env (b.transactions.map (Transaction.hash tables.env)) b.header.unsignedHeader.transactionsRoot =
        .ok () := by
  have cached : ((run tables.env mainnet poolConfig 5000000
      (events (view 1666662420 5000001) proposal.transactions)).getBlockProposal proposalHash).isOk = true := by decide +kernel
  have whole : (verifyTxnsRoot tables.env proposal proposal.transactions).isOk = true := by decide +kernel
  obtain ⟨b, found⟩ := Go.Outcome.isOk_iff.mp cached
  refine ⟨b, found, cached_proposals_complete 5000000 _ (fun event member => ?_) proposalHash b found⟩
  rcases List.mem_pair.mp member with rfl | rfl
  · trivial
  · have complete (requestType) : ReplyComplete tables.env mainnet (view 1666662420 5000001)
        (neighbor proposal.transactions) requestType := by
      intro reply b replied sent _ _
      obtain rfl := Except.ok.inj replied
      obtain rfl := Option.some.inj sent
      exact (Go.Outcome.isOk_iff.mp whole).choose_spec
    refine ⟨reached _ _, reached _ _, fun _ neighbor known => ?_⟩
    obtain rfl := Option.some.inj known
    exact ⟨complete _, complete _⟩

end Nkn.SlowClock
