import Nkn.Soundness.Concrete
import Nkn.Model.Proposal

/-! # The first vote for a height

A second proposal with another hash is not accepted, but does not take back the vote for the first one, if that one has
passed the checks before. -/

namespace Nkn.ProposalHandling

open Go

section

variable (env : Env)

def Handled (taken : TakenProposal) : Prop := taken.early = true ∨ taken.verifiable = true

def Passes (taken : TakenProposal) : Prop :=
  taken.early = false ∧ taken.verifiable = true ∧ (verdict taken).isOk = true

def Elected (seen : List TakenProposal) (hash : Uint256) : Prop :=
  ∃ before taken after, seen = before ++ taken :: after ∧ Passes taken ∧ Block.hash env taken.proposal = hash ∧
    ∀ earlier ∈ before, Handled earlier → Block.hash env earlier.proposal = hash

end

variable {env : Env} {seen : List TakenProposal} {taken : TakenProposal} {handling : ProposalHandling}

theorem Passes.handled (passes : Passes taken) : Handled taken := .inr passes.2.1

theorem not_handled_iff : ¬Handled taken ↔ taken.early = false ∧ taken.verifiable = false := by
  simp [Handled]

variable {hash : Uint256}

theorem elected_append : Elected env (seen ++ [taken]) hash ↔ Elected env seen hash ∨
    (Passes taken ∧ Block.hash env taken.proposal = hash ∧
      ∀ earlier ∈ seen, Handled earlier → Block.hash env earlier.proposal = hash) := by
  constructor
  · rintro ⟨before, chosen, after, split, passes, same, others⟩
    rcases List.eq_nil_or_concat after with rfl | ⟨after, _, rfl⟩
    · obtain ⟨rfl, single⟩ := List.append_inj' split rfl
      obtain rfl : taken = chosen := by simpa using single
      exact .inr ⟨passes, same, others⟩
    · rw [List.concat_eq_append, ← List.cons_append, ← List.append_assoc] at split
      obtain ⟨rfl, -⟩ := List.append_inj' split rfl
      exact .inl ⟨before, chosen, after, rfl, passes, same, others⟩
  · rintro (⟨before, chosen, after, rfl, passes, same, others⟩ | ⟨passes, same, others⟩)
    · exact ⟨before, chosen, after ++ [taken], by simp, passes, same, others⟩
    · exact ⟨seen, taken, [], rfl, passes, same, others⟩

theorem Elected.handled (elected : Elected env seen hash) :
    ∃ chosen ∈ seen, Handled chosen ∧ Block.hash env chosen.proposal = hash := by
  obtain ⟨_, chosen, _, rfl, passes, same, -⟩ := elected
  exact ⟨chosen, by simp, passes.handled, same⟩

def handledProposals (env : Env) (handling : ProposalHandling) (taken : TakenProposal) : GoMap Uint256 Block :=
  handling.proposals.store (Block.hash env taken.proposal) taken.proposal

variable (env handling) in
theorem takeProposal_of_not_handled (skipped : ¬Handled taken) :
    (takeProposal env handling taken).proposals = handling.proposals ∧
      (takeProposal env handling taken).initialVote = handling.initialVote ∧
      (takeProposal env handling taken).selfVote = handling.selfVote := by
  simp [takeProposal, not_handled_iff.mp skipped]

theorem takeProposal_of_accepted (passes : Passes taken) (alone : ¬(handledProposals env handling taken).entries.length > 1) :
    (takeProposal env handling taken).proposals = handledProposals env handling taken ∧
      (takeProposal env handling taken).initialVote = Block.hash env taken.proposal ∧
      (takeProposal env handling taken).selfVote = some (Block.hash env taken.proposal) := by
  have few : ¬(handledProposals env handling taken).entries.length > 2 := by omega
  unfold handledProposals at alone few ⊢
  simp [takeProposal, passes.1, passes.2.1, passes.2.2, alone, few]

theorem takeProposal_of_not_accepted (handled : Handled taken)
    (refused : ¬(Passes taken ∧ ¬(handledProposals env handling taken).entries.length > 1)) :
    (takeProposal env handling taken).proposals = handledProposals env handling taken ∧
      (takeProposal env handling taken).initialVote = handling.initialVote ∧
      ((takeProposal env handling taken).selfVote = some handling.initialVote ∨
        ((handledProposals env handling taken).entries.length > 2 ∧
          (takeProposal env handling taken).selfVote = handling.selfVote)) := by
  have passed : ¬(taken.early = false ∧ taken.verifiable = false) := fun skipped => not_handled_iff.mpr skipped handled
  have rejects : ¬(taken.early = false ∧ ¬(handledProposals env handling taken).entries.length > 1 ∧
      (verdict taken).isOk = true) := by
    rintro ⟨late, alone, ok⟩
    have verifiable : taken.verifiable = true := by
      rcases handled with early | verifiable
      · exact absurd (late.symm.trans early) (by simp)
      · exact verifiable
    exact refused ⟨⟨late, verifiable, ok⟩, alone⟩
  unfold handledProposals at rejects ⊢
  by_cases many : (handling.proposals.store (Block.hash env taken.proposal) taken.proposal).entries.length > 2
  · simp [takeProposal, passed, many]
  · simp only [takeProposal, if_neg passed, if_neg many, decide_eq_false rejects]
    simp

structure Tracks (env : Env) (handling : ProposalHandling) (seen : List TakenProposal) : Prop where
  proposals : ∀ hash, (handling.proposals.load hash).isSome = true ↔
    ∃ earlier ∈ seen, Handled earlier ∧ Block.hash env earlier.proposal = hash
  elected : ∀ hash, Elected env seen hash → handling.initialVote = hash
  silent : (∀ hash, ¬Elected env seen hash) → handling.initialVote = emptyUint256
  voted : (∃ earlier ∈ seen, Handled earlier) → handling.selfVote = some handling.initialVote
  waiting : (∀ earlier ∈ seen, ¬Handled earlier) → handling.selfVote = none

theorem tracks_start : Tracks env start [] := by
  refine ⟨by simp [start], ?_, fun _ => rfl, by simp, fun _ => rfl⟩
  rintro hash ⟨_, _, _, split, -⟩
  simp at split

theorem elected_of_not_accepted (kept : ¬(Passes taken ∧
    ∀ earlier ∈ seen, Handled earlier → Block.hash env earlier.proposal = Block.hash env taken.proposal)) (hash : Uint256) :
    Elected env (seen ++ [taken]) hash ↔ Elected env seen hash := by
  rw [elected_append]
  refine or_iff_left ?_
  rintro ⟨passes, rfl, others⟩
  exact kept ⟨passes, others⟩

theorem alone_iff (tracks : Tracks env handling seen) : ¬(handledProposals env handling taken).entries.length > 1 ↔
      ∀ earlier ∈ seen, Handled earlier → Block.hash env earlier.proposal = Block.hash env taken.proposal := by
  have here : ((handledProposals env handling taken).load (Block.hash env taken.proposal)).isSome = true := by
    simp [handledProposals]
  rw [GoMap.length_le_one_iff here]
  constructor
  · intro only earlier member handled
    refine only _ ?_
    have known := (tracks.proposals _).mpr ⟨earlier, member, handled, rfl⟩
    unfold handledProposals
    rw [GoMap.load_store]
    split_ifs
    · rfl
    · exact known
  · intro same hash found
    unfold handledProposals at found
    rw [GoMap.load_store] at found
    split_ifs at found with this
    · exact this
    · obtain ⟨earlier, member, handled, rfl⟩ := (tracks.proposals hash).mp found
      exact same earlier member handled

theorem keys_of_handled (tracks : Tracks env handling seen) (handled : Handled taken) (hash : Uint256) :
    ((handledProposals env handling taken).load hash).isSome = true ↔
      ∃ earlier ∈ seen ++ [taken], Handled earlier ∧ Block.hash env earlier.proposal = hash := by
  have known := tracks.proposals hash
  unfold handledProposals
  rw [GoMap.load_store]
  split_ifs with this
  · exact ⟨fun _ => ⟨taken, by simp, handled, this.symm⟩, fun _ => rfl⟩
  · rw [known]
    constructor
    · rintro ⟨earlier, member, rest⟩
      exact ⟨earlier, by simp [member], rest⟩
    · rintro ⟨earlier, member, handled', same⟩
      rcases List.mem_append.mp member with member | member
      · exact ⟨earlier, member, handled', same⟩
      · obtain rfl := List.mem_singleton.mp member
        exact absurd same.symm this

theorem Tracks.takeProposal (tracks : Tracks env handling seen) (taken : TakenProposal) :
    Tracks env (takeProposal env handling taken) (seen ++ [taken]) := by
  by_cases handled : Handled taken
  swap
  · -- the proposal is only announced
    obtain ⟨proposals, vote, selfVote⟩ := takeProposal_of_not_handled env handling handled
    have kept (hash) : Elected env (seen ++ [taken]) hash ↔ Elected env seen hash :=
      elected_of_not_accepted (fun accepted => handled accepted.1.handled) hash
    have members : (∃ earlier ∈ seen ++ [taken], Handled earlier) ↔ ∃ earlier ∈ seen, Handled earlier := by
      simp [handled, or_and_right, exists_or]
    refine ⟨fun hash => ?_, fun hash elected => ?_, fun silent => ?_, fun voted => ?_, fun waiting => ?_⟩
    · rw [proposals, tracks.proposals hash]
      simp [handled, or_and_right, exists_or]
    · rw [vote, tracks.elected hash ((kept hash).mp elected)]
    · rw [vote, tracks.silent fun hash elected => silent hash ((kept hash).mpr elected)]
    · rw [selfVote, vote, tracks.voted (members.mp voted)]
    · rw [selfVote, tracks.waiting fun earlier member => waiting earlier (by simp [member])]
  · have members : ∃ earlier ∈ seen ++ [taken], Handled earlier := ⟨taken, by simp, handled⟩
    by_cases accepted : Passes taken ∧ ¬(handledProposals env handling taken).entries.length > 1
    · obtain ⟨passes, alone⟩ := accepted
      obtain ⟨proposals, vote, selfVote⟩ := takeProposal_of_accepted passes alone
      have same := (alone_iff tracks).mp alone
      refine ⟨fun hash => ?_, fun hash elected => ?_, fun silent => ?_, fun _ => ?_, fun waiting => ?_⟩
      · rw [proposals, keys_of_handled tracks handled hash]
      · rw [vote]
        rcases elected_append.mp elected with before | ⟨-, this, -⟩
        · obtain ⟨chosen, member, handled', rfl⟩ := before.handled
          exact (same chosen member handled').symm
        · exact this
      · exact absurd (elected_append.mpr (.inr ⟨passes, rfl, same⟩)) (silent _)
      · rw [selfVote, vote]
      · exact absurd handled (waiting taken (by simp))
    · obtain ⟨proposals, vote, selfVote⟩ := takeProposal_of_not_accepted handled accepted
      have kept (hash) : Elected env (seen ++ [taken]) hash ↔ Elected env seen hash :=
        elected_of_not_accepted (fun both => accepted ⟨both.1, (alone_iff tracks).mpr both.2⟩) hash
      refine ⟨fun hash => ?_, fun hash elected => ?_, fun silent => ?_, fun _ => ?_, fun waiting => ?_⟩
      · rw [proposals, keys_of_handled tracks handled hash]
      · rw [vote, tracks.elected hash ((kept hash).mp elected)]
      · rw [vote, tracks.silent fun hash elected => silent hash ((kept hash).mpr elected)]
      · rcases selfVote with set | ⟨_, unchanged⟩
        · rw [set, vote]
        · -- more than two hashes: one of them was handled before
          rw [unchanged, vote]
          refine tracks.voted ?_
          by_contra none
          have alone : ¬(handledProposals env handling taken).entries.length > 1 :=
            (alone_iff tracks).mpr fun earlier member handled' => absurd ⟨earlier, member, handled'⟩ none
          omega
      · exact absurd handled (waiting taken (by simp))

theorem tracks_waitAndHandleProposal (env : Env) (taken : List TakenProposal) :
    Tracks env (waitAndHandleProposal env taken) taken := by
  induction taken using List.reverseRecOn with
  | nil => exact tracks_start
  | append_singleton _ taken ih =>
    have step := ih.takeProposal taken
    simpa [waitAndHandleProposal] using step

def Conflicting (env : Env) (taken : List TakenProposal) : Prop :=
  ∃ one ∈ taken, ∃ other ∈ taken, Block.hash env one.proposal ≠ Block.hash env other.proposal

/-- Some proposal is handled, and each one that passes the checks comes after a handled one with another hash. -/
def PassesLate (env : Env) (taken : List TakenProposal) : Prop :=
  (∃ one ∈ taken, Handled one) ∧ ∀ before one after, taken = before ++ one :: after → Passes one →
    Block.hash env one.proposal ≠ emptyUint256 →
    ∃ earlier ∈ before, Handled earlier ∧ Block.hash env earlier.proposal ≠ Block.hash env one.proposal

theorem selfVote_eq_empty_iff (taken : List TakenProposal) :
    (waitAndHandleProposal env taken).selfVote = some emptyUint256 ↔ PassesLate env taken := by
  have tracks := tracks_waitAndHandleProposal env taken
  constructor
  · intro empty
    have handled : ∃ one ∈ taken, Handled one := by
      by_contra none
      rw [tracks.waiting fun earlier member handled => none ⟨earlier, member, handled⟩] at empty
      cases empty
    refine ⟨handled, fun before one after split passes proper => ?_⟩
    by_contra same
    have elected : Elected env taken (Block.hash env one.proposal) := by
      refine ⟨before, one, after, split, passes, rfl, fun earlier member handled => ?_⟩
      by_contra differs
      exact same ⟨earlier, member, handled, differs⟩
    rw [tracks.voted handled, tracks.elected _ elected] at empty
    exact proper (Option.some.inj empty)
  · rintro ⟨handled, late⟩
    rw [tracks.voted handled]
    by_cases silent : ∀ hash, ¬Elected env taken hash
    · rw [tracks.silent silent]
    · obtain ⟨hash, elected⟩ := not_forall_not.mp silent
      rw [tracks.elected hash elected]
      obtain ⟨before, one, after, split, passes, rfl, same⟩ := elected
      by_contra proper
      obtain ⟨earlier, member, handled', differs⟩ := late before one after split passes fun empty => proper (by rw [empty])
      exact differs (same earlier member handled')

theorem selfVote_of_single {taken : List TakenProposal}
    (single : ∀ one ∈ taken, Block.hash env one.proposal = hash) (passes : ∃ one ∈ taken, Passes one) :
    (waitAndHandleProposal env taken).selfVote = some hash := by
  have tracks := tracks_waitAndHandleProposal env taken
  obtain ⟨one, member, passes⟩ := passes
  obtain ⟨before, after, rfl⟩ := List.append_of_mem member
  rw [tracks.voted ⟨one, member, passes.handled⟩, tracks.elected hash]
  exact ⟨before, one, after, rfl, passes, single one member, fun earlier among _ => single earlier (by simp [among])⟩

/-- Conflicting proposals are all rejected, and a single one that passes gets the vote, if and only if a proposal among
conflicting ones passes only after another hash was handled. -/
theorem conflicting_rejected_iff (taken : List TakenProposal) :
    ((Conflicting env taken → (waitAndHandleProposal env taken).selfVote = some emptyUint256) ∧
      ∀ hash, (∀ one ∈ taken, Block.hash env one.proposal = hash) → (∃ one ∈ taken, Passes one) →
        (waitAndHandleProposal env taken).selfVote = some hash) ↔
      (Conflicting env taken → PassesLate env taken) := by
  constructor
  · rintro ⟨rejected, -⟩ conflicting
    exact (selfVote_eq_empty_iff taken).mp (rejected conflicting)
  · intro late
    refine ⟨fun conflicting => (selfVote_eq_empty_iff taken).mpr (late conflicting), fun hash single passes => ?_⟩
    exact selfVote_of_single single passes

end Nkn.ProposalHandling

namespace Nkn.TwoProposals

open Sample ProposalHandling

def firstHash : Uint256 := Word.ofNat 32 0x8f02a97e72639fce48a65356f2a0986efe9d6fd5a94522515307421487b7ac90

def secondHash : Uint256 := Word.ofNat 32 0x0d29cfef77dfc83e1df8a52a042fd7d128b9db7cc29032f8c4b147dab9a89bf3

def first : Block := ⟨header 5000000 earlierTxnHash emptyUint256, [coinbaseTxn 0 0]⟩

def second : Block := ⟨header 5000000 emptyUint256 emptyUint256, [coinbaseTxn 0 0]⟩

def tables : Tables where
  sha256 :=
    Tables.hashedTwice (Header.serializeUnsigned first.header.unsignedHeader)
      (Word.ofNat 32 0x3a3dcabb2f83a4c250eaa17dee0d1107f0ac79d9b063ac11b30947809a7e768e) firstHash ++
    Tables.hashedTwice (Header.serializeUnsigned second.header.unsignedHeader)
      (Word.ofNat 32 0x15495d11548e5cb94eafe06313e53ef3879d4a82bfbf080191987f5ca7b1b283) secondHash

def passing (proposal : Block) : TakenProposal := ⟨proposal, false, true, .ok (), .ok (), .ok (), .ok ()⟩

/-- Two different proposals: the first one keeps the vote. -/
theorem conflict_keeps_vote : Conflicting tables.env [passing first, passing second] ∧
      (waitAndHandleProposal tables.env [passing first, passing second]).selfVote = some firstHash ∧
      firstHash ≠ emptyUint256 := by
  have hashes : Block.hash tables.env first = firstHash ∧ Block.hash tables.env second = secondHash ∧
      firstHash ≠ secondHash := by decide +kernel
  refine ⟨⟨passing first, by simp, passing second, by simp, ?_⟩, by decide +kernel, by decide +kernel⟩
  rw [passing, passing, hashes.1, hashes.2.1]
  exact hashes.2.2

end Nkn.TwoProposals
