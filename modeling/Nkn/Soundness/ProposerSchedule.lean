import Nkn.Model.Blockchain
import Nkn.Soundness.Concrete

/-! # The schedule of proposers

The proposers after the tip take turns by the clock: the miner of the sigchain, then the signers of earlier blocks, one
after every timeout. -/

namespace Nkn

open Go Outcome Config Store

variable {env : Env} {config : Config} {cs : ChainStore} {height : UInt32} {timestamp : Int64}

def blockSigner (cs : ChainStore) (height : UInt32) : Outcome (Bytes × Bytes) := do
  let hash ← cs.getBlockHash height
  let header ← cs.getHeader hash
  .ok (header.unsignedHeader.signerPk, header.unsignedHeader.signerId)

def named (signer : Outcome (Bytes × Bytes)) (winnerType : Pb.WinnerType) : Outcome (Bytes × Bytes × Pb.WinnerType) := do
  let (publicKey, chordID) ← signer
  .ok (publicKey, chordID, winnerType)

structure Schedule (env : Env) (config : Config) (cs : ChainStore) (height : UInt32) (header : Pb.UnsignedHeader)
    (seconds : ℤ) (signer : Outcome (Bytes × Bytes × Pb.WinnerType)) : Prop where
  sigChain : consensusDuration.toInt ≤ seconds → seconds ≤ consensusDuration.toInt + proposingTimeTolerance.toInt →
    seconds < consensusTimeout.toInt → signer = if header.winnerType = .txnSigner then
      named (sigChainSigner env config cs header) .txnSigner else .ok ([], [], header.winnerType)
  timeout : ∀ k : ℕ, 1 ≤ k → k * consensusTimeout.toInt ≤ seconds →
    seconds ≤ k * consensusTimeout.toInt + proposingTimeTolerance.toInt →
    signer = named (blockSigner cs (.ofNat (height.toNat - k))) .blockSigner
  nobody : ¬(consensusDuration.toInt ≤ seconds ∧ seconds ≤ consensusDuration.toInt + proposingTimeTolerance.toInt ∧
      seconds < consensusTimeout.toInt) → (∀ k : ℕ, 1 ≤ k → ¬(k * consensusTimeout.toInt ≤ seconds ∧
      seconds ≤ k * consensusTimeout.toInt + proposingTimeTolerance.toInt)) → signer = .ok ([], [], .genesisSigner)

theorem consensusTimeout_toInt : consensusTimeout.toInt = 60 := rfl

theorem consensusDuration_toInt : consensusDuration.toInt = 20 := rfl

theorem proposingTimeTolerance_toInt : proposingTimeTolerance.toInt = 10 := rfl

variable {since : Int64}

theorem toInt_div_timeout (later : 0 ≤ since.toInt) : (since / consensusTimeout).toInt = since.toInt / 60 := by
  have bound := fits_toInt since
  have divided := Int.ediv_le_self 60 later
  rw [Int64.toInt_div, consensusTimeout_toInt, Int.tdiv_eq_ediv_of_nonneg later, bmod_of_fits]
  exact ⟨by have := Int.ediv_nonneg later (by decide : (0 : ℤ) ≤ 60); have := bound.1; omega, by have := bound.2; omega⟩

theorem toInt_mod_timeout (later : 0 ≤ since.toInt) : (since % consensusTimeout).toInt = since.toInt % 60 := by
  rw [Int64.toInt_mod, consensusTimeout_toInt, Int.tmod_eq_emod_of_nonneg later]

theorem timeoutSigner_eq (later : 0 ≤ since.toInt) :
    timeoutSigner cs since = blockSigner cs (.ofNat (cs.getHeight.toNat - (since.toInt / 60).toNat)) := by
  have tip : cs.getHeight.toNat < 2 ^ 32 := cs.getHeight.toNat_lt
  have quotient := Int.ediv_nonneg later (by decide : (0 : ℤ) ≤ 60)
  have bound := since.toInt_lt
  have base : (Int64.ofNat cs.getHeight.toNat).toInt = cs.getHeight.toNat := Int64.toInt_ofNat_of_lt (by omega)
  have below : (Int64.ofNat cs.getHeight.toNat - since / consensusTimeout).toInt =
      cs.getHeight.toNat - since.toInt / 60 := by
    rw [toInt_sub_of_fits, base, toInt_div_timeout later]
    rw [base, toInt_div_timeout later]
    exact ⟨by omega, by omega⟩
  unfold timeoutSigner blockSigner
  dsimp only
  generalize Int64.ofNat cs.getHeight.toNat - since / consensusTimeout = place at below
  split_ifs with negative
  · rw [lt_iff_toInt, below, toInt_zero] at negative
    rw [Nat.sub_eq_zero_of_le (by omega)]
    rfl
  · rw [lt_iff_toInt, below, toInt_zero] at negative
    have exact_ : place = Int64.ofNat (cs.getHeight.toNat - (since.toInt / 60).toNat) := by
      rw [← Int64.toInt_inj, below, Int64.toInt_ofNat_of_lt (by omega)]
      omega
    have same (n : ℕ) : (Int64.ofNat n).toUInt64.toUInt32 = UInt32.ofNat n := UInt64.toUInt32_ofNat' n
    rw [exact_, same]

theorem getNextBlockSigner_eq {header : Header} (above : height ≤ cs.getHeight)
    (read : cs.getHeader (cs.headerCache.getCachedHeaderHashByHeight height) = .ok header)
    (mined : header.unsignedHeader.winnerType ≠ .genesisSigner) (recent : 0 ≤ header.unsignedHeader.timestamp.toInt)
    (later : header.unsignedHeader.timestamp < timestamp) :
    Schedule env config cs cs.getHeight header.unsignedHeader
      (timestamp.toInt - header.unsignedHeader.timestamp.toInt) (getNextBlockSigner env config cs height timestamp) := by
  rw [lt_iff_toInt] at later
  have bound := timestamp.toInt_lt
  have since : (timestamp - header.unsignedHeader.timestamp).toInt =
      timestamp.toInt - header.unsignedHeader.timestamp.toInt := toInt_sub_of_fits ⟨by omega, by omega⟩
  have positive : 0 ≤ (timestamp - header.unsignedHeader.timestamp).toInt := by omega
  have known : getNextBlockSigner env config cs height timestamp =
      if timestamp - header.unsignedHeader.timestamp ≥ consensusTimeout then
        if (timestamp - header.unsignedHeader.timestamp) % consensusTimeout > proposingTimeTolerance then
          .ok ([], [], .genesisSigner)
        else named (timeoutSigner cs (timestamp - header.unsignedHeader.timestamp)) .blockSigner
      else if timestamp - header.unsignedHeader.timestamp < consensusDuration ∨
          timestamp - header.unsignedHeader.timestamp > consensusDuration + proposingTimeTolerance then
        .ok ([], [], .genesisSigner)
      else if header.unsignedHeader.winnerType = .txnSigner then
        named (sigChainSigner env config cs header.unsignedHeader) header.unsignedHeader.winnerType
      else .ok ([], [], header.unsignedHeader.winnerType) := by
    unfold getNextBlockSigner
    have early : ¬timestamp ≤ header.unsignedHeader.timestamp := by rw [le_iff_toInt]; omega
    have there : ¬height > cs.getHeight := UInt32.not_lt.mpr above
    simp only [rejectIf, if_neg there, ok_bind, read, if_neg mined, if_neg early]
    rfl
  rw [known, timeoutSigner_eq positive]
  have window : (consensusDuration + proposingTimeTolerance).toInt = 30 := rfl
  simp only [ge_iff_le, gt_iff_lt, le_iff_toInt, lt_iff_toInt, toInt_mod_timeout positive, window,
    consensusTimeout_toInt, consensusDuration_toInt, proposingTimeTolerance_toInt, since]
  generalize timestamp.toInt - header.unsignedHeader.timestamp.toInt = seconds
  refine ⟨fun start till early => ?_, fun k one start till => ?_, fun outside none => ?_⟩
  · rw [consensusTimeout_toInt] at early
    rw [consensusDuration_toInt] at start till
    rw [proposingTimeTolerance_toInt] at till
    rw [if_neg (by omega), if_neg (by omega)]
    split_ifs with sigChain
    · rw [sigChain]
    · rfl
  · rw [consensusTimeout_toInt] at start till
    rw [proposingTimeTolerance_toInt] at till
    rw [if_pos (by omega), if_neg (by omega), (by omega : (seconds / 60).toNat = k)]
  · simp only [consensusTimeout_toInt, consensusDuration_toInt, proposingTimeTolerance_toInt] at outside none
    split_ifs with timedOut late early
    · rfl
    · have turn := none (seconds / 60).toNat (by omega)
      omega
    · rfl
    · omega
    · omega

/-- The timeout branch counts back from the tip: the answer is that for the height if the height is the tip, before the first
timeout, between two turns, and where both heights name one signer. -/
def CountsFrom (cs : ChainStore) (height : UInt32) (seconds : ℤ) : Prop :=
  height = cs.getHeight ∨ seconds < consensusTimeout.toInt ∨
    proposingTimeTolerance.toInt < seconds % consensusTimeout.toInt ∨
    let turns := (seconds / consensusTimeout.toInt).toNat
    blockSigner cs (.ofNat (cs.getHeight.toNat - turns)) = blockSigner cs (.ofNat (height.toNat - turns))

theorem named_inj {signer signer' : Outcome (Bytes × Bytes)} {winnerType : Pb.WinnerType}
    (same : named signer winnerType = named signer' winnerType) : signer = signer' := by
  rcases signer with fault | ⟨_, _⟩ <;> rcases signer' with fault' | ⟨_, _⟩ <;> cases same <;> rfl

theorem Schedule.iff_countsFrom {header : Pb.UnsignedHeader} {seconds : ℤ} {signer : Outcome (Bytes × Bytes × Pb.WinnerType)}
    (schedule : Schedule env config cs cs.getHeight header seconds signer) :
    Schedule env config cs height header seconds signer ↔ CountsFrom cs height seconds := by
  simp only [CountsFrom, consensusTimeout_toInt, proposingTimeTolerance_toInt]
  constructor
  · intro claimed
    by_cases early : seconds < 60
    · exact .inr (.inl early)
    by_cases closed : 10 < seconds % 60
    · exact .inr (.inr (.inl closed))
    have answer := schedule.timeout (seconds / 60).toNat (by omega) (by rw [consensusTimeout_toInt]; omega)
      (by rw [consensusTimeout_toInt, proposingTimeTolerance_toInt]; omega)
    have wanted := claimed.timeout (seconds / 60).toNat (by omega) (by rw [consensusTimeout_toInt]; omega)
      (by rw [consensusTimeout_toInt, proposingTimeTolerance_toInt]; omega)
    exact .inr (.inr (.inr (named_inj (answer.symm.trans wanted))))
  · intro counts
    refine ⟨schedule.sigChain, fun k one start till => ?_, schedule.nobody⟩
    have turn := schedule.timeout k one start till
    rw [consensusTimeout_toInt] at start till
    rw [proposingTimeTolerance_toInt] at till
    rcases counts with rfl | early | closed | same
    · exact turn
    · omega
    · omega
    · rw [(by omega : (seconds / 60).toNat = k)] at same
      rw [turn, same]

/-- The schedule of a height is kept at exactly the times at which `CountsFrom` holds; at most one signer is admitted at any
time, and the signers of all earlier blocks get a turn. -/
theorem proposer_schedule {header : Header} (above : height ≤ cs.getHeight)
    (read : cs.getHeader (cs.headerCache.getCachedHeaderHashByHeight height) = .ok header)
    (mined : header.unsignedHeader.winnerType ≠ .genesisSigner) (recent : 0 ≤ header.unsignedHeader.timestamp.toInt)
    (far : header.unsignedHeader.timestamp.toInt < 2 ^ 62) :
    (∀ timestamp, header.unsignedHeader.timestamp < timestamp →
      (Schedule env config cs height header.unsignedHeader
        (timestamp.toInt - header.unsignedHeader.timestamp.toInt) (getNextBlockSigner env config cs height timestamp) ↔
        CountsFrom cs height (timestamp.toInt - header.unsignedHeader.timestamp.toInt))) ∧
    (∀ one other : Pb.UnsignedHeader, one.timestamp = other.timestamp → signerCheck env config cs one = .ok () →
      signerCheck env config cs other = .ok () → one.signerPk = other.signerPk ∧ one.signerId = other.signerId) ∧
    ∀ earlier < height, ∃ timestamp, header.unsignedHeader.timestamp < timestamp ∧
      getNextBlockSigner env config cs height timestamp = named (blockSigner cs earlier) .blockSigner := by
  have schedule (timestamp : Int64) (later : header.unsignedHeader.timestamp < timestamp) :=
    @getNextBlockSigner_eq env config cs height timestamp header above read mined recent later
  refine ⟨fun timestamp later => (schedule timestamp later).iff_countsFrom,
    fun one other same accepted accepted' => ?_, fun earlier below => ?_⟩
  · simp only [signerCheck, bind_eq_ok, rejectIf_eq_ok, not_not] at accepted accepted'
    obtain ⟨answer, signs, _, key, _, -, _, -, _, -, id⟩ := accepted
    obtain ⟨answer', signs', _, key', _, -, _, -, _, -, id'⟩ := accepted'
    rw [same, signs'] at signs
    obtain rfl := Except.ok.inj signs
    exact ⟨key.trans key'.symm, id.trans id'.symm⟩
  · rw [UInt32.lt_iff_toNat_lt] at below
    rw [UInt32.le_iff_toNat_le] at above
    have size := cs.getHeight.toNat_lt
    have seconds : (header.unsignedHeader.timestamp +
        Int64.ofNat ((cs.getHeight.toNat - earlier.toNat) * 60)).toInt - header.unsignedHeader.timestamp.toInt =
        ((cs.getHeight.toNat - earlier.toNat : ℕ) : ℤ) * 60 := by
      have span : (Int64.ofNat ((cs.getHeight.toNat - earlier.toNat) * 60)).toInt =
          ((cs.getHeight.toNat - earlier.toNat) * 60 : ℕ) := Int64.toInt_ofNat_of_lt (by omega)
      rw [toInt_add_of_fits (by rw [span]; exact ⟨by omega, by omega⟩), span]
      push_cast
      omega
    have later : header.unsignedHeader.timestamp < header.unsignedHeader.timestamp +
        Int64.ofNat ((cs.getHeight.toNat - earlier.toNat) * 60) := by
      rw [lt_iff_toInt]
      omega
    refine ⟨_, later, ?_⟩
    have turn := (schedule _ later).timeout (cs.getHeight.toNat - earlier.toNat) (by omega)
      (by rw [seconds, consensusTimeout_toInt])
      (by rw [seconds, consensusTimeout_toInt, proposingTimeTolerance_toInt]; omega)
    rw [turn, (by omega : cs.getHeight.toNat - (cs.getHeight.toNat - earlier.toNat) = earlier.toNat), UInt32.ofNat_toNat]

namespace Turns

def header (height : UInt32) : Header :=
  { Sample.header height emptyUint256 emptyUint256 with
    unsignedHeader := { (Sample.header height emptyUint256 emptyUint256).unsignedHeader with signerPk := [height.toUInt8] } }

def blockHash (height : UInt32) : Uint256 := Word.ofNat 32 (height.toNat + 1)

def ledger (tip : UInt32) : ChainStore :=
  let heights := [0, 1, 2].filter (· ≤ tip)
  { ChainStore.new with
    db := { ChainStore.new.db with
      blockHashes := fun height => if height ∈ heights then some (blockHash height) else none
      headers := fun hash => (heights.find? fun height => blockHash height = hash).map fun height => ⟨header height, []⟩ }
    currentBlockHeight := tip
    headerCache := ⟨heights.foldl (fun index height => index.store height (blockHash height)) ∅, ∅, tip⟩ }

/-- One timeout after block 1 the signer depends on whether there is a block 2. -/
theorem turn_depends_on_tip :
    ((getNextBlockSigner FirstBlocks.tables.env mainnet (ledger 1) 1 1666662460).toOption.map fun answer => answer.1) = some [0] ∧
    ((getNextBlockSigner FirstBlocks.tables.env mainnet (ledger 2) 1 1666662460).toOption.map fun answer => answer.1) = some [1] := by
  decide +kernel

/-- Below the tip the schedule is kept while the miner has its turn, and after two timeouts, when both heights have arrived at
block 0. -/
theorem proposer_schedule_turns :
    Schedule FirstBlocks.tables.env mainnet (ledger 2) 1 (header 1).unsignedHeader 20
      (getNextBlockSigner FirstBlocks.tables.env mainnet (ledger 2) 1 1666662420) ∧
    Schedule FirstBlocks.tables.env mainnet (ledger 2) 1 (header 1).unsignedHeader 120
      (getNextBlockSigner FirstBlocks.tables.env mainnet (ledger 2) 1 1666662520) := by
  have schedule := (@proposer_schedule FirstBlocks.tables.env mainnet (ledger 2) 1 (header 1) (by decide) rfl (by decide)
    (by decide) (by decide)).1
  exact ⟨(schedule 1666662420 (by decide)).mpr (.inr (.inl (by decide))),
    (schedule 1666662520 (by decide)).mpr (.inr (.inr (.inr rfl)))⟩

end Turns

end Nkn
