import Mathlib
import Nkn.Model.SigChainPath

/-! # The number behind a signature hash

Shifting the bytes of a signature hash divides or multiplies the number that they stand for, which elects the miner. -/

namespace Nkn

open Go Outcome Pb.SigChain List

theorem bigEndian_cons (byte : UInt8) (rest : Bytes) :
    bigEndian (byte :: rest) = byte.toNat * 256 ^ rest.length + bigEndian rest := by
  have started (b : Bytes) (value : ℕ) :
      b.foldl (fun value byte => value * 256 + byte.toNat) value = value * 256 ^ b.length + bigEndian b := by
    induction b generalizing value with
    | nil => simp [bigEndian]
    | cons byte rest ih =>
      rw [bigEndian, foldl_cons, ih, foldl_cons, ih, length_cons]
      ring
  rw [bigEndian, foldl_cons, started, zero_mul, zero_add]

theorem bigEndian_lt (b : Bytes) : bigEndian b < 256 ^ b.length := by
  induction b with
  | nil => simp [bigEndian]
  | cons byte rest ih =>
    rw [bigEndian_cons, length_cons, pow_succ']
    have := byte.toNat_lt
    nlinarith [Nat.pow_pos (n := rest.length) (show 0 < 256 by norm_num)]

theorem bigEndian_inj {b b' : Bytes} (sized : b.length = b'.length) (same : bigEndian b = bigEndian b') : b = b' := by
  induction b generalizing b' with
  | nil => exact (List.length_eq_zero_iff.mp sized.symm).symm
  | cons byte rest ih =>
    obtain ⟨byte', rest', rfl⟩ := List.exists_cons_of_length_eq_add_one sized.symm
    have short : rest.length = rest'.length := by simpa using sized
    rw [bigEndian_cons, bigEndian_cons, short] at same
    have below := bigEndian_lt rest
    have below' := bigEndian_lt rest'
    rw [short] at below
    have digit : byte.toNat = byte'.toNat := by
      have first := congrArg (· / 256 ^ rest'.length) same
      simpa [Nat.mul_comm _ (256 ^ _), Nat.mul_add_div, Nat.div_eq_of_lt below, Nat.div_eq_of_lt below'] using first
    rw [digit] at same
    rw [UInt8.toNat_inj.mp digit, ih short (by omega)]

theorem bigEndian_ofNat (n value : ℕ) : bigEndian (Word.ofNat n value).toArray = value % 256 ^ n := by
  induction n generalizing value with
  | zero => simp [Word.ofNat, Word.toArray, littleEndian, bigEndian, Nat.mod_one]
  | succ n ih =>
    have split : (Word.ofNat (n + 1) value).toArray = (Word.ofNat n (value / 256)).toArray ++ [UInt8.ofNat value] := by
      simp [Word.ofNat, Word.toArray, littleEndian]
    rw [split, bigEndian, foldl_append, ← bigEndian, ih, pow_succ', Nat.mod_mul]
    simp
    ring

theorem shifted_byte (byte : UInt8) {carry : ℕ} (bit : carry < 2) :
    (byte >>> 1 ||| UInt8.ofNat (128 * carry)).toNat = byte.toNat / 2 + 128 * carry ∧
      byte <<< 7 = UInt8.ofNat (128 * (byte.toNat % 2)) ∧
      (byte <<< 1 ||| UInt8.ofNat carry).toNat = 2 * (byte.toNat % 128) + carry ∧
      byte >>> 7 = UInt8.ofNat (byte.toNat / 128) ∧ (byte &&& 0x80 = 0x80 ↔ byte.toNat / 128 = 1) := by
  obtain ⟨value, small, rfl⟩ : ∃ value < 256, UInt8.ofNat value = byte := ⟨_, byte.toNat_lt, UInt8.ofNat_toNat⟩
  revert value carry
  decide +kernel

@[simp] theorem length_shiftRight (carry : UInt8) (b : Bytes) : (shiftRight carry b).length = b.length := by
  induction b generalizing carry with
  | nil => rfl
  | cons byte rest ih => rw [shiftRight, length_cons, ih, length_cons]

@[simp] theorem length_shiftLeft (b : Bytes) : (shiftLeft b).length = b.length := by
  induction b with
  | nil => rfl
  | cons byte rest ih => rw [shiftLeft, length_cons, ih, length_cons]

theorem bigEndian_shiftRight (b : Bytes) {carry : ℕ} (bit : carry < 2) :
    bigEndian (shiftRight (UInt8.ofNat (128 * carry)) b) = (carry * 256 ^ b.length + bigEndian b) / 2 := by
  induction b generalizing carry with
  | nil => simp [shiftRight, bigEndian]; omega
  | cons byte rest ih =>
    obtain ⟨here, next, -⟩ := shifted_byte byte bit
    have split : carry * 256 ^ (rest.length + 1) + (byte.toNat * 256 ^ rest.length + bigEndian rest) =
        2 * ((byte.toNat / 2 + 128 * carry) * 256 ^ rest.length) +
          (byte.toNat % 2 * 256 ^ rest.length + bigEndian rest) := by
      have parts : byte.toNat = 2 * (byte.toNat / 2) + byte.toNat % 2 := by omega
      generalize byte.toNat / 2 = half, byte.toNat % 2 = low at *
      rw [parts]
      ring
    rw [shiftRight, bigEndian_cons, here, next, ih (Nat.mod_lt _ (by norm_num)), bigEndian_cons, length_cons, split,
      Nat.mul_add_div (by norm_num), length_shiftRight]

theorem bigEndian_shiftLeft (b : Bytes) :
    2 * bigEndian b = (b.headD 0).toNat / 128 * 256 ^ b.length + bigEndian (shiftLeft b) := by
  induction b with
  | nil => simp [shiftLeft, bigEndian]
  | cons byte rest ih =>
    have bit : (rest.headD 0).toNat / 128 < 2 := by have := (rest.headD 0).toNat_lt; omega
    obtain ⟨-, -, -, top, -⟩ := shifted_byte (rest.headD 0) bit
    obtain ⟨-, -, here, -, -⟩ := shifted_byte byte bit
    have parts : byte.toNat = 128 * (byte.toNat / 128) + byte.toNat % 128 := by omega
    rw [shiftLeft, bigEndian_cons, bigEndian_cons, top, here, length_shiftLeft, headD_cons, length_cons, mul_add, ih]
    generalize byte.toNat / 128 = high, byte.toNat % 128 = low at *
    rw [parts]
    ring

theorem bigEndian_iterate_right (b : Bytes) (steps : ℕ) :
    bigEndian ((shiftRight 0)^[steps] b) = bigEndian b / 2 ^ steps := by
  induction steps with
  | zero => simp
  | succ steps ih =>
    have half := bigEndian_shiftRight ((shiftRight 0)^[steps] b) (show 0 < 2 by norm_num)
    rw [zero_mul, zero_add] at half
    rw [Function.iterate_succ_apply', pow_succ, ← Nat.div_div_eq_div_mul, ← ih]
    exact half

/-- One turn of the loop to the left, which ends at a set top bit. -/
def leftTurn (b : Bytes) : Bytes := if b.headD 0 &&& 0x80 = 0x80 then b else shiftLeft b

theorem leftTurn_cases (b : Bytes) : (leftTurn b).length = b.length ∧
    (leftTurn b = b ∧ 256 ^ b.length ≤ 2 * bigEndian b ∨ bigEndian (leftTurn b) = 2 * bigEndian b) := by
  have doubled := bigEndian_shiftLeft b
  obtain ⟨-, -, -, -, top⟩ := shifted_byte (b.headD 0) (show 0 < 2 by norm_num)
  rw [leftTurn]
  split_ifs with set
  · rw [top.mp set, one_mul] at doubled
    exact ⟨rfl, .inl ⟨rfl, by omega⟩⟩
  · have clear : (b.headD 0).toNat / 128 = 0 := by
      have := (b.headD 0).toNat_lt
      have := mt top.mpr set
      omega
    rw [clear, zero_mul, zero_add] at doubled
    exact ⟨length_shiftLeft b, .inr doubled.symm⟩

/-- The most steps to the left, up to a number of turns, for which the bytes have room. -/
abbrev MostSteps (b : Bytes) (turns steps : ℕ) : Prop :=
  IsGreatest {steps | steps ≤ turns ∧ bigEndian b * 2 ^ steps < 256 ^ b.length} steps

theorem bigEndian_iterate_left (b : Bytes) (turns : ℕ) : (leftTurn^[turns] b).length = b.length ∧
    ∃ steps, MostSteps b turns steps ∧ bigEndian (leftTurn^[turns] b) = bigEndian b * 2 ^ steps := by
  induction turns with
  | zero => exact ⟨rfl, 0, ⟨⟨le_rfl, by simpa using bigEndian_lt b⟩, fun _ member => member.1⟩, by simp⟩
  | succ turns ih =>
    obtain ⟨length, steps, ⟨⟨most, fits⟩, greatest⟩, value⟩ := ih
    rw [Function.iterate_succ_apply']
    obtain ⟨length', turn⟩ := leftTurn_cases (leftTurn^[turns] b)
    refine ⟨length'.trans length, ?_⟩
    rcases turn with ⟨same, full⟩ | doubled
    · -- the top bit is set, so that one more step would be too many
      refine ⟨steps, ⟨⟨by omega, fits⟩, fun other ⟨_, fits'⟩ => ?_⟩, by rw [same, value]⟩
      by_contra more
      have grows := Nat.mul_le_mul_left (bigEndian b) (Nat.pow_le_pow_right two_pos (show steps + 1 ≤ other by omega))
      rw [length, value] at full
      rw [pow_succ] at grows
      linarith
    · have fits' := bigEndian_lt (leftTurn (leftTurn^[turns] b))
      have next : bigEndian b * 2 ^ (steps + 1) = bigEndian (leftTurn (leftTurn^[turns] b)) := by
        rw [doubled, value, pow_succ]
        ring
      rw [length', length, ← next] at fits'
      have all : steps = turns := by
        by_contra fewer
        have := greatest (show steps + 1 ∈ _ from ⟨by omega, fits'⟩)
        omega
      exact ⟨steps + 1, ⟨⟨by omega, fits'⟩, fun _ member => by have := member.1; omega⟩, next.symm⟩

theorem bigEndian_rightShiftBytes (b : Bytes) (n : ℤ) :
    (0 ≤ n → bigEndian (rightShiftBytes b n) = bigEndian b / 2 ^ n.toNat) ∧
    (n < 0 → ∃ steps, MostSteps b (-n).toNat steps ∧ bigEndian (rightShiftBytes b n) = bigEndian b * 2 ^ steps) := by
  refine ⟨fun right => ?_, fun left => ?_⟩
  · rw [rightShiftBytes, if_pos right, bigEndian_iterate_right]
  · rw [rightShiftBytes, if_neg (by omega)]
    exact (bigEndian_iterate_left b (-n).toNat).2

theorem rightShiftBytes_antitone (b : Bytes) : Antitone fun n => bigEndian (rightShiftBytes b n) := by
  intro n n' le
  obtain ⟨right, left⟩ := bigEndian_rightShiftBytes b n
  obtain ⟨right', left'⟩ := bigEndian_rightShiftBytes b n'
  dsimp only
  by_cases first : 0 ≤ n
  · rw [right first, right' (by omega)]
    exact Nat.div_le_div_left (Nat.pow_le_pow_right two_pos (by omega)) (by positivity)
  · obtain ⟨steps, greatest, value⟩ := left (by omega)
    rw [value]
    by_cases second : 0 ≤ n'
    · rw [right' second]
      exact (Nat.div_le_self _ _).trans (Nat.le_mul_of_pos_right _ (by positivity))
    · obtain ⟨steps', greatest', value'⟩ := left' (by omega)
      rw [value']
      exact Nat.mul_le_mul_left _ (Nat.pow_le_pow_right two_pos (greatest.2 ⟨by have := greatest'.1.1; omega, greatest'.1.2⟩))

/-- A shift to the right divides by a power of two, and one to the left multiplies by as many twos as the bytes have room
for. A longer sigchain therefore has no larger signature hash, and a larger penalty no smaller one. -/
theorem signature_hash_shifts :
    (∀ (b : Bytes) (n : ℤ), (0 ≤ n → bigEndian (rightShiftBytes b n) = bigEndian b / 2 ^ n.toNat) ∧
      (n < 0 → ∃ steps, MostSteps b (-n).toNat steps ∧
        bigEndian (rightShiftBytes b n) = bigEndian b * 2 ^ steps)) ∧
    ∀ (env : Env) (lastRelayHash : Bytes) (height : UInt32),
      (∀ leftShiftBit, Antitone fun length =>
        bigEndian (computeSignatureHash env .mainnet lastRelayHash length height leftShiftBit)) ∧
      ∀ length, Monotone fun leftShiftBit =>
        bigEndian (computeSignatureHash env .mainnet lastRelayHash length height leftShiftBit) := by
  refine ⟨bigEndian_rightShiftBytes, fun env lastRelayHash height => ⟨fun leftShiftBit => ?_, fun length => ?_⟩⟩
  · intro length length' le
    refine rightShiftBytes_antitone _ (Int.sub_le_sub_right (Int.mul_le_mul_of_nonneg_left ?_ ?_) leftShiftBit)
    · split_ifs <;> omega
    · have table : Config.mainnet.sigChainBitShiftPerElement = ⟨[(2651000, 8), (0, 4)], 0⟩ := rfl
      rw [table, HeightDependent.getValueAtHeight]
      simp only [find?_cons, find?_nil]
      cases decide (2651000 ≤ height) <;> cases decide (0 ≤ height) <;> decide
  · intro leftShiftBit leftShiftBit' le
    exact rightShiftBytes_antitone _ (Int.sub_le_sub_left le _)

variable {env : Env} {config : Config} {chord : Chord} (sc : Pb.SigChain) (height : UInt32)

/-- More recent miners on a path never lower its signature hash with penalty, and none is below the plain one. -/
theorem penalty_never_helps (sm : List Bytes) :
    (Monotone fun rm => (signatureHashWithPenalty env config chord rm sm sc height).toOption.elim 0 bigEndian) ∧
      ∀ rm, (sc.signatureHash env config height 0).toOption.elim 0 bigEndian ≤
        (signatureHashWithPenalty env config chord rm sm sc height).toOption.elim 0 bigEndian := by
  have more : Monotone fun penalty => (sc.signatureHash env config height penalty).toOption.elim 0 bigEndian := by
    intro _ _ le
    simp only [signatureHash]
    cases sc.lastRelayHash env with
    | error _ => rfl
    | ok _ => exact rightShiftBytes_antitone _ (Int.sub_le_sub_left le _)
  refine ⟨fun rm rm' le => more ?_, fun rm => more ?_⟩
  · gcongr
    split_ifs
    · gcongr
      exact sum_le_sum fun elem _ => le elem.nextPubkey
    · rfl
  · have skipped (most : ℤ) : 0 ≤ (sc.hops.map fun hop => max 0 (skipCount chord hop.1 hop.2 sm - most)).sum := by
      refine sum_nonneg fun _ member => ?_
      obtain ⟨_, -, rfl⟩ := mem_map.mp member
      exact le_max_left ..
    have := skipped (config.sigChainSkipMinerMaxAllowed.getValueAtHeight height).toInt
    split_ifs <;> positivity

variable {sc height} in
theorem mem_minerElems {position : ℕ} (member : position ∈ sc.minerElems config height) :
    ∃ i elem, position = i + 1 ∧ i + 2 < sc.elems.length ∧ sc.elems[i + 1]? = some elem ∧ elem.mining = true := by
  obtain ⟨⟨elem, _⟩, inside, member⟩ := mem_flatMap.mp member
  dsimp only at member
  split_ifs at member with relay
  · obtain rfl := eq_of_mem_replicate member
    obtain ⟨positive, before, mining⟩ := relay
    obtain ⟨i, rfl⟩ := Nat.exists_eq_add_one.mpr positive
    exact ⟨i, elem, rfl, by omega, mem_zipIdx_iff_getElem?.mp inside, mining⟩
  · exact absurd member not_mem_nil

/-- `GetMiner` elects a mining relay, by the key that the element before it names, and all its indices are in range. -/
theorem miner_is_relay (randomBeacon : Bytes) :
    match sc.getMiner env config height randomBeacon with
    | .ok (publicKey, id) => ∃ i prev elem, i + 2 < sc.elems.length ∧ sc.elems[i]? = some prev ∧
        sc.elems[i + 1]? = some elem ∧ elem.mining = true ∧ prev.nextPubkey = publicKey ∧ elem.id = id
    | .error fault => ∃ text, fault = .error text ∧ (sc.isComplete = false ∨ sc.minerElems config height = []) := by
  by_cases incomplete : sc.isComplete = false
  · simp [getMiner, rejectIf, incomplete, fail]
  by_cases nobody : sc.minerElems config height = []
  · simp [getMiner, rejectIf, incomplete, nobody, fail]
  simp only [getMiner, rejectIf, incomplete, nobody, Bool.true_eq_false, if_false, ok_bind, signatureHash, lastRelayHash]
  generalize bigEndian _ = number
  have inside := Nat.mod_lt number (length_pos_iff.mpr nobody)
  obtain ⟨i, elem, position, short, here, mining⟩ := mem_minerElems (getElem_mem inside)
  obtain ⟨prev, before⟩ : ∃ prev, sc.elems[i]? = some prev := ⟨_, getElem?_eq_getElem (by omega)⟩
  rw [getD_eq_getElem _ _ inside, position, Nat.add_sub_cancel, before, here]
  exact ⟨i, prev, elem, short, before, here, mining, rfl, rfl⟩

end Nkn
