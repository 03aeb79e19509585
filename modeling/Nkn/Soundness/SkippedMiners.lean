import Mathlib.Data.Nat.Log
import Nkn.Soundness.SignatureHash

/-! # The ring of the overlay

What the binary searches of `skipCount` count, compared with the miners on the ring between the start of a finger and
the next hop. -/

namespace Nkn

open Go Outcome Pb.SigChain Int Nat List

/-! ## The ring -/

def ringSize : ℕ := 2 ^ (Config.nodeIDBytes * 8)

theorem ringSize_pos : 0 < ringSize := Nat.two_pow_pos _

/-- How far it is from one place to another, upwards and around the ring. -/
def ringDistance (fromID toID : ℕ) : ℕ := (((toID : ℤ) - fromID) % ringSize).toNat

def OnWay (startID endID id : ℕ) : Prop := ringDistance startID id < ringDistance startID endID

instance (startID endID id : ℕ) : Decidable (OnWay startID endID id) := inferInstanceAs (Decidable (_ < _))

def IsID (id : Bytes) : Prop := id.length = Config.nodeIDBytes

instance (id : Bytes) : Decidable (IsID id) := inferInstanceAs (Decidable (_ = _))

/-- What the library documents: ids are big endian numbers, distances and offsets are taken modulo the size of the ring,
and ids are compared as numbers. -/
structure Chord.OnRing (chord : Chord) : Prop where
  distance (fromID toID : Bytes) : chord.distance fromID toID = ringDistance (bigEndian fromID) (bigEndian toID)
  powerOffset {id : Bytes} (isID : IsID id) (exponent : UInt32) : IsID (chord.powerOffset id exponent) ∧
    bigEndian (chord.powerOffset id exponent) = (bigEndian id + 2 ^ exponent.toNat) % ringSize
  compareID {id other : Bytes} (isID : IsID id) (isID' : IsID other) :
    chord.compareID id other = if bigEndian id < bigEndian other then -1 else if bigEndian id = bigEndian other then 0 else 1

theorem ringDistance_lt (fromID toID : ℕ) : ringDistance fromID toID < ringSize := by
  have positive : (0 : ℤ) < ringSize := by exact_mod_cast ringSize_pos
  have below := emod_lt_of_pos ((toID : ℤ) - fromID) positive
  have above := emod_nonneg ((toID : ℤ) - fromID) positive.ne'
  unfold ringDistance
  omega

theorem ringDistance_eq {fromID toID : ℕ} (one : fromID < ringSize) (other : toID < ringSize) :
    ringDistance fromID toID = if fromID ≤ toID then toID - fromID else ringSize - fromID + toID := by
  unfold ringDistance
  split_ifs with ahead
  · rw [emod_eq_of_lt (by omega) (by omega)]
    omega
  · have around : ((toID : ℤ) - fromID) % ringSize = (toID : ℤ) - fromID + ringSize := by
      rw [← add_emod_right, emod_eq_of_lt (by omega) (by omega)]
    rw [around]
    omega

theorem onWay_iff {startID endID id : ℕ} (one : startID < ringSize) (other : endID < ringSize) (inside : id < ringSize) :
    OnWay startID endID id ↔ if startID ≤ endID then startID ≤ id ∧ id < endID else startID ≤ id ∨ id < endID := by
  unfold OnWay
  rw [ringDistance_eq one inside, ringDistance_eq one other]
  split_ifs <;> omega

theorem ringDistance_pos {fromID toID lastID : ℕ} (differ : ringDistance toID lastID ≠ ringDistance fromID lastID) :
    0 < ringDistance fromID toID := by
  refine Nat.pos_of_ne_zero fun none => differ ?_
  have positive : (0 : ℤ) < ringSize := by exact_mod_cast ringSize_pos
  have above := emod_nonneg ((toID : ℤ) - fromID) positive.ne'
  have whole : ((toID : ℤ) - fromID) % ringSize = 0 := by
    unfold ringDistance at none
    omega
  have same : ((lastID : ℤ) - toID) % ringSize = ((lastID : ℤ) - fromID) % ringSize := by
    rw [emod_eq_emod_iff_emod_sub_eq_zero]
    have swapped : (lastID : ℤ) - toID - (lastID - fromID) = -(toID - fromID) := by ring
    rw [swapped, ← dvd_iff_emod_eq_zero]
    exact Int.dvd_neg.mpr (dvd_iff_emod_eq_zero.mpr whole)
  unfold ringDistance
  rw [same]

theorem bitIdx_nonneg {dist : ℕ} (positive : 0 < dist) : 0 ≤ Chord.bitIdx dist := by
  have := size_pos.mpr positive
  unfold Chord.bitIdx
  omega

theorem bitIdx_eq {dist : ℕ} (positive : 0 < dist) : Chord.bitIdx dist = log 2 dist := by
  unfold Chord.bitIdx
  have bits : dist.size = log 2 dist + 1 := by
    refine le_antisymm (size_le.mpr (lt_pow_succ_log_self one_lt_two dist)) ?_
    exact lt_size.mpr (pow_log_le_self 2 positive.ne')
  rw [bits]
  omega

theorem bigEndian_lt_ringSize {id : Bytes} (isID : IsID id) : bigEndian id < ringSize := by
  have below := bigEndian_lt id
  rw [isID] at below
  exact below.trans_eq (by decide +kernel)

theorem Chord.OnRing.fingerStartID {chord : Chord} (ring : chord.OnRing) {fromID toID : Bytes} (isID : IsID fromID)
    (positive : 0 < ringDistance (bigEndian fromID) (bigEndian toID)) : IsID (chord.fingerStartID fromID toID) ∧
      bigEndian (chord.fingerStartID fromID toID) =
        (bigEndian fromID + 2 ^ log 2 (ringDistance (bigEndian fromID) (bigEndian toID))) % ringSize := by
  have short : log 2 (ringDistance (bigEndian fromID) (bigEndian toID)) < Config.nodeIDBytes * 8 :=
    log_lt_of_lt_pow positive.ne' (ringDistance_lt ..)
  have fits : log 2 (ringDistance (bigEndian fromID) (bigEndian toID)) < 2 ^ 32 := short.trans (by decide)
  obtain ⟨sized, value⟩ := ring.powerOffset isID (.ofInt (chord.fingerIdx fromID toID))
  refine ⟨sized, value.trans ?_⟩
  rw [Chord.fingerIdx, ring.distance, bitIdx_eq positive, UInt32.ofInt, Int.emod_eq_of_lt (by omega) (by exact_mod_cast fits),
    toNat_natCast, UInt32.toNat_ofNat_of_lt' fits]

section SkipCount

theorem countP_lt_add (sm : List ℕ) {low high : ℕ} (order : low ≤ high) :
    sm.countP (· < high) = sm.countP (· < low) + sm.countP fun id => low ≤ id && id < high := by
  induction sm with
  | nil => rfl
  | cons _ _ ih =>
    simp only [countP_cons, ih, Bool.and_eq_true, decide_eq_true_eq]
    split_ifs <;> omega

theorem countP_lt_add_le (sm : List ℕ) (bound : ℕ) : sm.countP (· < bound) + sm.countP (bound ≤ ·) = sm.length := by
  induction sm with
  | nil => rfl
  | cons _ _ _ =>
    simp only [countP_cons, length_cons, decide_eq_true_eq]
    split_ifs <;> omega

theorem countP_outside (sm : List ℕ) {low high : ℕ} (order : low ≤ high) :
    sm.countP (fun id => high ≤ id || id < low) = sm.countP (high ≤ ·) + sm.countP (· < low) := by
  induction sm with
  | nil => rfl
  | cons _ _ ih =>
    simp only [countP_cons, ih, Bool.or_eq_true, decide_eq_true_eq]
    split_ifs <;> omega

theorem countP_onWay {startID endID : ℕ} {sm : List ℕ} (one : startID < ringSize) (other : endID < ringSize)
    (places : ∀ id ∈ sm, id < ringSize) : sm.countP (OnWay startID endID ·) =
      if startID ≤ endID then sm.countP (fun id => startID ≤ id && id < endID)
      else sm.countP (fun id => startID ≤ id || id < endID) := by
  split_ifs with ahead
  · refine countP_congr fun id member => ?_
    simp [onWay_iff one other (places id member), ahead]
  · refine countP_congr fun id member => ?_
    simp [onWay_iff one other (places id member), ahead]

variable {chord : Chord} {fromID toID : Bytes} {sm : List Bytes}

theorem Chord.OnRing.compareID_nonneg (ring : chord.OnRing) {id other : Bytes} (isID : IsID id) (isID' : IsID other) :
    chord.compareID id other ≥ 0 ↔ bigEndian other ≤ bigEndian id := by
  rw [ring.compareID isID isID']
  split_ifs <;> omega

/-- A binary search in the sorted ids finds how many are below an id. -/
theorem Chord.OnRing.search_eq (ring : chord.OnRing) (places : ∀ id ∈ sm, IsID id)
    (sorted : (sm.map bigEndian).Pairwise (· < ·)) {bound : Bytes} (isID : IsID bound) :
    search sm.length (fun i => (sm[i]?).any fun id => decide (chord.compareID id bound ≥ 0)) =
      (sm.map bigEndian).countP (· < bigEndian bound) := by
  rw [← search_sorted sorted, length_map]
  congr 1
  funext i
  rw [getElem?_map, Option.any_map]
  cases found : sm[i]? with
  | none => rfl
  | some id => simp [ring.compareID_nonneg (places id (mem_of_getElem? found)) isID]

theorem Chord.OnRing.skipCount_eq (ring : chord.OnRing) (places : ∀ id ∈ sm, IsID id)
    (sorted : (sm.map bigEndian).Pairwise (· < ·)) (other : IsID toID) (starts : IsID (chord.fingerStartID fromID toID)) :
    skipCount chord fromID toID sm =
      if bigEndian (chord.fingerStartID fromID toID) ≤ bigEndian toID then
        ((sm.map bigEndian).countP (· < bigEndian toID) : ℤ) -
          (sm.map bigEndian).countP (· < bigEndian (chord.fingerStartID fromID toID))
      else ((sm.map bigEndian).countP (· < bigEndian (chord.fingerStartID fromID toID)) : ℤ) -
        (sm.map bigEndian).countP (· < bigEndian toID) + (sm.map bigEndian).length := by
  have ahead : chord.compareID (chord.fingerStartID fromID toID) toID ≤ 0 ↔
      bigEndian (chord.fingerStartID fromID toID) ≤ bigEndian toID := by
    rw [ring.compareID starts other]
    split_ifs <;> omega
  simp only [skipCount, ring.search_eq places sorted starts, ring.search_eq places sorted other, ahead, length_map]

/-- The count is that of the miners on the ring from the start of the finger to the next hop exactly if the finger does
not wrap past zero, or if no miner is outside of it. -/
theorem skipCount_counts_iff (ring : chord.OnRing) (one : IsID fromID) (other : IsID toID) (differ : fromID ≠ toID)
    (places : ∀ id ∈ sm, IsID id) (sorted : (sm.map bigEndian).Pairwise (· < ·)) {startID : ℕ}
    (starts : startID =
      (bigEndian fromID + 2 ^ Nat.log 2 (ringDistance (bigEndian fromID) (bigEndian toID))) % ringSize) :
    skipCount chord fromID toID sm = sm.countP (fun id => OnWay startID (bigEndian toID) (bigEndian id)) ↔
      startID ≤ bigEndian toID ∨ ∀ id ∈ sm, ¬(bigEndian toID ≤ bigEndian id ∧ bigEndian id < startID) := by
  have apart : bigEndian fromID ≠ bigEndian toID := fun same => differ (bigEndian_inj (one.trans other.symm) same)
  have positive : 0 < ringDistance (bigEndian fromID) (bigEndian toID) := by
    rw [ringDistance_eq (bigEndian_lt_ringSize one) (bigEndian_lt_ringSize other)]
    have := bigEndian_lt_ringSize one
    split_ifs <;> omega
  obtain ⟨sized, value⟩ := ring.fingerStartID one positive
  have inside : startID < ringSize := starts ▸ Nat.mod_lt _ ringSize_pos
  have numbers : ∀ id ∈ sm.map bigEndian, id < ringSize := by
    simpa using fun id member => bigEndian_lt_ringSize (places id member)
  have counted : sm.countP (fun id => OnWay startID (bigEndian toID) (bigEndian id)) =
      (sm.map bigEndian).countP (OnWay startID (bigEndian toID) ·) := by
    rw [countP_map]
    rfl
  have all : (∀ id ∈ sm, ¬(bigEndian toID ≤ bigEndian id ∧ bigEndian id < startID)) ↔
      ∀ id ∈ sm.map bigEndian, ¬(bigEndian toID ≤ id ∧ id < startID) := by simp
  rw [ring.skipCount_eq places sorted other sized, value, ← starts, counted, all,
    countP_onWay inside (bigEndian_lt_ringSize other) numbers]
  generalize sm.map bigEndian = ids
  split_ifs with ahead
  · have counted := countP_lt_add ids ahead
    exact iff_of_true (by omega) (.inl ahead)
  · have around := countP_outside ids (not_le.mp ahead).le
    have whole := countP_lt_add_le ids startID
    have between := countP_lt_add ids (not_le.mp ahead).le
    have none : ids.countP (fun id => bigEndian toID ≤ id && id < startID) = 0 ↔
        ∀ id ∈ ids, ¬(bigEndian toID ≤ id ∧ id < startID) := by
      rw [List.countP_eq_zero]
      simp
    rw [or_iff_right ahead, ← none]
    omega

/-- The library on numbers. -/
def Chord.ofNumbers : Chord where
  distance fromID toID := ringDistance (bigEndian fromID) (bigEndian toID)
  powerOffset id exponent := (Word.ofNat Config.nodeIDBytes (bigEndian id + 2 ^ exponent.toNat)).toArray
  betweenLeftIncl startID endID id := decide (OnWay (bigEndian startID) (bigEndian endID) (bigEndian id))
  compareID id other := if bigEndian id < bigEndian other then -1 else if bigEndian id = bigEndian other then 0 else 1

theorem Chord.onRing_ofNumbers : Chord.ofNumbers.OnRing where
  distance _ _ := rfl
  powerOffset _ _ := ⟨(Word.ofNat ..).property, (bigEndian_ofNat ..).trans rfl⟩
  compareID _ _ := rfl

def idOf (number : ℕ) : Bytes := (Word.ofNat Config.nodeIDBytes number).toArray

/-- A finger that starts below zero on the ring and ends above it: a miner that is far from it is counted, twice. -/
theorem wrapped_finger_miscounts : skipCount .ofNumbers (idOf (ringSize - 5)) (idOf 1) [idOf 5] = 2 ∧
    [5].countP (OnWay ((ringSize - 5 + 2 ^ log 2 (ringDistance (ringSize - 5) 1)) % ringSize) 1 ·) = 0 := by
  have bits : log 2 (ringDistance (ringSize - 5) 1) = 2 :=
    (log_eq_iff (by decide)).mpr ⟨by decide +kernel, by decide +kernel⟩
  rw [bits]
  have starts : Chord.ofNumbers.fingerStartID (idOf (ringSize - 5)) (idOf 1) = idOf (ringSize - 1) := by decide +kernel
  refine ⟨?_, by decide +kernel⟩
  rw [Chord.onRing_ofNumbers.skipCount_eq (by decide +kernel) (by simp) (by decide +kernel) (by decide +kernel), starts]
  decide +kernel

theorem skipCount_counts_two : skipCount .ofNumbers (idOf 0) (idOf 4) [idOf 1, idOf 2, idOf 3, idOf 5] = 0 := by
  have bits : Nat.log 2 (ringDistance (bigEndian (idOf 0)) (bigEndian (idOf 4))) = 2 :=
    (Nat.log_eq_iff (by decide)).mpr ⟨by decide +kernel, by decide +kernel⟩
  refine ((skipCount_counts_iff Chord.onRing_ofNumbers (by decide +kernel) (by decide +kernel) (by decide +kernel)
    (by decide +kernel) (by decide +kernel) rfl).mpr (.inl ?_)).trans ?_
  · rw [bits]
    decide +kernel
  · rw [bits]
    decide +kernel

end SkipCount

section Path

variable {config : Config} {chord : Chord} {sc : Pb.SigChain} {height : UInt32}

def Halves (dist next : ℕ) : Prop := next ≠ dist ∧ next * 2 ≤ dist

theorem Halves.lt {dist next : ℕ} (halves : Halves dist next) : next < dist := by
  obtain ⟨_, _⟩ := halves
  omega

theorem isChain_of_verifyDistances {lastNodeID : Bytes} {i prevDistance : ℕ} {ids : List Bytes}
    (accepted : verifyDistances chord lastNodeID i prevDistance ids = .ok ()) :
    (prevDistance :: ids.map (chord.distance · lastNodeID)).IsChain Halves := by
  induction ids generalizing i prevDistance with
  | nil => exact .singleton _
  | cons _ _ ih =>
    simp only [verifyDistances, rejectIf_bind_eq_ok] at accepted
    obtain ⟨differ, half, rest⟩ := accepted
    exact .cons_cons ⟨differ, not_lt.mp half⟩ (ih rest)

theorem pow_le_of_isChain {dist : ℕ} {dists : List ℕ} (halved : (dist :: dists).IsChain Halves) (more : dists ≠ []) :
    2 ^ (dists.length - 1) ≤ dist := by
  induction dists generalizing dist with
  | nil => exact absurd rfl more
  | cons _ dists ih =>
    obtain ⟨halves, rest⟩ := isChain_cons_cons.mp halved
    cases dists with
    | nil => exact one_le_iff_ne_zero.mpr fun none => by have := halves.lt; omega
    | cons _ _ =>
      have large := ih rest (by simp)
      have half := halves.2
      simp only [length_cons, Nat.add_sub_cancel] at large ⊢
      rw [pow_succ]
      omega

theorem mem_zip_of_isChain {α : Type} {r : α → α → Prop} {list : List α} (chain : list.IsChain r) {pair : α × α}
    (member : pair ∈ list.zip (list.drop 1)) : r pair.1 pair.2 := by
  induction list with
  | nil => simp at member
  | cons _ list ih =>
    cases list with
    | nil => simp at member
    | cons _ _ =>
      obtain ⟨here, rest⟩ := isChain_cons_cons.mp chain
      simp only [drop_succ_cons, drop_zero, zip_cons_cons, mem_cons] at member
      rcases member with rfl | member
      · exact here
      · exact ih rest (by simpa using member)

theorem isChain_of_verifySigChainPath (accepted : verifySigChainPath config chord sc height = .ok ()) :
    ∃ lastNodeID, (sc.relayIDs.map (chord.distance · lastNodeID)).IsChain Halves := by
  unfold verifySigChainPath at accepted
  split at accepted
  · rename_i first rest lastNodeID relays last
    obtain ⟨_, distances, _⟩ := bind_eq_ok.mp accepted
    refine ⟨lastNodeID, ?_⟩
    rw [relays]
    exact isChain_of_verifyDistances distances
  · exact absurd accepted (crash_ne_ok _ _)

/-- An accepted sigchain has at most as many elements as a path over the ring can have, no relay twice, and no hop without a
finger: so none of the loops over its hops computes the index -1. -/
theorem accepted_path_short (ring : chord.OnRing) (accepted : verifySigChainLight config chord sc height = .ok ()) :
    sc.elems.length ≤ Config.nodeIDBytes * 8 + 3 ∧ (sc.relays.map (·.id)).Nodup ∧
      ∀ hop ∈ sc.hops, chord.fingerIdx hop.1 hop.2 ≠ -1 := by
  obtain ⟨_, -, path⟩ := bind_eq_ok.mp accepted
  obtain ⟨lastNodeID, halved⟩ := isChain_of_verifySigChainPath path
  refine ⟨?_, ?_, fun hop member => ?_⟩
  · have count : (sc.relayIDs.map (chord.distance · lastNodeID)).length = sc.elems.length - 1 - 1 := by
      simp [Pb.SigChain.relayIDs, Pb.SigChain.relays]
    cases dists : sc.relayIDs.map (chord.distance · lastNodeID) with
    | nil =>
      rw [dists] at count
      simp only [List.length_nil] at count
      omega
    | cons dist rest =>
      rw [dists] at count halved
      by_cases alone : rest = []
      · rw [alone] at count
        simp only [List.length_cons, List.length_nil] at count
        omega
      · have large := pow_le_of_isChain halved alone
        have small : dist < ringSize := by
          have member : dist ∈ sc.relayIDs.map (chord.distance · lastNodeID) := by
            rw [dists]
            exact List.mem_cons_self ..
          obtain ⟨id, _, rfl⟩ := List.mem_map.mp member
          exact (ring.distance ..).trans_lt (ringDistance_lt ..)
        have few : rest.length - 1 < Config.nodeIDBytes * 8 :=
          (Nat.pow_lt_pow_iff_right one_lt_two).mp (large.trans_lt small)
        simp only [List.length_cons] at count
        omega
  · have falling : (sc.relayIDs.map (chord.distance · lastNodeID)).Pairwise (· > ·) :=
      List.isChain_iff_pairwise.mp (halved.imp fun _ _ halves => halves.lt)
    exact List.Nodup.of_map (chord.distance · lastNodeID) (falling.imp fun less => less.ne')
  · have apart := mem_zip_of_isChain ((List.isChain_map _).mp halved) member
    simp only [ring.distance] at apart
    have index := bitIdx_nonneg (ringDistance_pos apart.1)
    rw [Chord.fingerIdx, ring.distance]
    omega

def twoRelays : Pb.SigChain where
  nonce := 0
  dataSize := 0
  blockHash := []
  srcId := [1]
  srcPubkey := [2]
  destId := [3]
  destPubkey := [4]
  elems := [⟨[], [5], false, [], [], .signature, []⟩,
    ⟨(Word.ofNat 32 1).toArray, [6], true, [], [7], .signature, [8]⟩,
    ⟨(Word.ofNat 32 2).toArray, [4], true, [], [9], .signature, [10]⟩, ⟨[], [], false, [], [], .signature, []⟩]

theorem accepted_path_short_twoRelays : (twoRelays.relays.map (·.id)).Nodup ∧
    ∀ hop ∈ twoRelays.hops, Chord.ofNumbers.fingerIdx hop.1 hop.2 ≠ -1 :=
  (@accepted_path_short Config.mainnet .ofNumbers twoRelays 3000000 Chord.onRing_ofNumbers (by decide +kernel)).2

end Path

end Nkn
