import Mathlib.Algebra.Order.BigOperators.Group.List
import Mathlib.Data.List.Induction
import Mathlib.Tactic.Linarith
import Nkn.Model.Election

/-! # The result of an election

A vote with more than half of the weight is the only one, in whatever order the maps are enumerated: the tallies are the
same, and only a vote with the highest weight can lead. -/

namespace Nkn.Election

open Go List

abbrev Ballots (V : Type) := List (V × ℕ)

section

variable {V : Type}

def totalOf (ballots : Ballots V) : ℕ := (ballots.map Prod.snd).sum

@[simp] theorem totalOf_append (ballots ballots' : Ballots V) :
    totalOf (ballots ++ ballots') = totalOf ballots + totalOf ballots' := by
  simp [totalOf]

theorem totalOf_cons (ballot : V × ℕ) (ballots : Ballots V) : totalOf (ballot :: ballots) = ballot.2 + totalOf ballots := by
  simp [totalOf]

variable {ballots ballots' : Ballots V}

theorem totalOf_perm (perm : ballots.Perm ballots') : totalOf ballots = totalOf ballots' := (perm.map _).sum_eq

variable [DecidableEq V]

def weightIn (ballots : Ballots V) (vote : V) : ℕ := ((ballots.filter (·.1 = vote)).map Prod.snd).sum

@[simp] theorem weightIn_append (ballots ballots' : Ballots V) (vote : V) :
    weightIn (ballots ++ ballots') vote = weightIn ballots vote + weightIn ballots' vote := by
  simp [weightIn]

theorem weightIn_cons (ballot : V × ℕ) (ballots : Ballots V) (vote : V) :
    weightIn (ballot :: ballots) vote = (if ballot.1 = vote then ballot.2 else 0) + weightIn ballots vote := by
  unfold weightIn
  by_cases same : ballot.1 = vote <;> simp [same]

theorem weightIn_perm (perm : ballots.Perm ballots') (vote : V) :
    weightIn ballots vote = weightIn ballots' vote := ((perm.filter _).map _).sum_eq

theorem weightIn_le_totalOf (ballots : Ballots V) (vote : V) : weightIn ballots vote ≤ totalOf ballots := by
  induction ballots with
  | nil => rfl
  | cons _ _ _ =>
    rw [weightIn_cons, totalOf_cons]
    split_ifs <;> omega

theorem weightIn_add_le (ballots : Ballots V) {vote vote' : V} (differ : vote ≠ vote') :
    weightIn ballots vote + weightIn ballots vote' ≤ totalOf ballots := by
  induction ballots with
  | nil => rfl
  | cons ballot _ _ =>
    rw [weightIn_cons, weightIn_cons, totalOf_cons]
    have once : ¬(ballot.1 = vote ∧ ballot.1 = vote') := fun both => differ (both.1.symm.trans both.2)
    split_ifs <;> simp_all <;> omega

end

section

variable {N V : Type} [DecidableEq V] {election : Election N V}

def ballotsOf (entries : List (Sigma fun _ : V => UInt32)) : Ballots V := entries.map fun entry => (entry.1, entry.2.toNat)

def selfBallot (election : Election N V) : Ballots V :=
  (election.selfVote.map fun vote => (vote, (election.config.getWeight none).toNat)).toList

def ballot (election : Election N V) (entry : Sigma fun _ : N => Option V) : Ballots V :=
  (entry.2.map fun vote => (vote, (election.config.getWeight (some entry.1)).toNat)).toList

def ballots (election : Election N V) : Ballots V :=
  election.selfBallot ++ election.neighborVotes.entries.flatMap election.ballot

def Tallies (map : GoMap V UInt32) (cast : Ballots V) : Prop :=
  (∀ vote, weightIn (ballotsOf map.entries) vote = weightIn cast vote) ∧ totalOf (ballotsOf map.entries) = totalOf cast

theorem tally_kerase {entries : List (Sigma fun _ : V => UInt32)} (keys : entries.NodupKeys) (vote : V) :
    weightIn (ballotsOf entries) vote = ((entries.dlookup vote).getD 0).toNat ∧
    (∀ other, other ≠ vote → weightIn (ballotsOf (entries.kerase vote)) other = weightIn (ballotsOf entries) other) ∧
    weightIn (ballotsOf (entries.kerase vote)) vote = 0 ∧
    totalOf (ballotsOf entries) = ((entries.dlookup vote).getD 0).toNat + totalOf (ballotsOf (entries.kerase vote)) := by
  induction entries with
  | nil => exact ⟨rfl, fun _ _ => rfl, rfl, rfl⟩
  | cons entry entries ih =>
    obtain ⟨fresh, keys⟩ := nodupKeys_cons.mp keys
    obtain ⟨found, others, gone, total⟩ := ih keys
    have first (rest : List (Sigma fun _ : V => UInt32)) :
        ballotsOf (entry :: rest) = (entry.1, entry.2.toNat) :: ballotsOf rest := rfl
    by_cases here : vote = entry.1
    · subst here
      have absent : entries.dlookup entry.1 = none := dlookup_eq_none.mpr fresh
      rw [absent] at found total
      rw [kerase_cons_eq rfl, dlookup_cons_eq, first, weightIn_cons, if_pos rfl, totalOf_cons]
      refine ⟨by simpa using found, fun other differ => ?_, by simpa using found, by simp⟩
      rw [weightIn_cons, if_neg (Ne.symm differ), Nat.zero_add]
    · rw [kerase_cons_ne here, dlookup_cons_ne _ _ here, first, first, weightIn_cons, weightIn_cons,
        if_neg (Ne.symm here), totalOf_cons, totalOf_cons, total]
      refine ⟨by rw [Nat.zero_add, found], fun other differ => ?_, by rw [gone], by omega⟩
      rw [weightIn_cons, weightIn_cons, others other differ]

theorem Tallies.add {map : GoMap V UInt32} {cast : Ballots V} (tallies : Tallies map cast) (vote : V) (weight : UInt32)
    (small : totalOf cast + weight.toNat < 2 ^ 32) :
    Tallies (map.store vote (map.read 0 vote + weight)) (cast ++ [(vote, weight.toNat)]) := by
  obtain ⟨found, others, gone, total⟩ := tally_kerase map.nodupKeys vote
  obtain ⟨weights, whole⟩ := tallies
  have read : map.read 0 vote = (map.entries.dlookup vote).getD 0 := rfl
  have sum : (map.read 0 vote + weight).toNat = (map.read 0 vote).toNat + weight.toNat := by
    rw [UInt32.toNat_add, Nat.mod_eq_of_lt]
    rw [read]
    omega
  have entries : ballotsOf (map.store vote (map.read 0 vote + weight)).entries =
      (vote, (map.read 0 vote).toNat + weight.toNat) :: ballotsOf (map.entries.kerase vote) := by
    rw [← sum]
    rfl
  constructor
  · intro other
    rw [entries, weightIn_append, weightIn_cons, weightIn_cons, ← weights, show weightIn [] other = 0 from rfl]
    by_cases same : vote = other
    · subst same
      rw [if_pos rfl, if_pos rfl, gone, found, read]
      omega
    · rw [if_neg same, if_neg same, others other (Ne.symm same)]
      omega
  · rw [entries, totalOf_append, totalOf_cons, totalOf_cons, ← whole, total, read, show totalOf [] = 0 from rfl]
    omega

theorem tallies_selfWeight (election : Election N V) : Tallies election.selfWeight election.selfBallot := by
  unfold selfWeight selfBallot
  cases election.selfVote with
  | none | some vote => exact ⟨fun _ => rfl, rfl⟩

theorem Tallies.foldl {entries : List (Sigma fun _ : N => Option V)} {map : GoMap V UInt32} {cast : Ballots V}
    (tallies : Tallies map cast) (small : totalOf (cast ++ entries.flatMap election.ballot) < 2 ^ 32) :
    Tallies (entries.foldl election.tally map) (cast ++ entries.flatMap election.ballot) := by
  induction entries generalizing map cast with
  | nil => simpa using tallies
  | cons entry _ ih =>
    rw [flatMap_cons, ← append_assoc] at small ⊢
    refine ih ?_ small
    rcases entry with ⟨neighbor, _ | vote⟩
    · simpa [tally, ballot] using tallies
    · refine tallies.add vote (election.config.getWeight (some neighbor)) ?_
      simp only [ballot, totalOf_append] at small
      simp only [totalOf] at small ⊢
      simp at small
      omega

theorem tallies_weightByVote (election : Election N V) (orders : Orders N V)
    (small : totalOf election.ballots < 2 ^ 32) : Tallies (election.weightByVote orders) election.ballots := by
  have perm : (election.selfBallot ++ (orders.neighborVotes election.neighborVotes.entries).flatMap election.ballot).Perm
      election.ballots := ((orders.neighborVotes_perm _).flatMap_right _).append_left _
  rw [← totalOf_perm perm] at small
  obtain ⟨weights, total⟩ := (tallies_selfWeight election).foldl small
  exact ⟨fun vote => (weights vote).trans (weightIn_perm perm vote), total.trans (totalOf_perm perm)⟩

end

section

variable {V : Type}

theorem foldl_lead (entries : List (Sigma fun _ : V => UInt32)) (small : totalOf (ballotsOf entries) < 2 ^ 32) :
    (entries.foldl lead (0, 0, none)).1.toNat = totalOf (ballotsOf entries) ∧
    (∀ entry ∈ entries, entry.2 ≤ (entries.foldl lead (0, 0, none)).2.1) ∧
    ((entries.foldl lead (0, 0, none)).2 = (0, none) ∨
      ∃ entry ∈ entries, 0 < entry.2 ∧ (entries.foldl lead (0, 0, none)).2 = (entry.2, some entry.1)) := by
  induction entries using reverseRecOn with
  | nil => exact ⟨rfl, by simp, .inl rfl⟩
  | append_singleton entries entry ih =>
    have all : totalOf (ballotsOf (entries ++ [entry])) = totalOf (ballotsOf entries) + entry.2.toNat := by
      simp [totalOf, ballotsOf]
    rw [all] at small
    obtain ⟨total, highest, leading⟩ := ih (by omega)
    rw [foldl_append, foldl_cons, foldl_nil, all]
    generalize entries.foldl lead (0, 0, none) = state at total highest leading ⊢
    refine ⟨?_, ?_, ?_⟩
    · simp only [lead, UInt32.toNat_add]
      rw [total, Nat.mod_eq_of_lt small]
    · intro other member
      simp only [lead]
      rcases mem_append.mp member with earlier | last
      · have before := highest other earlier
        split_ifs with more
        · exact UInt32.le_trans before (UInt32.le_of_lt more)
        · exact before
      · obtain rfl := mem_singleton.mp last
        split_ifs with more
        · exact UInt32.le_refl _
        · exact UInt32.not_lt.mp more
    · simp only [lead]
      split_ifs with more
      · exact .inr ⟨entry, by simp, UInt32.lt_of_le_of_lt UInt32.zero_le more, rfl⟩
      · exact leading.imp_right fun ⟨other, member, found⟩ => ⟨other, mem_append_left _ member, found⟩

end

section

variable {N V : Type} [DecidableEq V] {election : Election N V} {orders : Orders N V}

def share (election : Election N V) (vote : V) : ℚ := (weightIn election.ballots vote : ℚ) / totalOf election.ballots

def Meets (election : Election N V) (vote : V) : Prop :=
  election.config.consensusMinAbsoluteWeight.toNat ≤ weightIn election.ballots vote ∧
    election.config.consensusMinRelativeWeight ≤ election.share vote

theorem Meets.half {vote : V} (meets : election.Meets vote) (half : 1 / 2 < election.config.consensusMinRelativeWeight) :
    totalOf election.ballots < 2 * weightIn election.ballots vote := by
  have share := half.trans_le meets.2
  have positive : (0 : ℚ) < totalOf election.ballots := by
    refine lt_of_le_of_ne (Nat.cast_nonneg _) fun none => ?_
    rw [Election.share, ← none, div_zero] at share
    linarith
  rw [Election.share, lt_div_iff₀ positive] at share
  exact_mod_cast (by linarith : (totalOf election.ballots : ℚ) < 2 * weightIn election.ballots vote)

theorem Meets.unique {vote vote' : V} (meets : election.Meets vote) (meets' : election.Meets vote')
    (half : 1 / 2 < election.config.consensusMinRelativeWeight) : vote = vote' := by
  by_contra differ
  have both := weightIn_add_le election.ballots differ
  have one := meets.half half
  have other := meets'.half half
  omega

theorem getLeadingVote_cases (orders : Orders N V) (small : totalOf election.ballots < 2 ^ 32) :
    (election.getLeadingVote orders).1 = none ∧ (∀ vote, weightIn election.ballots vote = 0) ∨
    ∃ vote weight, election.getLeadingVote orders = (some vote, weight, some (election.share vote)) ∧
      weight.toNat = weightIn election.ballots vote ∧
      ∀ other, weightIn election.ballots other ≤ weightIn election.ballots vote := by
  obtain ⟨weights, whole⟩ := tallies_weightByVote election orders small
  have perm := orders.weightByVote_perm (election.weightByVote orders).entries
  have ballots : (ballotsOf (orders.weightByVote (election.weightByVote orders).entries)).Perm
      (ballotsOf (election.weightByVote orders).entries) := perm.map _
  obtain ⟨total, highest, leading⟩ := foldl_lead (orders.weightByVote (election.weightByVote orders).entries)
    (by rwa [totalOf_perm ballots, whole])
  rw [totalOf_perm ballots, whole] at total
  have read (vote : V) : weightIn election.ballots vote = ((election.weightByVote orders).read 0 vote).toNat :=
    (weights vote).symm.trans (tally_kerase (election.weightByVote orders).nodupKeys vote).1
  have below (vote : V) : (election.weightByVote orders).read 0 vote ≤
      ((orders.weightByVote (election.weightByVote orders).entries).foldl lead (0, 0, none)).2.1 := by
    unfold GoMap.read
    cases found : (election.weightByVote orders).load vote with
    | none => exact UInt32.zero_le
    | some weight => exact highest ⟨vote, weight⟩ (perm.mem_iff.mpr (GoMap.mem_entries.mpr found))
  unfold getLeadingVote
  generalize (orders.weightByVote (election.weightByVote orders).entries).foldl lead (0, 0, none) = state
    at total leading below ⊢
  obtain ⟨totalWeight, _, vote⟩ := state
  dsimp only at total leading below ⊢
  rcases leading with empty | ⟨entry, member, positive, found⟩
  · obtain ⟨rfl, rfl⟩ := Prod.mk.inj empty
    refine .inl ⟨rfl, fun vote => ?_⟩
    rw [read, Nat.eq_zero_of_le_zero (UInt32.le_iff_toNat_le.mp (below vote))]
  · obtain ⟨rfl, rfl⟩ := Prod.mk.inj found
    have own : weightIn election.ballots entry.1 = entry.2.toNat := by
      rw [read, GoMap.read, GoMap.mem_entries.mp (perm.mem_iff.mp member)]
      rfl
    have some_ : totalWeight ≠ 0 := by
      rintro rfl
      have most := weightIn_le_totalOf election.ballots entry.1
      have more := UInt32.lt_iff_toNat_lt.mp positive
      rw [UInt32.toNat_zero] at total more
      omega
    refine .inr ⟨entry.1, entry.2, ?_, own.symm, fun other => ?_⟩
    · rw [if_neg some_, share, own, total]
    · rw [own, read]
      exact UInt32.le_iff_toNat_le.mp (below other)

theorem getResult_iff (half : 1 / 2 < election.config.consensusMinRelativeWeight)
    (small : totalOf election.ballots < 2 ^ 32) (stopped : election.state = .stopped) (orders : Orders N V)
    {result : V × UInt32 × Option ℚ} : election.getResult orders = .ok result ↔
      election.Meets result.1 ∧ result.2.1.toNat = weightIn election.ballots result.1 ∧
        result.2.2 = some (election.share result.1) := by
  unfold getResult
  rw [if_neg (not_not.mpr stopped)]
  rcases getLeadingVote_cases orders small with ⟨none_, nothing⟩ | ⟨vote, weight, found, own, highest⟩
  · have nobody : ¬election.Meets result.1 := fun meets => by
      have more := meets.half half
      have zero := nothing result.1
      omega
    refine iff_of_false (fun won => ?_) fun both => nobody both.1
    generalize election.getLeadingVote orders = leading at none_ won
    obtain ⟨_, _, _⟩ := leading
    obtain rfl := none_
    dsimp only at won
    split_ifs at won
    split at won
    · cases won
    · cases won
    · rename_i nobody
      cases nobody
  · rw [found]
    dsimp only
    have meets_iff : election.Meets vote ↔ ¬weight < election.config.consensusMinAbsoluteWeight ∧
        ¬election.share vote < election.config.consensusMinRelativeWeight := by
      rw [Meets, ← own, UInt32.not_lt, not_lt, UInt32.le_iff_toNat_le]
    -- a vote that meets the thresholds is the leading one
    have leads (other : V) (meets : election.Meets other) : other = vote := by
      by_contra differ
      have both := weightIn_add_le election.ballots differ
      have more := meets.half half
      have most := highest other
      omega
    by_cases meets : election.Meets vote
    · obtain ⟨enough, most⟩ := meets_iff.mp meets
      rw [if_neg enough, Option.filter_some, if_neg (by simpa using most)]
      constructor
      · rintro ⟨⟩
        exact ⟨meets, own, rfl⟩
      · rintro ⟨won, weighed, shared⟩
        obtain ⟨other, otherWeight, _⟩ := result
        dsimp only at won weighed shared
        obtain rfl := leads other won
        obtain rfl : otherWeight = weight := UInt32.toNat_inj.mp (weighed.trans own.symm)
        rw [shared]
    · refine iff_of_false (fun won => meets ?_) fun both => meets (leads _ both.1 ▸ both.1)
      split_ifs at won with few
      rw [Option.filter_some] at won
      split_ifs at won with less
      exact meets_iff.mpr ⟨few, by simpa using less⟩

/-- At most one vote meets the thresholds, it is the result if there is one, and the order of enumeration does not matter. -/
theorem election_result_unique (half : 1 / 2 < election.config.consensusMinRelativeWeight)
    (small : totalOf election.ballots < 2 ^ 32) :
    (∀ vote vote', election.Meets vote → election.Meets vote' → vote = vote') ∧
    (election.state = .stopped → ∀ vote, election.Meets vote → ∀ orders,
      ∃ weight, election.getResult orders = .ok (vote, weight, some (election.share vote))) ∧
    ∀ orders orders', (election.getResult orders).toOption = (election.getResult orders').toOption := by
  refine ⟨fun vote vote' meets meets' => meets.unique meets' half, fun stopped vote meets orders => ?_,
    fun orders orders' => ?_⟩
  · have fits : weightIn election.ballots vote < 2 ^ 32 := (weightIn_le_totalOf _ _).trans_lt small
    exact ⟨UInt32.ofNat (weightIn election.ballots vote), (getResult_iff half small stopped orders).mpr
      ⟨meets, UInt32.toNat_ofNat_of_lt' fits, rfl⟩⟩
  · by_cases stopped : election.state = .stopped
    · have reads (outcome : Except (NoResult V) (V × UInt32 × Option ℚ)) (result : V × UInt32 × Option ℚ) :
          outcome.toOption = some result ↔ outcome = .ok result := by cases outcome <;> simp [Except.toOption]
      refine Option.ext fun result => ?_
      rw [reads, reads, getResult_iff half small stopped, getResult_iff half small stopped]
    · unfold getResult
      rw [if_pos stopped, if_pos stopped]

def threeVotes : Election Bool Bool where
  config := ⟨2 / 3, 0, fun _ => 1⟩
  neighborVotes := ((∅ : GoMap Bool (Option Bool)).store true (some true)).store false (some false)
  selfVote := some true
  state := .stopped

theorem election_result_unique_threeVotes : threeVotes.state = .stopped ∧
    ∀ orders, ∃ weight, threeVotes.getResult orders = .ok (true, weight, some (threeVotes.share true)) :=
  ⟨rfl, (@election_result_unique _ _ _ threeVotes (by norm_num [threeVotes]) (by decide +kernel)).2.1 rfl true
    ⟨by decide +kernel, by decide +kernel⟩⟩

end

end Nkn.Election
