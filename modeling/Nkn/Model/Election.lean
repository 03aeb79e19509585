import Mathlib.Algebra.Order.Field.Rat
import Nkn.Lib.GoMap
import Nkn.Lib.Fault

/-! # Elections

`consensus/election`: the votes of a node and its neighbors, and the vote with the highest weight. -/

namespace Nkn

open Go

inductive ElectionState where
  | initialized
  | started
  | stopped
deriving DecidableEq, Repr

namespace Election

/-- The part of `Config` that a result depends on. A weight is asked for a neighbor, or for the node itself. -/
structure Config (N : Type) where
  consensusMinRelativeWeight : ℚ
  consensusMinAbsoluteWeight : UInt32
  getWeight : Option N → UInt32

inductive NoResult (V : Type) where
  | notStopped
  | belowAbsolute (leading : Option V) (absWeight : UInt32)
  | belowRelative (leading : Option V) (relWeight : ℚ)
  | nilResult
deriving DecidableEq

end Election

structure Election (N V : Type) where
  config : Election.Config N
  neighborVotes : GoMap N (Option V)
  selfVote : Option V
  state : ElectionState

namespace Election

variable {N V : Type} [DecidableEq V]

variable (election : Election N V)

/-- The map that the votes are tallied in, before the neighbors have been asked. -/
def selfWeight : GoMap V UInt32 :=
  match election.selfVote with
  | some vote => (∅ : GoMap V UInt32).store vote (election.config.getWeight none)
  | none => ∅

def tally (weightByVote : GoMap V UInt32) (entry : Sigma fun _ : N => Option V) :
    GoMap V UInt32 :=
  match entry.2 with
  | some value => weightByVote.store value (weightByVote.read 0 value + election.config.getWeight (some entry.1))
  | none => weightByVote

/-- One turn of the enumeration of `weightByVote`: the total, the highest weight so far and its vote. -/
def lead (state : UInt32 × UInt32 × Option V) (entry : Sigma fun _ : V => UInt32) : UInt32 × UInt32 × Option V :=
  (state.1 + entry.2, if entry.2 > state.2.1 then (entry.2, some entry.1) else state.2)

structure Orders (N V : Type) where
  neighborVotes : List (Sigma fun _ : N => Option V) → List (Sigma fun _ : N => Option V)
  weightByVote : List (Sigma fun _ : V => UInt32) → List (Sigma fun _ : V => UInt32)
  neighborVotes_perm : ∀ entries, (neighborVotes entries).Perm entries
  weightByVote_perm : ∀ entries, (weightByVote entries).Perm entries

def weightByVote (orders : Orders N V) : GoMap V UInt32 :=
  (orders.neighborVotes election.neighborVotes.entries).foldl election.tally election.selfWeight

/-- `getLeadingVote`; no relative weight stands for the quotient of two zeros, which is not below anything. -/
def getLeadingVote (orders : Orders N V) : Option V × UInt32 × Option ℚ :=
  let (totalWeight, maxWeight, majorityVote) :=
    (orders.weightByVote (election.weightByVote orders).entries).foldl lead (0, 0, none)
  (majorityVote, maxWeight, if totalWeight = 0 then none else some ((maxWeight.toNat : ℚ) / totalWeight.toNat))

def getResult (orders : Orders N V) : Except (NoResult V) (V × UInt32 × Option ℚ) :=
  if election.state ≠ .stopped then .error .notStopped
  else
    match election.getLeadingVote orders with
    | (result, absWeight, relWeight) =>
      if absWeight < election.config.consensusMinAbsoluteWeight then .error (.belowAbsolute result absWeight)
      else
        match relWeight.filter (· < election.config.consensusMinRelativeWeight), result with
        | some relWeight, result => .error (.belowRelative result relWeight)
        | none, none => .error .nilResult
        | none, some result => .ok (result, absWeight, relWeight)

end Election

end Nkn
