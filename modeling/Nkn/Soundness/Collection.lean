import Nkn.Model.Collector
import Nkn.Soundness.Eviction

/-! # The order in which transactions are collected

Every account's transactions are collected in order, and the top is one with the highest fee per size among those that
come next. -/

namespace Nkn

open Go Outcome TxnPool

namespace TxnCollection

section

variable {env : Env} {sort : List Transaction → List Transaction} {tc tc' : TxnCollection}
  {left lists : Uint160 → List Transaction} {addr : Uint160} {txn : Transaction} {txnList tops : List Transaction}
  {log : Log}

/-- The transaction of `addr` that a call takes away. -/
def taken (env : Env) (addr : Uint160) : Call × Option Transaction → Option Transaction
  | (.peek, _) => none
  | (_, txn) => txn.filter fun txn => decide (sender env txn = .ok addr)

def handled (env : Env) (log : Log) (addr : Uint160) : List Transaction :=
  log.filterMap (taken env addr)

def abandoned (env : Env) (log : Log) (addr : Uint160) : Bool :=
  log.any fun entry => decide (entry.1 = .pop) && (taken env addr entry).isSome

/-- What is `left` of the lists: all that was not handled yet, and nothing of an account that was abandoned. -/
def Left (env : Env) (lists : Uint160 → List Transaction) (log : Log)
    (left : Uint160 → List Transaction) : Prop :=
  ∀ addr, if abandoned env log addr then left addr = [] ∧ handled env log addr <+: lists addr
    else handled env log addr ++ left addr = lists addr

/-- A transaction with the highest fee per size among the first ones of the lists, none when there are none. -/
def HighestHead (env : Env) (left : Uint160 → List Transaction) : Option Transaction → Prop
  | none => ∀ addr, left addr = []
  | some txn => (∃ addr txnList, left addr = txn :: txnList) ∧
      ∀ addr txn' txnList, left addr = txn' :: txnList → feePerSize env txn' ≤ feePerSize env txn

/-- The collection stands for what is left of the lists. -/
structure Heads (env : Env) (left : Uint160 → List Transaction) (tc : TxnCollection) : Prop where
  lists : ∀ addr txn txnList, left addr = txn :: txnList →
    txn ∈ tc.tops ∧ tc.txns.load addr = some txnList ∧ ∀ txn ∈ left addr, sender env txn = .ok addr
  tops : ∀ txn ∈ tc.tops, ∃ addr txnList, left addr = txn :: txnList
  single : tc.tops.Pairwise fun txn txn' => sender env txn ≠ sender env txn'

theorem Heads.perm (heads : Heads env left tc) (same : tops.Perm tc.tops) : Heads env left { tc with tops } where
  lists addr txn txnList here :=
    have ⟨member, found, sends⟩ := heads.lists addr txn txnList here
    ⟨same.mem_iff.mpr member, found, sends⟩
  tops txn member := heads.tops txn (same.mem_iff.mp member)
  single := (same.pairwise_iff fun different => different.symm).mpr heads.single

theorem Heads.sends (heads : Heads env left tc) (here : left addr = txn :: txnList) : sender env txn = .ok addr :=
  (heads.lists addr txn txnList here).2.2 txn (by simp [here])

/-- The top goes and its account has no more. -/
theorem Heads.drop (heads : Heads env left tc) (some_tops : tc.tops = txn :: tops) (sends : sender env txn = .ok addr) :
    Heads env (Function.update left addr []) { tc with tops } := by
  have single := heads.single
  rw [some_tops, List.pairwise_cons] at single
  refine ⟨fun addr' txn' txnList' here => ?_, fun txn' member => ?_, single.2⟩
  · have other : addr' ≠ addr := by
      rintro rfl
      simp at here
    rw [Function.update_of_ne other] at here ⊢
    obtain ⟨member, others⟩ := heads.lists addr' txn' txnList' here
    rw [some_tops, List.mem_cons] at member
    refine ⟨member.resolve_left ?_, others⟩
    rintro rfl
    exact other (ok_unique (heads.sends here) sends)
  · obtain ⟨addr', txnList', here⟩ := heads.tops txn' (by simp [some_tops, member])
    have other : addr' ≠ addr := by
      rintro rfl
      exact single.1 txn' member (sends.trans (heads.sends here).symm)
    exact ⟨addr', txnList', by rwa [Function.update_of_ne other]⟩

/-- An account without a top gets one. -/
theorem Heads.push (heads : Heads env left tc) (empty : left addr = [])
    (keyed : ∀ txn' ∈ txn :: txnList, sender env txn' = .ok addr) (same : tops.Perm (txn :: tc.tops)) :
    Heads env (Function.update left addr (txn :: txnList)) ⟨tc.txns.store addr txnList, tops⟩ := by
  suffices pushed : Heads env (Function.update left addr (txn :: txnList)) ⟨tc.txns.store addr txnList, txn :: tc.tops⟩ from
    pushed.perm same
  have other {addr' txn' txnList'} (here : left addr' = txn' :: txnList') : addr' ≠ addr := by
    rintro rfl
    simp [empty] at here
  refine ⟨fun addr' txn' txnList' here => ?_, fun txn' member => ?_, ?_⟩
  · by_cases same : addr' = addr
    · subst same
      rw [Function.update_self] at here ⊢
      cases here
      exact ⟨by simp, by simp, keyed⟩
    · rw [Function.update_of_ne same] at here ⊢
      obtain ⟨member, found, sends⟩ := heads.lists addr' txn' txnList' here
      exact ⟨by simp [member], by simpa [same] using found, sends⟩
  · rcases List.mem_cons.mp member with rfl | member
    · exact ⟨addr, txnList, Function.update_self ..⟩
    · obtain ⟨addr', txnList', here⟩ := heads.tops txn' member
      exact ⟨addr', txnList', by rwa [Function.update_of_ne (other here)]⟩
  · refine List.pairwise_cons.mpr ⟨fun txn' member equal => ?_, heads.single⟩
    obtain ⟨_, _, here⟩ := heads.tops txn' member
    rw [keyed txn (by simp), heads.sends here] at equal
    exact other here (Except.ok.inj equal).symm

theorem Heads.takeTops {entries : List (Sigma fun _ : Uint160 => List Transaction)} (heads : Heads env left tc)
    (distinct : entries.NodupKeys) (fresh : ∀ entry ∈ entries, left entry.1 = [])
    (valid : ∀ entry ∈ entries, entry.2 ≠ [] ∧ ∀ txn ∈ entry.2, sender env txn = .ok entry.1) :
    ∃ tc', takeTops entries tc = .ok tc' ∧ Heads env (fun addr => (entries.dlookup addr).getD (left addr)) tc' := by
  induction entries generalizing tc left with
  | nil => exact ⟨tc, rfl, heads⟩
  | cons entry rest ih =>
    obtain ⟨addr, _ | ⟨txn, _⟩⟩ := entry
    · exact absurd rfl (valid _ (List.mem_cons_self ..)).1
    · have others := List.nodupKeys_cons.mp distinct
      have pushed := heads.push (fresh _ (List.mem_cons_self ..)) (valid _ (List.mem_cons_self ..)).2
        (List.perm_append_singleton txn tc.tops)
      have different (entry) (member : entry ∈ rest) : entry.1 ≠ addr := by
        rintro same
        have key := List.mem_keys_of_mem member
        exact others.1 (by rwa [same] at key)
      obtain ⟨tc', took, after⟩ := ih pushed others.2
        (fun entry member => by simp [different entry member, fresh entry (by simp [member])])
        (fun entry member => valid entry (by simp [member]))
      refine ⟨tc', took, ?_⟩
      convert after using 2 with addr'
      by_cases same : addr' = addr
      · subst same
        have absent : rest.dlookup addr' = none := List.dlookup_eq_none.mpr others.1
        simp [absent, List.dlookup_cons_eq]
      · rw [List.dlookup_cons_ne _ _ same, Function.update_of_ne same]

structure Stands (env : Env) (left : Uint160 → List Transaction) (tc : TxnCollection) : Prop extends Heads env left tc where
  sorted : tc.tops.Pairwise fun txn txn' => feePerSize env txn' ≤ feePerSize env txn

theorem Stands.highestHead (stands : Stands env left tc) : HighestHead env left tc.peek := by
  have sorted := stands.sorted
  unfold peek
  cases tops : tc.tops with
  | nil =>
    intro addr
    cases here : left addr with
    | nil => rfl
    | cons txn txnList => simpa [tops] using (stands.lists addr txn txnList here).1
  | cons txn _ =>
    refine ⟨stands.tops txn (by simp [tops]), fun addr txn' txnList here => ?_⟩
    have member := (stands.lists addr txn' txnList here).1
    rw [tops] at sorted member
    rcases List.mem_cons.mp member with rfl | member
    · exact le_rfl
    · exact (List.pairwise_cons.mp sorted).1 txn' member

theorem Stands.drop (stands : Stands env left tc) (some_tops : tc.tops = txn :: tops) (here : left addr = txn :: txnList) :
    Stands env (Function.update left addr []) { tc with tops } := by
  have sorted := stands.sorted
  rw [some_tops] at sorted
  exact ⟨stands.toHeads.drop some_tops (stands.sends here), sorted.of_cons⟩

@[simp] theorem handled_append (entry : Call × Option Transaction) :
    handled env (log ++ [entry]) addr = handled env log addr ++ (taken env addr entry).toList := by
  cases taking : taken env addr entry <;> simp [handled, taking]

@[simp] theorem abandoned_append (entry : Call × Option Transaction) : abandoned env (log ++ [entry]) addr =
    (abandoned env log addr || decide (entry.1 = .pop) && (taken env addr entry).isSome) := by
  rw [abandoned, List.any_append, List.any_cons, List.any_nil, Bool.or_false, abandoned]

theorem Left.skip {entry : Call × Option Transaction} (lefts : Left env lists log left)
    (nothing : ∀ addr, taken env addr entry = none) : Left env lists (log ++ [entry]) left := by
  intro addr
  simpa [nothing] using lefts addr

theorem Left.take {called : Call} (lefts : Left env lists log left) (sends : sender env txn = .ok addr)
    (here : left addr = txn :: txnList) (takes : called ≠ .peek) :
    Left env lists (log ++ [(called, some txn)])
      (Function.update left addr (if called = .pop then [] else txnList)) := by
  have takes_txn (addr') : taken env addr' (called, some txn) = if addr' = addr then some txn else none := by
    cases called <;> simp_all [taken, Option.filter, eq_comm (a := addr)]
  intro addr'
  have before := lefts addr'
  by_cases same : addr' = addr
  · subst same
    have kept : abandoned env log addr' = false := by
      by_contra gone
      rw [if_pos (by simpa using gone), here] at before
      simp at before
    rw [if_neg (by simp [kept]), here] at before
    rw [handled_append, abandoned_append, takes_txn, if_pos rfl, kept, ← before]
    by_cases popped : called = .pop <;> simp [popped]
  · simpa [takes_txn, same] using before

variable (sorts : Sorts env sort)

include sorts

theorem Stands.update (stands : Stands env left tc) (some_tops : tc.tops = txn :: tops) (here : left addr = txn :: txnList) :
    ∃ tc', tc.update env sort = .ok tc' ∧ Stands env (Function.update left addr txnList) tc' := by
  have dropped := stands.drop some_tops here
  obtain ⟨-, found, keyed⟩ := stands.lists addr txn txnList here
  cases txnList with
  | nil => exact ⟨_, by simp [TxnCollection.update, some_tops, stands.sends here, found, ok_bind], dropped⟩
  | cons next _ =>
    rw [here] at keyed
    have pushed := dropped.push (Function.update_self ..) (List.forall_mem_cons.mp keyed).2 (sorts.perm (next :: tops))
    rw [Function.update_idem] at pushed
    exact ⟨_, by simp [TxnCollection.update, some_tops, stands.sends here, found, ok_bind], pushed, sorts.sorted _⟩

/-- A call is made on whatever the collection stands for, and leaves what it says. -/
theorem Stands.call (stands : Stands env left tc) (lefts : Left env lists log left) {called : Call}
    (allowed : tc.Allowed called) : ∃ txn tc' left', tc.call env sort called = .ok (txn, tc') ∧
      Left env lists (log ++ [(called, txn)]) left' ∧ Stands env left' tc' := by
  cases tops : tc.tops with
  | nil =>
    have nothing : tc.peek = none := by simp [peek, tops]
    cases called with
    | peek => exact ⟨_, tc, left, rfl, lefts.skip fun _ => rfl, stands⟩
    | update => exact absurd nothing (allowed rfl)
    | pop => exact ⟨none, tc, left, by simp [TxnCollection.call, pop, tops], lefts.skip fun _ => rfl, stands⟩
  | cons txn _ =>
    obtain ⟨_, _, here⟩ := stands.tops txn (by simp [tops])
    have take (called) := @Left.take _ _ _ _ _ _ _ called lefts (stands.sends here) here
    cases called with
    | peek => exact ⟨_, tc, left, rfl, lefts.skip fun _ => rfl, stands⟩
    | update =>
      obtain ⟨tc', updated, after⟩ := stands.update sorts tops here
      exact ⟨txn, tc', _, by simp [TxnCollection.call, updated, peek, tops, ok_bind], take .update (by simp), after⟩
    | pop => exact ⟨txn, _, _, by simp [TxnCollection.call, pop, tops], take .pop (by simp), stands.drop tops here⟩

theorem Run.stands (start : Stands env lists tc) (run : Run env sort tc log tc') :
    ∃ left, Left env lists log left ∧ Stands env left tc' := by
  induction run with
  | new => exact ⟨lists, fun addr => by simp [abandoned, handled], start⟩
  | call _ allowed made ih =>
    obtain ⟨_, lefts, stands⟩ := ih
    obtain ⟨_, _, left', made', after⟩ := stands.call sorts lefts allowed
    cases made.symm.trans made'
    exact ⟨left', after⟩

/-- From lists under the accounts of their transactions: no call fails, what is handled of an account is an initial part
of its list, all of it but for what is left or was abandoned by `Pop`, and `Peek` gives a transaction with the highest fee
per size among the first ones of what is left. -/
theorem collected_in_order (txnLists : GoMap Uint160 (List Transaction))
    (valid : ∀ addr txnList, txnLists.load addr = some txnList →
      txnList ≠ [] ∧ ∀ txn ∈ txnList, sender env txn = .ok addr) :
    ∃ tc, new sort txnLists = .ok tc ∧ ∀ log tc', Run env sort tc log tc' →
      (∃ left, Left env (txnLists.read []) log left ∧ HighestHead env left tc'.peek) ∧
      ∀ called, tc'.Allowed called → ∃ next, tc'.call env sort called = .ok next := by
  have start : Heads env (fun _ => []) ⟨txnLists, []⟩ := ⟨by simp, by simp, .nil⟩
  obtain ⟨tc, took, heads⟩ := start.takeTops txnLists.nodupKeys (fun _ _ => rfl)
    (fun entry member => valid entry.1 entry.2 (GoMap.mem_entries.mp member))
  refine ⟨{ tc with tops := sort tc.tops }, by simp [new, took, ok_bind], fun log tc' run => ?_⟩
  obtain ⟨left, lefts, stands⟩ := run.stands sorts ⟨heads.perm (sorts.perm _), sorts.sorted _⟩
  refine ⟨⟨left, lefts, stands.highestHead⟩, fun called allowed => ?_⟩
  obtain ⟨txn, next, -, made, -⟩ := stands.call sorts lefts allowed
  exact ⟨(txn, next), made⟩

end

def byFeePerSize (env : Env) (tops : List Transaction) : List Transaction :=
  tops.mergeSort fun txn txn' => decide (feePerSize env txn' ≤ feePerSize env txn)

theorem sorts_byFeePerSize (env : Env) : Sorts env (byFeePerSize env) where
  perm tops := List.mergeSort_perm tops _
  sorted tops := by
    refine (List.pairwise_mergeSort ?_ ?_ tops).imp fun less => of_decide_eq_true less
    · intro _ _ _ less less'
      exact decide_eq_true ((of_decide_eq_true less').trans (of_decide_eq_true less))
    · intro txn txn'
      simpa using le_total (feePerSize env txn') (feePerSize env txn)

end TxnCollection

namespace PooledTransfers

open TxnCollection in
theorem collected_in_order_crowded : ∃ tc, TxnCollection.new (byFeePerSize tables.env) crowded.txLists = .ok tc ∧
    HighestHead tables.env (crowded.txLists.read []) tc.peek := by
  have valid (addr txnList) (found : crowded.txLists.load addr = some txnList) :
      txnList ≠ [] ∧ ∀ txn ∈ txnList, sender tables.env txn = .ok addr := by
    have member := GoMap.mem_entries.mpr found
    rw [crowded_facts.2.1.1, List.mem_singleton] at member
    cases member
    exact ⟨by simp, fun txn among => (crowded_facts.2.1.2.2.2 txn among).1⟩
  obtain ⟨tc, made, runs⟩ := collected_in_order (sorts_byFeePerSize tables.env) crowded.txLists valid
  obtain ⟨⟨left, lefts, highest⟩, -⟩ := runs [] tc .new
  obtain rfl : left = crowded.txLists.read [] := funext fun addr => by simpa [abandoned, handled] using lefts addr
  exact ⟨tc, made, highest⟩

end PooledTransfers

end Nkn
