import Nkn.Lib.XorSum
import Nkn.Model.TxnWithTime
import Nkn.Soundness.PoolRejection

/-! # The fingerprint of the recent transactions

Every call toggles the hash of a key exactly if it adds or deletes the key, so a fingerprint that has been set is the
exclusive-or of the hashes of the keys. -/

namespace Nkn.TxnPool

open Go List

variable {env : Env} {tp : TxnPool} {hash : Uint256} {txn : Transaction} {now : Int64}

def twtKeys (tp : TxnPool) : List Uint256 := tp.twtMap.entries.keys

theorem mem_twtKeys : hash ∈ tp.twtKeys ↔ (tp.twtMap.load hash).isSome = true := dlookup_isSome.symm

def fingerprintOf (keys : List Uint256) : Bytes := xorSum 32 Word.toArray keys

/-- The count and the fingerprint belong to the keys, and every key is the hash of its transaction. -/
structure Tracked (env : Env) (tp : TxnPool) : Prop where
  hashes : ∀ hash time txn, tp.twtMap.load hash = some (time, txn) → Transaction.hash env txn = hash
  count : tp.twtCount = tp.twtKeys.length
  unset : tp.twtFingerprint = none → tp.twtKeys = []
  set : ∀ bytes, tp.twtFingerprint = some bytes → bytes = fingerprintOf tp.twtKeys

theorem tracked_new : Tracked env .new :=
  ⟨fun hash time txn found => by simp [new] at found, rfl, fun _ => rfl, fun bytes set => by cases set⟩

variable (tracked : Tracked env tp)

include tracked

theorem Tracked.flipped : flipped tp.twtFingerprint hash = xorBytes (fingerprintOf tp.twtKeys) hash.toArray := by
  cases fingerprint : tp.twtFingerprint with
  | none =>
    rw [tracked.unset fingerprint, xorBytes_comm]
    exact (xorBytes_zero hash.length_toArray).symm
  | some bytes => rw [← tracked.set bytes fingerprint]; rfl

theorem Tracked.append : Tracked env (appendTwt env now txn tp) := by
  unfold appendTwt
  split_ifs with known
  · exact tracked
  · have absent : Transaction.hash env txn ∉ tp.twtKeys := fun member => known (mem_twtKeys.mp member)
    have keys : (tp.twtMap.store (Transaction.hash env txn) (now, txn)).entries.keys =
        Transaction.hash env txn :: tp.twtKeys := by
      rw [GoMap.store, AList.entries_insert_of_notMem absent]
      rfl
    refine ⟨fun hash time other found => ?_, ?_, fun unset => (by cases unset), fun bytes set => ?_⟩
    · rw [GoMap.load_store] at found
      split_ifs at found with same
      · obtain ⟨rfl, rfl⟩ := Prod.mk.inj (Option.some.inj found)
        exact same.symm
      · exact tracked.hashes hash time other found
    · change tp.twtCount + 1 = ((tp.twtMap.store (Transaction.hash env txn) (now, txn)).entries.keys.length : Int)
      rw [keys, length_cons, tracked.count]
      push_cast
      rfl
    · rw [← Option.some.inj set, tracked.flipped]
      exact (congrArg fingerprintOf keys).symm

theorem Tracked.forget (known : hash ∈ tp.twtKeys) : Tracked env (forgetTwt hash tp) := by
  -- the entry of the key is cut out of the list of entries
  obtain ⟨_, before, after, -, entries, erased⟩ := exists_of_kerase known
  have perm : tp.twtKeys.Perm (hash :: (forgetTwt hash tp).twtKeys) := by
    have split : (forgetTwt hash tp).twtKeys = (before ++ after).keys := congrArg keys erased
    rw [split, twtKeys, entries]
    exact perm_middle.map Sigma.fst
  refine ⟨fun hash' time txn found => ?_, ?_, fun unset => (by cases unset), fun bytes set => ?_⟩
  · have found : (tp.twtMap.delete hash).load hash' = some (time, txn) := found
    rw [GoMap.load_delete] at found
    split_ifs at found
    exact tracked.hashes hash' time txn found
  · have less : (forgetTwt hash tp).twtCount = tp.twtCount - 1 := rfl
    rw [less, tracked.count, perm.length_eq, length_cons]
    push_cast
    omega
  · have set : some (TxnPool.flipped tp.twtFingerprint hash) = some bytes := set
    rw [← Option.some.inj set, tracked.flipped, fingerprintOf, xorSum_perm perm,
      xorBytes_xorSum_cons fun hash => hash.length_toArray]
    rfl

theorem Tracked.removeTwt_eq : removeTwt env hash tp = removeIfTwt hash tp := by
  unfold removeTwt removeIfTwt
  cases found : tp.twtMap.load hash with
  | none => rfl
  | some entry =>
    obtain ⟨time, txn⟩ := entry
    simp only [Option.isSome_some, if_true, forgetTwt, tracked.hashes hash time txn found]

theorem Tracked.removeIf : Tracked env (removeIfTwt hash tp) := by
  unfold removeIfTwt
  split_ifs with known
  · exact tracked.forget (mem_twtKeys.mpr known)
  · exact tracked

theorem Tracked.forgetAll {keys : List Uint256} (distinct : keys.Nodup)
    (known : ∀ hash ∈ keys, hash ∈ tp.twtKeys) : Tracked env (keys.foldl (fun tp hash => forgetTwt hash tp) tp) := by
  induction keys generalizing tp with
  | nil => exact tracked
  | cons hash _ ih =>
    obtain ⟨first, distinct⟩ := nodup_cons.mp distinct
    obtain ⟨there, known⟩ := forall_mem_cons.mp known
    refine ih (tracked.forget there) distinct fun other member => ?_
    have apart : other ≠ hash := fun same => first (same ▸ member)
    have loads : (forgetTwt hash tp).twtMap.load other = tp.twtMap.load other := by simp [forgetTwt, apart]
    rw [mem_twtKeys, loads, ← mem_twtKeys]
    exact known other member

theorem Tracked.removeExpired : Tracked env (removeExpiredTwt now tp) := by
  have part : (expiredKeys now tp).Sublist tp.twtKeys.reverse := by
    rw [expiredKeys, twtKeys, keys, ← map_reverse]
    exact (takeWhile_sublist _).map _
  refine tracked.forgetAll (part.nodup (nodup_reverse.mpr tp.twtMap.nodupKeys)) fun hash member => ?_
  exact mem_reverse.mp (part.subset member)

theorem Tracked.removeFrom {txns : List Transaction} : Tracked env (removeFromTwtMap env txns tp) := by
  unfold removeFromTwtMap
  induction txns generalizing tp with
  | nil => exact tracked
  | cons _ _ ih => exact ih tracked.removeIf

theorem Tracked.call (call : TwtCall) : Tracked env (callTwt env tp call) := by
  cases call with
  | appendTwt _ _ => exact tracked.append
  | removeTwt _ =>
    rw [callTwt, tracked.removeTwt_eq]
    exact tracked.removeIf
  | replaceTwt _ oldTxn newTxn =>
    match oldTxn, newTxn with
    | some oldTxn, some newTxn =>
      rw [callTwt, replaceTwt, tracked.removeTwt_eq]
      exact tracked.removeIf.append
    | none, _ | some _, none => exact tracked
  | removeExpiredTwt _ => exact tracked.removeExpired
  | removeFromTwtMap _ => exact tracked.removeFrom

theorem tracked_foldl {calls : List TwtCall} : Tracked env (calls.foldl (callTwt env) tp) := by
  induction calls generalizing tp with
  | nil => exact tracked
  | cons call _ ih => exact ih (tracked.call call)

omit tracked

theorem tracked_run (env : Env) (calls : List TwtCall) : Tracked env (runTwt env calls) := tracked_foldl tracked_new

def TwtCall.Appends : TwtCall → Prop
  | .appendTwt _ _ | .replaceTwt _ (some _) (some _) => True
  | _ => False

theorem removeIf_of_empty (empty : tp.twtKeys = []) : removeIfTwt hash tp = tp := by
  refine if_neg fun known => ?_
  have member := mem_twtKeys.mpr known
  rw [empty] at member
  cases member

theorem removeFrom_of_empty {txns : List Transaction} (empty : tp.twtKeys = []) : removeFromTwtMap env txns tp = tp := by
  unfold removeFromTwtMap
  induction txns with
  | nil => rfl
  | cons _ _ ih => rw [foldl_cons, removeIf_of_empty empty, ih]

theorem set_append (tracked : Tracked env tp) : (appendTwt env now txn tp).twtFingerprint ≠ none := by
  unfold appendTwt
  split_ifs with known
  · intro unset
    have member := mem_twtKeys.mpr known
    rw [tracked.unset unset] at member
    cases member
  · exact Option.some_ne_none _

theorem set_removeIf (set : tp.twtFingerprint ≠ none) : (removeIfTwt hash tp).twtFingerprint ≠ none := by
  unfold removeIfTwt
  split_ifs
  · exact Option.some_ne_none _
  · exact set

theorem set_foldl {α : Type} {step : TxnPool → α → TxnPool} {items : List α}
    (keeps : ∀ tp item, tp.twtFingerprint ≠ none → (step tp item).twtFingerprint ≠ none) (set : tp.twtFingerprint ≠ none) :
    (items.foldl step tp).twtFingerprint ≠ none := by
  induction items generalizing tp with
  | nil => exact set
  | cons item _ ih => exact ih (keeps tp item set)

theorem set_call (tracked : Tracked env tp) (call : TwtCall) :
    (callTwt env tp call).twtFingerprint ≠ none ↔ tp.twtFingerprint ≠ none ∨ call.Appends := by
  -- without a fingerprint the map is empty, and nothing is deleted from it
  have kept (stays : tp.twtFingerprint ≠ none → (callTwt env tp call).twtFingerprint ≠ none)
      (idle : tp.twtKeys = [] → callTwt env tp call = tp) (plain : ¬call.Appends) :
      (callTwt env tp call).twtFingerprint ≠ none ↔ tp.twtFingerprint ≠ none ∨ call.Appends := by
    refine ⟨fun set => .inl fun unset => set ?_, fun set => stays (set.resolve_right plain)⟩
    rw [idle (tracked.unset unset), unset]
  cases call with
  | appendTwt _ _ => exact iff_of_true (set_append tracked) (.inr trivial)
  | removeTwt _ =>
    refine kept (fun set => ?_) (fun empty => ?_) id
    · rw [callTwt, tracked.removeTwt_eq]
      exact set_removeIf set
    · rw [callTwt, tracked.removeTwt_eq, removeIf_of_empty empty]
  | replaceTwt _ oldTxn newTxn =>
    match oldTxn, newTxn with
    | some oldTxn, some newTxn =>
      refine iff_of_true ?_ (.inr trivial)
      rw [callTwt, replaceTwt, tracked.removeTwt_eq]
      exact set_append tracked.removeIf
    | none, _ | some _, none => exact kept id (fun _ => rfl) id
  | removeExpiredTwt _ =>
    refine kept (set_foldl fun _ _ _ => Option.some_ne_none _) (fun empty => ?_) id
    have entries : tp.twtMap.entries = [] := map_eq_nil_iff.mp empty
    rw [callTwt, removeExpiredTwt, expiredKeys, entries]
    rfl
  | removeFromTwtMap _ =>
    exact kept (set_foldl fun _ _ => set_removeIf) removeFrom_of_empty id

theorem set_run (env : Env) (calls : List TwtCall) :
    (runTwt env calls).twtFingerprint ≠ none ↔ ∃ call ∈ calls, call.Appends := by
  have set_foldl {tp : TxnPool} (tracked : Tracked env tp) : (calls.foldl (callTwt env) tp).twtFingerprint ≠ none ↔
      tp.twtFingerprint ≠ none ∨ ∃ call ∈ calls, call.Appends := by
    induction calls generalizing tp with
    | nil => simp
    | cons call _ ih =>
      rw [foldl_cons, ih (tracked.call call), set_call tracked, exists_mem_cons_iff, or_assoc]
  exact (set_foldl tracked_new).trans (or_iff_right fun set => set rfl)

theorem Tracked.fingerprint (tracked : Tracked env tp) (set : tp.twtFingerprint ≠ none) :
    (getTwtFingerprintAndCount tp).1 = fingerprintOf tp.twtKeys := by
  obtain ⟨bytes, found⟩ := Option.ne_none_iff_exists'.mp set
  rw [← tracked.set bytes found, getTwtFingerprintAndCount, found]
  rfl

/-- The count is the number of the keys. Two histories that end with the same keys end with the same fingerprint, unless
there are no keys and only one of them has ever added a transaction. -/
theorem fingerprint_identifies_iff (env : Env) (calls calls' : List TwtCall) :
    (getTwtFingerprintAndCount (runTwt env calls)).2 = (runTwt env calls).twtKeys.length ∧
    ((∀ hash, hash ∈ (runTwt env calls).twtKeys ↔ hash ∈ (runTwt env calls').twtKeys) →
      ((getTwtFingerprintAndCount (runTwt env calls)).1 = (getTwtFingerprintAndCount (runTwt env calls')).1 ↔
        (runTwt env calls).twtKeys ≠ [] ∨ ((∃ call ∈ calls, call.Appends) ↔ ∃ call ∈ calls', call.Appends))) := by
  have tracked := tracked_run env calls
  have tracked' := tracked_run env calls'
  refine ⟨tracked.count, fun same => ?_⟩
  have perm : (runTwt env calls).twtKeys.Perm (runTwt env calls').twtKeys :=
    (List.perm_ext_iff_of_nodup (runTwt env calls).twtMap.nodupKeys (runTwt env calls').twtMap.nodupKeys).mpr same
  have length {keys : List Uint256} : (fingerprintOf keys).length = 32 := length_xorSum fun hash => hash.length_toArray
  rw [← set_run env calls, ← set_run env calls']
  by_cases set : (runTwt env calls).twtFingerprint ≠ none <;> by_cases set' : (runTwt env calls').twtFingerprint ≠ none
  · refine iff_of_true ?_ (.inr (iff_of_true set set'))
    rw [tracked.fingerprint set, tracked'.fingerprint set']
    exact xorSum_perm perm
  · have empty := tracked'.unset (not_not.mp set')
    rw [empty] at perm
    refine iff_of_false (fun equal => ?_) (not_or.mpr ⟨not_not.mpr perm.eq_nil, fun both => set' (both.mp set)⟩)
    rw [tracked.fingerprint set, getTwtFingerprintAndCount, not_not.mp set'] at equal
    exact absurd (length.symm.trans (congrArg List.length equal)) (by simp)
  · have empty := tracked.unset (not_not.mp set)
    refine iff_of_false (fun equal => ?_) (not_or.mpr ⟨not_not.mpr empty, fun both => set (both.mpr set')⟩)
    rw [tracked'.fingerprint set', getTwtFingerprintAndCount, not_not.mp set] at equal
    exact absurd ((congrArg List.length equal).trans length) (by simp)
  · refine iff_of_true ?_ (.inr (iff_of_false set set'))
    rw [getTwtFingerprintAndCount, getTwtFingerprintAndCount, not_not.mp set, not_not.mp set']

end Nkn.TxnPool

namespace Nkn.PooledTransfers

open TxnPool

/-- A new pool and a pool from which the only transaction has been removed have the same keys and other fingerprints. -/
theorem emptied_fingerprint_differs : (runTwt tables.env []).twtKeys = [] ∧
    (runTwt tables.env [.appendTwt 0 first.txn, .removeTwt first.hash]).twtKeys = [] ∧
    getTwtFingerprintAndCount (runTwt tables.env []) = ([], 0) ∧
    getTwtFingerprintAndCount (runTwt tables.env [.appendTwt 0 first.txn, .removeTwt first.hash]) =
      (List.replicate 32 0, 0) := by
  decide +kernel

theorem fingerprint_identifies_iff_first :
    (getTwtFingerprintAndCount (runTwt tables.env [.appendTwt 0 first.txn])).1 = (getTwtFingerprintAndCount
      (runTwt tables.env [.appendTwt 0 second.txn, .replaceTwt 5 (some second.txn) (some first.txn)])).1 := by
  have keys : (runTwt tables.env [.appendTwt 0 first.txn]).twtKeys = [first.hash] ∧
      (runTwt tables.env [.appendTwt 0 second.txn, .replaceTwt 5 (some second.txn) (some first.txn)]).twtKeys =
        [first.hash] := by decide +kernel
  refine ((fingerprint_identifies_iff _ _ _).2 fun hash => ?_).mpr (.inl ?_)
  · rw [keys.1, keys.2]
  · rw [keys.1]
    exact List.cons_ne_nil _ _

end Nkn.PooledTransfers
