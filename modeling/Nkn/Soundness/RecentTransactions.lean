import Nkn.Lib.Triple
import Nkn.Model.TxnWithTime
import Nkn.Proofs.Keyed
import Nkn.Soundness.Eviction

/-! # Recent transactions and the pool

`twtMap` is kept beside the pool: `AppendTxnPool` decides by the nonce what was replaced, and `DropTxns` does not look
at it. -/

namespace Nkn.TxnPool

open Go Outcome Store Proc List GoMap Transaction Option

section

variable {env : Env} {config : Config} {poolConfig : PoolConfig} {cs : ChainStore} {txn : Transaction} {tp tp' : TxnPool}

def Recent (tp : TxnPool) (hash : Uint256) : Prop := (tp.twtMap.load hash).isSome = true

def InPool (tp : TxnPool) (hash : Uint256) : Prop := (tp.txMap.load hash).isSome = true

def Leaves (tp tp' : TxnPool) (hash : Uint256) : Prop := InPool tp hash ∧ ¬InPool tp' hash

def Poolable (env : Env) (txn : Transaction) : Prop :=
  ∃ message, unpack env txn.unsignedTx.payload = .ok message ∧
    match message with
    | .coinbase _ | .sigChainTxn _ => False
    | _ => True

/-- The reservations of the transactions can be taken back. -/
def TakesBack (env : Env) (cs : ChainStore) (txns : List Transaction) (tp : TxnPool) : Prop :=
  (BlockValidationState.cleanSubmittedTransactions env cs txns tp.blockValidationState).1 = .ok ()

/-- Removing the transaction once more would find nothing. -/
def NothingLeft (env : Env) (tp : TxnPool) (txn : Transaction) : Prop :=
  match txn.unsignedTx.payload.type with
  | .coinbase | .sigChainTxn => True
  | .nanoPay => ∀ payload, unpack env txn.unsignedTx.payload = .ok (.nanoPay payload) →
    tp.nanoPayTxs.load (nanoPayKey payload) = none
  | _ => ∃ code, firstCode txn = .ok code ∧
    (tp.txLists.read [] (toCodeHash env code)).position txn.unsignedTx.nonce = none

/-- A transaction of one of the lists, or a nano pay. -/
def Held (tp : TxnPool) (txn : Transaction) : Prop :=
  (∃ owner, txn ∈ tp.txLists.read [] owner) ∨ ∃ key, tp.nanoPayTxs.load key = some txn

/-- The type is one that stands in the list of its sender. -/
def Listable (txn : Transaction) : Prop :=
  match txn.unsignedTx.payload.type with
  | .coinbase | .sigChainTxn | .nanoPay => False
  | _ => True

/-- A list as appending keeps it: transactions of its account, nonce by nonce, and not too many for a `uint16`. -/
structure InOrder (env : Env) (owner : Uint160) (list : NonceSortedTxs) : Prop where
  short : list.length < 2 ^ 16
  own : ∀ txn ∈ list, Listable txn ∧ ∃ code, firstCode txn = .ok code ∧ toCodeHash env code = owner
  nonces : ∃ start, list.map (fun txn => txn.unsignedTx.nonce.toNat) = List.range' start list.length

def Orderly (env : Env) (tp : TxnPool) : Prop := ∀ owner, InOrder env owner (tp.txLists.read [] owner)

def sameNonce (env : Env) (tp : TxnPool) (txn : Transaction) (message : Pb.Message) : Outcome (Option Transaction) :=
  (tp.txLists.read [] (Transaction.programHash env message)).getByNonce txn.unsignedTx.nonce

/-- The listed transaction with the nonce of an appended one is what it replaces, and can be replaced. -/
def NamesReplaced (env : Env) (cs : ChainStore) (tp : TxnPool) (txn : Transaction) : Pb.Message → Prop
  | .sigChainTxn _ => False
  | .nanoPay payload =>
    (¬∃ old, Pooled env tp txn old (.nanoPay payload)) ∧ ¬∃ old, sameNonce env tp txn (.nanoPay payload) = .ok (some old)
  | message => ∀ old, sameNonce env tp txn message = .ok (some old) → TakesBack env cs [old] tp

/-- What a step has to find in the pool. Dropping takes nothing that is recent, and cleaning finds the lists in order and
a program in every transaction of the block that may be listed. -/
def Followed (env : Env) (poolConfig : PoolConfig) (tp : TxnPool) : RecentStep → Prop
  | .call (.appendTxnPool cs _ txn) =>
    ∀ message, unpack env txn.unsignedTx.payload = .ok message → NamesReplaced env cs tp txn message
  | .call (.dropTxns ..) =>
    isTxPoolFull poolConfig tp.txnCount tp.txnSize = false ∨ ∀ txn, Held tp txn → ¬Recent tp (Transaction.hash env txn)
  | .call (.cleanSubmittedTransactions _ txns) =>
    Orderly env tp ∧ ∀ txn ∈ txns, Listable txn → ∃ code, firstCode txn = .ok code
  | .removeExpiredTwt _ => True

inductive Reached (env : Env) (config : Config) (poolConfig : PoolConfig) : TxnPool → Prop
  | new : Reached env config poolConfig .new
  | step {tp : TxnPool} {step : RecentStep} (reached : Reached env config poolConfig tp)
      (followed : Followed env poolConfig tp step) :
      Reached env config poolConfig (recentStep env config poolConfig tp step)

def without (env : Env) (txMap : GoMap Uint256 Transaction) (replaced : Option Transaction) : GoMap Uint256 Transaction :=
  replaced.elim txMap fun old => txMap.delete (Transaction.hash env old)

def SameMaps (tp tp' : TxnPool) : Prop := tp'.txMap = tp.txMap ∧ tp'.twtMap = tp.twtMap

def SameButState (tp tp' : TxnPool) : Prop := ∃ bvs, tp' = { tp with blockValidationState := bvs }

theorem SameButState.maps (same : SameButState tp tp') : SameMaps tp tp' := by
  obtain ⟨_, rfl⟩ := same
  exact ⟨rfl, rfl⟩

variable {txns : List Transaction}

theorem cleanBlockValidationState_eq (config : Config) (poolConfig : PoolConfig) (back : TakesBack env cs txns tp) :
    ∃ bvs, cleanBlockValidationState env config poolConfig cs txns tp =
      (.ok (), { tp with blockValidationState := bvs }) := by
  unfold TakesBack at back
  rcases ran : BlockValidationState.cleanSubmittedTransactions env cs txns tp.blockValidationState with ⟨result, bvs⟩
  rw [ran] at back
  obtain rfl : result = .ok () := back
  exact ⟨bvs, by simp only [cleanBlockValidationState, recover, onState, zoom, ran]⟩

def SameLists (tp tp' : TxnPool) : Prop := ∀ owner, tp'.txLists.read [] owner = tp.txLists.read [] owner

structure SameContents (tp tp' : TxnPool) : Prop where
  maps : SameMaps tp tp'
  lists : SameLists tp tp'
  nanoPayTxs : tp'.nanoPayTxs = tp.nanoPayTxs

theorem NothingLeft.of_same (left : NothingLeft env tp txn) (lists : SameLists tp tp')
    (nanoPays : tp'.nanoPayTxs = tp.nanoPayTxs) : NothingLeft env tp' txn := by
  have reads : ∀ owner, tp'.txLists.read [] owner = tp.txLists.read [] owner := lists
  unfold NothingLeft at left ⊢
  simp only [reads, nanoPays]
  exact left

theorem NothingLeft.takeOut (left : NothingLeft env tp txn) : takeOut env txn tp = (.ok [], tp) := by
  unfold NothingLeft at left
  unfold TxnPool.takeOut
  cases type : txn.unsignedTx.payload.type with
  | coinbase => rfl
  | sigChainTxn => rfl
  | nanoPay =>
    rw [type] at left
    simp only
    split
    · rename_i payload unpacked
      simp [left payload unpacked]
    · rfl
  | _ =>
    rw [type] at left
    obtain ⟨_, first, outside⟩ := left
    simp only [first, outside]

theorem sameLists_cleanEmptyLists : SameLists tp (cleanEmptyLists tp) := by
  have kept (entries : List (Sigma fun _ : Uint160 => NonceSortedTxs)) (lists : GoMap Uint160 NonceSortedTxs)
      (listed : ∀ entry ∈ entries, tp.txLists.load entry.1 = some entry.2)
      (same : ∀ owner, lists.read [] owner = tp.txLists.read [] owner) (owner : Uint160) :
      (entries.foldl (fun lists entry => if entry.2.isEmpty then lists.delete entry.1 else lists) lists).read [] owner =
        tp.txLists.read [] owner := by
    induction entries generalizing lists with
    | nil => exact same owner
    | cons entry _ ih =>
      rw [List.foldl_cons]
      refine ih _ (fun entry member => listed entry (List.mem_cons_of_mem _ member)) fun owner => ?_
      split_ifs with empty
      · by_cases own : owner = entry.1
        · have nothing : tp.txLists.read [] entry.1 = [] := by
            rw [GoMap.read, listed entry (List.mem_cons_self ..)]
            exact List.isEmpty_iff.mp empty
          rw [own, nothing]
          simp [GoMap.read]
        · rw [← same owner]
          simp [GoMap.read, own]
      · exact same owner
  intro owner
  exact kept _ _ (fun entry member => GoMap.mem_entries.mp member) (fun _ => rfl) owner

theorem keeps_removeEach (left : ∀ txn ∈ txns, NothingLeft env tp txn) :
    Proc.Keeps (SameContents tp) (removeEach env poolConfig txns) := by
  induction txns with
  | nil => exact keeps_pure []
  | cons txn _ ih =>
    have first : Proc.Keeps (SameContents tp) (removeTransaction env poolConfig txn) := by
      intro s same
      have took := ((left txn (mem_cons_self ..)).of_same same.lists same.nanoPayTxs).takeOut
      rw [removeTransaction, bind_of_ok took]
      exact same
    exact first.bind fun _ => (ih fun txn member => left txn (mem_cons_of_mem _ member)).bind fun _ =>
      keeps_pure _

theorem triple_verifyOrReset :
    Proc.Triple (SameButState tp) (verifyOrReset env config cs txn) (fun _ => SameButState tp) (SameButState tp) := by
  rintro _ ⟨bvs, rfl⟩
  unfold verifyOrReset onState zoom
  simp only
  rcases BlockValidationState.verify env config cs txn (cs.getHeight + 1) bvs with ⟨(_ | _) | _, _⟩
  · exact ⟨_, rfl⟩
  · exact ⟨_, rfl⟩
  · exact ⟨_, rfl⟩

theorem triple_verifies :
    Proc.Triple (· = tp) (verifyOrReset env config cs txn) (fun _ => SameButState tp) (SameMaps tp) :=
  triple_verifyOrReset.imp (fun _ here => ⟨_, here⟩) (fun _ _ kept => kept) fun _ kept => kept.maps

theorem triple_preReplaceTxn {old : Transaction} (back : TakesBack env cs [old] tp) :
    Proc.Triple (· = tp) (preReplaceTxn env config poolConfig cs old txn)
      (fun _ s => ∃ bvs, s = removeFromPool env poolConfig old { tp with blockValidationState := bvs })
      (SameButState tp) := by
  have cleaned : Proc.Triple (· = tp) (cleanBlockValidationState env config poolConfig cs [old]) (fun _ => SameButState tp)
      (SameButState tp) := by
    rintro s rfl
    obtain ⟨bvs, ran⟩ := cleanBlockValidationState_eq config poolConfig back
    rw [ran]
    exact ⟨bvs, rfl⟩
  refine cleaned.bind fun _ => triple_verifyOrReset.bind fun _ => triple_modify ?_
  rintro _ ⟨bvs, rfl⟩
  exact ⟨bvs, rfl⟩

def MadeWay (env : Env) (tp : TxnPool) (replaced : Option Transaction) (tp' : TxnPool) : Prop :=
  tp'.txMap = without env tp.txMap replaced ∧ tp'.twtMap = tp.twtMap

variable {replaced : Option Transaction}

theorem triple_processOrdered {owner : Uint160}
    (found : (tp.txLists.read [] owner).getByNonce txn.unsignedTx.nonce = .ok replaced)
    (back : ∀ old, replaced = some old → TakesBack env cs [old] tp) :
    Proc.Triple (· = tp) (processOrdered env config poolConfig cs txn owner) (fun _ => MadeWay env tp replaced)
      (SameMaps tp) := by
  have same : SameMaps tp tp := ⟨rfl, rfl⟩
  refine triple_run_bind rfl ?_
  rw [found]
  refine triple_lift_bind (fun _ here => here ▸ same) fun _ here => ?_
  cases here
  cases replaced with
  | none =>
    refine triple_lift_bind (fun _ here => here ▸ same) fun _ _ => ?_
    refine triple_lift_bind (fun _ here => here ▸ same) fun _ _ => ?_
    exact triple_verifies.bind fun _ => triple_modify fun _ kept => kept.maps
  | some old =>
    refine ((triple_preReplaceTxn (back old rfl)).imp (fun _ here => here) (fun _ _ kept => kept) fun _ kept => kept.maps).bind
      fun _ => ?_
    rintro _ ⟨bvs, rfl⟩
    obtain ⟨_, stored⟩ := replace_getByNonce found
    have lists : (removeFromPool env poolConfig old { tp with blockValidationState := bvs }).txLists = tp.txLists := rfl
    rw [gets_bind, lists, stored, lift_ok_bind]
    exact ⟨rfl, rfl⟩

theorem triple_processNanoPay {payload : Pb.NanoPay} (alone : ¬∃ old, Pooled env tp txn old (.nanoPay payload)) :
    Proc.Triple (· = tp) (processNanoPay env config poolConfig cs txn payload) (fun _ => MadeWay env tp none)
      (SameMaps tp) := by
  have same : SameMaps tp tp := ⟨rfl, rfl⟩
  refine triple_run_bind rfl ?_
  dsimp only
  cases pooled : tp.nanoPayTxs.load (nanoPayKey payload) with
  | none =>
    exact triple_verifies.bind fun _ => triple_modify fun _ kept => kept.maps
  | some old =>
    refine triple_lift_bind (fun _ here => here ▸ same) fun message unpacked => ?_
    cases message with
    | nanoPay oldPayload =>
      refine triple_lift_bind (fun _ here => here ▸ same) fun _ above => ?_
      exact absurd ⟨old, pooled, oldPayload, unpacked, rejectIf_eq_ok.mp above⟩ alone
    | _ =>
      rintro _ rfl
      exact same

structure Admits (env : Env) (tp : TxnPool) (txn : Transaction) (replaced : Option Transaction) (tp' : TxnPool) : Prop where
  txMap : tp'.txMap = (without env tp.txMap replaced).store (Transaction.hash env txn) txn
  twtMap : tp'.twtMap = tp.twtMap
  poolable : Poolable env txn
  other : ∀ old, replaced = some old → Transaction.hash env old ≠ Transaction.hash env txn

theorem triple_settled {first : Proc TxnPool Unit}
    (triple : Proc.Triple (· = tp) first (fun _ => MadeWay env tp replaced) (SameMaps tp)) (poolable : Poolable env txn)
    (other : ∀ old, replaced = some old → Transaction.hash env old ≠ Transaction.hash env txn) :
    Proc.Triple (· = tp) (first >>= fun _ => settle env poolConfig txn) (fun _ => Admits env tp txn replaced)
      (SameMaps tp) := by
  refine triple.bind fun _ s way => ?_
  refine ⟨?_, way.2, poolable, other⟩
  rw [← way.1]
  rfl

theorem mem_of_getByNonce {list : NonceSortedTxs} {nonce : UInt64} {old : Transaction}
    (found : list.getByNonce nonce = .ok (some old)) : old ∈ list := by
  unfold NonceSortedTxs.getByNonce at found
  split at found
  · cases found
  · rename_i position _
    cases inside : list[position]? with
    | none =>
      rw [inside] at found
      cases found
    | some _ =>
      rw [inside] at found
      cases found
      exact mem_of_getElem? inside

theorem triple_processTx {message : Pb.Message} (unpacked : unpack env txn.unsignedTx.payload = .ok message)
    (open_ : opened (programHash env message) tp = tp)
    (found : sameNonce env tp txn message = .ok replaced) (names : NamesReplaced env cs tp txn message) :
    Proc.Triple (· = tp) (processTx env config poolConfig cs txn) (fun _ => Admits env tp txn replaced) (SameMaps tp) := by
  have same : SameMaps tp tp := ⟨rfl, rfl⟩
  have sends : sender env txn = .ok (programHash env message) := by
    simp [sender, getProgramHashes, unpacked, firstHash]
  have listed : getOrNewList (programHash env message) tp =
      (.ok (tp.txLists.read [] (programHash env message)), tp) := by
    rw [getOrNewList_eq, open_]
  rw [processTx, sends, unpacked]
  refine triple_run_bind rfl (triple_run_bind listed ?_)
  refine triple_lift_bind (fun _ here => here ▸ same) fun _ fresh => ?_
  have other (old : Transaction) (known : replaced = some old) : Transaction.hash env old ≠ Transaction.hash env txn := by
    subst known
    intro clash
    refine rejectIf_eq_ok.mp fresh (any_eq_true.mpr ⟨old, mem_of_getByNonce found, ?_⟩)
    exact decide_eq_true clash
  refine triple_run_bind rfl ?_
  have ordered (back : ∀ old, sameNonce env tp txn message = .ok (some old) → TakesBack env cs [old] tp) :=
    @triple_processOrdered env config poolConfig cs txn tp _ _ found fun old known => back old (known ▸ found)
  cases message with
  | coinbase _ => exact triple_lift (fun _ here => here ▸ same) (fun _ here => by cases here)
  | sigChainTxn _ => exact names.elim
  | nanoPay _ =>
    obtain ⟨alone, unnamed⟩ := names
    have none : replaced = none := by
      cases replaced with
      | none => rfl
      | some old => exact absurd ⟨old, found⟩ unnamed
    subst none
    exact triple_settled (triple_processNanoPay alone) ⟨_, unpacked, trivial⟩ other
  | _ => exact triple_settled (ordered names) ⟨_, unpacked, trivial⟩ other

theorem NamesReplaced.opened {message : Pb.Message} (names : NamesReplaced env cs tp txn message) :
    NamesReplaced env cs (opened (programHash env message) tp) txn message := by
  have nonces : sameNonce env (TxnPool.opened (programHash env message) tp) txn message =
      sameNonce env tp txn message := by
    rw [sameNonce, read_opened]
    rfl
  have back (old : Transaction) (back : TakesBack env cs [old] tp) :
      TakesBack env cs [old] (TxnPool.opened (programHash env message) tp) := by
    unfold TxnPool.opened
    split_ifs
    · exact back
    · exact back
  cases message with
  | sigChainTxn _ => exact names.elim
  | nanoPay _ =>
    refine ⟨?_, ?_⟩
    · rintro ⟨old, pooled⟩
      exact names.1 ⟨old, pooled_opened.mp pooled⟩
    rw [nonces]
    exact names.2
  | _ =>
    intro old found
    rw [nonces] at found
    exact back old (names old found)

variable {now : Int64}

theorem triple_admission {returns : Option Transaction → TxnPool → Prop} {fails : TxnPool → Prop}
    (unchanged : fails tp) (opens : ∀ owner, fails (opened owner tp))
    (processed : ∀ message replaced, unpack env txn.unsignedTx.payload = .ok message →
      sameNonce env (opened (programHash env message) tp) txn message = .ok replaced →
      Proc.Triple (· = opened (programHash env message) tp) (processTx env config poolConfig cs txn)
        (fun _ => returns replaced) fails) :
    Proc.Triple (· = tp) (appendTxnPool env config poolConfig cs now txn)
      (fun _ s => ∃ replaced between, returns replaced between ∧ s = recordTime env now replaced txn between) fails := by
  refine triple_run_bind rfl ?_
  refine triple_lift_bind (fun _ here => here ▸ unchanged) fun _ _ => ?_
  refine triple_lift_bind (fun _ here => here ▸ unchanged) fun owner sends => ?_
  refine triple_run_bind getOrNewList_eq ?_
  cases unpacked : unpack env txn.unsignedTx.payload with
  | error _ => simp [sender, getProgramHashes, unpacked] at sends
  | ok message =>
    obtain rfl : owner = programHash env message := by
      simpa [sender, getProgramHashes, unpacked, firstHash] using sends.symm
    refine triple_lift_bind (fun _ here => here ▸ opens _) fun replaced found => ?_
    refine triple_lift_bind (fun _ here => here ▸ opens _) fun _ _ => ?_
    refine triple_lift_bind (fun _ here => here ▸ opens _) fun _ _ => ?_
    refine triple_lift_bind (fun _ here => here ▸ opens _) fun _ _ => ?_
    exact (processed message replaced unpacked found).bind fun _ s returned => ⟨replaced, s, returned, rfl⟩

theorem triple_appendTxnPool
    (names : ∀ message, unpack env txn.unsignedTx.payload = .ok message → NamesReplaced env cs tp txn message) :
    Proc.Triple (· = tp) (appendTxnPool env config poolConfig cs now txn)
      (fun _ s => ∃ replaced between, Admits env tp txn replaced between ∧ s = recordTime env now replaced txn between)
      (SameMaps tp) := by
  have same (owner : Uint160) : SameMaps tp (opened owner tp) :=
    ⟨unchanged_opened.txMap.symm, unchanged_opened.twtMap.symm⟩
  refine triple_admission ⟨rfl, rfl⟩ same fun message replaced unpacked found => ?_
  have processed := @triple_processTx env config poolConfig cs txn _ replaced message unpacked opened_opened found
    (names message unpacked).opened
  refine processed.imp (fun _ here => here) (fun _ s admits => ?_) fun s kept => ?_
  · refine ⟨?_, admits.twtMap.trans (same _).2, admits.poolable, admits.other⟩
    rw [admits.txMap, (same _).1]
  · exact ⟨kept.1.trans (same _).1, kept.2.trans (same _).2⟩

theorem recent_appendTwt (now : Int64) (hash : Uint256) :
    Recent (appendTwt env now txn tp) hash ↔ hash = Transaction.hash env txn ∨ Recent tp hash := by
  unfold appendTwt Recent
  split_ifs with known
  · constructor
    · exact .inr
    · rintro (rfl | recent)
      · exact known
      · exact recent
  · rw [load_store]
    split_ifs with same
    · simp [same]
    · simp [same]

theorem recent_removeTwt (removed hash : Uint256) :
    Recent (removeTwt env removed tp) hash ↔ Recent tp hash ∧ hash ≠ removed := by
  unfold removeTwt Recent
  split
  · rw [load_delete]
    split_ifs with same
    · simp [same]
    · simp [same]
  · rename_i missing
    constructor
    · intro recent
      refine ⟨recent, ?_⟩
      rintro rfl
      simp [missing] at recent
    · exact And.left

theorem recent_recordTime
    (other : ∀ old, replaced = some old → Transaction.hash env old ≠ Transaction.hash env txn) (hash : Uint256) :
    Recent (recordTime env now replaced txn tp) hash ↔ hash = Transaction.hash env txn ∨
      Recent tp hash ∧ ∀ old, replaced = some old → hash ≠ Transaction.hash env old := by
  cases replaced with
  | none => simp [recordTime, recent_appendTwt]
  | some old => simp [recordTime, other old rfl, recent_appendTwt, recent_removeTwt]

theorem inPool_admits (admits : Admits env tp txn replaced tp') (hash : Uint256) :
    InPool tp' hash ↔ hash = Transaction.hash env txn ∨
      InPool tp hash ∧ ∀ old, replaced = some old → hash ≠ Transaction.hash env old := by
  unfold InPool
  rw [admits.txMap, load_store]
  split_ifs with same
  · simp [same]
  · cases replaced with
    | none => simp [same, without]
    | some _ =>
      simp only [without, elim_some, load_delete]
      split_ifs with gone
      · subst gone
        simp [same]
      · simp [same, gone]

variable {removed : List Transaction}

theorem recent_removeIfTwt (removed hash : Uint256) :
    Recent (removeIfTwt removed tp) hash ↔ Recent tp hash ∧ hash ≠ removed := by
  unfold removeIfTwt forgetTwt Recent
  split_ifs with known
  · rw [load_delete]
    split_ifs with same
    · simp [same]
    · simp [same]
  · constructor
    · intro recent
      refine ⟨recent, ?_⟩
      rintro rfl
      exact known recent
    · exact And.left

theorem recent_removeFromTwtMap (txns : List Transaction) (hash : Uint256) :
    Recent (removeFromTwtMap env txns tp) hash ↔ Recent tp hash ∧ ∀ txn ∈ txns, hash ≠ Transaction.hash env txn := by
  unfold removeFromTwtMap
  induction txns generalizing tp with
  | nil => simp
  | cons _ _ ih => rw [foldl_cons, ih, recent_removeIfTwt, forall_mem_cons, and_assoc]

def SameButRecent (tp tp' : TxnPool) : Prop :=
  ∃ twtMap twtCount twtFingerprint, tp' = { tp with twtMap, twtCount, twtFingerprint }

theorem sameButRecent_removeIfTwt (hash : Uint256) (tp : TxnPool) : SameButRecent tp (removeIfTwt hash tp) := by
  unfold removeIfTwt
  split_ifs
  · exact ⟨_, _, _, rfl⟩
  · exact ⟨_, _, _, rfl⟩

theorem sameButRecent_removeFromTwtMap (env : Env) (txns : List Transaction) (tp : TxnPool) :
    SameButRecent tp (removeFromTwtMap env txns tp) := by
  unfold removeFromTwtMap
  induction txns generalizing tp with
  | nil => exact ⟨_, _, _, rfl⟩
  | cons txn _ ih =>
    obtain ⟨_, _, _, rest⟩ := ih (removeIfTwt (Transaction.hash env txn) tp)
    obtain ⟨_, _, _, first⟩ := sameButRecent_removeIfTwt (Transaction.hash env txn) tp
    rw [foldl_cons, rest, first]
    exact ⟨_, _, _, rfl⟩

theorem expired_kept (tp : TxnPool) (keys : List Uint256) :
    (keys.foldl (fun tp hash => forgetTwt hash tp) tp).txMap = tp.txMap ∧
      ∀ hash, Recent (keys.foldl (fun tp hash => forgetTwt hash tp) tp) hash → Recent tp hash := by
  induction keys generalizing tp with
  | nil => exact ⟨rfl, fun _ recent => recent⟩
  | cons key _ ih =>
    obtain ⟨same, kept⟩ := ih (forgetTwt key tp)
    refine ⟨same, fun hash recent => ?_⟩
    have kept := kept hash recent
    unfold Recent forgetTwt at kept
    rw [load_delete] at kept
    split_ifs at kept
    · cases kept
    · exact kept

def RecentInPool (tp : TxnPool) : Prop := ∀ hash, Recent tp hash → InPool tp hash

theorem RecentInPool.of_maps (inside : RecentInPool tp) (same : SameMaps tp tp') : RecentInPool tp' := by
  intro hash recent
  unfold Recent at recent
  unfold InPool
  rw [same.2] at recent
  rw [same.1]
  exact inside hash recent

theorem RecentInPool.append (inside : RecentInPool tp)
    (names : ∀ message, unpack env txn.unsignedTx.payload = .ok message → NamesReplaced env cs tp txn message) :
    RecentInPool (appendTxnPool env config poolConfig cs now txn tp).2 := by
  rcases ran : appendTxnPool env config poolConfig cs now txn tp with ⟨_ | _, _⟩
  · exact inside.of_maps ((triple_appendTxnPool names).of_failed rfl ran)
  · obtain ⟨_, _, admits, rfl⟩ := (triple_appendTxnPool names).of_returned rfl ran
    intro hash recent
    have pooled := (inPool_admits admits hash).mpr
    unfold InPool at pooled ⊢
    rw [txMap_recordTime]
    refine pooled (((recent_recordTime admits.other hash).mp recent).imp_right fun ⟨recent, others⟩ => ⟨?_, others⟩)
    unfold Recent at recent
    rw [admits.twtMap] at recent
    exact inside hash recent

theorem cleanSubmittedTransactions_same (config : Config)
    (removes : removeTransactions env poolConfig txns tp = (.ok removed, tp')) (left : ∀ txn ∈ removed, NothingLeft env tp' txn) :
    SameContents (removeFromTwtMap env removed tp')
      (cleanSubmittedTransactions env config poolConfig cs txns tp).2 := by
  rw [cleanSubmittedTransactions, bind_of_ok removes, modify_bind]
  obtain ⟨_, _, _, same⟩ := sameButRecent_removeFromTwtMap env removed tp'
  refine keeps_cleanBlockValidationState (fun _ _ same => ⟨same.maps, same.lists, same.nanoPayTxs⟩)
    (fun some part => keeps_removeEach fun txn member => ?_)
    (fun _ same => ⟨same.maps, fun owner => (sameLists_cleanEmptyLists owner).trans (same.lists owner), same.nanoPayTxs⟩)
    _ ⟨⟨rfl, rfl⟩, fun _ => rfl, rfl⟩
  rw [same]
  exact (left txn (part member)).of_same (fun _ => rfl) rfl

theorem position_eq {list : NonceSortedTxs} {start : Nat} (nonce : UInt64)
    (nonces : list.map (fun txn => txn.unsignedTx.nonce.toNat) = List.range' start list.length) :
    list.position nonce =
      if start ≤ nonce.toNat ∧ nonce.toNat < start + list.length then some (nonce.toNat - start) else none := by
  have first := congrArg head? nonces
  have last := congrArg getLast? nonces
  rw [head?_map, head?_range'] at first
  rw [getLast?_map, getLast?_range'] at last
  unfold NonceSortedTxs.position
  cases head : list.head? with
  | none =>
    rw [head?_eq_none_iff.mp head]
    simp
  | some txn =>
    cases ending : list.getLast? with
    | none => simp [getLast?_eq_none_iff.mp ending] at head
    | some txn' =>
      have nonempty : list.length ≠ 0 := fun empty => by simp [length_eq_zero_iff.mp empty] at head
      rw [head, if_neg nonempty, Option.map_some, Option.some.injEq] at first
      rw [ending, if_neg nonempty, Option.map_some, Option.some.injEq] at last
      simp only [UInt64.lt_iff_toNat_lt, gt_iff_lt]
      split_ifs with outside inside inside
      · omega
      · rfl
      · rw [UInt64.toNat_sub_of_le _ _ (UInt64.le_iff_toNat_le.mpr (by omega)), first]
      · omega

namespace InOrder

variable {owner : Uint160} {list : NonceSortedTxs} (inOrder : InOrder env owner list) {nonce : UInt64}

include inOrder

theorem position_lt {position : Nat} (found : list.position nonce = some position) : position < list.length := by
  obtain ⟨start, nonces⟩ := inOrder.nonces
  rw [position_eq nonce nonces] at found
  split_ifs at found with inside
  have := Option.some.inj found
  omega

theorem position_eq_none_iff : list.position nonce = none ↔ ∀ txn ∈ list, txn.unsignedTx.nonce ≠ nonce := by
  obtain ⟨start, nonces⟩ := inOrder.nonces
  have listed : (∃ txn ∈ list, txn.unsignedTx.nonce = nonce) ↔ start ≤ nonce.toNat ∧ nonce.toNat < start + list.length := by
    rw [← mem_range'_1, ← nonces, List.mem_map]
    simp only [UInt64.toNat_inj]
  simp [position_eq nonce nonces, ← listed]

theorem drop (n : Nat) : InOrder env owner (list.drop n) := by
  obtain ⟨start, nonces⟩ := inOrder.nonces
  refine ⟨?_, fun txn member => inOrder.own txn (mem_of_mem_drop member), start + n, ?_⟩
  · have := inOrder.short
    rw [length_drop]
    omega
  · rw [map_drop, nonces, drop_range', length_drop, Nat.mul_one]

theorem position_drop {n : Nat} (gone : list.position nonce = none ∨ ∃ txn ∈ list.take n, txn.unsignedTx.nonce = nonce) :
    NonceSortedTxs.position (list.drop n) nonce = none := by
  rw [(inOrder.drop n).position_eq_none_iff]
  intro txn member same
  rcases gone with none | ⟨taken, among, own⟩
  · exact inOrder.position_eq_none_iff.mp none txn (mem_of_mem_drop member) same
  · obtain ⟨start, nonces⟩ := inOrder.nonces
    have distinct : (list.map fun txn => txn.unsignedTx.nonce.toNat).Nodup := nonces ▸ nodup_range'
    rw [← take_append_drop n list, map_append, nodup_append] at distinct
    exact distinct.2.2 _ (mem_map_of_mem among) _ (mem_map_of_mem member) (by rw [own, same])

end InOrder

theorem nothingLeft_iff (listable : Listable txn) : NothingLeft env tp txn ↔
    ∃ code, firstCode txn = .ok code ∧ (tp.txLists.read [] (toCodeHash env code)).position txn.unsignedTx.nonce = none := by
  unfold Listable at listable
  unfold NothingLeft
  split at listable
  · exact listable.elim
  · exact listable.elim
  · exact listable.elim
  · rfl

/-- What is left of no transaction stays so when a list loses its first ones. -/
theorem NothingLeft.setList {owner : Uint160} {n : Nat} (left : NothingLeft env tp txn) (orderly : Orderly env tp) :
    NothingLeft env (tp.setList owner ((tp.txLists.read [] owner).drop n)) txn := by
  unfold NothingLeft TxnPool.setList at *
  split at left
  · trivial
  · trivial
  · exact left
  · obtain ⟨code, first, none⟩ := left
    refine ⟨code, first, ?_⟩
    rw [read_store]
    split_ifs with same
    · rw [← same]
      exact (orderly _).position_drop (.inl none)
    · exact none

theorem NothingLeft.delete {key : NanoPayKey} (left : NothingLeft env tp txn) :
    NothingLeft env { tp with nanoPayTxs := tp.nanoPayTxs.delete key } txn := by
  unfold NothingLeft at *
  split at left
  · trivial
  · trivial
  · intro payload unpacked
    simp [left payload unpacked]
  · exact left

/-- What removing transactions does to a pool with orderly lists. -/
structure Taken (env : Env) (tp : TxnPool) (removed : List Transaction) (tp' : TxnPool) : Prop where
  orderly : Orderly env tp'
  nothing : ∀ txn ∈ removed, NothingLeft env tp' txn
  kept : ∀ txn, NothingLeft env tp txn → NothingLeft env tp' txn
  inPool : ∀ hash, InPool tp hash → (∀ txn ∈ removed, hash ≠ Transaction.hash env txn) → InPool tp' hash
  twtMap : tp'.twtMap = tp.twtMap

variable {between : TxnPool}

theorem Taken.refl (orderly : Orderly env tp) : Taken env tp [] tp :=
  ⟨orderly, by simp, fun _ left => left, fun _ inPool _ => inPool, rfl⟩

theorem Taken.trans {removed' : List Transaction} (first : Taken env tp removed between)
    (second : Taken env between removed' tp') : Taken env tp (removed ++ removed') tp' where
  orderly := second.orderly
  nothing txn member := (mem_append.mp member).elim (fun early => second.kept txn (first.nothing txn early)) (second.nothing txn)
  kept txn left := second.kept txn (first.kept txn left)
  inPool hash inPool others := by
    rw [forall_mem_append] at others
    exact second.inPool hash (first.inPool hash inPool others.1) others.2
  twtMap := second.twtMap.trans first.twtMap

theorem Taken.of_same (taken : Taken env tp removed between) (lists : SameLists between tp')
    (nanoPays : tp'.nanoPayTxs = between.nanoPayTxs) (twtMap : tp'.twtMap = between.twtMap)
    (inPool : ∀ hash, InPool between hash → (∀ txn ∈ removed, hash ≠ Transaction.hash env txn) → InPool tp' hash) :
    Taken env tp removed tp' where
  orderly owner := lists owner ▸ taken.orderly owner
  nothing txn member := (taken.nothing txn member).of_same lists nanoPays
  kept txn left := (taken.kept txn left).of_same lists nanoPays
  inPool hash pooled others := inPool hash (taken.inPool hash pooled others) others
  twtMap := twtMap.trans taken.twtMap

theorem takeOut_taken (orderly : Orderly env tp) (coded : Listable txn → ∃ code, firstCode txn = .ok code) :
    ∃ removed tp', takeOut env txn tp = (.ok removed, tp') ∧ Taken env tp removed tp' := by
  cases type : txn.unsignedTx.payload.type with
  | coinbase | sigChainTxn => exact ⟨[], tp, by simp [takeOut, type], .refl orderly⟩
  | nanoPay =>
    cases unpacked : unpack env txn.unsignedTx.payload with
    | error _ => exact ⟨[], tp, by simp [takeOut, type, unpacked], .refl orderly⟩
    | ok message =>
      cases message with
      | nanoPay payload =>
        by_cases pooled : (tp.nanoPayTxs.load (nanoPayKey payload)).isSome = true
        · refine ⟨[txn], { tp with nanoPayTxs := tp.nanoPayTxs.delete (nanoPayKey payload) },
            by simp only [takeOut, type, unpacked, pooled, if_true], orderly, ?_, fun _ left => left.delete,
            fun _ inPool _ => inPool, rfl⟩
          rw [forall_mem_singleton, NothingLeft, type]
          intro payload' same
          cases unpacked.symm.trans same
          simp
        · exact ⟨[], tp, by simp [takeOut, type, unpacked, pooled], .refl orderly⟩
      | _ => exact ⟨[], tp, by simp [takeOut, type, unpacked], .refl orderly⟩
  | _ =>
    obtain ⟨code, first⟩ := coded (by rw [Listable, type]; trivial)
    have inOrder := orderly (toCodeHash env code)
    cases found : (tp.txLists.read [] (toCodeHash env code)).position txn.unsignedTx.nonce with
    | none => exact ⟨[], tp, by simp [takeOut, type, first, found], .refl orderly⟩
    | some position =>
      have inside := inOrder.position_lt found
      have short := inOrder.short
      have fits : (position + 1) % 2 ^ 16 = position + 1 := Nat.mod_eq_of_lt (by omega)
      refine ⟨_, _, by simp only [takeOut, type, first, found, fits, inside, and_true, Nat.succ_le_iff, if_true]; rfl,
        fun owner => ?_, fun taken member => ?_, fun _ left => left.setList orderly, fun _ inPool _ => inPool, rfl⟩
      · rw [TxnPool.setList, read_store]
        split_ifs with same
        · rw [same]
          exact inOrder.drop _
        · exact orderly owner
      · obtain ⟨listable, code', first', own⟩ := inOrder.own taken (mem_of_mem_take member)
        refine (nothingLeft_iff listable).mpr ⟨code', first', ?_⟩
        rw [own, TxnPool.setList, read_store, if_pos rfl]
        exact inOrder.position_drop (.inr ⟨taken, member, rfl⟩)

theorem foldl_removeFromPool (env : Env) (poolConfig : PoolConfig) (txns : List Transaction) (tp : TxnPool) :
    let tp' := txns.foldl (fun tp txn => removeFromPool env poolConfig txn tp) tp
    tp'.txLists = tp.txLists ∧ tp'.nanoPayTxs = tp.nanoPayTxs ∧ tp'.twtMap = tp.twtMap ∧
      ∀ hash, InPool tp hash → (∀ txn ∈ txns, hash ≠ Transaction.hash env txn) → InPool tp' hash := by
  induction txns generalizing tp with
  | nil => exact ⟨rfl, rfl, rfl, fun _ inPool _ => inPool⟩
  | cons txn _ ih =>
    obtain ⟨lists, nanoPays, twtMap, inPool⟩ := ih (removeFromPool env poolConfig txn tp)
    refine ⟨lists, nanoPays, twtMap, fun hash pooled others => ?_⟩
    rw [forall_mem_cons] at others
    refine inPool hash ?_ others.2
    unfold InPool removeFromPool deleteTransactionFromMap
    rwa [load_delete, if_neg others.1]

theorem removeEach_taken (orderly : Orderly env tp)
    (coded : ∀ txn ∈ txns, Listable txn → ∃ code, firstCode txn = .ok code) :
    ∃ removed tp', removeEach env poolConfig txns tp = (.ok removed, tp') ∧ Taken env tp removed tp' := by
  induction txns generalizing tp with
  | nil => exact ⟨[], tp, rfl, .refl orderly⟩
  | cons txn _ ih =>
    rw [forall_mem_cons] at coded
    obtain ⟨removed, between, took, taken⟩ := takeOut_taken orderly coded.1
    obtain ⟨lists, nanoPays, twtMap, inPool⟩ := foldl_removeFromPool env poolConfig removed between
    have taken := taken.of_same (fun owner => congrArg (fun lists => lists.read [] owner) lists) nanoPays twtMap inPool
    obtain ⟨removed', tp', rest, taken'⟩ := ih taken.orderly coded.2
    have first : removeTransaction env poolConfig txn tp =
        (.ok removed, removed.foldl (fun tp txn => removeFromPool env poolConfig txn tp) between) := by
      rw [removeTransaction, bind_of_ok took, modify_bind]
      rfl
    refine ⟨removed ++ removed', tp', ?_, taken.trans taken'⟩
    rw [removeEach, bind_of_ok first, bind_of_ok rest]
    rfl

theorem removeTransactions_taken (orderly : Orderly env tp)
    (coded : ∀ txn ∈ txns, Listable txn → ∃ code, firstCode txn = .ok code) :
    ∃ removed tp', removeTransactions env poolConfig txns tp = (.ok removed, tp') ∧ Taken env tp removed tp' := by
  obtain ⟨removed, between, each, taken⟩ := @removeEach_taken env poolConfig _ _ orderly coded
  refine ⟨removed, cleanEmptyLists between, ?_,
    taken.of_same sameLists_cleanEmptyLists rfl rfl fun _ inPool _ => inPool⟩
  rw [removeTransactions, bind_of_ok each, modify_bind]
  rfl

theorem RecentInPool.clean (inside : RecentInPool tp) (orderly : Orderly env tp)
    (coded : ∀ txn ∈ txns, Listable txn → ∃ code, firstCode txn = .ok code) :
    RecentInPool (cleanSubmittedTransactions env config poolConfig cs txns tp).2 := by
  obtain ⟨removed, between, removes, taken⟩ := @removeTransactions_taken env poolConfig _ _ orderly coded
  refine RecentInPool.of_maps ?_ (cleanSubmittedTransactions_same config removes taken.nothing).maps
  intro hash recent
  rw [recent_removeFromTwtMap] at recent
  obtain ⟨_, _, _, same⟩ := sameButRecent_removeFromTwtMap env removed between
  rw [same]
  refine taken.inPool hash (inside hash ?_) recent.2
  have recent := recent.1
  unfold Recent at recent
  rwa [taken.twtMap] at recent

/-- The recent transactions of a pool are still in another one, and nothing that may leave it next is one of them. -/
structure Spared (env : Env) (tp s : TxnPool) : Prop where
  twtMap : s.twtMap = tp.twtMap
  held : ∀ txn, Held s txn → ¬Recent tp (Transaction.hash env txn)
  inPool : ∀ hash, Recent tp hash → InPool s hash

/-- None of the transactions is recent. -/
def Old (env : Env) (tp : TxnPool) (txns : List Transaction) : Prop := ∀ txn ∈ txns, ¬Recent tp (Transaction.hash env txn)

namespace Spared

variable {s s' : TxnPool}

theorem recentInPool (spared : Spared env tp s) : RecentInPool s := by
  intro hash recent
  unfold Recent at recent
  rw [spared.twtMap] at recent
  exact spared.inPool hash recent

theorem fewer (spared : Spared env tp s) (maps : SameMaps s s') (fewer : ∀ txn, Held s' txn → Held s txn) :
    Spared env tp s' := by
  refine ⟨maps.2.trans spared.twtMap, fun txn held => spared.held txn (fewer txn held), fun hash recent => ?_⟩
  unfold InPool
  rw [maps.1]
  exact spared.inPool hash recent

theorem setList {owner : Uint160} {list : NonceSortedTxs} (spared : Spared env tp s)
    (part : ∀ txn ∈ list, txn ∈ s.txLists.read [] owner) : Spared env tp (s.setList owner list) := by
  refine spared.fewer ⟨rfl, rfl⟩ fun txn held => held.imp_left ?_
  rintro ⟨owner', member⟩
  rw [TxnPool.setList, read_store] at member
  split_ifs at member with same
  · exact ⟨owner, part txn member⟩
  · exact ⟨owner', member⟩

theorem delete {key : NanoPayKey} (spared : Spared env tp s) :
    Spared env tp { s with nanoPayTxs := s.nanoPayTxs.delete key } := by
  refine spared.fewer ⟨rfl, rfl⟩ fun txn held => held.imp_right ?_
  rintro ⟨key', found⟩
  rw [load_delete] at found
  split_ifs at found
  exact ⟨key', found⟩

theorem removeFromPool (spared : Spared env tp s) (old : ¬Recent tp (Transaction.hash env txn)) :
    Spared env tp (removeFromPool env poolConfig txn s) := by
  refine ⟨spared.twtMap, spared.held, fun hash recent => ?_⟩
  unfold InPool TxnPool.removeFromPool deleteTransactionFromMap
  rw [load_delete, if_neg (by rintro rfl; exact old recent)]
  exact spared.inPool hash recent

theorem listed (spared : Spared env tp s) (owner : Uint160) : Old env tp (s.txLists.read [] owner) :=
  fun txn member => spared.held txn (.inl ⟨owner, member⟩)

end Spared

theorem triple_takeOut (old : ¬Recent tp (Transaction.hash env txn)) :
    Proc.Triple (Spared env tp) (takeOut env txn) (fun removed s => Spared env tp s ∧ Old env tp removed) (Spared env tp) := by
  intro s spared
  have nothing : Spared env tp s ∧ Old env tp [] := ⟨spared, by simp [Old]⟩
  unfold takeOut
  split
  · exact nothing
  · exact nothing
  · split
    · split_ifs
      · exact ⟨spared.delete, by simpa [Old] using old⟩
      · exact nothing
    · exact nothing
  · split
    · exact spared
    · simp only
      split
      · exact nothing
      · split_ifs
        · exact ⟨spared.setList fun _ member => mem_of_mem_drop member,
            fun txn member => spared.listed _ txn (mem_of_mem_take member)⟩
        · exact spared

theorem keepsSpared_removeEach (old : Old env tp txns) : Proc.Keeps (Spared env tp) (removeEach env poolConfig txns) := by
  induction txns with
  | nil => exact keeps_pure []
  | cons txn _ ih =>
    refine Proc.Keeps.bind (fun s spared => ?_) fun _ => (ih fun txn member => old txn (mem_cons_of_mem _ member)).bind
      fun _ => keeps_pure _
    have taken := triple_takeOut (old txn (mem_cons_self ..)) s spared
    rcases took : takeOut env txn s with ⟨_ | removed, between⟩
    · rw [took] at taken
      rwa [removeTransaction, bind_of_error took]
    · rw [took] at taken
      rw [removeTransaction, bind_of_ok took, modify_bind]
      obtain ⟨spared, old⟩ := taken
      change Spared env tp (removed.foldl _ between)
      clear took
      induction removed generalizing between with
      | nil => exact spared
      | cons _ _ ih =>
        exact ih _ (spared.removeFromPool (old _ (mem_cons_self ..))) fun txn member => old txn (mem_cons_of_mem _ member)

theorem keepsSpared_clean (old : Old env tp txns) :
    Proc.Keeps (Spared env tp) (cleanBlockValidationState env config poolConfig cs txns) := by
  refine keeps_cleanBlockValidationState (fun _ _ spared => ⟨spared.twtMap, spared.held, spared.inPool⟩)
    (fun some part => keepsSpared_removeEach fun txn member => old txn (part member)) fun s spared => ?_
  refine spared.fewer ⟨rfl, rfl⟩ fun txn held => held.imp_left ?_
  rintro ⟨owner, member⟩
  exact ⟨owner, sameLists_cleanEmptyLists owner ▸ member⟩

theorem old_pushBack {spare : Bool} {dropList : List Transaction} (old : Old env tp dropList)
    (pushed : ¬Recent tp (Transaction.hash env txn)) : Old env tp (pushBack env spare dropList txn) := by
  unfold pushBack
  split_ifs
  · intro other member
    rcases mem_append.mp (Heap.mem_up (mem_of_mem_take member)) with inside | last
    · exact old other inside
    · exact mem_singleton.mp last ▸ pushed
  · exact old

theorem Spared.dropFromList {s : TxnPool} {dropList : List Transaction} (spared : Spared env tp s)
    (old : Old env tp dropList) (txn : Transaction) (spare : Bool) : Spared env tp (dropFromList env txn spare s dropList).2.1 ∧
      Old env tp (dropFromList env txn spare s dropList).2.2 := by
  unfold TxnPool.dropFromList
  split
  · split
    · split_ifs
      · exact ⟨spared.delete, old⟩
      · exact ⟨spared, old⟩
    · exact ⟨spared, old⟩
  · split
    · exact ⟨spared, old⟩
    · simp only
      split
      · exact ⟨spared, old⟩
      · rename_i account _ _ last ending
        split_ifs
        · exact ⟨spared, old_pushBack old (spared.listed _ last (mem_of_getLast? ending))⟩
        · refine ⟨spared.setList fun _ member => mem_of_mem_dropLast member, ?_⟩
          simp only
          cases next : (s.txLists.read [] account).dropLast.getLast? with
          | none => exact old
          | some txn =>
            exact old_pushBack old (spared.listed _ txn (mem_of_mem_dropLast (mem_of_getLast? next)))

structure Dropping (env : Env) (tp : TxnPool) (state : DropState) : Prop where
  spared : Spared env tp state.pool
  dropList : Old env tp state.dropList
  txnsDropped : Old env tp state.txnsDropped

theorem Dropping.step {state : DropState} (poolConfig : PoolConfig) (dropping : Dropping env tp state) :
    Dropping env tp (Sum.elim id id (dropStep env poolConfig state)) := by
  unfold dropStep
  simp only
  split
  · exact dropping
  · rename_i txn popped
    have cells : Old env tp (Heap.popped (cheaper env) state.dropList) :=
      fun other member => dropping.dropList other (Heap.mem_popped.mp member)
    have gone := cells txn (mem_of_getLast? popped)
    obtain ⟨spared, old⟩ := dropping.spared.dropFromList cells txn state.spare
    have dropped : Old env tp (state.txnsDropped ++ [txn]) := fun other member =>
      (mem_append.mp member).elim (dropping.txnsDropped other) fun last => mem_singleton.mp last ▸ gone
    split
    · rename_i run
      rw [run] at spared old
      exact ⟨spared, old, dropping.txnsDropped⟩
    · rename_i run
      rw [run] at spared old
      split_ifs
      · exact ⟨spared.removeFromPool gone, old, dropped⟩
      · exact ⟨spared.removeFromPool gone, old, dropped⟩

theorem RecentInPool.drop {capacity : Nat → Nat} {fuel : Nat} (inside : RecentInPool tp)
    (followed : Followed env poolConfig tp (.call (.dropTxns cs capacity fuel))) :
    RecentInPool (callPool env config poolConfig tp (.dropTxns cs capacity fuel)) := by
  by_cases room : isTxPoolFull poolConfig tp.txnCount tp.txnSize = false
  · simp only [callPool, dropTxns, if_pos room]
    exact inside.of_maps ⟨rfl, rfl⟩
  · simp only [callPool, dropTxns, if_neg room]
    have spared : Spared env tp tp := ⟨rfl, followed.resolve_left room, inside⟩
    have start : Old env tp (Heap.init (cheaper env) (candidates tp)) := by
      intro txn member
      rcases mem_candidates.mp (Heap.mem_init.mp member) with ⟨owner, list, found, last⟩ | ⟨key, found⟩
      · refine spared.listed owner txn ?_
        rw [GoMap.read, found]
        exact mem_of_getLast? last
      · exact spared.held txn (.inr ⟨key, found⟩)
    cases ended : dropLoop env poolConfig fuel _ with
    | none => exact inside
    | some final =>
      have dropping : Dropping env tp final :=
        dropLoop_keeps (fun _ dropping => dropping.step poolConfig) ⟨spared, start, by simp [Old]⟩ ended
      refine @Spared.recentInPool env tp _ ?_
      exact ((keepsSpared_clean dropping.txnsDropped).bind fun _ => (keeps_modify fun _ spared =>
        ⟨spared.twtMap, spared.held, spared.inPool⟩).bind fun _ => keeps_pure _) final.pool dropping.spared

theorem RecentInPool.step {step : RecentStep} (inside : RecentInPool tp)
    (followed : Followed env poolConfig tp step) : RecentInPool (recentStep env config poolConfig tp step) := by
  match step with
  | .call (.appendTxnPool cs now txn) => exact inside.append followed
  | .call (.dropTxns cs capacity fuel) => exact inside.drop followed
  | .call (.cleanSubmittedTransactions cs txns) =>
    exact inside.clean followed.1 followed.2
  | .removeExpiredTwt now =>
    obtain ⟨same, kept⟩ := expired_kept tp (expiredKeys now tp)
    intro hash recent
    unfold InPool recentStep removeExpiredTwt
    rw [same]
    exact inside hash (kept hash recent)

theorem Reached.recentInPool (reached : Reached env config poolConfig tp) : RecentInPool tp := by
  induction reached with
  | new =>
    intro hash recent
    simp [Recent, TxnPool.new] at recent
  | step _ followed ih => exact ih.step followed

theorem leaves_recordTime {hash : Uint256} (admits : Admits env tp txn replaced tp') :
    Leaves tp (recordTime env now replaced txn tp') hash ↔
      InPool tp hash ∧ ∃ old, replaced = some old ∧ hash = Transaction.hash env old := by
  have same : InPool (recordTime env now replaced txn tp') hash ↔ InPool tp' hash := by
    rw [InPool, txMap_recordTime]
    rfl
  rw [Leaves, same, inPool_admits admits]
  refine and_congr_right fun pooled => ?_
  constructor
  · intro gone
    by_contra kept
    exact gone (.inr ⟨pooled, fun old known same => kept ⟨old, known, same⟩⟩)
  · rintro ⟨old, known, rfl⟩ (same | ⟨_, others⟩)
    · exact admits.other old known same
    · exact others old known rfl

/-- In every pool that is reached, what is recent is pooled, and the next append that meets the condition changes what is
recent by the transaction that it adds and by the one that this transaction has replaced, and not at all if it adds
none. -/
theorem recent_follows_pool (reached : Reached env config poolConfig tp) : RecentInPool tp ∧
    ∀ cs now txn, Followed env poolConfig tp (.call (.appendTxnPool cs now txn)) →
      ∀ result tp', appendTxnPool env config poolConfig cs now txn tp = (result, tp') →
        (result = .ok () ∧ Poolable env txn →
          (∀ hash, Recent tp' hash ↔ hash = Transaction.hash env txn ∨ Recent tp hash ∧ ¬Leaves tp tp' hash) ∧
          ∀ hash hash', Leaves tp tp' hash → Leaves tp tp' hash' → hash = hash') ∧
        (¬(result = .ok () ∧ Poolable env txn) → tp'.twtMap = tp.twtMap) := by
  have inside := reached.recentInPool
  refine ⟨inside, fun cs now txn names result tp' ran => ?_⟩
  cases result with
  | error fault =>
    refine ⟨fun returns => (by cases returns.1), fun _ => ?_⟩
    exact ((triple_appendTxnPool names).of_failed rfl ran).2
  | ok _ =>
    obtain ⟨replaced, between, admits, rfl⟩ := (triple_appendTxnPool names).of_returned rfl ran
    refine ⟨fun _ => ⟨fun hash => ?_, fun hash hash' leaves leaves' => ?_⟩, fun none => ?_⟩
    · have same : Recent between hash ↔ Recent tp hash := by rw [Recent, admits.twtMap]; rfl
      rw [recent_recordTime admits.other, same]
      refine or_congr_right (and_congr_right fun recent => ?_)
      rw [leaves_recordTime admits]
      simp [inside hash recent]
    · obtain ⟨_, old, known, rfl⟩ := (leaves_recordTime admits).mp leaves
      obtain ⟨_, old', known', rfl⟩ := (leaves_recordTime admits).mp leaves'
      obtain rfl := Option.some.inj (known.symm.trans known')
      rfl
    · exact absurd ⟨rfl, admits.poolable⟩ none

end

end Nkn.TxnPool

namespace Nkn.PooledTransfers

open Config TxnPool

def roomForTwo : PoolConfig := { poolConfig with txPoolTotalTxCap := 2 }

def appended (transfer : SignedTransfer) (tp : TxnPool) : TxnPool :=
  callPool tables.env mainnet roomForTwo tp (.appendTxnPool ledger 0 transfer.txn)

def evicted : TxnPool :=
  callPool tables.env mainnet roomForTwo (appended third (appended second (appended first .new)))
    (.dropTxns ledger id 1)

/-- The transfer that is dropped stays among the recent ones. -/
theorem dropped_stays_recent :
    Recent evicted third.hash ∧ ¬InPool evicted third.hash ∧ ¬RecentInPool evicted := by
  have facts : (evicted.twtMap.load third.hash).isSome = true ∧ (evicted.txMap.load third.hash).isSome = false := by
    decide +kernel
  have gone : ¬InPool evicted third.hash := by
    rw [InPool, facts.2]
    exact Bool.false_ne_true
  exact ⟨facts.1, gone, fun inside => gone (inside third.hash facts.1)⟩

theorem nonces_unused : sameNonce tables.env .new first.txn (.transferAsset first.payload) = .ok none ∧
    sameNonce tables.env (append first .new).2 second.txn (.transferAsset second.payload) = .ok none ∧
    unpack tables.env first.txn.unsignedTx.payload = .ok (.transferAsset first.payload) ∧
    unpack tables.env second.txn.unsignedTx.payload = .ok (.transferAsset second.payload) := by
  decide +kernel

variable {transfer : SignedTransfer}

variable {tp : TxnPool}

theorem followed_transfer
    (unused : sameNonce tables.env tp transfer.txn (.transferAsset transfer.payload) = .ok none)
    (unpacked : unpack tables.env transfer.txn.unsignedTx.payload = .ok (.transferAsset transfer.payload)) :
    Followed tables.env poolConfig tp (.call (.appendTxnPool ledger 0 transfer.txn)) := by
  intro message same
  obtain rfl := Except.ok.inj (unpacked.symm.trans same)
  intro old found
  rw [unused] at found
  cases found

theorem append_eq (succeeds : (append transfer tp).1 = .ok ()) :
    appendTxnPool tables.env mainnet poolConfig ledger 0 transfer.txn tp = (.ok (), (append transfer tp).2) :=
  Prod.ext succeeds rfl

theorem reached_append (reached : Reached tables.env mainnet poolConfig tp)
    (followed : Followed tables.env poolConfig tp (.call (.appendTxnPool ledger 0 transfer.txn))) :
    Reached tables.env mainnet poolConfig (append transfer tp).2 :=
  .step reached followed

theorem recent_follows_pool_second :
    Reached tables.env mainnet poolConfig (append first .new).2 ∧ RecentInPool (append first .new).2 ∧
    ∀ hash, Recent pool hash ↔ hash = Transaction.hash tables.env second.txn ∨
      Recent (append first .new).2 hash ∧ ¬Leaves (append first .new).2 pool hash := by
  obtain ⟨unused, unused', unpacked, unpacked'⟩ := nonces_unused
  have succeeds := append_eq runs.1.2.1
  have reached := reached_append .new (followed_transfer unused unpacked)
  obtain ⟨inside, follows⟩ := recent_follows_pool reached
  obtain ⟨changes, -⟩ := follows ledger 0 second.txn (followed_transfer unused' unpacked') _ _ succeeds
  exact ⟨reached, inside, (changes ⟨rfl, _, unpacked', trivial⟩).1⟩

end Nkn.PooledTransfers
