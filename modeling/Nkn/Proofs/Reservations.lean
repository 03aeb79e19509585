import Nkn.Model.Reservations
import Nkn.Proofs.Totals

/-! # What a transaction reserves

`VerifyTransactionWithBlock` splits in two: what a transaction asks for, which the ledger decides, and whether the state
of the block has it to give. -/

namespace Nkn.BlockValidationState

open Go Outcome Store List

variable {env : Env} {config : Config} {cs : ChainStore} {bvs bvs' : BlockValidationState} {txn : Transaction}
  {message : Pb.Message} {height : UInt32} {changes : List Change}

def counted (env : Env) (cs : ChainStore) (bvs : BlockValidationState) : Pb.Message → BlockValidationState
  | .subscribe payload =>
    if cs.states.isSubscribed env payload.topic payload.bucket payload.subscriber payload.identifier then bvs
    else bvs.countSubscription payload.topic 1
  | .unsubscribe payload => bvs.countSubscription payload.topic (-1)
  | _ => bvs

def amountsOf (sender : Uint160) (amount npAmount fee : Int64) : List Change :=
  if amount + npAmount + fee > 0 then [.amount sender (amount + fee) npAmount] else []

def reservation (env : Env) (config : Config) (cs : ChainStore) (txn : Transaction) (height : UInt32) :
    Outcome (List Change) := do
  let payload ← unpack env txn.unsignedTx.payload
  let found ← new.verifyMessage env config cs txn height payload
  .ok (amountsOf (Transaction.programHash env payload) found.amount found.npAmount txn.unsignedTx.fee ++ found.changes ++
    [.txn (Transaction.hash env txn)])

def Free (config : Config) (cs : ChainStore) (height : UInt32) (bvs : BlockValidationState) : Change → Prop
  | .txn hash => bvs.txnlist.load hash = none
  | .name name (some registrant) =>
    bvs.registeredNames.load name = none ∧ (config.isLegacy height = true → bvs.nameRegistrants.load registrant = none)
  | .name _ none => True
  | .generateID publicKey => bvs.generateIDs.load publicKey = none
  | .subscription key _ => bvs.subscriptions.load key = none
  | .nanoPay key _ _ => bvs.nanoPays.load key = none
  | .amount sender total nanoPay =>
    bvs.totalAmount.read 0 sender + bvs.nanoPayAmount.read 0 sender + total + nanoPay ≤ cs.getBalance sender

theorem verifyMessage_eq_ok {found : Finding} : bvs.verifyMessage env config cs txn height message = .ok found ↔
      ∃ alone, new.verifyMessage env config cs txn height message = .ok alone ∧
        (∀ change ∈ alone.changes, Free config cs height bvs change) ∧
        found = { alone with bvs := counted env cs bvs message } := by
  have ok {result : Finding} : (Except.ok result : Outcome Finding) = .ok found ↔ found = result := by
    rw [Except.ok.injEq, eq_comm]
  cases message with
  | coinbase _ =>
    simp only [verifyMessage, bind_eq_ok]
    split_ifs
    · simp
    · simp only [rejectIf_bind_eq_ok, ok, Except.ok.injEq, counted]
      constructor
      · rintro ⟨donation, current, reward, rfl⟩
        exact ⟨_, ⟨donation, current, reward, rfl⟩, by simp, rfl⟩
      · rintro ⟨_, ⟨donation, current, reward, rfl⟩, -, rfl⟩
        exact ⟨donation, current, reward, rfl⟩
  | transferAsset _ | transferName _ | sigChainTxn _ | issueAsset _ =>
    simp [verifyMessage, ok, counted, Free]
  | registerName _ | deleteName _ =>
    simp [verifyMessage, checkName, bind_eq_ok, ok, counted, Free, new, and_assoc]
  | subscribe _ | generateID _ =>
    simp [verifyMessage, bind_eq_ok, ok, counted, Free, new]
  | unsubscribe _ =>
    simp [verifyMessage, bind_eq_ok, ok, counted, Free, new, and_left_comm]
  | nanoPay _ =>
    simp only [verifyMessage, bind_eq_ok, rejectIf_eq_ok, ok, counted, Free, new]
    simp
    tauto

theorem verifyAmount_eq_ok_iff {sender : Uint160} {amount npAmount fee : Int64} {amounts : List Change} :
    bvs.verifyAmount cs sender amount npAmount fee = .ok amounts ↔
      (∀ change ∈ amountsOf sender amount npAmount fee, Free config cs height bvs change) ∧
        amounts = amountsOf sender amount npAmount fee := by
  rw [verifyAmount_eq_ok, amountsOf]
  split_ifs
  · have sum : bvs.totalAmount.read 0 sender + bvs.nanoPayAmount.read 0 sender + amount + npAmount + fee =
        bvs.totalAmount.read 0 sender + bvs.nanoPayAmount.read 0 sender + (amount + fee) + npAmount := by
      ac_rfl
    simp [Free, sum]
  · simp

theorem verify_iff : bvs.verifyTransactionWithBlock env config cs txn height = .ok bvs' ↔
      ∃ message changes, unpack env txn.unsignedTx.payload = .ok message ∧
        reservation env config cs txn height = .ok changes ∧ (∀ change ∈ changes, Free config cs height bvs change) ∧
        bvs' = { counted env cs bvs message with changes := bvs.changes ++ changes } := by
  cases unpacked : unpack env txn.unsignedTx.payload with
  | error _ =>
    simp only [verifyTransactionWithBlock, unpacked, bind_eq_ok]
    simp
  | ok message =>
    have pending : (counted env cs bvs message).changes = bvs.changes := by
      cases message <;> simp only [counted] <;> try split_ifs
      all_goals rfl
    have reserves {changes : List Change} : reservation env config cs txn height = .ok changes ↔
        ∃ alone, new.verifyMessage env config cs txn height message = .ok alone ∧
          amountsOf (Transaction.programHash env message) alone.amount alone.npAmount txn.unsignedTx.fee ++
            alone.changes ++ [.txn (Transaction.hash env txn)] = changes := by
      simp only [reservation, unpacked, ok_bind, bind_eq_ok, Except.ok.injEq]
    rw [verifyTransactionWithBlock_eq_ok unpacked]
    constructor
    · rintro ⟨fresh, _, judged, _, funds, rfl⟩
      obtain ⟨alone, found, free, rfl⟩ := verifyMessage_eq_ok.mp judged
      obtain ⟨covered, rfl⟩ := (@verifyAmount_eq_ok_iff config _ _ height _ _ _ _ _).mp funds
      refine ⟨message, _, rfl, reserves.mpr ⟨alone, found, rfl⟩, ?_, ?_⟩
      · simp only [forall_mem_append, forall_mem_singleton]
        exact ⟨⟨covered, free⟩, fresh⟩
      · simp [pending]
    · rintro ⟨_, _, same, asks, free, rfl⟩
      obtain rfl := Except.ok.inj same
      obtain ⟨alone, found, rfl⟩ := reserves.mp asks
      simp only [forall_mem_append, forall_mem_singleton] at free
      refine ⟨free.2, _, verifyMessage_eq_ok.mpr ⟨alone, found, free.1.2, rfl⟩, _,
        (@verifyAmount_eq_ok_iff config _ _ height _ _ _ _ _).mpr ⟨free.1.1, rfl⟩, ?_⟩
      simp [pending]

def held (bvs : BlockValidationState) : BlockValidationState :=
  { bvs with changes := [], subscriptionCountChange := ∅, subscriptionCount := ∅ }

variable {change : Change}

theorem held_counted : (counted env cs bvs message).held = bvs.held := by
  cases message <;> simp only [counted] <;> try split_ifs
  all_goals rfl

theorem held_apply (change : Change) : (bvs.apply change).held = bvs.held.apply change := by
  cases change <;> rfl

theorem held_foldl_apply : (changes.foldl BlockValidationState.apply bvs).held =
    changes.foldl BlockValidationState.apply bvs.held := by
  induction changes generalizing bvs with
  | nil => rfl
  | cons _ _ ih => rw [foldl_cons, ih, held_apply, foldl_cons]

theorem held_commit : bvs.commit.held = bvs.changes.foldl BlockValidationState.apply bvs.held := held_foldl_apply

theorem load_store_eq_none {K V : Type} [DecidableEq K] {map : GoMap K V} {key key' : K} {value : V} :
    (map.store key value).load key' = none ↔ map.load key' = none ∧ key ≠ key' := by
  rw [GoMap.load_store]
  split_ifs with same
  · simp [same]
  · simp [Ne.symm same]

end Nkn.BlockValidationState
