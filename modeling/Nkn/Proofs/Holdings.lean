import Nkn.Proofs.Reservations

/-! # What a validation state holds for transactions

A state that transactions are verified into one after the other holds a set of keys and sums of amounts for them. -/

namespace Nkn.BlockValidationState

open Go Outcome Store List

section

variable {env : Env} {config : Config} {cs : ChainStore} {bvs bvs' : BlockValidationState} {txn : Transaction}
  {message : Pb.Message} {height : UInt32} {change : Change} {changes : List Change} {addr : Uint160}

inductive Key where
  | txn (hash : Uint256)
  | name (name : Bytes)
  | generateID (publicKey : Bytes)
  | subscription (key : SubscriptionKey)
  | nanoPay (key : NanoPayKey)
deriving DecidableEq

def keyOf : Change → Option Key
  | .txn hash => some (.txn hash)
  | .name name _ => some (.name name)
  | .generateID publicKey => some (.generateID publicKey)
  | .subscription key _ => some (.subscription key)
  | .nanoPay key _ _ => some (.nanoPay key)
  | .amount .. => none

def checkedKey : Change → Option Key
  | .name _ none => none
  | change => keyOf change

def Holds (bvs : BlockValidationState) : Key → Prop
  | .txn hash => bvs.txnlist.load hash ≠ none
  | .name name => bvs.registeredNames.load name ≠ none
  | .generateID publicKey => bvs.generateIDs.load publicKey ≠ none
  | .subscription key => bvs.subscriptions.load key ≠ none
  | .nanoPay key => bvs.nanoPays.load key ≠ none

def counts (addr : Uint160) : Change → Int64 × Int64
  | .amount sender total nanoPay => if sender = addr then (total, nanoPay) else (0, 0)
  | _ => (0, 0)

def paymentOf : Change → Option (Sigma fun _ : Uint256 => Pb.NanoPay)
  | .nanoPay _ hash payload => some ⟨hash, payload⟩
  | _ => none

theorem free_record_iff (current : config.isLegacy height = false)
    (record : ∀ sender total nanoPay, change ≠ .amount sender total nanoPay) :
    Free config cs height bvs change ↔ ∀ key, checkedKey change = some key → ¬Holds bvs key := by
  rcases change with _ | ⟨_, _ | _⟩ | _ | _ | _ | _
  case amount => exact absurd rfl (record _ _ _)
  all_goals simp [Free, checkedKey, keyOf, Holds, current]

variable {key : Key}

theorem holds_apply : Holds (bvs.apply change) key ↔ Holds bvs key ∨ keyOf change = some key := by
  rcases change with _ | ⟨_, _ | _⟩ | _ | _ | _ | _ <;> cases key <;>
    simp only [apply, Holds, keyOf, ne_eq, load_store_eq_none, Option.some.injEq, Key.txn.injEq, Key.name.injEq,
      Key.generateID.injEq, Key.subscription.injEq, Key.nanoPay.injEq, reduceCtorEq, or_false] <;> tauto

theorem holds_foldl_apply :
    Holds (changes.foldl BlockValidationState.apply bvs) key ↔ Holds bvs key ∨ key ∈ changes.filterMap keyOf := by
  induction changes generalizing bvs with
  | nil => simp
  | cons _ _ ih =>
    rw [foldl_cons, ih, holds_apply, mem_filterMap, mem_filterMap]
    simp only [exists_mem_cons_iff, or_assoc]

theorem reads_foldl (addr : Uint160) : (changes.foldl BlockValidationState.apply bvs).totalAmount.read 0 addr =
        bvs.totalAmount.read 0 addr + (changes.map fun change => (counts addr change).1).sum ∧
      (changes.foldl BlockValidationState.apply bvs).nanoPayAmount.read 0 addr =
        bvs.nanoPayAmount.read 0 addr + (changes.map fun change => (counts addr change).2).sum := by
  induction changes generalizing bvs with
  | nil => simp
  | cons change _ ih =>
    obtain ⟨total, nanoPay⟩ := @ih (bvs.apply change)
    rw [foldl_cons, total, nanoPay, map_cons, map_cons, sum_cons, sum_cons, ← Int64.add_assoc, ← Int64.add_assoc]
    cases change with
    | amount sender _ _ =>
      simp only [apply, read_addTo, counts, @eq_comm _ sender addr]
      split_ifs <;> simp
    | _ => simp [apply, counts]

theorem holds_held : Holds bvs.held key ↔ Holds bvs key := by cases key <;> exact Iff.rfl

def records (env : Env) (cs : ChainStore) (txn : Transaction) : Pb.Message → List Change
  | .registerName payload => [.name payload.name (some (hexEncodeToString payload.registrant))]
  | .transferName payload => [.name payload.name none]
  | .deleteName payload => [.name payload.name (some (hexEncodeToString payload.registrant))]
  | .subscribe payload =>
    [.subscription ⟨payload.topic, payload.bucket, payload.subscriber, payload.identifier⟩
      ⟨!cs.states.isSubscribed env payload.topic payload.bucket payload.subscriber payload.identifier, payload.metadata⟩]
  | .unsubscribe payload => [.subscription ⟨payload.topic, 0, payload.subscriber, payload.identifier⟩ ⟨false, []⟩]
  | .generateID payload => [.generateID (hexEncodeToString payload.publicKey)]
  | .nanoPay payload =>
    [.nanoPay ⟨hexEncodeToString payload.sender, hexEncodeToString payload.recipient, payload.id⟩
      (Transaction.hash env txn) payload]
  | .coinbase _ | .transferAsset _ | .sigChainTxn _ | .issueAsset _ => []

/-- A transaction with what it asks for, and with amounts in the range that `VerifyTransaction` lets through. -/
structure Entry (env : Env) (config : Config) (cs : ChainStore) (height : UInt32) where
  txn : Transaction
  message : Pb.Message
  changes : List Change
  unpacked : unpack env txn.unsignedTx.payload = .ok message
  reserved : reservation env config cs txn height = .ok changes
  plain : AmountOk (plainAmount message)
  claim : AmountOk (claimed cs.states message)
  fee : AmountOk txn.unsignedTx.fee

namespace Entry

variable (entry : Entry env config cs height)

def sender : Uint160 := Transaction.programHash env entry.message

def keys : List Key := entry.changes.filterMap keyOf

def total (addr : Uint160) : Int64 := (entry.changes.map fun change => (counts addr change).1).sum

def nanoPay (addr : Uint160) : Int64 := (entry.changes.map fun change => (counts addr change).2).sum

def payments : List (Sigma fun _ : Uint256 => Pb.NanoPay) := entry.changes.filterMap paymentOf

theorem changes_eq : entry.changes =
    amountsOf entry.sender (plainAmount entry.message) (claimed cs.states entry.message) entry.txn.unsignedTx.fee ++
      records env cs entry.txn entry.message ++ [.txn (Transaction.hash env entry.txn)] := by
  have reserved := entry.reserved
  simp only [reservation, entry.unpacked, ok_bind, bind_eq_ok, Except.ok.injEq] at reserved
  obtain ⟨found, verified, built⟩ := reserved
  have foundOk := verifyMessage_foundOk verified
  have same : found.changes = records env cs entry.txn entry.message := by
    cases shape : entry.message <;> rw [shape] at verified <;>
      simp only [verifyMessage, checkName, bind_eq_ok, rejectIf_eq_ok, Except.ok.injEq] at verified
    case coinbase =>
      obtain ⟨_, -, verified⟩ := verified
      split_ifs at verified
      · cases verified
      · simp only [bind_eq_ok, rejectIf_eq_ok, Except.ok.injEq] at verified
        obtain ⟨_, -, rfl⟩ := verified
        rfl
    all_goals
      first
        | (obtain rfl := verified; rfl)
        | (obtain ⟨_, -, rfl⟩ := verified; rfl)
        | (obtain ⟨_, -, _, -, rfl⟩ := verified; rfl)
        | (obtain ⟨_, -, _, -, _, -, _, -, rfl⟩ := verified; rfl)
  rw [← built, foundOk.amount, foundOk.npAmount, same]
  rfl

theorem counts_records {change : Change} (member : change ∈ records env cs txn message) : counts addr change = (0, 0) := by
  cases message <;> simp only [records, mem_singleton, not_mem_nil] at member <;> subst member <;> rfl

theorem counts_amountsOf {sender : Uint160} {amount npAmount fee : Int64} (amountOk : AmountOk amount)
    (npAmountOk : AmountOk npAmount) (feeOk : AmountOk fee) :
    ((amountsOf sender amount npAmount fee).map fun change => (counts addr change).1).sum =
        (if addr = sender then amount + fee else 0) ∧
      ((amountsOf sender amount npAmount fee).map fun change => (counts addr change).2).sum =
        if addr = sender then npAmount else 0 := by
  unfold amountsOf
  split_ifs with positive same same
  · simp [counts, same]
  · simp [counts, Ne.symm same]
  all_goals
    unfold AmountOk maxAmount at amountOk npAmountOk feeOk
    have asked : (amount + npAmount + fee).toInt = amount.toInt + npAmount.toInt + fee.toInt :=
      toInt_eq_of_fits (by unfold Fits; omega) (by simp only [Int64.ofInt_add, Int64.ofInt_toInt])
    rw [gt_iff_lt, lt_iff_toInt, asked, toInt_zero] at positive
    obtain rfl : amount = 0 := Int64.toInt_inj.mp (by rw [toInt_zero]; omega)
    obtain rfl : npAmount = 0 := Int64.toInt_inj.mp (by rw [toInt_zero]; omega)
    obtain rfl : fee = 0 := Int64.toInt_inj.mp (by rw [toInt_zero]; omega)
    simp

theorem counts_eq (addr : Uint160) :
    entry.total addr = (if addr = entry.sender then plainAmount entry.message + entry.txn.unsignedTx.fee else 0) ∧
      entry.nanoPay addr = if addr = entry.sender then claimed cs.states entry.message else 0 := by
  obtain ⟨total, nanoPay⟩ := @counts_amountsOf addr entry.sender _ _ _ entry.plain entry.claim entry.fee
  have none (part : Int64 × Int64 → Int64) (zero : part (0, 0) = 0) :
      ((records env cs entry.txn entry.message).map fun change => part (counts addr change)).sum = 0 := by
    refine sum_eq_zero fun value member => ?_
    obtain ⟨_, recorded, rfl⟩ := mem_map.mp member
    rw [counts_records recorded, zero]
  constructor
  · rw [Entry.total, entry.changes_eq, map_append, map_append, sum_append, sum_append, total, none Prod.fst rfl]
    simp [counts]
  · rw [Entry.nanoPay, entry.changes_eq, map_append, map_append, sum_append, sum_append, nanoPay, none Prod.snd rfl]
    simp [counts]

theorem keys_eq : entry.keys =
    (records env cs entry.txn entry.message).filterMap keyOf ++ [.txn (Transaction.hash env entry.txn)] := by
  rw [keys, entry.changes_eq, filterMap_append, filterMap_append, amountsOf]
  split_ifs <;> simp [keyOf]

theorem payments_eq : entry.payments = (records env cs entry.txn entry.message).filterMap paymentOf := by
  have none (changes : List Change) (plain : ∀ change ∈ changes, paymentOf change = none) :
      changes.filterMap paymentOf = [] := filterMap_eq_nil_iff.mpr plain
  rw [payments, entry.changes_eq, filterMap_append, filterMap_append,
    none [.txn (Transaction.hash env entry.txn)] (by simp [paymentOf]), amountsOf]
  split_ifs
  · rw [none [.amount _ _ _] (by simp [paymentOf]), nil_append, append_nil]
  · simp

def totalInt (addr : Uint160) : ℤ := (entry.total addr).toInt

theorem totalInt_eq (addr : Uint160) : entry.totalInt addr = if addr = entry.sender then
    (plainAmount entry.message).toInt + entry.txn.unsignedTx.fee.toInt else 0 := by
  rw [totalInt, (entry.counts_eq addr).1]
  split_ifs
  · exact entry.plain.toInt_add entry.fee
  · exact toInt_zero

theorem totalInt_nonneg (addr : Uint160) : 0 ≤ entry.totalInt addr := by
  have plain := entry.plain
  have fee := entry.fee
  unfold AmountOk at plain fee
  rw [totalInt_eq]
  split_ifs <;> omega

end Entry

/-- A state holds the keys and the amounts of transactions, apart from the sums of the nano pays. Only names may be held
for two of them. -/
structure HoldsAll (bvs : BlockValidationState) (entries : List (Entry env config cs height)) : Prop where
  keys : ∀ key, Holds bvs key ↔ ∃ entry ∈ entries, key ∈ entry.keys
  apart : entries.Pairwise fun entry entry' => ∀ key ∈ entry.keys, key ∈ entry'.keys → ∃ name, key = .name name
  total : ∀ addr, bvs.totalAmount.read 0 addr = (entries.map fun entry => entry.total addr).sum
  payments : bvs.nanoPayPayloads.entries.Perm (entries.flatMap Entry.payments)
  within : ∀ addr, (entries.map fun entry => entry.totalInt addr).sum ≤ balanceBound
  counted : bvs.nanoPayPayloads.entries ≠ [] → bvs.nanoPayAmount.entries ≠ []

structure Stands (bvs : BlockValidationState) (entries : List (Entry env config cs height)) : Prop extends
    HoldsAll bvs entries where
  nanoPay : ∀ addr, bvs.nanoPayAmount.read 0 addr = (entries.map fun entry => entry.nanoPay addr).sum

def Alike (config : Config) (cs : ChainStore) (height : UInt32) (bvs bvs' : BlockValidationState) : Prop :=
  ∀ change, Free config cs height bvs change ↔ Free config cs height bvs' change

variable {entries rest : List (Entry env config cs height)} {entry : Entry env config cs height}

theorem Stands.alike (current : config.isLegacy height = false) (stands : Stands bvs entries) (stands' : Stands bvs' entries) :
    Alike config cs height bvs bvs' := by
  intro change
  cases shape : change with
  | amount _ total nanoPay =>
    simp only [Free, stands.total, stands.nanoPay, stands'.total, stands'.nanoPay]
  | _ =>
    rw [free_record_iff current (by simp), free_record_iff current (by simp)]
    simp only [stands.keys, stands'.keys]

theorem Alike.accepts (alike : Alike config cs height bvs bvs') (txn : Transaction) :
    (bvs.verifyTransactionWithBlock env config cs txn height).isOk =
      (bvs'.verifyTransactionWithBlock env config cs txn height).isOk := by
  rw [Bool.eq_iff_iff, isOk_iff, isOk_iff]
  simp only [verify_iff, alike _]
  constructor
  · rintro ⟨_, message, changes, unpacked, asked, free, -⟩
    exact ⟨_, message, changes, unpacked, asked, free, rfl⟩
  · rintro ⟨_, message, changes, unpacked, asked, free, -⟩
    exact ⟨_, message, changes, unpacked, asked, free, rfl⟩

variable {entries' : List (Entry env config cs height)}

theorem HoldsAll.perm (holds : HoldsAll bvs entries) (same : entries.Perm entries') : HoldsAll bvs entries' where
  keys key := by rw [holds.keys]; simp only [same.mem_iff]
  apart := (same.pairwise_iff fun symm key mem mem' => symm key mem' mem).mp holds.apart
  total addr := by rw [holds.total, sum_perm (same.map _)]
  payments := holds.payments.trans (same.flatMap_right _)
  within addr := by rw [← (same.map _).sum_eq]; exact holds.within addr
  counted := holds.counted

theorem Stands.perm (stands : Stands bvs entries) (same : entries.Perm entries') : Stands bvs entries' where
  toHoldsAll := stands.toHoldsAll.perm same
  nanoPay addr := by rw [stands.nanoPay, sum_perm (same.map _)]

theorem toInt_sum (within : (entries.map fun entry => entry.totalInt addr).sum ≤ balanceBound) :
    ((entries.map fun entry => entry.total addr).sum : Int64).toInt = (entries.map fun entry => entry.totalInt addr).sum ∧
      0 ≤ (entries.map fun entry => entry.totalInt addr).sum := by
  induction entries with
  | nil => simp
  | cons entry _ ih =>
    rw [map_cons, sum_cons] at within ⊢
    have nonneg := entry.totalInt_nonneg addr
    obtain ⟨same, _⟩ := ih (by omega)
    rw [map_cons, sum_cons]
    refine ⟨?_, by omega⟩
    refine toInt_eq_of_fits (by unfold Fits; unfold balanceBound at within; omega) ?_
    rw [Int64.ofInt_add, ← same, Entry.totalInt, Int64.ofInt_toInt, Int64.ofInt_toInt]

theorem holds_releaseMessage :
    Holds (releaseMessage env { bvs with txnlist := bvs.txnlist.delete (Transaction.hash env entry.txn) } entry.txn
      entry.message).2 key ↔ Holds bvs key ∧ key ∉ entry.keys := by
  rw [Entry.keys_eq]
  cases shape : entry.message with
  | subscribe payload | unsubscribe payload =>
    simp only [releaseMessage, records]
    split <;> cases key <;> simp_all [Holds, keyOf] <;> grind
  | _ => cases key <;> simp [Holds, keyOf, releaseMessage, records] <;> grind

theorem releaseMessage_spec (env : Env) (bvs : BlockValidationState) (txn : Transaction) (message : Pb.Message) :
    (releaseMessage env bvs txn message).1 = plainAmount message ∧
      (releaseMessage env bvs txn message).2.txnlist = bvs.txnlist ∧
      (releaseMessage env bvs txn message).2.totalAmount = bvs.totalAmount ∧
      (releaseMessage env bvs txn message).2.nanoPayPayloads.entries.Sublist bvs.nanoPayPayloads.entries := by
  cases message with
  | subscribe payload | unsubscribe payload =>
    simp only [releaseMessage]
    split <;> exact ⟨rfl, rfl, rfl, .refl _⟩
  | nanoPay _ => exact ⟨rfl, rfl, rfl, kerase_sublist _ _⟩
  | _ => exact ⟨rfl, rfl, rfl, .refl _⟩

theorem nanoPayAmount_releaseMessage (env : Env) (bvs : BlockValidationState) (txn : Transaction) (message : Pb.Message) :
    (releaseMessage env bvs txn message).2.nanoPayAmount = bvs.nanoPayAmount := by
  cases message with
  | subscribe payload | unsubscribe payload =>
    simp only [releaseMessage]
    split <;> rfl
  | _ => rfl

theorem payments_releaseMessage (holds : HoldsAll bvs (entry :: rest)) :
    (releaseMessage env { bvs with txnlist := bvs.txnlist.delete (Transaction.hash env entry.txn) } entry.txn
      entry.message).2.nanoPayPayloads.entries.Perm (rest.flatMap Entry.payments) := by
  have payments := holds.payments
  rw [flatMap_cons, Entry.payments_eq] at payments
  cases shape : entry.message with
  | nanoPay payload =>
    rw [shape] at payments
    have payments : bvs.nanoPayPayloads.entries.Perm
      (⟨Transaction.hash env entry.txn, payload⟩ :: rest.flatMap Entry.payments) := payments
    have erased := payments.kerase bvs.nanoPayPayloads.nodupKeys (a := Transaction.hash env entry.txn)
    have cut : kerase (Transaction.hash env entry.txn)
      (⟨Transaction.hash env entry.txn, payload⟩ :: rest.flatMap Entry.payments) = rest.flatMap Entry.payments :=
      kerase_cons_eq rfl
    rw [cut] at erased
    exact erased
  | subscribe payload | unsubscribe payload =>
    rw [shape] at payments
    simp only [releaseMessage]
    split <;> exact payments
  | _ =>
    rw [shape] at payments
    exact payments

theorem releaseAmount_spec {sender : Uint160} {amount fee : Int64} (amountOk : AmountOk amount) (feeOk : AmountOk fee)
    (enough : amount + fee ≤ bvs.totalAmount.read 0 sender) :
    ∃ totalAmount, releaseAmount sender amount fee bvs = (.ok (), { bvs with totalAmount }) ∧
      ∀ addr, totalAmount.read 0 addr = bvs.totalAmount.read 0 addr - if addr = sender then amount + fee else 0 := by
  have whole := amountOk.toInt_add feeOk
  unfold AmountOk at amountOk feeOk
  unfold releaseAmount
  split_ifs with charged
  · cases stored : bvs.totalAmount.load sender with
    | none =>
      rw [GoMap.read, stored, Option.getD_none, le_iff_toInt, whole, toInt_zero] at enough
      rw [gt_iff_lt, gt_iff_lt, lt_iff_toInt, lt_iff_toInt, toInt_zero] at charged
      omega
    | some total =>
      have known : bvs.totalAmount.read 0 sender = total := by simp [GoMap.read, stored]
      rw [known] at enough
      simp only [ge_iff_le, enough, if_true]
      refine ⟨_, rfl, fun addr => ?_⟩
      by_cases same : addr = sender
      · subst same
        rw [if_pos rfl, known]
        split_ifs with nothing
        · simp [GoMap.read, nothing]
        · simp [GoMap.read]
      · rw [if_neg same]
        split_ifs <;> simp [GoMap.read, same]
  · refine ⟨bvs.totalAmount, rfl, fun addr => ?_⟩
    rw [gt_iff_lt, gt_iff_lt, lt_iff_toInt, lt_iff_toInt, toInt_zero] at charged
    obtain rfl : amount = 0 := Int64.toInt_inj.mp (by rw [toInt_zero]; omega)
    obtain rfl : fee = 0 := Int64.toInt_inj.mp (by rw [toInt_zero]; omega)
    split_ifs <;> simp

variable (holds : HoldsAll bvs (entry :: rest))

include holds

variable {after : BlockValidationState}

theorem HoldsAll.tail (named : ∀ name, .name name ∈ entry.keys → ∀ other ∈ rest, .name name ∉ other.keys)
    (released : ∀ key, Holds after key ↔ Holds bvs key ∧ key ∉ entry.keys)
    (reads : ∀ addr, after.totalAmount.read 0 addr = bvs.totalAmount.read 0 addr - entry.total addr)
    (payments : after.nanoPayPayloads.entries.Perm (rest.flatMap Entry.payments))
    (nanoPays : after.nanoPayAmount = bvs.nanoPayAmount) : HoldsAll after rest := by
  obtain ⟨first, apart⟩ := pairwise_cons.mp holds.apart
  refine ⟨fun key => ?_, apart, fun addr => ?_, payments, fun addr => ?_, fun paid => ?_⟩
  · rw [released, holds.keys]
    constructor
    · rintro ⟨⟨other, member, held⟩, unheld⟩
      rcases mem_cons.mp member with rfl | member
      · exact absurd held unheld
      · exact ⟨other, member, held⟩
    · rintro ⟨other, member, held⟩
      refine ⟨⟨other, mem_cons_of_mem _ member, held⟩, fun own => ?_⟩
      obtain ⟨name, rfl⟩ := first other member key own held
      exact named name own other member held
  · rw [reads, holds.total, map_cons, sum_cons]
    grind
  · have within := holds.within addr
    have nonneg := entry.totalInt_nonneg addr
    rw [map_cons, sum_cons] at within
    omega
  · rw [nanoPays]
    refine holds.counted fun none => paid ?_
    have all := holds.payments
    rw [none, flatMap_cons] at all
    rw [(append_eq_nil_iff.mp all.symm.eq_nil).2] at payments
    exact payments.eq_nil

theorem HoldsAll.enough :
    plainAmount entry.message + entry.txn.unsignedTx.fee ≤ bvs.totalAmount.read 0 entry.sender := by
  have within := holds.within entry.sender
  have first := entry.totalInt_nonneg entry.sender
  obtain ⟨sum, -⟩ := toInt_sum within
  rw [map_cons, sum_cons] at within
  obtain ⟨-, _⟩ := @toInt_sum env config cs height entry.sender rest (by omega)
  have own := (entry.counts_eq entry.sender).1
  rw [if_pos rfl] at own
  rw [le_iff_toInt, holds.total, sum, map_cons, sum_cons, ← own]
  have whole : (entry.total entry.sender).toInt = entry.totalInt entry.sender := rfl
  omega

theorem release_entry (named : ∀ name, .name name ∈ entry.keys → ∀ other ∈ rest, .name name ∉ other.keys) :
    ∃ bvs', release env entry.txn bvs = (.ok (), bvs') ∧ HoldsAll bvs' rest := by
  have hashKey : Key.txn (Transaction.hash env entry.txn) ∈ entry.keys := by simp [Entry.keys_eq]
  obtain ⟨_, listed⟩ := Option.ne_none_iff_exists'.mp ((holds.keys _).mpr ⟨entry, mem_cons_self, hashKey⟩)
  have sender : Transaction.getProgramHashes env entry.txn = .ok [entry.sender] := by
    simp [Transaction.getProgramHashes, entry.unpacked, Entry.sender]
  simp only [release, Proc.gets_bind, listed, Proc.modify_bind, entry.unpacked, sender, Transaction.firstHash,
    Proc.lift_ok_bind]
  obtain ⟨amount, -, totals, -⟩ := releaseMessage_spec env
    { bvs with txnlist := bvs.txnlist.delete (Transaction.hash env entry.txn) } entry.txn entry.message
  have released key := @holds_releaseMessage env config cs bvs height key entry
  have payments := payments_releaseMessage holds
  have nanoPays := nanoPayAmount_releaseMessage env
    { bvs with txnlist := bvs.txnlist.delete (Transaction.hash env entry.txn) } entry.txn entry.message
  generalize releaseMessage env { bvs with txnlist := bvs.txnlist.delete (Transaction.hash env entry.txn) } entry.txn
    entry.message = after at amount totals released payments nanoPays ⊢
  obtain ⟨_, after⟩ := after
  simp only at amount totals released payments nanoPays ⊢
  subst amount
  have enough := holds.enough
  rw [← totals] at enough
  obtain ⟨_, ran, reads⟩ := releaseAmount_spec entry.plain entry.fee enough
  refine ⟨_, ran, holds.tail named (fun key => ?_) (fun addr => ?_) payments nanoPays⟩
  · rw [← released]
    cases key <;> exact Iff.rfl
  · rw [(entry.counts_eq addr).1, ← totals]
    exact reads addr

omit holds

theorem Entry.nanoPay_eq_payments (entry : Entry env config cs height) (addr : Uint160) :
    entry.nanoPay addr = (entry.payments.map fun payment =>
      if addr = bytesToUint160 payment.2.sender then claimAmount cs.states payment.2 else 0).sum := by
  rw [(entry.counts_eq addr).2, entry.payments_eq, Entry.sender]
  cases entry.message with
  | nanoPay _ => exact (Int64.add_zero _).symm
  | _ => split_ifs <;> rfl

theorem sum_nanoPay (addr : Uint160) : (entries.map fun entry => entry.nanoPay addr).sum =
    ((entries.flatMap Entry.payments).map fun payment =>
      if addr = bytesToUint160 payment.2.sender then claimAmount cs.states payment.2 else 0).sum := by
  induction entries with
  | nil => rfl
  | cons entry _ ih =>
    rw [map_cons, sum_cons, ih, entry.nanoPay_eq_payments, flatMap_cons, map_append, sum_append]

theorem recounts {payloads : List Pb.NanoPay} (bvs : BlockValidationState) (above : ∀ payload ∈ payloads,
      (cs.getNanoPay (bytesToUint160 payload.sender) (bytesToUint160 payload.recipient) payload.id).1 < payload.amount) :
    ∃ nanoPayAmount, Proc.forEach payloads (recount cs) bvs = (.ok (), { bvs with nanoPayAmount }) ∧
      (∀ addr, nanoPayAmount.read 0 addr = bvs.nanoPayAmount.read 0 addr +
        (payloads.map fun payload =>
          if addr = bytesToUint160 payload.sender then claimAmount cs.states payload else 0).sum) ∧
      (payloads ≠ [] ∨ bvs.nanoPayAmount.entries ≠ [] → nanoPayAmount.entries ≠ []) := by
  induction payloads generalizing bvs with
  | nil => exact ⟨bvs.nanoPayAmount, rfl, by simp, by simp⟩
  | cons payload _ ih =>
    obtain ⟨higher, above⟩ := forall_mem_cons.mp above
    simp only [Proc.forEach, recount, Proc.bind_assoc]
    rw [Proc.bind_of_ok (Proc.lift_rejectIf (by simpa using higher)), Proc.modify_bind]
    obtain ⟨nanoPayAmount, counted, reads, present⟩ := ih { bvs with
      nanoPayAmount := addTo bvs.nanoPayAmount (bytesToUint160 payload.sender) (payload.amount -
        (cs.getNanoPay (bytesToUint160 payload.sender) (bytesToUint160 payload.recipient) payload.id).1) } above
    refine ⟨nanoPayAmount, counted, fun addr => ?_, fun _ => present (.inr (by simp [addTo, GoMap.store]))⟩
    rw [reads, map_cons, sum_cons, read_addTo, ← Int64.add_assoc]
    congr 1
    split_ifs
    · rfl
    · simp

theorem recountNanoPays_stands (holds : HoldsAll bvs entries) (above : ∀ payment ∈ entries.flatMap Entry.payments,
      (cs.getNanoPay (bytesToUint160 payment.2.sender) (bytesToUint160 payment.2.recipient) payment.2.id).1 <
        payment.2.amount) :
    ∃ bvs', recountNanoPays cs bvs = (.ok (), bvs') ∧ Stands bvs' entries := by
  have sums (addr : Uint160) := @sum_nanoPay env config cs height entries addr
  unfold recountNanoPays
  split_ifs with some_
  · have above : ∀ payload ∈ bvs.nanoPayPayloads.entries.map Sigma.snd,
        (cs.getNanoPay (bytesToUint160 payload.sender) (bytesToUint160 payload.recipient) payload.id).1 < payload.amount := by
      intro payload member
      obtain ⟨payment, recorded, rfl⟩ := mem_map.mp member
      exact above payment (holds.payments.mem_iff.mp recorded)
    obtain ⟨nanoPayAmount, counted, reads, present⟩ := recounts { bvs with nanoPayAmount := ∅ } above
    refine ⟨_, counted, ⟨⟨fun key => ?_, holds.apart, holds.total, holds.payments, holds.within, fun paid => present ?_⟩,
      fun addr => ?_⟩⟩
    · rw [← holds.keys]
      cases key <;> exact Iff.rfl
    · exact .inl (by simpa using paid)
    · rw [reads, sums, ← sum_perm (holds.payments.map _), map_map, GoMap.read_empty, Int64.zero_add]
      rfl
  · refine ⟨bvs, rfl, ⟨holds, fun addr => ?_⟩⟩
    have none : bvs.nanoPayAmount.entries = [] := by simpa using some_
    have unpaid : bvs.nanoPayPayloads.entries = [] := by
      by_contra paid
      exact holds.counted paid none
    have payments := holds.payments
    rw [unpaid] at payments
    rw [sums, payments.symm.eq_nil, GoMap.read, GoMap.load, AList.lookup, none]
    rfl

theorem Entry.above (entry : Entry env config cs height) {payment : Sigma fun _ : Uint256 => Pb.NanoPay}
    (member : payment ∈ entry.payments) :
    payment.1 = Transaction.hash env entry.txn ∧ entry.message = .nanoPay payment.2 ∧
      (cs.getNanoPay (bytesToUint160 payment.2.sender) (bytesToUint160 payment.2.recipient) payment.2.id).1 <
        payment.2.amount := by
  rw [entry.payments_eq] at member
  have reserved := entry.reserved
  simp only [reservation, entry.unpacked, ok_bind, bind_eq_ok] at reserved
  obtain ⟨_, verified, -⟩ := reserved
  cases shape : entry.message with
  | nanoPay _ =>
    rw [shape] at member verified
    obtain rfl := List.mem_singleton.mp member
    simp only [verifyMessage, bind_eq_ok, rejectIf_eq_ok] at verified
    obtain ⟨_, -, _, -, _, -, _, higher, -⟩ := verified
    exact ⟨rfl, rfl, Int64.not_le.mp higher⟩
  | _ =>
    rw [shape] at member
    cases member

theorem Entry.payments_cases (entry : Entry env config cs height) : entry.payments = [] ∨
    ∃ payload, entry.message = .nanoPay payload ∧ entry.payments = [⟨Transaction.hash env entry.txn, payload⟩] := by
  rw [entry.payments_eq]
  cases entry.message with
  | nanoPay payload => exact .inr ⟨payload, rfl, rfl⟩
  | _ => exact .inl rfl

theorem Entry.paysNanoPay (entry : Entry env config cs height) {payload : Pb.NanoPay}
    (shape : entry.message = .nanoPay payload) :
    plainAmount entry.message + claimed cs.states entry.message + entry.txn.unsignedTx.fee > 0 := by
  have plain := entry.plain
  have claim := entry.claim
  have fee := entry.fee
  have recorded : (⟨Transaction.hash env entry.txn, payload⟩ : Sigma fun _ : Uint256 => Pb.NanoPay) ∈ entry.payments := by
    rw [entry.payments_eq, shape]
    exact List.mem_singleton_self _
  have higher := (entry.above recorded).2.2
  have nonzero : (claimed cs.states entry.message).toInt ≠ 0 := by
    intro zero
    rw [shape, ← toInt_zero, Int64.toInt_inj] at zero
    have same : payload.amount =
        (cs.getNanoPay (bytesToUint160 payload.sender) (bytesToUint160 payload.recipient) payload.id).1 := by
      have claims : payload.amount -
          (cs.getNanoPay (bytesToUint160 payload.sender) (bytesToUint160 payload.recipient) payload.id).1 = 0 := zero
      grind
    exact Int64.lt_irrefl (same ▸ higher)
  unfold AmountOk maxAmount at plain claim fee
  rw [gt_iff_lt, lt_iff_toInt, toInt_zero, toInt_eq_of_fits
    (by unfold Fits; omega : Fits ((plainAmount entry.message).toInt + (claimed cs.states entry.message).toInt +
      entry.txn.unsignedTx.fee.toInt)) (by simp only [Int64.ofInt_add, Int64.ofInt_toInt])]
  omega

def Entry.NamesApart (entry other : Entry env config cs height) : Prop :=
  ∀ name, .name name ∈ entry.keys → .name name ∉ other.keys

variable {cleaned : List (Entry env config cs height)}

theorem clean_entries (stands : HoldsAll bvs (cleaned ++ rest))
    (named : cleaned.Pairwise Entry.NamesApart) (named' : ∀ entry ∈ cleaned, ∀ other ∈ rest, entry.NamesApart other) :
    ∃ bvs', Proc.forEach (cleaned.map Entry.txn) (release env) bvs = (.ok (), bvs') ∧ HoldsAll bvs' rest := by
  induction cleaned generalizing bvs with
  | nil => exact ⟨bvs, rfl, stands⟩
  | cons _ _ ih =>
    obtain ⟨own, named⟩ := pairwise_cons.mp named
    obtain ⟨first, named'⟩ := forall_mem_cons.mp named'
    obtain ⟨_, released, holds⟩ := release_entry stands fun name held other member =>
      (mem_append.mp member).elim (fun member => own other member name held) fun member => first other member name held
    obtain ⟨bvs', ran, holds⟩ := ih holds named named'
    refine ⟨bvs', ?_, holds⟩
    rw [map_cons, Proc.forEach, Proc.bind_of_ok released]
    exact ran

theorem cleanSubmittedTransactions_stands (stands : HoldsAll bvs (cleaned ++ rest))
    (named : cleaned.Pairwise Entry.NamesApart) (named' : ∀ entry ∈ cleaned, ∀ other ∈ rest, entry.NamesApart other) :
    ∃ bvs', cleanSubmittedTransactions env cs (cleaned.map Entry.txn) bvs = (.ok (), bvs') ∧ Stands bvs' rest := by
  obtain ⟨_, released, holds⟩ := clean_entries stands named named'
  obtain ⟨bvs', counted, stands⟩ := recountNanoPays_stands holds fun payment member => by
    obtain ⟨entry, -, recorded⟩ := mem_flatMap.mp member
    exact (entry.above recorded).2.2
  exact ⟨bvs', by rw [cleanSubmittedTransactions, Proc.bind_of_ok released, counted], stands⟩

theorem payloads_foldl : (changes.foldl BlockValidationState.apply bvs).nanoPayPayloads =
    (changes.filterMap paymentOf).foldl (fun map payment => map.store payment.1 payment.2) bvs.nanoPayPayloads := by
  induction changes generalizing bvs with
  | nil => rfl
  | cons change _ ih =>
    rw [foldl_cons, ih, filterMap_cons]
    cases change <;> rfl

theorem nanoPayAmount_foldl
    (some_ : bvs.nanoPayAmount.entries ≠ [] ∨ ∃ sender total nanoPay, Change.amount sender total nanoPay ∈ changes) :
    (changes.foldl BlockValidationState.apply bvs).nanoPayAmount.entries ≠ [] := by
  induction changes generalizing bvs with
  | nil => simpa using some_
  | cons change _ ih =>
    refine ih ?_
    rcases some_ with some_ | ⟨sender, total, nanoPay, member⟩
    · refine .inl ?_
      cases change with
      | amount => simp [apply, addTo, GoMap.store]
      | _ => exact some_
    · rcases mem_cons.mp member with rfl | member
      · exact .inl (by simp [apply, addTo, GoMap.store])
      · exact .inr ⟨sender, total, nanoPay, member⟩

inductive Reaches (env : Env) (config : Config) (cs : ChainStore) (height : UInt32) :
    List (Entry env config cs height) → BlockValidationState → Prop
  | new : Reaches env config cs height [] .new
  | verify {entries : List (Entry env config cs height)} {bvs bvs' : BlockValidationState}
      {entry : Entry env config cs height} (reached : Reaches env config cs height entries bvs)
      (verified : bvs.verifyTransactionWithBlock env config cs entry.txn height = .ok bvs') :
      Reaches env config cs height (entries ++ [entry]) bvs'.commit

/-- A state has taken the changes of a transaction in, which the state before it did not stand against. -/
structure Takes (bvs : BlockValidationState) (entry : Entry env config cs height) (after : BlockValidationState) : Prop where
  held : after.held = entry.changes.foldl BlockValidationState.apply bvs.held
  free : ∀ change ∈ entry.changes, Free config cs height bvs change

theorem takes_of_verified (idle : bvs.changes = [])
    (verified : bvs.verifyTransactionWithBlock env config cs entry.txn height = .ok bvs') : Takes bvs entry bvs'.commit := by
  obtain ⟨_, _, unpacked, reserves, free, rfl⟩ := verify_iff.mp verified
  obtain rfl := ok_unique entry.unpacked unpacked
  obtain rfl := ok_unique entry.reserved reserves
  refine ⟨?_, free⟩
  rw [held_commit, idle, nil_append]
  congr 1
  exact held_counted

namespace Takes

variable {after : BlockValidationState}

theorem keys (takes : Takes bvs entry after) (key : Key) : Holds after key ↔ Holds bvs key ∨ key ∈ entry.keys := by
  rw [← holds_held, takes.held, holds_foldl_apply, holds_held]
  rfl

theorem reads (takes : Takes bvs entry after) (addr : Uint160) :
    after.totalAmount.read 0 addr = bvs.totalAmount.read 0 addr + entry.total addr ∧
      after.nanoPayAmount.read 0 addr = bvs.nanoPayAmount.read 0 addr + entry.nanoPay addr := by
  have total : after.totalAmount = after.held.totalAmount := rfl
  have nanoPay : after.nanoPayAmount = after.held.nanoPayAmount := rfl
  rw [total, nanoPay, takes.held]
  exact reads_foldl addr

theorem apart (current : config.isLegacy height = false) (takes : Takes bvs entry after) (holds : HoldsAll bvs entries)
    {other : Entry env config cs height} (member : other ∈ entries) {key : Key} (has : key ∈ other.keys)
    (asked : key ∈ entry.keys) : ∃ name, key = .name name := by
  obtain ⟨change, asks, same⟩ := mem_filterMap.mp asked
  have possible := takes.free change asks
  have there : Holds bvs key := (holds.keys key).mpr ⟨other, member, has⟩
  cases change with
  | amount => cases same
  | name name _ => exact ⟨name, (Option.some.inj same).symm⟩
  | _ =>
    rw [free_record_iff current (by simp)] at possible
    exact absurd there (possible key same)

theorem payments (takes : Takes bvs entry after) (holds : HoldsAll bvs entries) :
    after.nanoPayPayloads.entries.Perm ((entries ++ [entry]).flatMap Entry.payments) := by
  have stored : after.nanoPayPayloads =
      entry.payments.foldl (fun map payment => map.store payment.1 payment.2) bvs.nanoPayPayloads := by
    have same : after.nanoPayPayloads = after.held.nanoPayPayloads := rfl
    rw [same, takes.held, payloads_foldl]
    rfl
  rw [flatMap_append, flatMap_singleton, stored]
  rcases entry.payments_cases with none | ⟨_, -, single⟩
  · rw [none, append_nil]
    exact holds.payments
  · have fresh : bvs.txnlist.load (Transaction.hash env entry.txn) = none :=
      takes.free (.txn (Transaction.hash env entry.txn)) (by rw [entry.changes_eq]; simp)
    have absent : Transaction.hash env entry.txn ∉ bvs.nanoPayPayloads.entries.keys := fun known => by
      obtain ⟨_, member, same⟩ := mem_map.mp known
      obtain ⟨other, listed, recorded⟩ := mem_flatMap.mp (holds.payments.mem_iff.mp member)
      rw [(other.above recorded).1] at same
      exact (holds.keys (.txn _)).mpr ⟨other, listed, by rw [← same, other.keys_eq]; simp⟩ fresh
    rw [single, foldl_cons, foldl_nil, GoMap.store, AList.entries_insert_of_notMem absent]
    exact (perm_append_singleton _ _).symm.trans (holds.payments.append_right _)

theorem counted (takes : Takes bvs entry after) (holds : HoldsAll bvs entries)
    (paid : after.nanoPayPayloads.entries ≠ []) : after.nanoPayAmount.entries ≠ [] := by
  have payments := takes.payments holds
  have same : after.nanoPayAmount = after.held.nanoPayAmount := rfl
  rw [same, takes.held]
  refine nanoPayAmount_foldl ?_
  rcases entry.payments_cases with none | ⟨_, shape, -⟩
  · rw [flatMap_append, flatMap_singleton, none, append_nil] at payments
    refine .inl (holds.counted fun empty => paid ?_)
    have before := holds.payments
    rw [empty] at before
    rw [before.symm.eq_nil] at payments
    exact payments.eq_nil
  · refine .inr ⟨entry.sender, plainAmount entry.message + entry.txn.unsignedTx.fee, claimed cs.states entry.message, ?_⟩
    rw [entry.changes_eq, amountsOf, if_pos (entry.paysNanoPay shape)]
    simp

end Takes

theorem within_commit (holds : HoldsAll bvs entries)
    (nonneg : 0 ≤ (bvs.nanoPayAmount.read 0 addr).toInt) (within : reserved after addr ≤ balanceBound)
    (added : reserved after addr = reserved bvs addr + if addr = entry.sender then
      (plainAmount entry.message).toInt + (claimed cs.states entry.message).toInt + entry.txn.unsignedTx.fee.toInt else 0) :
    ((entries ++ [entry]).map fun entry => entry.totalInt addr).sum ≤ balanceBound := by
  have total := (toInt_sum (holds.within addr)).1
  rw [← holds.total] at total
  have claim := entry.claim
  unfold AmountOk at claim
  rw [added] at within
  unfold reserved at within
  rw [map_append, List.sum_append, map_singleton, sum_singleton, ← total, entry.totalInt_eq]
  split_ifs at within ⊢ <;> omega

theorem Stands.commit (current : config.isLegacy height = false)
    (bound : ∀ addr, (cs.getBalance addr).toInt ≤ balanceBound) (stands : Stands bvs entries) (totals : TotalsOk cs bvs)
    (verified : bvs.verifyTransactionWithBlock env config cs entry.txn height = .ok bvs') :
    Stands bvs'.commit (entries ++ [entry]) ∧ TotalsOk cs bvs'.commit := by
  obtain ⟨totals', added⟩ := totals.commit bound entry.unpacked entry.plain entry.claim entry.fee verified
  have takes := takes_of_verified totals.idle verified
  refine ⟨⟨⟨fun key => ?_, ?_, fun addr => ?_, takes.payments stands.toHoldsAll, fun addr => ?_,
    takes.counted stands.toHoldsAll⟩, fun addr => ?_⟩, totals'⟩
  · rw [takes.keys, stands.keys]
    simp only [mem_append, mem_singleton, or_and_right, exists_or, exists_eq_left]
  · rw [pairwise_append]
    refine ⟨stands.apart, pairwise_singleton _ _, fun other member new_ last key has asked => ?_⟩
    obtain rfl := mem_singleton.mp last
    exact takes.apart current stands.toHoldsAll member has asked
  · rw [(takes.reads addr).1, stands.total, map_append, sum_append]
    simp
  · exact within_commit stands.toHoldsAll (totals.nanoPayAmount addr) ((totals'.within addr).trans (bound addr)) (added addr)
  · rw [(takes.reads addr).2, stands.nanoPay, map_append, sum_append]
    simp

theorem Reaches.stands (current : config.isLegacy height = false) (bound : ∀ addr, (cs.getBalance addr).toInt ≤ balanceBound)
    (nonneg : ∀ addr, 0 ≤ (cs.getBalance addr).toInt)
    (reached : Reaches env config cs height entries bvs) : Stands bvs entries ∧ TotalsOk cs bvs := by
  induction reached with
  | new =>
    refine ⟨⟨⟨fun key => ?_, .nil, fun addr => rfl, .refl _, fun addr => ?_, fun none => absurd rfl none⟩, fun addr => rfl⟩, ?_⟩
    · cases key <;> simp [Holds, BlockValidationState.new]
    · simp [balanceBound]
    · exact totalsOk_new nonneg
  | verify _ verified ih => exact ih.1.commit current bound ih.2 verified

end

end Nkn.BlockValidationState
