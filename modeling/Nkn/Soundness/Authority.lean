import Nkn.Soundness.Concrete
import Nkn.Proofs.Accounting

/-! # A transaction touches only what its signer controls

For a verified transaction other than a coinbase, the account that pays and the owner of the records are those of the
signing key. -/

namespace Nkn

open Go Outcome Config Store StateDB List Transaction Channel

def ownerKey : Pb.Message → Option Bytes
  | .registerName payload => some payload.registrant
  | .transferName payload => some payload.registrant
  | .deleteName payload => some payload.registrant
  | .subscribe payload => some payload.subscriber
  | .unsubscribe payload => some payload.subscriber
  | _ => none

def subscriptionString : Pb.Message → Option Bytes
  | .subscribe payload => some (payload.subscriber ++ payload.identifier)
  | .unsubscribe payload => some (payload.subscriber ++ payload.identifier)
  | _ => none

/-- The account balances that a ledger state holds: none is negative, and those of NKN add up to less than `2^62`. -/
structure BoundedBalances (states : StateDB) : Prop where
  nonneg : ∀ assetID addr, 0 ≤ (states.getBalance assetID addr).toInt
  total : ∑ addr, (states.getBalance nknAssetID addr).toInt < 2 ^ 62

/-- No collisions among the hashes that a transaction depends on: of the codes of its program and of its payload's key,
of its subscription and the given subscriptions, and of an asset it issues and the assets that accounts hold. -/
structure CollisionFree (env : Env) (states : StateDB) (txn : Transaction) (message : Pb.Message)
    (subscriptions : Set Bytes) : Prop where
  codes : Set.InjOn (toCodeHash env) {code | (∃ program ∈ txn.programs, program.code = code) ∨
    ∃ key ∈ ownerKey message, createSignatureProgramCode key = code}
  records : Set.InjOn (fun string => (env.sha256 string).toArray.take hashPrefixLength)
    {string | string ∈ subscriptionString message ∨ string ∈ subscriptions}
  assets : message.type = .issueAsset → ∀ addr, states.getBalance (Transaction.hash env txn) addr = 0

/-- A transaction changes only what `account` and `key` control. A record counts as changed if its entry in the trie or
its pending entry differs. -/
structure TouchesOwn (env : Env) (states states' : StateDB) (txn : Transaction) (message : Pb.Message)
    (account : Uint160) (key : Bytes) (subscriptions : Set Bytes) : Prop where
  balances : ∀ assetID addr, (assetID, addr) ≠ (nknAssetID, account) →
    states.getBalance assetID addr ≤ states'.getBalance assetID addr
  spends : (states.getBalance nknAssetID account).toInt - (states'.getBalance nknAssetID account).toInt ≤
    txn.unsignedTx.fee.toInt + (outlay states message).toInt
  nonces : ∀ addr, addr ≠ account → states'.getNonce addr = states.getNonce addr
  names : ∀ id, states.names.Agree states'.names id ∨
    (states.getNameInfo id).1.registrant = [] ∨ (states.getNameInfo id).1.registrant = key
  legacyNames : states'.namesLegacy = states.namesLegacy ∧
    states'.nameRegistrantsLegacy = states.nameRegistrantsLegacy
  subscribers : ∀ topic bucket subscriber identifier, subscriber.length = publicKeySize →
    subscriber ++ identifier ∈ subscriptions →
    states.pubSub.Agree states'.pubSub (getPubSubId env topic bucket subscriber identifier) ∨ subscriber = key
  channels : ∀ channel : Channel, states.nanoPay.Agree states'.nanoPay channel.key ∨ channel.sender = account

variable {env : Env} {config : Config} {cs : ChainStore} {states states' : StateDB} {txn : Transaction}
  {message : Pb.Message} {fees : Int64} {height : UInt32} {key : Bytes} {subscriptions : Set Bytes}

theorem getPublicKeyFromCode_createSignatureProgramCode {pubKey : Bytes}
    (read : getPublicKeyFromCode (createSignatureProgramCode pubKey) = .ok key) :
    key = pubKey ∧ pubKey.length = publicKeySize := by
  simp only [getPublicKeyFromCode, createSignatureProgramCode, bind_eq_ok, rejectIf_eq_ok, exists_const,
    Except.ok.injEq, ne_eq, not_not, length_cons, length_append, length_nil] at read
  obtain ⟨length, _, _, rfl⟩ := read
  have length : pubKey.length = 32 := by omega
  refine ⟨?_, length⟩
  rw [cons_append, drop_succ_cons, drop_zero, take_append_of_le_length length.ge, take_of_length_le length.le]

theorem programHash_of_ownerKey {owner : Bytes} (owned : ownerKey message = some owner) :
    programHash env message = createProgramHash env owner := by
  cases message <;> simp only [ownerKey, Option.some.injEq, reduceCtorEq] at owned <;> subst owned <;> rfl

theorem CollisionFree.signer_owner (free : CollisionFree env states txn message subscriptions)
    (signed : Transaction.SignedBy env txn (programHash env message) key) {owner : Bytes}
    (owned : ownerKey message = some owner) : owner = key ∧ owner.length = publicKeySize := by
  obtain ⟨program, _, programs, hashed, read, _⟩ := signed
  rw [programHash_of_ownerKey owned] at hashed
  have same : program.code = createSignatureProgramCode owner := by
    apply free.codes
    · exact .inl ⟨program, by simp [programs], rfl⟩
    · exact .inr ⟨owner, owned, rfl⟩
    · exact hashed
  rw [same] at read
  obtain ⟨rfl, length⟩ := getPublicKeyFromCode_createSignatureProgramCode read
  exact ⟨rfl, length⟩

def nameOf : Pb.Message → Option Bytes
  | .registerName payload => some payload.name
  | .transferName payload => some payload.name
  | .deleteName payload => some payload.name
  | _ => none

theorem registrant_of_checked {amount : Int64} {name : Bytes} (current : config.isLegacy height = false)
    (checked : verifyMessageWithLedger env config cs txn height message = .ok amount) (named : nameOf message = some name) :
    (cs.states.getRegistrant env name).1 = [] ∨ ownerKey message = some (cs.states.getRegistrant env name).1 := by
  cases message with
  | registerName payload =>
    obtain rfl := Option.some.inj named
    simp only [verifyMessageWithLedger, current, Bool.false_eq_true, if_false, rejectIf_bind_eq_ok, not_and,
      not_not] at checked
    rcases List.eq_nil_or_concat (cs.states.getRegistrant env payload.name).1 with unowned | ⟨_, _, owned⟩
    · exact .inl unowned
    · exact .inr (congrArg some (checked.1 (by simp [owned])).symm)
  | transferName _ =>
    obtain rfl := Option.some.inj named
    simp only [verifyMessageWithLedger, bind_eq_ok, rejectIf_eq_ok, exists_const, not_not] at checked
    exact .inr (congrArg some checked.2.2.1.symm)
  | deleteName _ =>
    obtain rfl := Option.some.inj named
    simp only [verifyMessageWithLedger, current, Bool.false_eq_true, if_false, bind_eq_ok, rejectIf_eq_ok, exists_const,
      not_not] at checked
    exact .inr (congrArg some checked.2.1.symm)
  | _ => simp [nameOf] at named

theorem names_agree {sender : Uint160} {id : Bytes} (current : config.isLegacy height = false)
    (other : ∀ name ∈ nameOf message, id ≠ getNameId env name) :
    states.names.Agree (applyRecords env config states txn sender height message).names id := by
  cases message with
  | registerName _ =>
    simp only [applyRecords, current, Bool.false_eq_true, if_false, registerName, getNameInfo, Table.put_put]
    exact Table.agree_store (other _ rfl)
  | transferName _ =>
    simp only [applyRecords, transferName, getNameInfo, Table.put_put]
    exact Table.agree_store (other _ rfl)
  | deleteName payload =>
    obtain ⟨_, deleted⟩ := @deleteName_frame states env payload.name
    simp only [applyRecords, current, Bool.false_eq_true, if_false, deleted]
    exact Table.agree_store (other _ rfl)
  | _ => exact .of_eq ((others_applyRecords rfl).2.1 (by simp [Pb.Message.type])) id

def subscriptionId (env : Env) : Pb.Message → Option Bytes
  | .subscribe payload => some (getPubSubId env payload.topic payload.bucket payload.subscriber payload.identifier)
  | .unsubscribe payload => some (getPubSubId env payload.topic 0 payload.subscriber payload.identifier)
  | _ => none

theorem pubSub_agree {sender : Uint160} {id : Bytes} (other : subscriptionId env message ≠ some id) :
    states.pubSub.Agree (applyRecords env config states txn sender height message).pubSub id := by
  cases message with
  | subscribe _ =>
    simp only [applyRecords, subscribe, getPubSub, Table.put_put]
    exact Table.agree_store fun same => other (congrArg some same.symm)
  | unsubscribe payload =>
    obtain ⟨_, _, deleted⟩ := @unsubscribe_frame states env payload.topic payload.subscriber payload.identifier
    simp only [applyRecords, deleted]
    exact Table.agree_store fun same => other (congrArg some same.symm)
  | _ => exact .of_eq ((others_applyRecords rfl).2.2.2 (by simp [Pb.Message.type])).1 id

theorem getPubSubId_hash {topic topic' subscriber subscriber' identifier identifier' : Bytes} {bucket bucket' : UInt32}
    (same : getPubSubId env topic bucket subscriber identifier = getPubSubId env topic' bucket' subscriber' identifier') :
    (env.sha256 (subscriber ++ identifier)).toArray.take hashPrefixLength =
      (env.sha256 (subscriber' ++ identifier')).toArray.take hashPrefixLength := by
  refine (append_inj same ?_).2
  simp [getTopicBucketId, getTopicId, writeUint32]

theorem CollisionFree.subscriber_owner (free : CollisionFree env states txn message subscriptions)
    (signed : Transaction.SignedBy env txn (programHash env message) key)
    {topic subscriber identifier : Bytes} {bucket : UInt32} (length : subscriber.length = publicKeySize)
    (known : subscriber ++ identifier ∈ subscriptions)
    (written : subscriptionId env message = some (getPubSubId env topic bucket subscriber identifier)) :
    subscriber = key := by
  have agreed {owner identifier' : Bytes} (owned : ownerKey message = some owner)
      (own : subscriptionString message = some (owner ++ identifier'))
      (hashed : (env.sha256 (owner ++ identifier')).toArray.take hashPrefixLength =
        (env.sha256 (subscriber ++ identifier)).toArray.take hashPrefixLength) : subscriber = key := by
    obtain ⟨rfl, ownerLength⟩ := free.signer_owner signed owned
    have strings := free.records (.inl own) (.inr known) hashed
    exact (append_inj strings (ownerLength.trans length.symm)).1.symm
  cases message with
  | subscribe payload | unsubscribe payload => exact agreed rfl rfl (getPubSubId_hash (Option.some.inj written))
  | _ => simp [subscriptionId] at written

theorem nanoPay_agree (channel : Channel) :
    states.nanoPay.Agree (applyRecords env config states txn (programHash env message) height
      message).nanoPay channel.key ∨ channel.sender = programHash env message := by
  by_cases kind : message.type = .nanoPay
  · cases message with
    | nanoPay nanoPay =>
      by_cases same : channel = .of nanoPay
      · exact .inr (congrArg Channel.sender same)
      · obtain ⟨_, set⟩ := @setNanoPay_frame (states.getNanoPay (of nanoPay).sender (of nanoPay).recipient
          nanoPay.id).2 (of nanoPay).sender (of nanoPay).recipient nanoPay.id nanoPay.amount
          nanoPay.nanoPayExpiration
        have written : (applyRecords env config states txn (bytesToUint160 nanoPay.sender) height
            (.nanoPay nanoPay)).nanoPay =
            states.nanoPay.put (of nanoPay).key ⟨nanoPay.amount, nanoPay.nanoPayExpiration⟩ :=
          (congrArg StateDB.nanoPay set).trans (Table.put_put _ _ _ _)
        refine .inl ?_
        rw [programHash, written]
        exact Table.agree_store (key_injective.ne same)
    | _ => simp [Pb.Message.type] at kind
  · exact .inl (.of_eq ((others_applyRecords rfl).1 kind).1 channel.key)

theorem outlay_nonneg {amount : Int64} (verified : Verified env config txn height message)
    (current : config.isLegacy height = false)
    (checked : verifyMessageWithLedger env config cs txn height message = .ok amount) :
    0 ≤ (outlay cs.states message).toInt := by
  by_cases kind : message.type = .nanoPay
  · cases message with
    | nanoPay _ =>
      simp only [verifyMessageWithLedger, bind_eq_ok, rejectIf_eq_ok, exists_const, Int64.not_le] at checked
      exact (lt_iff_toInt.mp checked.2.2.1).le
    | _ => simp [Pb.Message.type] at kind
  · have plain : outlay cs.states message = plainAmount message := by
      cases message <;> first | rfl | exact absurd rfl kind
    rw [plain]
    exact (plainAmount_amountOk verified current).1

theorem issued_nonneg (verified : Verified env config txn height message) : 0 ≤ (issued message).toInt := by
  have payload := verified.payload
  cases message with
  | issueAsset _ =>
    simp only [TxValidator.checkMessage, bind_eq_ok, rejectIf_eq_ok, exists_const, not_lt_iff_toInt] at payload
    exact payload.2.2.2.1
  | _ => exact le_rfl

theorem funds_of_run (bounded : BoundedBalances states) (charged : config.chargesNanoPay height = true)
    (unpacked : unpack env txn.unsignedTx.payload = .ok message) (regular : message.type ≠ .coinbase)
    (run : spendTransaction env config cs fees false height states txn = .ok states')
    (fee : 0 ≤ txn.unsignedTx.fee.toInt) (outlays : 0 ≤ (outlay states message).toInt) :
    txn.unsignedTx.fee.toInt + (outlay states message).toInt ≤
      (states.getBalance nknAssetID (programHash env message)).toInt := by
  obtain ⟨message', unpacked', feeFunds, payload⟩ := spendTransaction_eq_ok.mp run
  obtain rfl := ok_unique unpacked' unpacked
  have held := bounded.nonneg nknAssetID (programHash env message')
  have range := fits_toInt (states.getBalance nknAssetID (programHash env message'))
  unfold Fits at range
  have feeMost : txn.unsignedTx.fee.toInt ≤
      (states.getBalance nknAssetID (programHash env message')).toInt := by
    cases pays : paysFee config height txn.unsignedTx.fee message' with
    | true => exact le_iff_toInt.mp (feeFunds pays)
    | false =>
      have charge : chargedFee config height txn message' = txn.unsignedTx.fee := chargedFee_of_charges charged
      have zero : txn.unsignedTx.fee = 0 := by
        rw [← charge, chargedFee, pays]
        rfl
      simpa [zero] using held
  have left : ((afterFee config height states txn (programHash env message') message').getBalance nknAssetID
      (programHash env message')).toInt =
      (states.getBalance nknAssetID (programHash env message')).toInt - txn.unsignedTx.fee.toInt := by
    rw [getBalance_afterFee, if_pos ⟨rfl, rfl⟩, chargedFee_of_charges charged, toInt_sub_of_fits ⟨by omega, by omega⟩]
  have spent := outlay_le_of_spendPayload regular payload
  rw [outlay_afterFee, le_iff_toInt, left] at spent
  rcases spent with none | spent
  · rw [none, toInt_zero]
    omega
  · omega

section

variable (bounded : BoundedBalances states) (charged : config.chargesNanoPay height = true)
  (unpacked : unpack env txn.unsignedTx.payload = .ok message) (regular : message.type ≠ .coinbase)
  (run : spendTransaction env config cs fees false height states txn = .ok states')
  (funds : txn.unsignedTx.fee.toInt + (outlay states message).toInt ≤
    (states.getBalance nknAssetID (programHash env message)).toInt)
  (fee : 0 ≤ txn.unsignedTx.fee.toInt) (outlays : 0 ≤ (outlay states message).toInt)

include bounded charged unpacked regular run funds fee outlays

theorem toInt_balance_run (plain : message.type ≠ .issueAsset) (addr : Uint160) :
    (states'.getBalance nknAssetID addr).toInt = (states.getBalance nknAssetID addr).toInt -
      (if addr = programHash env message then
        txn.unsignedTx.fee.toInt + (outlay states message).toInt else 0) +
      (if addr = payee message then (outlay states message).toInt else 0) := by
  have unissued : issued message = 0 := by
    cases message <;> first | rfl | exact absurd rfl plain
  have least := bounded.nonneg nknAssetID addr
  have pair : addr ≠ programHash env message → (states.getBalance nknAssetID addr).toInt +
      (states.getBalance nknAssetID (programHash env message)).toInt < 2 ^ 62 := by
    intro other
    refine lt_of_le_of_lt ?_ bounded.total
    have two : ({addr, programHash env message} : Finset Uint160) ⊆ Finset.univ := Finset.subset_univ _
    have partial_le := Finset.sum_le_sum_of_subset_of_nonneg two fun addr _ _ => bounded.nonneg nknAssetID addr
    rwa [Finset.sum_pair other] at partial_le
  have range := fits_toInt (states.getBalance nknAssetID addr)
  unfold Fits at range
  refine toInt_eq_of_fits ?_ ?_
  · by_cases own : addr = programHash env message
    · rw [if_pos own]
      subst own
      unfold Fits
      split_ifs <;> omega
    · have pair := pair own
      rw [if_neg own]
      unfold Fits
      split_ifs <;> omega
  · rw [getBalance_spendTransaction unpacked regular run, chargedFee_of_charges charged, unissued]
    simp only [Int64.ofInt_add, Int64.ofInt_sub, Int64.ofInt_toInt, apply_ite Int64.ofInt, ite_self, true_and,
      Int64.add_zero]
    rfl

theorem touches_balances (issuedOk : 0 ≤ (issued message).toInt)
    (free : CollisionFree env states txn message subscriptions) (assetID : Uint256) (addr : Uint160) :
    (states.getBalance assetID addr).toInt - (if assetID = nknAssetID ∧ addr = programHash env message then
        txn.unsignedTx.fee.toInt + (outlay states message).toInt else 0) ≤ (states'.getBalance assetID addr).toInt := by
  by_cases plain : message.type = .issueAsset
  · -- nobody holds the new asset, so its issue does not overflow
    have noOutlay : outlay states message = 0 := by
      cases message <;> first | rfl | simp [Pb.Message.type] at plain
    have unheld := free.assets plain
    have after := getBalance_spendTransaction unpacked regular run assetID addr
    rw [noOutlay] at after funds ⊢
    simp only [chargedFee_of_charges charged, Int64.add_zero, ite_self] at after
    rw [toInt_zero] at funds ⊢
    by_cases new : assetID = Transaction.hash env txn
    · have held : states.getBalance assetID addr = 0 := new ▸ unheld addr
      have noFee : assetID = nknAssetID → txn.unsignedTx.fee = 0 := by
        intro nkn
        rw [← nkn, new, unheld, toInt_zero] at funds
        exact Int64.toInt_inj.mp (le_antisymm (by rw [toInt_zero]; omega) fee)
      rw [after, held]
      split_ifs with paid <;> simp_all
    · have least := bounded.nonneg assetID addr
      have range := fits_toInt (states.getBalance assetID addr)
      unfold Fits at range
      have unissued : ¬ (assetID = Transaction.hash env txn ∧ addr = programHash env message) := fun hit => new hit.1
      rw [if_neg unissued, Int64.add_zero] at after
      rw [after]
      split_ifs with paid
      · obtain ⟨rfl, rfl⟩ := paid
        rw [toInt_sub_of_fits ⟨by omega, by omega⟩]
        omega
      · simp
  · by_cases nkn : assetID = nknAssetID
    · subst nkn
      rw [toInt_balance_run bounded charged unpacked regular run funds fee outlays plain]
      simp only [true_and]
      split_ifs <;> omega
    · have unissued : issued message = 0 := by
        cases message <;> first | rfl | exact absurd rfl plain
      have after := getBalance_spendTransaction unpacked regular run assetID addr
      simp [nkn, unissued] at after ⊢
      rw [after]

end

theorem outlay_le_maxAmount (verified : Verified env config txn height message) (current : config.isLegacy height = false)
    (channels : ∀ channel, 0 ≤ (channelBalance states channel).toInt) : (outlay states message).toInt ≤ maxAmount := by
  by_cases kind : message.type = .nanoPay
  · cases message with
    | nanoPay nanoPay =>
      have payload := verified.payload
      simp only [TxValidator.checkMessage, bind_eq_ok] at payload
      obtain ⟨_, _, _, _, _, amountOk, _⟩ := payload
      obtain ⟨_, _⟩ := checkAmount_eq_ok.mp amountOk
      have recorded := channels (.of nanoPay)
      have rangeAmount := fits_toInt nanoPay.amount
      have rangeRecorded := fits_toInt (channelBalance states (.of nanoPay))
      unfold Fits at rangeAmount rangeRecorded
      rw [outlay, claimAmount_eq, toInt_sub_of_fits ⟨by omega, by omega⟩]
      omega
    | _ => simp [Pb.Message.type] at kind
  · have plain : outlay states message = plainAmount message := by
      cases message <;> first | rfl | exact absurd rfl kind
    rw [plain]
    exact (plainAmount_amountOk verified current).2

theorem executes_of_checked (charged : config.chargesNanoPay height = true) (current : config.isLegacy height = false)
    (verified : Verified env config txn height message) (regular : message.type ≠ .coinbase)
    (checked : verifyTransactionWithLedger env config cs txn height = .ok ())
    (channels : ∀ channel, 0 ≤ (channelBalance cs.states channel).toInt) :
    ∃ states', spendTransaction env config cs fees false height cs.states txn = .ok states' := by
  obtain ⟨_, _, _, asked, enough⟩ := (verifyTransactionWithLedger_eq_ok verified.unpacked).mp checked
  obtain ⟨_, feeMost⟩ := verified.fee
  have least := outlay_nonneg verified current asked
  have most := outlay_le_maxAmount verified current channels
  have range := fits_toInt (cs.getBalance (programHash env message))
  unfold Fits at range
  unfold maxAmount at feeMost most
  rw [verifyMessageWithLedger_amount current asked, ← outlay_eq_add, le_iff_toInt,
    toInt_add_of_fits ⟨by omega, by omega⟩] at enough
  have held : cs.states.getBalance nknAssetID (programHash env message) = cs.getBalance (programHash env message) := rfl
  apply spendTransaction_succeeds verified.unpacked regular
  · intro kind
    cases message with
    | issueAsset _ => simpa using (rejectIf_bind_eq_ok.mp asked).1
    | _ => simp [Pb.Message.type] at kind
  · rw [held, le_iff_toInt]
    omega
  · rw [getBalance_afterFee, if_pos ⟨rfl, rfl⟩, chargedFee_of_charges charged, held, le_iff_toInt,
      toInt_sub_of_fits ⟨by omega, by omega⟩]
    omega

/-- A transaction that passes the checks of the transaction and of the ledger is signed by a key, and its execution
touches only what that key and the account of its code control. It is executed, too, unless the ledger records a
negative amount for a channel. -/
theorem transaction_touches_own (bounded : BoundedBalances cs.states) (charged : config.chargesNanoPay height = true)
    (current : config.isLegacy height = false) (unpacked : unpack env txn.unsignedTx.payload = .ok message)
    (regular : message.type ≠ .coinbase) (free : CollisionFree env cs.states txn message subscriptions)
    (verified : TxValidator.verifyTransaction env config txn height = .ok ())
    (checked : verifyTransactionWithLedger env config cs txn height = .ok ()) :
    ∃ account key, Transaction.SignedBy env txn account key ∧
      (∀ states', spendTransaction env config cs fees false height cs.states txn = .ok states' →
        TouchesOwn env cs.states states' txn message account key subscriptions) ∧
      ((∀ channel, 0 ≤ (channelBalance cs.states channel).toInt) →
        ∃ states', spendTransaction env config cs fees false height cs.states txn = .ok states') := by
  obtain ⟨message', verified⟩ := verifyTransaction_verified verified
  obtain rfl := ok_unique verified.unpacked unpacked
  obtain ⟨key, signed⟩ := verified.signed regular
  refine ⟨_, key, signed, fun states' run => ?_, executes_of_checked charged current verified regular checked⟩
  obtain ⟨_, _, amount, asked, _⟩ := (verifyTransactionWithLedger_eq_ok unpacked).mp checked
  have outlays := outlay_nonneg verified current asked
  have funds := funds_of_run bounded charged unpacked regular run verified.fee.1 outlays
  have falls := touches_balances bounded charged unpacked regular run funds verified.fee.1 outlays
    (issued_nonneg verified) free
  have records := records_spendTransaction unpacked regular run
  constructor
  case balances =>
    intro assetID addr other
    have falls := falls assetID addr
    rw [if_neg fun hit => other (Prod.ext hit.1 hit.2)] at falls
    exact le_iff_toInt.mpr (by omega)
  case spends =>
    have falls := falls nknAssetID (Transaction.programHash env message')
    rw [if_pos ⟨rfl, rfl⟩] at falls
    omega
  case nonces =>
    intro addr other
    simp [getNonce_spendTransaction unpacked run, other]
  case names =>
    intro id
    by_cases named : ∃ name ∈ nameOf message', id = getNameId env name
    · obtain ⟨name, named, rfl⟩ := named
      rcases registrant_of_checked current asked named with unowned | owned
      · exact .inr (.inl unowned)
      · exact .inr (.inr (free.signer_owner signed owned).1)
    · push Not at named
      rw [records]
      exact .inl (names_agree current named)
  case legacyNames =>
    rw [records]
    exact legacyNames_applyRecords current
  case subscribers =>
    intro topic bucket subscriber identifier length known
    by_cases written : subscriptionId env message' = some (getPubSubId env topic bucket subscriber identifier)
    · exact .inr (free.subscriber_owner signed length known written)
    · rw [records]
      exact .inl (pubSub_agree written)
  case channels =>
    intro channel
    rw [records]
    exact nanoPay_agree channel

/-! The proposer subscribes to a topic for a fee of 0.01 NKN, beside a subscription of another key with the same identifier. -/

namespace OwnSubscription

open Sample

def topic : Bytes := [110, 101, 119, 115]

def identifier : Bytes := [97, 108, 105, 99, 101]

def subscription : Pb.Subscribe := ⟨proposerKey, identifier, topic, 0, 1000, []⟩

def signature : Bytes :=
  (Word.ofNat 64 0x7842d804fd0a9bf67a51447c6e7ecfd4005cd7da9cca6bc3e9161721a67cdb9a371d26d7fa713a27925a097b4282558cf09183858ecaaf8e9b5c492c048eab03).toArray

def subscribeTxn : Transaction :=
  ⟨packed (.subscribe subscription) 0 1000000, [⟨createSignatureProgramCode proposerKey, 64 :: signature⟩]⟩

def hashForSigning : Uint256 := Word.ofNat 32 0xbe1228053c9b6659e79ba1dd55837cf3d4fe9618fc921777c385e10ecbecc930

def otherKey : Bytes := (Word.ofNat 32 0xed4928c628d1c2c6eae90338905995612959273a5c63f93636c14614ac8737d1).toArray

def tables : Tables where
  sha256 :=
    [(createSignatureProgramCode proposerKey, FirstBlocks.proposerCodeHash),
      (topic, Word.ofNat 32 0x19fba0e995b9794fc2c26217bf3b725c2f0d9eeda16719fe75e3ba23ca73bfc4),
      (proposerKey ++ identifier, Word.ofNat 32 0x69d1d0b8321d0bab94a262815246e7216a422bb8b46c31813ba21892dab4f585),
      (otherKey ++ identifier, Word.ofNat 32 0xfc0a9f36d37f7ba155f3e630728db052f842d4975d132dc840bb549ed9e0154e)] ++
    Tables.hashedTwice (Transaction.serializeUnsigned subscribeTxn) hashForSigning
      (Word.ofNat 32 0xb874b095d4f3bb11e2452db567ba9624a33c7624f08f3bdd3590b411f44b4677)
  ripemd160 := [(FirstBlocks.proposerCodeHash.toArray, proposer)]
  signatures := [(proposerKey, hashForSigning.toArray, signature)]
  messages := [.subscribe subscription]
  regexes := [(mainnet.allowSubscribeTopicRegex.getValueAtHeight 5000000, topic)]

def ledger : ChainStore :=
  chainStore (Word.ofNat 32 0xf3546704e18c68bdfba309d3a9d20a35cbff30cc13e8f70fd7cd00176540e362)
    (.ofBalances [(proposer, 1000000000)] 80000000000000000)

theorem bounded : BoundedBalances ledger.states := by
  have balance (assetID : Uint256) (addr : Uint160) : ledger.states.getBalance assetID addr =
      if assetID = nknAssetID ∧ addr = proposer then 1000000000 else 0 := getBalance_ofBalances _ _ _ _ _
  constructor
  · intro assetID addr
    rw [balance]
    split_ifs <;> decide
  · simp only [balance, true_and, apply_ite Int64.toInt, toInt_zero, Finset.sum_ite_eq', Finset.mem_univ, if_true]
    decide

theorem collisionFree :
    CollisionFree tables.env ledger.states subscribeTxn (.subscribe subscription) {otherKey ++ identifier} where
  codes := by
    rintro _ (⟨_, _, rfl⟩ | ⟨_, _, rfl⟩) _ (⟨_, _, rfl⟩ | ⟨_, _, rfl⟩) _ <;>
      simp_all [subscribeTxn, ownerKey, subscription]
  records := by
    rintro _ (own | rfl) _ (own' | rfl) same
    · exact Option.mem_unique own own'
    · obtain rfl := Option.some.inj own
      exact absurd same (by decide +kernel)
    · obtain rfl := Option.some.inj own'
      exact absurd same (by decide +kernel)
    · rfl
  assets := by simp [Pb.Message.type]

theorem transaction_touches_own_subscription :
    ∃ account key, Transaction.SignedBy tables.env subscribeTxn account key ∧
      ∃ states', spendTransaction tables.env mainnet ledger 0 false 5000000 ledger.states subscribeTxn = .ok states' ∧
        TouchesOwn tables.env ledger.states states' subscribeTxn (.subscribe subscription) account key
          {otherKey ++ identifier} := by
  obtain ⟨account, key, signed, touches, executes⟩ := @transaction_touches_own tables.env mainnet ledger subscribeTxn
    (.subscribe subscription) 0 5000000 {otherKey ++ identifier} bounded (by decide) (by decide) (by decide +kernel)
    (by decide) collisionFree (by decide +kernel) (by decide +kernel)
  obtain ⟨states', run⟩ := executes fun channel => le_rfl
  exact ⟨account, key, signed, states', run, touches states' run⟩

end OwnSubscription

end Nkn
