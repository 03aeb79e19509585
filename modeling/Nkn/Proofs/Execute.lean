import Nkn.Model.Execute
import Nkn.Proofs.StateDB

/-! # What executing a transaction changes

What `spendTransaction` does to balances, nonces and records: it takes the fee and one payment from the sender and gives
one payment to one payee. -/

namespace Nkn.Store

open Go Outcome Config StateDB Transaction Except

variable {env : Env} {config : Config} {cs : ChainStore} {states states' : StateDB} {txn : Transaction}
  {message : Pb.Message} {sender : Uint160} {totalFee : Int64} {genesis : Bool} {height : UInt32}

def chargedFee (config : Config) (height : UInt32) (txn : Transaction) (message : Pb.Message) : Int64 :=
  if paysFee config height txn.unsignedTx.fee message then txn.unsignedTx.fee else 0

def afterFee (config : Config) (height : UInt32) (states : StateDB) (txn : Transaction) (sender : Uint160)
    (message : Pb.Message) : StateDB :=
  let paid :=
    if paysFee config height txn.unsignedTx.fee message then
      states.adjust sender nknAssetID (-txn.unsignedTx.fee)
    else states
  if countsNonce message then paid.incrNonce sender else paid

theorem spendTransaction_eq_ok : spendTransaction env config cs totalFee genesis height states txn = .ok states' ↔
      ∃ message, unpack env txn.unsignedTx.payload = .ok message ∧
        (paysFee config height txn.unsignedTx.fee message = true →
          txn.unsignedTx.fee ≤ states.getBalance nknAssetID (programHash env message)) ∧
        spendPayload env config cs (afterFee config height states txn (programHash env message) message) txn
          (programHash env message) totalFee genesis height message = .ok states' := by
  unfold spendTransaction
  rw [bind_eq_ok]
  refine exists_congr fun message => and_congr_right fun unpacked => ?_
  simp only [getProgramHashes, unpacked, ok_bind, firstHash, afterFee]
  cases pays : paysFee config height txn.unsignedTx.fee message with
  | true =>
    simp only [if_true, bind_eq_ok, updateBalance_subtraction_eq_ok, forall_const, and_assoc]
    constructor
    · rintro ⟨_, funds, rfl, run⟩
      exact ⟨funds, run⟩
    · rintro ⟨funds, run⟩
      exact ⟨_, funds, rfl, run⟩
  | false => simp

variable {amount : Int64}

theorem payNKN_eq_ok {payer payee : Uint160} : payNKN states payer payee amount = .ok states' ↔
      amount ≤ states.getBalance nknAssetID payer ∧
        states' = (states.adjust payer nknAssetID (-amount)).adjust payee nknAssetID amount := by
  simp only [payNKN, bind_eq_ok, updateBalance_subtraction_eq_ok, updateBalance_addition, Except.ok.injEq, and_assoc]
  constructor
  · rintro ⟨_, funds, rfl, rfl⟩
    exact ⟨funds, rfl⟩
  · rintro ⟨funds, rfl⟩
    exact ⟨_, funds, rfl, rfl⟩

theorem spendNanoPay_eq_ok {nanoPay : Pb.NanoPay} : spendNanoPay states sender nanoPay = .ok states' ↔
      let recipient := bytesToUint160 nanoPay.recipient
      let opened := states.getNanoPay sender recipient nanoPay.id
      let amount := nanoPay.amount - opened.1.balance
      amount ≤ states.getBalance nknAssetID sender ∧
        states' = ((opened.2.adjust sender nknAssetID (-amount)).adjust recipient nknAssetID amount).setNanoPay
          sender recipient nanoPay.id nanoPay.amount nanoPay.nanoPayExpiration := by
  simp only [spendNanoPay, bind_eq_ok, payNKN_eq_ok, ok.injEq]
  constructor
  · rintro ⟨_, ⟨funds, rfl⟩, rfl⟩
    exact ⟨funds, rfl⟩
  · rintro ⟨funds, rfl⟩
    exact ⟨_, ⟨funds, rfl⟩, rfl⟩

variable {assetID : Uint256}

theorem increaseTotalSupply_eq_ok : states.increaseTotalSupply assetID amount = .ok states' ↔
      ∃ asset, states.assets.read assetID = some asset ∧ 0 < asset.totalSupply + amount ∧
        states' = states.storeAsset assetID { asset with totalSupply := asset.totalSupply + amount } := by
  unfold increaseTotalSupply
  cases states.assets.read assetID with
  | none => simp
  | some _ =>
    simp only [rejectIf_bind_eq_ok, Int64.not_le, ok.injEq, Option.some.injEq, exists_eq_left']
    exact and_congr_right fun _ => eq_comm

section

variable {P : StateDB → Prop} (kept : Kept env P)

include kept

theorem StateDB.Kept.spendPayload (keep : P states)
    (run : Store.spendPayload env config cs states txn sender totalFee genesis height message = .ok states') :
    P states' := by
  have pay {s s' : StateDB} {payer payee : Uint160} {amount : Int64} (keep : P s)
      (pays : payNKN s payer payee amount = .ok s') : P s' := by
    obtain ⟨_, rfl⟩ := payNKN_eq_ok.mp pays
    exact kept.setAccount _ _ _ (kept.setAccount _ _ _ keep)
  cases message with
  | coinbase _ =>
    simp only [Store.spendPayload, spendCoinbase, bind_eq_ok, updateBalance_addition, ok.injEq] at run
    obtain ⟨debited, debit, _, rfl, supply⟩ := run
    have keepDebit : P debited := by
      unfold takeDonation at debit
      split at debit
      · obtain rfl := ok.inj debit
        exact keep
      · obtain ⟨_, _, debit⟩ := bind_eq_ok.mp debit
        obtain ⟨_, rfl⟩ := updateBalance_subtraction_eq_ok.mp debit
        exact kept.setAccount _ _ _ keep
    split at supply
    · obtain ⟨_, _, _, rfl⟩ := increaseTotalSupply_eq_ok.mp supply
      exact kept.storeAsset _ _ _ (kept.setAccount _ _ _ keepDebit)
    · obtain rfl := ok.inj supply
      exact kept.setAccount _ _ _ keepDebit
  | transferAsset _ => exact pay keep run
  | sigChainTxn _ => exact ok.inj run ▸ keep
  | registerName _ =>
    obtain ⟨_, pays, finish⟩ := bind_eq_ok.mp run
    split at finish <;> obtain rfl := ok.inj finish
    · exact kept.setNameLegacy _ _ _ (pay keep pays)
    · exact kept.registerName _ _ _ _ (pay keep pays)
  | transferName _ => exact ok.inj run ▸ kept.transferName _ _ _ keep
  | deleteName _ =>
    simp only [Store.spendPayload] at run
    split at run <;> obtain rfl := ok.inj run
    · exact kept.deleteNameForRegistrantLegacy _ _ _ keep
    · exact kept.deleteName _ _ keep
  | subscribe _ => exact ok.inj run ▸ kept.subscribe _ _ _ _ _ _ _ keep
  | unsubscribe _ => exact ok.inj run ▸ kept.unsubscribe _ _ _ _ keep
  | generateID _ =>
    simp only [Store.spendPayload, bind_eq_ok, updateBalance_subtraction_eq_ok, updateBalance_addition, ok.injEq] at run
    obtain ⟨_, ⟨_, rfl⟩, rfl⟩ := run
    exact kept.setAccount _ _ _ (kept.setAccount _ _ _ (kept.setAccount _ _ _ keep))
  | nanoPay _ =>
    obtain ⟨_, rfl⟩ := spendNanoPay_eq_ok.mp run
    exact kept.setNanoPay _ _ _ _ _ _ (kept.setAccount _ _ _ (kept.setAccount _ _ _ (kept.getNanoPay _ _ _ _ keep)))
  | issueAsset _ =>
    simp only [Store.spendPayload, setAsset, bind_eq_ok, updateBalance_addition, ok.injEq] at run
    obtain ⟨_, ⟨_, _, rfl⟩, rfl⟩ := run
    exact kept.setAccount _ _ _ (kept.storeAsset _ _ _ keep)

theorem StateDB.Kept.spendTransaction (keep : P states)
    (run : Store.spendTransaction env config cs totalFee genesis height states txn = .ok states') : P states' := by
  obtain ⟨message, _, _, run⟩ := spendTransaction_eq_ok.mp run
  refine kept.spendPayload ?_ run
  unfold afterFee
  dsimp only
  have paid : P (if paysFee config height txn.unsignedTx.fee message then
      states.adjust (programHash env message) nknAssetID (-txn.unsignedTx.fee) else states) := by
    split
    · exact kept.setAccount _ _ _ keep
    · exact keep
  split
  · exact kept.setAccount _ _ _ paid
  · exact paid

end

theorem assets_spendTransaction (run : spendTransaction env config cs totalFee genesis height states txn = .ok states') :
    states'.assets.stored = states.assets.stored :=
  ((kept_stored env states.assets.stored states.names.stored).spendTransaction ⟨rfl, rfl⟩ run).1

def applyRecords (env : Env) (config : Config) (states : StateDB) (txn : Transaction) (sender : Uint160)
    (height : UInt32) : Pb.Message → StateDB
  | .registerName payload =>
    if config.isLegacy height then states.setNameLegacy env payload.registrant payload.name
    else states.registerName env payload.name payload.registrant (defaultNameDuration + height)
  | .transferName payload => states.transferName env payload.name payload.recipient
  | .deleteName payload =>
    if config.isLegacy height then states.deleteNameForRegistrantLegacy env payload.registrant payload.name
    else states.deleteName env payload.name
  | .subscribe payload =>
    states.subscribe env payload.topic payload.bucket payload.subscriber payload.identifier payload.metadata
      (height + payload.duration)
  | .unsubscribe payload => states.unsubscribe env payload.topic payload.subscriber payload.identifier
  | .nanoPay nanoPay =>
    (states.getNanoPay sender (bytesToUint160 nanoPay.recipient) nanoPay.id).2.setNanoPay sender
      (bytesToUint160 nanoPay.recipient) nanoPay.id nanoPay.amount nanoPay.nanoPayExpiration
  | .issueAsset issue =>
    states.storeAsset (Transaction.hash env txn)
      ⟨issue.name, issue.symbol, issue.totalSupply, issue.precision, sender⟩
  | _ => states

def applyMoves (env : Env) (states : StateDB) (txn : Transaction) (sender : Uint160) : Pb.Message → StateDB
  | .transferAsset transfer =>
    (states.adjust (bytesToUint160 transfer.sender) nknAssetID (-transfer.amount)).adjust
      (bytesToUint160 transfer.recipient) nknAssetID transfer.amount
  | .registerName payload =>
    (states.adjust sender nknAssetID (-payload.registrationFee)).adjust donationAddress nknAssetID payload.registrationFee
  | .generateID genID =>
    ((states.adjust sender nknAssetID (-genID.registrationFee)).updateID (createProgramHash env genID.publicKey)
      (List.replicate 32 0) genID.version.toInt8.toUInt8).adjust donationAddress nknAssetID genID.registrationFee
  | .nanoPay nanoPay =>
    let amount := nanoPay.amount - (states.getNanoPay sender (bytesToUint160 nanoPay.recipient) nanoPay.id).1.balance
    (states.adjust sender nknAssetID (-amount)).adjust (bytesToUint160 nanoPay.recipient) nknAssetID amount
  | .issueAsset issue => states.adjust sender (Transaction.hash env txn) issue.totalSupply
  | _ => states

theorem spendPayload_effect (regular : message.type ≠ .coinbase)
    (run : spendPayload env config cs states txn sender totalFee genesis height message = .ok states') :
    states' = { applyRecords env config states txn sender height message with
      accounts := (applyMoves env states txn sender message).accounts } := by
  cases message with
  | coinbase _ => exact absurd rfl regular
  | transferAsset _ =>
    obtain ⟨_, rfl⟩ := payNKN_eq_ok.mp run
    rfl
  | registerName _ =>
    obtain ⟨_, pays, finish⟩ := bind_eq_ok.mp run
    obtain ⟨_, rfl⟩ := payNKN_eq_ok.mp pays
    split at finish <;> rename_i legacy <;> obtain rfl := ok.inj finish <;>
      simp only [applyRecords, legacy, if_true, Bool.false_eq_true, if_false] <;> rfl
  | deleteName payload =>
    obtain ⟨_, deleted⟩ := @deleteName_frame states env payload.name
    simp only [spendPayload, deleted] at run
    split at run <;> rename_i legacy <;> obtain rfl := ok.inj run <;>
      simp only [applyRecords, deleted, legacy, if_true, Bool.false_eq_true, if_false] <;> rfl
  | unsubscribe payload =>
    obtain ⟨_, _, deleted⟩ := @unsubscribe_frame states env payload.topic payload.subscriber payload.identifier
    rw [← ok.inj run, applyRecords, deleted]
    rfl
  | generateID _ =>
    simp only [spendPayload, bind_eq_ok, updateBalance_subtraction_eq_ok, updateBalance_addition, ok.injEq] at run
    obtain ⟨_, ⟨_, rfl⟩, rfl⟩ := run
    rfl
  | nanoPay _ =>
    obtain ⟨_, rfl⟩ := spendNanoPay_eq_ok.mp run
    simp only [applyRecords, setNanoPay, adjust, setAccount]
    split <;> rfl
  | issueAsset _ =>
    simp only [spendPayload, setAsset, bind_eq_ok, updateBalance_addition, ok.injEq] at run
    obtain ⟨_, ⟨_, _, rfl⟩, rfl⟩ := run
    rfl
  | _ => exact ok.inj run ▸ rfl

theorem accounts_spendPayload (regular : message.type ≠ .coinbase)
    (run : spendPayload env config cs states txn sender totalFee genesis height message = .ok states') :
    states'.accounts = (applyMoves env states txn sender message).accounts := by
  rw [spendPayload_effect regular run]

theorem records_spendPayload (regular : message.type ≠ .coinbase)
    (run : spendPayload env config cs states txn sender totalFee genesis height message = .ok states') :
    states' = { applyRecords env config states txn sender height message with accounts := states'.accounts } := by
  rw [accounts_spendPayload regular run]
  exact spendPayload_effect regular run

variable {coinbase : Pb.Coinbase}

theorem records_spendCoinbase (run : spendCoinbase config cs states coinbase totalFee genesis height = .ok states') :
    states' = { states with accounts := states'.accounts, assets := states'.assets } := by
  simp only [spendCoinbase, bind_eq_ok, updateBalance_addition, ok.injEq] at run
  obtain ⟨debited, debit, _, rfl, supply⟩ := run
  have debited_eq : debited = { states with accounts := debited.accounts } := by
    unfold takeDonation at debit
    split at debit
    · rw [← ok.inj debit]
    · obtain ⟨_, _, debit⟩ := bind_eq_ok.mp debit
      obtain ⟨_, rfl⟩ := updateBalance_subtraction_eq_ok.mp debit
      rfl
  rw [debited_eq] at supply
  split at supply
  · obtain ⟨_, _, _, rfl⟩ := increaseTotalSupply_eq_ok.mp supply
    rfl
  · rw [← ok.inj supply]
    rfl

theorem assets_applyRecords (other : message.type ≠ .issueAsset) :
    (applyRecords env config states txn sender height message).assets = states.assets := by
  cases message with
  | registerName _ => simp only [applyRecords]; split <;> rfl
  | deleteName _ => simp only [applyRecords]; split <;> simp [deleteNameForRegistrantLegacy]
  | unsubscribe _ => exact assets_unsubscribe
  | nanoPay _ => exact assets_setNanoPay
  | issueAsset _ => exact absurd rfl other
  | _ => rfl

theorem others_applyRecords (applied : applyRecords env config states txn sender height message = states') :
    (message.type ≠ .nanoPay → states'.nanoPay = states.nanoPay ∧ states'.nanoPayCleanup = states.nanoPayCleanup) ∧
    (message.type ≠ .registerName ∧ message.type ≠ .transferName ∧ message.type ≠ .deleteName →
      states'.names = states.names) ∧
    (message.type ≠ .registerName ∧ message.type ≠ .deleteName → states'.namesCleanup = states.namesCleanup) ∧
    (message.type ≠ .subscribe ∧ message.type ≠ .unsubscribe →
      states'.pubSub = states.pubSub ∧ states'.pubSubCleanup = states.pubSubCleanup) := by
  subst applied
  cases message with
  | registerName _ =>
    simp only [applyRecords]
    split <;> exact ⟨fun _ => ⟨rfl, rfl⟩, fun others => absurd rfl others.1, fun others => absurd rfl others.1,
      fun _ => ⟨rfl, rfl⟩⟩
  | transferName _ =>
    exact ⟨fun _ => ⟨rfl, rfl⟩, fun others => absurd rfl others.2.1, fun _ => rfl, fun _ => ⟨rfl, rfl⟩⟩
  | deleteName payload =>
    obtain ⟨_, deleted⟩ := @deleteName_frame states env payload.name
    rw [applyRecords, deleted]
    split <;> exact ⟨fun _ => ⟨rfl, rfl⟩, fun others => absurd rfl others.2.2, fun others => absurd rfl others.2,
      fun _ => ⟨rfl, rfl⟩⟩
  | subscribe _ =>
    exact ⟨fun _ => ⟨rfl, rfl⟩, fun _ => rfl, fun _ => rfl, fun others => absurd rfl others.1⟩
  | unsubscribe payload =>
    obtain ⟨_, _, deleted⟩ := @unsubscribe_frame states env payload.topic payload.subscriber payload.identifier
    rw [applyRecords, deleted]
    exact ⟨fun _ => ⟨rfl, rfl⟩, fun _ => rfl, fun _ => rfl, fun others => absurd rfl others.2⟩
  | nanoPay nanoPay =>
    obtain ⟨_, set⟩ := @setNanoPay_frame (states.getNanoPay sender (bytesToUint160 nanoPay.recipient) nanoPay.id).2
      sender (bytesToUint160 nanoPay.recipient) nanoPay.id nanoPay.amount nanoPay.nanoPayExpiration
    rw [applyRecords, set]
    exact ⟨fun other => absurd rfl other, fun _ => rfl, fun _ => rfl, fun _ => ⟨rfl, rfl⟩⟩
  | _ => exact ⟨fun _ => ⟨rfl, rfl⟩, fun _ => rfl, fun _ => rfl, fun _ => ⟨rfl, rfl⟩⟩

theorem legacyNames_applyRecords (current : config.isLegacy height = false) :
    (applyRecords env config states txn sender height message).namesLegacy = states.namesLegacy ∧
      (applyRecords env config states txn sender height message).nameRegistrantsLegacy =
        states.nameRegistrantsLegacy := by
  cases message with
  | registerName _ => simp only [applyRecords, current]; exact ⟨rfl, rfl⟩
  | deleteName payload =>
    obtain ⟨_, deleted⟩ := @deleteName_frame states env payload.name
    simp only [applyRecords, current, Bool.false_eq_true, if_false, deleted, and_self]
  | unsubscribe payload =>
    obtain ⟨_, _, deleted⟩ := @unsubscribe_frame states env payload.topic payload.subscriber payload.identifier
    simp only [applyRecords, deleted, and_self]
  | nanoPay nanoPay =>
    obtain ⟨_, set⟩ := @setNanoPay_frame (states.getNanoPay sender (bytesToUint160 nanoPay.recipient) nanoPay.id).2
      sender (bytesToUint160 nanoPay.recipient) nanoPay.id nanoPay.amount nanoPay.nanoPayExpiration
    rw [applyRecords, set]
    exact ⟨rfl, rfl⟩
  | _ => exact ⟨rfl, rfl⟩

theorem applyRecords_accounts (accounts : Table Uint160 Account) :
    applyRecords env config { states with accounts := accounts } txn sender height message =
      { applyRecords env config states txn sender height message with accounts := accounts } := by
  cases message with
  | registerName _ => simp only [applyRecords]; split <;> rfl
  | deleteName payload =>
    simp only [applyRecords, deleteName, getNameInfo]
    split
    · rfl
    · by_cases empty : (states.names.read (getNameId env payload.name)).getD .empty = .empty <;> simp [empty]
  | unsubscribe payload =>
    simp only [applyRecords, unsubscribe, getPubSub]
    by_cases empty : (states.pubSub.read (getPubSubId env payload.topic 0 payload.subscriber payload.identifier)).getD
      .empty = .empty <;> simp [empty]
  | nanoPay _ => simp only [applyRecords, getNanoPay, getNanoPayById, setNanoPay]; split <;> rfl
  | _ => rfl

theorem afterFee_frame : afterFee config height states txn sender message =
      { states with accounts := (afterFee config height states txn sender message).accounts } := by
  unfold afterFee
  split_ifs <;> rfl

theorem records_spendTransaction (unpacked : unpack env txn.unsignedTx.payload = .ok message)
    (regular : message.type ≠ .coinbase)
    (run : spendTransaction env config cs totalFee genesis height states txn = .ok states') :
    states' = { applyRecords env config states txn (programHash env message) height message with
      accounts := states'.accounts } := by
  obtain ⟨_, unpacked', _, payload⟩ := spendTransaction_eq_ok.mp run
  obtain rfl := ok_unique unpacked' unpacked
  have records := records_spendPayload regular payload
  rwa [afterFee_frame, applyRecords_accounts] at records

def claimAmount (states : StateDB) (nanoPay : Pb.NanoPay) : Int64 :=
  nanoPay.amount -
    (states.getNanoPay (bytesToUint160 nanoPay.sender) (bytesToUint160 nanoPay.recipient) nanoPay.id).1.balance

def outlay (states : StateDB) : Pb.Message → Int64
  | .transferAsset transfer => transfer.amount
  | .registerName payload => payload.registrationFee
  | .generateID payload => payload.registrationFee
  | .nanoPay nanoPay => claimAmount states nanoPay
  | _ => 0

def payee : Pb.Message → Uint160
  | .coinbase coinbase => bytesToUint160 coinbase.recipient
  | .transferAsset transfer => bytesToUint160 transfer.recipient
  | .nanoPay nanoPay => bytesToUint160 nanoPay.recipient
  | _ => donationAddress

theorem getBalance_afterFee (addr : Uint160) :
    (afterFee config height states txn sender message).getBalance assetID addr =
      states.getBalance assetID addr - (if assetID = nknAssetID ∧ addr = sender then chargedFee config height txn message else 0) := by
  unfold afterFee chargedFee
  cases paysFee config height txn.unsignedTx.fee message <;> cases countsNonce message <;>
    simp <;> split_ifs <;> grind

theorem getBalance_pay {payer payee : Uint160} (addr : Uint160) :
    ((states.adjust payer nknAssetID (-amount)).adjust payee nknAssetID amount).getBalance assetID addr =
      states.getBalance assetID addr - (if assetID = nknAssetID ∧ addr = payer then amount else 0) +
        (if assetID = nknAssetID ∧ addr = payee then amount else 0) := by
  simp only [getBalance_adjust]
  split_ifs <;> grind

def issued : Pb.Message → Int64
  | .issueAsset issue => issue.totalSupply
  | _ => 0

theorem getBalance_spendPayload (regular : message.type ≠ .coinbase)
    (run : spendPayload env config cs states txn (programHash env message) totalFee genesis height message =
      .ok states') (assetID : Uint256) (addr : Uint160) :
    states'.getBalance assetID addr = states.getBalance assetID addr -
        (if assetID = nknAssetID ∧ addr = programHash env message then outlay states message else 0) +
        (if assetID = nknAssetID ∧ addr = payee message then outlay states message else 0) +
        (if assetID = Transaction.hash env txn ∧ addr = programHash env message then issued message else 0) := by
  rw [getBalance_of_accounts (accounts_spendPayload regular run)]
  cases message with
  | transferAsset transfer | registerName payload | nanoPay nanoPay =>
    rw [applyMoves, getBalance_pay]
    simp only [issued, ite_self, Int64.add_zero]
    rfl
  | generateID _ =>
    simp only [applyMoves, getBalance_adjust, getBalance_updateID, outlay, payee, issued]
    split_ifs <;> grind
  | issueAsset _ =>
    rw [applyMoves, getBalance_adjust]
    simp only [outlay, issued]
    split_ifs <;> simp_all
  | _ => simp [applyMoves, outlay, issued]

theorem outlay_le_of_spendPayload (regular : message.type ≠ .coinbase)
    (run : spendPayload env config cs states txn (programHash env message) totalFee genesis height message =
      .ok states') :
    outlay states message = 0 ∨
      outlay states message ≤ states.getBalance nknAssetID (programHash env message) := by
  cases message with
  | coinbase _ => exact absurd rfl regular
  | transferAsset _ => exact .inr (payNKN_eq_ok.mp run).1
  | registerName _ =>
    obtain ⟨_, pays, _⟩ := bind_eq_ok.mp run
    exact .inr (payNKN_eq_ok.mp pays).1
  | generateID _ =>
    obtain ⟨_, pays, _⟩ := bind_eq_ok.mp run
    exact .inr (updateBalance_subtraction_eq_ok.mp pays).1
  | nanoPay _ => exact .inr (spendNanoPay_eq_ok.mp run).1
  | _ => exact .inl rfl

def payCoinbase (states : StateDB) (coinbase : Pb.Coinbase) (donation totalFee : Int64) : StateDB :=
  (states.adjust (bytesToUint160 coinbase.sender) nknAssetID (-donation)).adjust (bytesToUint160 coinbase.recipient)
    nknAssetID (coinbase.amount + totalFee)

theorem spendCoinbase_eq_ok (nonzero : height ≠ 0) :
    spendCoinbase config cs states coinbase totalFee false height = .ok states' ↔
      ∃ donation, cs.getDonation config = .ok donation ∧
        donation ≤ states.getBalance nknAssetID (bytesToUint160 coinbase.sender) ∧
        (payCoinbase states coinbase donation totalFee).increaseTotalSupply nknAssetID (getRewardByHeight height) =
          .ok states' := by
  simp only [spendCoinbase, takeDonation, Bool.false_eq_true, if_false, bind_eq_ok, updateBalance_subtraction_eq_ok,
    updateBalance_addition, ok.injEq, if_pos nonzero]
  constructor
  · rintro ⟨_, ⟨donation, current, funds, rfl⟩, _, rfl, run⟩
    exact ⟨donation, current, funds, run⟩
  · rintro ⟨donation, current, funds, run⟩
    exact ⟨_, ⟨donation, current, funds, rfl⟩, _, rfl, run⟩

@[simp] theorem nanoPay_afterFee : (afterFee config height states txn sender message).nanoPay = states.nanoPay := by
  unfold afterFee
  split_ifs <;> rfl

@[simp] theorem outlay_afterFee :
    outlay (afterFee config height states txn sender message) message = outlay states message := by
  cases message <;> simp [outlay, claimAmount, getNanoPay, getNanoPayById]

theorem getBalance_spendTransaction (unpacked : unpack env txn.unsignedTx.payload = .ok message)
    (regular : message.type ≠ .coinbase)
    (run : spendTransaction env config cs totalFee genesis height states txn = .ok states') (assetID : Uint256)
    (addr : Uint160) :
    states'.getBalance assetID addr = states.getBalance assetID addr -
        (if assetID = nknAssetID ∧ addr = programHash env message then
          chargedFee config height txn message + outlay states message else 0) +
        (if assetID = nknAssetID ∧ addr = payee message then outlay states message else 0) +
        (if assetID = Transaction.hash env txn ∧ addr = programHash env message then issued message
          else 0) := by
  obtain ⟨_, unpacked', _, run⟩ := spendTransaction_eq_ok.mp run
  obtain rfl := ok_unique unpacked' unpacked
  rw [getBalance_spendPayload regular run, getBalance_afterFee, outlay_afterFee]
  split_ifs <;> grind

@[simp] theorem assets_afterFee : (afterFee config height states txn sender message).assets = states.assets := by
  unfold afterFee
  split_ifs <;> rfl

theorem stored_of_issueAsset {issue : Pb.IssueAsset}
    (run : spendPayload env config cs states txn sender totalFee genesis height (.issueAsset issue) = .ok states') :
    (states.assets.stored (Transaction.hash env txn)).isSome = false := by
  simp only [spendPayload, setAsset, bind_eq_ok, rejectIf_eq_ok] at run
  obtain ⟨_, ⟨_, new, _⟩, _⟩ := run
  simpa using new

theorem readAsset_spendTransaction (unpacked : unpack env txn.unsignedTx.payload = .ok message)
    (regular : message.type ≠ .coinbase) (stored : (states.assets.stored assetID).isSome = true)
    (run : spendTransaction env config cs totalFee genesis height states txn = .ok states') :
    states'.assets.read assetID = states.assets.read assetID := by
  obtain ⟨message', unpacked', _, payload⟩ := spendTransaction_eq_ok.mp run
  obtain rfl := ok_unique unpacked' unpacked
  rw [records_spendPayload regular payload]
  by_cases kind : message'.type = .issueAsset
  · cases message' with
    | issueAsset issue =>
      have new := stored_of_issueAsset payload
      have other : assetID ≠ Transaction.hash env txn := by
        rintro rfl
        rw [assets_afterFee, stored] at new
        exact absurd new (by simp)
      have kept : (afterFee config height states txn (programHash env (.issueAsset issue))
          (.issueAsset issue)).assets = states.assets := assets_afterFee
      exact (Table.read_put _ _ _ _).trans ((if_neg other).trans (by rw [kept]))
    | _ => simp [Pb.Message.type] at kind
  · rw [assets_applyRecords kind, assets_afterFee]

theorem getNonce_spendPayload
    (run : spendPayload env config cs states txn sender totalFee genesis height message = .ok states') (addr : Uint160) :
    states'.getNonce addr = states.getNonce addr := by
  cases message with
  | coinbase _ =>
    simp only [spendPayload, spendCoinbase, bind_eq_ok, updateBalance_addition, ok.injEq] at run
    obtain ⟨debited, debit, _, rfl, supply⟩ := run
    have debited_nonce : debited.getNonce addr = states.getNonce addr := by
      unfold takeDonation at debit
      split at debit
      · rw [ok.inj debit]
      · obtain ⟨_, _, debit⟩ := bind_eq_ok.mp debit
        obtain ⟨_, rfl⟩ := updateBalance_subtraction_eq_ok.mp debit
        exact getNonce_adjust
    split at supply
    · obtain ⟨_, _, _, rfl⟩ := increaseTotalSupply_eq_ok.mp supply
      rw [getNonce_of_accounts accounts_storeAsset, getNonce_adjust, debited_nonce]
    · rw [← ok.inj supply, getNonce_adjust, debited_nonce]
  | _ =>
    rw [getNonce_of_accounts (accounts_spendPayload (by simp [Pb.Message.type]) run)]
    simp [applyMoves]

theorem getNonce_spendTransaction (unpacked : unpack env txn.unsignedTx.payload = .ok message)
    (run : spendTransaction env config cs totalFee genesis height states txn = .ok states') (addr : Uint160) :
    states'.getNonce addr = states.getNonce addr +
      if countsNonce message = true ∧ addr = programHash env message then 1 else 0 := by
  obtain ⟨message', unpacked', _, payload⟩ := spendTransaction_eq_ok.mp run
  obtain rfl := ok_unique unpacked' unpacked
  rw [getNonce_spendPayload payload]
  unfold afterFee
  cases countsNonce message' <;> split_ifs <;> simp_all

theorem getBalance_nkn_spendTransaction (unpacked : unpack env txn.unsignedTx.payload = .ok message)
    (regular : message.type ≠ .coinbase) (issuedNKN : (states.assets.stored nknAssetID).isSome = true)
    (run : spendTransaction env config cs totalFee genesis height states txn = .ok states') (addr : Uint160) :
    states'.getBalance nknAssetID addr = states.getBalance nknAssetID addr - (if addr = programHash env message then
          chargedFee config height txn message + outlay states message else 0) +
        (if addr = payee message then outlay states message else 0) := by
  have other : (if nknAssetID = Transaction.hash env txn ∧ addr = programHash env message then
      issued message else 0) = 0 := by
    split_ifs with hit
    · obtain ⟨message', unpacked', _, payload⟩ := spendTransaction_eq_ok.mp run
      obtain rfl := ok_unique unpacked' unpacked
      cases message' with
      | issueAsset _ =>
        have new := stored_of_issueAsset payload
        rw [assets_afterFee, ← hit.1, issuedNKN] at new
        exact absurd new (by simp)
      | _ => rfl
    · rfl
  rw [getBalance_spendTransaction unpacked regular run, other, Int64.add_zero]
  simp only [true_and]

theorem chargedFee_coinbase : chargedFee config height txn (.coinbase coinbase) = txn.unsignedTx.fee := by
  unfold chargedFee paysFee
  split_ifs with pays <;> simp_all

theorem spendTransaction_coinbase_eq_ok
    (unpacked : unpack env txn.unsignedTx.payload = .ok (.coinbase coinbase)) (nonzero : height ≠ 0) :
    spendTransaction env config cs totalFee false height states txn = .ok states' ↔
      let sender := bytesToUint160 coinbase.sender
      let paid := afterFee config height states txn sender (.coinbase coinbase)
      (txn.unsignedTx.fee ≠ 0 → txn.unsignedTx.fee ≤ states.getBalance nknAssetID sender) ∧
      ∃ donation, cs.getDonation config = .ok donation ∧ donation ≤ paid.getBalance nknAssetID sender ∧
      ∃ asset, states.assets.read nknAssetID = some asset ∧ 0 < asset.totalSupply + getRewardByHeight height ∧
        states' = (payCoinbase paid coinbase donation totalFee).storeAsset nknAssetID
          { asset with totalSupply := asset.totalSupply + getRewardByHeight height } := by
  have assets (paid : StateDB) (donation : Int64) :
      (payCoinbase paid coinbase donation totalFee).assets = paid.assets := rfl
  simp only [spendTransaction_eq_ok, unpacked, ok.injEq, exists_eq_left', spendPayload,
    spendCoinbase_eq_ok nonzero, increaseTotalSupply_eq_ok, assets, assets_afterFee, paysFee, decide_eq_true_eq,
    programHash]

theorem getBalance_spendTransaction_coinbase {donation : Int64}
    (unpacked : unpack env txn.unsignedTx.payload = .ok (.coinbase coinbase)) (nonzero : height ≠ 0)
    (current : cs.getDonation config = .ok donation)
    (run : spendTransaction env config cs totalFee false height states txn = .ok states') (assetID : Uint256)
    (addr : Uint160) :
    states'.getBalance assetID addr = states.getBalance assetID addr -
        (if assetID = nknAssetID ∧ addr = bytesToUint160 coinbase.sender then
          txn.unsignedTx.fee + donation else 0) +
        (if assetID = nknAssetID ∧ addr = bytesToUint160 coinbase.recipient then coinbase.amount + totalFee else 0) := by
  obtain ⟨_, _, current', _, _, _, _, rfl⟩ := (spendTransaction_coinbase_eq_ok unpacked nonzero).mp run
  obtain rfl := ok_unique current' current
  rw [getBalance_of_accounts accounts_storeAsset]
  simp only [payCoinbase, getBalance_adjust, getBalance_afterFee, chargedFee_coinbase]
  split_ifs <;> grind

end Nkn.Store

namespace Nkn

open Store

structure Step where
  before : StateDB
  txn : Transaction
  after : StateDB

def trace (env : Env) (config : Config) (cs : ChainStore) (fees : Int64) (height : UInt32) :
    StateDB → List Transaction → List Step
  | _, [] => []
  | states, txn :: rest =>
    match spendTransaction env config cs fees false height states txn with
    | .ok after => ⟨states, txn, after⟩ :: trace env config cs fees height after rest
    | .error _ => []

theorem trace_cons {env : Env} {config : Config} {cs : ChainStore} {fees : Int64} {height : UInt32}
    {states after : StateDB} {txn : Transaction} {txns : List Transaction}
    (run : spendTransaction env config cs fees false height states txn = .ok after) :
    trace env config cs fees height states (txn :: txns) =
      ⟨states, txn, after⟩ :: trace env config cs fees height after txns := by
  simp only [trace, run]

end Nkn
