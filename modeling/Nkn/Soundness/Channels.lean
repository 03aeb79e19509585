import Nkn.Soundness.Concrete
import Nkn.Soundness.Ledger

/-! # Payment channels over a block

Block-level validation recognises a channel by the text of its sender and recipient, execution by their accounts. The
length check passes if one of the two has 20 bytes, and the other can be spelt in several ways, so that one block can hold
several payments on a channel. -/

namespace Nkn

open Go Outcome Config Store List

section

variable (env : Env) (config : Config) (channel : Channel)

def payment (txn : Transaction) : Option Pb.NanoPay :=
  match unpack env txn.unsignedTx.payload with
  | .ok message => paidOn channel message
  | .error _ => none

def paidAmounts (txns : List Transaction) : List Int64 := (txns.filterMap (payment env channel)).map (·.amount)

def paidFees (txns : List Transaction) : Int64 :=
  ((txns.filter fun txn => (payment env channel txn).isSome).map (·.unsignedTx.fee)).sum

def paySteps (steps : List Step) : List Step := steps.filter fun step => (payment env channel step.txn).isSome

def Step.change (addr : Uint160) (step : Step) : Int64 :=
  step.after.getBalance nknAssetID addr - step.before.getBalance nknAssetID addr

structure ChannelLaw (ledger : Ledger) (b : Block) : Prop where
  executed : (blockTrace env config ledger.toChainStore b).map Step.txn = b.transactions
  /-- Every payment claims a positive amount. -/
  positive : ∀ step ∈ blockTrace env config ledger.toChainStore b, ∀ nanoPay,
    payment env channel step.txn = some nanoPay → 0 < claimAmount step.before nanoPay
  grows : ∀ step ∈ blockTrace env config ledger.toChainStore b,
    channelBalance step.before channel ≤ channelBalance step.after channel
  /-- The payments move the last amount less the ledger's balance of the channel, and the sender pays their fees. -/
  settled : ∀ addr,
    let recorded := channelBalance ledger.states channel
    let claimed := (paidAmounts env channel b.transactions).getLastD recorded - recorded
    ((paySteps env channel (blockTrace env config ledger.toChainStore b)).map (Step.change addr)).sum =
      (if addr = channel.recipient then claimed else 0) -
        (if addr = channel.sender then claimed + paidFees env channel b.transactions else 0)

end

variable {env : Env} {config : Config} {cs : ChainStore} {b : Block} {states states' : StateDB}
  {height : UInt32} {fees : Int64} {txn : Transaction} {txns : List Transaction} {channel : Channel}

theorem payment_eq_some {nanoPay : Pb.NanoPay} (paid : payment env channel txn = some nanoPay) :
    unpack env txn.unsignedTx.payload = .ok (.nanoPay nanoPay) ∧ Channel.of nanoPay = channel := by
  unfold payment at paid
  cases unpacked : unpack env txn.unsignedTx.payload with
  | error _ => simp [unpacked] at paid
  | ok message =>
    rw [unpacked] at paid
    cases message with
    | nanoPay _ =>
      simp only [paidOn, Option.ite_none_right_eq_some, Option.some.injEq] at paid
      obtain ⟨on, rfl⟩ := paid
      exact ⟨rfl, on⟩
    | _ => simp [paidOn] at paid

theorem channelBalance_step (channel : Channel)
    (run : spendTransaction env config cs fees false height states txn = .ok states') :
    channelBalance states' channel = (payment env channel txn).elim (channelBalance states channel) (·.amount) := by
  obtain ⟨_, unpacked, _⟩ := spendTransaction_eq_ok.mp run
  simp only [channelBalance_spendTransaction unpacked run, payment, unpacked]

theorem change_of_payment {nanoPay : Pb.NanoPay} (charged : config.chargesNanoPay height = true)
    (paid : payment env channel txn = some nanoPay)
    (run : spendTransaction env config cs fees false height states txn = .ok states') (addr : Uint160) :
    let claim := nanoPay.amount - channelBalance states channel
    Step.change addr ⟨states, txn, states'⟩ = (if addr = channel.recipient then claim else 0) -
        (if addr = channel.sender then claim + txn.unsignedTx.fee else 0) := by
  obtain ⟨unpacked, rfl⟩ := payment_eq_some paid
  have fee : chargedFee config height txn (.nanoPay nanoPay) = txn.unsignedTx.fee := by
    unfold chargedFee paysFee
    split_ifs with pays <;> simp_all
  have after := getBalance_spendTransaction unpacked (by simp [Pb.Message.type]) run nknAssetID addr
  simp only [fee, issued, true_and, outlay, claimAmount_eq, payee, Transaction.programHash] at after
  simp only [Step.change, after, Channel.of]
  split_ifs <;> grind

section

variable (run : spendTransactions env config cs fees height states txns = .ok states')

include run

theorem txns_trace : (trace env config cs fees height states txns).map Step.txn = txns := by
  induction txns generalizing states with
  | nil => rfl
  | cons _ _ ih =>
    obtain ⟨_, first, rest⟩ := foldlM_cons_eq_ok.mp run
    rw [trace_cons first, map_cons, ih rest]

theorem positive_iff_isChain (channel : Channel) : (∀ step ∈ trace env config cs fees height states txns, ∀ nanoPay,
        payment env channel step.txn = some nanoPay → 0 < claimAmount step.before nanoPay) ↔
      (channelBalance states channel :: paidAmounts env channel txns).IsChain fun recorded amount =>
        0 < amount - recorded := by
  induction txns generalizing states with
  | nil => simp [trace, paidAmounts]
  | cons txn _ ih =>
    obtain ⟨_, first, rest⟩ := foldlM_cons_eq_ok.mp run
    have recorded := channelBalance_step channel first
    rw [trace_cons first, forall_mem_cons, ih rest]
    cases paid : payment env channel txn with
    | none =>
      rw [paid] at recorded
      simp [paidAmounts, paid, recorded]
    | some _ =>
      rw [paid] at recorded
      obtain ⟨-, rfl⟩ := payment_eq_some paid
      simp [paidAmounts, paid, recorded, claimAmount_eq]

theorem sum_change (charged : config.chargesNanoPay height = true) (channel : Channel) (addr : Uint160) :
    let recorded := channelBalance states channel
    let claimed := (paidAmounts env channel txns).getLastD recorded - recorded
    ((paySteps env channel (trace env config cs fees height states txns)).map (Step.change addr)).sum =
      (if addr = channel.recipient then claimed else 0) -
        (if addr = channel.sender then claimed + paidFees env channel txns else 0) := by
  induction txns generalizing states with
  | nil => simp [trace, paySteps, paidAmounts, paidFees]
  | cons txn _ ih =>
    obtain ⟨_, first, rest⟩ := foldlM_cons_eq_ok.mp run
    have recorded := channelBalance_step channel first
    have tail := ih rest
    rw [trace_cons first]
    cases paid : payment env channel txn with
    | none =>
      rw [paid] at recorded
      simpa [paySteps, paidAmounts, paidFees, paid, recorded] using tail
    | some _ =>
      rw [paid] at recorded
      have change := change_of_payment charged paid first addr
      simp only [recorded] at tail
      simp only [paySteps, paidAmounts, paidFees, filter_cons, filterMap_cons, paid, Option.isSome_some,
        if_true, map_cons, sum_cons, getLastD_cons] at tail ⊢
      rw [tail, change]
      split_ifs <;> grind

theorem channelBalance_grows
    (rising : (channelBalance states channel :: paidAmounts env channel txns).Pairwise (· < ·)) :
    ∀ step ∈ trace env config cs fees height states txns,
      channelBalance step.before channel ≤ channelBalance step.after channel := by
  induction txns generalizing states with
  | nil => simp [trace]
  | cons txn _ ih =>
    obtain ⟨_, first, rest⟩ := foldlM_cons_eq_ok.mp run
    have recorded := channelBalance_step channel first
    rw [trace_cons first, forall_mem_cons]
    cases paid : payment env channel txn with
    | none =>
      rw [paid, Option.elim_none] at recorded
      simp only [paidAmounts, filterMap_cons, paid] at rising
      exact ⟨by simp [recorded], ih rest (recorded ▸ rising)⟩
    | some _ =>
      rw [paid, Option.elim_some] at recorded
      simp only [paidAmounts, filterMap_cons, paid, map_cons] at rising
      obtain ⟨less, rising⟩ := pairwise_cons.mp rising
      rw [← recorded] at less rising
      exact ⟨Int64.le_of_lt (less _ mem_cons_self), ih rest rising⟩

end

theorem sub_pos_iff {a b : Int64} (ha : AmountOk a) (hb : AmountOk b) : 0 < b - a ↔ a < b := by
  unfold AmountOk maxAmount at ha hb
  rw [lt_iff_toInt, lt_iff_toInt, toInt_sub_of_fits ⟨by omega, by omega⟩, toInt_zero]
  omega

theorem isChain_iff_pairwise {recorded : Int64} {amounts : List Int64} (ok : ∀ amount ∈ amounts, AmountOk amount)
    (claims : ∀ amount ∈ amounts, 0 < amount - recorded) :
    (recorded :: amounts).IsChain (fun recorded amount => 0 < amount - recorded) ↔ amounts.Pairwise (· < ·) := by
  cases amounts with
  | nil => simp
  | cons first rest =>
    have order : ∀ x ∈ first :: rest, ∀ y ∈ first :: rest, (0 < y - x ↔ x < y) :=
      fun x hx y hy => sub_pos_iff (ok x hx) (ok y hy)
    have trans : Trans (α := Int64) (β := Int64) (γ := Int64) (· < ·) (· < ·) (· < ·) := ⟨Int64.lt_trans⟩
    rw [isChain_cons_cons, and_iff_right (claims first mem_cons_self), ← List.isChain_iff_pairwise]
    exact ⟨List.IsChain.imp_of_mem_imp fun x y hx hy => (order x hx y hy).mp,
      List.IsChain.imp_of_mem_imp fun x y hx hy => (order x hx y hy).mpr⟩

theorem paidAmounts_ok {state : CheckState} (channel : Channel)
    (checked : checkTransactions env config cs height txns = .ok state) :
    ∀ amount ∈ paidAmounts env channel txns, AmountOk amount ∧ channelBalance cs.states channel < amount ∧
      0 < amount - channelBalance cs.states channel := by
  intro amount member
  simp only [paidAmounts, mem_map, mem_filterMap] at member
  obtain ⟨_, ⟨txn, member, paid⟩, rfl⟩ := member
  obtain ⟨_, _, turn⟩ := checkTransactions_forall checked txn member
  obtain ⟨unpacked, rfl⟩ := payment_eq_some paid
  have ok := checkTransaction_paymentOk unpacked turn
  exact ⟨ok.amountOk, ok.exceeds, ok.claims⟩

/-- On a channel, an accepted block follows the law exactly when the amounts of its payments on the channel increase
in block order. -/
theorem channel_law_iff (ledger : Ledger) (accepted : transactionCheck env config ledger.toChainStore b = .ok ())
    (charged : config.chargesNanoPay b.height = true) (channel : Channel) :
    ChannelLaw env config channel ledger b ↔ (paidAmounts env channel b.transactions).Pairwise (· < ·) := by
  obtain ⟨first, rest, coinbase, donation, state, start, spent, accepted⟩ := transactionCheck_accepted accepted
  have steps := accepted.blockTrace_eq
  have recorded := ledger.channelBalance_start accepted.started channel
  have ok := paidAmounts_ok channel accepted.checked
  have positive := positive_iff_isChain accepted.run channel
  rw [recorded, isChain_iff_pairwise (fun amount member => (ok amount member).1)
    fun amount member => (ok amount member).2.2] at positive
  rw [accepted.transactions]
  constructor
  · intro law
    exact positive.mp (steps ▸ law.positive)
  · intro rising
    refine ⟨?_, ?_, ?_, fun addr => ?_⟩
    · rw [steps, txns_trace accepted.run, accepted.transactions]
    · rw [steps]
      exact positive.mpr rising
    · rw [steps]
      refine channelBalance_grows accepted.run (List.pairwise_cons.mpr ⟨fun amount member => ?_, rising⟩)
      rw [recorded]
      exact (ok amount member).2.1
    · have sum := sum_change accepted.run charged channel addr
      rw [recorded] at sum
      rw [steps, accepted.transactions]
      exact sum

/-! The block holds two payments on one channel: the first spells the recipient with 20 bytes and claims 100 NKN, the
second puts a zero byte in front and claims 50 NKN. The second payment takes 50 NKN back. -/

namespace RespelledChannel

open Sample

def senderKey : Bytes := (Word.ofNat 32 0x8139770ea87d175f56a35466c34c7ecccb8d8a91b4ee37a25df60f5b8fc9b394).toArray

def sender : Uint160 := Word.ofNat 20 0x215740cc528984139242a08d2be583c30175e469

def recipient : Uint160 := Word.ofNat 20 0x9452356093d422e2a9de176619b5adf3015124d9

def paidChannel : Channel := ⟨sender, recipient, 7⟩

def firstPayment : Pb.NanoPay := ⟨sender.toArray, recipient.toArray, 7, 10000000000, 5001000, 5001000⟩

def secondPayment : Pb.NanoPay := ⟨sender.toArray, 0 :: recipient.toArray, 7, 5000000000, 5001000, 5001000⟩

def firstSignature : Bytes :=
  (Word.ofNat 64 0xe603a9c36f79ecd61a6f5e874650b58b52300c97f9529326b3a5caceac051b692d3d39ca387f1fc954bf0de259659799a2e464f9fec89f9dc1cd9e79ac2d9f0b).toArray

def secondSignature : Bytes :=
  (Word.ofNat 64 0xdb1257c45ce5a8a3cca7bb73ea3c339677708dbf062bcf99fc525894f0f8da4bc270fac2ac04e0bb997c2209e4a4c5851c8cd937753645b2784c763383f7bc0b).toArray

def paymentTxn (nanoPay : Pb.NanoPay) (signature : Bytes) : Transaction :=
  ⟨packed (.nanoPay nanoPay) 0 0, [⟨createSignatureProgramCode senderKey, 64 :: signature⟩]⟩

def transactions : List Transaction :=
  [coinbaseTxn 1 0, paymentTxn firstPayment firstSignature, paymentTxn secondPayment secondSignature]

def coinbaseHash : Uint256 := Word.ofNat 32 0xcd42b2a47e44ed2379007a72558d32c13888f56ca90338f3c908cfc616142eeb

def firstHash : Uint256 := Word.ofNat 32 0x9a7c6c77c9d853168acf1c325244a90288f2da17dd494f60ff6a31cd2ce0873f

def secondHash : Uint256 := Word.ofNat 32 0x7224e0e455603ece485300f74f47572b612e5a7446d71e32560b63bcd1a899b8

def firstHashForSigning : Uint256 := Word.ofNat 32 0xaa210e6b4f27d96ad440c157f7d3aa34f0b7ccbc428e65a81c04e08f78fdb03a

def secondHashForSigning : Uint256 :=
  Word.ofNat 32 0xe052a3bb54180a171b76199acf055dc35196e0117819c50a99013ac7c8b61a05

def leftNode : Uint256 := Word.ofNat 32 0x6d392c4abc599235333ba8c46c110bb47284de9563663a45415e81cf380c87af

def rightNode : Uint256 := Word.ofNat 32 0x1ec9bfea0db52cf5e394caac530a9cc03c57e4730827e2feb5ea295d72e57e28

def txnsRoot : Uint256 := Word.ofNat 32 0xe8b4c1c62b7113e366d6c614aa88b4edd4e9776bc160bd1dbdb383c4b698e8d0

def root : Uint256 := Word.ofNat 32 0x2436ab6dea66b5b3eb959bb570359f1ae3aaf2412d6735e2776b9cec4320b28d

def nextRoot : Uint256 := Word.ofNat 32 0x15f0d604bb23dd741b3dcffb8432e3e52492fb2393c7703fcef32ed0b3532f76

def codeHash : Uint256 := Word.ofNat 32 0x883c722f7199a55ca4ed6d45a061378a2bf334798063e7280adae54400d073ec

def tables : Tables where
  sha256 :=
    (createSignatureProgramCode senderKey, codeHash) ::
    Tables.hashedTwice (Transaction.serializeUnsigned (coinbaseTxn 1 0))
      (Word.ofNat 32 0x919074897ee066ff951494bd97727b92b24458eac388018d3763840201395c02) coinbaseHash ++
    Tables.hashedTwice (Transaction.serializeUnsigned (paymentTxn firstPayment firstSignature)) firstHashForSigning
      firstHash ++
    Tables.hashedTwice (Transaction.serializeUnsigned (paymentTxn secondPayment secondSignature)) secondHashForSigning
      secondHash ++
    Tables.hashedTwice (coinbaseHash.toArray ++ firstHash.toArray)
      (Word.ofNat 32 0x646df7b0e52bc6720b6f28db30aacb2dad381c359eea076d33ab0235794da2ab) leftNode ++
    Tables.hashedTwice (secondHash.toArray ++ secondHash.toArray)
      (Word.ofNat 32 0xc353df7c5cabc012912580168858b9ca2fac55e921f02a51f6bc3d73750c3588) rightNode ++
    Tables.hashedTwice (leftNode.toArray ++ rightNode.toArray)
      (Word.ofNat 32 0xbc54740b45a93f254079c4434f15b53d1ac583530e66985a0ddc752a4b825ded) txnsRoot
  ripemd160 := [(codeHash.toArray, sender)]
  signatures :=
    [(senderKey, firstHashForSigning.toArray, firstSignature),
      (senderKey, secondHashForSigning.toArray, secondSignature)]
  messages := [.coinbase coinbase, .nanoPay firstPayment, .nanoPay secondPayment]
  stateRoot := fun _ => nextRoot

def trie : StateTrie := .ofBalances [(donationAddress, 100000000000), (sender, 20000000000)] 80000000000000000

def ledger : Ledger where
  toChainStore := chainStore root trie
  trie := trie
  opens := rfl
  mirrors := mirrors_new trie

def block : Block := ⟨header 5000000 txnsRoot nextRoot, transactions⟩

theorem accepted : transactionCheck tables.env mainnet ledger.toChainStore block = .ok () := by
  decide +kernel

/-- The block is accepted, and its second payment claims a negative amount. -/
theorem respelled_channel_claims_back : mainnet.chargesNanoPay block.height = true ∧
      transactionCheck tables.env mainnet ledger.toChainStore block = .ok () ∧
      ¬ ChannelLaw tables.env mainnet paidChannel ledger block := by
  refine ⟨by decide, accepted, fun law => ?_⟩
  have claims : ((blockTrace tables.env mainnet ledger.toChainStore block).map fun step =>
      (payment tables.env paidChannel step.txn).map (claimAmount step.before)) =
      [none, some 10000000000, some (-5000000000)] := by decide +kernel
  obtain ⟨step, member, claim⟩ := List.mem_map.mp
    (claims ▸ (by simp : some (-5000000000) ∈ [none, some 10000000000, some (-5000000000 : Int64)]))
  obtain ⟨nanoPay, paid, amount⟩ := Option.map_eq_some_iff.mp claim
  have positive := law.positive step member nanoPay paid
  rw [amount] at positive
  exact absurd positive (by decide)

theorem channel_law_iff_block : ChannelLaw tables.env mainnet paidChannel ledger block ↔
      (paidAmounts tables.env paidChannel block.transactions).Pairwise (· < ·) :=
  channel_law_iff ledger accepted (by decide) paidChannel

end RespelledChannel

end Nkn
