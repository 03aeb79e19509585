import Nkn.Soundness.Concrete
import Nkn.Soundness.Ledger

/-! # The donation account

The coinbase is sent from the donation account without a signature. Execution takes the donation from that account, and
also the coinbase's fee, which may be positive. -/

namespace Nkn

open Go Outcome Config Store

variable {env : Env} {config : Config} {b : Block}

/-- Executing the block changes the balance of the donation account by the donation and by what the block's
transactions credit to it. -/
def DonationProtected (env : Env) (config : Config) (ledger : Ledger) (b : Block) : Prop :=
  ∀ commit, ∃ donation states root, ledger.getDonation config = .ok donation ∧
    generateStateRoot env config ledger.toChainStore b true commit = .ok (states, root) ∧
    states.getBalance nknAssetID donationAddress =
      ledger.getBalance donationAddress - donation + blockCredits env config ledger.toChainStore b donationAddress

def coinbaseFee (b : Block) : Int64 := (b.transactions.head?.map (·.unsignedTx.fee)).getD 0

section

variable {cs : ChainStore} {height : UInt32} {fees : Int64} {start spent : StateDB} {first : Transaction}
  {rest : List Transaction} {coinbase : Pb.Coinbase} {donation : Int64} {trie : StateTrie}

theorem CoinbaseOk.issuedNKN (ok : CoinbaseOk env config cs height first coinbase donation)
    (assets : start.assets = Table.ofStore trie.assets)
    (run : spendTransaction env config cs fees false height start first = .ok spent) :
    (start.assets.stored nknAssetID).isSome = true := by
  obtain ⟨_, _, _, _, _, read, _⟩ := (spendTransaction_coinbase_eq_ok ok.verified.unpacked ok.nonzero).mp run
  rw [assets, Table.read_ofStore] at read
  simp only [assets, Table.ofStore, read, Option.isSome_some]

theorem getBalance_donation_run (ok : CoinbaseOk env config cs height first coinbase donation)
    (assets : start.assets = Table.ofStore trie.assets)
    (others : ∀ txn ∈ rest, ∃ message, unpack env txn.unsignedTx.payload = .ok message ∧
      message.type ≠ .coinbase ∧ Transaction.programHash env message ≠ donationAddress)
    (run : spendTransactions env config cs fees height start (first :: rest) = .ok spent) :
    spent.getBalance nknAssetID donationAddress =
      start.getBalance nknAssetID donationAddress - (first.unsignedTx.fee + donation) +
        ((trace env config cs fees height start (first :: rest)).map (Step.credit env fees donationAddress)).sum := by
  obtain ⟨middle, runFirst, runRest⟩ := foldlM_cons_eq_ok.mp run
  have issuedNKN : (middle.assets.stored nknAssetID).isSome = true := by
    rw [assets_spendTransaction runFirst, ok.issuedNKN assets runFirst]
  have payout : Step.credit env fees donationAddress ⟨start, first, middle⟩ =
      if donationAddress = bytesToUint160 coinbase.recipient then coinbase.amount + fees else 0 := by
    simp only [Step.credit, ok.verified.unpacked]
  rw [getBalance_credits issuedNKN others runRest,
    getBalance_spendTransaction_coinbase ok.verified.unpacked ok.nonzero ok.current runFirst, trace_cons runFirst,
    List.map_cons, List.sum_cons, payout]
  simp only [ok.sender, true_and, if_true]
  grind

end

theorem getBalance_donation (ledger : Ledger) (accepted : transactionCheck env config ledger.toChainStore b = .ok ())
    (unsigned : DonationUnsigned env b.transactions) (commit : Bool) :
    ∃ donation states root, ledger.getDonation config = .ok donation ∧
      generateStateRoot env config ledger.toChainStore b true commit = .ok (states, root) ∧
      states.getBalance nknAssetID donationAddress = ledger.getBalance donationAddress - (coinbaseFee b + donation) +
          blockCredits env config ledger.toChainStore b donationAddress := by
  obtain ⟨_, rest, coinbase, donation, _, _, _, accepted⟩ := transactionCheck_accepted accepted
  obtain ⟨balances, _⟩ := accepted.reads_finalize (finalizesLegacyNames config ledger.toChainStore) commit
  obtain ⟨same, before⟩ := ledger.blockStart_reads accepted.started
  have others : ∀ txn ∈ rest, ∃ message, unpack env txn.unsignedTx.payload = .ok message ∧
      message.type ≠ .coinbase ∧ Transaction.programHash env message ≠ donationAddress := by
    intro txn member
    obtain ⟨message, verified, regular⟩ := accepted.following txn member
    exact ⟨message, verified.unpacked, regular,
      unsigned.sender_ne (by simp [accepted.transactions, member]) verified regular⟩
  refine ⟨donation, _, _, accepted.coinbaseOk.current, accepted.generates commit, ?_⟩
  rw [balances, getBalance_donation_run accepted.coinbaseOk same.assets others accepted.run, before, blockCredits,
    accepted.blockTrace_eq, coinbaseFee, accepted.transactions]
  rfl

/-- An accepted block treats the donation account as it should exactly when its coinbase has no fee. -/
theorem donation_protected_iff (ledger : Ledger)
    (accepted : transactionCheck env config ledger.toChainStore b = .ok ())
    (unsigned : DonationUnsigned env b.transactions) :
    DonationProtected env config ledger b ↔ coinbaseFee b = 0 := by
  constructor
  · intro isProtected
    obtain ⟨donation, states, root, current, generated, balance⟩ := isProtected true
    obtain ⟨donation', states', root', current', generated', balance'⟩ :=
      getBalance_donation ledger accepted unsigned true
    obtain rfl := ok_unique current' current
    obtain ⟨rfl, rfl⟩ : states' = states ∧ root' = root := by
      simpa using ok_unique generated' generated
    rw [balance] at balance'
    grind
  · intro noFee commit
    obtain ⟨donation, states, root, current, generated, balance⟩ :=
      getBalance_donation ledger accepted unsigned commit
    refine ⟨donation, states, root, current, generated, ?_⟩
    rw [balance, noFee, Int64.zero_add]

/-! On a ledger at height 4999999 the donation account holds 1000 NKN. The next block consists of a coinbase
transaction with a fee of 100 NKN, which its recipient gets back as the block's total fee. -/

namespace CoinbaseFee

open Sample

def txnHash : Uint256 := Word.ofNat 32 0x3f62684d2bb4e66a1c9dc681623086f8e19947b34eabe5151b992d1a298aa110

def root : Uint256 := Word.ofNat 32 0xb4077d8648f4909b82420477553a2ddecee114b70b283884ec10c3419180e2c5

def nextRoot : Uint256 := Word.ofNat 32 0x65e37476a2f2f2389dc4b1d0e08b3239598e120db51ea4c5cc438fecab23cead

def tables : Tables where
  sha256 := Tables.hashedTwice (Transaction.serializeUnsigned (coinbaseTxn 0 10000000000))
    (Word.ofNat 32 0xa709da73c584277b0cda637ddd86e64597c68bfd48db15bc8e4334121f036f15) txnHash
  messages := [.coinbase coinbase]
  stateRoot := fun _ => nextRoot

def trie : StateTrie := .ofBalances [(donationAddress, 100000000000)] 80000000000000000

def ledger : Ledger where
  toChainStore := chainStore root trie
  trie := trie
  opens := rfl
  mirrors := mirrors_new trie

def block : Block := ⟨header 5000000 txnHash nextRoot, [coinbaseTxn 0 10000000000]⟩

theorem accepted : transactionCheck tables.env mainnet ledger.toChainStore block = .ok () := by
  decide +kernel

theorem unsigned : DonationUnsigned tables.env block.transactions := by
  simp [DonationUnsigned, Transaction.SignedBy, block, coinbaseTxn]

/-- The block is accepted, and the donation account loses 100 NKN more than the donation. -/
theorem donation_account_pays_fee :
    mainnet.isLegacy block.height = false ∧ mainnet.chargesNanoPay block.height = true ∧
      transactionCheck tables.env mainnet ledger.toChainStore block = .ok () ∧
      DonationUnsigned tables.env block.transactions ∧ ¬ DonationProtected tables.env mainnet ledger block := by
  refine ⟨by decide, by decide, accepted, unsigned, fun isProtected => ?_⟩
  obtain ⟨donation, states, root, current, generated, balance⟩ := isProtected true
  have paid : (generateStateRoot tables.env mainnet ledger.toChainStore block true true).map
      (fun result => result.1.getBalance nknAssetID donationAddress) = .ok 89999956000 := by decide +kernel
  have credits : blockCredits tables.env mainnet ledger.toChainStore block donationAddress = 0 := by decide +kernel
  obtain rfl : 44000 = donation := by
    have amount : ledger.getDonation mainnet = .ok 44000 := by decide +kernel
    exact ok_unique amount current
  have before : ledger.getBalance donationAddress = 100000000000 := by decide +kernel
  rw [generated, Except.map, Except.ok.injEq, balance, credits, before] at paid
  exact absurd paid (by decide)

theorem donation_protected_iff_block : DonationProtected tables.env mainnet ledger block ↔ coinbaseFee block = 0 :=
  donation_protected_iff ledger accepted unsigned

end CoinbaseFee

end Nkn
