import Nkn.Soundness.Concrete
import Nkn.Proofs.DiskFaults

/-! # Storage faults

When reads of trie nodes fail, `generateStateRoot` returns an error or the right root, as long as none fails in a lookup
of an account or of an asset that the block sets. -/

namespace Nkn

open Go Outcome Config Store Disk

variable {env : Env} {config : Config} {faults : Faults}

/-- Unless reads fail in lookups of accounts or of the assets that the block sets, a state root that is returned is the
one without faults. -/
theorem stateRoot_despite_faults {b : Block} (spared : faults.Spares env b) (order : Enumeration) (store : Disk.ChainStore)
    (genesisBlockInitialized needBeCommitted : Bool) :
    Fails (Disk.generateStateRoot faults env config order store b genesisBlockInitialized needBeCommitted) ∨
      Disk.generateStateRoot faults env config order store b genesisBlockInitialized needBeCommitted =
        Disk.generateStateRoot .none env config order store b genesisBlockInitialized needBeCommitted := by
  refine Follows.bind (.refl _) fun stateRoot => (newStateDB_follows store.nodes stateRoot).bind fun states => ?_
  have generated : BlockTracks (fun _ => True) (generateRoot faults env config order store.cs b needBeCommitted)
      (generateRoot .none env config order store.cs b needBeCommitted) := by
    refine (blockTracks_executeBlock stable_true spared (fun _ _ _ _ => trivial) store.cs).bind fun _ => ?_
    exact blockTracks_onStates (interrupted_finalize _ needBeCommitted)
  rcases generated ⟨states, store.states, 1⟩ trivial with failed | ⟨same, -⟩
  · exact .inl (Fails.bind_iff.mpr (.inl failed))
  · exact .inr (by simp only [same])

namespace TwoAccounts

def leaf (nonce : UInt64) (balance : Int64) : Bytes :=
  let acc := (Account.new.setNonce nonce).setBalance nknAssetID balance
  (Trie.Collapsed.shortNode (Trie.hexToCompact [16]) (.valueNode (acc.serialize [nknAssetID]))).serialize

def branch (first second : Uint256) : Bytes :=
  (Trie.Collapsed.fullNode fun i =>
    if i = 1 then .hashNode first.toArray else if i = 2 then .hashNode second.toArray else .valueNode []).serialize

def top (branch : Uint256) : Bytes :=
  (Trie.Collapsed.shortNode (Trie.hexToCompact (List.replicate 41 0)) (.hashNode branch.toArray)).serialize

def sender : Uint160 := Word.ofNat 20 1

def recipient : Uint160 := Word.ofNat 20 2

def transfer : Pb.TransferAsset := ⟨sender.toArray, recipient.toArray, 3⟩

def senderLeaf : Uint256 := Word.ofNat 32 0xceb5d6fd7df33c2c6f077512eee97138264e61ef0a09d1e2bc071db3719b75b9

def recipientLeaf : Uint256 := Word.ofNat 32 0xee9caff0d4d83bfdee07dd339390c33fb8b641c6dfd2c8dd829c43526d3c76d6

def branchHash : Uint256 := Word.ofNat 32 0xd92f36538db5c7d115133092f0fb42b051c5eb0ddfe5a485e0f7f5036394cc65

def root : Uint256 := Word.ofNat 32 0xc82b1110e85a491cbdc59aad5149f30435eab739495f50b7f7f858597bc9056b

def payerLeaf : Uint256 := Word.ofNat 32 0x36689f22cea01a8749de1adb6cda42805709ff0cd8a7519bf927e35e843e64a4

def payeeLeaf : Uint256 := Word.ofNat 32 0xeb534aefe665597569dd3bff8f218def6562f2c706506e1fab82362dd35d9bc3

def paidBranch : Uint256 := Word.ofNat 32 0x6c95f989aa3be7796e37aa3da7a8f14aef7b7c708902532a400b19acc25bede2

def paidRoot : Uint256 := Word.ofNat 32 0xfa655196e15f7d80ef6d3111f1ffebb762cf03112bdeb84e12cbd5b36e4da619

def lostLeaf : Uint256 := Word.ofNat 32 0xa8bc3e14dcdaa2463cdab1b1a1105f1d4eb1773f74906d0e4e653c3a76d5e63c

def lostBranch : Uint256 := Word.ofNat 32 0x3214c40ed408c83a51fbc6baffe24278099b1d7b4575d3c05851dd54f1c0fb7b

def lostRoot : Uint256 := Word.ofNat 32 0x4c23d3a20491375e45ea605533a6ad2841693e44b5486f9cc1b37b2bc853e590

def tables : Tables where
  sha256 :=
    Tables.hashedTwice (leaf 0 10)
      (Word.ofNat 32 0xc1d84fff775499485154a19cf4b887099b64dc094edaab0478e997cc574bc622) senderLeaf ++
    Tables.hashedTwice (leaf 0 5)
      (Word.ofNat 32 0x619c5ee5ab998124467a16cfafb9b481abc097a766b08253b43246c83b2e6070) recipientLeaf ++
    Tables.hashedTwice (branch senderLeaf recipientLeaf)
      (Word.ofNat 32 0xcfb68b99aa3ee9a29702a41e59692aa7c5c3fe2a7c85d9f91116a2d977d0e439) branchHash ++
    Tables.hashedTwice (top branchHash)
      (Word.ofNat 32 0x909bab4943259bcc8bfedfefcbf3907a9e0a176a52dcef9705d5c41aa8d5124a) root ++
    Tables.hashedTwice (leaf 1 7)
      (Word.ofNat 32 0xd5c4d58b7ab4f8beef620ddc373e4e21d82aacaf71955ced01130bd2e7ca7b03) payerLeaf ++
    Tables.hashedTwice (leaf 0 8)
      (Word.ofNat 32 0x4415dbb2ca01fa0d2ff98d8a8949f8e2c789a34d4b539f1b68e25f983999bad3) payeeLeaf ++
    Tables.hashedTwice (branch payerLeaf payeeLeaf)
      (Word.ofNat 32 0x0ca25ea51f74a3bee75e11bf658d0e680879ba2828e61343ef7b59bf62477039) paidBranch ++
    Tables.hashedTwice (top paidBranch)
      (Word.ofNat 32 0x8ff83fd73cf9d250b576b7f2c2f62ea3ca79bb0228bcf6072b29f0c822ba98a0) paidRoot ++
    Tables.hashedTwice (leaf 0 3)
      (Word.ofNat 32 0x4f96646921400ee05d009974c6040d2f83155f19017d67f8abfd272326670add) lostLeaf ++
    Tables.hashedTwice (branch payerLeaf lostLeaf)
      (Word.ofNat 32 0xc909e1b4d02b711f76890c03ce8a6842ab394de871c80688564a4781d19da3db) lostBranch ++
    Tables.hashedTwice (top lostBranch)
      (Word.ofNat 32 0x1ec89c332b833675a95c33b008af1caecd56b903ce3ed3e870fb26878ffc64bc) lostRoot
  messages := [.transferAsset transfer]

def nodes : Trie.Database := fun hash =>
  [(senderLeaf.toArray, leaf 0 10), (recipientLeaf.toArray, leaf 0 5),
    (branchHash.toArray, branch senderLeaf recipientLeaf), (root.toArray, top branchHash)].lookup hash

def trie : StateTrie :=
  { StateTrie.empty with
    accounts := fun addr =>
      if addr = sender then some (Account.new.setBalance nknAssetID 10)
      else if addr = recipient then some (Account.new.setBalance nknAssetID 5)
      else none }

def block : Block :=
  ⟨Sample.header 1 emptyUint256 paidRoot, [⟨packed (.transferAsset transfer) 0 0, []⟩]⟩

def store : Disk.ChainStore where
  cs := .holding root trie emptyUint256 block [] 0
  nodes := nodes
  states := { trie := { root := .hashNode root.toArray, db := nodes } }

def fault : Faults := fun site calls hash =>
  site = .access (.tryGet (accountPrefix ++ recipient.toArray)) ∧ calls = 2 ∧ hash = recipientLeaf.toArray

/-- The lookups of the asset and of the channels that expire fail. -/
def otherFault : Faults := fun site _ _ =>
  site = .access (.tryGet (issueAssetPrefix ++ nknAssetID.toArray)) ∨
    site = .access (.tryGet (nanoPayCleanupPrefix ++ writeUint32 1))

theorem stateRoot_despite_otherFault : otherFault.Spares tables.env block ∧
    (Fails (Disk.generateStateRoot otherFault tables.env mainnet .stored store block true false) ∨
      Disk.generateStateRoot otherFault tables.env mainnet .stored store block true false =
        Disk.generateStateRoot .none tables.env mainnet .stored store block true false) := by
  have spared : otherFault.Spares tables.env block := by
    refine ⟨fun addr calls hash => ?_, fun genesis => absurd genesis (by decide), fun txn member issue unpacked => ?_⟩
    · refine decide_eq_false ?_
      simp [accountPrefix, issueAssetPrefix, nanoPayCleanupPrefix]
    · obtain rfl := List.mem_singleton.mp member
      have transfers : unpack tables.env (packed (.transferAsset transfer) 0 0).payload = .ok (.transferAsset transfer) := by
        decide +kernel
      cases transfers.symm.trans unpacked
  exact ⟨spared, stateRoot_despite_faults spared .stored store true false⟩

/-- The recipient's account cannot be read once. `UpdateBalance` then takes it as empty, and the block is executed to a
root in which the recipient has lost its 5. -/
theorem stateRoot_with_lost_account :
    (Disk.generateStateRoot .none tables.env mainnet .stored store block true false).map Prod.snd = .ok paidRoot ∧
    (Disk.generateStateRoot fault tables.env mainnet .stored store block true false).map Prod.snd = .ok lostRoot ∧
    paidRoot ≠ lostRoot := by
  decide +kernel

end TwoAccounts

end Nkn
