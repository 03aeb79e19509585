import Nkn.Lib.Merkle
import Nkn.Model.Proposal
import Nkn.Model.Syncing
import Nkn.Proofs.Sequence
import Nkn.Soundness.Chain

/-! # What a header fixes of its transactions

At a level with an odd number of nodes the last one is its own partner, so a list and the list with its end repeated can
have the same root. -/

namespace Nkn

open Go Outcome Store

variable {env : Env} {config : Config} {cs cs' : ChainStore} {b b' : Block} {fastSync fastSync' : Bool}

def innerNode (env : Env) (left right : Uint256) : Uint256 := doubleSha256 env [left, right]

theorem levelUp_eq_up (nodes : List Uint256) : levelUp env nodes = Merkle.up (innerNode env) nodes := by
  fun_induction levelUp env nodes with
  | case1 _ _ _ ih => simp [Merkle.up, Merkle.pairs, innerNode, ih]
  | case2 _ => rfl
  | case3 => rfl

theorem climb_eq_ok {levels : Nat} {nodes : List Uint256} {top : Uint256} :
    climb env levels nodes = .ok top ↔ Merkle.root (innerNode env) levels nodes = some top := by
  induction levels generalizing nodes with
  | zero =>
    match nodes with
    | [single] => simp [climb, Merkle.root]
    | [] | _ :: _ :: _ => simp [climb, Merkle.root]
  | succ _ ih =>
    match nodes with
    | [single] => simp [climb, Merkle.root]
    | [] | _ :: _ :: _ =>
      simp only [climb, Merkle.root, ← levelUp_eq_up]
      exact ih

def txnHashes (env : Env) (b : Block) : List Uint256 := b.transactions.map (Transaction.hash env)

def merklePairs (env : Env) (b : Block) : List (Uint256 × Uint256) :=
  Merkle.hashed (innerNode env) (txnHashes env b).length (txnHashes env b)

theorem accepted_txnsRoot (accepted : transactionCheckWith env config cs fastSync b = .ok ()) :
    ∃ txnsRoot, computeRoot env (txnHashes env b) = .ok txnsRoot ∧
      txnsRoot.toArray = b.header.unsignedHeader.transactionsRoot := by
  cases fastSync with
  | false => exact transactionCheck_txnsRoot accepted
  | true =>
    simp only [transactionCheckWith, if_true, fastTransactionCheck, bind_eq_ok, rejectIf_eq_ok, not_not, labelled_eq_ok,
      ne_eq, exists_const] at accepted
    obtain ⟨-, -, -, -, txnsRoot, computed, same, -⟩ := accepted
    exact ⟨txnsRoot, computed, same⟩

theorem nodup_of_accepted (accepted : transactionCheckWith env config cs false b = .ok ()) : (txnHashes env b).Nodup := by
  simp only [transactionCheckWith, Bool.false_eq_true, if_false, transactionCheck, bind_eq_ok] at accepted
  obtain ⟨_, -, _, -, _, -, _, -, _, -, _, -, _, checked, -⟩ := accepted
  exact (checkTransactions_nodup (checkTransactions_foldlM checked)).1

/-- The full check accepts no list with a repeated hash, and any two lists without one that are accepted for a header, in
whichever mode, are the same. -/
theorem header_fixes_transactions (same : b.header = b'.header)
    (accepted : transactionCheckWith env config cs fastSync b = .ok ())
    (accepted' : transactionCheckWith env config cs' fastSync' b' = .ok ())
    (apart : Merkle.Apart (innerNode env) (txnHashes env b) (txnHashes env b')
      fun pair => pair ∈ merklePairs env b ∨ pair ∈ merklePairs env b') :
    (fastSync = false → (txnHashes env b).Nodup) ∧
      ((txnHashes env b).Nodup → (txnHashes env b' = txnHashes env b ↔ (txnHashes env b').Nodup)) := by
  constructor
  · rintro rfl
    exact nodup_of_accepted accepted
  · intro distinct
    constructor
    · intro equal
      rwa [equal]
    · intro distinct'
      obtain ⟨root, computed, inHeader⟩ := accepted_txnsRoot accepted
      obtain ⟨root', computed', inHeader'⟩ := accepted_txnsRoot accepted'
      obtain rfl : root = root' := Word.toArray_inj.mp (inHeader.trans (same ▸ inHeader'.symm))
      exact (Merkle.eq_of_root (climb_eq_ok.mp computed) (climb_eq_ok.mp computed') distinct distinct'
        (fun _ => id) apart).symm

/-- The loop of `hasDuplicateHash`, which counts the hashes that it has passed. -/
def repeats (count : GoMap Uint256 Nat) : List Uint256 → Bool
  | [] => false
  | txnHash :: rest =>
    if count.read 0 txnHash > 0 then true else repeats (count.store txnHash (count.read 0 txnHash + 1)) rest

theorem repeats_eq_false {count : GoMap Uint256 Nat} {hashes : List Uint256} :
    repeats count hashes = false ↔ hashes.Nodup ∧ ∀ hash ∈ hashes, count.read 0 hash = 0 := by
  induction hashes generalizing count with
  | nil => simp [repeats]
  | cons first _ ih =>
    rw [repeats]
    split_ifs with seen
    · simp [seen.ne']
    · have unseen : count.read 0 first = 0 := by omega
      simp only [ih, GoMap.read_store, List.nodup_cons, List.forall_mem_cons, unseen]
      grind

theorem hasDuplicateHash_eq_repeats (hashes : List Uint256) : hasDuplicateHash hashes = repeats ∅ hashes := by
  have same := @repeats_eq_false ∅ hashes
  cases found : repeats ∅ hashes <;> simp_all [hasDuplicateHash]

theorem verifyRoot_eq_ok {hashes : List Uint256} {txnsRoot : Bytes} : verifyRoot env hashes txnsRoot = .ok () ↔
    hashes.Nodup ∧ ∃ root, computeRoot env hashes = .ok root ∧ root.toArray = txnsRoot := by
  simp [verifyRoot, hasDuplicateHash, bind_eq_ok, rejectIf_eq_ok]

/-- Two lists of hashes that `VerifyRoot` accepts for the same root are equal, unless two pairs that are hashed on the way
collide, or a listed hash is that of a pair. -/
theorem root_fixes_hashes {hashes hashes' : List Uint256} {txnsRoot : Bytes}
    (accepted : verifyRoot env hashes txnsRoot = .ok ()) (accepted' : verifyRoot env hashes' txnsRoot = .ok ())
    (apart : Merkle.Apart (innerNode env) hashes hashes' fun pair =>
      pair ∈ Merkle.hashed (innerNode env) hashes.length hashes ∨
        pair ∈ Merkle.hashed (innerNode env) hashes'.length hashes') : hashes = hashes' := by
  obtain ⟨distinct, root, computed, same⟩ := verifyRoot_eq_ok.mp accepted
  obtain ⟨distinct', root', computed', same'⟩ := verifyRoot_eq_ok.mp accepted'
  obtain rfl : root = root' := Word.toArray_inj.mp (same.trans same'.symm)
  exact Merkle.eq_of_root (climb_eq_ok.mp computed) (climb_eq_ok.mp computed') distinct distinct' (fun _ => id) apart

namespace RepeatedEnd

open Sample Config

def hashOf : Nat → Uint256
  | 0 => Word.ofNat 32 0xc8772424f5f01ad14870b1b5ae1befc28330f47d3aefa6b94f4e85bd5113ba8c
  | 1 => Word.ofNat 32 0xcd42b2a47e44ed2379007a72558d32c13888f56ca90338f3c908cfc616142eeb
  | _ => Word.ofNat 32 0x390a3922a55a152cef61457e3d51cbe8fb2f11de4a6908208047eae292009b71

def leftNode : Uint256 := Word.ofNat 32 0xa4a9f14a5aab25e193d1a877517e6b750c5a16822a501418b8600bac491e91cb

def rightNode : Uint256 := Word.ofNat 32 0xfc7db2e72687a029f87a7d7f79ed7b9d870568acf21be8a9659da8dc8222a3d0

def top : Uint256 := Word.ofNat 32 0x6d8ec1f855ee3a7cc7a38056519d69a2283b661ee7e3d50d5a281beeff3b2fe7

def tables : Tables where
  sha256 :=
    Tables.hashedTwice (Transaction.serializeUnsigned (coinbaseTxn 0 0))
      (Word.ofNat 32 0x7cc6ae1f737c3fba0576c66cf6d0bddfd8ed51131c21663357d7e1f2134922ca)
      (Word.ofNat 32 0xc8772424f5f01ad14870b1b5ae1befc28330f47d3aefa6b94f4e85bd5113ba8c) ++
    Tables.hashedTwice (Transaction.serializeUnsigned (coinbaseTxn 1 0))
      (Word.ofNat 32 0x919074897ee066ff951494bd97727b92b24458eac388018d3763840201395c02)
      (Word.ofNat 32 0xcd42b2a47e44ed2379007a72558d32c13888f56ca90338f3c908cfc616142eeb) ++
    Tables.hashedTwice (Transaction.serializeUnsigned (coinbaseTxn 2 0))
      (Word.ofNat 32 0x9ba596b4c50368b83d6e70f4b2d91320a801b4c827fa4429add24a016511aef1)
      (Word.ofNat 32 0x390a3922a55a152cef61457e3d51cbe8fb2f11de4a6908208047eae292009b71) ++
    Tables.hashedTwice ((hashOf 0).toArray ++ (hashOf 1).toArray)
      (Word.ofNat 32 0x989a507c50322097a7faf29d7e5f05212632eb1515dcece280eb228c37caef52)
      leftNode ++
    Tables.hashedTwice ((hashOf 2).toArray ++ (hashOf 2).toArray)
      (Word.ofNat 32 0xa37dfd12c2c3db9c7d030197138f2ebb9aa14a8f7c94e1d4c863a11790c6babe)
      rightNode ++
    Tables.hashedTwice (leftNode.toArray ++ rightNode.toArray)
      (Word.ofNat 32 0xccc78324a7ea2fb3a6185e6049f5c4bbbd33d9f278078eebc6bbe636c1b9308c)
      top

def block : Block := ⟨header 5000000 top emptyUint256, [coinbaseTxn 0 0, coinbaseTxn 1 0, coinbaseTxn 2 0]⟩

def longer : Block := { block with transactions := block.transactions ++ [coinbaseTxn 2 0] }

theorem checks : transactionCheckWith tables.env mainnet (chainStore emptyUint256 .empty) true block = .ok () ∧
    transactionCheckWith tables.env mainnet (chainStore emptyUint256 .empty) true longer = .ok () ∧
    txnHashes tables.env block = [hashOf 0, hashOf 1, hashOf 2] ∧
    merklePairs tables.env block = [(hashOf 0, hashOf 1), (hashOf 2, hashOf 2), (leftNode, rightNode)] ∧
    innerNode tables.env (hashOf 0) (hashOf 1) = leftNode ∧ innerNode tables.env (hashOf 2) (hashOf 2) = rightNode ∧
    innerNode tables.env leftNode rightNode = top ∧ [hashOf 0, hashOf 1, hashOf 2, leftNode, rightNode, top].Nodup := by
  decide +kernel

/-- In fast mode, a header accepts its transactions and the same transactions with the last one repeated. -/
theorem two_lists_accepted : block.header = longer.header ∧
    transactionCheckWith tables.env mainnet (chainStore emptyUint256 .empty) true block = .ok () ∧
    transactionCheckWith tables.env mainnet (chainStore emptyUint256 .empty) true longer = .ok () ∧
    txnHashes tables.env longer ≠ txnHashes tables.env block :=
  ⟨rfl, checks.1, checks.2.1, fun same => absurd (congrArg List.length same) (by simp [txnHashes, longer, block])⟩

theorem apart : Merkle.Apart (innerNode tables.env) (txnHashes tables.env block) (txnHashes tables.env block)
    fun pair => pair ∈ merklePairs tables.env block ∨ pair ∈ merklePairs tables.env block := by
  obtain ⟨-, -, listed, hashed, left, right, above, distinct⟩ := checks
  simp only [List.nodup_cons, List.mem_cons, List.not_mem_nil, or_false, not_or] at distinct
  obtain ⟨⟨-, -, _, _, _⟩, ⟨-, _, _, _⟩, ⟨_, _, _⟩, ⟨_, _⟩, _, -⟩ := distinct
  constructor
  · intro pair known pair' known' same
    simp only [hashed, or_self, List.mem_cons, List.not_mem_nil, or_false] at known known'
    rcases known with rfl | rfl | rfl <;> rcases known' with rfl | rfl | rfl <;>
      simp only [left, right, above] at same <;> first | rfl | exact absurd same ‹_› | exact absurd same.symm ‹_›
  · intro x member pair known
    simp only [hashed, or_self, List.mem_cons, List.not_mem_nil, or_false] at known
    simp only [listed, or_self, List.mem_cons, List.not_mem_nil, or_false] at member
    rcases known with rfl | rfl | rfl <;> rcases member with rfl | rfl | rfl <;> simp only [left, right, above] <;> assumption

theorem header_fixes_transactions_block : (txnHashes tables.env block).Nodup ∧
      (txnHashes tables.env block = txnHashes tables.env block ↔ (txnHashes tables.env block).Nodup) := by
  obtain ⟨-, -, listed, -, -, -, -, nodup⟩ := checks
  have distinct : (txnHashes tables.env block).Nodup := by
    rw [listed]
    exact nodup.sublist (List.sublist_append_left [hashOf 0, hashOf 1, hashOf 2] [leftNode, rightNode, top])
  exact ⟨distinct, (header_fixes_transactions rfl checks.1 checks.1 apart).2 distinct⟩

theorem root_fixes_hashes_block : verifyRoot tables.env (txnHashes tables.env block) top.toArray = .ok () ∧
    txnHashes tables.env block = txnHashes tables.env block := by
  have accepted : verifyRoot tables.env (txnHashes tables.env block) top.toArray = .ok () := by decide +kernel
  exact ⟨accepted, root_fixes_hashes accepted accepted apart⟩

end RepeatedEnd

end Nkn
