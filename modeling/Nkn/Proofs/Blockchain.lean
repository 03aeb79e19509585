import Nkn.Model.Blockchain
import Nkn.Proofs.Check
import Nkn.Proofs.SaveBlock

/-! # What a call does to a node

The marks that a call can set, what it can do to the stored headers and the tip, and the link that `HeaderCheck`
establishes. -/

namespace Nkn

open Go Outcome Config Store ChainStore

variable {env : Env} {config : Config} {cs : ChainStore}

theorem toNat_pred {height : UInt32} (nonzero : height ≠ 0) : height.toNat = (height - 1).toNat + 1 := by
  have positive : height.toNat ≠ 0 := fun zero => nonzero (UInt32.toNat_inj.mp zero)
  have le : 1 ≤ height := UInt32.le_iff_toNat_le.mpr (by simp; omega)
  rw [UInt32.toNat_sub_of_le _ _ le, UInt32.toNat_one]
  omega

theorem succ_le_of_lt {height top : UInt32} (lt : height < top) : height + 1 ≤ top := by
  have range := top.toNat_lt
  rw [UInt32.lt_iff_toNat_lt] at lt
  rw [UInt32.le_iff_toNat_le, UInt32.toNat_add, UInt32.toNat_one, Nat.mod_eq_of_lt (by omega)]
  exact lt

structure Tip where
  height : UInt32
  hash : Uint256
deriving DecidableEq

def Store.ChainStore.tip (cs : ChainStore) : Tip := ⟨cs.currentBlockHeight, cs.currentBlockHash⟩

structure Follows (b : Block) (tip : Tip) : Prop where
  height : tip.height = b.height - 1
  prevBlockHash : b.header.unsignedHeader.prevBlockHash = tip.hash.toArray

theorem Follows.unique {b : Block} {tip tip' : Tip} (follows : Follows b tip) (follows' : Follows b tip') :
    tip = tip' := by
  obtain ⟨height, hash⟩ := tip
  obtain ⟨height', hash'⟩ := tip'
  have heights : height = height' := follows.height.trans follows'.height.symm
  have hashes : hash = hash' := Word.toArray_inj.mp (follows.prevBlockHash.symm.trans follows'.prevBlockHash)
  rw [heights, hashes]

theorem headerCheck_follows {b : Block} (checked : headerCheck env config cs b.header = .ok ()) : Follows b cs.tip := by
  simp only [headerCheck, bind_eq_ok, rejectIf_eq_ok, labelled_eq_ok, uint256ParseFromBytes_eq_ok, not_not, ne_eq,
    exists_const] at checked
  obtain ⟨height, _, -, _, -, _, parsed, linked, -⟩ := checked
  constructor
  · change cs.currentBlockHeight = b.header.unsignedHeader.height - 1
    rw [height]
    exact (UInt32.add_sub_cancel cs.currentBlockHeight 1).symm
  · rw [parsed, linked]
    rfl

theorem transactionCheck_nonzero {b : Block} (checked : transactionCheck env config cs b = .ok ()) : b.height ≠ 0 := by
  obtain ⟨_, _, _, _, _, transactions, kind, -, checked, -⟩ := transactionCheck_eq_ok checked
  rw [transactions] at checked
  obtain ⟨_, checkedFirst, -⟩ := checkTransactions_cons_eq_ok.mp checked
  obtain ⟨_, _, ok⟩ := checkTransaction_coinbaseOk kind checkedFirst
  exact ok.nonzero

structure SameHeaders (cs cs' : ChainStore) : Prop where
  headers : cs'.db.headers = cs.db.headers
  blockHashes : cs'.db.blockHashes = cs.db.blockHashes
  tip : cs'.tip = cs.tip

theorem SameHeaders.refl : SameHeaders cs cs := ⟨rfl, rfl, rfl⟩

structure Placed (env : Env) (cs : ChainStore) (b : Block) (cs' : ChainStore) : Prop where
  headers : cs'.db.headers = Function.update cs.db.headers (Block.hash env b) (some (ChainStore.trim env b))
  blockHashes : cs'.db.blockHashes = Function.update cs.db.blockHashes b.height (some (Block.hash env b))
  tip : cs'.tip = ⟨b.height, Block.hash env b⟩

structure Removed (env : Env) (cs : ChainStore) (b : Block) (prevHash : Uint256) (cs' : ChainStore) : Prop where
  nonzero : b.height ≠ 0
  prevBlockHash : b.header.unsignedHeader.prevBlockHash = prevHash.toArray
  headers : cs'.db.headers = Function.update cs.db.headers (Block.hash env b) none
  blockHashes : cs'.db.blockHashes = Function.update cs.db.blockHashes b.height none
  tip : cs'.tip = ⟨b.height - 1, prevHash⟩

theorem saveBlockWith_spec (env : Env) (config : Config) (cs : ChainStore) (b : Block)
    (pruning : Option ChainStore.Pruning) :
    (cs.saveBlockWith env config b pruning false).1 = cs ∧ (cs.saveBlockWith env config b pruning false).2 ≠ .ok () ∨
      Placed env cs b (cs.saveBlockWith env config b pruning false).1 := by
  cases persisted : cs.persist env config b with
  | error _ => simp [saveBlockWith, persistBlock, persisted]
  | ok saved =>
    have moved : Placed env cs b (saved.moveTo env config b) := by
      obtain ⟨_, _, _, -, -, -, rfl⟩ := persist_eq_ok persisted
      exact ⟨rfl, rfl, rfl⟩
    right
    cases cached : (saved.moveTo env config b).addHeaderSigChainToCache env b.header with
    | error _ =>
      simp only [saveBlockWith, persistBlock, persisted, cached, Bool.false_eq_true, if_false]
      exact moved
    | ok _ =>
      obtain ⟨_, rfl⟩ := addHeaderSigChainToCache_eq_ok cached
      cases pruning with
      | none =>
        simp only [saveBlockWith, persistBlock, persisted, cached, Bool.false_eq_true, if_false]
        exact ⟨moved.headers, moved.blockHashes, moved.tip⟩
      | some _ =>
        simp only [saveBlockWith, persistBlock, persisted, cached, Bool.false_eq_true, if_false]
        exact ⟨moved.headers, moved.blockHashes, moved.tip⟩

theorem rollback_spec (env : Env) (config : Config) (cs : ChainStore) (b : Block) (pruning : ChainStore.Pruning) :
    SameHeaders cs (cs.rollback env config b pruning).1 ∨
      ∃ prevHash, Removed env cs b prevHash (cs.rollback env config b pruning).1 := by
  unfold rollback
  by_cases genesis : b.height = 0
  · rw [if_pos genesis]
    exact .inl .refl
  · rw [if_neg genesis]
    dsimp only
    split
    · exact .inl .refl
    · rename_i prevHash root trie parsed
      obtain ⟨prevHash', parsed', rest⟩ := bind_eq_ok.mp parsed
      split
      · exact .inl ⟨rfl, rfl, rfl⟩
      · obtain ⟨_, -, rest⟩ := bind_eq_ok.mp rest
        obtain ⟨_, -, rest⟩ := bind_eq_ok.mp rest
        obtain ⟨_, -, rest⟩ := bind_eq_ok.mp rest
        obtain rfl : prevHash' = prevHash := congrArg Prod.fst (Except.ok.inj rest)
        exact .inr ⟨prevHash', genesis, uint256ParseFromBytes_eq_ok.mp parsed', rfl, rfl, rfl⟩

/-- How a call may change a block object: a mark is set only when the check it stands for has passed on the ledger. -/
structure Marks (env : Env) (config : Config) (cs : ChainStore) (object object' : BlockObject) : Prop where
  block : object'.block = object.block
  header : object'.isHeaderChecked = object.isHeaderChecked ∨
    object'.isHeaderChecked = true ∧ headerCheck env config cs object.block.header = .ok ()
  txns : object'.isTxnsChecked = object.isTxnsChecked ∨
    object'.isTxnsChecked = true ∧ transactionCheck env config cs object.block = .ok ()

namespace Marks

variable {object object' object'' : BlockObject}

theorem refl : Marks env config cs object object := ⟨rfl, .inl rfl, .inl rfl⟩

theorem trans (first : Marks env config cs object object') (second : Marks env config cs object' object'') :
    Marks env config cs object object'' where
  block := second.block.trans first.block
  header := by
    rcases second.header with same | ⟨marked, checked⟩
    · rw [same]
      exact first.header
    · exact .inr ⟨marked, first.block ▸ checked⟩
  txns := by
    rcases second.txns with same | ⟨marked, checked⟩
    · rw [same]
      exact first.txns
    · exact .inr ⟨marked, first.block ▸ checked⟩

theorem header_mono (marks : Marks env config cs object object') (marked : object.isHeaderChecked = true) :
    object'.isHeaderChecked = true := by
  rcases marks.header with same | ⟨marked', -⟩
  · exact same.trans marked
  · exact marked'

end Marks

namespace Node

variable {ι : Type} [DecidableEq ι] {node : Node ι} {i : ι}

theorem headerCheck_spec (env : Env) (config : Config) (node : Node ι) (i j : ι) :
    (node.headerCheck env config i).1.store = node.store ∧
      Marks env config node.store (node.objects j) ((node.headerCheck env config i).1.objects j) := by
  unfold headerCheck
  dsimp only
  split_ifs with marked genesis
  · exact ⟨rfl, .refl⟩
  · exact ⟨rfl, .refl⟩
  · cases checked : Nkn.headerCheck env config node.store (node.objects i).block.header with
    | error _ => exact ⟨rfl, .refl⟩
    | ok =>
      refine ⟨rfl, ?_⟩
      by_cases same : j = i
      · subst same
        simp only [Function.update_self]
        exact ⟨rfl, .inr ⟨rfl, checked⟩, .inl rfl⟩
      · simp only [Function.update_of_ne same]
        exact .refl

theorem headerCheck_ok (passed : (node.headerCheck env config i).2 = .ok ())
    (nonzero : (node.objects i).block.height ≠ 0) :
    (node.objects i).isHeaderChecked = true ∨
      Nkn.headerCheck env config node.store (node.objects i).block.header = .ok () := by
  unfold headerCheck at passed
  dsimp only at passed
  split_ifs at passed with marked
  · exact .inl marked
  · cases checked : Nkn.headerCheck env config node.store (node.objects i).block.header with
    | error _ => simp [checked] at passed
    | ok => exact .inr rfl

theorem transactionCheck_spec (env : Env) (config : Config) (node : Node ι) (i j : ι) :
    (node.transactionCheck env config i).1.store = node.store ∧
      Marks env config node.store (node.objects j) ((node.transactionCheck env config i).1.objects j) := by
  unfold transactionCheck
  dsimp only
  split_ifs with marked
  · exact ⟨rfl, .refl⟩
  · cases checked : Nkn.transactionCheck env config node.store (node.objects i).block with
    | error _ => exact ⟨rfl, .refl⟩
    | ok =>
      refine ⟨rfl, ?_⟩
      by_cases same : j = i
      · subst same
        simp only [Function.update_self]
        exact ⟨rfl, .inl rfl, .inr ⟨rfl, checked⟩⟩
      · simp only [Function.update_of_ne same]
        exact .refl

theorem transactionCheck_ok (passed : (node.transactionCheck env config i).2 = .ok ()) :
    (node.objects i).isTxnsChecked = true ∨
      Nkn.transactionCheck env config node.store (node.objects i).block = .ok () := by
  unfold transactionCheck at passed
  dsimp only at passed
  split_ifs at passed with marked
  · exact .inl marked
  · cases checked : Nkn.transactionCheck env config node.store (node.objects i).block with
    | error _ => simp [checked] at passed
    | ok => exact .inr rfl

theorem addBlock_spec (env : Env) (config : Config) (node : Node ι) (i : ι) (pruning : Option ChainStore.Pruning) :
    (∀ j, Marks env config node.store (node.objects j) ((node.addBlock env config i pruning).1.objects j)) ∧
      ((node.addBlock env config i pruning).1.store = node.store ∧ (node.addBlock env config i pruning).2 ≠ .ok () ∨
        (node.headerCheck env config i).2 = .ok () ∧
          ((node.headerCheck env config i).1.transactionCheck env config i).2 = .ok () ∧
          ((node.addBlock env config i pruning).1.store, (node.addBlock env config i pruning).2) =
            node.store.saveBlockWith env config (node.objects i).block pruning false) := by
  have headers := node.headerCheck_spec env config i
  cases header : node.headerCheck env config i with
  | mk checked outcome =>
    simp only [header] at headers
    cases outcome with
    | error _ => 
      have store := (headers i).1
      simp [addBlock, header, headers, store]
    | ok =>
      have txns := checked.transactionCheck_spec env config i
      cases txn : checked.transactionCheck env config i with
      | mk verified outcome =>
        simp only [txn, (headers i).1] at txns
        have marks (j : ι) : Marks env config node.store (node.objects j) (verified.objects j) :=
          (headers j).2.trans (txns j).2
        have store := (txns i).1
        cases outcome with
        | error _ => simp [addBlock, header, txn, marks, store]
        | ok => simp [addBlock, header, txn, marks, store, (marks i).block]

end Node

end Nkn
