import Nkn.Proofs.Blockchain
import Nkn.Soundness.Chain
import Nkn.Soundness.HeaderCommitment

/-! # Blocks that extend the tip

`HeaderCheck` compares a block with the tip and marks the block object; `AddBlock` trusts the mark. A block is saved on
top of its predecessor exactly when the tip has not changed since. -/

namespace Nkn

open Go Outcome Store Option Function UInt32 List

variable {env : Env} {config : Config} {ι : Type} [DecidableEq ι] {node start : Node ι} {i : ι}
  {calls : List (Node.Call ι)}

namespace Node

theorem call_marks (env : Env) (config : Config) (node : Node ι) (call : Call ι) (j : ι) :
    Marks env config node.store (node.objects j) ((node.call env config call).1.objects j) := by
  cases call with
  | headerCheck i => exact (node.headerCheck_spec env config i j).2
  | transactionCheck i => exact (node.transactionCheck_spec env config i j).2
  | addBlock i pruning => exact (node.addBlock_spec env config i pruning).1 j
  | rollback _ _ => exact .refl

theorem run_cons (call : Call ι) : node.run env config (call :: calls) = (node.call env config call).1.run env config calls :=
  rfl

theorem run_concat (call : Call ι) :
    node.run env config (calls ++ [call]) = ((node.run env config calls).call env config call).1 := by
  simp [run]

theorem block_run (env : Env) (config : Config) (node : Node ι) (calls : List (Call ι)) (j : ι) :
    ((node.run env config calls).objects j).block = (node.objects j).block := by
  induction calls generalizing node with
  | nil => rfl
  | cons call _ ih => rw [run_cons, ih, (node.call_marks env config call j).block]

theorem isHeaderChecked_run (marked : (node.objects i).isHeaderChecked = true) (calls : List (Call ι)) :
    ((node.run env config calls).objects i).isHeaderChecked = true := by
  induction calls generalizing node with
  | nil => exact marked
  | cons call _ ih => exact ih ((node.call_marks env config call i).header_mono marked)

def checkedAt (env : Env) (config : Config) (node : Node ι) (i : ι) : List (Call ι) → Option Tip
  | [] => none
  | call :: calls =>
    let next := (node.call env config call).1
    if (next.objects i).isHeaderChecked then some node.store.tip else checkedAt env config next i calls

def TipKept (env : Env) (config : Config) (start : Node ι) (calls : List (Call ι)) (i : ι) : Prop :=
  ∀ tip ∈ start.checkedAt env config i calls, tip = (start.run env config calls).store.tip

theorem checkedAt_eq_none_iff (unmarked : (node.objects i).isHeaderChecked = false) :
    node.checkedAt env config i calls = none ↔ ((node.run env config calls).objects i).isHeaderChecked = false := by
  induction calls generalizing node with
  | nil => simpa [checkedAt, run] using unmarked
  | cons call calls ih =>
    rw [checkedAt, run_cons]
    by_cases marked : ((node.call env config call).1.objects i).isHeaderChecked = true
    · simp [marked, isHeaderChecked_run marked calls]
    · rw [if_neg marked]
      exact ih (by simpa using marked)

theorem follows_checkedAt (unmarked : (node.objects i).isHeaderChecked = false) {tip : Tip}
    (checked : node.checkedAt env config i calls = some tip) : Follows (node.objects i).block tip := by
  induction calls generalizing node with
  | nil => simp [checkedAt] at checked
  | cons call _ ih =>
    have marks := node.call_marks env config call i
    rw [checkedAt] at checked
    by_cases marked : ((node.call env config call).1.objects i).isHeaderChecked = true
    · rw [if_pos marked, Option.some.injEq] at checked
      rcases marks.header with same | ⟨-, passed⟩
      · exact absurd (same.symm.trans marked) (by simp [unmarked])
      · exact checked ▸ headerCheck_follows passed
    · rw [if_neg marked] at checked
      exact marks.block ▸ ih (by simpa using marked) checked

theorem follows_iff (unmarked : (start.objects i).isHeaderChecked = false)
    (nonzero : (start.objects i).block.height ≠ 0)
    (passed : ((start.run env config calls).headerCheck env config i).2 = .ok ()) :
    Follows (start.objects i).block (start.run env config calls).store.tip ↔ TipKept env config start calls i := by
  have block := start.block_run env config calls i
  cases checked : start.checkedAt env config i calls with
  | none =>
    -- the block was not marked: the check ran on the present ledger
    have free := (checkedAt_eq_none_iff unmarked).mp checked
    rcases headerCheck_ok passed (block ▸ nonzero) with marked | now
    · exact absurd (free.symm.trans marked) (by decide)
    · rw [block] at now
      exact ⟨fun _ => by simp [TipKept, checked], fun _ => headerCheck_follows now⟩
  | some tip =>
    have follows := follows_checkedAt unmarked checked
    constructor
    · intro now other known
      obtain rfl := mem_unique checked known
      exact follows.unique now
    · intro kept
      exact kept tip checked ▸ follows

theorem call_headers (env : Env) (config : Config) (node : Node ι) (call : Call ι) :
    SameHeaders node.store (node.call env config call).1.store ∨
      (∃ i pruning, call = .addBlock i pruning ∧ (node.headerCheck env config i).2 = .ok () ∧
        ((node.headerCheck env config i).1.transactionCheck env config i).2 = .ok () ∧
        Placed env node.store (node.objects i).block (node.call env config call).1.store) ∨
      ∃ b pruning prevHash, call = .rollback b pruning ∧
        Removed env node.store b prevHash (node.call env config call).1.store := by
  cases call with
  | headerCheck i =>
    left
    rw [call, (node.headerCheck_spec env config i i).1]
    exact .refl
  | transactionCheck i =>
    left
    rw [call, (node.transactionCheck_spec env config i i).1]
    exact .refl
  | addBlock i pruning =>
    rw [call]
    rcases (node.addBlock_spec env config i pruning).2 with ⟨same, -⟩ | ⟨header, txns, saved⟩
    · left
      rw [same]
      exact .refl
    · have store := congrArg Prod.fst saved
      dsimp only at store
      rcases saveBlockWith_spec env config node.store (node.objects i).block pruning with ⟨same, -⟩ | placed
      · left
        rw [store, same]
        exact .refl
      · exact .inr (.inl ⟨i, pruning, rfl, header, txns, store ▸ placed⟩)
  | rollback b pruning =>
    rcases rollback_spec env config node.store b pruning with same | ⟨prevHash, removed⟩
    · exact .inl same
    · exact .inr (.inr ⟨b, pruning, prevHash, rfl, removed⟩)

theorem nonzero_of_txnsChecked (unmarked : (node.objects i).isTxnsChecked = false)
    (marked : ((node.run env config calls).objects i).isTxnsChecked = true) : (node.objects i).block.height ≠ 0 := by
  induction calls generalizing node with
  | nil => exact absurd (unmarked.symm.trans marked) (by decide)
  | cons call _ ih =>
    have marks := node.call_marks env config call i
    rcases marks.txns with same | ⟨-, passed⟩
    · exact marks.block ▸ ih (same.trans unmarked) marked
    · exact transactionCheck_nonzero passed

end Node

structure HeaderAt (cs : ChainStore) (height : UInt32) (hash : Uint256) (header : Header) : Prop where
  blockHash : cs.db.blockHashes height = some hash
  header : (cs.db.headers hash).map TrimmedBlock.header = some header

structure Linked (env : Env) (cs : ChainStore) : Prop where
  tip : cs.db.blockHashes cs.tip.height = some cs.tip.hash
  stored : ∀ height ≤ cs.tip.height, ∃ hash header, HeaderAt cs height hash header ∧ Header.hash env header = hash ∧
    header.unsignedHeader.height = height
  linked : ∀ {height hash header hash' header'}, height < cs.tip.height → HeaderAt cs height hash header →
    HeaderAt cs (height + 1) hash' header' → header'.unsignedHeader.prevBlockHash = hash.toArray

structure HashesApart (env : Env) (known : Set Header) : Prop where
  sized : ∀ header ∈ known, Header.Sized header.unsignedHeader
  collisionFree : Set.InjOn env.sha256
    {hashed | ∃ header ∈ known, hashed = Header.serializeUnsigned header.unsignedHeader ∨
      hashed = Header.getHashForSigning env header}

variable {known : Set Header}

theorem HashesApart.sameWritten (apart : HashesApart env known) {h h' : Header} (mem : h ∈ known)
    (mem' : h' ∈ known) (same : Header.hash env h = Header.hash env h') :
    Header.SameWritten h.unsignedHeader h'.unsignedHeader := by
  refine (Header.hash_eq_iff (apart.sized h mem) (apart.sized h' mem') (apart.collisionFree.mono ?_)).mp same
  rintro hashed (rfl | rfl | rfl | rfl)
  · exact ⟨h, mem, .inl rfl⟩
  · exact ⟨h', mem', .inl rfl⟩
  · exact ⟨h, mem, .inr rfl⟩
  · exact ⟨h', mem', .inr rfl⟩

variable {cs cs' : ChainStore} {b : Block} {height top : UInt32} {hash hash' : Uint256} {header header' : Header}

theorem HeaderAt.unique (at_ : HeaderAt cs height hash header) (at' : HeaderAt cs height hash' header') :
    hash = hash' ∧ header = header' := by
  obtain rfl := mem_unique at_.blockHash at'.blockHash
  exact ⟨rfl, mem_unique at_.header at'.header⟩

structure KeepsUpTo (cs cs' : ChainStore) (top : UInt32) : Prop where
  blockHashes : ∀ height ≤ top, cs'.db.blockHashes height = cs.db.blockHashes height
  headers : ∀ height ≤ top, ∀ hash, cs.db.blockHashes height = some hash → cs'.db.headers hash = cs.db.headers hash

theorem KeepsUpTo.headerAt_iff (keeps : KeepsUpTo cs cs' top) (le : height ≤ top) :
    HeaderAt cs' height hash header ↔ HeaderAt cs height hash header := by
  constructor
  · intro at_
    have blockHash := (keeps.blockHashes height le).symm.trans at_.blockHash
    exact ⟨blockHash, (keeps.headers height le hash blockHash) ▸ at_.header⟩
  · intro at_
    exact ⟨(keeps.blockHashes height le).trans at_.blockHash,
      (keeps.headers height le hash at_.blockHash).symm ▸ at_.header⟩

theorem Linked.placed (linked : Linked env cs) (apart : HashesApart env known)
    (stored : ∀ hash trimmed, cs.db.headers hash = some trimmed → trimmed.header ∈ known) (mem : b.header ∈ known)
    (nonzero : b.height ≠ 0) (follows : Follows b cs.tip) (placed : Placed env cs b cs') : Linked env cs' := by
  have next : b.height.toNat = cs.tip.height.toNat + 1 := follows.height ▸ toNat_pred nonzero
  have keeps : KeepsUpTo cs cs' cs.tip.height := by
    constructor
    · intro height le
      rw [placed.blockHashes, update_of_ne]
      rintro rfl
      rw [le_iff_toNat_le] at le
      omega
    · intro height le hash blockHash
      rw [placed.headers, update_of_ne]
      rintro rfl
      obtain ⟨hash', header, at_, hashed, atHeight⟩ := linked.stored height le
      obtain rfl := mem_unique blockHash at_.blockHash
      obtain ⟨_, found, rfl⟩ := map_eq_some_iff.mp at_.header
      have same := (apart.sameWritten (stored _ _ found) mem hashed).height
      rw [le_iff_toNat_le, ← atHeight, same] at le
      change b.height.toNat ≤ _ at le
      omega
  have newest : HeaderAt cs' b.height (Block.hash env b) b.header :=
    ⟨by rw [placed.blockHashes, update_self], by rw [placed.headers, update_self]; rfl⟩
  refine ⟨?_, ?_, ?_⟩
  · rw [placed.tip]
    exact newest.blockHash
  · intro height le
    rw [placed.tip, le_iff_toNat_le] at le
    by_cases old : height ≤ cs.tip.height
    · obtain ⟨hash, header, at_, rest⟩ := linked.stored height old
      exact ⟨hash, header, (keeps.headerAt_iff old).mpr at_, rest⟩
    · rw [le_iff_toNat_le] at old
      obtain rfl : height = b.height := UInt32.toNat_inj.mp (by simp only at le; omega)
      exact ⟨_, _, newest, rfl, rfl⟩
  · intro height hash header hash' header' lt at_ at'
    rw [placed.tip, lt_iff_toNat_lt] at lt
    have old : height ≤ cs.tip.height := le_iff_toNat_le.mpr (by simp only at lt; omega)
    have below := (keeps.headerAt_iff old).mp at_
    by_cases top : height = cs.tip.height
    · subst top
      obtain rfl := mem_unique below.blockHash linked.tip
      have above : cs.tip.height + 1 = b.height := by
        rw [follows.height]
        exact UInt32.sub_add_cancel b.height 1
      rw [above] at at'
      rw [(at'.unique newest).2]
      exact follows.prevBlockHash
    · have lower : height < cs.tip.height := UInt32.lt_of_le_of_ne old top
      exact linked.linked lower below ((keeps.headerAt_iff (succ_le_of_lt lower)).mp at')

theorem Linked.removed (linked : Linked env cs) (apart : HashesApart env known)
    (stored : ∀ hash trimmed, cs.db.headers hash = some trimmed → trimmed.header ∈ known) (mem : b.header ∈ known)
    {prevHash : Uint256} (last : Block.hash env b = cs.tip.hash) (removed : Removed env cs b prevHash cs') :
    Linked env cs' := by
  obtain ⟨hash, header, atTip, hashed, atHeight⟩ := linked.stored cs.tip.height (UInt32.le_refl _)
  obtain rfl := mem_unique atTip.blockHash linked.tip
  obtain ⟨_, found, rfl⟩ := map_eq_some_iff.mp atTip.header
  have same := apart.sameWritten (stored _ _ found) mem (hashed.trans last.symm)
  have top : b.height = cs.tip.height := same.height.symm.trans atHeight
  have next := toNat_pred removed.nonzero
  have lower {height : UInt32} (le : height ≤ b.height - 1) : height < cs.tip.height := by
    rw [le_iff_toNat_le] at le
    rw [← top, lt_iff_toNat_lt]
    omega
  have keeps : KeepsUpTo cs cs' (b.height - 1) := by
    constructor
    · intro height le
      rw [removed.blockHashes, update_of_ne]
      rintro rfl
      exact absurd (lower le) (by simp [top])
    · intro height le hash blockHash
      rw [removed.headers, update_of_ne]
      rintro rfl
      obtain ⟨hash', header', at', _, atHeight'⟩ := linked.stored height (UInt32.le_of_lt (lower le))
      obtain rfl := mem_unique blockHash at'.blockHash
      obtain rfl := mem_unique at'.header (last ▸ atTip.header)
      exact absurd (lower le) (by simp [← atHeight', atHeight])
  refine ⟨?_, ?_, ?_⟩
  · rw [removed.tip, keeps.blockHashes _ (UInt32.le_refl _)]
    obtain ⟨hash', header', at', _, _⟩ := linked.stored (b.height - 1) (UInt32.le_of_lt (lower (UInt32.le_refl _)))
    have above : b.height - 1 + 1 = cs.tip.height := (UInt32.sub_add_cancel b.height 1).trans top
    have link := linked.linked (lower (UInt32.le_refl _)) at' (above.symm ▸ atTip)
    rw [same.prevBlockHash, removed.prevBlockHash] at link
    rw [at'.blockHash, Word.toArray_inj.mp link]
  · intro height le
    rw [removed.tip] at le
    obtain ⟨hash', header', at', rest⟩ := linked.stored height (UInt32.le_of_lt (lower le))
    exact ⟨hash', header', (keeps.headerAt_iff le).mpr at', rest⟩
  · intro height hash header hash' header' lt at_ at'
    rw [removed.tip] at lt
    have le : height ≤ b.height - 1 := UInt32.le_of_lt lt
    exact linked.linked (lower le) ((keeps.headerAt_iff le).mp at_) ((keeps.headerAt_iff (succ_le_of_lt lt)).mp at')

/-- The headers that occur in a run: of block objects, of the ledger at the start, and of blocks rolled back. -/
def occurring (start : Node ι) (calls : List (Node.Call ι)) : Set Header :=
  {header | (∃ i, (start.objects i).block.header = header) ∨
    (∃ hash trimmed, start.store.db.headers hash = some trimmed ∧ trimmed.header = header) ∨
    ∃ b pruning, .rollback b pruning ∈ calls ∧ b.header = header}

/-- A call leaves the chain in one piece: a block is added at the tip at which it was checked, and only the last block
is rolled back. -/
def Careful (env : Env) (config : Config) (start : Node ι) (before : List (Node.Call ι)) : Node.Call ι → Prop
  | .addBlock i _ => Node.TipKept env config start before i
  | .rollback b _ => Block.hash env b = (start.run env config before).store.currentBlockHash
  | _ => True

def Unmarked (start : Node ι) : Prop :=
  ∀ i, (start.objects i).isHeaderChecked = false ∧ (start.objects i).isTxnsChecked = false

theorem Unmarked.nonzero (unmarked : Unmarked start)
    (passed : (((start.run env config calls).headerCheck env config i).1.transactionCheck env config i).2 = .ok ()) :
    (start.objects i).block.height ≠ 0 := by
  have block := start.block_run env config calls i
  have marks := ((start.run env config calls).headerCheck_spec env config i i).2
  rcases Node.transactionCheck_ok passed with marked | checked
  · rcases marks.txns with same | ⟨-, checked⟩
    · exact Node.nonzero_of_txnsChecked (unmarked i).2 (same.symm.trans marked)
    · exact block ▸ transactionCheck_nonzero checked
  · exact block ▸ marks.block ▸ transactionCheck_nonzero checked

theorem Linked.run (unmarked : Unmarked start) (apart : HashesApart env known)
    (occurs : occurring start calls ⊆ known) (linked : Linked env start.store)
    (careful : ∀ before call, before ++ [call] <+: calls → Careful env config start before call) :
    Linked env (start.run env config calls).store ∧
      ∀ hash trimmed, (start.run env config calls).store.db.headers hash = some trimmed → trimmed.header ∈ known := by
  induction calls using reverseRecOn with
  | nil => exact ⟨linked, fun hash trimmed found => occurs (.inr (.inl ⟨hash, trimmed, found, rfl⟩))⟩
  | append_singleton calls call ih =>
    have earlier : occurring start calls ⊆ occurring start (calls ++ [call]) := by
      rintro header (object | stored | ⟨b, pruning, rolled, rfl⟩)
      · exact .inl object
      · exact .inr (.inl stored)
      · exact .inr (.inr ⟨b, pruning, mem_append_left _ rolled, rfl⟩)
    obtain ⟨linked, stored⟩ := ih (earlier.trans occurs) fun before call pre =>
      careful before call (pre.trans (prefix_append _ _))
    have now := careful calls call prefix_rfl
    rw [Node.run_concat]
    rcases (start.run env config calls).call_headers env config call with
      same | ⟨i, pruning, rfl, header, txns, placed⟩ | ⟨b, pruning, prevHash, rfl, removed⟩
    · refine ⟨⟨?_, ?_, ?_⟩, ?_⟩
      · rw [same.blockHashes, same.tip]
        exact linked.tip
      · intro height le
        obtain ⟨hash, header, at_, rest⟩ := linked.stored height (same.tip ▸ le)
        exact ⟨hash, header, ⟨same.blockHashes ▸ at_.blockHash, same.headers ▸ at_.header⟩, rest⟩
      · intro height hash header hash' header' lt at_ at'
        exact linked.linked (same.tip ▸ lt) ⟨same.blockHashes ▸ at_.blockHash, same.headers ▸ at_.header⟩
          ⟨same.blockHashes ▸ at'.blockHash, same.headers ▸ at'.header⟩
      · rw [same.headers]
        exact stored
    · have block := start.block_run env config calls i
      have mem : (start.objects i).block.header ∈ known := occurs (.inl ⟨i, rfl⟩)
      have nonzero := unmarked.nonzero txns
      rw [block] at placed
      have follows := (Node.follows_iff (unmarked i).1 nonzero header).mpr now
      refine ⟨linked.placed apart stored mem nonzero follows placed, ?_⟩
      intro hash trimmed found
      rw [placed.headers, update_apply] at found
      split_ifs at found
      · exact Option.some.inj found ▸ mem
      · exact stored hash trimmed found
    · have mem : b.header ∈ known := occurs (.inr (.inr ⟨b, pruning, by simp, rfl⟩))
      refine ⟨linked.removed apart stored mem now removed, ?_⟩
      intro hash trimmed found
      rw [removed.headers, update_apply] at found
      split_ifs at found
      exact stored hash trimmed found

/-- A block of non-zero height that `AddBlock` saves is the next one of the ledger exactly when the tip is the one at
which the block's header was checked. If this is so at every `AddBlock` and only last blocks are rolled back, the
stored blocks form one hash-linked chain after every run. -/
theorem saved_extends_tip_iff (unmarked : Unmarked start) :
    (∀ i pruning, ((start.run env config calls).addBlock env config i pruning).2 = .ok () →
      (start.objects i).block.height ≠ 0 →
      (Follows (start.objects i).block (start.run env config calls).store.tip ↔
        Node.TipKept env config start calls i)) ∧
    (HashesApart env (occurring start calls) → Linked env start.store →
      (∀ before call, before ++ [call] <+: calls → Careful env config start before call) →
      Linked env (start.run env config calls).store) := by
  constructor
  · intro i pruning saved nonzero
    rcases ((start.run env config calls).addBlock_spec env config i pruning).2 with ⟨-, failed⟩ | ⟨header, -, -⟩
    · exact absurd saved failed
    · exact Node.follows_iff (unmarked i).1 nonzero header
  · intro apart linked careful
    exact (linked.run unmarked apart subset_rfl careful).1

theorem linked_genesis {root : Uint256} (genesis : b.height = 0) (saved : Saved env config .new b root cs) :
    Linked env cs := by
  have tip : cs.tip = ⟨0, Block.hash env b⟩ := by rw [ChainStore.tip, saved.height, saved.hash, genesis]
  have newest : HeaderAt cs 0 (Block.hash env b) b.header :=
    ⟨by rw [saved.blockHashes, genesis, update_self], by rw [saved.headers, update_self]; rfl⟩
  refine ⟨?_, ?_, ?_⟩
  · rw [tip]
    exact newest.blockHash
  · intro height le
    rw [tip, le_iff_toNat_le, UInt32.toNat_zero, Nat.le_zero] at le
    obtain rfl : height = 0 := UInt32.toNat_inj.mp le
    exact ⟨_, _, newest, rfl, genesis⟩
  · intro height hash header hash' header' lt
    rw [tip, lt_iff_toNat_lt] at lt
    exact absurd lt (by simp)

/-! The proposer signs two first blocks that differ in their timestamps and leave the same state behind. The second block is
checked on the first of them and saved on the other, after a rollback. -/

namespace SiblingBlocks

open FirstBlocks

def siblingSignature : Bytes :=
  (Word.ofNat 64 0x15d388193cb98c8fd71199880aceeeb261586976f465798913d06778a5c9609ebe6b252f8ddfe8cad27a5acba4f53bd92ccd578b07f33ccae140f648a671e60f).toArray

def siblingBlock : Block :=
  ⟨FirstBlocks.header 1 1561813834 genesisHash firstTxnHash firstRoot firstBeacon siblingSignature, [coinbaseTxn 1]⟩

def siblingHash : Uint256 := Word.ofNat 32 0x1f8e310698a08ff2c3ba34b4b39ff670225f9d5dd701b9e6b4db32adab402de5

def siblingHashForSigning : Uint256 :=
  Word.ofNat 32 0x658fde04391fd170568b0b8a85583f312276f1dbed3afaa00f1d3866299795a2

def tables : Tables :=
  { FirstBlocks.tables with
    sha256 := FirstBlocks.tables.sha256 ++
      Tables.hashedTwice (Header.serializeUnsigned siblingBlock.header.unsignedHeader) siblingHashForSigning siblingHash
    signatures := (Sample.proposerKey, siblingHashForSigning.toArray, siblingSignature) ::
      FirstBlocks.tables.signatures }

def initialized : Go.Outcome (ChainStore × Block) :=
  newBlockchainWithGenesisBlock tables.env currentConfig Sample.proposerKey packedCoinbase

def genesisStore : ChainStore := (initialized.toOption.map Prod.fst).getD .new

inductive Object where
  | first
  | sibling
  | second
deriving DecidableEq

def blockOf : Object → Block
  | .first => firstBlock
  | .sibling => siblingBlock
  | .second => secondBlock

def loaded : Node Object := ⟨genesisStore, fun object => ⟨blockOf object, false, false⟩⟩

def keepAll : ChainStore.Pruning := ⟨fun _ => true, .ok ()⟩

def replacement : List (Node.Call Object) :=
  [.addBlock .first none, .headerCheck .second, .transactionCheck .second, .rollback firstBlock keepAll,
    .addBlock .sibling none]

def genesisBlock : Block := (initialized.toOption.map Prod.snd).getD (genesisBlockInit tables.env [] [])

def direct : List (Node.Call Object) := [.addBlock .first none, .headerCheck .second, .addBlock .second none]

def headers : List Header := [genesisBlock.header, firstBlock.header, siblingBlock.header, secondBlock.header]

def hashedStrings : List Bytes :=
  headers.flatMap fun header => [Header.serializeUnsigned header.unsignedHeader, Header.getHashForSigning tables.env header]

theorem runs : initialized.isOk = true ∧
    ((loaded.run tables.env currentConfig replacement).store.tip = ⟨1, siblingHash⟩ ∧
      ((loaded.run tables.env currentConfig replacement).addBlock tables.env currentConfig .second none).2 = .ok () ∧
      secondBlock.header.unsignedHeader.prevBlockHash ≠ siblingHash.toArray) ∧
    (loaded.run tables.env currentConfig [.addBlock .first none, .headerCheck .second]).store.tip = ⟨1, firstBlockHash⟩ ∧
    loaded.checkedAt tables.env currentConfig .second [.addBlock .first none, .headerCheck .second] =
      some ⟨1, firstBlockHash⟩ := by
  decide +kernel

/-- The second block is saved on the sibling of its predecessor. -/
theorem saved_on_sibling : Unmarked loaded ∧
      ((loaded.run tables.env currentConfig replacement).addBlock tables.env currentConfig .second none).2 = .ok () ∧
      secondBlock.height ≠ 0 ∧ (loaded.run tables.env currentConfig replacement).store.tip = ⟨1, siblingHash⟩ ∧
      ¬ Follows secondBlock (loaded.run tables.env currentConfig replacement).store.tip := by
  obtain ⟨-, ⟨tip, saved, unlinked⟩, -⟩ := runs
  refine ⟨fun _ => ⟨rfl, rfl⟩, saved, by decide, tip, fun follows => ?_⟩
  have linked := follows.prevBlockHash
  rw [tip] at linked
  exact unlinked linked

theorem initialized_eq : newBlockchainWithGenesisBlock tables.env currentConfig Sample.proposerKey packedCoinbase =
    .ok (genesisStore, genesisBlock) := by
  obtain ⟨⟨_, _⟩, opened⟩ := isOk_iff.mp runs.1
  have same : initialized = .ok (genesisStore, genesisBlock) := by
    simp only [genesisStore, genesisBlock, opened, Except.toOption, map_some, getD_some]
  exact same

theorem occurring_headers : ∀ header ∈ occurring loaded direct, header ∈ headers := by
  obtain ⟨_, _, _, saved⟩ := newBlockchain_saved initialized_eq
  rintro _ (⟨object, rfl⟩ | ⟨hash, trimmed, found, rfl⟩ | ⟨_, _, rolled, rfl⟩)
  · cases object <;> simp [loaded, blockOf, headers]
  · change genesisStore.db.headers hash = some trimmed at found
    rw [saved.headers, update_apply] at found
    split_ifs at found
    · obtain rfl := Option.some.inj found
      exact mem_cons_self
    · exact absurd found (by simp [ChainStore.new])
  · simp [direct] at rolled

theorem headers_apart : (∀ header ∈ headers, header.unsignedHeader.prevBlockHash.length < 2 ^ 63 ∧
      header.unsignedHeader.transactionsRoot.length < 2 ^ 63 ∧ header.unsignedHeader.stateRoot.length < 2 ^ 63 ∧
      header.unsignedHeader.signerPk.length < 2 ^ 63 ∧ header.unsignedHeader.signerId.length < 2 ^ 63) ∧
    (hashedStrings.map tables.env.sha256).Nodup := by
  decide +kernel

theorem hashesApart : HashesApart tables.env (occurring loaded direct) where
  sized header occurs :=
    have ⟨prevBlockHash, transactionsRoot, stateRoot, signerPk, signerId⟩ :=
      headers_apart.1 header (occurring_headers header occurs)
    ⟨prevBlockHash, transactionsRoot, stateRoot, signerPk, signerId⟩
  collisionFree := by
    have apart := headers_apart.2
    have listed {hashed : Bytes} (known : ∃ header ∈ occurring loaded direct,
        hashed = Header.serializeUnsigned header.unsignedHeader ∨ hashed = Header.getHashForSigning tables.env header) :
        hashed ∈ hashedStrings := by
      obtain ⟨header, occurs, rfl | rfl⟩ := known
      · exact mem_flatMap.mpr ⟨header, occurring_headers header occurs, by simp⟩
      · exact mem_flatMap.mpr ⟨header, occurring_headers header occurs, by simp⟩
    intro hashed known hashed' known' same
    exact inj_on_of_nodup_map apart (listed known) (listed known') same

theorem careful : ∀ before call, before ++ [call] <+: direct → Careful tables.env currentConfig loaded before call := by
  obtain ⟨-, -, tip, checked⟩ := runs
  rintro before call ⟨_, listed⟩
  match before with
  | [] =>
    simp only [direct, cons_append, nil_append, cons.injEq] at listed
    obtain ⟨rfl, -⟩ := listed
    intro tip known
    exact absurd known (by simp [Node.checkedAt])
  | [_] =>
    simp only [direct, cons_append, nil_append, cons.injEq] at listed
    obtain ⟨-, rfl, -⟩ := listed
    trivial
  | [_, _] =>
    simp only [direct, cons_append, nil_append, cons.injEq] at listed
    obtain ⟨rfl, rfl, rfl, -⟩ := listed
    intro other known
    rw [tip]
    exact mem_unique known checked
  | _ :: _ :: _ :: before =>
    have length := congrArg List.length listed
    simp [direct] at length

theorem saved_extends_tip_iff_direct : Linked tables.env (loaded.run tables.env currentConfig direct).store := by
  obtain ⟨genesis, _, root, saved⟩ := newBlockchain_saved initialized_eq
  exact (saved_extends_tip_iff fun _ => ⟨rfl, rfl⟩).2 hashesApart (linked_genesis genesis saved) careful

end SiblingBlocks

end Nkn
