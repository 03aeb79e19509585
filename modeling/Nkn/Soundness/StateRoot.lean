import Nkn.Soundness.Concrete
import Nkn.Proofs.LegacyNames

/-! # State roots

`generateStateRoot` flushes the records to the trie and returns its root, as a preview that only hashes the trie, or as a
commit that stores it. Both enumerate Go maps in open order. -/

namespace Nkn

open Go Outcome Config Store Disk Trie

section

variable {env : Env} {config : Config} {store : Disk.ChainStore} {b : Block} {init : Bool} {map : Trie.Map}

def StateStored (env : Env) (store : Disk.ChainStore) (init : Bool) (map : Trie.Map) : Prop :=
  ∃ root, initialRoot store.cs init = .ok root ∧ Committed env store.nodes root map

def ExecutesTo (env : Env) (config : Config) (store : Disk.ChainStore) (b : Block) (init : Bool) (s : Session) : Prop :=
  ∃ root states m, initialRoot store.cs init = .ok root ∧ newStateDB .none store.nodes root = .ok states ∧
    executeBlock .none env config store.cs b ⟨states, store.states, 1⟩ = (.ok (), m) ∧ s = ⟨m.states, m.calls⟩

theorem Disk.generateStateRoot_eq_ok {order : Enumeration} {commit : Bool} {states : Disk.StateDB} {root : Uint256} :
    Disk.generateStateRoot .none env config order store b init commit = .ok (states, root) ↔
      ∃ s s', ExecutesTo env config store b init s ∧
        finalize .none env order (finalizesLegacyNames config store.cs) commit s = (.ok root, s') ∧ s'.sdb = states := by
  simp only [Disk.generateStateRoot, bind_eq_ok]
  constructor
  · rintro ⟨stateRoot, opens, states', opened, root', ran, ends⟩
    obtain ⟨rfl, rfl⟩ := Prod.mk.inj (Except.ok.inj ends)
    have returned : generateRoot .none env config order store.cs b commit ⟨states', store.states, 1⟩ = (.ok root', _) :=
      Prod.ext ran rfl
    obtain ⟨⟨⟩, m, executed, flushed⟩ := Proc.bind_eq_ok.mp returned
    obtain ⟨s', finalized, reached⟩ := Proc.zoom_eq_ok.mp flushed
    exact ⟨_, s', ⟨stateRoot, states', m, opens, opened, executed, rfl⟩, finalized, congrArg Machine.states reached⟩
  · rintro ⟨_, s', ⟨stateRoot, states', _, opens, opened, executed, rfl⟩, finalized, rfl⟩
    have returned : generateRoot .none env config order store.cs b commit ⟨states', store.states, 1⟩ = (.ok root, _) :=
      (Proc.bind_of_ok executed).trans (Proc.zoom_eq_ok.mpr ⟨s', finalized, rfl⟩)
    exact ⟨stateRoot, opens, states', opened, root, by rw [returned], by rw [returned]⟩

theorem ExecutesTo.reads (ledger : StateStored env store init map) {s : Session} (executes : ExecutesTo env config store b init s) :
    s.sdb.trie.Reads env map := by
  obtain ⟨_, opens, committed⟩ := ledger
  obtain ⟨_, _, _, opens', opened, executed, rfl⟩ := executes
  obtain rfl := ok_unique opens opens'
  have kept : BlockTracks (fun sdb => sdb.trie.Reads env map) (executeBlock .none env config store.cs b)
      (executeBlock .none env config store.cs b) :=
    blockTracks_executeBlock stable_reads (Faults.spares_none b) ofTrie_reads store.cs
  exact kept.reached (reads_newStateDB committed opened) executed

/-- `Finalize(true)` on what executing a block reaches, when the height that follows the ledger is not a legacy height:
in whatever orders the maps are enumerated, it returns the same root and stores the same trie. -/
theorem finalize_any_order (ledger : StateStored env store init map) (current : finalizesLegacyNames config store.cs = false)
    {s : Session} (executes : ExecutesTo env config store b init s) (order order' : Enumeration) :
    ∃ tree root after after',
      finalize .none env order (finalizesLegacyNames config store.cs) true s = (.ok root, after) ∧
      finalize .none env order' (finalizesLegacyNames config store.cs) true s = (.ok root, after') ∧
      after.sdb.trie.Holds env (fun _ => True) tree ∧ after'.sdb.trie.Holds env (fun _ => True) tree := by
  rw [current]
  have settles := settles_current (executes.reads ledger)
  obtain ⟨tree, after, contents, finalized, holds⟩ := settles.committed order
  obtain ⟨tree', after', contents', finalized', holds'⟩ := settles.committed order'
  obtain rfl : tree = tree' := holds.proper.ext holds'.proper (contents.trans contents'.symm)
  exact ⟨tree, _, after, after', finalized, finalized', holds, holds'⟩

/-- The names of a block are written alike in both modes and in every order: they are written after the name service
change, or the block is one of separate names. -/
def WrittenAlike (env : Env) (config : Config) (store : Disk.ChainStore) (map : Trie.Map) (b : Block) : Prop :=
  finalizesLegacyNames config store.cs = false ∨ config.isLegacy b.height = true ∧ SeparateNames env map b

theorem ExecutesTo.settles (ledger : StateStored env store init map) (alike : WrittenAlike env config store map b)
    {s : Session} (executes : ExecutesTo env config store b init s) :
    ∃ m, Settles env (finalizesLegacyNames config store.cs) s m := by
  have reads := executes.reads ledger
  cases legacy : finalizesLegacyNames config store.cs with
  | false => exact ⟨_, settles_current reads⟩
  | true =>
    obtain ⟨height, separate⟩ := alike.resolve_left (by simp [legacy])
    obtain ⟨_, opens, committed⟩ := ledger
    obtain ⟨_, states, _, opens', opened, executed, rfl⟩ := executes
    obtain rfl := ok_unique opens opens'
    have start : Unscheduled env map [] states := unscheduled_newStateDB committed opened
    have pending := executeBlock_pending height separate start executed
    exact ⟨_, settles_legacy (pending.writable separate) reads⟩

theorem Disk.Settles.same_root {s : Session} {legacy : Bool} {m : Trie.Map} (settles : Settles env legacy s m)
    (order order' : Enumeration) (root : Uint256) :
    (∃ s', finalize .none env order legacy false s = (.ok root, s')) ↔
      ∃ s', finalize .none env order' legacy true s = (.ok root, s') ∧ s'.sdb.trie.root.isNil = false := by
  obtain ⟨_, after, contents, committed, holds⟩ := settles.committed order'
  by_cases empty : m = fun _ => none
  · subst empty
    refine ⟨fun ⟨s', previewed⟩ => absurd previewed (settles.not_previewed order), fun ⟨s', committed', present⟩ => ?_⟩
    obtain ⟨-, rfl⟩ := Prod.mk.inj (committed.symm.trans committed')
    have absent := holds.isNil_iff.mpr (holds.proper.eq_nil_iff.mpr contents)
    exact absurd absent (by simp [present])
  · obtain ⟨_, before, proper, contents', present, previewed⟩ := settles.previewed order empty
    obtain rfl := holds.proper.ext proper (contents.trans contents'.symm)
    rw [commitRoot_eq present] at committed
    constructor
    · rintro ⟨s', previewed'⟩
      obtain ⟨same, -⟩ := Prod.mk.inj (previewed.symm.trans previewed')
      exact ⟨after, same ▸ committed, Bool.eq_false_iff.mpr fun isNil => present (holds.isNil_iff.mp isNil)⟩
    · rintro ⟨_, committed', -⟩
      obtain ⟨same, -⟩ := Prod.mk.inj (committed.symm.trans committed')
      exact ⟨before, same ▸ previewed⟩

theorem previewed_iff_committed (ledger : StateStored env store init map) (alike : WrittenAlike env config store map b)
    (order order' : Enumeration) (root : Uint256) :
    (∃ states, Disk.generateStateRoot .none env config order store b init false = .ok (states, root)) ↔
      ∃ states, Disk.generateStateRoot .none env config order' store b init true = .ok (states, root) ∧
        states.trie.root.isNil = false := by
  simp only [Disk.generateStateRoot_eq_ok]
  constructor
  · rintro ⟨states, s, s', executes, previewed, -⟩
    obtain ⟨m, settles⟩ := executes.settles ledger alike
    obtain ⟨after, committed, present⟩ := (settles.same_root order order' root).mp ⟨s', previewed⟩
    exact ⟨after.sdb, ⟨s, after, executes, committed, rfl⟩, present⟩
  · rintro ⟨_, ⟨s, s', executes, committed, rfl⟩, present⟩
    obtain ⟨_, settles⟩ := executes.settles ledger alike
    obtain ⟨after, previewed⟩ := (settles.same_root order order' root).mpr ⟨s', committed, present⟩
    exact ⟨after.sdb, s, after, executes, previewed, rfl⟩

end

namespace TwoSpellings

open Sample

def otherKey : Bytes := (Word.ofNat 32 0x8139770ea87d175f56a35466c34c7ecccb8d8a91b4ee37a25df60f5b8fc9b394).toArray

def otherAddress : Uint160 := Word.ofNat 20 0x215740cc528984139242a08d2be583c30175e469

def upper : Pb.RegisterName := ⟨proposerKey, [70, 111, 111], 0⟩

def lower : Pb.RegisterName := ⟨otherKey, [102, 111, 111], 0⟩

def payment : Pb.TransferAsset := ⟨donationAddress.toArray, proposer.toArray, 3⟩

def root : Uint256 := Word.ofNat 32 0x6550d72a8d25b266385106572e4f7030ebdc630d23012ec5b96e899154c8af25

def previewRoot : Uint256 := Word.ofNat 32 0x61d6ee7772aa955005f9f28403eb26c26cd94bfe8e7da338b4a2f066418e1218

def commitRoot : Uint256 := Word.ofNat 32 0x6d4de72dd27bc5ae0640106f4fe5403bef6b86f89bd1923c94ca532dd7a8cf6d

def paidRoot : Uint256 := Word.ofNat 32 0x2461be0fc7128eb35e08569519e2dc79a75bf19051ae631b6a7942da4bc26fbe

/-- The encoded nodes with their digests: of the ledger, after the registrations in both ways, and after the payment. -/
def digests : List (Bytes × Uint256) :=
    Tables.hashedTwice (Word.ofNat 69 0x02162000fd53fc1110ecbb94217ae51528912b0dfd9d9955012b00010000000000000000000000000000000000000000000000000000000000000000050000000000000000).toArray
      (Word.ofNat 32 0x8497b08fb0124b2cf41504e02e37850818c64631549725c2a15427acbea76867)
      (Word.ofNat 32 0x6550d72a8d25b266385106572e4f7030ebdc630d23012ec5b96e899154c8af25) ++
    Tables.hashedTwice (Word.ofNat 67 0x0214315740cc528984139242a08d2be583c30175e469012b01010000000000000000000000000000000000000000000000000000000000000000000000000000000000).toArray
      (Word.ofNat 32 0x4218c488f3493c72aa2ad652ffaaa6556e5f62f5bea98cccc17e1c7df6f4d72a)
      (Word.ofNat 32 0xa2bcd2cc399b45bc5b2bb539094d25188f0ac0b46c1d68ef6cce9edb2a2fc4a7) ++
    Tables.hashedTwice (Word.ofNat 67 0x021439862cd040a737dae00c5df65eb0e6d5782d2b1f012b01010000000000000000000000000000000000000000000000000000000000000000000000000000000000).toArray
      (Word.ofNat 32 0x92a8692ca4b2433f3f169f012e6cd0e9a41a2e351efc55c002d2770bdf1e4c72)
      (Word.ofNat 32 0x5ea2a2833a2d2de208261aa7ee5cd0b5b6fe4e2933f37ef6666979829097d73c) ++
    Tables.hashedTwice (Word.ofNat 67 0x02143d53fc1110ecbb94217ae51528912b0dfd9d9955012b00010000000000000000000000000000000000000000000000000000000000000000050000000000000000).toArray
      (Word.ofNat 32 0x97e70a68f1d12bfe71b9b4e384c23856b8f2dbf6ab759268afab88b1313cb8d4)
      (Word.ofNat 32 0xf2227b548a061b894f1731fda6233b4005643c1af4c516fe286a3abc4f933001) ++
    Tables.hashedTwice (Word.ofNat 148 0x11000100010100020020a2bcd2cc399b45bc5b2bb539094d25188f0ac0b46c1d68ef6cce9edb2a2fc4a70301000401000501000601000701000801000901000a01000b01000c01000d01000e00205ea2a2833a2d2de208261aa7ee5cd0b5b6fe4e2933f37ef6666979829097d73c0f0020f2227b548a061b894f1731fda6233b4005643c1af4c516fe286a3abc4f933001100100).toArray
      (Word.ofNat 32 0xe8a1eba76160e6fcf8197b9af8fd4fc5395b5e4ad3b73134971667119b67fbd2)
      (Word.ofNat 32 0x4f9b9179a1189d6f5ac6ff5ecb4c5f866a0ddcd2d49ab2be07deb27b76c88d36) ++
    Tables.hashedTwice (Word.ofNat 40 0x020420666f6f01208139770ea87d175f56a35466c34c7ecccb8d8a91b4ee37a25df60f5b8fc9b394).toArray
      (Word.ofNat 32 0x24faeea3957ece346f7f5decc1b7037cfca5dce2bfa883688ca44a33390fbc93)
      (Word.ofNat 32 0xf7e83328582230e3a76361f8a6fd2fd46dded2a9fbb115ffe4899b18294b4c08) ++
    Tables.hashedTwice (Word.ofNat 40 0x0221208139770ea87d175f56a35466c34c7ecccb8d8a91b4ee37a25df60f5b8fc9b3940103466f6f).toArray
      (Word.ofNat 32 0xab1c9578caa8e2242fd0bff914261bf062d3f7c6bebb32aed6f40450c51724f3)
      (Word.ofNat 32 0x167060fcff108ca0f0415fb968013ccdc01414e96a56e155a1014d3ea34fa42d) ++
    Tables.hashedTwice (Word.ofNat 148 0x110000204f9b9179a1189d6f5ac6ff5ecb4c5f866a0ddcd2d49ab2be07deb27b76c88d36010100020100030020f7e83328582230e3a76361f8a6fd2fd46dded2a9fbb115ffe4899b18294b4c08040020167060fcff108ca0f0415fb968013ccdc01414e96a56e155a1014d3ea34fa42d0501000601000701000801000901000a01000b01000c01000d01000e01000f0100100100).toArray
      (Word.ofNat 32 0x384fce3000767af986a74dfd66bc606e3d35b33960021565d63992ac9f7e2450)
      (Word.ofNat 32 0x2cc061ff2d9d17f4778b16f7da9c53fa660c2e3cdd8f9733983bd4c2b06c138c) ++
    Tables.hashedTwice (Word.ofNat 37 0x02011000202cc061ff2d9d17f4778b16f7da9c53fa660c2e3cdd8f9733983bd4c2b06c138c).toArray
      (Word.ofNat 32 0xff14d1135469ac192f8f7837cc488d79efeac845f8042b8beeb38c07a2766ff8)
      (Word.ofNat 32 0x61d6ee7772aa955005f9f28403eb26c26cd94bfe8e7da338b4a2f066418e1218) ++
    Tables.hashedTwice (Word.ofNat 40 0x0221208139770ea87d175f56a35466c34c7ecccb8d8a91b4ee37a25df60f5b8fc9b3940103666f6f).toArray
      (Word.ofNat 32 0xf567a24c16d660b9375ec31149634cd0e5e5802b1be0d2e6397ba615f38bce05)
      (Word.ofNat 32 0x1aa62c213df7c7f0876eba74d81819e7715263458a232159e4b5264ca2801b6c) ++
    Tables.hashedTwice (Word.ofNat 148 0x110000204f9b9179a1189d6f5ac6ff5ecb4c5f866a0ddcd2d49ab2be07deb27b76c88d36010100020100030020f7e83328582230e3a76361f8a6fd2fd46dded2a9fbb115ffe4899b18294b4c080400201aa62c213df7c7f0876eba74d81819e7715263458a232159e4b5264ca2801b6c0501000601000701000801000901000a01000b01000c01000d01000e01000f0100100100).toArray
      (Word.ofNat 32 0xc07eeff41af23918199240c426648db748a2d9e0f9a57524695e30e706a11a6a)
      (Word.ofNat 32 0xe2808415f262470072f5508d423dc142bab35ba777416fbc7286e971434bda49) ++
    Tables.hashedTwice (Word.ofNat 37 0x0201100020e2808415f262470072f5508d423dc142bab35ba777416fbc7286e971434bda49).toArray
      (Word.ofNat 32 0xbfbf8986f9158ff8cb20f2f9ed938c2bccd96c4ba07013b206db07e7946f7add)
      (Word.ofNat 32 0x6d4de72dd27bc5ae0640106f4fe5403bef6b86f89bd1923c94ca532dd7a8cf6d) ++
    Tables.hashedTwice (Word.ofNat 67 0x021439862cd040a737dae00c5df65eb0e6d5782d2b1f012b00010000000000000000000000000000000000000000000000000000000000000000030000000000000000).toArray
      (Word.ofNat 32 0xc6ea3e2c1ecd2dccfd984fa8db93dbfa9e02df6a4715735ba2ce9706caf9d891)
      (Word.ofNat 32 0x4ec397a835bba4ba47599ff8fab8f887c14a65f8867c7b690028b672b3f3c258) ++
    Tables.hashedTwice (Word.ofNat 67 0x02143d53fc1110ecbb94217ae51528912b0dfd9d9955012b01010000000000000000000000000000000000000000000000000000000000000000020000000000000000).toArray
      (Word.ofNat 32 0x2ae1eea71c3f9443c24c7b9f9d2673f3f17aab0ad9a3941e25990a19c58debf6)
      (Word.ofNat 32 0xdc5f35d1573a5177c6617ce4cfd9eaaffb29c7a52f09ccb16eef5dd4632331ef) ++
    Tables.hashedTwice (Word.ofNat 116 0x110001000101000201000301000401000501000601000701000801000901000a01000b01000c01000d01000e00204ec397a835bba4ba47599ff8fab8f887c14a65f8867c7b690028b672b3f3c2580f0020dc5f35d1573a5177c6617ce4cfd9eaaffb29c7a52f09ccb16eef5dd4632331ef100100).toArray
      (Word.ofNat 32 0xb2da0c0c38a5d0e2208edf7924297936730940d47d65d22dd50791e538ae791f)
      (Word.ofNat 32 0x0914a7875eb2c3f58938ec72cf9c76590215a5149481ef2c0d4964198bf5f4d2) ++
    Tables.hashedTwice (Word.ofNat 38 0x0202000000200914a7875eb2c3f58938ec72cf9c76590215a5149481ef2c0d4964198bf5f4d2).toArray
      (Word.ofNat 32 0x7810ac89361379b91fcd562e57b9ac1e22fcd3d5642fa7a098f84c0115449009)
      (Word.ofNat 32 0x2461be0fc7128eb35e08569519e2dc79a75bf19051ae631b6a7942da4bc26fbe)

def tables : Tables where
  sha256 := digests ++
    [(createSignatureProgramCode proposerKey, Word.ofNat 32 0xdf7de6a38f104d08fca870e14678e6890fad22243ed2d31c22eb20a22cdc7945),
      (createSignatureProgramCode otherKey, Word.ofNat 32 0x883c722f7199a55ca4ed6d45a061378a2bf334798063e7280adae54400d073ec)]
  ripemd160 :=
    [((Word.ofNat 32 0xdf7de6a38f104d08fca870e14678e6890fad22243ed2d31c22eb20a22cdc7945).toArray, proposer),
      ((Word.ofNat 32 0x883c722f7199a55ca4ed6d45a061378a2bf334798063e7280adae54400d073ec).toArray, otherAddress)]
  messages := [.registerName upper, .registerName lower, .transferAsset payment]

def register (payload : Pb.RegisterName) : Transaction := ⟨packed (.registerName payload) 0 0, []⟩

def block : Block := ⟨header 1 emptyUint256 previewRoot, [register upper, register lower]⟩

def singleBlock : Block := ⟨header 1 emptyUint256 emptyUint256, [register lower]⟩

def paymentBlock : Block := ⟨header 1 emptyUint256 paidRoot, [⟨packed (.transferAsset payment) 0 0, []⟩]⟩

def key : Bytes := accountPrefix ++ donationAddress.toArray

def value : Bytes := (Account.new.setBalance nknAssetID 5).serialize [nknAssetID]

def tree : Trie.Tree := .short (keyBytesToHex key) (.value value)

def nodes : Trie.Database := fun hash => if hash = root.toArray then some (encode tables.env tree) else none

def store : Disk.ChainStore where
  cs := .holding root StateTrie.empty emptyUint256 block [] 0
  nodes := nodes
  states := { trie := { root := .hashNode root.toArray, db := nodes } }

theorem leaf : (rootHash tables.env tree = root ∧ root ≠ emptyUint256) ∧
    nodes (sha256Key tables.env (encode tables.env tree)) = some (encode tables.env tree) ∧
    (16 ∉ (keyBytesToHex key).dropLast ∧ keyBytesToHex key = (keyBytesToHex key).dropLast ++ [16]) ∧
    (hexToCompact (keyBytesToHex key)).length < 2 ^ 64 ∧ value ≠ [] ∧ value.length < 2 ^ 64 := by
  decide +kernel

theorem held : Held tables.env nodes tree :=
  have ⟨_, has, path, readable⟩ := leaf
  { inner := trivial, readable := ⟨⟨_, path.1, .inr path.2⟩, readable⟩, stored := ⟨has, fun _ => has, trivial⟩ }

theorem stateStored : StateStored tables.env store true (contents tree) :=
  have ⟨⟨rootHash_eq, nonempty⟩, _, _, _, _, _⟩ := leaf
  have proper : Proper tree := (proper_nil.insert key _).1
  ⟨root, rfl, rootHash_eq ▸ .trie proper held (rootHash_eq ▸ nonempty)⟩

theorem blocks :
    ((Disk.generateStateRoot .none tables.env FirstBlocks.currentConfig .stored store paymentBlock true true).isOk = true ∧
      finalizesLegacyNames FirstBlocks.currentConfig store.cs = false) ∧
    unpack tables.env (register lower).unsignedTx.payload = .ok (.registerName lower) ∧
    contents tree (nameCleanupPrefix ++ writeUint32 singleBlock.height) = none ∧ lower.registrant ≠ [] ∧
    mainnet.isLegacy singleBlock.height = true := by
  decide +kernel

theorem finalize_any_order_payment : ∃ s, ExecutesTo tables.env FirstBlocks.currentConfig store paymentBlock true s ∧
    ∀ order order' : Enumeration, ∃ tree root after after',
      finalize .none tables.env order (finalizesLegacyNames FirstBlocks.currentConfig store.cs) true s = (.ok root, after) ∧
      finalize .none tables.env order' (finalizesLegacyNames FirstBlocks.currentConfig store.cs) true s = (.ok root, after') ∧
      after.sdb.trie.Holds tables.env (fun _ => True) tree ∧ after'.sdb.trie.Holds tables.env (fun _ => True) tree := by
  have ⟨⟨paid, current⟩, _⟩ := blocks
  obtain ⟨⟨states, root⟩, generated⟩ := isOk_iff.mp paid
  obtain ⟨s, s', executes, -, -⟩ := Disk.generateStateRoot_eq_ok.mp generated
  exact ⟨s, executes, fun order order' => finalize_any_order stateStored current executes order order'⟩

theorem separate : SeparateNames tables.env (contents tree) singleBlock := by
  have ⟨_, unpack_register, uncleaned, _, _⟩ := blocks
  have changes : nameChanges tables.env singleBlock.transactions = [⟨lower.registrant, lower.name, true⟩] := by
    simp [nameChanges, singleBlock, nameChange, unpack_register]
  refine ⟨?_, fun _ => uncleaned, ?_, ?_⟩
  · simp [singleBlock, unpack_register]
  · simp [changes]
  · simp [changes, lower, NameChange.spelling]

end TwoSpellings

end Nkn
