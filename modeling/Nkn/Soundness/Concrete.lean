import Nkn.Model.SaveBlock

/-! # Concrete environments and stores

The functions of an environment on finitely many inputs, and stores with given balances, for concrete runs of
the model. -/

namespace Nkn

def tabulate {α β : Type} [DecidableEq α] (default : β) (table : List (α × β)) (input : α) : β :=
  (table.lookup input).getD default

namespace Proto

def varintDigits : Nat → Nat → Bytes
  | 0, _ => []
  | digits + 1, value =>
    if value < 128 then [UInt8.ofNat value]
    else UInt8.ofNat (value % 128 + 128) :: varintDigits digits (value / 128)

def varint (value : Nat) : Bytes := varintDigits 10 value

def number (field : Nat) (value : UInt64) : Bytes :=
  if value = 0 then [] else varint (field * 8) ++ varint value.toNat

def nested (field : Nat) (value : Bytes) : Bytes := varint (field * 8 + 2) ++ varint value.length ++ value

def bytes (field : Nat) (value : Bytes) : Bytes := if value = [] then [] else nested field value

def message : Pb.Message → Bytes
  | .coinbase m => bytes 1 m.sender ++ bytes 2 m.recipient ++ number 3 m.amount.toUInt64
  | .transferAsset m => bytes 1 m.sender ++ bytes 2 m.recipient ++ number 3 m.amount.toUInt64
  | .sigChainTxn m => bytes 1 m.sigChain ++ bytes 2 m.submitter
  | .registerName m => bytes 1 m.registrant ++ bytes 2 m.name ++ number 3 m.registrationFee.toUInt64
  | .transferName m => bytes 1 m.name ++ bytes 2 m.registrant ++ bytes 3 m.recipient
  | .deleteName m => bytes 1 m.registrant ++ bytes 2 m.name
  | .subscribe m =>
    bytes 1 m.subscriber ++ bytes 2 m.identifier ++ bytes 3 m.topic ++ number 4 m.bucket.toUInt64 ++
      number 5 m.duration.toUInt64 ++ bytes 6 m.metadata
  | .unsubscribe m => bytes 1 m.subscriber ++ bytes 2 m.identifier ++ bytes 3 m.topic
  | .generateID m =>
    bytes 1 m.publicKey ++ number 2 m.registrationFee.toUInt64 ++ bytes 3 m.sender ++
      number 4 m.version.toInt64.toUInt64
  | .nanoPay m =>
    bytes 1 m.sender ++ bytes 2 m.recipient ++ number 3 m.id ++ number 4 m.amount.toUInt64 ++
      number 5 m.txnExpiration.toUInt64 ++ number 6 m.nanoPayExpiration.toUInt64
  | .issueAsset m =>
    bytes 1 m.sender ++ bytes 2 m.name ++ bytes 3 m.symbol ++ number 4 m.totalSupply.toUInt64 ++
      number 5 m.precision.toUInt64

def transaction (txn : Pb.Transaction) : Bytes :=
  let payload := number 1 txn.unsignedTx.payload.type.code.toUInt64 ++ bytes 2 txn.unsignedTx.payload.data
  let unsigned := nested 1 payload ++ number 2 txn.unsignedTx.nonce ++ number 3 txn.unsignedTx.fee.toUInt64 ++
    bytes 4 txn.unsignedTx.attributes
  nested 1 unsigned ++
    txn.programs.flatMap fun program => nested 2 (bytes 1 program.code ++ bytes 2 program.parameter)

end Proto

def packed (message : Pb.Message) (nonce : UInt64) (fee : Int64) : Pb.UnsignedTx :=
  ⟨⟨message.type, Proto.message message⟩, nonce, fee, []⟩

structure Tables where
  sha256 : List (Bytes × Uint256) := []
  ripemd160 : List (Bytes × Uint160) := []
  signatures : List (Bytes × Bytes × Bytes) := []
  messages : List Pb.Message := []
  regexes : List (String × Bytes) := []
  vrfs : List (Bytes × Bytes × Bytes × Bytes) := []
  sigChains : List (Bytes × Pb.SigChain) := []
  stateRoot : Store.StateTrie → Uint256 := fun _ => emptyUint256

namespace Tables

def hashedTwice (input : Bytes) (first second : Uint256) : List (Bytes × Uint256) :=
  [(input, first), (first.toArray, second)]

def decode {α : Type} (tables : Tables) (select : Pb.Message → Option α) (data : Bytes) : Option α :=
  (tables.messages.filter fun message => Proto.message message = data).findSome? select

def codec (tables : Tables) : Codec where
  coinbase := tables.decode fun | .coinbase payload => some payload | _ => none
  transferAsset := tables.decode fun | .transferAsset payload => some payload | _ => none
  sigChainTxn := tables.decode fun | .sigChainTxn payload => some payload | _ => none
  registerName := tables.decode fun | .registerName payload => some payload | _ => none
  transferName := tables.decode fun | .transferName payload => some payload | _ => none
  deleteName := tables.decode fun | .deleteName payload => some payload | _ => none
  subscribe := tables.decode fun | .subscribe payload => some payload | _ => none
  unsubscribe := tables.decode fun | .unsubscribe payload => some payload | _ => none
  generateID := tables.decode fun | .generateID payload => some payload | _ => none
  nanoPay := tables.decode fun | .nanoPay payload => some payload | _ => none
  issueAsset := tables.decode fun | .issueAsset payload => some payload | _ => none
  sigChain encoded := tables.sigChains.lookup encoded

def toLower (s : Bytes) : Bytes := s.map fun c => if 65 ≤ c ∧ c ≤ 90 then c + 32 else c

/-- The nearest number with a significand of 53 bits, the even one of two. -/
def float64 (q : ℚ) : ℚ :=
  let exponent : ℤ := 52 + q.den.log2 - q.num.natAbs.log2
  let exponent := if mkRat q.num.natAbs q.den * 2 ^ exponent < 2 ^ 52 then exponent + 1 else exponent
  let below := (q * 2 ^ exponent).floor
  let rest := q * 2 ^ exponent - below
  (if rest < 1 / 2 ∨ rest = 1 / 2 ∧ below % 2 = 0 then below else below + 1) / 2 ^ exponent

def env (tables : Tables) : Env where
  sha256 := tabulate emptyUint256 tables.sha256
  ripemd160 := tabulate (Word.ofNat 20 0) tables.ripemd160
  verify key data signature := decide ((key, data, signature) ∈ tables.signatures)
  marshal := Proto.transaction
  codec := tables.codec
  matchString pattern s := decide ((pattern, s) ∈ tables.regexes)
  toLower := toLower
  quotient x y := float64 (float64 x.toInt / float64 y.toNat)
  verifyVrf key data output proof := decide ((key, data, output, proof) ∈ tables.vrfs)
  stateRoot := tables.stateRoot
  rangeOrder := id

end Tables

namespace Store

open Config

def StateTrie.ofBalances (balances : List (Uint160 × Int64)) (supply : Int64) : StateTrie :=
  { StateTrie.empty with
    accounts := fun addr => (balances.lookup addr).map (Account.new.setBalance nknAssetID)
    assets := fun assetID =>
      if assetID = nknAssetID then
        some ⟨nknAssetName, nknAssetSymbol, supply, nknAssetPrecision, initialIssueAddress⟩
      else none }

theorem getBalance_ofBalances (holder : Uint160) (value supply : Int64) (assetID : Uint256) (addr : Uint160) :
    (StateDB.new (.ofBalances [(holder, value)] supply)).getBalance assetID addr =
      if assetID = nknAssetID ∧ addr = holder then value else 0 := by
  have account : (StateDB.new (.ofBalances [(holder, value)] supply)).getAccount addr =
      if addr = holder then some (Account.new.setBalance nknAssetID value) else none := by
    by_cases same : addr = holder
    · simp [StateDB.getAccount, StateDB.new, StateTrie.ofBalances, same]
    · simp [StateDB.getAccount, StateDB.new, StateTrie.ofBalances, List.lookup_cons, same, beq_eq_false_iff_ne.mpr same]
  rw [StateDB.getBalance, account]
  by_cases same : addr = holder <;> simp [same]

/-- A database that holds one trie and one block, given by its hash and the hashes of its transactions. -/
def DB.holding (root : Uint256) (trie : StateTrie) (hash : Uint256) (b : Block) (hashes : List Uint256) : DB where
  headers := fun key => if key = hash then some ⟨b.header, hashes⟩ else none
  blockHashes := fun height => if height = b.height then some hash else none
  transactions := fun key => ((hashes.zip b.transactions).lookup key).map fun txn => (b.height, txn)
  donations := fun _ => none
  tries := fun key => if key = root then some trie else none
  currentStateTrie := some root
  currentBlock := none

def ChainStore.holding (root : Uint256) (trie : StateTrie) (hash : Uint256) (b : Block) (hashes : List Uint256)
    (height : UInt32) : ChainStore where
  db := DB.holding root trie hash b hashes
  states := StateDB.new trie
  currentBlockHash := emptyUint256
  currentBlockHeight := height
  headerCache := ⟨∅, ∅, 0⟩
  sigChainCache := ∅

end Store

namespace Sample

open Config Store

def proposerKey : Bytes :=
  (Word.ofNat 32 0x8a88e3dd7409f195fd52db2d3cba5d72ca6709bf1d94121bf3748801b40f6f5c).toArray

def proposer : Uint160 := Word.ofNat 20 0xe9862cd040a737dae00c5df65eb0e6d5782d2b1f

def header (height : UInt32) (transactionsRoot stateRoot : Uint256) : Header where
  unsignedHeader := {
    version := 1
    prevBlockHash := emptyUint256.toArray
    transactionsRoot := transactionsRoot.toArray
    stateRoot := stateRoot.toArray
    timestamp := 1666662400
    height
    randomBeacon := List.replicate randomBeaconLength 0
    winnerHash := emptyUint256.toArray
    winnerType := .blockSigner
    signerPk := proposerKey
    signerId := (Word.ofNat 32 0x34750f98bd59fcfc946da45aaabe933be154a4b5094e1c4abf42866505f3c97e).toArray }
  signature := []

def coinbase : Pb.Coinbase := ⟨donationAddress.toArray, proposer.toArray, 1046467135⟩

def coinbaseTxn (nonce : UInt64) (fee : Int64) : Transaction := ⟨packed (.coinbase coinbase) nonce fee, []⟩

def earlierHash : Uint256 := Word.ofNat 32 0x346c5f3c7dc5a54a259a7958210db191bd82a371eaa2d86402dc54a4f58ef738

def earlierTxnHash : Uint256 := Word.ofNat 32 0xc8772424f5f01ad14870b1b5ae1befc28330f47d3aefa6b94f4e85bd5113ba8c

def earlierBlock : Block := ⟨header 4999992 earlierTxnHash emptyUint256, [coinbaseTxn 0 0]⟩

def chainStore (root : Uint256) (trie : StateTrie) : ChainStore :=
  .holding root trie earlierHash earlierBlock [earlierTxnHash] 4999999

end Sample

/-! The genesis block for a proposer, a block by that proposer with a coinbase only, a block in which the recipient of
that coinbase transfers 1 NKN, and a block in which it subscribes to a topic and pays over a channel. -/

namespace FirstBlocks

open Config Store Sample

/-- The tables of the source, with the current name service and nano pay fees from the start. -/
def currentConfig : Config :=
  { mainnet with legacyNameService := ⟨[(0, false)], false⟩, chargeNanoPayTxnFee := ⟨[(0, true)], false⟩ }

def genesisSignerId : Uint256 := Word.ofNat 32 0x2ea9ab9198d1638007400cd2c3bef1cc745b864b76011a0e1bc52180ac6452d4

def packedCoinbase : Bytes := Proto.message (.coinbase genesisCoinbase)

def genesisTxnHash : Uint256 := Word.ofNat 32 0x7ed1dd5d65faa89bdd9f024a1100bf21bc5489853ae33371ae5f3c2dbf68b594

def genesisHash : Uint256 := Word.ofNat 32 0x89624f470b179f42f8a3335d24e46209222f469a5347eba5dd8a43c4eac093eb

def genesisRoot : Uint256 := Word.ofNat 32 0x9bfe57775b91d2f6e2f5fe3c90b013b647ed4d0db3bee61b24fadd9ef00a7a56

def firstRoot : Uint256 := Word.ofNat 32 0xa9924a68379ccfff0f1d452f15e738ce484580d724e0bfb60840aec67786ff32

def secondRoot : Uint256 := Word.ofNat 32 0x0418b5054fdfb23bce785e8d47a2082e1f45abccb276e20da5c9336041b70f0d

def header (height : UInt32) (timestamp : Int64) (prevBlockHash transactionsRoot stateRoot : Uint256)
    (randomBeacon signature : Bytes) : Header where
  unsignedHeader := {
    version := headerVersion
    prevBlockHash := prevBlockHash.toArray
    transactionsRoot := transactionsRoot.toArray
    stateRoot := stateRoot.toArray
    timestamp
    height
    randomBeacon
    winnerHash := emptyUint256.toArray
    winnerType := .genesisSigner
    signerPk := proposerKey
    signerId := genesisSignerId.toArray }
  signature

def coinbase : Pb.Coinbase := ⟨donationAddress.toArray, proposer.toArray, 1141552511⟩

def coinbaseTxn (nonce : UInt64) : Transaction := ⟨packed (.coinbase coinbase) nonce 0, []⟩

def firstTxnHash : Uint256 := Word.ofNat 32 0xc85d6c4717fa075da7ba8af73bdb79cbbc18a25adddc0162d744b82fd4630d4b

def firstBeacon : Bytes :=
  (Word.ofNat 128 0x12e6d662fd195cd37b0f22a1df79efc5648bff59e387e9457ea26a8a06bc2febf0ee5ce09dcf99782c4cee1f306a0c4aa93b41777a7f8dbb88cce949e349f009936d12c68641de967e6b8722f91a39c5f5cee2ec863b2b7efbc223991bfe750298c32f0901572eb6481a399dba7c1f0b41f37c620b1d8b5e436369cf94852ecb).toArray

def secondBeacon : Bytes :=
  (Word.ofNat 128 0x3fcd81c3f5f74bb447b73fe7cc8937049795116c98b5d861f1473c6eee56446e8272443ba11dfdf74d63323765fef3f062300dbaa75f0c4b42314f70db41da054024dd5b0cf404879b8a64981e11abfb9bf267dadedfb5d2a9d0b7fe5277df0037213e911dd18dbc3d7aa4f5ba83ed23e535c8cd0604d27e06306122e2af8292).toArray

def firstSignature : Bytes :=
  (Word.ofNat 64 0x0bf44a0d70fbb5d578df045152c02a41662554db905f2b0f784bec5290d91f792b37e00005292c1426824dd1d3c6400fb835eb7611dd2b4c580dc7fcaa2a6009).toArray

def secondSignature : Bytes :=
  (Word.ofNat 64 0x3f2b23b6d9d6be869b4b80629c9024ad4995f747f9c180d37bb32bbe7248ada85a2aa67fdf2a47dcc840403375cee0abbecb1a0c2a085cb762ea13b5c093bb01).toArray

def firstBlock : Block :=
  ⟨header 1 1561813833 genesisHash firstTxnHash firstRoot firstBeacon firstSignature, [coinbaseTxn 1]⟩

def firstBlockHash : Uint256 := Word.ofNat 32 0xcd95d8a892ba4ac0f84462aef6f3580cafc32229e4480c1f7d29f21fd724fbfd

def transfer : Pb.TransferAsset :=
  ⟨proposer.toArray, (Word.ofNat 20 0x9452356093d422e2a9de176619b5adf3015124d9).toArray, 100000000⟩

def transferSignature : Bytes :=
  (Word.ofNat 64 0x18973730f1daaa2cd81a238e055b69137d9812670f25b8a7a9e9803981a5ecf043d7adec10de32d5baf11f3310c3692fa49a0a64af85ae99d928b7fda7ac450a).toArray

def transferTxn : Transaction :=
  ⟨packed (.transferAsset transfer) 0 0, [⟨createSignatureProgramCode proposerKey, 64 :: transferSignature⟩]⟩

def secondTxnHash : Uint256 := Word.ofNat 32 0xdbf5c5be5985597db3c1120554911061b6929c55754bf37b7b7cf94ca37baf81

def transferHashForSigning : Uint256 :=
  Word.ofNat 32 0xa8dc4c3b7778c0e653de7287d23dc23a6afab9e3b1e6c80b8aa14eaa17642d31

def transferHash : Uint256 := Word.ofNat 32 0x7ba04befcb7a09fe4efa8bea89c262d45fc99df90e8fa937a8a2a92c7ff513cc

def secondTxnsRoot : Uint256 := Word.ofNat 32 0xb0a4fd51fc3ed6a23e1607993a27970bac5ca5e392d81e7055ebce6b9dacd150

def secondBlock : Block :=
  ⟨header 2 1561813853 firstBlockHash secondTxnsRoot secondRoot secondBeacon secondSignature,
    [coinbaseTxn 2, transferTxn]⟩

def proposerCodeHash : Uint256 := Word.ofNat 32 0xdf7de6a38f104d08fca870e14678e6890fad22243ed2d31c22eb20a22cdc7945

def firstHashForSigning : Uint256 := Word.ofNat 32 0x3b335f131d10e8ea9ca358071fd5938a8a386128045f4ddc11eb8114ac59243a

def secondHashForSigning : Uint256 :=
  Word.ofNat 32 0x58d1f9799d2b9d4447c2c3eaea7a653e4fb09634adbdb2093fda290147dfd082

def secondBlockHash : Uint256 := Word.ofNat 32 0x77074af3d4ca2c80e6b025aadcfc8ea908e53406499406b769ce239335f49538

def topic : Bytes := "news".toUTF8.toList

def subscription : Pb.Subscribe := ⟨proposerKey, [], topic, 0, 10, []⟩

def subscriptionSignature : Bytes :=
  (Word.ofNat 64 0xf1923d1e65208cffa143406dd8ef24be4bea7e7a0289fc0de9c734e17c78a6fd587fc45e9dc2c7b1876af5a7957a1eff9ecaf5f1305c7278488175a62621a400).toArray

def subscriptionTxn : Transaction :=
  ⟨packed (.subscribe subscription) 1 0, [⟨createSignatureProgramCode proposerKey, 64 :: subscriptionSignature⟩]⟩

def channelPayment : Pb.NanoPay :=
  ⟨proposer.toArray, (Word.ofNat 20 0x9452356093d422e2a9de176619b5adf3015124d9).toArray, 1, 5, 100, 200⟩

def channelSignature : Bytes :=
  (Word.ofNat 64 0xc12ae78867f8af1f94cc4905340aac1a0d0c4f9a5c6696b71ba97eab22671e35f07dcac686b36182d2d403ed8c098089b4e96ade2480eeed9efa60cd9ddab40b).toArray

def channelTxn : Transaction :=
  ⟨packed (.nanoPay channelPayment) 0 0, [⟨createSignatureProgramCode proposerKey, 64 :: channelSignature⟩]⟩

def thirdTxnHash : Uint256 := Word.ofNat 32 0x195844f5598b251a2587baa2e20b425c6b17b74b5d5b2b7e5d3d4dde8ca71c1a

def subscriptionHashForSigning : Uint256 :=
  Word.ofNat 32 0x575ddbafae0755935225a1bab4f2f103390c7d83f98b5b37c7d8baaa6a45c412

def subscriptionHash : Uint256 := Word.ofNat 32 0xa45da523acd87fdb00a4b9bb316baeeff57c7cb0c264083ccd00cbcb73e4561a

def channelHashForSigning : Uint256 := Word.ofNat 32 0xdaea818031e8dd5f88f18c8caa003e186d6048ecf1e98c6d3be6547bf2bf116a

def channelHash : Uint256 := Word.ofNat 32 0x245441a56409d1e4e00692f805e8315234b10bf5015496f7a78e6493f7902129

def thirdLeft : Uint256 := Word.ofNat 32 0x80b7e8d742b6e0b01fd4c24b7df6d40e301c438eae608b5ef8f789dafb18176e

def thirdRight : Uint256 := Word.ofNat 32 0xf5f9f94a33bc93a35c4f448ab06a10e3d6c1d0b6c8df2f6541a629aef3334cef

def thirdTxnsRoot : Uint256 := Word.ofNat 32 0x6dcc80f6bef5c441914f273a344ab3ddd2de429a4bfcfb50afca473fa32e16eb

def thirdRoot : Uint256 := Word.ofNat 32 0x821acee6e82546a1b7ce4dcc96b279029595738903b8596eab790dc5cf40a1b9

def thirdBeacon : Bytes :=
  (Word.ofNat 128 0xd267ecb1c973e7176947e0512467a9f1814e02ae5f4dff11d9ed3e0913873f0862128569bdd9b3e7994dcd264aed5bb9f8cafa703083d362a29f336144dcb404e4ff9c292594e6efa9021ea9214df7d432d9561bd340ccd1200ff5c783aedf0fde6c781e0aa5358e6ed8ee1801891bff5e4e2d07cf4bfffeb1c00fd453a7b5e2).toArray

def thirdSignature : Bytes :=
  (Word.ofNat 64 0x64b0ba71219706fbf01909a3b44b5a2178cfd7c403bd4da6ea9dfba308eea940a03bddd89c7ff33205b11afac33abce7a6162dd283a0ef667a9a46c0db31f10f).toArray

def thirdBlock : Block :=
  ⟨header 3 1561813873 secondBlockHash thirdTxnsRoot thirdRoot thirdBeacon thirdSignature,
    [coinbaseTxn 3, subscriptionTxn, channelTxn]⟩

def thirdHashForSigning : Uint256 := Word.ofNat 32 0x006940f91be4dfaeb3259fbfb6b1b324761d13e9b4b5af4e8b822bbfa2309e21

def tables : Tables where
  sha256 :=
    (createSignatureProgramCode proposerKey, proposerCodeHash) :: (List.replicate 96 0, genesisSignerId) ::
    (topic, Word.ofNat 32 0x19fba0e995b9794fc2c26217bf3b725c2f0d9eeda16719fe75e3ba23ca73bfc4) ::
    (proposerKey, Word.ofNat 32 0x34750f98bd59fcfc946da45aaabe933be154a4b5094e1c4abf42866505f3c97e) ::
    Tables.hashedTwice (Transaction.serializeUnsigned ⟨packed (.coinbase genesisCoinbase) 0 0, []⟩)
      (Word.ofNat 32 0x101e6f8421da3e7e6b8979748d535ba9d3208634beb8c7ed04bf76931cfc4265) genesisTxnHash ++
    Tables.hashedTwice (Header.serializeUnsigned
        (header 0 genesisTimestamp emptyUint256 genesisTxnHash genesisRoot genesisBeacon []).unsignedHeader)
      (Word.ofNat 32 0x839ba1f6a9fc6403e9274861971944e67bfb898c747a866288b85fe2c441c530) genesisHash ++
    Tables.hashedTwice (Transaction.serializeUnsigned (coinbaseTxn 1))
      (Word.ofNat 32 0x5487936d8187a68ab8c4dbb2745465aa91a5e081d4e6618c940806f95ae4eea9) firstTxnHash ++
    Tables.hashedTwice (Header.serializeUnsigned firstBlock.header.unsignedHeader) firstHashForSigning firstBlockHash ++
    Tables.hashedTwice (Transaction.serializeUnsigned (coinbaseTxn 2))
      (Word.ofNat 32 0xe7b575f04fd997008496f8bee2b0c183c04a6f850d492bddb14a8d6112c49b51) secondTxnHash ++
    Tables.hashedTwice (Transaction.serializeUnsigned transferTxn) transferHashForSigning transferHash ++
    Tables.hashedTwice (secondTxnHash.toArray ++ transferHash.toArray)
      (Word.ofNat 32 0xaf881d0aca884d7d668899fca08749a28deac024c493dd855c4bcd269248bec8) secondTxnsRoot ++
    Tables.hashedTwice (Header.serializeUnsigned secondBlock.header.unsignedHeader) secondHashForSigning secondBlockHash ++
    Tables.hashedTwice (Transaction.serializeUnsigned (coinbaseTxn 3))
      (Word.ofNat 32 0xe1520ec17f842650b8a4976bd595e661e8f6a5fd9e4f42dc0d5fc7164d8cc252) thirdTxnHash ++
    Tables.hashedTwice (Transaction.serializeUnsigned subscriptionTxn) subscriptionHashForSigning subscriptionHash ++
    Tables.hashedTwice (Transaction.serializeUnsigned channelTxn) channelHashForSigning channelHash ++
    Tables.hashedTwice (thirdTxnHash.toArray ++ subscriptionHash.toArray)
      (Word.ofNat 32 0xdf0045f036fb2753400febfa373cc10b5e53dc1cf1c1e5c57231dcab725ba082) thirdLeft ++
    Tables.hashedTwice (channelHash.toArray ++ channelHash.toArray)
      (Word.ofNat 32 0xa12ff020be21958c8d87444af8fc9ff3b3eb2ad72fb6ddaa99f384ca93a10000) thirdRight ++
    Tables.hashedTwice (thirdLeft.toArray ++ thirdRight.toArray)
      (Word.ofNat 32 0x99d99af9157d3dd6d9c7a2f9f5e87d91087c19e7be6bb70252f3a1f5aeef1cdd) thirdTxnsRoot ++
    Tables.hashedTwice (Header.serializeUnsigned thirdBlock.header.unsignedHeader) thirdHashForSigning
      (Word.ofNat 32 0xf8dbb82ce6d389541248e0c2eeb0c8393c70e257c713687ef87e35e627df13ed)
  ripemd160 := [(proposerCodeHash.toArray, proposer)]
  signatures :=
    [(proposerKey, transferHashForSigning.toArray, transferSignature),
      (proposerKey, firstHashForSigning.toArray, firstSignature),
      (proposerKey, secondHashForSigning.toArray, secondSignature),
      (proposerKey, subscriptionHashForSigning.toArray, subscriptionSignature),
      (proposerKey, channelHashForSigning.toArray, channelSignature),
      (proposerKey, thirdHashForSigning.toArray, thirdSignature)]
  messages := [.coinbase genesisCoinbase, .coinbase coinbase, .transferAsset transfer, .subscribe subscription,
    .nanoPay channelPayment]
  regexes := [(mainnet.allowSubscribeTopicRegex.getValueAtHeight 3, topic)]
  vrfs :=
    [(proposerKey, genesisBeacon.take 32, firstBeacon.take 32, firstBeacon.drop 32),
      (proposerKey, firstBeacon.take 32, secondBeacon.take 32, secondBeacon.drop 32),
      (proposerKey, secondBeacon.take 32, thirdBeacon.take 32, thirdBeacon.drop 32)]
  stateRoot := fun trie =>
    match trie.accounts proposer with
    | none => genesisRoot
    | some account =>
      if account.nonce = 2 then thirdRoot
      else if account.nonce ≠ 0 then secondRoot
      else if account.getBalance nknAssetID ≠ 0 then firstRoot
      else genesisRoot

def initialized : Go.Outcome (ChainStore × Block) :=
  newBlockchainWithGenesisBlock tables.env currentConfig proposerKey packedCoinbase

def genesisStore : ChainStore := (initialized.toOption.map Prod.fst).getD .new

def genesisBlock : Block :=
  (initialized.toOption.map Prod.snd).getD (genesisBlockInit tables.env proposerKey packedCoinbase)

def firstStore : ChainStore := (genesisStore.saveBlock tables.env currentConfig firstBlock).1

def secondStore : ChainStore := (firstStore.saveBlock tables.env currentConfig secondBlock).1

def thirdStore : ChainStore := (secondStore.saveBlock tables.env currentConfig thirdBlock).1

end FirstBlocks

end Nkn
