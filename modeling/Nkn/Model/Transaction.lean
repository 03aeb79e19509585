import Nkn.Model.Encoding
import Nkn.Model.Pb

/-! # Transactions, programs and signatures

Models `transaction`, `program` and `signature`. -/

namespace Nkn

open Go Outcome

structure Codec where
  coinbase : Bytes → Option Pb.Coinbase
  transferAsset : Bytes → Option Pb.TransferAsset
  sigChainTxn : Bytes → Option Pb.SigChainTxn
  registerName : Bytes → Option Pb.RegisterName
  transferName : Bytes → Option Pb.TransferName
  deleteName : Bytes → Option Pb.DeleteName
  subscribe : Bytes → Option Pb.Subscribe
  unsubscribe : Bytes → Option Pb.Unsubscribe
  generateID : Bytes → Option Pb.GenerateID
  nanoPay : Bytes → Option Pb.NanoPay
  issueAsset : Bytes → Option Pb.IssueAsset
  sigChain : Bytes → Option Pb.SigChain

/-- What the chain code takes from libraries, the hash of the state trie and the order of map enumerations. -/
structure Env where
  sha256 : Bytes → Uint256
  ripemd160 : Bytes → Uint160
  /-- `crypto.Verify(publicKey, data, signature)` returns no error. -/
  verify : Bytes → Bytes → Bytes → Bool
  /-- `proto.Marshal` of a transaction. -/
  marshal : Pb.Transaction → Bytes
  /-- `proto.Unmarshal`. -/
  codec : Codec
  /-- `regexp.MatchString(pattern, s)`. -/
  matchString : String → Bytes → Bool
  /-- `strings.ToLower`. -/
  toLower : Bytes → Bytes
  /-- `float64(x) / float64(y)`, as a number. -/
  quotient : Int64 → UInt32 → ℚ
  /-- `crypto.VerifyVrf(publicKey, data, vrf, proof)`. -/
  verifyVrf : Bytes → Bytes → Bytes → Bytes → Bool
  /-- The root hash of a state trie with the given content. -/
  stateRoot : Store.StateTrie → Uint256
  /-- The order in which `sync.Map.Range` visits the given keys. -/
  rangeOrder : List Bytes → List Bytes

abbrev Transaction := Pb.Transaction

variable (env : Env)

/-- The decoded message, or the error that protobuf returns for data it cannot parse. -/
def parsed {α : Type} (decoded : Option α) : Outcome α :=
  orFail "proto: cannot parse invalid wire-format data" decoded

@[simp] theorem parsed_eq_ok {α : Type} {decoded : Option α} {value : α} :
    parsed decoded = .ok value ↔ decoded = some value :=
  orFail_eq_ok

def unpack (payload : Pb.Payload) : Outcome Pb.Message :=
  let parsedAs {α : Type} (decode : Bytes → Option α) (wrap : α → Pb.Message) := parsed ((decode payload.data).map wrap)
  match payload.type with
  | .coinbase => parsedAs env.codec.coinbase .coinbase
  | .transferAsset => parsedAs env.codec.transferAsset .transferAsset
  | .sigChainTxn => parsedAs env.codec.sigChainTxn .sigChainTxn
  | .registerName => parsedAs env.codec.registerName .registerName
  | .transferName => parsedAs env.codec.transferName .transferName
  | .deleteName => parsedAs env.codec.deleteName .deleteName
  | .subscribe => parsedAs env.codec.subscribe .subscribe
  | .unsubscribe => parsedAs env.codec.unsubscribe .unsubscribe
  | .generateID => parsedAs env.codec.generateID .generateID
  | .nanoPay => parsedAs env.codec.nanoPay .nanoPay
  | .issueAsset => parsedAs env.codec.issueAsset .issueAsset
  | .generateID2 | .unknown _ => fail "invalid payload type"

theorem unpack_type {env : Env} {payload : Pb.Payload} {message : Pb.Message}
    (unpacked : unpack env payload = .ok message) : message.type = payload.type := by
  unfold unpack at unpacked
  cases kind : payload.type <;> simp [kind, Pb.Message.type] at unpacked ⊢ <;>
    obtain ⟨_, _, rfl⟩ := unpacked <;> rfl

def checkSig : UInt8 := 0xAC

def toCodeHash (code : Bytes) : Uint160 := env.ripemd160 (env.sha256 code).toArray

/-- `CreateSignatureProgramCode`: the key between its length (one byte, so modulo 256) and `CHECKSIG`. -/
def createSignatureProgramCode (pubKey : Bytes) : Bytes := UInt8.ofNat pubKey.length :: pubKey ++ [checkSig]

def createProgramHash (pubKey : Bytes) : Uint160 := toCodeHash env (createSignatureProgramCode pubKey)

/-- `GetPublicKeyFromCode`: a wrong first byte is an error only together with a wrong last byte. -/
def getPublicKeyFromCode (code : Bytes) : Outcome Bytes := do
  rejectIf (code.length ≠ 34) s!"code length error, need 34, but got {code.length}"
  rejectIf (code.getD 0 0 ≠ 32 ∧ code.getD 33 0 ≠ checkSig)
    s!"code format error, need code[0]=32, code[33]=0xac, but got {code.getD 0 0} and {hexText [code.getD 33 0]}"
  .ok ((code.drop 1).take 32)

def getSignatureFromParameter (parameter : Bytes) : Outcome Bytes := do
  rejectIf (parameter.length ≠ 65) s!"parameter length error, need 65,but got {parameter.length}"
  rejectIf (parameter.getD 0 0 ≠ 64)
    s!"parameter format error, need parameter[0]=64, bug got {parameter.getD 0 0}"
  .ok (parameter.drop 1)

def checkPublicKey (publicKey : Bytes) : Outcome Unit :=
  rejectIf (publicKey.length ≠ Config.publicKeySize)
    s!"invalid public key size {publicKey.length}, expecting {Config.publicKeySize}"

namespace Transaction

variable (tx : Transaction)

def serializeUnsigned : Bytes :=
  writeUint32 tx.unsignedTx.payload.type.code ++ writeVarBytes tx.unsignedTx.payload.data ++
    writeUint64 tx.unsignedTx.nonce ++ writeUint64 tx.unsignedTx.fee.toUInt64 ++
    writeVarBytes tx.unsignedTx.attributes

/-- `DeserializeUnsigned` from a `bytes.Buffer` into a transaction with a payload, which the source expects. -/
def deserializeUnsigned (r : Bytes) : Outcome (Pb.UnsignedTx × Bytes) := do
  let (typ, r) ← readUint32 r
  let (data, r) ← readVarBytes r
  let (nonce, r) ← readUint64 r
  let (fee, r) ← readUint64 r
  let (attributes, r) ← readVarBytes r
  .ok ({ payload := ⟨.ofCode typ, data⟩, nonce, fee := fee.toInt64, attributes }, r)

def hash : Uint256 := env.sha256 (env.sha256 (serializeUnsigned tx)).toArray

def getHashForSigning : Bytes := (env.sha256 (serializeUnsigned tx)).toArray

def getSize : UInt32 := UInt32.ofNat (env.marshal tx).length

/-- The account a message is sent from, as `GetProgramHashes` derives it from the payload. -/
def programHash : Pb.Message → Uint160
  | .sigChainTxn payload => bytesToUint160 payload.submitter
  | .transferAsset payload => bytesToUint160 payload.sender
  | .coinbase payload => bytesToUint160 payload.sender
  | .registerName payload => createProgramHash env payload.registrant
  | .transferName payload => createProgramHash env payload.registrant
  | .deleteName payload => createProgramHash env payload.registrant
  | .subscribe payload => createProgramHash env payload.subscriber
  | .unsubscribe payload => createProgramHash env payload.subscriber
  | .generateID payload =>
    if payload.sender.length > 0 then bytesToUint160 payload.sender else createProgramHash env payload.publicKey
  | .nanoPay payload => bytesToUint160 payload.sender
  | .issueAsset payload => bytesToUint160 payload.sender

def getProgramHashes : Outcome (List Uint160) := do
  let payload ← unpack env tx.unsignedTx.payload
  .ok [programHash env payload]

def firstHash : List Uint160 → Outcome Uint160
  | hash :: _ => .ok hash
  | [] => crash "index out of range [0] with length 0"

def verifyProgram (hash : Uint160) (program : Pb.Program) : Outcome Unit := do
  let temp := toCodeHash env program.code
  rejectIf (hash ≠ temp)
    s!"the data hashes {hexText hash.toArray} is different with corresponding program code {hexText temp.toArray}"
  let pk ← getPublicKeyFromCode program.code
  checkPublicKey pk
  let signature ← getSignatureFromParameter program.parameter
  rejectIf (env.verify pk (getHashForSigning env tx) signature = false) "verify signature error: invalid signature"

def verifyPrograms (tx : Transaction) : List Uint160 → List Pb.Program → Outcome Unit
  | hash :: hashes, program :: programs => do
    verifyProgram env tx hash program
    verifyPrograms tx hashes programs
  | _, _ => .ok ()

def verifySignableData : Outcome Unit := do
  let hashes ← getProgramHashes env tx
  rejectIf (hashes.length ≠ tx.programs.length)
    s!"the number of data hashes {hashes.length} is different with number of programs {tx.programs.length}"
  verifyPrograms env tx hashes tx.programs

def verifySignature : Outcome Unit :=
  if tx.unsignedTx.payload.type = .coinbase then .ok () else verifySignableData env tx

/-- The only program of a transaction: its code hashes to `account`, its key is `key`, and the signature in its
parameter is the key's signature over the unsigned bytes. -/
def SignedBy (account : Uint160) (key : Bytes) : Prop :=
  ∃ program signature, tx.programs = [program] ∧ toCodeHash env program.code = account ∧
    getPublicKeyFromCode program.code = .ok key ∧ getSignatureFromParameter program.parameter = .ok signature ∧
    env.verify key (getHashForSigning env tx) signature = true

variable {env}

theorem verifySignature_signedBy {tx : Transaction} {message : Pb.Message}
    (unpacked : unpack env tx.unsignedTx.payload = .ok message) (regular : tx.unsignedTx.payload.type ≠ .coinbase)
    (verified : verifySignature env tx = .ok ()) : ∃ key, SignedBy env tx (programHash env message) key := by
  simp only [verifySignature, if_neg regular, verifySignableData, getProgramHashes, unpacked, ok_bind,
    rejectIf_bind_eq_ok, List.length_singleton, not_not] at verified
  obtain ⟨single, verified⟩ := verified
  obtain ⟨program, programs⟩ := List.length_eq_one_iff.mp single.symm
  simp only [programs, verifyPrograms, bind_eq_ok, verifyProgram, rejectIf_eq_ok, not_not, exists_const] at verified
  obtain ⟨⟨matched, key, hasKey, _, _, signature, hasSignature, signed⟩, -⟩ := verified
  exact ⟨key, program, signature, programs, matched.symm, hasKey, hasSignature, by simpa using signed⟩

end Transaction

end Nkn
