import Nkn.Model.Bytes

/-! # Messages

The protobuf messages of a block whose nested messages are all present, as the generated Go structs hold them. -/

namespace Nkn.Pb

inductive PayloadType where
  | coinbase
  | transferAsset
  | sigChainTxn
  | registerName
  | transferName
  | deleteName
  | subscribe
  | unsubscribe
  | generateID
  | nanoPay
  | issueAsset
  | generateID2
  | unknown (code : UInt32)
deriving DecidableEq, Repr

def PayloadType.code : PayloadType → UInt32
  | .coinbase => 0
  | .transferAsset => 1
  | .sigChainTxn => 2
  | .registerName => 3
  | .transferName => 4
  | .deleteName => 5
  | .subscribe => 6
  | .unsubscribe => 7
  | .generateID => 8
  | .nanoPay => 9
  | .issueAsset => 10
  | .generateID2 => 11
  | .unknown code => code

def PayloadType.ofCode (code : UInt32) : PayloadType :=
  ([.coinbase, .transferAsset, .sigChainTxn, .registerName, .transferName, .deleteName, .subscribe, .unsubscribe,
    .generateID, .nanoPay, .issueAsset, .generateID2] : List PayloadType)[code.toNat]?.getD (.unknown code)

structure Coinbase where
  sender : Bytes
  recipient : Bytes
  amount : Int64
deriving DecidableEq, Repr

structure TransferAsset where
  sender : Bytes
  recipient : Bytes
  amount : Int64
deriving DecidableEq, Repr

structure SigChainTxn where
  sigChain : Bytes
  submitter : Bytes
deriving DecidableEq, Repr

structure RegisterName where
  registrant : Bytes
  name : Bytes
  registrationFee : Int64
deriving DecidableEq, Repr

structure TransferName where
  name : Bytes
  registrant : Bytes
  recipient : Bytes
deriving DecidableEq, Repr

structure DeleteName where
  registrant : Bytes
  name : Bytes
deriving DecidableEq, Repr

structure Subscribe where
  subscriber : Bytes
  identifier : Bytes
  topic : Bytes
  bucket : UInt32
  duration : UInt32
  metadata : Bytes
deriving DecidableEq, Repr

structure Unsubscribe where
  subscriber : Bytes
  identifier : Bytes
  topic : Bytes
deriving DecidableEq, Repr

structure GenerateID where
  publicKey : Bytes
  registrationFee : Int64
  sender : Bytes
  version : Int32
deriving DecidableEq, Repr

structure NanoPay where
  sender : Bytes
  recipient : Bytes
  id : UInt64
  amount : Int64
  txnExpiration : UInt32
  nanoPayExpiration : UInt32
deriving DecidableEq, Repr

structure IssueAsset where
  sender : Bytes
  name : Bytes
  symbol : Bytes
  totalSupply : Int64
  precision : UInt32
deriving DecidableEq, Repr

inductive Message where
  | coinbase (payload : Coinbase)
  | transferAsset (payload : TransferAsset)
  | sigChainTxn (payload : SigChainTxn)
  | registerName (payload : RegisterName)
  | transferName (payload : TransferName)
  | deleteName (payload : DeleteName)
  | subscribe (payload : Subscribe)
  | unsubscribe (payload : Unsubscribe)
  | generateID (payload : GenerateID)
  | nanoPay (payload : NanoPay)
  | issueAsset (payload : IssueAsset)
deriving DecidableEq, Repr

def Message.type : Message → PayloadType
  | .coinbase _ => .coinbase
  | .transferAsset _ => .transferAsset
  | .sigChainTxn _ => .sigChainTxn
  | .registerName _ => .registerName
  | .transferName _ => .transferName
  | .deleteName _ => .deleteName
  | .subscribe _ => .subscribe
  | .unsubscribe _ => .unsubscribe
  | .generateID _ => .generateID
  | .nanoPay _ => .nanoPay
  | .issueAsset _ => .issueAsset

structure Payload where
  type : PayloadType
  data : Bytes
deriving DecidableEq, Repr

structure UnsignedTx where
  payload : Payload
  nonce : UInt64
  fee : Int64
  attributes : Bytes
deriving DecidableEq, Repr

structure Program where
  code : Bytes
  parameter : Bytes
deriving DecidableEq, Repr

structure Transaction where
  unsignedTx : UnsignedTx
  programs : List Program
deriving DecidableEq, Repr

inductive WinnerType where
  | genesisSigner
  | txnSigner
  | blockSigner
  | unknown (code : UInt32)
deriving DecidableEq, Repr

def WinnerType.code : WinnerType → UInt32
  | .genesisSigner => 0
  | .txnSigner => 1
  | .blockSigner => 2
  | .unknown code => code

structure UnsignedHeader where
  version : UInt32
  prevBlockHash : Bytes
  transactionsRoot : Bytes
  stateRoot : Bytes
  timestamp : Int64
  height : UInt32
  randomBeacon : Bytes
  winnerHash : Bytes
  winnerType : WinnerType
  signerPk : Bytes
  signerId : Bytes
deriving DecidableEq, Repr

inductive SigAlgo where
  | signature
  | hash
  /-- A number without a name, which the encoding admits. -/
  | other (number : Int32)
deriving DecidableEq, Repr

structure SigChainElem where
  id : Bytes
  nextPubkey : Bytes
  mining : Bool
  signature : Bytes
  vrf : Bytes
  sigAlgo : SigAlgo := .signature
  proof : Bytes := []
deriving DecidableEq, Repr

structure SigChain where
  nonce : UInt32
  dataSize : UInt32
  blockHash : Bytes
  srcId : Bytes
  srcPubkey : Bytes
  destId : Bytes
  destPubkey : Bytes
  elems : List SigChainElem
deriving DecidableEq, Repr

structure Relay where
  srcIdentifier : Bytes
  srcPubkey : Bytes
  destId : Bytes
  payload : Bytes
  maxHoldingSeconds : UInt32
  blockHash : Bytes
  lastHash : Bytes
  sigChainLen : UInt32
deriving DecidableEq, Repr

structure Header where
  unsignedHeader : UnsignedHeader
  signature : Bytes
deriving DecidableEq, Repr

structure Block where
  header : Header
  transactions : List Transaction
deriving DecidableEq, Repr

end Nkn.Pb
