import Nkn.Model.Transaction

/-! # Checks of a single transaction

`chain/txvalidator`: the checks that need no ledger. -/

namespace Nkn.TxValidator

open Go Outcome Config

variable (env : Env) (config : Config)

variable (txn : Transaction)

def checkTransactionSize : Outcome Unit :=
  let size := (Transaction.getSize env txn).toNat
  rejectIf (size = 0 ∨ size > maxBlockSize) s!"invalid transaction size: {size} bytes"

def checkAmount (amount : Int64) : Outcome Unit := do
  rejectIf (amount < 0) s!"amount {amount} is less than 0"
  rejectIf (amount > initialIssueAmount + totalMiningRewards) s!"amount {amount} is greater than max supply"

def checkTransactionAttribute : Outcome Unit :=
  rejectIf (txn.unsignedTx.attributes.length > maxTxnAttributesLen)
    s!"attributes len {txn.unsignedTx.attributes.length} is greater than {maxTxnAttributesLen}"

def verifyPubSubTopic (topic : Bytes) (height : UInt32) : Outcome Unit :=
  let regexPattern := config.allowSubscribeTopicRegex.getValueAtHeight height
  rejectIf (env.matchString regexPattern topic = false) s!"topic {text topic} should match {regexPattern}"

/-- The length check of payloads with a sender and a recipient: it fails only if both lengths are wrong. -/
def checkProgramHashLength (sender recipient : Bytes) : Outcome Unit :=
  rejectIf (sender.length ≠ 20 ∧ recipient.length ≠ 20) "length of programhash error"

/-- The sender of a transfer must not be the donation address, compared byte by byte. -/
def checkNotDonation (sender : Bytes) : Outcome Unit :=
  rejectIf (sender = donationAddress.toArray) "illegal transaction sender"

def checkMessage (height : UInt32) : Pb.Message → Outcome Unit
  | .coinbase pld => do
    checkProgramHashLength pld.sender pld.recipient
    rejectIf (bytesToUint160 pld.sender ≠ donationAddress) "invalid sender"
    checkAmount pld.amount
  | .transferAsset pld => do
    checkProgramHashLength pld.sender pld.recipient
    checkNotDonation pld.sender
    checkAmount pld.amount
  | .sigChainTxn _ => .ok ()
  | .registerName pld => do
    rejectIf (config.allowTxnRegisterName.getValueAtHeight height = false)
      "Register name transaction is not supported yet"
    if config.isLegacy height then .ok ()
    else
      checkAmount pld.registrationFee
      let least := minNameRegistrationFee
      rejectIf (pld.registrationFee < least)
        s!"registration fee {text pld.registrant} is lower than MinNameRegistrationFee {least}"
    let regexPattern := config.allowNameRegex.getValueAtHeight height
    rejectIf (env.matchString regexPattern pld.name = false)
      s!"name {text pld.name} should match regex {regexPattern}"
  | .transferName pld => rejectIf (pld.registrant.length ≠ publicKeySize) "registrant invalid"
  | .deleteName pld => rejectIf (pld.registrant.length ≠ publicKeySize) "registrant invalid"
  | .subscribe pld => do
    rejectIf (pld.duration = 0) "subscribe duration should be greater than 0"
    let maxSubscribeBucket := config.maxSubscribeBucket.getValueAtHeight height
    rejectIf (pld.bucket > maxSubscribeBucket.toUInt32)
      s!"subscribe bucket {pld.bucket} is greater than {maxSubscribeBucket}"
    let maxDuration := config.maxSubscribeDuration.getValueAtHeight height
    rejectIf (pld.duration > maxDuration.toUInt32)
      s!"subscribe duration {pld.duration} is greater than {maxDuration}"
    verifyPubSubTopic env config pld.topic height
    let maxIdentifierLen := config.maxSubscribeIdentifierLen.getValueAtHeight height
    rejectIf ((pld.identifier.length : Int) > maxIdentifierLen.toInt)
      s!"subscribe identifier len {pld.identifier.length} is greater than {maxIdentifierLen}"
    let maxMetaLen := config.maxSubscribeMetaLen.getValueAtHeight height
    rejectIf ((pld.metadata.length : Int) > maxMetaLen.toInt)
      s!"subscribe meta len {pld.metadata.length} is greater than {maxMetaLen}"
  | .unsubscribe pld => verifyPubSubTopic env config pld.topic height
  | .generateID pld => do
    rejectIf (pld.version < config.allowTxnGenerateIDMinVersion.getValueAtHeight height ∨
        pld.version > config.allowTxnGenerateIDMaxVersion.getValueAtHeight height)
      s!"id version {pld.version} is not supported at height {height}"
    let expectedSenderLength := if config.allowGenerateIDSender.getValueAtHeight height then 20 else 0
    rejectIf (pld.sender.length ≠ expectedSenderLength)
      s!"program hash wrong size {pld.sender.length}, expecting {expectedSenderLength}"
    labelled "decode pubkey error: " (checkPublicKey pld.publicKey)
    checkAmount pld.registrationFee
    rejectIf (pld.registrationFee < config.minGenIDRegistrationFee.getValueAtHeight height)
      "registration fee is lower than MinGenIDRegistrationFee"
    rejectIf ((Transaction.hash env txn).compareTo (config.maxGenerateIDTxnHash.getValueAtHeight height) = .gt)
      "txn hash is greater than MaxGenerateIDTxnHash"
  | .nanoPay pld => do
    checkProgramHashLength pld.sender pld.recipient
    checkNotDonation pld.sender
    checkAmount pld.amount
    rejectIf (pld.txnExpiration > pld.nanoPayExpiration)
      "txn expiration should be no later than nano pay expiration"
  | .issueAsset pld => do
    rejectIf (pld.sender.length ≠ 20) "length of programhash error"
    rejectIf (env.matchString "(^[A-Za-z][A-Za-z0-9 ]\x7b2,11\x7d$)" pld.name = false)
      s!"name {text pld.name} should start with a letter, contain A-Za-z0-9 and have length 3-12"
    rejectIf (env.matchString "(^[a-z][a-z0-9]\x7b2,8\x7d$)" pld.symbol = false)
      s!"symbol {text pld.symbol} should start with a letter, contain a-z0-9 and have length 3-9"
    rejectIf (pld.totalSupply < 0) s!"TotalSupply {pld.totalSupply} should be a positive number"
    rejectIf (pld.precision > maxAssetPrecision) s!"Precision {pld.precision} should less than {maxAssetPrecision}"

def checkTransactionPayload (height : UInt32) : Outcome Unit := do
  let payload ← unpack env txn.unsignedTx.payload
  checkMessage env config txn height payload

def verifyTransaction (height : UInt32) : Outcome Unit := do
  labelled "[VerifyTransaction] " (checkTransactionSize env txn)
  labelled "[VerifyTransaction] fee " (checkAmount txn.unsignedTx.fee)
  labelled "[VerifyTransaction] " (checkTransactionAttribute txn)
  labelled "[VerifyTransaction] " (Transaction.verifySignature env txn)
  labelled "[VerifyTransaction] " (checkTransactionPayload env config txn height)

end Nkn.TxValidator
