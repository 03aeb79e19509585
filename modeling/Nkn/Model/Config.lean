import Nkn.Lib.Int64
import Nkn.Model.Bytes

/-! # Consensus parameters

The constants of `config`, its height-dependent tables, and the mining reward they determine. -/

namespace Nkn

/-- A table of values by starting height, newest first, as `HeightDependentBool` and its siblings. -/
structure HeightDependent (α : Type) where
  entries : List (UInt32 × α)
  otherwise : α

def HeightDependent.getValueAtHeight {α : Type} (table : HeightDependent α) (height : UInt32) : α :=
  match table.entries.find? (fun entry => entry.1 ≤ height) with
  | some entry => entry.2
  | none => table.otherwise

/-- The height-dependent tables, and the cache sizes of the node's configuration. -/
structure Config where
  allowSubscribeTopicRegex : HeightDependent String
  allowNameRegex : HeightDependent String
  legacyNameService : HeightDependent Bool
  maxSubscribeIdentifierLen : HeightDependent Int32
  maxSubscribeMetaLen : HeightDependent Int32
  maxSubscribeBucket : HeightDependent Int32
  maxSubscribeDuration : HeightDependent Int32
  maxGenerateIDTxnHash : HeightDependent Uint256
  allowTxnRegisterName : HeightDependent Bool
  chargeNanoPayTxnFee : HeightDependent Bool
  minGenIDRegistrationFee : HeightDependent Int64
  allowGenerateIDSender : HeightDependent Bool
  allowTxnGenerateIDMinVersion : HeightDependent Int32
  allowTxnGenerateIDMaxVersion : HeightDependent Int32
  allowGetIDMinVersion : HeightDependent Int32
  allowGetIDMaxVersion : HeightDependent Int32
  donationNoDelay : HeightDependent Bool
  sigChainBitShiftMaxLength : HeightDependent Int32
  sigChainBitShiftPerElement : HeightDependent Int32
  allowSigChainHashSignature : HeightDependent Bool
  sigChainVerifyFingerTableRange : HeightDependent Bool
  sigChainVerifySkipNode : HeightDependent Bool
  sigChainObjection : HeightDependent Bool
  sigChainRecentMinerBitShift : HeightDependent Int32
  sigChainSkipMinerMaxAllowed : HeightDependent Int32
  sigChainSkipMinerBitShift : HeightDependent Int32
  sigChainMinerSalt : HeightDependent Bool
  sigChainMinerWeightBase : HeightDependent Int32
  sigChainMinerWeightMaxExponent : HeightDependent Int32
  blockHeaderCacheSize : UInt32
  sigChainCacheSize : UInt32

namespace Config

def maxUint256 : Uint256 := Word.ofNat 32 (2 ^ 256 - 1)

/-- The tables of the source, and the cache sizes of its default configuration. -/
def mainnet : Config where
  allowSubscribeTopicRegex :=
    ⟨[(980000, "(^[A-Za-z0-9][A-Za-z0-9-_.+]\x7b2,254\x7d$)"), (0, "(^[A-Za-z][A-Za-z0-9-_.+]\x7b2,254\x7d$)")], ""⟩
  allowNameRegex :=
    ⟨[(980000, "(^[A-Za-z0-9][A-Za-z0-9-_+]\x7b5,62\x7d$)"), (0, "(^[A-Za-z][A-Za-z0-9-_.+]\x7b2,254\x7d$)")], ""⟩
  legacyNameService := ⟨[(980000, false), (0, true)], false⟩
  maxSubscribeIdentifierLen := ⟨[(133400, 64), (0, 2147483647)], 0⟩
  maxSubscribeMetaLen := ⟨[(133400, 1024), (0, 2147483647)], 0⟩
  maxSubscribeBucket := ⟨[(245000, 0), (0, 1000)], 0⟩
  maxSubscribeDuration := ⟨[(245000, 400000), (0, 65535)], 0⟩
  maxGenerateIDTxnHash :=
    ⟨[(2570000, maxUint256), (245000, Word.ofNat 32 (2 ^ 227 - 1)), (0, maxUint256)], emptyUint256⟩
  allowTxnRegisterName := ⟨[(980000, true), (7500, false), (0, true)], false⟩
  chargeNanoPayTxnFee := ⟨[(1072500, true), (0, false)], false⟩
  minGenIDRegistrationFee := ⟨[(2570000, 1000000000), (0, 0)], 0⟩
  allowGenerateIDSender := ⟨[(2570000, true), (0, false)], false⟩
  allowTxnGenerateIDMinVersion := ⟨[(2570000, 1), (0, 0)], 0⟩
  allowTxnGenerateIDMaxVersion := ⟨[(2570000, 1), (0, 0)], 0⟩
  allowGetIDMinVersion := ⟨[(2600000, 1), (2570000, 0), (0, 0)], 0⟩
  allowGetIDMaxVersion := ⟨[(2600000, 1), (2570000, 1), (0, 0)], 0⟩
  donationNoDelay := ⟨[(3030000, true), (0, false)], false⟩
  sigChainBitShiftMaxLength := ⟨[(2651000, 18), (2633000, 16), (2543000, 14), (0, 0)], 0⟩
  sigChainBitShiftPerElement := ⟨[(2651000, 8), (0, 4)], 0⟩
  allowSigChainHashSignature := ⟨[(1200000, false), (0, true)], false⟩
  sigChainVerifyFingerTableRange := ⟨[(2570000, true), (0, false)], false⟩
  sigChainVerifySkipNode := ⟨[(2570120, false), (2570000, true), (0, false)], false⟩
  sigChainObjection := ⟨[(2570120, false), (2570000, true), (0, false)], false⟩
  sigChainRecentMinerBitShift := ⟨[(2651000, 10), (2633000, 4), (0, 0)], 0⟩
  sigChainSkipMinerMaxAllowed := ⟨[(2651000, 2), (0, 3)], 0⟩
  sigChainSkipMinerBitShift := ⟨[(2633000, 10), (0, 0)], 0⟩
  sigChainMinerSalt := ⟨[(2900000, true), (0, false)], false⟩
  sigChainMinerWeightBase := ⟨[(2900000, 2), (0, 1)], 0⟩
  sigChainMinerWeightMaxExponent := ⟨[(2900000, 4), (0, 0)], 0⟩
  blockHeaderCacheSize := 4160
  sigChainCacheSize := 4160

/-- Whether names are kept in the tables in use before the name service change. -/
def isLegacy (config : Config) (height : UInt32) : Bool := config.legacyNameService.getValueAtHeight height

def chargesNanoPay (config : Config) (height : UInt32) : Bool := config.chargeNanoPayTxnFee.getValueAtHeight height

def maxNumTxnPerBlock : Nat := 4096

def maxBlockSize : Nat := 1 * 1024 * 1024

def maxTxnAttributesLen : Nat := 100

def storageFactor : Int64 := 100000000

def initialIssueAmount : Int64 := 700000000 * storageFactor

def totalMiningRewards : Int64 := 300000000 * storageFactor

def totalRewardDuration : UInt32 := 25

def initialReward : Int64 := 18000000 * storageFactor

def rewardAdjustInterval : UInt32 := 1576800

def reductionAmount : Int64 := 500000 * storageFactor

def consensusDuration : Int64 := 20

def consensusTimeout : Int64 := 60

def generateIDBlockDelay : UInt32 := 8

def randomBeaconUniqueLength : Nat := 32

def randomBeaconLength : Nat := 32 + 96

def maxAssetPrecision : UInt32 := 8

def minNameRegistrationFee : Int64 := 10 * storageFactor

def defaultNameDuration : UInt32 := 1576800

def publicKeySize : Nat := 32

def nodeIDBytes : Nat := 32

def nknAssetID : Uint256 := Word.ofNat 32 0

def gasAssetID : Uint256 := Word.ofNat 32 1

def nknAssetName : Bytes := [78, 75, 78]

def nknAssetSymbol : Bytes := [110, 107, 110]

def nknAssetPrecision : UInt32 := 8

def gasAssetName : Bytes := [78, 101, 119, 32, 78, 101, 116, 119, 111, 114, 107, 32, 67, 111, 105, 110]

def gasAssetSymbol : Bytes := [110, 110, 99]

def gasAssetPrecision : UInt32 := 8

def donationAddress : Uint160 := Word.ofNat 20 0xfd53fc1110ecbb94217ae51528912b0dfd9d9955

def initialIssueAddress : Uint160 := Word.ofNat 20 0x28cdb5c5cc86e7d7da9c3849abdf1454c60b8809

end Config

open Config

def miningRewards (duration : UInt32) : Int64 :=
  initialReward - reductionAmount * Int64.ofNat duration.toNat

def getRewardByHeight (height : UInt32) : Int64 :=
  let duration := (height - 1) / rewardAdjustInterval
  if duration ≥ totalRewardDuration then 0
  else miningRewards duration / Int64.ofNat rewardAdjustInterval.toNat

end Nkn
