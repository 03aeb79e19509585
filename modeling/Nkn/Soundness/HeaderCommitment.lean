import Nkn.Soundness.Concrete
import Nkn.Proofs.TrieEncoding

/-! # What a header hash commits to

A header hash binds nine of the eleven fields, each written self-delimiting, and leaves the random beacon and the winner
hash open. -/

namespace Nkn

open Go Outcome Config

namespace Header

structure SameWritten (h h' : Pb.UnsignedHeader) : Prop where
  version : h.version = h'.version
  prevBlockHash : h.prevBlockHash = h'.prevBlockHash
  transactionsRoot : h.transactionsRoot = h'.transactionsRoot
  stateRoot : h.stateRoot = h'.stateRoot
  timestamp : h.timestamp = h'.timestamp
  height : h.height = h'.height
  winnerType : h.winnerType.code = h'.winnerType.code
  signerPk : h.signerPk = h'.signerPk
  signerId : h.signerId = h'.signerId

structure SameUnwritten (h h' : Pb.UnsignedHeader) : Prop where
  randomBeacon : h.randomBeacon = h'.randomBeacon
  winnerHash : h.winnerHash = h'.winnerHash

structure SameFields (h h' : Pb.UnsignedHeader) : Prop extends SameWritten h h', SameUnwritten h h'

structure Sized (h : Pb.UnsignedHeader) : Prop where
  prevBlockHash : h.prevBlockHash.length < 2 ^ 63
  transactionsRoot : h.transactionsRoot.length < 2 ^ 63
  stateRoot : h.stateRoot.length < 2 ^ 63
  signerPk : h.signerPk.length < 2 ^ 63
  signerId : h.signerId.length < 2 ^ 63

variable {env : Env} {h h' : Header}

theorem serializeUnsigned_eq_iff {h h' : Pb.UnsignedHeader} (sized : Sized h) (sized' : Sized h') :
    serializeUnsigned h = serializeUnsigned h' ↔ SameWritten h h' := by
  have slice {bytes : Bytes} (size : bytes.length < 2 ^ 63) : bytes ∈ {bytes : Bytes | bytes.length < 2 ^ 64} :=
    size.trans (by decide)
  constructor
  · intro same
    obtain ⟨version, same⟩ := selfDelimiting_writeUint32 trivial trivial _ _ same
    obtain ⟨prevBlockHash, same⟩ :=
      selfDelimiting_varBytes (slice sized.prevBlockHash) (slice sized'.prevBlockHash) _ _ same
    obtain ⟨transactionsRoot, same⟩ :=
      selfDelimiting_varBytes (slice sized.transactionsRoot) (slice sized'.transactionsRoot) _ _ same
    obtain ⟨stateRoot, same⟩ := selfDelimiting_varBytes (slice sized.stateRoot) (slice sized'.stateRoot) _ _ same
    obtain ⟨timestamp, same⟩ := selfDelimiting_writeUint64 trivial trivial _ _ same
    obtain ⟨height, same⟩ := selfDelimiting_writeUint32 trivial trivial _ _ same
    obtain ⟨winnerType, same⟩ := selfDelimiting_writeUint32 trivial trivial _ _ same
    obtain ⟨signerPk, same⟩ := selfDelimiting_varBytes (slice sized.signerPk) (slice sized'.signerPk) _ _ same
    have signerId := selfDelimiting_varBytes.injOn (slice sized.signerId) (slice sized'.signerId) same
    exact ⟨version, prevBlockHash, transactionsRoot, stateRoot, congrArg Int64.ofUInt64 timestamp, height, winnerType,
      signerPk, signerId⟩
  · intro same
    simp only [serializeUnsigned, same.version, same.prevBlockHash, same.transactionsRoot, same.stateRoot,
      same.timestamp, same.height, same.winnerType, same.signerPk, same.signerId]

def hashedStrings (env : Env) (h h' : Header) : Set Bytes :=
  {serializeUnsigned h.unsignedHeader, serializeUnsigned h'.unsignedHeader, getHashForSigning env h,
    getHashForSigning env h'}

theorem hash_eq_iff (sized : Sized h.unsignedHeader) (sized' : Sized h'.unsignedHeader)
    (collisionFree : Set.InjOn env.sha256 (hashedStrings env h h')) :
    hash env h = hash env h' ↔ SameWritten h.unsignedHeader h'.unsignedHeader := by
  rw [← serializeUnsigned_eq_iff sized sized']
  constructor
  · intro same
    have signed : getHashForSigning env h = getHashForSigning env h' :=
      collisionFree (by simp [hashedStrings]) (by simp [hashedStrings]) same
    exact collisionFree (by simp [hashedStrings]) (by simp [hashedStrings]) (Word.toArray_inj.mp signed)
  · intro same
    simp only [hash, getHashForSigning, same]

theorem verifySignature_of_sameWritten (same : SameWritten h.unsignedHeader h'.unsignedHeader)
    (signature : h.signature = h'.signature) : verifySignature env h = .ok () ↔ verifySignature env h' = .ok () := by
  have serialized : serializeUnsigned h.unsignedHeader = serializeUnsigned h'.unsignedHeader := by
    simp only [serializeUnsigned, same.version, same.prevBlockHash, same.transactionsRoot, same.stateRoot,
      same.timestamp, same.height, same.winnerType, same.signerPk, same.signerId]
  rw [verifySignature, verifySignature, rejectIf_eq_ok, rejectIf_eq_ok, getHashForSigning, getHashForSigning,
    serialized, same.signerPk, signature]

end Header

/-- A header hash binds every field of two headers exactly when the fields that the encoder leaves out agree as soon
as the others do. -/
theorem header_commitment_iff {env : Env} {h h' : Header} (sized : Header.Sized h.unsignedHeader)
    (sized' : Header.Sized h'.unsignedHeader) (collisionFree : Set.InjOn env.sha256 (Header.hashedStrings env h h')) :
    (Header.hash env h = Header.hash env h' → Header.SameFields h.unsignedHeader h'.unsignedHeader) ↔
      (Header.SameWritten h.unsignedHeader h'.unsignedHeader →
        Header.SameUnwritten h.unsignedHeader h'.unsignedHeader) := by
  rw [Header.hash_eq_iff sized sized' collisionFree]
  exact ⟨fun binds written => (binds written).toSameUnwritten, fun rest written => ⟨written, rest written⟩⟩

/-! The proposer's header at height 5000000, and the same header with another random beacon and a winner hash. -/

namespace OtherWinner

open Sample

def signature : Bytes :=
  (Word.ofNat 64 0x305c4653dd265474bee2d83cd9328500346da55755de4e4891223e17336442c0d2f73d48886b954edf4002c5803fec437595a33a5a2d288ee9178f5fe5d58f01).toArray

def signedHeader : Header := { header 5000000 earlierTxnHash (Word.ofNat 32 1) with signature }

def otherHeader : Header :=
  { signedHeader with
    unsignedHeader := { signedHeader.unsignedHeader with
      randomBeacon := List.replicate randomBeaconLength 1
      winnerHash := earlierTxnHash.toArray } }

def hashForSigning : Uint256 := Word.ofNat 32 0x344a86abe9e1ced0d6d85970b462c1acd7a535f7232c54625030759f4a12c783

def tables : Tables where
  sha256 := Tables.hashedTwice (Header.serializeUnsigned signedHeader.unsignedHeader) hashForSigning
    (Word.ofNat 32 0x2e43159986d750d1f59144220782fa807ff5d9e99beb725922b26e75a2713644)
  signatures := [(proposerKey, hashForSigning.toArray, signature)]

theorem sized : Header.Sized signedHeader.unsignedHeader := by constructor <;> decide

theorem sized_other : Header.Sized otherHeader.unsignedHeader := by constructor <;> decide

theorem collisionFree : Set.InjOn tables.env.sha256 (Header.hashedStrings tables.env signedHeader otherHeader) := by
  have first : Header.serializeUnsigned otherHeader.unsignedHeader =
    Header.serializeUnsigned signedHeader.unsignedHeader := rfl
  have second : Header.getHashForSigning tables.env otherHeader =
    Header.getHashForSigning tables.env signedHeader := rfl
  have apart : tables.env.sha256 (Header.serializeUnsigned signedHeader.unsignedHeader) ≠
      tables.env.sha256 (Header.getHashForSigning tables.env signedHeader) := by decide +kernel
  rw [Header.hashedStrings, first, second, Set.insert_idem, Set.pair_eq_singleton]
  exact Set.injOn_pair.mpr fun same => absurd same apart

/-- Two signed headers with the same hash and different random beacons and winner hashes. -/
theorem winner_unbound : Set.InjOn tables.env.sha256 (Header.hashedStrings tables.env signedHeader otherHeader) ∧
      Header.hash tables.env signedHeader = Header.hash tables.env otherHeader ∧
      Header.verifySignature tables.env signedHeader = .ok () ∧ Header.verifySignature tables.env otherHeader = .ok () ∧
      signedHeader.unsignedHeader.randomBeacon ≠ otherHeader.unsignedHeader.randomBeacon ∧
      signedHeader.unsignedHeader.winnerHash ≠ otherHeader.unsignedHeader.winnerHash := by
  have written : Header.SameWritten signedHeader.unsignedHeader otherHeader.unsignedHeader := by constructor <;> rfl
  have verified : Header.verifySignature tables.env signedHeader = .ok () := by decide +kernel
  refine ⟨collisionFree, (Header.hash_eq_iff sized sized_other collisionFree).mpr written, verified, ?_,
    by decide +kernel, by decide +kernel⟩
  exact (Header.verifySignature_of_sameWritten written rfl).mp verified

theorem header_commitment_iff_other : (Header.hash tables.env signedHeader = Header.hash tables.env otherHeader →
        Header.SameFields signedHeader.unsignedHeader otherHeader.unsignedHeader) ↔
      (Header.SameWritten signedHeader.unsignedHeader otherHeader.unsignedHeader →
        Header.SameUnwritten signedHeader.unsignedHeader otherHeader.unsignedHeader) :=
  header_commitment_iff sized sized_other collisionFree

end OtherWinner

end Nkn
