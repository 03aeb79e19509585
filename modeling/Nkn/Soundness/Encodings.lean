import Nkn.Soundness.Concrete
import Nkn.Proofs.DiskFlush
import Nkn.Proofs.Readers

/-! # Encodings

Records and unsigned transactions are read back as written. A reader takes what one call of `Read` returns, so a cut
encoding is rejected only where nothing is left. -/

namespace Nkn

open Go Outcome Store

namespace Store

namespace Account

def IdOk (acc : Account) : Prop :=
  acc.id.getD [] = [] ∧ acc.idVersion = 0 ∨ (acc.id.getD []).length = Config.nodeIDBytes

structure Same (acc acc' : Account) : Prop where
  nonce : acc'.nonce = acc.nonce
  balances : ∀ assetID, acc'.balances.load assetID = acc.balances.load assetID
  id : acc'.id.getD [] = acc.id.getD []
  idVersion : acc'.idVersion = acc.idVersion

variable {acc : Account} {ids : List Uint256}

theorem flatten_pieces (acc : Account) (ids : List Uint256) : (acc.pieces ids).flatten = acc.serialize ids := by
  simp [pieces, serialize, List.flatMap, List.flatten_flatten, Function.comp_def]

theorem IdOk.encodedID_length (idOk : acc.IdOk) : acc.encodedID.length ≤ 33 := by
  unfold encodedID
  rcases idOk with ⟨empty, unversioned⟩ | sized
  · simp [empty, unversioned]
  · split_ifs <;> simp [sized, Config.nodeIDBytes]

theorem load_listed_keys (perm : ids.Perm acc.balances.keys) (assetID : Uint256) :
    (acc.listed (sortIDs ids) ∅).load assetID = acc.balances.load assetID := by
  have listed : assetID ∈ sortIDs ids ↔ assetID ∈ acc.balances := ((List.perm_insertionSort _ _).trans perm).mem_iff
  rw [load_listed]
  split_ifs with member
  · obtain ⟨amount, found⟩ := Option.isSome_iff_exists.mp (AList.lookup_isSome.mpr (listed.mp member))
    have found : acc.balances.load assetID = some amount := found
    simp [getBalance, GoMap.read, found]
  · exact (AList.lookup_eq_none.mpr (mt listed.mpr member)).symm

theorem same_readBack (idOk : acc.IdOk) (perm : ids.Perm acc.balances.keys) : acc.Same (acc.readBack ids) := by
  refine ⟨rfl, load_listed_keys perm, ?_, ?_⟩ <;>
    rcases idOk with ⟨_, _⟩ | sized <;> by_cases versioned : acc.idVersion = 0 <;>
      simp_all [readBack, stored, encodedID, Config.nodeIDBytes, UInt8.pos_iff_ne_zero]

end Account

namespace Cleanup

theorem flatten_pieces (ids : List Bytes) : (pieces ids).flatten = serialize ids := by
  simp [pieces, serialize, List.flatMap, List.flatten_flatten, Function.comp_def]

theorem load_listed_keys {set : Cleanup} {ids : List Bytes} (perm : ids.Perm set.keys) (id : Bytes) :
    (listed (sortStrings ids) ∅).load id = set.load id := by
  have member : id ∈ sortStrings ids ↔ id ∈ set := ((List.perm_insertionSort _ _).trans perm).mem_iff
  rw [load_listed]
  split_ifs with inside
  · obtain ⟨⟨⟩, found⟩ := Option.isSome_iff_exists.mp (AList.lookup_isSome.mpr (member.mp inside))
    exact found.symm
  · exact (AList.lookup_eq_none.mpr (mt member.mpr inside)).symm

end Cleanup

end Store

/-- Each record is read back from its encoding, whatever follows it. -/
theorem records_read_back :
    (∀ (acc : Account) ids rest, acc.IdOk → ids.Perm acc.balances.keys → ids.length < 2 ^ 63 →
      ∃ acc', Account.read (acc.serialize ids ++ rest) = .ok (acc', rest) ∧ acc.Same acc') ∧
    (∀ (np : NanoPay) rest, NanoPay.read (np.serialize ++ rest) = .ok (np, rest)) ∧
    (∀ (ps : PubSub) rest, ps.subscriber.length < 2 ^ 64 → ps.identifier.length < 2 ^ 64 → ps.metadata.length < 2 ^ 64 →
      PubSub.read (ps.serialize ++ rest) = .ok (ps, rest)) ∧
    (∀ (ni : NameInfo) rest, ni.registrant.length < 2 ^ 64 → NameInfo.read (ni.bytes ++ rest) = .ok (ni, rest)) ∧
    (∀ (ia : Asset) rest, ia.name.length < 2 ^ 64 → ia.symbol.length < 2 ^ 64 →
      Asset.read (ia.serialize ++ rest) = .ok (ia, rest)) ∧
    (∀ (set : Cleanup) ids rest, ids.Perm set.keys → ids.length < 2 ^ 64 → (∀ id ∈ ids, id.length < 2 ^ 64) →
      ∃ set', Cleanup.read (Cleanup.serialize ids ++ rest) = .ok (set', rest) ∧ ∀ id, set'.load id = set.load id) ∧
    ∀ (acc : Account) ids ids', ids.Perm ids' → acc.serialize ids = acc.serialize ids' := by
  refine ⟨fun acc ids rest idOk perm few => ⟨_, ?_, acc.same_readBack idOk perm⟩, fun np rest => ?_,
    fun ps rest subscriber identifier metadata => ?_, fun ni rest registrant => ?_, fun ia rest name symbol => ?_,
    fun set ids rest perm few sized => ⟨_, ?_, Cleanup.load_listed_keys perm⟩, fun acc _ _ perm => acc.serialize_perm perm⟩
  · have short := idOk.encodedID_length
    rw [← Account.flatten_pieces]
    exact (Account.readsBack few (by omega)).whole rest
  · simpa [NanoPay.serialize] using np.readsBack.whole rest
  · simpa [PubSub.serialize, PubSub.pieces] using (PubSub.readsBack subscriber identifier metadata).whole rest
  · simpa [NameInfo.bytes, NameInfo.pieces] using (NameInfo.readsBack registrant).whole rest
  · simpa [Asset.serialize, Asset.pieces] using (Asset.readsBack name symbol).whole rest
  · rw [← Cleanup.flatten_pieces]
    exact (Cleanup.readsBack few sized).whole rest

namespace Versioned

def account : Account :=
  { nonce := 300, balances := .store ∅ (Word.ofNat 32 1) 7, id := some (List.replicate 32 5), idVersion := 1 }

theorem records_read_back_versioned :
    ∃ acc', Account.read (account.serialize [Word.ofNat 32 1] ++ [9]) = .ok (acc', [9]) ∧ account.Same acc' :=
  records_read_back.1 account _ _ (.inr (by decide)) (.refl _) (by decide)

end Versioned

/-- What is written in pieces, which a reader reads one by one: it reports an error if nothing is left for the next one. -/
def RejectsCuts {α : Type} (read : Bytes → Outcome (α × Bytes)) (written : Bytes) (pieces : List Bytes) : Prop :=
  pieces.flatten = written ∧ ∀ before after, before ++ after = pieces → after ≠ [] → ∃ text, read before.flatten = fail text

/-- An encoding that ends between two reads of its decoder is rejected. -/
theorem cuts_between_reads_rejected (value : Nat) (bytes : Bytes) (half : UInt16) (word : UInt32) (double : UInt64)
    (acc : Account) (ids : List Uint256) (ps : PubSub) (ni : NameInfo) (np : NanoPay) (ia : Asset) :
    (value < 2 ^ 64 → RejectsCuts readVarUint64 (varUint value) (uintPieces value)) ∧
    (bytes.length < 2 ^ 64 → RejectsCuts readVarBytes (writeVarBytes bytes) (bytesPieces bytes)) ∧
    RejectsCuts readUint16 (writeUint16 half) [writeUint16 half] ∧
    RejectsCuts readUint32 (writeUint32 word) [writeUint32 word] ∧
    RejectsCuts readUint64 (writeUint64 double) [writeUint64 double] ∧
    (ids.length < 2 ^ 63 → acc.encodedID.length < 2 ^ 64 → RejectsCuts Account.read (acc.serialize ids) (acc.pieces ids)) ∧
    (ps.subscriber.length < 2 ^ 64 → ps.identifier.length < 2 ^ 64 → ps.metadata.length < 2 ^ 64 →
      RejectsCuts PubSub.read ps.serialize ps.pieces) ∧
    (ni.registrant.length < 2 ^ 64 → RejectsCuts NameInfo.read ni.bytes ni.pieces) ∧
    RejectsCuts NanoPay.read np.serialize [writeFixed64 np.balance, writeUint32 np.expiresAt] ∧
    (ia.name.length < 2 ^ 64 → ia.symbol.length < 2 ^ 64 → RejectsCuts Asset.read ia.serialize ia.pieces) := by
  have single (written : Bytes) : [written].flatten = written := by simp
  refine ⟨fun fits => ⟨flatten_uintPieces value, (readsBack_varUint fits (by omega)).cut⟩,
    fun fits => ⟨flatten_bytesPieces bytes, (readsBack_varBytes fits).cut⟩, ⟨single _, (readsBack_uint16 half).cut⟩,
    ⟨single _, (readsBack_uint32 word).cut⟩, ⟨single _, (readsBack_uint64 double).cut⟩,
    fun few sized => ⟨acc.flatten_pieces ids, (Account.readsBack few sized).cut⟩,
    fun subscriber identifier metadata => ⟨?_, (PubSub.readsBack subscriber identifier metadata).cut⟩,
    fun registrant => ⟨?_, (NameInfo.readsBack registrant).cut⟩, ⟨?_, np.readsBack.cut⟩,
    fun name symbol => ⟨?_, (Asset.readsBack name symbol).cut⟩⟩
  · simp [PubSub.serialize, PubSub.pieces]
  · simp [NameInfo.bytes, NameInfo.pieces]
  · simp [NanoPay.serialize]
  · simp [Asset.serialize, Asset.pieces]

/-- A number that is cut off inside of a read is accepted. -/
theorem cut_number_accepted :
    (writeUint32 258).take 1 = [2] ∧ readUint32 [2] = .ok (2, []) ∧
      NanoPay.read ((⟨7, 258⟩ : NanoPay).serialize.take 9) = .ok (⟨7, 2⟩, []) := by
  decide +kernel

namespace Transaction

/-- An unsigned transaction as Go has it: the type is the one of its number, and slices have a length. -/
structure Valid (t : Transaction) : Prop where
  type : .ofCode t.unsignedTx.payload.type.code = t.unsignedTx.payload.type
  data : t.unsignedTx.payload.data.length < 2 ^ 64
  attributes : t.unsignedTx.attributes.length < 2 ^ 64

variable {t t' : Transaction}

theorem deserializeUnsigned_serializeUnsigned (valid : t.Valid) (rest : Bytes) :
    deserializeUnsigned (serializeUnsigned t ++ rest) = .ok (t.unsignedTx, rest) := by
  have reads : ReadsBack deserializeUnsigned t.unsignedTx _ :=
    (readsBack_uint32 _).bind ((readsBack_varBytes valid.data).bind ((readsBack_uint64 t.unsignedTx.nonce).bind
      ((readsBack_uint64 t.unsignedTx.fee.toUInt64).bind ((readsBack_varBytes valid.attributes).map fun r => by
        rw [valid.type, Int64.toInt64_toUInt64]))))
  simpa [serializeUnsigned] using reads.whole rest

theorem unsignedTx_eq_of_serialize (valid : t.Valid) (valid' : t'.Valid)
    (same : serializeUnsigned t = serializeUnsigned t') : t.unsignedTx = t'.unsignedTx := by
  have read := deserializeUnsigned_serializeUnsigned valid []
  rw [same, deserializeUnsigned_serializeUnsigned valid' []] at read
  exact (Prod.mk.inj (Except.ok.inj read)).1.symm

end Transaction

open Transaction

/-- The bytes of an unsigned transaction determine it, and so do its hash and what is signed, as long as SHA-256 does not
map two of the strings that are hashed for the two transactions to the same hash. -/
theorem unsigned_encoding_binds (env : Env) {t t' : Transaction} (valid : t.Valid) (valid' : t'.Valid) :
    deserializeUnsigned (serializeUnsigned t) = .ok (t.unsignedTx, []) ∧
    (serializeUnsigned t = serializeUnsigned t' → t.unsignedTx = t'.unsignedTx) ∧
    (Set.InjOn env.sha256 {serializeUnsigned t, serializeUnsigned t', getHashForSigning env t, getHashForSigning env t'} →
      (hash env t = hash env t' ∨ getHashForSigning env t = getHashForSigning env t') → t.unsignedTx = t'.unsignedTx) := by
  refine ⟨by simpa using deserializeUnsigned_serializeUnsigned valid [], unsignedTx_eq_of_serialize valid valid', ?_⟩
  intro free same
  have signed : getHashForSigning env t = getHashForSigning env t' := by
    rcases same with same | same
    · exact free (by simp) (by simp) same
    · exact same
  have written : serializeUnsigned t = serializeUnsigned t' := free (by simp) (by simp) (Word.toArray_inj.mp signed)
  exact unsignedTx_eq_of_serialize valid valid' written

theorem unsigned_encoding_binds_transfers :
    let transfer (nonce : UInt64) : Transaction := ⟨⟨⟨.transferAsset, [1, 2]⟩, nonce, -1, [4]⟩, []⟩
    deserializeUnsigned (serializeUnsigned (transfer 3)) = .ok ((transfer 3).unsignedTx, []) ∧
      serializeUnsigned (transfer 3) ≠ serializeUnsigned (transfer 5) := by
  have binds := unsigned_encoding_binds (Tables.env {}) (t := ⟨⟨⟨.transferAsset, [1, 2]⟩, 3, -1, [4]⟩, []⟩)
    ⟨rfl, by decide, by decide⟩ (⟨rfl, by decide, by decide⟩ : Valid ⟨⟨⟨.transferAsset, [1, 2]⟩, 5, -1, [4]⟩, []⟩)
  exact ⟨binds.1, fun same => absurd (binds.2.1 same) (by decide)⟩

end Nkn
