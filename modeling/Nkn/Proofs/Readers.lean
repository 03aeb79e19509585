import Nkn.Lib.Reader
import Nkn.Proofs.TrieEncoding

/-! # The readers of `common/serialization`

Each reader reads back what its writer has written, and reports an error if the buffer ends between two of its reads. -/

namespace Nkn

open Go Store List

theorem readsBack_readBuffer (written : Bytes) : ReadsBack (readBuffer written.length) written (piece written) where
  whole rest := by
    rw [flatten_piece]
    exact readBuffer_append written rest
  cut before after split nonempty := by
    unfold piece at split
    split_ifs at split with empty
    · exact absurd (append_eq_nil_iff.mp split).2 nonempty
    · obtain ⟨rfl, -⟩ | ⟨-, rfl⟩ := append_eq_singleton_iff.mp split
      · exact ⟨"EOF", by simp [readBuffer, empty]⟩
      · exact absurd rfl nonempty

def uintPieces (value : Nat) : List Bytes := piece ((varUint value).take 1) ++ piece ((varUint value).drop 1)

@[simp] theorem flatten_uintPieces (value : Nat) : (uintPieces value).flatten = varUint value := by
  rw [uintPieces, flatten_append, flatten_piece, flatten_piece, take_append_drop]

theorem readsBack_varUint {value maxint : Nat} (fits : value < 2 ^ 64) (allowed : value ≤ maxint) :
    ReadsBack (readVarUint maxint) value (uintPieces value) where
  whole rest := by
    rw [flatten_uintPieces]
    exact readVarUint_varUint fits allowed rest
  cut before after split nonempty := by
    cases before with
    | nil => exact ⟨"EOF", rfl⟩
    | cons _ _ =>
      -- more than one read: the first byte is a marker, and nothing follows it
      unfold uintPieces varUint at split
      split_ifs at split
      · simp [piece] at split
        exact absurd split.2.2 nonempty
      all_goals
        simp only [piece, take_succ_cons, take_zero, drop_succ_cons, drop_zero, littleEndian, reduceCtorEq,
          if_false, cons_append, nil_append, List.cons.injEq] at split
        obtain ⟨rfl, split⟩ := split
        obtain ⟨rfl, -⟩ | ⟨-, rfl⟩ := append_eq_singleton_iff.mp split
        · exact ⟨"EOF", rfl⟩
        · exact absurd rfl nonempty

def bytesPieces (value : Bytes) : List Bytes := uintPieces value.length ++ piece value

@[simp] theorem flatten_bytesPieces (value : Bytes) : (bytesPieces value).flatten = writeVarBytes value := by
  simp [bytesPieces, writeVarBytes, varBytes]

theorem readsBack_varBytes {value : Bytes} (fits : value.length < 2 ^ 64) :
    ReadsBack readVarBytes value (bytesPieces value) :=
  (readsBack_varUint fits (by omega)).bind (readsBack_readBuffer value)

theorem readsBack_uint {width value : Nat} (fits : value < 256 ^ width) (positive : width ≠ 0) :
    ReadsBack (readUint width) value [littleEndian width value] := by
  have nonempty : littleEndian width value ≠ [] := by
    rw [ne_eq, ← length_eq_zero_iff, length_littleEndian]
    exact positive
  have buffer := readsBack_readBuffer (littleEndian width value)
  rw [length_littleEndian, piece, if_neg nonempty] at buffer
  constructor
  · intro rest
    rw [readUint, buffer.whole rest]
    simp [fromLittleEndian_littleEndian fits]
  · intro before after split nonempty
    obtain ⟨_, failed⟩ := buffer.cut before after split nonempty
    exact ⟨_, by rw [readUint, failed]; rfl⟩

theorem readsBack_uint16 (val : UInt16) : ReadsBack readUint16 val [writeUint16 val] :=
  (readsBack_uint val.toNat_lt (by decide)).map fun r => by simp

theorem readsBack_uint32 (val : UInt32) : ReadsBack readUint32 val [writeUint32 val] :=
  (readsBack_uint val.toNat_lt (by decide)).map fun r => by simp

theorem readsBack_uint64 (val : UInt64) : ReadsBack readUint64 val [writeUint64 val] :=
  (readsBack_uint val.toNat_lt (by decide)).map fun r => by simp

theorem readsBack_fixed64 (f : Int64) : ReadsBack readFixed64 f [writeFixed64 f] := by
  have buffer : ReadsBack (readBuffer 8) (writeFixed64 f) [writeFixed64 f] := readsBack_readBuffer (writeFixed64 f)
  refine buffer.map fun r => ?_
  have number : fromLittleEndian (writeFixed64 f) = f.toUInt64.toNat := fromLittleEndian_littleEndian f.toUInt64.toNat_lt
  simp [number]

theorem readsBack_word {n : Nat} (word : Word n) (positive : n ≠ 0) : ReadsBack (readBuffer n) word.toArray [word.toArray] := by
  have buffer := readsBack_readBuffer word.toArray
  have nonempty : word.toArray ≠ [] := by
    rw [ne_eq, ← length_eq_zero_iff, word.length_toArray]
    exact positive
  rwa [word.length_toArray, piece, if_neg nonempty] at buffer

namespace Store

theorem NanoPay.readsBack (np : NanoPay) : ReadsBack read np [writeFixed64 np.balance, writeUint32 np.expiresAt] :=
  .labelled ((readsBack_fixed64 np.balance).bind ((readsBack_uint32 np.expiresAt).bind (.pure np))) _

def NameInfo.pieces (ni : NameInfo) : List Bytes := bytesPieces ni.registrant ++ [writeUint32 ni.expiresAt]

theorem NameInfo.readsBack {ni : NameInfo} (fits : ni.registrant.length < 2 ^ 64) : ReadsBack read ni ni.pieces :=
  (readsBack_varBytes fits).bind ((readsBack_uint32 ni.expiresAt).bind (.pure ni))

def PubSub.pieces (ps : PubSub) : List Bytes :=
  bytesPieces ps.subscriber ++ (bytesPieces ps.identifier ++ (bytesPieces ps.metadata ++ [writeUint32 ps.expiresAt]))

theorem PubSub.readsBack {ps : PubSub} (subscriber : ps.subscriber.length < 2 ^ 64)
    (identifier : ps.identifier.length < 2 ^ 64) (metadata : ps.metadata.length < 2 ^ 64) : ReadsBack read ps ps.pieces :=
  (readsBack_varBytes subscriber).bind ((readsBack_varBytes identifier).bind ((readsBack_varBytes metadata).bind
    ((readsBack_uint32 ps.expiresAt).bind (.pure ps))))

def Asset.pieces (ia : Asset) : List Bytes := bytesPieces ia.name ++ (bytesPieces ia.symbol ++
  [writeFixed64 ia.totalSupply, writeUint32 ia.precision, ia.owner.toArray])

theorem Asset.readsBack {ia : Asset} (name : ia.name.length < 2 ^ 64) (symbol : ia.symbol.length < 2 ^ 64) :
    ReadsBack read ia ia.pieces :=
  (readsBack_varBytes name).bind ((readsBack_varBytes symbol).bind ((readsBack_fixed64 ia.totalSupply).bind
    ((readsBack_uint32 ia.precision).bind ((readsBack_word ia.owner (by decide)).map fun r => by simp))))

namespace Account

def listed (acc : Account) (ids : List Uint256) (balances : GoMap Uint256 Int64) : GoMap Uint256 Int64 :=
  ids.foldl (fun balances id => balances.store id (acc.getBalance id)) balances

theorem readsBack_readBalances (acc : Account) (ids : List Uint256) (balances : GoMap Uint256 Int64) :
    ReadsBack (readBalances ids.length balances) (acc.listed ids balances)
      (ids.flatMap fun id => [id.toArray, writeFixed64 (acc.getBalance id)]) := by
  induction ids generalizing balances with
  | nil => exact .pure balances
  | cons id _ ih =>
    refine ((readsBack_word id (by decide)).labelled _).bind (((readsBack_fixed64 (acc.getBalance id)).labelled _).bind ?_)
    exact (ih (balances.store id (acc.getBalance id))).congr fun r => by simp

theorem load_listed (acc : Account) (ids : List Uint256) (balances : GoMap Uint256 Int64) (assetID : Uint256) :
    (acc.listed ids balances).load assetID = if assetID ∈ ids then some (acc.getBalance assetID) else balances.load assetID := by
  induction ids generalizing balances with
  | nil => rfl
  | cons id _ ih =>
    rw [listed, foldl_cons, ← listed, ih]
    by_cases same : assetID = id
    · simp [same]
    · simp [same]

def pieces (acc : Account) (ids : List Uint256) : List Bytes :=
  uintPieces acc.nonce.toNat ++ (uintPieces ids.length ++
    (((sortIDs ids).flatMap fun id => [id.toArray, writeFixed64 (acc.getBalance id)]) ++ bytesPieces acc.encodedID))

def readBack (acc : Account) (ids : List Uint256) : Account := { acc.stored with balances := acc.listed (sortIDs ids) ∅ }

theorem readsBack {acc : Account} {ids : List Uint256} (few : ids.length < 2 ^ 63) (sized : acc.encodedID.length < 2 ^ 64) :
    ReadsBack read (acc.readBack ids) (acc.pieces ids) := by
  have sorted : (sortIDs ids).length = ids.length := (perm_insertionSort _ _).length_eq
  have balances := acc.readsBack_readBalances (sortIDs ids) ∅
  refine ((readsBack_varUint acc.nonce.toNat_lt (by have := acc.nonce.toNat_lt; omega)).labelled _).bind
    (((readsBack_varUint (by omega : ids.length < 2 ^ 64) (by omega)).labelled _).bind
      (((balances.congr fun r => ?_).labelled _).bind (((readsBack_varBytes sized).labelled _).map fun r => ?_)))
  · rw [if_pos few, sorted]
  · simp [readBack, stored]

end Account

namespace Cleanup

def pieces (ids : List Bytes) : List Bytes := uintPieces ids.length ++ (sortStrings ids).flatMap bytesPieces

def listed (ids : List Bytes) (set : Cleanup) : Cleanup := ids.foldl (fun set id => set.store id ()) set

theorem readsBack_readIds {ids : List Bytes} (sized : ∀ id ∈ ids, id.length < 2 ^ 64) (set : Cleanup) :
    ReadsBack (readIds ids.length set) (listed ids set) (ids.flatMap bytesPieces) := by
  induction ids generalizing set with
  | nil => exact .pure set
  | cons id _ ih =>
    obtain ⟨first, rest⟩ := forall_mem_cons.mp sized
    exact (readsBack_varBytes first).bind (ih rest (set.store id ()))

theorem load_listed (ids : List Bytes) (set : Cleanup) (id : Bytes) :
    (listed ids set).load id = if id ∈ ids then some () else set.load id := by
  induction ids generalizing set with
  | nil => rfl
  | cons first _ ih =>
    rw [listed, foldl_cons, ← listed, ih]
    by_cases same : id = first
    · simp [same]
    · simp [same]

theorem readsBack {ids : List Bytes} (few : ids.length < 2 ^ 64) (sized : ∀ id ∈ ids, id.length < 2 ^ 64) :
    ReadsBack read (listed (sortStrings ids) ∅) (pieces ids) := by
  have sorted : (sortStrings ids).length = ids.length := (perm_insertionSort _ _).length_eq
  refine (readsBack_varUint few (by omega)).bind ((readsBack_readIds (fun id member => ?_) ∅).congr fun r => ?_)
  · exact sized id ((perm_insertionSort _ _).mem_iff.mp member)
  · rw [sorted]

end Cleanup

end Store

end Nkn
