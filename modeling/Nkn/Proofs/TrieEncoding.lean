import Nkn.Lib.PatriciaCanonical
import Nkn.Model.Trie

/-! # How trie nodes are written

Compact paths, and the encoding of nodes: it is read back as it was written, and two nodes with the same encoding are
the same. -/

namespace Nkn

open Go Outcome List UInt8

theorem readBuffer_append (written rest : Bytes) : readBuffer written.length (written ++ rest) = .ok (written, rest) := by
  unfold readBuffer
  rw [if_neg]
  · simp
  · rintro ⟨empty, nonzero⟩
    rw [append_eq_nil_iff] at empty
    exact nonzero (by rw [empty.1]; rfl)

theorem readVarUint_wide {value maxint width : Nat} {marker : UInt8} (fits : value < 256 ^ width) (allowed : value ≤ maxint)
    (marked : (marker, width) ∈ [((0xFD : UInt8), 2), (0xFE, 4), (0xFF, 8)]) (rest : Bytes) :
    readVarUint maxint (marker :: (littleEndian width value ++ rest)) = .ok (value, rest) := by
  have first : readBuffer 1 (marker :: (littleEndian width value ++ rest)) = .ok ([marker], littleEndian width value ++ rest) :=
    readBuffer_append [marker] _
  have wide : readBuffer width (littleEndian width value ++ rest) = .ok (littleEndian width value, rest) := by
    have read := readBuffer_append (littleEndian width value) rest
    rwa [length_littleEndian] at read
  have number := fromLittleEndian_littleEndian fits
  unfold readVarUint
  rw [first, ok_bind]
  simp only [mem_cons, Prod.mk.injEq, not_mem_nil, or_false] at marked
  rcases marked with ⟨rfl, rfl⟩ | ⟨rfl, rfl⟩ | ⟨rfl, rfl⟩ <;>
    simp [wide, number, rejectIf, Nat.not_lt.mpr allowed]

theorem readVarUint_varUint {value maxint : Nat} (fits : value < 2 ^ 64) (allowed : value ≤ maxint) (rest : Bytes) :
    readVarUint maxint (varUint value ++ rest) = .ok (value, rest) := by
  unfold varUint
  split_ifs with byte two four
  · have small : (ofNat value).toNat = value := by
      rw [toNat_ofNat']
      omega
    have other (marker : UInt8) (large : 0xFD ≤ marker.toNat) : [ofNat value] ≠ [marker] := by
      intro same
      rw [← singleton_inj.mp same, small] at large
      omega
    have first : readBuffer 1 ([ofNat value] ++ rest) = .ok ([ofNat value], rest) := readBuffer_append [_] rest
    have none : readBuffer 0 rest = .ok ([], rest) := readBuffer_append [] rest
    unfold readVarUint
    rw [first, ok_bind]
    simp only [if_neg (other 0xFD (by decide)), if_neg (other 0xFE (by decide)), if_neg (other 0xFF (by decide)), none,
      ok_bind, if_true, fromLittleEndian, foldr_cons, foldr_nil, small]
    simp [rejectIf, Nat.not_lt.mpr allowed]
  · exact readVarUint_wide (by omega) allowed (by decide) rest
  · exact readVarUint_wide (by omega) allowed (by decide) rest
  · exact readVarUint_wide (by omega) allowed (by decide) rest

theorem readVarBytes_writeVarBytes {value : Bytes} (fits : value.length < 2 ^ 64) (rest : Bytes) :
    readVarBytes (writeVarBytes value ++ rest) = .ok (value, rest) := by
  unfold readVarBytes writeVarBytes varBytes
  rw [append_assoc, readVarUint_varUint fits (by omega), ok_bind]
  exact readBuffer_append value rest

theorem selfDelimiting_varBytes : SelfDelimiting writeVarBytes {bytes | bytes.length < 2 ^ 64} :=
  .of_read fun _ => readVarBytes_writeVarBytes

namespace Trie

def IsPath (key : Key) : Prop := ∃ front : Key, 16 ∉ front ∧ (key = front ∨ key = front ++ [16])

theorem nibbles_pair : ∀ high low : Nibble, high ≠ 16 → low ≠ 16 →
    nibbles (ofNat high.val <<< 4 ||| ofNat low.val) = [high, low] := by
  decide

theorem nibbles_decodeNibbles : ∀ front : Key, 16 ∉ front → front.length % 2 = 0 →
    (decodeNibbles front).flatMap nibbles = front
  | [], _, _ => rfl
  | [_], _, even => absurd even (by simp)
  | high :: low :: rest, absent, even => by
    simp only [mem_cons, not_or] at absent
    have rest := nibbles_decodeNibbles rest absent.2.2 (by simp at even; omega)
    rw [decodeNibbles, flatMap_cons, rest, nibbles_pair high low (Ne.symm absent.1) (Ne.symm absent.2.1)]
    rfl

theorem compactToHex_even {front : Key} (absent : 16 ∉ front) (even : front.length % 2 = 0) (term : Bool) :
    compactToHex ((if term then (1 : UInt8) else 0) <<< 5 :: decodeNibbles front) =
      .ok (if term then front ++ [16] else front) := by
  have flag : nibbles ((if term then (1 : UInt8) else 0) <<< 5) = [if term then 2 else 0, 0] := by
    cases term <;> decide
  unfold compactToHex keyBytesToHex
  rw [dropLast_concat, flatMap_cons, nibbles_decodeNibbles front absent even, flag]
  cases term <;> simp

theorem compactToHex_odd {first : Nibble} {rest : Key} (absent : 16 ∉ first :: rest) (even : rest.length % 2 = 0)
    (term : Bool) :
    compactToHex (((if term then (1 : UInt8) else 0) <<< 5 ||| (1 : UInt8) <<< 4 ||| ofNat first.val) ::
      decodeNibbles rest) = .ok (if term then first :: rest ++ [16] else first :: rest) := by
  simp only [mem_cons, not_or] at absent
  have flags : ∀ (term : Bool) (first : Nibble), first ≠ 16 →
      nibbles ((if term then (1 : UInt8) else 0) <<< 5 ||| (1 : UInt8) <<< 4 ||| ofNat first.val) =
        [if term then 3 else 1, first] := by
    decide
  unfold compactToHex keyBytesToHex
  rw [dropLast_concat, flatMap_cons, nibbles_decodeNibbles rest absent.2 even, flags term first (Ne.symm absent.1)]
  cases term <;> simp

theorem compactToHex_hexToCompact {key : Key} (path : IsPath key) : compactToHex (hexToCompact key) = .ok key := by
  obtain ⟨front, absent, form⟩ := path
  obtain ⟨term, isTerm, shortened, whole⟩ : ∃ term : Bool, hasTerm key = term ∧
      (if term then key.dropLast else key) = front ∧ key = if term then front ++ [16] else front := by
    rcases form with rfl | rfl
    · refine ⟨false, ?_, rfl, rfl⟩
      simp only [hasTerm, decide_eq_false_iff_not]
      exact fun last => absent (mem_of_getLast? last)
    · exact ⟨true, by simp [hasTerm], by simp, rfl⟩
  unfold hexToCompact
  simp only [isTerm, shortened]
  cases front with
  | nil =>
    have compact := compactToHex_even absent rfl term
    rw [← whole] at compact
    exact compact
  | cons first rest =>
    dsimp only
    by_cases odd : (first :: rest).length % 2 = 1
    · have compact := compactToHex_odd absent (by simp at odd; omega) term
      rw [← whole] at compact
      rw [if_pos odd]
      exact compact
    · have compact := compactToHex_even absent (by omega) term
      rw [← whole] at compact
      rw [if_neg odd]
      exact compact

namespace Collapsed

/-- A node that can be written and read: its strings have lengths of Go slices, and its paths are compact paths. -/
def Writable : Collapsed → Prop
  | valueNode v => v.length < 2 ^ 64
  | shortNode key val => key.length < 2 ^ 64 ∧ (∃ path, IsPath path ∧ key = hexToCompact path) ∧ val.Writable
  | fullNode children => ∀ i, (children i).Writable
  | hashNode h => h.length < 2 ^ 64

def decoded : Collapsed → Node
  | valueNode v => if v = [] then .nil else .valueNode v
  | shortNode key val => .shortNode ((compactToHex key).toOption.getD []) val.decoded {}
  | fullNode children => .fullNode (fun i => (children i).decoded) {}
  | hashNode h => .hashNode h

theorem decoded_shortNode {path : Key} (isPath : IsPath path) (val : Collapsed) :
    (shortNode (hexToCompact path) val).decoded = .shortNode path val.decoded {} := by
  simp [decoded, compactToHex_hexToCompact isPath, Except.toOption]

theorem serialize_pos (c : Collapsed) : 0 < c.serialize.length := by
  have tag (value : Nat) : 0 < (varUint value).length := by
    unfold varUint
    split_ifs <;> simp
  cases c with
  | valueNode _ =>
    have := tag tagValueNode
    simp only [serialize, length_append]
    omega
  | shortNode _ _ =>
    have := tag tagShortNode
    simp only [serialize, length_append]
    omega
  | fullNode _ =>
    have := tag tagFullNode
    simp only [serialize, length_append]
    omega
  | hashNode _ =>
    have := tag tagHashNode
    simp only [serialize, length_append]
    omega

theorem foldlM_deserializeChild {children : Nibble → Collapsed} {read : Bytes → Outcome (Node × Bytes)}
    (each : ∀ i rest, read ((children i).serialize ++ rest) = .ok ((children i).decoded, rest)) (indices : List Nibble)
    (before : Nibble → Node) (rest : Bytes) :
    indices.foldlM (deserializeChild read)
        (before, (indices.flatMap fun i => varUint i.val ++ (children i).serialize) ++ rest) =
      .ok (fun i => if i ∈ indices then (children i).decoded else before i, rest) := by
  induction indices generalizing before with
  | nil => simp
  | cons i indices ih =>
    have small : i.val < 2 ^ 64 ∧ i.val ≤ 20 := by omega
    rw [foldlM_cons]
    have turn : deserializeChild read
        (before, (flatMap (fun i => varUint i.val ++ (children i).serialize) (i :: indices)) ++ rest) i =
          .ok (Function.update before i (children i).decoded,
            (indices.flatMap fun i => varUint i.val ++ (children i).serialize) ++ rest) := by
      simp only [deserializeChild, flatMap_cons, append_assoc, readVarUint_varUint small.1 small.2, each, ok_bind]
      simp [rejectIf]
    rw [turn, ok_bind, ih]
    congr 2
    funext j
    by_cases same : j = i
    · simp [same]
    · simp [same]

theorem length_le_flatMap {α : Type} (written : α → Bytes) {item : α} {items : List α} (member : item ∈ items) :
    (written item).length ≤ (items.flatMap written).length := by
  have listed : written item ∈ items.map written := mem_map_of_mem member
  exact (sublist_flatten_of_mem listed).length_le

theorem deserialize_serialize {c : Collapsed} (writable : c.Writable) {depth : Nat} (deep : c.serialize.length ≤ depth)
    (rest : Bytes) : deserialize depth (c.serialize ++ rest) = .ok (c.decoded, rest) := by
  have tag {value : Nat} (small : value ≤ 20) (rest : Bytes) : readVarUint 20 (varUint value ++ rest) = .ok (value, rest) :=
    readVarUint_varUint (by omega) small rest
  induction c generalizing depth rest with
  | valueNode _ =>
    obtain ⟨depth, rfl⟩ := Nat.exists_eq_add_one.mpr (lt_of_lt_of_le (serialize_pos _) deep)
    simp only [deserialize, serialize, append_assoc, tag (by decide : tagValueNode ≤ 20), ok_bind, readVarBytes_writeVarBytes writable]
    rfl
  | shortNode _ val ih =>
    obtain ⟨depth, rfl⟩ := Nat.exists_eq_add_one.mpr (lt_of_lt_of_le (serialize_pos _) deep)
    obtain ⟨fits, ⟨_, isPath, rfl⟩, writable⟩ := writable
    have inner : val.serialize.length ≤ depth := by
      simp only [serialize, length_append] at deep
      have : 0 < (varUint tagShortNode).length := by decide
      omega
    simp only [deserialize, serialize, append_assoc, tag (by decide : tagShortNode ≤ 20), ok_bind, readVarBytes_writeVarBytes fits,
      compactToHex_hexToCompact isPath, ih writable inner, decoded_shortNode isPath]
    rfl
  | fullNode children ih =>
    obtain ⟨depth, rfl⟩ := Nat.exists_eq_add_one.mpr (lt_of_lt_of_le (serialize_pos _) deep)
    have inner (i : Nibble) : (children i).serialize.length ≤ depth := by
      have part := length_le_flatMap (fun i : Nibble => varUint i.val ++ (children i).serialize) (mem_finRange i)
      have : 0 < (varUint tagFullNode).length := by decide
      simp only [serialize, length_append] at deep part
      omega
    have loop := foldlM_deserializeChild (fun i rest => ih i (writable i) (inner i) rest) (finRange 17)
      (fun _ => .nil) rest
    simp only [deserialize, serialize, append_assoc, tag (by decide : tagFullNode ≤ 20), ok_bind, loop, decoded]
    simp [tagFullNode, tagHashNode, tagValueNode, tagShortNode]
  | hashNode _ =>
    obtain ⟨_, rfl⟩ := Nat.exists_eq_add_one.mpr (lt_of_lt_of_le (serialize_pos _) deep)
    simp only [deserialize, serialize, append_assoc, tag (by decide : tagHashNode ≤ 20), ok_bind, readVarBytes_writeVarBytes writable]
    rfl

theorem decoded_inj {c c' : Collapsed} (writable : c.Writable) (writable' : c'.Writable)
    (same : c.decoded = c'.decoded) : c = c' := by
  have value {v : Bytes} {c : Collapsed} (same : (valueNode v).decoded = c.decoded) : c = valueNode v := by
    cases c with
    | valueNode v' => by_cases empty : v = [] <;> by_cases empty' : v' = [] <;> simp_all [decoded]
    | _ => by_cases empty : v = [] <;> simp [decoded, empty] at same
  induction c generalizing c' with
  | valueNode _ => exact (value same).symm
  | shortNode _ _ ih =>
    cases c' with
    | shortNode _ _ =>
      obtain ⟨-, ⟨_, isPath, rfl⟩, writable⟩ := writable
      obtain ⟨-, ⟨_, isPath', rfl⟩, writable'⟩ := writable'
      rw [decoded_shortNode isPath, decoded_shortNode isPath'] at same
      obtain ⟨rfl, inner, -⟩ := Node.shortNode.inj same
      rw [ih writable writable' inner]
    | valueNode _ => exact value same.symm
    | _ => cases same
  | fullNode _ ih =>
    cases c' with
    | fullNode _ =>
      have each := congrFun (Node.fullNode.inj same).1
      exact congrArg fullNode (funext fun i => ih i (writable i) (writable' i) (each i))
    | valueNode _ => exact value same.symm
    | _ => cases same
  | hashNode _ =>
    cases c' with
    | hashNode _ => rw [Node.hashNode.inj same]
    | valueNode _ => exact value same.symm
    | _ => cases same

theorem serialize_inj {c c' : Collapsed} (writable : c.Writable) (writable' : c'.Writable)
    (same : c.serialize = c'.serialize) : c = c' := by
  have read := deserialize_serialize writable (le_refl _) []
  rw [same, deserialize_serialize writable' (le_refl _) []] at read
  exact decoded_inj writable writable' (Prod.mk.inj (Except.ok.inj read)).1.symm

end Collapsed

theorem mustDecodeNode_serialize {c : Collapsed} (writable : c.Writable) : mustDecodeNode c.serialize = .ok c.decoded := by
  have read := Collapsed.deserialize_serialize writable (le_refl _) []
  rw [append_nil] at read
  simp [mustDecodeNode, read]

end Trie

end Nkn
