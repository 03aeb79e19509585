import Mathlib.Data.Fintype.Vector
import Mathlib.Data.FinEnum
import Mathlib.Data.Fintype.EquivFin
import Nkn.Lib.Fault
import Nkn.Lib.Framing

/-! # Byte strings and fixed-size words

`common.Uint160` and `common.Uint256`, how they are read from byte strings, and `common/serialization`. -/

namespace Nkn

open Go Outcome

abbrev Bytes := List UInt8

def Word (n : Nat) := {bytes : Bytes // bytes.length = n}

instance (n : Nat) : DecidableEq (Word n) := inferInstanceAs (DecidableEq {bytes : Bytes // bytes.length = n})

instance (n : Nat) : Fintype (Word n) := inferInstanceAs (Fintype (List.Vector UInt8 n))

abbrev Uint160 := Word 20

abbrev Uint256 := Word 32

instance instLawfulBEqUint256 : LawfulBEq Uint256 := inferInstance

namespace Word

variable {n : Nat}

def toArray (word : Word n) : Bytes := word.val

@[simp] theorem length_toArray (word : Word n) : word.toArray.length = n := word.property

theorem toArray_inj {word word' : Word n} : word.toArray = word'.toArray ↔ word = word' := Subtype.ext_iff.symm

def ofNat (n value : Nat) : Word n :=
  ⟨(littleEndian n value).reverse, by simp⟩

def compareBytes : Bytes → Bytes → Ordering
  | x :: xs, y :: ys => if y < x then .gt else if x < y then .lt else compareBytes xs ys
  | _, _ => .eq

def compareTo (word other : Word n) : Ordering := compareBytes word.toArray other.toArray

private theorem compareBytes_eq {xs ys : Bytes} (lengths : xs.length = ys.length) :
    compareBytes xs ys = .eq ↔ xs = ys := by
  induction xs generalizing ys with
  | nil =>
    have : ys = [] := List.length_eq_zero_iff.mp lengths.symm
    simp [compareBytes, this]
  | cons _ xs ih =>
    cases ys with
    | nil => simp at lengths
    | cons _ ys =>
      have tails : xs.length = ys.length := by simpa using lengths
      rw [compareBytes, List.cons.injEq, ← UInt8.toNat_inj]
      split_ifs with greater less
      · rw [UInt8.lt_iff_toNat_lt] at greater
        simp only [false_iff, not_and]
        omega
      · rw [UInt8.lt_iff_toNat_lt] at less
        simp only [false_iff, not_and]
        omega
      · rw [UInt8.lt_iff_toNat_lt] at greater less
        rw [ih tails]
        exact ⟨fun rest => ⟨by omega, rest⟩, And.right⟩

theorem compareTo_eq_iff {word other : Word n} : word.compareTo other = .eq ↔ word = other := by
  rw [compareTo, compareBytes_eq (by simp), toArray_inj]

end Word

def emptyUint256 : Uint256 := Word.ofNat 32 0

/-- `BytesToUint160`: a longer string keeps its last 20 bytes, a shorter one gets leading zeros. -/
def bytesToUint160 (b : Bytes) : Uint160 :=
  ⟨List.replicate (20 - b.length) 0 ++ b.drop (b.length - 20), by simp; omega⟩

@[simp] theorem bytesToUint160_toArray (word : Uint160) : bytesToUint160 word.toArray = word := by
  apply Subtype.ext
  simp [bytesToUint160, Word.toArray, word.property]

/-- The array that `Uint256ParseFromBytes` fills, also when it reports a wrong size. -/
def copyToUint256 (f : Bytes) : Uint256 :=
  ⟨f.take 32 ++ List.replicate (32 - f.length) 0, by simp; omega⟩

@[simp] theorem copyToUint256_toArray (word : Uint256) : copyToUint256 word.toArray = word := by
  apply Subtype.ext
  simp [copyToUint256, Word.toArray, word.property]

def uint256ParseFromBytes (f : Bytes) : Outcome Uint256 :=
  if f.length ≠ 32 then fail s!"uint256 bytes wrong size {f.length}, expecting {32}"
  else .ok (copyToUint256 f)

theorem uint256ParseFromBytes_eq_ok {f : Bytes} {hash : Uint256} :
    uint256ParseFromBytes f = .ok hash ↔ f = hash.toArray := by
  unfold uint256ParseFromBytes
  split
  · rename_i wrong
    simp only [fail_ne_ok, false_iff]
    rintro rfl
    exact wrong hash.property
  · rename_i right
    have right : f.length = 32 := not_not.mp right
    have whole : (copyToUint256 f).toArray = f := by
      simp [copyToUint256, Word.toArray, right, List.take_of_length_le (le_of_eq right)]
    constructor
    · rintro ⟨⟩
      exact whole.symm
    · intro same
      rw [Except.ok.injEq, ← Word.toArray_inj, whole, same]

def writeUint32 (val : UInt32) : Bytes := littleEndian 4 val.toNat

def writeUint64 (val : UInt64) : Bytes := littleEndian 8 val.toNat

/-- `WriteVarBytes` and `WriteVarString`; the length of a Go slice is below `2^63`. -/
def writeVarBytes (value : Bytes) : Bytes := varBytes value

theorem selfDelimiting_writeUint32 : SelfDelimiting writeUint32 Set.univ :=
  .of_length (fun _ _ => length_littleEndian 4 _) fun a _ b _ same =>
    UInt32.toNat_inj.mp ((selfDelimiting_littleEndian 4).injOn a.toNat_lt b.toNat_lt same)

theorem selfDelimiting_writeUint64 : SelfDelimiting writeUint64 Set.univ :=
  .of_length (fun _ _ => length_littleEndian 8 _) fun a _ b _ same =>
    UInt64.toNat_inj.mp ((selfDelimiting_littleEndian 8).injOn a.toNat_lt b.toNat_lt same)

/-! A reader takes what it needs off the buffer. `bytes.Buffer.Read` fills up a short one with zeros and reports an error
only when nothing is left. -/

def readBuffer (size : Nat) (r : Bytes) : Outcome (Bytes × Bytes) :=
  if r = [] ∧ size ≠ 0 then fail "EOF"
  else .ok (r.take size ++ List.replicate (size - r.length) 0, r.drop size)

def readVarUint (maxint : Nat) (r : Bytes) : Outcome (Nat × Bytes) := do
  let (first, r) ← readBuffer 1 r
  let size := if first = [0xFD] then 2 else if first = [0xFE] then 4 else if first = [0xFF] then 8 else 0
  let (wide, r) ← readBuffer size r
  let res := fromLittleEndian (if size = 0 then first else wide)
  rejectIf (res > maxint) "value out of range"
  .ok (res, r)

def readVarBytes (r : Bytes) : Outcome (Bytes × Bytes) := do
  let (val, r) ← readVarUint (2 ^ 64 - 1) r
  readBuffer val r

private def hexDigit (digit : UInt8) : UInt8 := if digit < 10 then 48 + digit else 87 + digit

def hexEncodeToString (b : Bytes) : Bytes := b.flatMap fun x => [hexDigit (x / 16), hexDigit (x % 16)]

def text (b : Bytes) : String := String.ofList (b.map fun x => Char.ofNat x.toNat)

def hexText (b : Bytes) : String := text (hexEncodeToString b)

end Nkn
