import Mathlib.Data.Set.Function
import Mathlib.Data.Nat.Digits.Defs

/-! # Self-delimiting byte encodings

An encoding is self-delimiting on a domain when a byte string has at most one reading as an encoded value followed by
a rest. -/

namespace Go

variable {α β : Type}

/-- An encoded value and what follows it are determined by the whole byte string. -/
def SelfDelimiting (encode : α → List UInt8) (domain : Set α) : Prop :=
  ∀ ⦃a⦄, a ∈ domain → ∀ ⦃b⦄, b ∈ domain → ∀ s t, encode a ++ s = encode b ++ t → a = b ∧ s = t

namespace SelfDelimiting

variable {encode : α → List UInt8}

theorem injOn {domain : Set α} (framed : SelfDelimiting encode domain) : Set.InjOn encode domain := by
  intro a ha b hb same
  exact (framed ha hb [] [] (by simpa using same)).1

theorem of_length {domain : Set α} {width : Nat}
    (length : ∀ a ∈ domain, (encode a).length = width) (injective : Set.InjOn encode domain) :
    SelfDelimiting encode domain := by
  intro a ha b hb s t same
  obtain ⟨front, back⟩ := List.append_inj same (by rw [length a ha, length b hb])
  exact ⟨injective ha hb front, back⟩

theorem of_read {ε : Type} {domain : Set α} {read : List UInt8 → Except ε (α × List UInt8)}
    (reads : ∀ a ∈ domain, ∀ rest, read (encode a ++ rest) = .ok (a, rest)) : SelfDelimiting encode domain := by
  intro a ha b hb s t same
  have read := reads a ha s
  rw [same, reads b hb t] at read
  obtain ⟨rfl, rfl⟩ := Prod.mk.inj (Except.ok.inj read)
  exact ⟨rfl, rfl⟩

end SelfDelimiting

def littleEndian : (width : Nat) → (value : Nat) → List UInt8
  | 0, _ => []
  | width + 1, value => UInt8.ofNat value :: littleEndian width (value / 256)

@[simp] theorem length_littleEndian (width value : Nat) : (littleEndian width value).length = width := by
  induction width generalizing value with
  | zero => rfl
  | succ _ ih => simp [littleEndian, ih]

def fromLittleEndian (bytes : List UInt8) : Nat := bytes.foldr (fun byte rest => byte.toNat + 256 * rest) 0

theorem fromLittleEndian_littleEndian {width value : Nat} (fits : value < 256 ^ width) :
    fromLittleEndian (littleEndian width value) = value := by
  induction width generalizing value with
  | zero =>
    simp only [pow_zero, Nat.lt_one_iff] at fits
    simp [littleEndian, fromLittleEndian, fits]
  | succ _ ih =>
    have rest := ih (Nat.div_lt_of_lt_mul (by rwa [pow_succ, Nat.mul_comm] at fits))
    simp only [fromLittleEndian, littleEndian, List.foldr_cons] at rest ⊢
    rw [rest, UInt8.toNat_ofNat']
    omega

theorem selfDelimiting_littleEndian (width : Nat) : SelfDelimiting (littleEndian width) {value | value < 256 ^ width} :=
  .of_length (fun _ _ => length_littleEndian width _) (Set.LeftInvOn.injOn fun _ => fromLittleEndian_littleEndian)

/-- One byte for a small number, otherwise a marker byte and a little-endian number of 2, 4 or 8 bytes. -/
def varUint (value : Nat) : List UInt8 :=
  if value < 0xFD then [UInt8.ofNat value]
  else if value ≤ 0xFFFF then 0xFD :: littleEndian 2 value
  else if value ≤ 0xFFFFFFFF then 0xFE :: littleEndian 4 value
  else 0xFF :: littleEndian 8 value

/-- The length of a byte string as a variable-length integer, then its bytes. -/
def varBytes (bytes : List UInt8) : List UInt8 := varUint bytes.length ++ bytes

end Go
