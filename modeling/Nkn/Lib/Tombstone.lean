import Mathlib.Data.Finset.Basic
import Nkn.Lib.GoMap

/-! # Removed entries of a write-back table

A key that is marked for deletion is gone from the map, but a reader of the table falls through the mark to the store. -/

namespace Go.Table

variable {K V : Type} [DecidableEq K]

/-- What the table stands for: the pending record of a key, nothing for a marked key, and else the stored record. -/
def view (empty : V) (table : Table K V) (key : K) : V :=
  match table.pending.load key with
  | some (some value) => value
  | some none => empty
  | none => (table.stored key).getD empty

def isStale (table : Table K V) (key : K) : Bool :=
  match table.pending.load key with
  | some none => (table.stored key).isSome
  | _ => false

variable {empty : V} {table : Table K V} {key key' : K}

theorem view_ofStore (stored : K → Option V) : (ofStore stored).view empty key = (stored key).getD empty := rfl

theorem view_put (value : V) : (table.put key value).view empty key' = if key' = key then value else table.view empty key' := by
  by_cases same : key' = key <;> simp [view, put, same]

theorem view_putNil : (table.putNil key).view empty key' = if key' = key then empty else table.view empty key' := by
  by_cases same : key' = key <;> simp [view, putNil, same]

theorem read_eq_view (fresh : table.isStale key = false) : (table.read key).getD empty = table.view empty key := by
  unfold isStale at fresh
  unfold read view
  rcases entry : table.pending.load key with _ | _ | value
  · rfl
  · rw [entry] at fresh
    simp only [Option.isSome_eq_false_iff, Option.isNone_iff_eq_none] at fresh
    simp [fresh]
  · rfl

theorem view_put_read (fresh : table.isStale key = false) :
    (table.put key ((table.read key).getD empty)).view empty = table.view empty := by
  funext key'
  rw [view_put, read_eq_view fresh]
  split_ifs with same
  · rw [same]
  · rfl

theorem isStale_put (value : V) : (table.put key value).isStale key' = if key' = key then false else table.isStale key' := by
  by_cases same : key' = key <;> simp [isStale, put, same]

theorem view_finalize {encode : V → Option V} (faithful : ∀ value, (encode value).getD empty = value) :
    ((table.finalize encode true).stored key).getD empty = table.view empty key := by
  rw [stored_finalize]
  unfold view
  rcases table.pending.load key with _ | _ | value
  · rfl
  · rfl
  · exact faithful value

end Go.Table
