import Nkn.Lib.Fault

/-! # Readers

A reader takes a value off the front of a buffer. -/

namespace Go

open Outcome

variable {σ α β : Type}

/-- A reader takes `value` off a buffer that starts with the pieces; it asks the buffer once for each of them. -/
structure ReadsBack (read : List σ → Outcome (α × List σ)) (value : α) (pieces : List (List σ)) : Prop where
  whole : ∀ rest, read (pieces.flatten ++ rest) = .ok (value, rest)
  cut : ∀ before after, before ++ after = pieces → after ≠ [] → ∃ text, read before.flatten = fail text

namespace ReadsBack

variable {read : List σ → Outcome (α × List σ)} {value : α} {pieces : List (List σ)}

theorem pure (value : α) : ReadsBack (fun r : List σ => .ok (value, r)) value [] where
  whole _ := rfl
  cut _ _ split nonempty := absurd (List.append_eq_nil_iff.mp split).2 nonempty

theorem labelled (reads : ReadsBack read value pieces) (label : String) :
    ReadsBack (fun r => labelled label (read r)) value pieces where
  whole rest := by rw [reads.whole]; rfl
  cut before after split nonempty := by
    obtain ⟨text, failed⟩ := reads.cut before after split nonempty
    exact ⟨label ++ text, by rw [failed]; rfl⟩

/-- A reader after another one: a cut is in the pieces of the first one, between the two, or in those of the second. -/
theorem bind {next : α × List σ → Outcome (β × List σ)} {value' : β} {pieces' : List (List σ)}
    (first : ReadsBack read value pieces) (second : ReadsBack (fun r => next (value, r)) value' pieces') :
    ReadsBack (fun r => read r >>= next) value' (pieces ++ pieces') where
  whole rest := by
    rw [List.flatten_append, List.append_assoc, first.whole, ok_bind]
    exact second.whole rest
  cut before after split nonempty := by
    have passed (front : List (List σ)) (text : String) (failed : next (value, front.flatten) = fail text) :
        (read (pieces ++ front).flatten >>= next) = fail text := by
      rw [List.flatten_append, first.whole, ok_bind, failed]
    rcases List.append_eq_append_iff.mp split with ⟨inner, rfl, rfl⟩ | ⟨inner, rfl, rfl⟩
    · by_cases ended : inner = []
      · obtain ⟨text, failed⟩ := second.cut [] pieces' rfl (by simpa [ended] using nonempty)
        exact ⟨text, by simpa [ended] using passed [] text failed⟩
      · obtain ⟨text, failed⟩ := first.cut before inner rfl ended
        exact ⟨text, by rw [failed]; rfl⟩
    · obtain ⟨text, failed⟩ := second.cut inner after rfl nonempty
      exact ⟨text, passed inner text failed⟩

/-- What is done with a value that has been read. -/
theorem map {next : α × List σ → Outcome (β × List σ)} {value' : β} (reads : ReadsBack read value pieces)
    (turned : ∀ r, next (value, r) = .ok (value', r)) : ReadsBack (fun r => read r >>= next) value' pieces := by
  have second : ReadsBack (fun r => next (value, r)) value' [] := funext turned ▸ .pure value'
  simpa using reads.bind second

theorem alone (reads : ReadsBack read value pieces) {written : List σ} (whole : pieces.flatten = written) :
    read written = .ok (value, []) := by
  rw [← whole, ← List.append_nil pieces.flatten, reads.whole]

theorem congr (reads : ReadsBack read value pieces) {read' : List σ → Outcome (α × List σ)} (same : ∀ r, read' r = read r) :
    ReadsBack read' value pieces := by
  rwa [funext same]

end ReadsBack

def piece (written : List σ) : List (List σ) := if written = [] then [] else [written]

@[simp] theorem flatten_piece (written : List σ) : (piece written).flatten = written := by
  unfold piece
  split_ifs with empty <;> simp [empty]

end Go
