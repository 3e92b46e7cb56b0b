import Mathlib.Data.List.Basic

namespace solution_library.overwriting

variable {α : Type*} {old written : List α}

/-- Writing at a position inside a content: what is there is replaced, what
follows stays. -/
def writeAt (content : List α) (position : ℕ) (items : List α) : List α :=
  content.take position ++ items ++ content.drop (position + items.length)

/-- What is written from the beginning of an old content that is not cut off. -/
def overwrite (old written : List α) : List α :=
  written ++ old.drop written.length

@[simp]
theorem writeAt_nil (content : List α) (position : ℕ) : writeAt content position [] = content := by
  simp [writeAt]

theorem writeAt_overwrite (old written items : List α) :
    writeAt (overwrite old written) written.length items = overwrite old (written ++ items) := by
  have htake : (overwrite old written).take written.length = written := List.take_left
  have hdrop : (overwrite old written).drop (written.length + items.length) = old.drop (written ++ items).length := by
    rw [overwrite, List.drop_append, List.drop_drop, List.length_append]
    simp
  rw [writeAt, htake, hdrop, overwrite]

/-- Nothing of the old content is left exactly when it is not longer. -/
theorem overwrite_eq_iff : overwrite old written = written ↔ old.length ≤ written.length := by
  rw [overwrite, List.append_right_eq_self, List.drop_eq_nil_iff]

end solution_library.overwriting
