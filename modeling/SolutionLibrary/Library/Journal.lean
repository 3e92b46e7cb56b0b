import Mathlib.Logic.Function.Basic

namespace solution_library.journal

variable {κ ν ω : Type*} [DecidableEq κ] (key : ω → κ) (value : ω → ν)

/-- The value of a key after a series of writes. -/
def last (writes : List ω) (k : κ) (v : ν) : ν :=
  writes.foldl (fun v write => if key write = k then value write else v) v

variable {key value} {writes : List ω} {k : κ}

theorem last_append (first second : List ω) (v : ν) :
    last key value (first ++ second) k v = last key value second k (last key value first k v) :=
  List.foldl_append ..

/-- Without a write to the key its value stays. -/
theorem last_of_forall_ne (h : ∀ write ∈ writes, key write ≠ k) (v : ν) : last key value writes k v = v := by
  induction writes with
  | nil => rfl
  | cons write writes ih =>
    obtain ⟨hhead, htail⟩ := List.forall_mem_cons.mp h
    rw [last, List.foldl_cons, if_neg hhead]
    exact ih htail

variable (value) in
/-- After a write to the key its value is that of one of the writes, whatever was
there before. -/
theorem exists_last (hwritten : ∃ write ∈ writes, key write = k) :
    ∃ write ∈ writes, key write = k ∧ ∀ old : ν, last key value writes k old = value write := by
  induction writes with
  | nil => simp at hwritten
  | cons write writes ih =>
    by_cases hrest : ∃ write ∈ writes, key write = k
    · obtain ⟨later, hmem, hkey, hlast⟩ := ih hrest
      exact ⟨later, List.mem_cons_of_mem _ hmem, hkey, fun old => hlast _⟩
    · have hnone : ∀ write ∈ writes, key write ≠ k := fun later hmem hkey => hrest ⟨later, hmem, hkey⟩
      have hkey : key write = k := by
        obtain ⟨written, hmem, hkey⟩ := hwritten
        obtain rfl | hmem := List.mem_cons.mp hmem
        · exact hkey
        · exact absurd hkey (hnone written hmem)
      refine ⟨write, List.mem_cons_self, hkey, fun old => ?_⟩
      rw [last, List.foldl_cons, ← last, last_of_forall_ne hnone, if_pos hkey]

/-- After writes of one value to the key, at least one, the key has that value. -/
theorem last_of_forall_eq {v : ν} (h : ∀ write ∈ writes, key write = k → value write = v)
    (hwritten : ∃ write ∈ writes, key write = k) (old : ν) : last key value writes k old = v := by
  obtain ⟨write, hmem, hkey, hlast⟩ := exists_last value hwritten
  rw [hlast, h write hmem hkey]

/-- A write to the key hides what was there before. -/
theorem last_congr (hwritten : ∃ write ∈ writes, key write = k) (first second : ν) :
    last key value writes k first = last key value writes k second := by
  obtain ⟨write, _, _, hlast⟩ := exists_last value hwritten
  rw [hlast, hlast]

/-- Writes of the value that the key has already change nothing. -/
theorem last_eq_self {v : ν} (h : ∀ write ∈ writes, key write = k → value write = v) :
    last key value writes k v = v := by
  by_cases hwritten : ∃ write ∈ writes, key write = k
  · exact last_of_forall_eq h hwritten v
  · exact last_of_forall_ne (fun write hmem hkey => hwritten ⟨write, hmem, hkey⟩) v

end solution_library.journal
