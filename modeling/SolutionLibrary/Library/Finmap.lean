import Mathlib.Data.Finmap

namespace solution_library.finmap

variable {α : Type*} {β : α → Type*} [DecidableEq α]

instance rightCommutative_erase : RightCommutative (fun (s : Finmap β) (a : α) => s.erase a) :=
  ⟨fun _ _ _ => Finmap.erase_erase⟩

/-- Erases every key of a set, one after another. Erasures commute, so the
order in which the set is traversed is immaterial. -/
def eraseAll (s : Finmap β) (keys : Finset α) : Finmap β :=
  keys.val.foldl (fun s a => s.erase a) s

theorem lookup_foldl_erase (l : List α) (s : Finmap β) (a : α) :
    (l.foldl (fun s a => s.erase a) s).lookup a = if a ∈ l then none else s.lookup a := by
  induction l generalizing s with
  | nil => simp
  | cons b l ih =>
    rw [List.foldl_cons, ih]
    by_cases hl : a ∈ l
    · simp [hl]
    · by_cases hb : a = b
      · subst hb
        simp
      · simp [hl, hb, Finmap.lookup_erase_ne hb]

/-- Erasing a set of keys forgets exactly those keys. -/
@[simp] theorem lookup_eraseAll (s : Finmap β) (keys : Finset α) (a : α) :
    (eraseAll s keys).lookup a = if a ∈ keys then none else s.lookup a := by
  obtain ⟨m, hm⟩ := keys
  induction m using Quotient.inductionOn with
  | h l => exact lookup_foldl_erase l s a

@[simp] theorem mem_eraseAll (s : Finmap β) (keys : Finset α) (a : α) :
    a ∈ eraseAll s keys ↔ a ∈ s ∧ a ∉ keys := by
  by_cases ha : a ∈ keys <;> simp [← Finmap.lookup_isSome, ha]

/-- Erasing keys that are absent leaves the map unchanged. -/
theorem eraseAll_eq_self {s : Finmap β} {keys : Finset α} (h : ∀ a ∈ keys, a ∉ s) :
    eraseAll s keys = s := by
  apply Finmap.ext_lookup
  intro a
  rw [lookup_eraseAll]
  split
  · next ha => exact (Finmap.lookup_eq_none.mpr (h a ha)).symm
  · rfl

end solution_library.finmap
