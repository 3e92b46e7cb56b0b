import Mathlib.Data.List.Nodup
import Mathlib.Logic.Relation
import Mathlib.Order.Lattice

namespace solution_library.replacing

variable {α κ ν : Type*}

/-- A row is dropped where a later one has its key. -/
inductive Drop (key : α → κ) : List α → List α → Prop where
  | drop (before : List α) (row : α) (after : List α) {last : α} (hlast : last ∈ after) (hkey : key last = key row) :
    Drop key (before ++ row :: after) (before ++ after)

/-- What may become of a table that keeps the last row of each key, and drops the others at any time. -/
def Merge (key : α → κ) : List α → List α → Prop :=
  Relation.ReflTransGen (Drop key)

variable [LinearOrder ν]

/-- A view shows one row of each key, of the greatest version. -/
structure Shows (key : α → κ) (version : α → ν) (rows view : List α) : Prop where
  nodup : (view.map key).Nodup
  mem : ∀ row ∈ view, row ∈ rows
  greatest : ∀ row ∈ view, ∀ other ∈ rows, key other = key row → version other ≤ version row
  shown : ∀ row ∈ rows, ∃ other ∈ view, key other = key row

/-- The rows of a key are inserted in the order of their versions, and a version is one row. -/
def Ordered (key : α → κ) (version : α → ν) (rows : List α) : Prop :=
  rows.Pairwise fun row later => key later = key row →
    version row ≤ version later ∧ (version row = version later → row = later)

/-- A view of a table: a row is left out where a later one is as new, and replaces the ones that are older. -/
def latest [DecidableEq κ] (key : α → κ) (version : α → ν) : List α → List α
  | [] => []
  | row :: rows =>
    if rows.any fun later => key later = key row ∧ version row ≤ version later then latest key version rows
    else row :: (latest key version rows).filter (key · ≠ key row)

section merge

variable {key : α → κ} {version : α → ν} {rows kept added view : List α} {row other : α}

theorem Drop.sublist (h : Drop key rows kept) : kept.Sublist rows := by
  cases h with
  | drop before row after =>
    exact (List.sublist_cons_self row after).append_left before

theorem Drop.append (h : Drop key rows kept) (added : List α) : Drop key (rows ++ added) (kept ++ added) := by
  cases h with
  | drop before row after hlast hkey =>
    rw [List.append_assoc, List.append_assoc, List.cons_append]
    exact .drop before row (after ++ added) (List.mem_append_left _ hlast) hkey

theorem Merge.sublist (h : Merge key rows kept) : kept.Sublist rows := by
  induction h with
  | refl => exact List.Sublist.refl _
  | tail _ hdrop ih => exact hdrop.sublist.trans ih

theorem Merge.append (h : Merge key rows kept) (added : List α) : Merge key (rows ++ added) (kept ++ added) := by
  induction h with
  | refl => exact .refl
  | tail _ hdrop ih => exact ih.tail (hdrop.append added)

theorem Ordered.sublist (h : Ordered key version rows) (hsublist : kept.Sublist rows) : Ordered key version kept :=
  List.Pairwise.sublist hsublist h

/-- Rows of one key and one version are the same row. -/
theorem Ordered.eq_of_version_eq (h : Ordered key version rows) (hrow : row ∈ rows) (hother : other ∈ rows)
    (hkey : key other = key row) (hversion : version other = version row) : other = row := by
  induction rows with
  | nil => exact absurd hrow List.not_mem_nil
  | cons first rows ih =>
    obtain ⟨hfirst, hrest⟩ := List.pairwise_cons.mp h
    obtain rfl | hrow_rest := List.mem_cons.mp hrow
    · obtain rfl | hother_rest := List.mem_cons.mp hother
      · rfl
      · exact ((hfirst other hother_rest hkey).2 hversion.symm).symm
    · obtain rfl | hother_rest := List.mem_cons.mp hother
      · exact (hfirst row hrow_rest hkey.symm).2 hversion
      · exact ih hrest hrow_rest hother_rest

/-- What is dropped leaves a row that is as new. -/
theorem Ordered.exists_of_drop (h : Ordered key version rows) (hdrop : Drop key rows kept) (hrow : row ∈ rows) :
    ∃ other ∈ kept, key other = key row ∧ version row ≤ version other := by
  cases hdrop with
  | drop before dropped after hlast hkey =>
    obtain hbefore | hrow := List.mem_append.mp hrow
    · exact ⟨row, List.mem_append_left _ hbefore, rfl, le_rfl⟩
    · obtain rfl | hafter := List.mem_cons.mp hrow
      · have hpair := (List.pairwise_append.mp h).2.1
        exact ⟨_, List.mem_append_right _ hlast, hkey, (List.rel_of_pairwise_cons hpair hlast hkey).1⟩
      · exact ⟨row, List.mem_append_right _ hafter, rfl, le_rfl⟩

theorem Ordered.exists_of_merge (h : Ordered key version rows) (hmerge : Merge key rows kept) (hrow : row ∈ rows) :
    ∃ other ∈ kept, key other = key row ∧ version row ≤ version other := by
  induction hmerge with
  | refl => exact ⟨row, hrow, rfl, le_rfl⟩
  | tail hmerge hdrop ih =>
    obtain ⟨between, hbetween, hkey, hle⟩ := ih
    obtain ⟨other, hother, hother_key, hother_le⟩ := (h.sublist (Merge.sublist hmerge)).exists_of_drop hdrop hbetween
    exact ⟨other, hother, hother_key.trans hkey, hle.trans hother_le⟩

/-- A table that is ordered has the same views before and after any merge. -/
theorem Ordered.shows_iff_of_merge (h : Ordered key version rows) (hmerge : Merge key rows kept) :
    Shows key version kept view ↔ Shows key version rows view := by
  have hsubset := hmerge.sublist.subset
  constructor
  · intro hshows
    refine ⟨hshows.nodup, fun row hrow => hsubset (hshows.mem row hrow), fun row hrow other hother hkey => ?_,
      fun row hrow => ?_⟩
    · obtain ⟨newer, hnewer, hnewer_key, hle⟩ := h.exists_of_merge hmerge hother
      exact hle.trans (hshows.greatest row hrow newer hnewer (hnewer_key.trans hkey))
    · obtain ⟨newer, hnewer, hnewer_key, _⟩ := h.exists_of_merge hmerge hrow
      obtain ⟨shown, hshown, hshown_key⟩ := hshows.shown newer hnewer
      exact ⟨shown, hshown, hshown_key.trans hnewer_key⟩
  · intro hshows
    refine ⟨hshows.nodup, fun row hrow => ?_, fun row hrow other hother => ?_, fun row hrow => ?_⟩
    rotate_left
    · exact hshows.greatest row hrow other (hsubset hother)
    · exact hshows.shown row (hsubset hrow)
    obtain ⟨newer, hnewer, hkey, hle⟩ := h.exists_of_merge hmerge (hshows.mem row hrow)
    have hge := hshows.greatest row hrow newer (hsubset hnewer) hkey
    have hsame := h.eq_of_version_eq (hshows.mem row hrow) (hsubset hnewer) hkey (le_antisymm hge hle)
    exact hsame ▸ hnewer

/-- Rows that their keys determine are all kept. -/
theorem subset_of_merge (hmerge : Merge key rows kept)
    (hkey : ∀ row ∈ rows, ∀ other ∈ rows, key other = key row → other = row) : rows ⊆ kept := by
  induction hmerge with
  | refl => exact List.Subset.refl _
  | tail hmerge hdrop ih =>
    refine List.Subset.trans ih fun row hrow => ?_
    have hsubset := (Merge.sublist hmerge).subset
    cases hdrop with
    | drop before dropped after hlast heq =>
      obtain hbefore | hrow := List.mem_append.mp hrow
      · exact List.mem_append_left _ hbefore
      · obtain rfl | hafter := List.mem_cons.mp hrow
        · have hmem : _ ∈ rows := hsubset (List.mem_append_right _ (List.mem_cons_of_mem _ hlast))
          have hsame := hkey _ (hsubset (List.mem_append_right _ List.mem_cons_self)) _ hmem heq
          exact List.mem_append_right _ (hsame ▸ hlast)
        · exact List.mem_append_right _ hafter

end merge

section latest

variable [DecidableEq κ] {key : α → κ} {version : α → ν}

theorem latest_shows (rows : List α) : Shows key version rows (latest key version rows) := by
  induction rows with
  | nil =>
    have hnone (row : α) (h : row ∈ ([] : List α)) {property : Prop} : property := absurd h List.not_mem_nil
    exact ⟨List.nodup_nil, fun _ h => h, fun row h => hnone row h, fun row h => hnone row h⟩
  | cons row rows ih =>
    rw [latest]
    split_ifs with hlater
    · obtain ⟨later, hlater, hnewer⟩ := List.any_eq_true.mp hlater
      obtain ⟨hkey, hle⟩ := of_decide_eq_true hnewer
      refine ⟨ih.nodup, fun other hother => List.mem_cons_of_mem _ (ih.mem other hother), fun shown hshown => ?_, ?_⟩
      · refine List.forall_mem_cons.mpr ⟨fun heq => ?_, ih.greatest shown hshown⟩
        exact hle.trans (ih.greatest shown hshown later hlater (hkey.trans heq))
      · refine List.forall_mem_cons.mpr ⟨?_, ih.shown⟩
        obtain ⟨shown, hshown, hshown_key⟩ := ih.shown later hlater
        exact ⟨shown, hshown, hshown_key.trans hkey⟩
    · have hless : ∀ later ∈ rows, key later = key row → version later ≤ version row := by
        intro later hmem hkey
        by_contra hnot
        exact hlater (List.any_eq_true.mpr ⟨later, hmem, decide_eq_true ⟨hkey, (not_le.mp hnot).le⟩⟩)
      have hfilter (shown : α) : shown ∈ (latest key version rows).filter (key · ≠ key row) ↔
          shown ∈ latest key version rows ∧ key shown ≠ key row := by
        rw [List.mem_filter, decide_eq_true_eq]
      refine ⟨?_, ?_, ?_, ?_⟩
      · rw [List.map_cons, List.nodup_cons, List.mem_map]
        refine ⟨?_, ih.nodup.sublist (List.filter_sublist.map key)⟩
        rintro ⟨shown, hshown, hkey⟩
        exact ((hfilter shown).mp hshown).2 hkey
      · refine List.forall_mem_cons.mpr ⟨List.mem_cons_self, fun shown hshown => ?_⟩
        exact List.mem_cons_of_mem _ (ih.mem shown ((hfilter shown).mp hshown).1)
      · refine List.forall_mem_cons.mpr ⟨List.forall_mem_cons.mpr ⟨fun _ => le_rfl, hless⟩, fun shown hshown => ?_⟩
        obtain ⟨hmem, hne⟩ := (hfilter shown).mp hshown
        exact List.forall_mem_cons.mpr ⟨fun heq => absurd heq.symm hne, ih.greatest shown hmem⟩
      · refine List.forall_mem_cons.mpr ⟨⟨row, List.mem_cons_self, rfl⟩, fun other hother => ?_⟩
        obtain ⟨shown, hshown, hkey⟩ := ih.shown other hother
        by_cases hrow : key shown = key row
        · exact ⟨row, List.mem_cons_self, hrow.symm.trans hkey⟩
        · exact ⟨shown, List.mem_cons_of_mem _ ((hfilter shown).mpr ⟨hshown, hrow⟩), hkey⟩

end latest

end solution_library.replacing
