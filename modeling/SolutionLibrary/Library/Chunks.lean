import Mathlib.Algebra.Order.BigOperators.Group.List
import Mathlib.Algebra.Order.Group.Nat
import Mathlib.Algebra.Ring.Nat

namespace solution_library.chunks

variable {α : Type*}

/-- The parts of a list that is split after every element with a property. -/
structure IsSplit (p : α → Bool) (xs : List α) (parts : List (List α)) : Prop where
  flatten : parts.flatten = xs
  inside : ∀ part ∈ parts, ∀ a ∈ part.dropLast, p a = false
  ends : ∀ part ∈ parts.dropLast, ∃ init a, part = init ++ [a] ∧ p a = true

def splitAfter (p : α → Bool) : List α → List (List α)
  | [] => [[]]
  | a :: rest =>
    if p a then [a] :: splitAfter p rest
    else (splitAfter p rest).modifyHead (a :: ·)

section splitAfter

variable {p : α → Bool} {xs part : List α}

theorem splitAfter_ne_nil (p : α → Bool) (xs : List α) : splitAfter p xs ≠ [] := by
  induction xs with
  | nil => exact List.cons_ne_nil _ _
  | cons a rest ih =>
    rw [splitAfter]
    split
    · exact List.cons_ne_nil _ _
    · obtain ⟨first, others, hsplit⟩ := List.exists_cons_of_ne_nil ih
      rw [hsplit]
      exact List.cons_ne_nil _ _

theorem flatten_splitAfter (p : α → Bool) (xs : List α) : (splitAfter p xs).flatten = xs := by
  induction xs with
  | nil => rfl
  | cons a rest ih =>
    rw [splitAfter]
    split
    · rw [List.flatten_cons, ih, List.singleton_append]
    · obtain ⟨first, others, hsplit⟩ := List.exists_cons_of_ne_nil (splitAfter_ne_nil p rest)
      rw [hsplit] at ih ⊢
      rw [List.modifyHead_cons, List.flatten_cons, List.cons_append, ← ih, List.flatten_cons]

theorem not_of_mem_splitAfter (h : part ∈ splitAfter p xs) : ∀ a ∈ part.dropLast, p a = false := by
  induction xs generalizing part with
  | nil =>
    rw [List.mem_singleton.mp h]
    exact fun a ha => absurd ha List.not_mem_nil
  | cons a rest ih =>
    rw [splitAfter] at h
    split at h
    · obtain rfl | h := List.mem_cons.mp h
      · exact fun b hb => absurd hb List.not_mem_nil
      · exact ih h
    · next ha =>
      obtain ⟨first, others, hsplit⟩ := List.exists_cons_of_ne_nil (splitAfter_ne_nil p rest)
      rw [hsplit] at h ih
      obtain rfl | h := List.mem_cons.mp h
      · cases first with
        | nil => exact fun b hb => absurd hb List.not_mem_nil
        | cons b first =>
          rw [List.dropLast_cons_cons]
          exact List.forall_mem_cons.mpr ⟨Bool.eq_false_iff.mpr ha, ih List.mem_cons_self⟩
      · exact ih (List.mem_cons_of_mem _ h)

theorem exists_of_mem_dropLast_splitAfter (h : part ∈ (splitAfter p xs).dropLast) :
    ∃ init a, part = init ++ [a] ∧ p a = true := by
  induction xs generalizing part with
  | nil => cases h
  | cons a rest ih =>
    rw [splitAfter] at h
    obtain ⟨first, others, hsplit⟩ := List.exists_cons_of_ne_nil (splitAfter_ne_nil p rest)
    rw [hsplit] at h ih
    split at h
    · next ha =>
      rw [List.dropLast_cons_cons] at h
      obtain rfl | h := List.mem_cons.mp h
      · exact ⟨[], a, rfl, ha⟩
      · exact ih h
    · rw [List.modifyHead_cons] at h
      cases others with
      | nil => cases h
      | cons second others =>
        rw [List.dropLast_cons_cons] at h ih
        obtain rfl | h := List.mem_cons.mp h
        · obtain ⟨init, b, rfl, hb⟩ := ih List.mem_cons_self
          exact ⟨a :: init, b, rfl, hb⟩
        · exact ih (List.mem_cons_of_mem _ h)

theorem isSplit_splitAfter (p : α → Bool) (xs : List α) : IsSplit p xs (splitAfter p xs) where
  flatten := flatten_splitAfter p xs
  inside _ := not_of_mem_splitAfter
  ends _ := exists_of_mem_dropLast_splitAfter

end splitAfter

/-- The weight of a group. -/
def total (weight : α → ℕ) (group : List α) : ℕ :=
  (group.map weight).sum

/-- Items are put into a group one after another; the next group begins with the item that would exceed the capacity. -/
def fill (capacity : ℕ) (weight : α → ℕ) (current : List α) : List α → List (List α)
  | [] => if current = [] then [] else [current]
  | item :: rest =>
    if capacity < total weight current + weight item then current :: fill capacity weight [item] rest
    else fill capacity weight (current ++ [item]) rest

/-- Where a group begins: at the first item, and at an item that no longer fits into the group before it. -/
inductive Begins (capacity : ℕ) (weight : α → ℕ) (items : List α) : List α → Prop where
  | first : Begins capacity weight items items
  | next {group : List α} {item : α} {rest : List α} (h : Begins capacity weight items (group ++ item :: rest))
      (hfits : total weight group ≤ capacity) (hexceeds : capacity < total weight group + weight item) :
      Begins capacity weight items (item :: rest)

section fill

variable {capacity limit : ℕ} {weight : α → ℕ} {current items group rest : List α} {item : α}

@[simp]
theorem total_nil : total weight ([] : List α) = 0 := rfl

@[simp]
theorem total_append (first second : List α) :
    total weight (first ++ second) = total weight first + total weight second := by
  rw [total, List.map_append, List.sum_append, total, total]

@[simp]
theorem total_singleton (item : α) : total weight [item] = weight item := by
  simp [total]

theorem weight_le_total (h : item ∈ group) : weight item ≤ total weight group :=
  List.le_sum_of_mem (List.mem_map_of_mem h)

/-- Filling drops, repeats and reorders nothing. -/
theorem flatten_fill (capacity : ℕ) (weight : α → ℕ) (current items : List α) :
    (fill capacity weight current items).flatten = current ++ items := by
  induction items generalizing current with
  | nil =>
    rw [fill]
    split
    · next h => rw [h]; rfl
    · rw [List.flatten_singleton, List.append_nil]
  | cons item rest ih =>
    rw [fill]
    split
    · rw [List.flatten_cons, ih, List.singleton_append]
    · rw [ih, List.append_assoc, List.singleton_append]

theorem fill_append (h : total weight (current ++ group) ≤ capacity) (rest : List α) :
    fill capacity weight current (group ++ rest) = fill capacity weight (current ++ group) rest := by
  induction group generalizing current with
  | nil => rw [List.nil_append, List.append_nil]
  | cons item group ih =>
    have hsplit : current ++ item :: group = current ++ [item] ++ group := by simp
    rw [hsplit] at h ⊢
    have hitem : total weight current + weight item ≤ capacity := by
      simp only [total_append, total_singleton] at h
      omega
    rw [List.cons_append, fill, if_neg (Nat.not_lt.mpr hitem), ih h]

/-- Items that take up room begin a new group after a full one. -/
theorem fill_of_full (hfull : total weight current = capacity) (hcurrent : current ≠ [])
    (hitems : ∀ item ∈ items, 0 < weight item ∧ weight item ≤ capacity) :
    fill capacity weight current items = current :: fill capacity weight [] items := by
  cases items with
  | nil => rw [fill, if_neg hcurrent, fill, if_pos rfl]
  | cons item rest =>
    obtain ⟨hpos, hle⟩ := hitems item List.mem_cons_self
    have hexceeds : capacity < total weight current + weight item := by omega
    have hroom : ¬ capacity < total weight [] + weight item := by
      rw [total_nil]
      omega
    rw [fill, if_pos hexceeds, fill, if_neg hroom, List.nil_append]

theorem exists_mem_fill (h : current ≠ []) (items : List α) :
    ∃ group ∈ fill capacity weight current items, current <+: group := by
  induction items generalizing current with
  | nil =>
    rw [fill, if_neg h]
    exact ⟨current, List.mem_singleton_self _, List.prefix_rfl⟩
  | cons item rest ih =>
    rw [fill]
    split
    · exact ⟨current, List.mem_cons_self, List.prefix_rfl⟩
    · obtain ⟨group, hgroup, hprefix⟩ := ih (List.append_ne_nil_of_right_ne_nil current (List.cons_ne_nil item []))
      exact ⟨group, hgroup, (List.prefix_append current [item]).trans hprefix⟩

/-- No group is empty when every item fits into one. -/
theorem ne_nil_of_mem_fill (hitems : ∀ item ∈ items, weight item ≤ capacity)
    (hgroup : group ∈ fill capacity weight current items) : group ≠ [] := by
  induction items generalizing current with
  | nil =>
    rw [fill] at hgroup
    split at hgroup
    · cases hgroup
    · next h => rwa [List.mem_singleton.mp hgroup]
  | cons item rest ih =>
    obtain ⟨hitem, hrest⟩ := List.forall_mem_cons.mp hitems
    rw [fill] at hgroup
    split at hgroup
    · next hexceeds =>
      obtain rfl | hgroup := List.mem_cons.mp hgroup
      · rintro rfl
        simp only [total_nil] at hexceeds
        omega
      · exact ih hrest hgroup
    · exact ih hrest hgroup

/-- A group begins where the description says, and is within the capacity. -/
theorem begins_of_mem_fill (hitems : ∀ item ∈ rest, weight item ≤ capacity)
    (hbegins : Begins capacity weight items (current ++ rest)) (hfits : total weight current ≤ capacity)
    (hgroup : group ∈ fill capacity weight current rest) :
    total weight group ≤ capacity ∧ ∃ after, Begins capacity weight items (group ++ after) := by
  induction rest generalizing current with
  | nil =>
    rw [fill] at hgroup
    split at hgroup
    · cases hgroup
    · rw [List.mem_singleton.mp hgroup]
      exact ⟨hfits, [], hbegins⟩
  | cons item rest ih =>
    obtain ⟨hitem, hrest⟩ := List.forall_mem_cons.mp hitems
    rw [fill] at hgroup
    split at hgroup
    · next hexceeds =>
      obtain rfl | hgroup := List.mem_cons.mp hgroup
      · exact ⟨hfits, item :: rest, hbegins⟩
      · exact ih hrest (.next hbegins hfits hexceeds) (by simpa using hitem) hgroup
    · next hroom =>
      apply ih hrest _ _ hgroup
      · rwa [List.append_assoc, List.singleton_append]
      · rw [total_append, total_singleton]
        omega

theorem Begins.suffix (h : Begins capacity weight items rest) : rest <:+ items := by
  induction h with
  | first => exact List.suffix_rfl
  | next _ _ _ ih => exact (List.suffix_append _ _).trans ih

/-- Filling from where a group begins gives the groups from there on. -/
theorem mem_fill_of_begins (hitems : ∀ item ∈ items, weight item ≤ capacity)
    (hbegins : Begins capacity weight items rest) (hgroup : group ∈ fill capacity weight [] rest) :
    group ∈ fill capacity weight [] items := by
  induction hbegins with
  | first => exact hgroup
  | @next line item rest hbegins hfits hexceeds ih =>
    have hitem : weight item ≤ capacity :=
      hitems item (hbegins.suffix.mem (List.mem_append_right line List.mem_cons_self))
    have hempty : ¬ capacity < total weight [] + weight item := by
      rw [total_nil]
      omega
    rw [fill, if_neg hempty, List.nil_append] at hgroup
    apply ih
    rw [fill_append (by rwa [List.nil_append]), List.nil_append, fill, if_pos hexceeds]
    exact List.mem_cons_of_mem _ hgroup

/-- The groups keep a limit below the capacity exactly when each item does, and no group is filled beyond the limit. -/
theorem fill_le_iff (hlimit : limit ≤ capacity) :
    (∀ group ∈ fill capacity weight [] items, total weight group ≤ limit) ↔
      (∀ item ∈ items, weight item ≤ limit) ∧
        ∀ group rest, Begins capacity weight items (group ++ rest) → total weight group ≤ capacity →
          total weight group ≤ limit := by
  constructor
  · intro h
    have hitems : ∀ item ∈ items, weight item ≤ limit := by
      intro item hitem
      rw [← List.nil_append items, ← flatten_fill capacity weight [] items] at hitem
      obtain ⟨group, hgroup, hmem⟩ := List.mem_flatten.mp hitem
      exact (weight_le_total hmem).trans (h group hgroup)
    refine ⟨hitems, fun group rest hbegins hfits => ?_⟩
    have hfill {other : List α} (hother : other ∈ fill capacity weight [] (group ++ rest)) :
        total weight other ≤ limit :=
      h other (mem_fill_of_begins (fun item hitem => (hitems item hitem).trans hlimit) hbegins hother)
    rw [fill_append (by rwa [List.nil_append]), List.nil_append] at hfill
    by_cases hempty : group = []
    · rw [hempty, total_nil]
      exact Nat.zero_le limit
    · obtain ⟨other, hother, more, rfl⟩ := exists_mem_fill hempty rest
      have hle := hfill hother
      rw [total_append] at hle
      omega
  · rintro ⟨hitems, hgroups⟩ group hgroup
    have hsmall : ∀ item ∈ items, weight item ≤ capacity := fun item hitem => (hitems item hitem).trans hlimit
    obtain ⟨hfits, after, hbegins⟩ := begins_of_mem_fill hsmall .first (Nat.zero_le _) hgroup
    exact hgroups group after hbegins hfits

end fill

end solution_library.chunks
