import SolutionLibrary.Library.Invariant
import SolutionLibrary.Library.Substitution

open solution_library.invariant
open solution_library.substitution

namespace solution_library.provenance

variable {α : Type*}

/-- A character of a text with its position in the template, unless it was inserted. -/
abbrev Marked (α : Type*) := α × Option ℕ

def inserted (a : α) : Marked α :=
  (a, none)

/-- A piece of the template that begins at a position. -/
def number (start : ℕ) (text : List α) : List (Marked α) :=
  (text.zipIdx start).map fun c => (c.1, some c.2)

section number

variable {start m : ℕ} {text : List α} {c : Marked α}

theorem map_fst_number (start : ℕ) (text : List α) : (number start text).map Prod.fst = text := by
  rw [number, List.map_map]
  exact List.zipIdx_map_fst start text

theorem map_snd_number (start : ℕ) (text : List α) :
    (number start text).map Prod.snd = (List.range' start text.length).map some := by
  rw [number, List.map_map, ← List.zipIdx_map_snd start text, List.map_map]
  rfl

theorem length_number (start : ℕ) (text : List α) : (number start text).length = text.length := by
  simp [number]

theorem number_append (start : ℕ) (first second : List α) :
    number start (first ++ second) = number start first ++ number (start + first.length) second := by
  rw [number, List.zipIdx_append, List.map_append, number, number]

theorem bounds_of_mem_number (h : c ∈ number start text) (hmark : c.2 = some m) :
    start ≤ m ∧ m < start + text.length := by
  have hmem : c.2 ∈ (number start text).map Prod.snd := List.mem_map_of_mem h
  rw [map_snd_number, hmark] at hmem
  obtain ⟨n, hn, heq⟩ := List.mem_map.mp hmem
  cases heq
  exact List.mem_range'_1.mp hn

theorem number_middle (left pattern right : List α) : number 0 (left ++ pattern ++ right) =
    number 0 left ++ number left.length pattern ++ number (left.length + pattern.length) right := by
  rw [number_append, number_append, Nat.zero_add, Nat.zero_add, List.length_append]

/-- The character that a piece begins with. -/
theorem exists_of_piece {text : List (Marked α)} {j count : ℕ} {rest : List (Option ℕ)}
    (h : ((text.drop j).take count).map Prod.snd = some m :: rest) : ∃ c, text[j]? = some c ∧ c.2 = some m := by
  cases hdrop : text.drop j with
  | nil => simp [hdrop] at h
  | cons c later =>
    cases count with
    | zero => simp at h
    | succ count =>
      refine ⟨c, ?_, ?_⟩
      · rw [← List.head?_drop, hdrop, List.head?_cons]
      · rw [hdrop, List.take_succ_cons, List.map_cons] at h
        exact (List.cons.inj h).1

/-- The first character of a place is found nowhere else. -/
theorem eq_length_of_mark {left right : List (Marked α)} {j : ℕ} {pattern : List α}
    (hleft : ∀ c ∈ left, ∀ m, c.2 = some m → m < start)
    (hright : ∀ c ∈ right, ∀ m, c.2 = some m → start + pattern.length ≤ m) (hpattern : pattern ≠ [])
    (hc : (left ++ number start pattern ++ right)[j]? = some c) (hstart : c.2 = some start) : j = left.length := by
  obtain hlt | hle := Nat.lt_or_ge j left.length
  · rw [List.append_assoc, List.getElem?_append_left hlt] at hc
    exact absurd (hleft c (List.mem_of_getElem? hc) start hstart) (Nat.lt_irrefl start)
  · obtain ⟨k, rfl⟩ := Nat.exists_eq_add_of_le hle
    obtain ⟨a, more, rfl⟩ := List.exists_cons_of_ne_nil hpattern
    cases k with
    | zero => rfl
    | succ k =>
      have hlater : c ∈ number (start + 1) more ++ right := by
        rw [List.append_assoc, List.getElem?_append_right hle, Nat.add_sub_cancel_left] at hc
        exact List.mem_of_getElem? hc
      obtain hmem | hmem := List.mem_append.mp hlater
      · have hbounds := bounds_of_mem_number hmem hstart
        omega
      · have hbound := hright c hmem start hstart
        rw [List.length_cons] at hbound
        omega

end number

section occurs

variable {rule : Rule α} {template : List α} {i : ℕ}

theorem exists_of_occurs (h : Occurs rule.pattern template i) :
    ∃ left right, template = left ++ rule.pattern ++ right ∧ left.length = i := by
  obtain ⟨right, hright⟩ := id h
  refine ⟨template.take i, right, ?_, ?_⟩
  · rw [List.append_assoc, hright, List.take_append_drop]
  · have hle := h.length_le rule.ne_nil
    rw [List.length_take]
    omega

theorem occurs_middle (left pattern right : List α) : Occurs pattern (left ++ pattern ++ right) left.length := by
  rw [Occurs, List.append_assoc, List.drop_left]
  exact List.prefix_append _ _

end occurs

/-- Every pattern stands at one position of the template at most, apart from the other ones, and is taken out in
whole. -/
structure Separate (rules : List (Rule α)) (template : List α) : Prop where
  once : ∀ rule ∈ rules, ∀ i j, Occurs rule.pattern template i → Occurs rule.pattern template j → i = j
  apart : ∀ rule ∈ rules, ∀ other ∈ rules, rule ≠ other → ∀ i j, Occurs rule.pattern template i →
    Occurs other.pattern template j → i + rule.pattern.length ≤ j ∨ j + other.pattern.length ≤ i
  counted : ∀ rule ∈ rules, ∀ i, Occurs rule.pattern template i → rule.count = rule.pattern.length ∨
    rule.pattern.length < rule.count ∧ i + rule.pattern.length = template.length

/-- At its turn, a rule is a new one. -/
theorem turn_of_perm {rules before after : List (Rule α)} {rule : Rule α} (hnodup : rules.Nodup)
    (hperm : (before ++ rule :: after).Perm rules) :
    before ⊆ rules ∧ rule ∈ rules ∧ rule ∉ before ∧ (before ++ [rule] ++ after).Perm rules := by
  refine ⟨fun other hother => hperm.subset (List.mem_append_left _ hother),
    hperm.subset (List.mem_append_right _ List.mem_cons_self), fun hmem => ?_, ?_⟩
  · exact List.disjoint_of_nodup_append (hperm.nodup_iff.mpr hnodup) hmem List.mem_cons_self
  · rwa [List.append_assoc, List.singleton_append]

section separate

variable {rules others : List (Rule α)} {rule : Rule α}

/-- The template around the place of a pattern. -/
theorem Separate.placed {left right : List α} (h : Separate rules (left ++ rule.pattern ++ right))
    (hothers : others ⊆ rules) (hrule : rule ∈ rules) (hnot : rule ∉ others) :
    Placed Prod.fst others rule (number 0 left) (number left.length rule.pattern)
      (number (left.length + rule.pattern.length) right) := by
  have htext : (number 0 left ++ number left.length rule.pattern ++
      number (left.length + rule.pattern.length) right).map Prod.fst = left ++ rule.pattern ++ right := by
    rw [List.map_append, List.map_append, map_fst_number, map_fst_number, map_fst_number]
  have hoccurs := occurs_middle left rule.pattern right
  refine ⟨map_fst_number _ _, fun i hi => ?_, fun other hother i hi => ?_⟩
  · rw [htext] at hi
    rw [length_number]
    exact h.once rule hrule i _ hi hoccurs
  · rw [htext] at hi
    rw [length_number, length_number]
    have hne : other ≠ rule := fun heq => hnot (heq ▸ hother)
    exact h.apart other (hothers hother) rule hrule hne i _ hi hoccurs

end separate

variable [DecidableEq α]

/-- The pieces that a replacement takes out: one, or none. -/
def taken (text : List (Marked α)) (rule : Rule α) : List (List (Option ℕ)) :=
  match find rule.pattern (text.map Prod.fst) with
  | none => []
  | some i => [((text.drop i).take rule.count).map Prod.snd]

def occurrences (pattern template : List α) : List ℕ :=
  (List.range template.length).filter fun i => Occurs pattern template i

/-- The places of a pattern in the template. -/
def places (template : List α) (rule : Rule α) : List (List (Option ℕ)) :=
  (occurrences rule.pattern template).map fun i => (List.range' i rule.pattern.length).map some

/-- A replacement takes out every place of its pattern in the template, and nothing else. -/
def Own (template : List α) (text : List (Marked α)) (rule : Rule α) : Prop :=
  taken text rule = places template rule

/-- All patterns are replaced at once. -/
def replaceAll (rules : List (Rule α)) (text : List α) : List α :=
  instantiate id id rules 0 text

/-- With other patterns replaced, a pattern still is found first where the template has it. -/
def Fresh (template : List α) (others : List (Rule α)) (rule : Rule α) : Prop :=
  find rule.pattern (replaceAll others template) =
    (find rule.pattern template).map fun i => (replaceAll others (template.take i)).length

/-- The template with some patterns replaced. -/
def partly (template : List α) (rules : List (Rule α)) : List (Marked α) :=
  instantiate Prod.fst inserted rules 0 (number 0 template)

section step

variable {template : List α} {rules others : List (Rule α)} {rule : Rule α} {i : ℕ}

theorem mem_occurrences_iff : i ∈ occurrences rule.pattern template ↔ Occurs rule.pattern template i := by
  rw [occurrences, List.mem_filter, List.mem_range, decide_eq_true_eq]
  refine and_iff_right_of_imp fun h => ?_
  have hle := h.length_le rule.ne_nil
  have hpos := List.length_pos_iff.mpr rule.ne_nil
  omega

theorem places_of_not_occurs (h : ∀ i, ¬ Occurs rule.pattern template i) : places template rule = [] := by
  have hnone : occurrences rule.pattern template = [] :=
    List.eq_nil_iff_forall_not_mem.mpr fun i hi => h i (mem_occurrences_iff.mp hi)
  rw [places, hnone, List.map_nil]

theorem places_of_unique (h : Occurs rule.pattern template i) (hunique : ∀ j, Occurs rule.pattern template j → j = i) :
    places template rule = [(List.range' i rule.pattern.length).map some] := by
  have hone : occurrences rule.pattern template = [i] := by
    have hnodup : (occurrences rule.pattern template).Nodup := List.nodup_range.filter _
    apply List.perm_singleton.mp
    rw [List.perm_ext_iff_of_nodup hnodup (List.nodup_singleton i)]
    intro j
    rw [mem_occurrences_iff, List.mem_singleton]
    exact ⟨hunique j, fun heq => heq ▸ h⟩
  rw [places, hone, List.map_singleton]

theorem map_fst_partly (template : List α) (rules : List (Rule α)) :
    (partly template rules).map Prod.fst = replaceAll rules template := by
  rw [partly, map_instantiate (fun a => rfl), map_fst_number, replaceAll]

theorem bounds_of_mem_instantiate {start skip m : ℕ} {text : List α} {c : Marked α}
    (h : c ∈ instantiate Prod.fst inserted rules skip (number start text)) (hmark : c.2 = some m) :
    start ≤ m ∧ m < start + text.length := by
  obtain h | ⟨a, rfl⟩ := mem_instantiate h
  · exact bounds_of_mem_number h hmark
  · cases hmark

section middle

variable {left right : List α}

theorem Separate.find_middle (h : Separate rules (left ++ rule.pattern ++ right)) (hrule : rule ∈ rules) :
    find rule.pattern (left ++ rule.pattern ++ right) = some left.length :=
  find_eq_some_of_unique rule.ne_nil (occurs_middle ..) fun j hj => h.once rule hrule j _ hj (occurs_middle ..)

theorem Separate.places_middle (h : Separate rules (left ++ rule.pattern ++ right)) (hrule : rule ∈ rules) :
    places (left ++ rule.pattern ++ right) rule = [(List.range' left.length rule.pattern.length).map some] :=
  places_of_unique (occurs_middle ..) fun j hj => h.once rule hrule j _ hj (occurs_middle ..)

theorem Separate.partly_middle (h : Separate rules (left ++ rule.pattern ++ right)) (hothers : others ⊆ rules)
    (hrule : rule ∈ rules) (hnot : rule ∉ others) : partly (left ++ rule.pattern ++ right) others =
      partly left others ++ number left.length rule.pattern ++
        instantiate Prod.fst inserted others 0 (number (left.length + rule.pattern.length) right) := by
  rw [partly, number_middle, (h.placed hothers hrule hnot).instantiate_others, partly]

theorem Separate.fresh_middle_iff (h : Separate rules (left ++ rule.pattern ++ right)) (hrule : rule ∈ rules) :
    Fresh (left ++ rule.pattern ++ right) others rule ↔
      find rule.pattern ((partly (left ++ rule.pattern ++ right) others).map Prod.fst) =
        some (partly left others).length := by
  have hlength : (replaceAll others ((left ++ rule.pattern ++ right).take left.length)).length =
      (partly left others).length := by
    rw [List.append_assoc, List.take_left, ← map_fst_partly, List.length_map]
  rw [Fresh, h.find_middle hrule, Option.map_some, hlength, ← map_fst_partly]

/-- What is taken out at the place of a pattern, and what is left after it. -/
theorem Separate.split_middle (h : Separate rules (left ++ rule.pattern ++ right)) (hrule : rule ∈ rules) (start : ℕ) :
    let own := number left.length rule.pattern
    let rest := instantiate Prod.fst inserted others 0 (number start right)
    (own ++ rest).take rule.count = own ∧ (own ++ rest).drop rule.count = rest := by
  intro own rest
  have hlength : own.length = rule.pattern.length := length_number _ _
  obtain hcount | ⟨hcount, hend⟩ := h.counted rule hrule _ (occurs_middle ..)
  · exact ⟨List.take_left' (hlength.trans hcount.symm), List.drop_left' (hlength.trans hcount.symm)⟩
  · have hright : right = [] := by
      rw [List.length_append, List.length_append] at hend
      exact List.length_eq_zero_iff.mp (by omega)
    have hrest : rest = [] := by
      simp only [rest]
      rw [hright, number, List.zipIdx_nil, List.map_nil, instantiate]
    have hle : own.length ≤ rule.count := by omega
    rw [hrest, List.append_nil]
    exact ⟨List.take_of_length_le hle, List.drop_of_length_le hle⟩

/-- In a template with other patterns replaced, a replacement takes out the place of its pattern exactly when it still
finds it first. -/
theorem Separate.own_middle_iff (h : Separate rules (left ++ rule.pattern ++ right)) (hothers : others ⊆ rules)
    (hrule : rule ∈ rules) (hnot : rule ∉ others) :
    Own (left ++ rule.pattern ++ right) (partly (left ++ rule.pattern ++ right) others) rule ↔
      Fresh (left ++ rule.pattern ++ right) others rule := by
  obtain ⟨rest, hrange⟩ : ∃ rest, (List.range' left.length rule.pattern.length).map some =
      some left.length :: rest := by
    obtain ⟨a, more, hpattern⟩ := List.exists_cons_of_ne_nil rule.ne_nil
    rw [hpattern, List.length_cons, List.range'_succ, List.map_cons]
    exact ⟨_, rfl⟩
  rw [Own, h.fresh_middle_iff hrule, h.places_middle hrule, taken]
  constructor
  · intro hown
    cases hfind : find rule.pattern ((partly (left ++ rule.pattern ++ right) others).map Prod.fst) with
    | none =>
      rw [hfind] at hown
      cases hown
    | some j =>
      rw [hfind, hrange] at hown
      obtain ⟨c, hc, hmark⟩ := exists_of_piece (List.cons.inj hown).1
      rw [h.partly_middle hothers hrule hnot] at hc
      congr 1
      refine eq_length_of_mark (fun c hc m hm => ?_) (fun c hc m hm => ?_) rule.ne_nil hc hmark
      · have hbounds := bounds_of_mem_instantiate hc hm
        omega
      · exact (bounds_of_mem_instantiate hc hm).1
  · intro hfresh
    rw [hfresh, h.partly_middle hothers hrule hnot, List.append_assoc]
    simp only
    rw [List.drop_left, (h.split_middle hrule _).1, map_snd_number]

theorem Separate.replaceFirst_middle (h : Separate rules (left ++ rule.pattern ++ right)) (hothers : others ⊆ rules)
    (hrule : rule ∈ rules) (hnot : rule ∉ others) (hfresh : Fresh (left ++ rule.pattern ++ right) others rule) :
    replaceFirst Prod.fst inserted (partly (left ++ rule.pattern ++ right) others) rule =
      partly (left ++ rule.pattern ++ right) (others ++ [rule]) := by
  have hconcat : partly (left ++ rule.pattern ++ right) (others ++ [rule]) = partly left others ++
      rule.value.map inserted ++
        instantiate Prod.fst inserted others 0 (number (left.length + rule.pattern.length) right) := by
    rw [partly, number_middle, (h.placed hothers hrule hnot).instantiate_concat, partly]
  rw [replaceFirst, (h.fresh_middle_iff hrule).mp hfresh, hconcat, h.partly_middle hothers hrule hnot,
    List.append_assoc]
  simp only
  rw [List.take_left, List.drop_length_add_append, (h.split_middle hrule _).2]

end middle

/-- In a template with other patterns replaced, a replacement takes out the places of its pattern exactly when what it
finds first is not new. -/
theorem Separate.own_iff_fresh (h : Separate rules template) (hothers : others ⊆ rules) (hrule : rule ∈ rules)
    (hnot : rule ∉ others) : Own template (partly template others) rule ↔ Fresh template others rule := by
  by_cases hoccurs : ∃ i, Occurs rule.pattern template i
  · obtain ⟨i, hi⟩ := hoccurs
    obtain ⟨left, right, rfl, rfl⟩ := exists_of_occurs hi
    exact h.own_middle_iff hothers hrule hnot
  · have hnone : ∀ i, ¬ Occurs rule.pattern template i := not_exists.mp hoccurs
    rw [Own, Fresh, places_of_not_occurs hnone, (find_eq_none_iff rule.ne_nil).mpr hnone, Option.map_none, taken,
      map_fst_partly]
    cases find rule.pattern (replaceAll others template) with
    | none => exact iff_of_true rfl rfl
    | some j => exact iff_of_false (List.cons_ne_nil _ _) (Option.some_ne_none j)

/-- The step: one more pattern is replaced. -/
theorem Separate.replaceFirst_partly (h : Separate rules template) (hothers : others ⊆ rules) (hrule : rule ∈ rules)
    (hnot : rule ∉ others) (hfresh : Fresh template others rule) :
    replaceFirst Prod.fst inserted (partly template others) rule = partly template (others ++ [rule]) := by
  by_cases hoccurs : ∃ i, Occurs rule.pattern template i
  · obtain ⟨i, hi⟩ := hoccurs
    obtain ⟨left, right, rfl, rfl⟩ := exists_of_occurs hi
    exact h.replaceFirst_middle hothers hrule hnot hfresh
  · have hnone : ∀ i, ¬ Occurs rule.pattern template i := not_exists.mp hoccurs
    have hnumber : ∀ i, ¬ Occurs rule.pattern ((number 0 template).map Prod.fst) i := by rwa [map_fst_number]
    rw [Fresh, (find_eq_none_iff rule.ne_nil).mpr hnone, Option.map_none, ← map_fst_partly] at hfresh
    rw [replaceFirst, hfresh, partly, partly, instantiate_concat_of_not_occurs hnumber]

/-- The run: in an order of the rules, every replacement is of the own places exactly when every pattern is found first
where the template has it. -/
theorem Separate.along_iff {before after : List (Rule α)} (h : Separate rules template) (hnodup : rules.Nodup)
    (hperm : (before ++ after).Perm rules) :
    Along (replaceFirst Prod.fst inserted) (Own template) (partly template before) after ↔
      ∀ first rule second, after = first ++ rule :: second → Fresh template (before ++ first) rule := by
  induction after generalizing before with
  | nil => simp [Along]
  | cons rule after ih =>
    obtain ⟨hothers, hrule, hnot, hmoved⟩ := turn_of_perm hnodup hperm
    rw [Along, h.own_iff_fresh hothers hrule hnot]
    constructor
    · rintro ⟨hfresh, hrest⟩ first other second heq
      rw [h.replaceFirst_partly hothers hrule hnot hfresh, ih hmoved] at hrest
      cases first with
      | nil =>
        cases heq
        rwa [List.append_nil]
      | cons _ first =>
        cases heq
        have hlater := hrest first other second rfl
        rwa [List.append_assoc] at hlater
    · intro hall
      have hfresh : Fresh template before rule := by
        have hhere := hall [] rule after rfl
        rwa [List.append_nil] at hhere
      rw [h.replaceFirst_partly hothers hrule hnot hfresh, ih hmoved]
      refine ⟨hfresh, fun first other second heq => ?_⟩
      have hlater := hall (rule :: first) other second (by rw [heq, List.cons_append])
      rwa [List.append_assoc]

theorem partly_nil (template : List α) : partly template [] = number 0 template :=
  instantiate_of_not_occurs fun _ h => absurd h List.not_mem_nil

theorem Separate.along_number_iff {order : List (Rule α)} (h : Separate rules template) (hnodup : rules.Nodup)
    (hperm : order.Perm rules) : Along (replaceFirst Prod.fst inserted) (Own template) (number 0 template) order ↔
      ∀ before rule after, order = before ++ rule :: after → Fresh template before rule := by
  have hrun : ([] ++ order).Perm rules := hperm
  rw [← partly_nil, h.along_iff hnodup hrun]
  rfl

/-- A run that finds every pattern where the template has it replaces them all. -/
theorem Separate.foldl_partly {before after : List (Rule α)} (h : Separate rules template) (hnodup : rules.Nodup)
    (hperm : (before ++ after).Perm rules)
    (hfresh : ∀ first rule second, after = first ++ rule :: second → Fresh template (before ++ first) rule) :
    after.foldl (replaceFirst Prod.fst inserted) (partly template before) = partly template (before ++ after) := by
  induction after generalizing before with
  | nil => rw [List.foldl_nil, List.append_nil]
  | cons rule after ih =>
    obtain ⟨hothers, hrule, hnot, hmoved⟩ := turn_of_perm hnodup hperm
    have hhere := hfresh [] rule after rfl
    rw [List.append_nil] at hhere
    rw [List.foldl_cons, h.replaceFirst_partly hothers hrule hnot hhere, ih hmoved, List.append_assoc,
      List.singleton_append]
    intro first other second heq
    have hlater := hfresh (rule :: first) other second (by rw [heq, List.cons_append])
    rwa [List.append_assoc]

/-- Patterns that stand apart are replaced in any order. -/
theorem Separate.replaceAll_perm {order : List (Rule α)} (h : Separate rules template) (hperm : order.Perm rules) :
    replaceAll order template = replaceAll rules template := by
  apply instantiate_congr
  intro i
  apply List.find?_eq_find?_of_perm hperm
  rintro rule ⟨hrule, hoccurs⟩ other ⟨hother, hfound⟩
  rw [List.map_id, decide_eq_true_eq] at hoccurs hfound
  by_contra hne
  have hcases := h.apart rule (hperm.subset hrule) other (hperm.subset hother) hne i i hoccurs hfound
  have hpos := List.length_pos_iff.mpr rule.ne_nil
  have hpositive := List.length_pos_iff.mpr other.ne_nil
  omega

end step

section own

variable {template : List α} {text : List (Marked α)} {rule other : Rule α} {i j m : ℕ}

theorem once_of_own (h : Own template (number 0 template) rule) (hi : Occurs rule.pattern template i)
    (hj : Occurs rule.pattern template j) : i = j := by
  have hlength : (occurrences rule.pattern template).length ≤ 1 := by
    rw [← List.length_map (fun i => (List.range' i rule.pattern.length).map some), ← places, ← h, taken]
    split
    · exact Nat.zero_le 1
    · exact le_rfl
  rw [← mem_occurrences_iff] at hi hj
  cases hoccurrences : occurrences rule.pattern template with
  | nil =>
    rw [hoccurrences] at hi
    cases hi
  | cons first rest =>
    rw [hoccurrences, List.length_cons] at hlength
    have hrest : rest = [] := List.length_eq_zero_iff.mp (by omega)
    rw [hoccurrences, hrest, List.mem_singleton] at hi hj
    rw [hi, hj]

theorem find_of_own (h : Own template (number 0 template) rule) (hi : Occurs rule.pattern template i) :
    find rule.pattern ((number 0 template).map Prod.fst) = some i := by
  rw [map_fst_number]
  exact find_eq_some_of_unique rule.ne_nil hi fun j hj => once_of_own h hj hi

theorem counted_of_own (h : Own template (number 0 template) rule) (hi : Occurs rule.pattern template i) :
    rule.count = rule.pattern.length ∨
      rule.pattern.length < rule.count ∧ i + rule.pattern.length = template.length := by
  have hpiece : (((number 0 template).drop i).take rule.count).map Prod.snd =
      (List.range' i rule.pattern.length).map some := by
    have hown := h
    rw [Own, places_of_unique hi fun j hj => once_of_own h hj hi, taken, find_of_own h hi] at hown
    exact (List.cons.inj hown).1
  have hlength := congrArg List.length hpiece
  simp only [List.length_map, List.length_take, List.length_drop, length_number, List.length_range'] at hlength
  have hle := hi.length_le rule.ne_nil
  omega

/-- What is at a place has to be there when the place is taken out. -/
theorem mem_of_own (h : Own template text rule) (hi : Occurs rule.pattern template i) (hle : i ≤ m)
    (hlt : m < i + rule.pattern.length) : ∃ c ∈ text, c.2 = some m := by
  have hplace : (List.range' i rule.pattern.length).map some ∈ places template rule :=
    List.mem_map_of_mem (mem_occurrences_iff.mpr hi)
  rw [← h, taken] at hplace
  split at hplace
  · cases hplace
  · have hmark : some m ∈ (List.range' i rule.pattern.length).map some :=
      List.mem_map_of_mem (List.mem_range'_1.mpr ⟨hle, hlt⟩)
    rw [List.mem_singleton.mp hplace] at hmark
    obtain ⟨c, hc, hm⟩ := List.mem_map.mp hmark
    exact ⟨c, List.mem_of_mem_drop (List.mem_of_mem_take hc), hm⟩

theorem apart_of_own (h : Own template (number 0 template) rule) (hi : Occurs rule.pattern template i)
    (hnext : Own template (replaceFirst Prod.fst inserted (number 0 template) rule) other)
    (hj : Occurs other.pattern template j) :
    i + rule.pattern.length ≤ j ∨ j + other.pattern.length ≤ i := by
  by_contra hoverlap
  have hpos := List.length_pos_iff.mpr rule.ne_nil
  have hpositive := List.length_pos_iff.mpr other.ne_nil
  obtain ⟨c, hc, hm⟩ := mem_of_own (m := max i j) hnext hj (by omega) (by omega)
  have hcount := counted_of_own h hi
  rw [replaceFirst, find_of_own h hi] at hc
  obtain ⟨left, right, rfl, rfl⟩ := exists_of_occurs hi
  simp only [List.mem_append] at hc
  obtain (hc | hc) | hc := hc
  · rw [number_middle, List.append_assoc, List.take_left' (length_number 0 left)] at hc
    have hbounds := bounds_of_mem_number hc hm
    omega
  · obtain ⟨a, _, rfl⟩ := List.mem_map.mp hc
    cases hm
  · have hle : left.length + rule.pattern.length ≤ left.length + rule.count := by omega
    have hlater := List.drop_subset_drop_left _ hle hc
    have hlength : (number 0 left ++ number left.length rule.pattern).length = left.length + rule.pattern.length := by
      rw [List.length_append, length_number, length_number]
    rw [number_middle, List.drop_left' hlength] at hlater
    have hbounds := bounds_of_mem_number hlater hm
    omega

end own

/-- The patterns stand apart, and whichever others are replaced before, a pattern is found first where the template has
it. -/
structure Substitutable (rules : List (Rule α)) (template : List α) : Prop extends Separate rules template where
  fresh : ∀ before rule after, (before ++ rule :: after).Perm rules → Fresh template before rule

section substitutable

variable {rules order : List (Rule α)} {template : List α}

/-- In every order each replacement takes out its own places, exactly when the patterns can be substituted. -/
theorem along_iff_substitutable (hnodup : rules.Nodup) :
    (∀ order : List (Rule α), order.Perm rules →
      Along (replaceFirst Prod.fst inserted) (Own template) (number 0 template) order) ↔
        Substitutable rules template := by
  constructor
  · intro hall
    have hfirst : ∀ rule ∈ rules, Own template (number 0 template) rule := by
      intro rule hrule
      obtain ⟨before, after, rfl⟩ := List.append_of_mem hrule
      exact (hall (rule :: (before ++ after)) List.perm_middle.symm).1
    have hsecond : ∀ rule ∈ rules, ∀ other ∈ rules, rule ≠ other →
        Own template (replaceFirst Prod.fst inserted (number 0 template) rule) other := by
      intro rule hrule other hother hne
      obtain ⟨before, after, rfl⟩ := List.append_of_mem hrule
      have hrest : other ∈ before ++ after := by
        simp only [List.mem_append, List.mem_cons] at hother ⊢
        tauto
      obtain ⟨first, second, hsplit⟩ := List.append_of_mem hrest
      have hperm : (rule :: other :: (first ++ second)).Perm (before ++ rule :: after) := by
        apply List.Perm.trans _ List.perm_middle.symm
        rw [hsplit]
        exact List.perm_middle.symm.cons rule
      exact (hall _ hperm).2.1
    have hseparate : Separate rules template := {
      once := fun rule hrule i j hi hj => once_of_own (hfirst rule hrule) hi hj
      apart := fun rule hrule other hother hne i j hi hj =>
        apart_of_own (hfirst rule hrule) hi (hsecond rule hrule other hother hne) hj
      counted := fun rule hrule i hi => counted_of_own (hfirst rule hrule) hi }
    refine ⟨hseparate, fun before rule after hperm => ?_⟩
    exact (hseparate.along_number_iff hnodup hperm).mp (hall _ hperm) before rule after rfl
  · intro h order hperm
    rw [h.along_number_iff hnodup hperm]
    rintro before rule after rfl
    exact h.fresh before rule after hperm

/-- In every order the result is the simultaneous substitution. -/
theorem Substitutable.foldl_replaceFirst (h : Substitutable rules template) (hnodup : rules.Nodup)
    (hperm : order.Perm rules) : order.foldl (replaceFirst id id) template = replaceAll rules template := by
  have hstart : ([] ++ order).Perm rules := hperm
  have hrun := h.foldl_partly hnodup hstart fun before rule after heq => h.fresh before rule after (heq ▸ hperm)
  rw [partly_nil, List.nil_append] at hrun
  have hplain := congrArg (List.map Prod.fst) hrun
  rwa [map_foldl_replaceFirst (fun a => rfl), map_fst_number, map_fst_partly, h.replaceAll_perm hperm] at hplain

end substitutable

end solution_library.provenance
