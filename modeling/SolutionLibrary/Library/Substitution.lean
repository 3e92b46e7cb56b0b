import Mathlib.Data.List.Find
import Mathlib.Data.List.Nodup

namespace solution_library.substitution

variable {α β γ : Type*}

/-- A pattern, the value that comes in its place, and how many characters are taken out where the pattern begins. -/
structure Rule (α : Type*) where
  pattern : List α
  value : List α
  count : ℕ
  ne_nil : pattern ≠ []

/-- A pattern stands at a position of a text. -/
def Occurs (pattern text : List α) (i : ℕ) : Prop :=
  pattern <+: text.drop i

instance [DecidableEq α] (pattern text : List α) (i : ℕ) : Decidable (Occurs pattern text i) :=
  inferInstanceAs (Decidable (pattern <+: text.drop i))

section occurs

variable {pattern text : List α} {i : ℕ}

theorem not_occurs_nil (hpattern : pattern ≠ []) (i : ℕ) : ¬ Occurs pattern [] i := by
  rw [Occurs, List.drop_nil, List.prefix_nil]
  exact hpattern

theorem Occurs.length_le (h : Occurs pattern text i) (hpattern : pattern ≠ []) :
    i + pattern.length ≤ text.length := by
  have hle := List.IsPrefix.length_le h
  have hpos := List.length_pos_iff.mpr hpattern
  rw [List.length_drop] at hle
  omega

theorem occurs_zero_iff : Occurs pattern text 0 ↔ pattern <+: text := by
  rw [Occurs, List.drop_zero]

variable {char : β → α} {left right : List β}

theorem Occurs.append_right (h : Occurs pattern (left.map char) i) (hpattern : pattern ≠ []) (right : List β) :
    Occurs pattern ((left ++ right).map char) i := by
  have hle := h.length_le hpattern
  rw [List.map_append, Occurs, List.drop_append_of_le_length (by omega)]
  exact List.IsPrefix.trans h (List.prefix_append _ _)

theorem occurs_append_left_iff :
    Occurs pattern ((left ++ right).map char) (left.length + i) ↔ Occurs pattern (right.map char) i := by
  have hlength : left.length = (left.map char).length := by rw [List.length_map]
  rw [List.map_append, hlength, Occurs, List.drop_length_add_append, Occurs]

end occurs

/-- Where a pattern stands in a text, apart from the patterns of other rules. -/
structure Placed (char : β → α) (others : List (Rule α)) (rule : Rule α) (left own right : List β) : Prop where
  pattern : own.map char = rule.pattern
  unique : ∀ i, Occurs rule.pattern ((left ++ own ++ right).map char) i → i = left.length
  apart : ∀ other ∈ others, ∀ i, Occurs other.pattern ((left ++ own ++ right).map char) i →
    i + other.pattern.length ≤ left.length ∨ left.length + own.length ≤ i

section placed

variable {char : β → α} {others : List (Rule α)} {rule : Rule α} {left own right : List β}

theorem Placed.length_own (h : Placed char others rule left own right) : own.length = rule.pattern.length := by
  rw [← h.pattern, List.length_map]

theorem Placed.own_pos (h : Placed char others rule left own right) : 0 < own.length := by
  rw [h.length_own]
  exact List.length_pos_iff.mpr rule.ne_nil

theorem Placed.not_occurs_own (h : Placed char others rule left own right) :
    ∀ other ∈ others, ∀ i, ¬ Occurs other.pattern (own.map char) i := by
  intro other hother i hfound
  have hle := hfound.length_le other.ne_nil
  have hpos := List.length_pos_iff.mpr other.ne_nil
  have hcases := h.apart other hother _ ((occurs_append_left_iff.mpr hfound).append_right other.ne_nil right)
  rw [List.length_map] at hle
  omega

end placed

variable [DecidableEq α]

/-- The first position of a pattern. -/
def find (pattern : List α) : List α → Option ℕ
  | [] => none
  | c :: text => if pattern <+: c :: text then some 0 else (find pattern text).map (· + 1)

section find

variable {pattern text : List α} {i : ℕ}

theorem find_eq_none_iff (hpattern : pattern ≠ []) : find pattern text = none ↔ ∀ i, ¬ Occurs pattern text i := by
  induction text with
  | nil => exact iff_of_true rfl (not_occurs_nil hpattern)
  | cons c text ih =>
    rw [find]
    by_cases hhere : pattern <+: c :: text
    · rw [if_pos hhere]
      exact iff_of_false (Option.some_ne_none 0) fun h => h 0 (occurs_zero_iff.mpr hhere)
    · rw [if_neg hhere, Option.map_eq_none_iff, ih]
      constructor
      · intro h i
        cases i with
        | zero => rwa [occurs_zero_iff]
        | succ i => exact h i
      · exact fun h i => h (i + 1)

theorem occurs_of_find_eq_some (h : find pattern text = some i) : Occurs pattern text i := by
  induction text generalizing i with
  | nil => cases h
  | cons c text ih =>
    rw [find] at h
    split at h
    · next hhere =>
      cases h
      exact occurs_zero_iff.mpr hhere
    · obtain ⟨j, hfind, rfl⟩ := Option.map_eq_some_iff.mp h
      exact ih hfind

theorem find_eq_some_of_unique (hpattern : pattern ≠ []) (hoccurs : Occurs pattern text i)
    (hunique : ∀ j, Occurs pattern text j → j = i) : find pattern text = some i := by
  cases hfind : find pattern text with
  | none => exact absurd hoccurs ((find_eq_none_iff hpattern).mp hfind i)
  | some j => rw [hunique j (occurs_of_find_eq_some hfind)]

end find

/-- The first occurrence of the pattern is replaced, in a text of marked characters. -/
def replaceFirst (char : β → α) (mark : α → β) (text : List β) (rule : Rule α) : List β :=
  match find rule.pattern (text.map char) with
  | none => text
  | some i => text.take i ++ rule.value.map mark ++ text.drop (i + rule.count)

/-- All patterns are replaced at once, from left to right. -/
def instantiate (char : β → α) (mark : α → β) (rules : List (Rule α)) : ℕ → List β → List β
  | _, [] => []
  | skip + 1, _ :: text => instantiate char mark rules skip text
  | 0, c :: text =>
    match rules.find? fun rule => rule.pattern <+: (c :: text).map char with
    | some rule => rule.value.map mark ++ instantiate char mark rules (rule.pattern.length - 1) text
    | none => c :: instantiate char mark rules 0 text

section instantiate

variable {char : β → α} {mark : α → β} {rules others : List (Rule α)} {rule : Rule α} {skip : ℕ}
  {text first second : List β}

theorem instantiate_of_length_le (h : text.length ≤ skip) : instantiate char mark rules skip text = [] := by
  induction text generalizing skip with
  | nil => rw [instantiate]
  | cons c text ih =>
    cases skip with
    | zero => simp at h
    | succ skip =>
      rw [instantiate]
      exact ih (Nat.le_of_succ_le_succ h)

/-- What is done with a text depends on which rule applies at each position only. -/
theorem instantiate_congr (h : ∀ i, rules.find? (fun rule => Occurs rule.pattern (text.map char) i) =
    others.find? fun rule => Occurs rule.pattern (text.map char) i) (skip : ℕ) :
    instantiate char mark rules skip text = instantiate char mark others skip text := by
  induction text generalizing skip with
  | nil => rw [instantiate, instantiate]
  | cons c text ih =>
    have hrest := ih fun i => h (i + 1)
    cases skip with
    | succ skip => rw [instantiate, instantiate, hrest]
    | zero =>
      have hhere := h 0
      simp only [occurs_zero_iff] at hhere
      rw [instantiate, instantiate, hhere]
      simp only [hrest]

/-- A text without occurrences stays. -/
theorem instantiate_of_not_occurs (h : ∀ rule ∈ rules, ∀ i, ¬ Occurs rule.pattern (text.map char) i) :
    instantiate char mark rules 0 text = text := by
  induction text with
  | nil => rw [instantiate]
  | cons c text ih =>
    have hnone : rules.find? (fun rule => rule.pattern <+: (c :: text).map char) = none := by
      rw [List.find?_eq_none]
      intro rule hrule
      simpa [occurs_zero_iff] using h rule hrule 0
    rw [instantiate, hnone, ih fun rule hrule i => h rule hrule (i + 1)]

/-- A rule without occurrences adds nothing. -/
theorem instantiate_concat_of_not_occurs (h : ∀ i, ¬ Occurs rule.pattern (text.map char) i) :
    instantiate char mark (rules ++ [rule]) skip text = instantiate char mark rules skip text := by
  apply instantiate_congr
  intro i
  rw [List.find?_append, List.find?_singleton, if_neg (by simpa using h i), Option.or_none]

/-- Where no occurrence crosses, a text can be cut in two. -/
theorem instantiate_append (hskip : skip ≤ first.length) (h : ∀ rule ∈ rules, ∀ i < first.length,
    Occurs rule.pattern ((first ++ second).map char) i → i + rule.pattern.length ≤ first.length) :
    instantiate char mark rules skip (first ++ second) =
      instantiate char mark rules skip first ++ instantiate char mark rules 0 second := by
  induction first generalizing skip with
  | nil =>
    cases Nat.le_zero.mp hskip
    rw [instantiate, List.nil_append, List.nil_append]
  | cons c first ih =>
    have hrest : ∀ rule ∈ rules, ∀ i < first.length,
        Occurs rule.pattern ((first ++ second).map char) i → i + rule.pattern.length ≤ first.length := by
      intro rule hrule i hi hoccurs
      have hle := h rule hrule (i + 1) (Nat.succ_lt_succ hi) hoccurs
      rw [List.length_cons] at hle
      omega
    rw [List.cons_append]
    cases skip with
    | succ skip =>
      rw [instantiate, instantiate]
      exact ih (Nat.le_of_succ_le_succ hskip) hrest
    | zero =>
      have hhere : ∀ rule ∈ rules, rule.pattern <+: (c :: (first ++ second)).map char ↔
          rule.pattern <+: (c :: first).map char := by
        intro rule hrule
        rw [← List.cons_append, List.map_append]
        refine ⟨fun hprefix => ?_, fun hprefix => hprefix.trans (List.prefix_append _ _)⟩
        have hle := h rule hrule 0 (Nat.succ_pos _) (by rwa [occurs_zero_iff, List.map_append])
        exact List.prefix_of_prefix_length_le hprefix (List.prefix_append _ _) (by simpa using hle)
      have hfind : rules.find? (fun rule => rule.pattern <+: (c :: (first ++ second)).map char) =
          rules.find? fun rule => rule.pattern <+: (c :: first).map char :=
        List.find?_congr fun rule hrule => decide_eq_decide.mpr (hhere rule hrule)
      rw [instantiate, instantiate, hfind]
      cases hrule : rules.find? fun rule => rule.pattern <+: (c :: first).map char with
      | none =>
        simp only
        rw [ih (Nat.zero_le _) hrest, List.cons_append]
      | some rule =>
        have hprefix : rule.pattern <+: (c :: first).map char := by simpa using List.find?_some hrule
        have hle := hprefix.length_le
        rw [List.length_map, List.length_cons] at hle
        simp only
        rw [ih (by omega) hrest, List.append_assoc]

/-- A pattern itself becomes its value. -/
theorem instantiate_pattern (hfind : rules.find? (fun rule => rule.pattern <+: text.map char) = some rule)
    (htext : text.map char = rule.pattern) : instantiate char mark rules 0 text = rule.value.map mark := by
  cases text with
  | nil => exact absurd htext.symm rule.ne_nil
  | cons c text =>
    have hlength := congrArg List.length htext
    rw [List.length_map, List.length_cons] at hlength
    rw [instantiate, hfind]
    simp only
    rw [instantiate_of_length_le (by omega), List.append_nil]

omit [DecidableEq α] in
theorem map_map_mark (hmark : ∀ a, char (mark a) = a) (value : List α) : (value.map mark).map char = value.map id := by
  rw [List.map_map]
  exact List.map_congr_left fun a _ => hmark a

/-- The marks make no difference. -/
theorem map_instantiate (hmark : ∀ a, char (mark a) = a) (skip : ℕ) (text : List β) :
    (instantiate char mark rules skip text).map char = instantiate id id rules skip (text.map char) := by
  fun_induction instantiate char mark rules skip text with
  | case1 => rw [List.map_nil, instantiate]
  | case2 skip _ text ih => rw [ih, List.map_cons, instantiate]
  | case3 first text rule hfind ih =>
    rw [List.map_append, map_map_mark hmark, ih, List.map_cons, instantiate]
    simp only [List.map_id, ← List.map_cons, hfind]
  | case4 first text hfind ih =>
    rw [List.map_cons, ih, List.map_cons, instantiate]
    simp only [List.map_id, ← List.map_cons, hfind]

theorem map_replaceFirst (hmark : ∀ a, char (mark a) = a) (text : List β) (rule : Rule α) :
    (replaceFirst char mark text rule).map char = replaceFirst id id (text.map char) rule := by
  rw [replaceFirst, replaceFirst, List.map_id]
  cases find rule.pattern (text.map char) with
  | none => rfl
  | some i =>
    simp only
    rw [List.map_append, List.map_append, List.map_take, List.map_drop, map_map_mark hmark]

theorem map_foldl_replaceFirst (hmark : ∀ a, char (mark a) = a) (rules : List (Rule α)) (text : List β) :
    (rules.foldl (replaceFirst char mark) text).map char = rules.foldl (replaceFirst id id) (text.map char) := by
  induction rules generalizing text with
  | nil => rfl
  | cons rule rules ih => rw [List.foldl_cons, List.foldl_cons, ih, map_replaceFirst hmark]

theorem mem_instantiate {c : β} (h : c ∈ instantiate char mark rules skip text) : c ∈ text ∨ ∃ a, c = mark a := by
  fun_induction instantiate char mark rules skip text with
  | case1 => cases h
  | case2 skip _ text ih => exact (ih h).imp_left (List.mem_cons_of_mem _)
  | case3 first text rule _ ih =>
    obtain h | h := List.mem_append.mp h
    · obtain ⟨a, _, rfl⟩ := List.mem_map.mp h
      exact .inr ⟨a, rfl⟩
    · exact (ih h).imp_left (List.mem_cons_of_mem _)
  | case4 first text _ ih =>
    obtain rfl | h := List.mem_cons.mp h
    · exact .inl List.mem_cons_self
    · exact (ih h).imp_left (List.mem_cons_of_mem _)

end instantiate

section placed

variable {char : β → α} {mark : α → β} {others rules : List (Rule α)} {rule : Rule α} {left own right : List β}

/-- Around the place, the text is cut in three. -/
theorem Placed.instantiate_append_append (h : Placed char others rule left own right)
    (hrules : ∀ other ∈ rules, other ∈ others ∨ other = rule) :
    instantiate char mark rules 0 (left ++ own ++ right) =
      instantiate char mark rules 0 left ++ instantiate char mark rules 0 own ++
        instantiate char mark rules 0 right := by
  have hpos := h.own_pos
  have hlength := h.length_own
  have hoccurs : ∀ other ∈ rules, ∀ i, Occurs other.pattern ((left ++ own ++ right).map char) i →
      i + other.pattern.length ≤ left.length ∨ left.length ≤ i ∧ i + other.pattern.length ≤ left.length + own.length ∨
        left.length + own.length ≤ i := by
    intro other hother i hi
    obtain hmem | rfl := hrules other hother
    · obtain hleft | hright := h.apart other hmem i hi
      · exact .inl hleft
      · exact .inr (.inr hright)
    · rw [h.unique i hi]
      exact .inr (.inl ⟨le_rfl, by omega⟩)
  rw [instantiate_append (Nat.zero_le _), instantiate_append (Nat.zero_le _)]
  · intro other hother i hi hfound
    have hcases := hoccurs other hother i (hfound.append_right other.ne_nil right)
    omega
  · intro other hother i hi hfound
    have hcases := hoccurs other hother i hfound
    rw [List.length_append] at hi ⊢
    omega

/-- The other rules leave the place as it is. -/
theorem Placed.instantiate_others (h : Placed char others rule left own right) :
    instantiate char mark others 0 (left ++ own ++ right) =
      instantiate char mark others 0 left ++ own ++ instantiate char mark others 0 right := by
  have hown : instantiate char mark others 0 own = own := instantiate_of_not_occurs h.not_occurs_own
  rw [h.instantiate_append_append fun other hother => .inl hother, hown]

/-- With the rule, its value comes to the place. -/
theorem Placed.instantiate_concat (h : Placed char others rule left own right) :
    instantiate char mark (others ++ [rule]) 0 (left ++ own ++ right) =
      instantiate char mark others 0 left ++ rule.value.map mark ++ instantiate char mark others 0 right := by
  have hpos := h.own_pos
  have hleft : ∀ i, ¬ Occurs rule.pattern (left.map char) i := by
    intro i hfound
    have hle := hfound.length_le rule.ne_nil
    have hplace := h.unique i ((hfound.append_right rule.ne_nil own).append_right rule.ne_nil right)
    rw [List.length_map, ← h.length_own] at hle
    omega
  have hright : ∀ i, ¬ Occurs rule.pattern (right.map char) i := by
    intro i hfound
    have hplace := h.unique _ (occurs_append_left_iff.mpr hfound)
    rw [List.length_append] at hplace
    omega
  have hown : (others ++ [rule]).find? (fun other => other.pattern <+: own.map char) = some rule := by
    have hnone : others.find? (fun other => other.pattern <+: own.map char) = none := by
      rw [List.find?_eq_none]
      intro other hother
      simpa [occurs_zero_iff] using h.not_occurs_own other hother 0
    rw [List.find?_append, hnone, List.find?_singleton, h.pattern]
    simp
  rw [h.instantiate_append_append, instantiate_concat_of_not_occurs hleft, instantiate_concat_of_not_occurs hright,
    instantiate_pattern hown h.pattern]
  intro other hother
  obtain hother | hother := List.mem_append.mp hother
  · exact .inl hother
  · exact .inr (List.mem_singleton.mp hother)

end placed

end solution_library.substitution
