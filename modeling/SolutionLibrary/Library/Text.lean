import Mathlib.Data.Char
import Mathlib.Data.List.DropRight
import Mathlib.Data.List.TakeWhile

namespace solution_library.text

abbrev Text := List Char

/-- A character stands before the first of the lines. -/
def prepend (c : Char) : List Text → List Text
  | [] => [[c]]
  | line :: others => (c :: line) :: others

/-- The lines of a text. A line ends with a line feed, a carriage return, or both;
the last one may end with the text. -/
def lines : Text → List Text
  | [] => []
  | '\r' :: '\n' :: rest => [] :: lines rest
  | '\r' :: rest => [] :: lines rest
  | '\n' :: rest => [] :: lines rest
  | c :: rest => prepend c (lines rest)

def isLineBreak (c : Char) : Bool :=
  c = '\r' || c = '\n'

/-- A text without the blanks at its ends. -/
def trim (blank : Char → Bool) (text : Text) : Text :=
  (text.dropWhile blank).rdropWhile blank

section lines

variable {c : Char} {text rest line : Text}

theorem isLineBreak_eq_false_iff : isLineBreak c = false ↔ c ≠ '\r' ∧ c ≠ '\n' := by
  simp [isLineBreak]

theorem lines_cons (h : isLineBreak c = false) : lines (c :: rest) = prepend c (lines rest) := by
  rw [isLineBreak_eq_false_iff] at h
  rw [lines]
  · exact fun _ hc _ => h.1 hc
  · exact h.1
  · exact h.2

theorem prepend_append {others : List Text} (h : others ≠ []) (more : List Text) :
    prepend c (others ++ more) = prepend c others ++ more := by
  cases others with
  | nil => exact absurd rfl h
  | cons line others => rfl

theorem lines_ne_nil (h : text ≠ []) : lines text ≠ [] := by
  fun_cases lines text with
  | case1 => exact absurd rfl h
  | case2 => simp
  | case3 => simp
  | case4 => simp
  | case5 c rest =>
    cases lines rest with
    | nil => simp [prepend]
    | cons => simp [prepend]

theorem lines_carriage_return (h : ∀ text, rest ≠ '\n' :: text) : lines ('\r' :: rest) = [] :: lines rest := by
  rw [lines]
  exact fun text htext => h text htext

/-- What follows a line feed is read on its own. -/
theorem lines_append (text rest : Text) : lines (text ++ '\n' :: rest) = lines (text ++ ['\n']) ++ lines rest := by
  fun_induction lines text with
  | case1 => rfl
  | case2 text ih => simpa [lines] using ih
  | case3 text h ih =>
    cases text with
    | nil => rfl
    | cons c text =>
      have hne (more : Text) : ∀ other, c :: (text ++ more) ≠ '\n' :: other := fun other heq =>
        h text (by cases heq; rfl)
      simp only [List.cons_append] at ih ⊢
      rw [lines_carriage_return (hne _), lines_carriage_return (hne _), ih, List.cons_append]
  | case4 text ih => simpa [lines] using ih
  | case5 c text h1 h2 h3 ih =>
    have hc : isLineBreak c = false := isLineBreak_eq_false_iff.mpr ⟨h2, h3⟩
    rw [List.cons_append, List.cons_append, lines_cons hc, lines_cons hc, ih, prepend_append (lines_ne_nil (by simp))]

/-- A text without line breaks is one line. -/
theorem lines_of_no_break (h : ∀ c ∈ text, isLineBreak c = false) (pre : Text) (hpre : pre = [] ∨ pre = ['\r']) :
    lines (text ++ (pre ++ ['\n'])) = [text] := by
  induction text with
  | nil =>
    obtain rfl | rfl := hpre
    · rfl
    · rfl
  | cons c text ih =>
    obtain ⟨hc, htext⟩ := List.forall_mem_cons.mp h
    rw [List.cons_append, lines_cons hc, ih htext]
    rfl

/-- No line has a line break. -/
theorem isLineBreak_of_mem_lines (h : line ∈ lines text) (hc : c ∈ line) : isLineBreak c = false := by
  fun_induction lines text generalizing line c with
  | case1 => cases h
  | case2 text ih =>
    obtain rfl | h := List.mem_cons.mp h
    · cases hc
    · exact ih h hc
  | case3 text _ ih =>
    obtain rfl | h := List.mem_cons.mp h
    · cases hc
    · exact ih h hc
  | case4 text ih =>
    obtain rfl | h := List.mem_cons.mp h
    · cases hc
    · exact ih h hc
  | case5 d text h1 h2 h3 ih =>
    have hd : isLineBreak d = false := isLineBreak_eq_false_iff.mpr ⟨h2, h3⟩
    cases hlines : lines text with
    | nil =>
      rw [hlines, prepend, List.mem_singleton] at h
      subst h
      rwa [List.mem_singleton.mp hc]
    | cons first others =>
      rw [hlines] at h ih
      obtain rfl | h := List.mem_cons.mp h
      · obtain rfl | hc := List.mem_cons.mp hc
        · exact hd
        · exact ih List.mem_cons_self hc
      · exact ih (List.mem_cons_of_mem _ h) hc

end lines

section trim

variable {blank : Char → Bool} {c : Char} {text : Text}

theorem trim_cons (h : blank c = true) : trim blank (c :: text) = trim blank text := by
  rw [trim, List.dropWhile_cons_of_pos h, trim]

theorem trim_trim (blank : Char → Bool) (text : Text) : trim blank (trim blank text) = trim blank text := by
  have hhead : (trim blank text).dropWhile blank = trim blank text := by
    rw [List.dropWhile_eq_self_iff]
    intro hlength
    have hprefix : trim blank text <+: text.dropWhile blank := List.rdropWhile_prefix _ _
    have hdrop := List.dropWhile_get_zero_not blank text (hlength.trans_le hprefix.length_le)
    rwa [List.get_eq_getElem, ← hprefix.getElem hlength] at hdrop
  conv_lhs => rw [trim, hhead]
  exact List.rdropWhile_idempotent _ _

theorem mem_of_mem_trim (h : c ∈ trim blank text) : c ∈ text :=
  (List.dropWhile_suffix blank).mem ((List.rdropWhile_prefix _ _).mem h)

theorem length_trim_le (blank : Char → Bool) (text : Text) : (trim blank text).length ≤ text.length :=
  (List.rdropWhile_prefix _ _).length_le.trans (List.dropWhile_suffix blank).length_le

end trim

section split

variable {sep c : Char} {text other : Text}

theorem splitOn_append (text other : Text) (sep : Char) :
    (text ++ sep :: other).splitOn sep = text.splitOn sep ++ other.splitOn sep := by
  simp only [List.splitOn_eq_splitOnP]
  exact List.splitOnP_append_cons text other (beq_self_eq_true sep)

theorem splitOn_of_not_mem (h : sep ∉ text) : text.splitOn sep = [text] := by
  rw [List.splitOn_eq_splitOnP]
  refine List.splitOnP_eq_singleton fun c hc => ?_
  rw [beq_eq_false_iff_ne]
  rintro rfl
  exact h hc

/-- A part of a text has characters of the text other than the separator. -/
theorem of_mem_splitOn (h : other ∈ text.splitOn sep) (hc : c ∈ other) : c ≠ sep ∧ c ∈ text := by
  rw [List.splitOn_eq_splitOnP] at h
  induction text generalizing other with
  | nil =>
    rw [List.mem_singleton.mp h] at hc
    cases hc
  | cons d text ih =>
    have hmem {part : Text} (hpart : part ∈ text.splitOnP (· == sep)) (hc : c ∈ part) : c ≠ sep ∧ c ∈ d :: text :=
      (ih hpart hc).imp_right (List.mem_cons_of_mem d)
    obtain ⟨first, others, hsplit⟩ := List.exists_cons_of_ne_nil (List.splitOnP_ne_nil (· == sep) text)
    rw [hsplit] at hmem
    rw [List.splitOnP_cons_eq_if_modifyHead, hsplit] at h
    split at h
    · obtain rfl | h := List.mem_cons.mp h
      · cases hc
      · exact hmem h hc
    · next hd =>
      obtain rfl | h := List.mem_cons.mp h
      · obtain rfl | hc := List.mem_cons.mp hc
        · exact ⟨fun heq => hd (by simp [heq]), List.mem_cons_self⟩
        · exact hmem List.mem_cons_self hc
      · exact hmem (List.mem_cons_of_mem _ h) hc

/-- What is appended without a separator belongs to the last part. -/
theorem exists_splitOn_append (sep : Char) (text : Text) : ∃ init last, ∀ other, sep ∉ other →
    (text ++ other).splitOn sep = init ++ [last ++ other] := by
  induction text with
  | nil => exact ⟨[], [], fun other h => splitOn_of_not_mem h⟩
  | cons c text ih =>
    obtain ⟨init, last, hsplit⟩ := ih
    have hcons (other : Text) (h : sep ∉ other) : (c :: text ++ other).splitOn sep =
        if c == sep then [] :: (init ++ [last ++ other]) else (init ++ [last ++ other]).modifyHead (c :: ·) := by
      rw [← hsplit other h, List.splitOn_eq_splitOnP, List.splitOn_eq_splitOnP]
      exact List.splitOnP_cons_eq_if_modifyHead c (text ++ other)
    by_cases hc : c == sep
    · exact ⟨[] :: init, last, fun other h => by rw [hcons other h, if_pos hc]; rfl⟩
    · cases init with
      | nil => exact ⟨[], c :: last, fun other h => by rw [hcons other h, if_neg hc]; rfl⟩
      | cons first init => exact ⟨(c :: first) :: init, last, fun other h => by rw [hcons other h, if_neg hc]; rfl⟩

end split

end solution_library.text
