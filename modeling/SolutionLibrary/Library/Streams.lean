import Mathlib.Data.List.TakeWhile

namespace solution_library.streams

variable {α : Type*} [DecidableEq α]

/-- What is left of an input stream, and its end-of-file bit. -/
structure Stream (α : Type*) where
  rest : List α
  eof : Bool := false
  deriving DecidableEq

/-- One line up to a delimiter, which is taken out and left away. At the end of the file there is no line, and the last
line sets the bit if nothing delimits it. -/
def getline (delim : α) (stream : Stream α) : Option (List α × Stream α) :=
  if stream.eof then none
  else
    match stream.rest with
    | [] => none
    | first :: others =>
      match (first :: others).dropWhile (· ≠ delim) with
      | [] => some (first :: others, ⟨[], true⟩)
      | _ :: after => some ((first :: others).takeWhile (· ≠ delim), ⟨after, false⟩)

/-- The lines that a loop over `getline` gets. -/
def getlines (delim : α) : List α → List (List α)
  | [] => []
  | c :: rest =>
    if c = delim then [] :: getlines delim rest
    else
      match getlines delim rest with
      | [] => [[c]]
      | line :: others => (c :: line) :: others

section getline

variable {delim c : α} {line rest : List α}

theorem getline_append (h : delim ∉ line) (rest : List α) :
    getline delim ⟨line ++ delim :: rest, false⟩ = some (line, ⟨rest, false⟩) := by
  have hline : ∀ c ∈ line, (decide (c ≠ delim)) = true := fun c hc => decide_eq_true fun heq => h (heq ▸ hc)
  have hdrop : (line ++ delim :: rest).dropWhile (· ≠ delim) = delim :: rest := by
    rw [List.dropWhile_append_of_pos hline, List.dropWhile_cons_of_neg (by simp)]
  have htake : (line ++ delim :: rest).takeWhile (· ≠ delim) = line := by
    rw [List.takeWhile_append_of_pos hline, List.takeWhile_cons_of_neg (by simp), List.append_nil]
  rw [getline, if_neg Bool.false_ne_true]
  have hne : line ++ delim :: rest ≠ [] := List.append_ne_nil_of_right_ne_nil line (List.cons_ne_nil delim rest)
  obtain ⟨first, others, heq⟩ := List.exists_cons_of_ne_nil hne
  rw [heq] at hdrop htake ⊢
  dsimp only
  rw [hdrop]
  dsimp only
  rw [htake]

theorem getline_of_not_mem (h : delim ∉ line) (hne : line ≠ []) :
    getline delim ⟨line, false⟩ = some (line, ⟨[], true⟩) := by
  have hdrop : line.dropWhile (· ≠ delim) = [] :=
    List.dropWhile_eq_nil_iff.mpr fun c hc => decide_eq_true fun heq => h (heq ▸ hc)
  rw [getline, if_neg Bool.false_ne_true]
  obtain ⟨first, others, rfl⟩ := List.exists_cons_of_ne_nil hne
  dsimp only
  rw [hdrop]

theorem getline_nil (delim : α) (eof : Bool) : getline delim ⟨[], eof⟩ = none := by
  cases eof with
  | true => rfl
  | false => rfl

theorem getline_of_eof (delim : α) (rest : List α) : getline delim ⟨rest, true⟩ = none :=
  rfl

/-- A text has a first delimiter, or none. -/
theorem exists_delim (delim : α) (text : List α) :
    delim ∉ text ∨ ∃ line rest, text = line ++ delim :: rest ∧ delim ∉ line := by
  by_cases hmem : delim ∈ text
  · obtain ⟨line, rest, htext, hline⟩ := List.eq_append_cons_of_mem hmem
    exact .inr ⟨line, rest, htext, hline⟩
  · exact .inl hmem

end getline

section getlines

variable {delim c : α} {line rest text : List α}

theorem getlines_append (h : delim ∉ line) (rest : List α) :
    getlines delim (line ++ delim :: rest) = line :: getlines delim rest := by
  induction line with
  | nil => rw [List.nil_append, getlines, if_pos rfl]
  | cons c line ih =>
    obtain ⟨hc, hline⟩ := not_or.mp (mt List.mem_cons.mpr h)
    rw [List.cons_append, getlines, if_neg (Ne.symm hc), ih hline]

theorem not_mem_of_mem_getlines (h : line ∈ getlines delim text) : delim ∉ line := by
  induction text generalizing line with
  | nil => exact absurd h List.not_mem_nil
  | cons c text ih =>
    rw [getlines] at h
    split_ifs at h with hc
    · obtain rfl | h := List.mem_cons.mp h
      · exact List.not_mem_nil
      · exact ih h
    · cases hlines : getlines delim text with
      | nil =>
        rw [hlines] at h
        rw [List.mem_singleton.mp h]
        exact mt List.mem_cons.mp (not_or.mpr ⟨Ne.symm hc, List.not_mem_nil⟩)
      | cons first others =>
        rw [hlines] at h ih
        obtain rfl | h := List.mem_cons.mp h
        · exact mt List.mem_cons.mp (not_or.mpr ⟨Ne.symm hc, ih List.mem_cons_self⟩)
        · exact ih (List.mem_cons_of_mem _ h)

end getlines

end solution_library.streams
