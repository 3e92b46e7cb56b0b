import Mathlib.Data.List.Basic
import SolutionLibrary.Library.Text

namespace solution_library.tsv

open text

/-- A part of a tab-separated text: a character of a cell, the end of a cell, the end of a row. -/
inductive Token where
  | char (c : Char)
  | tab
  | newline
  deriving DecidableEq

def isHexDigit (c : Char) : Bool :=
  c.isDigit || ('a' ≤ c && c ≤ 'f') || ('A' ≤ c && c ≤ 'F')

def hexValue (c : Char) : ℕ :=
  if c.isDigit then c.toNat - '0'.toNat
  else if 'a' ≤ c then c.toNat - 'a'.toNat + 10
  else c.toNat - 'A'.toNat + 10

/-- The character that a backslash and the given one stand for. -/
def unescape : Char → Char
  | 'a' => '\x07'
  | 'b' => '\x08'
  | 'f' => '\x0c'
  | 'n' => '\n'
  | 'r' => '\r'
  | 't' => '\t'
  | 'v' => '\x0b'
  | '0' => '\x00'
  | c => c

/-- The character of the escape sequence after a backslash, and the text after the sequence. -/
def escape : Text → Char × Text
  | [] => ('\\', [])
  | 'x' :: high :: low :: rest =>
    if isHexDigit high && isHexDigit low then (Char.ofNat (16 * hexValue high + hexValue low), rest)
    else ('x', high :: low :: rest)
  | c :: rest => (unescape c, rest)

theorem length_escape_le (text : Text) : (escape text).2.length ≤ text.length := by
  fun_cases escape text with
  | case1 => exact le_rfl
  | case2 high low rest => simp only [List.length_cons]; omega
  | case3 high low rest => simp only [List.length_cons]; omega
  | case4 c rest => exact Nat.le_succ _

/-- A text is read from left to right; a backslash takes away the meaning of a tab and of a line feed. -/
def tokens : Text → List Token
  | [] => []
  | c :: rest =>
    if c = '\\' then .char (escape rest).1 :: tokens (escape rest).2
    else if c = '\t' then .tab :: tokens rest
    else if c = '\n' then .newline :: tokens rest
    else .char c :: tokens rest
termination_by text => text.length
decreasing_by
  · exact Nat.lt_succ_of_le (length_escape_le rest)
  · exact Nat.lt_succ_self _
  · exact Nat.lt_succ_self _
  · exact Nat.lt_succ_self _

/-- A character stands at the beginning of the first cell. -/
def prependChar (c : Char) : List (List Text) → List (List Text)
  | [] => [[[c]]]
  | [] :: rows => [[c]] :: rows
  | (cell :: cells) :: rows => ((c :: cell) :: cells) :: rows

/-- An empty cell stands before the first row. -/
def prependCell : List (List Text) → List (List Text)
  | [] => [[[], []]]
  | row :: rows => ([] :: row) :: rows

/-- The rows of a text. The last one may end with the text. -/
def records : List Token → List (List Text)
  | [] => []
  | .newline :: rest => [[]] :: records rest
  | .tab :: rest => prependCell (records rest)
  | .char c :: rest => prependChar c (records rest)

def decode (text : Text) : List (List Text) :=
  records (tokens text)

/-- What an unescaped character is read as. -/
def token (c : Char) : Token :=
  if c = '\t' then .tab
  else if c = '\n' then .newline
  else .char c

def isSeparator (c : Char) : Bool :=
  c = '\t' || c = '\n'

section tokens

variable {c sep : Char} {text rest cell : Text}

theorem token_eq_char (h : isSeparator c = false) : token c = .char c := by
  simp only [isSeparator, Bool.or_eq_false_iff, decide_eq_false_iff_not] at h
  rw [token, if_neg h.1, if_neg h.2]

theorem token_ne_char (h : isSeparator sep = true) (c : Char) : token sep ≠ .char c := by
  simp only [isSeparator, Bool.or_eq_true, decide_eq_true_eq] at h
  obtain rfl | rfl := h
  · exact Token.noConfusion
  · exact Token.noConfusion

theorem tokens_nil : tokens [] = [] := by
  rw [tokens]

theorem tokens_cons (h : c ≠ '\\') (rest : Text) : tokens (c :: rest) = token c :: tokens rest := by
  rw [tokens, if_neg h, token]
  split_ifs
  · rfl
  · rfl
  · rfl

theorem tokens_backslash (rest : Text) : tokens ('\\' :: rest) = .char (escape rest).1 :: tokens (escape rest).2 := by
  rw [tokens, if_pos rfl]

/-- A text without backslashes is read character by character. -/
theorem tokens_append (h : '\\' ∉ text) (rest : Text) : tokens (text ++ rest) = text.map token ++ tokens rest := by
  induction text with
  | nil => rfl
  | cons c text ih =>
    rw [List.mem_cons, not_or] at h
    rw [List.cons_append, tokens_cons (Ne.symm h.1), ih h.2]
    rfl

theorem escape_separator (h : isSeparator sep = true) (rest : Text) : escape (sep :: rest) = (sep, rest) := by
  simp only [isSeparator, Bool.or_eq_true, decide_eq_true_eq] at h
  obtain rfl | rfl := h
  · rfl
  · rfl

theorem isHexDigit_separator (h : isSeparator sep = true) : isHexDigit sep = false := by
  simp only [isSeparator, Bool.or_eq_true, decide_eq_true_eq] at h
  obtain rfl | rfl := h
  · rfl
  · rfl

/-- An escape sequence is one character, or an `x` and two hexadecimal digits. -/
theorem escape_cases (c : Char) (rest : Text) : escape (c :: rest) = (unescape c, rest) ∨
    ∃ d high low more, isHexDigit high = true ∧ isHexDigit low = true ∧ rest = high :: low :: more ∧
      escape (c :: rest) = (d, more) := by
  by_cases hx : ∃ high low more, c = 'x' ∧ rest = high :: low :: more
  · obtain ⟨high, low, more, rfl, rfl⟩ := hx
    by_cases hhex : (isHexDigit high && isHexDigit low) = true
    · rw [escape, if_pos hhex]
      rw [Bool.and_eq_true] at hhex
      exact .inr ⟨_, high, low, more, hhex.1, hhex.2, rfl, rfl⟩
    · rw [escape, if_neg hhex]
      exact .inl rfl
  · apply Or.inl
    rw [escape]
    exact fun high low more hc hrest => hx ⟨high, low, more, hc, hrest⟩

/-- An escape sequence that starts in a cell ends in it: the separator after the cell is no part of one, unless it
follows the backslash at once. -/
theorem escape_append (hsep : isSeparator sep = true) (hcell : cell ≠ []) (rest : Text) :
    ∃ c cell', cell'.length < cell.length ∧ escape (cell ++ sep :: rest) = (c, cell' ++ sep :: rest) := by
  obtain ⟨c, cell, rfl⟩ := List.exists_cons_of_ne_nil hcell
  have hdigit : isHexDigit sep = false := isHexDigit_separator hsep
  obtain heq | ⟨d, high, low, more, hhigh, hlow, hrest, heq⟩ := escape_cases c (cell ++ sep :: rest)
  · exact ⟨unescape c, cell, Nat.lt_succ_self _, heq⟩
  · cases cell with
    | nil =>
      cases hrest
      rw [hdigit] at hhigh
      cases hhigh
    | cons first cell =>
      cases cell with
      | nil =>
        cases hrest
        rw [hdigit] at hlow
        cases hlow
      | cons second cell =>
        cases hrest
        have hless : cell.length < (c :: high :: low :: cell).length := by
          simp only [List.length_cons]
          omega
        exact ⟨d, cell, hless, heq⟩

/-- Where the separator after a cell is read. A backslash is never read as itself: either the cell gets shorter, or
its last backslash takes the separator into the cell. -/
theorem exists_separator (hsep : isSeparator sep = true) (rest : Text) (cell : Text) :
    ∃ n ≤ cell.length, ('\\' ∈ cell → n < cell.length) ∧
      ((tokens (cell ++ sep :: rest))[n]? = some (token sep) ∨
        n < cell.length ∧ (tokens (cell ++ sep :: rest))[n]? = some (.char sep)) := by
  induction hlength : cell.length using Nat.strong_induction_on generalizing cell with
  | _ length ih =>
  subst hlength
  cases cell with
  | nil =>
    have hne : sep ≠ '\\' := by
      rintro rfl
      cases hsep
    refine ⟨0, le_rfl, fun hmem => absurd hmem List.not_mem_nil, .inl ?_⟩
    rw [List.nil_append, tokens_cons hne]
    rfl
  | cons c cell =>
    by_cases hc : c = '\\'
    · subst hc
      rw [List.cons_append, tokens_backslash]
      cases cell with
      | nil =>
        have hlt : 0 < ['\\'].length := Nat.one_pos
        refine ⟨0, Nat.zero_le _, fun _ => hlt, .inr ⟨hlt, ?_⟩⟩
        rw [List.nil_append, escape_separator hsep]
        rfl
      | cons d cell =>
        obtain ⟨e, cell', hless, hescape⟩ := escape_append hsep (List.cons_ne_nil d cell) rest
        obtain ⟨n, hn, -, hread⟩ := ih cell'.length (Nat.lt_succ_of_lt hless) cell' rfl
        have hlt : n + 1 < ('\\' :: d :: cell).length := by
          rw [List.length_cons]
          omega
        rw [hescape]
        refine ⟨n + 1, hlt.le, fun _ => hlt, ?_⟩
        simp only [List.getElem?_cons_succ]
        exact hread.imp_right fun h => ⟨hlt, h.2⟩
    · obtain ⟨n, hn, hbackslash, hread⟩ := ih cell.length (Nat.lt_succ_self _) cell rfl
      rw [List.cons_append, tokens_cons hc]
      refine ⟨n + 1, Nat.succ_le_succ hn, fun hmem => ?_, ?_⟩
      · exact Nat.succ_lt_succ (hbackslash ((List.mem_cons.mp hmem).resolve_left (Ne.symm hc)))
      · simp only [List.getElem?_cons_succ]
        exact hread.imp_right fun h => ⟨Nat.succ_lt_succ h.1, h.2⟩

/-- A cell with a backslash in it is not read as it is. -/
theorem not_isPrefix_of_backslash (hsep : isSeparator sep = true) (hcell : ∀ c ∈ cell, isSeparator c = false)
    (hmem : '\\' ∈ cell) (after : List Token) :
    ¬ tokens (cell ++ sep :: rest) <+: cell.map .char ++ after := by
  intro hprefix
  obtain ⟨n, -, hbackslash, hread⟩ := exists_separator hsep rest cell
  have hn : n < cell.length := hbackslash hmem
  have hchar {t : Token} (ht : (tokens (cell ++ sep :: rest))[n]? = some t) : t = .char cell[n] := by
    obtain ⟨hlt, rfl⟩ := List.getElem?_eq_some_iff.mp ht
    have heq := List.prefix_iff_getElem?.mp hprefix n hlt
    rw [List.getElem?_append_left (by rwa [List.length_map]), List.getElem?_map, List.getElem?_eq_getElem hn] at heq
    exact (Option.some.inj heq).symm
  obtain hread | ⟨-, hread⟩ := hread
  · exact token_ne_char hsep _ (hchar hread)
  · have hself := hcell cell[n] (List.getElem_mem hn)
    rw [← Token.char.inj (hchar hread), hsep] at hself
    cases hself

end tokens

/-- The cells of a row with the separators after them. -/
def fields : List Text → List (Text × Char)
  | [] => []
  | [cell] => [(cell, '\n')]
  | cell :: cells => (cell, '\t') :: fields cells

/-- The tokens of cells that are read as they are. -/
def fieldTokens : List (Text × Char) → List Token
  | [] => []
  | (cell, sep) :: rest => cell.map .char ++ token sep :: fieldTokens rest

section records

variable {cell : Text} {cells row : List Text} {rows : List (List Text)} {more : List (Text × Char)}

theorem fieldTokens_newline (more : List (Text × Char)) :
    fieldTokens (fields [[]] ++ more) = .newline :: fieldTokens more := rfl

theorem fieldTokens_tab (h : row ≠ []) (more : List (Text × Char)) :
    fieldTokens (fields ([] :: row) ++ more) = .tab :: fieldTokens (fields row ++ more) := by
  obtain ⟨cell, cells, rfl⟩ := List.exists_cons_of_ne_nil h
  rfl

theorem fieldTokens_char (c : Char) (cell : Text) (cells : List Text) (more : List (Text × Char)) :
    fieldTokens (fields ((c :: cell) :: cells) ++ more) = .char c :: fieldTokens (fields (cell :: cells) ++ more) := by
  cases cells with
  | nil => rfl
  | cons next cells => rfl

theorem ne_nil_of_mem_records {ts : List Token} (h : row ∈ records ts) : row ≠ [] := by
  induction ts generalizing row with
  | nil => cases h
  | cons t rest ih =>
    cases t with
    | newline =>
      obtain rfl | h := List.mem_cons.mp h
      · exact List.cons_ne_nil _ _
      · exact ih h
    | tab =>
      rw [records] at h
      generalize records rest = rows at h ih
      cases rows with
      | nil => exact List.mem_singleton.mp h ▸ List.cons_ne_nil _ _
      | cons first rows =>
        obtain rfl | h := List.mem_cons.mp h
        · exact List.cons_ne_nil _ _
        · exact ih (List.mem_cons_of_mem _ h)
    | char c =>
      rw [records] at h
      generalize records rest = rows at h ih
      cases rows with
      | nil => exact List.mem_singleton.mp h ▸ List.cons_ne_nil _ _
      | cons first rows =>
        obtain ⟨cell, cells, rfl⟩ := List.exists_cons_of_ne_nil (ih List.mem_cons_self)
        obtain rfl | h := List.mem_cons.mp h
        · exact List.cons_ne_nil _ _
        · exact ih (List.mem_cons_of_mem _ h)

/-- The rows say what was read, up to the end of the last row. -/
theorem isPrefix_fieldTokens (ts : List Token) : ts <+: fieldTokens ((records ts).flatMap fields) := by
  induction ts with
  | nil => exact List.nil_prefix
  | cons t rest ih =>
    have hne : ∀ row ∈ records rest, row ≠ [] := fun row => ne_nil_of_mem_records
    cases t with
    | newline => exact List.cons_prefix_cons.mpr ⟨rfl, ih⟩
    | tab =>
      rw [records]
      generalize records rest = rows at hne ih
      cases rows with
      | nil =>
        rw [List.prefix_nil.mp ih]
        exact List.prefix_append [Token.tab] [Token.newline]
      | cons row rows =>
        rw [prependCell, List.flatMap_cons, fieldTokens_tab (hne row List.mem_cons_self)]
        exact List.cons_prefix_cons.mpr ⟨rfl, ih⟩
    | char c =>
      rw [records]
      generalize records rest = rows at hne ih
      cases rows with
      | nil =>
        rw [List.prefix_nil.mp ih]
        exact List.prefix_append [Token.char c] [Token.newline]
      | cons row rows =>
        obtain ⟨cell, cells, rfl⟩ := List.exists_cons_of_ne_nil (hne row List.mem_cons_self)
        rw [prependChar, List.flatMap_cons, fieldTokens_char]
        exact List.cons_prefix_cons.mpr ⟨rfl, ih⟩

theorem records_fields (hmore : records (fieldTokens more) = rows) (h : row ≠ []) :
    records (fieldTokens (fields row ++ more)) = row :: rows := by
  induction row with
  | nil => exact absurd rfl h
  | cons cell cells ih =>
    induction cell with
    | nil =>
      cases cells with
      | nil => rw [fieldTokens_newline, records, hmore]
      | cons next cells =>
        rw [fieldTokens_tab (List.cons_ne_nil next cells), records, ih (List.cons_ne_nil next cells)]
        rfl
    | cons c cell ihcell =>
      rw [fieldTokens_char, records, ihcell (List.cons_ne_nil cell cells)]
      rfl

theorem records_fieldTokens (h : ∀ row ∈ rows, row ≠ []) : records (fieldTokens (rows.flatMap fields)) = rows := by
  induction rows with
  | nil => rfl
  | cons row rows ih =>
    obtain ⟨hrow, hrows⟩ := List.forall_mem_cons.mp h
    rw [List.flatMap_cons, records_fields (ih hrows) hrow]

theorem isSeparator_of_mem_fields {field : Text × Char} (h : field ∈ fields row) : isSeparator field.2 = true := by
  fun_induction fields row with
  | case1 => cases h
  | case2 cell => exact List.mem_singleton.mp h ▸ rfl
  | case3 cell cells _ ih =>
    obtain rfl | h := List.mem_cons.mp h
    · rfl
    · exact ih h

theorem map_fst_fields (row : List Text) : (fields row).map Prod.fst = row := by
  fun_induction fields row with
  | case1 => rfl
  | case2 cell => rfl
  | case3 cell cells _ ih => rw [List.map_cons, ih]

theorem isPrefix_of_replicate {sep c : Char} {after : List Token} {n : ℕ} (hsep : isSeparator sep = true)
    (h : List.replicate n (Token.char c) <+: cell.map .char ++ token sep :: after) : List.replicate n c <+: cell := by
  induction n generalizing cell with
  | zero => exact List.nil_prefix
  | succ n ih =>
    cases cell with
    | nil => exact absurd (List.cons_prefix_cons.mp h).1.symm (token_ne_char hsep c)
    | cons d cell =>
      obtain ⟨hhead, htail⟩ := List.cons_prefix_cons.mp h
      exact List.cons_prefix_cons.mpr ⟨Token.char.inj hhead, ih htail⟩

end records

end solution_library.tsv
