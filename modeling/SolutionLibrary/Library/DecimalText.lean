import SolutionLibrary.Library.Decimal
import SolutionLibrary.Library.DecimalFloat

namespace solution_library.decimal_float

open text decimal

/-- The text before the first mark, and the text after it if there is one. -/
def cut (mark : Char → Bool) (text : Text) : Text × Option Text :=
  match text.dropWhile fun c => !mark c with
  | [] => (text, none)
  | _ :: rest => (text.takeWhile fun c => !mark c, some rest)

def isExponentMark (c : Char) : Bool :=
  c = 'e' || c = 'E'

def isPoint (c : Char) : Bool :=
  c = '.'

def readSign : Text → Bool × Text
  | '-' :: rest => (true, rest)
  | '+' :: rest => (false, rest)
  | rest => (false, rest)

/-- A row of digits, with a point among them or at an end. -/
def readMantissa (text : Text) : Option (ℕ × ℕ) :=
  let parts := cut isPoint text
  let fraction := parts.2.getD []
  (readNat (parts.1 ++ fraction)).map fun n => (n, fraction.length)

def readExponent (text : Option Text) : Option ℤ :=
  text.elim (some 0) decimal.read

/-- The number that a text denotes, exactly. -/
def ofText (text : Text) : Option DecimalFloat := do
  let signed := readSign text
  let parts := cut isExponentMark signed.2
  let mantissa ← readMantissa parts.1
  let exponent ← readExponent parts.2
  return ⟨signed.1, mantissa.1, exponent - mantissa.2⟩

/-- The digits on the two sides of the point. -/
def place (digits : Text) (dotplace : ℤ) : Text × Text :=
  if dotplace < 0 then (['0'], List.replicate (-dotplace).toNat '0' ++ digits)
  else if digits.take dotplace.toNat = [] then (['0'], digits.drop dotplace.toNat)
  else (digits.take dotplace.toNat, digits.drop dotplace.toNat)

/-- The place of the point in the format `g`: among the digits of a number that is not too small and has no zeros to
add, otherwise after the first digit. -/
def dotplace (d : DecimalFloat) : ℤ :=
  let leftdigits := d.exponent + (numeral d.coefficient).length
  if d.exponent ≤ 0 ∧ -6 < leftdigits then leftdigits else 1

def exponentText (exp : ℤ) : Text :=
  if exp = 0 then [] else 'e' :: (if exp < 0 then '-' else '+') :: numeral exp.natAbs

/-- The text of a number in the format `g` without a precision. -/
def formatG (d : DecimalFloat) : Text :=
  let parts := place (numeral d.coefficient) (dotplace d)
  let exp := d.exponent + (numeral d.coefficient).length - dotplace d
  let point := if parts.2 = [] then [] else '.' :: parts.2
  (if d.negative then ['-'] else []) ++ (parts.1 ++ point ++ exponentText exp)

section cut

variable {mark : Char → Bool} {text : Text} {c : Char}

theorem cut_append (h : ∀ c ∈ text, mark c = false) (hc : mark c = true) (rest : Text) :
    cut mark (text ++ c :: rest) = (text, some rest) := by
  have hnot : ∀ c ∈ text, (!mark c) = true := fun c hc => by rw [h c hc]; rfl
  have hstop : (!mark c) = false := by rw [hc]; rfl
  rw [cut, List.dropWhile_append_of_pos hnot, List.takeWhile_append_of_pos hnot,
    List.dropWhile_cons_of_neg (by simp [hstop]), List.takeWhile_cons_of_neg (by simp [hstop]), List.append_nil]

theorem cut_of_forall (h : ∀ c ∈ text, mark c = false) : cut mark text = (text, none) := by
  have hnil : (text.dropWhile fun c => !mark c) = [] := by
    rw [List.dropWhile_eq_nil_iff]
    intro c hc
    rw [h c hc]
    rfl
  rw [cut, hnil]

end cut

section place

variable {digits : Text} {dot : ℤ}

theorem value_replicate (k : ℕ) (digits : Text) : value (List.replicate k '0' ++ digits) = value digits := by
  induction k with
  | zero => rfl
  | succ k ih => exact ih

theorem value_place (digits : Text) (dot : ℤ) :
    value ((place digits dot).1 ++ (place digits dot).2) = value digits := by
  rw [place]
  split_ifs with hneg hnil
  · exact value_replicate ((-dot).toNat + 1) digits
  · have hdrop : digits.drop dot.toNat = digits := by
      conv_rhs => rw [← List.take_append_drop dot.toNat digits]
      rw [hnil, List.nil_append]
    rw [hdrop]
    exact value_replicate 1 digits
  · exact congrArg value (List.take_append_drop dot.toNat digits)

theorem place_fst_ne_nil (digits : Text) (dot : ℤ) : (place digits dot).1 ≠ [] := by
  rw [place]
  split_ifs with hneg hnil
  · exact List.cons_ne_nil _ _
  · exact List.cons_ne_nil _ _
  · exact hnil

theorem isDigit_of_mem_place (h : ∀ c ∈ digits, c.isDigit = true) :
    ∀ c ∈ (place digits dot).1 ++ (place digits dot).2, c.isDigit = true := by
  intro c hc
  rw [place] at hc
  split_ifs at hc with hneg hnil
  · simp only [List.singleton_append, List.mem_cons, List.mem_append, List.mem_replicate] at hc
    obtain rfl | ⟨_, rfl⟩ | hc := hc
    · rfl
    · rfl
    · exact h c hc
  · obtain rfl | hc := List.mem_cons.mp hc
    · rfl
    · exact h c (List.mem_of_mem_drop hc)
  · exact h c ((List.take_append_drop dot.toNat digits) ▸ hc)

theorem length_place_snd (h : dot ≤ digits.length) : ((place digits dot).2.length : ℤ) = digits.length - dot := by
  rw [place]
  split_ifs with hneg
  · rw [List.length_append, List.length_replicate]
    omega
  · rw [List.length_drop]
    omega
  · rw [List.length_drop]
    omega

end place

section formatG

variable {c : Char}

theorem isExponentMark_of_isDigit (h : c.isDigit = true) : isExponentMark c = false := by
  by_contra hmark
  simp only [isExponentMark, Bool.not_eq_false, Bool.or_eq_true, decide_eq_true_eq] at hmark
  obtain rfl | rfl := hmark
  · cases h
  · cases h

theorem isPoint_of_isDigit (h : c.isDigit = true) : isPoint c = false := by
  by_contra hpoint
  simp only [isPoint, Bool.not_eq_false, decide_eq_true_eq] at hpoint
  subst hpoint
  cases h

theorem readNat_of_isDigit {digits : Text} (hne : digits ≠ []) (h : ∀ c ∈ digits, c.isDigit = true) :
    readNat digits = some (value digits) := by
  rw [readNat, if_pos ⟨hne, List.all_eq_true.mpr h⟩]

/-- The sign of a text that goes on with a digit. -/
theorem readSign_append (negative : Bool) {text : Text} (hc : c.isDigit = true) :
    readSign ((if negative then ['-'] else []) ++ c :: text) = (negative, c :: text) := by
  cases negative with
  | true => rfl
  | false =>
    have hminus : c ≠ '-' := fun heq => absurd (heq ▸ hc) (by decide)
    have hplus : c ≠ '+' := fun heq => absurd (heq ▸ hc) (by decide)
    rw [if_neg (Bool.false_ne_true), List.nil_append, readSign]
    · exact fun rest heq => hminus (List.cons.inj heq).1
    · exact fun rest heq => hplus (List.cons.inj heq).1

theorem readMantissa_place {whole fraction : Text} (hne : whole ≠ [])
    (h : ∀ c ∈ whole ++ fraction, c.isDigit = true) :
    readMantissa (whole ++ if fraction = [] then [] else '.' :: fraction) =
      some (value (whole ++ fraction), fraction.length) := by
  have hwhole : ∀ c ∈ whole, isPoint c = false := fun c hc =>
    isPoint_of_isDigit (h c (List.mem_append_left _ hc))
  have happend : whole ++ fraction ≠ [] := by simp [hne]
  rw [readMantissa]
  split_ifs with hnil
  · subst hnil
    rw [List.append_nil] at h happend ⊢
    rw [cut_of_forall hwhole]
    dsimp only [Option.getD_none]
    rw [List.append_nil, readNat_of_isDigit happend h]
    rfl
  · rw [cut_append hwhole rfl]
    dsimp only [Option.getD_some]
    rw [readNat_of_isDigit happend h]
    rfl

theorem cut_exponentText {mantissa : Text} (h : ∀ c ∈ mantissa, isExponentMark c = false) (exp : ℤ) :
    (cut isExponentMark (mantissa ++ exponentText exp)).1 = mantissa ∧
      readExponent (cut isExponentMark (mantissa ++ exponentText exp)).2 = some exp := by
  rw [exponentText]
  split_ifs with hzero hneg
  · rw [List.append_nil, cut_of_forall h, hzero]
    exact ⟨rfl, rfl⟩
  · have habs : -(exp.natAbs : ℤ) = exp := by omega
    rw [cut_append h rfl, readExponent, Option.elim_some, decimal.read, readNat_numeral]
    exact ⟨rfl, congrArg some habs⟩
  · have habs : (exp.natAbs : ℤ) = exp := by omega
    rw [cut_append h rfl, readExponent, Option.elim_some, decimal.read, readNat_numeral]
    exact ⟨rfl, congrArg some habs⟩

theorem dotplace_le (d : DecimalFloat) : dotplace d ≤ (numeral d.coefficient).length := by
  have hpos : 0 < (numeral d.coefficient).length := List.length_pos_iff.mpr (numeral_ne_nil _)
  rw [dotplace]
  split_ifs with h
  · omega
  · omega

/-- A number is read back from its text as it was, with its exponent and its sign. -/
theorem ofText_formatG (d : DecimalFloat) : ofText (formatG d) = some d := by
  have hnumeral : ∀ c ∈ numeral d.coefficient, c.isDigit = true := fun c hc => isDigit_of_mem_numeral hc
  have hdigits (c : Char) := @isDigit_of_mem_place _ (dotplace d) hnumeral c
  have hne := place_fst_ne_nil (numeral d.coefficient) (dotplace d)
  have hvalue := value_place (numeral d.coefficient) (dotplace d)
  have hlength := length_place_snd (dotplace_le d)
  rw [value_numeral] at hvalue
  rw [formatG]
  generalize place (numeral d.coefficient) (dotplace d) = parts at *
  obtain ⟨whole, fraction⟩ := parts
  dsimp only at *
  have hmarks : ∀ c ∈ whole ++ (if fraction = [] then [] else '.' :: fraction), isExponentMark c = false := by
    intro c hc
    obtain hc | hc := List.mem_append.mp hc
    · exact isExponentMark_of_isDigit (hdigits c (List.mem_append_left _ hc))
    · split_ifs at hc with hnil
      · cases hc
      · obtain rfl | hc := List.mem_cons.mp hc
        · rfl
        · exact isExponentMark_of_isDigit (hdigits c (List.mem_append_right _ hc))
  obtain ⟨hmantissa, hexponent⟩ :=
    cut_exponentText hmarks (d.exponent + (numeral d.coefficient).length - dotplace d)
  obtain ⟨first, whole, rfl⟩ := List.exists_cons_of_ne_nil hne
  have hfirst : first.isDigit = true := hdigits first List.mem_cons_self
  rw [ofText]
  simp only [List.cons_append] at hmantissa hexponent hmarks ⊢
  rw [readSign_append d.negative hfirst, hmantissa, hexponent, ← List.cons_append,
    readMantissa_place hne hdigits, hvalue]
  have hexp : d.exponent + (numeral d.coefficient).length - dotplace d - fraction.length = d.exponent := by omega
  simp only [Option.bind_eq_bind, Option.bind_some, hexp]
  rfl

end formatG

end solution_library.decimal_float
