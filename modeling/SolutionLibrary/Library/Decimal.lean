import Mathlib.Data.Int.Notation
import SolutionLibrary.Library.Text

namespace solution_library.decimal

open text

def digit (n : ℕ) : Char :=
  Char.ofNat ('0'.toNat + n)

/-- The decimal numeral of a number. -/
def numeral (n : ℕ) : Text :=
  if n < 10 then [digit n] else numeral (n / 10) ++ [digit (n % 10)]

/-- The value of a row of digits. -/
def value (digits : Text) : ℕ :=
  digits.foldl (fun n c => 10 * n + (c.toNat - '0'.toNat)) 0

def readNat (text : Text) : Option ℕ :=
  if text ≠ [] ∧ text.all Char.isDigit then some (value text) else none

/-- The numeral of an integer, with a minus sign if it is negative. -/
def render (n : ℤ) : Text :=
  if n < 0 then '-' :: numeral n.natAbs else numeral n.natAbs

/-- An integer may have a sign of either kind. -/
def read : Text → Option ℤ
  | '-' :: digits => (readNat digits).map fun n => -(n : ℤ)
  | '+' :: digits => (readNat digits).map fun n => (n : ℤ)
  | digits => (readNat digits).map fun n => (n : ℤ)

theorem digit_facts : ∀ n < 10, (digit n).toNat = '0'.toNat + n ∧ (digit n).isDigit = true := by
  decide

theorem toNat_digit {n : ℕ} (h : n < 10) : (digit n).toNat = '0'.toNat + n :=
  (digit_facts n h).1

theorem isDigit_digit {n : ℕ} (h : n < 10) : (digit n).isDigit = true :=
  (digit_facts n h).2

theorem value_concat (digits : Text) (c : Char) :
    value (digits ++ [c]) = 10 * value digits + (c.toNat - '0'.toNat) := by
  rw [value, List.foldl_append]
  rfl

theorem value_numeral (n : ℕ) : value (numeral n) = n := by
  induction n using Nat.strong_induction_on with
  | _ n ih =>
    rw [numeral]
    split_ifs with hn
    · rw [← List.nil_append [digit n], value_concat, toNat_digit hn, Nat.add_sub_cancel_left]
      exact Nat.zero_add n
    · have hmod : n % 10 < 10 := Nat.mod_lt n (by omega)
      rw [value_concat, ih (n / 10) (by omega), toNat_digit hmod]
      omega

theorem isDigit_of_mem_numeral {n : ℕ} {c : Char} (h : c ∈ numeral n) : c.isDigit = true := by
  induction n using Nat.strong_induction_on with
  | _ n ih =>
    rw [numeral] at h
    split_ifs at h with hn
    · rw [List.mem_singleton.mp h]
      exact isDigit_digit hn
    · obtain h | h := List.mem_append.mp h
      · exact ih (n / 10) (by omega) h
      · rw [List.mem_singleton.mp h]
        exact isDigit_digit (Nat.mod_lt n (by omega))

theorem numeral_ne_nil (n : ℕ) : numeral n ≠ [] := by
  rw [numeral]
  split_ifs
  · exact List.cons_ne_nil _ _
  · exact List.concat_ne_nil _ _

theorem readNat_numeral (n : ℕ) : readNat (numeral n) = some n := by
  have hdigits : (numeral n).all Char.isDigit = true :=
    List.all_eq_true.mpr fun c hc => isDigit_of_mem_numeral hc
  rw [readNat, if_pos ⟨numeral_ne_nil n, hdigits⟩, value_numeral]

/-- What is written as a numeral is read back. -/
theorem read_render (n : ℤ) : read (render n) = some n := by
  rw [render]
  split_ifs with hn
  · have habs : -(n.natAbs : ℤ) = n := by omega
    rw [read, readNat_numeral]
    exact congrArg some habs
  · have habs : (n.natAbs : ℤ) = n := by omega
    have hsign (c : Char) (rest : Text) (h : c.isDigit = false) : numeral n.natAbs ≠ c :: rest := by
      intro heq
      have hdigit := isDigit_of_mem_numeral (n := n.natAbs) (c := c) (heq ▸ List.mem_cons_self)
      rw [h] at hdigit
      cases hdigit
    rw [read, readNat_numeral]
    · exact congrArg some habs
    · exact fun rest => hsign '-' rest rfl
    · exact fun rest => hsign '+' rest rfl

end solution_library.decimal
