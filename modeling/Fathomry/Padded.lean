import Mathlib.Data.List.Lex
import Mathlib.Order.Basic
import Mathlib.Algebra.Group.Nat.Defs

/-!
# Numbers padded with zeros

Names that carry a number are put in order as text. That is the order of the
numbers when all of them have the same number of digits, whatever follows.
-/

/-- The last `w` decimal digits of a number, as text. -/
def padded : ℕ → ℕ → List Char
  | 0, _ => []
  | w + 1, n => padded w (n / 10) ++ [Nat.digitChar (n % 10)]

/-- **Padded numbers are in order**, as far as the digits go. -/
theorem padded_lt {w n m : ℕ} (h : n < m) (hm : m < 10 ^ w) (t t' : List Char) :
    padded w n ++ t < padded w m ++ t' := by
  induction w generalizing n m t t' with
  | zero => omega
  | succ w ih =>
    unfold padded
    rw [List.append_assoc, List.append_assoc]
    obtain hlt | heq := (Nat.div_le_div_right h.le : n / 10 ≤ m / 10).lt_or_eq
    · exact ih hlt (by omega) _ _
    · rw [heq]
      refine List.append_left_lt ?_
      have hdigit : n % 10 < m % 10 := by omega
      have hchar : ∀ b < 10, ∀ a < b, Nat.digitChar a < Nat.digitChar b := by decide
      exact List.Lex.rel (hchar _ (Nat.mod_lt _ (by decide)) _ hdigit)
