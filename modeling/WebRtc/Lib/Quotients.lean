import Mathlib.Algebra.BigOperators.Group.List.Basic
import Mathlib.Algebra.BigOperators.Ring.List
import Mathlib.Algebra.Order.BigOperators.Group.List
import Mathlib.Algebra.Order.Ring.Int
import Mathlib.Tactic.Ring

/-!
# Lists of quotients

What is lost when all elements of a list are divided by the same number and rounded down.
-/

namespace Quotients

/-- All elements divided by `k`. -/
def quotients (k : Int) (l : List Int) : List Int := l.map (· / k)

@[simp] theorem quotients_nil (k : Int) : quotients k [] = [] := rfl
@[simp] theorem quotients_cons (k x : Int) (l : List Int) : quotients k (x :: l) = x / k :: quotients k l := rfl

theorem quotients_nonneg {k : Int} (hk : 0 < k) {l : List Int} (h : ∀ x ∈ l, 0 ≤ x) : ∀ q ∈ quotients k l, 0 ≤ q := by
  intro q hq
  obtain ⟨x, hx, rfl⟩ := List.mem_map.1 hq
  exact Int.ediv_nonneg (h x hx) (Int.le_of_lt hk)

/-- Less than `k` is lost for each element. -/
theorem sum_quotients {k : Int} (hk : 0 < k) (l : List Int) :
    k * (quotients k l).sum ≤ l.sum ∧ l.sum ≤ k * (quotients k l).sum + (k - 1) * l.length := by
  induction l with
  | nil => simp
  | cons x l ih =>
    obtain ⟨hlo, hhi⟩ := ih
    have hdiv := Int.emod_add_mul_ediv x k
    have hpos := Int.emod_nonneg x (Int.ne_of_gt hk)
    have hlt := Int.emod_lt_of_pos x hk
    simp only [quotients_cons, List.sum_cons, List.length_cons, Int.mul_add]
    push_cast
    constructor
    · omega
    · rw [Int.mul_add, Int.mul_one]
      omega

/-- One more at one place. -/
theorem sum_set_add (l : List Int) {i : Nat} (hi : i < l.length) (d : Int) : (l.set i (l[i] + d)).sum = l.sum + d := by
  rw [List.sum_set', dif_pos hi]
  omega

end Quotients
