import Mathlib.Algebra.BigOperators.Group.List.Basic
import Mathlib.Algebra.Order.Group.Int
import Mathlib.Algebra.Ring.Int.Defs
import WebRtc.Lib.Machine

/-!
# What a run adds up to

The steps of a machine grant and spend. A potential that rises by no more than what is granted less what is spent,
and from which nothing is spent unless it is positive, bounds what a run spends (`Spends.le`): by the potential at
its start, what the run grants, and one more step.
-/

namespace Machine

variable {σ ι ο β : Type}

/-- What is observed at the steps of a run. -/
def observed (step : σ → ι → σ × ο) (f : σ → ι → β) : σ → List ι → List β
  | _, [] => []
  | s, i :: is => f s i :: observed step f (step s i).1 is

/-- The sum of what is observed. -/
def total (step : σ → ι → σ × ο) (f : σ → ι → Int) (s : σ) (is : List ι) : Int := (observed step f s is).sum

/-- The largest value that is observed, and `first`. -/
def largest (step : σ → ι → σ × ο) (f : σ → ι → Int) (first : Int) (s : σ) (is : List ι) : Int :=
  (observed step f s is).foldr max first

section Observed
variable {step : σ → ι → σ × ο} {f : σ → ι → Int} {s : σ}

@[simp] theorem total_nil : total step f s [] = 0 := rfl

@[simp] theorem total_cons (i : ι) (is : List ι) :
    total step f s (i :: is) = f s i + total step f (step s i).1 is := rfl

theorem total_nonneg (h : ∀ s i, 0 ≤ f s i) (is : List ι) : 0 ≤ total step f s is := by
  induction is generalizing s with
  | nil => exact le_refl 0
  | cons i is ih => exact Int.add_nonneg (h s i) ih

theorem first_le_largest {first : Int} (is : List ι) : first ≤ largest step f first s is := by
  induction is generalizing s with
  | nil => exact le_refl first
  | cons i is ih => exact ih.trans (le_max_right _ _)

/-- No step shows more than the largest value. -/
theorem meets_largest {first : Int} (is : List ι) :
    Meets step (fun s' i => f s' i ≤ largest step f first s is) s is := by
  induction is generalizing s with
  | nil => trivial
  | cons i is ih =>
    refine ⟨le_max_left _ _, ih.mono fun s' j hle => ?_⟩
    exact hle.trans (le_max_right _ _)

end Observed

/-- Steps that meet `G` keep `P`, and spend of `potential` at most `most`, and only what is there. -/
structure Spends (step : σ → ι → σ × ο) (P : σ → Prop) (G : σ → ι → Prop) (potential : σ → Int)
    (granted spent : σ → ι → Int) (most : Int) : Prop where
  keeps : ∀ s i, P s → G s i → P (step s i).1
  grants : ∀ s i, 0 ≤ granted s i
  balance : ∀ s i, P s → G s i → potential (step s i).1 + spent s i ≤ potential s + granted s i
  affords : ∀ s i, P s → G s i → spent s i = 0 ∨ 0 < potential s ∧ spent s i ≤ most

section Spending
variable {step : σ → ι → σ × ο} {P : σ → Prop} {G : σ → ι → Prop} {potential : σ → Int}
  {granted spent : σ → ι → Int} {most : Int}

/-- Nothing is spent, or at most the potential, what is granted, and one step more. -/
theorem Spends.le (h : Spends step P G potential granted spent most) {s : σ} (hs : P s) {is : List ι}
    (hm : Meets step G s is) :
    total step spent s is = 0 ∨ total step spent s is ≤ potential s + total step granted s is + most := by
  induction is generalizing s with
  | nil => exact .inl rfl
  | cons i is ih =>
    have hbalance := h.balance s i hs hm.1
    have hgrants := h.grants s i
    have hlater := @total_nonneg _ _ _ step _ (step s i).1 h.grants is
    simp only [total_cons]
    rcases h.affords s i hs hm.1 with hnone | ⟨hpos, hmost⟩
    · rcases ih (h.keeps s i hs hm.1) hm.2 with hrest | hrest
      · exact .inl (by omega)
      · exact .inr (by omega)
    · rcases ih (h.keeps s i hs hm.1) hm.2 with hrest | hrest
      · exact .inr (by omega)
      · exact .inr (by omega)

end Spending

end Machine
