import Mathlib.Data.List.SplitBy

/-!
# Maximal runs of a list

The runs of a list under a relation between neighbours are the pieces of `List.splitBy`. The rules here
say how their lengths compose, and what a loop that counts along the list and closes a run where the
relation breaks adds up.
-/

namespace Runs

variable {α γ : Type} {r : α → α → Bool}

/-- The lengths of the maximal runs. -/
def runs (r : α → α → Bool) (l : List α) : List Nat := (l.splitBy r).map List.length

@[simp] theorem runs_nil : runs r [] = [] := rfl

theorem runs_append {l m : List α} (hsep : ∀ x ∈ l.getLast?, ∀ y ∈ m.head?, r x y = false) :
    runs r (l ++ m) = runs r l ++ runs r m := by
  rw [runs, List.splitBy_append hsep, List.map_append, runs, runs]

theorem runs_of_isChain {l : List α} (hn : l ≠ []) (h : l.IsChain fun x y => r x y) : runs r l = [l.length] := by
  rw [runs, List.splitBy_of_isChain hn h, List.map_singleton]

/-- A run that ends before the rest. -/
theorem runs_run_append {g m : List α} (hn : g ≠ []) (h : g.IsChain fun x y => r x y)
    (hsep : ∀ x ∈ g.getLast?, ∀ y ∈ m.head?, r x y = false) : runs r (g ++ m) = g.length :: runs r m := by
  rw [runs_append hsep, runs_of_isChain hn h, List.singleton_append]

/-- A loop over a list that counts a run up and closes it where the relation breaks. -/
def tally (r : α → α → Bool) (close : γ → Nat → γ) : List α → α → Nat → γ → γ
  | [], _, n, c => close c n
  | x :: xs, last, n, c => if r last x then tally r close xs x (n + 1) c else tally r close xs x 1 (close c n)

/-- **The loop closes the maximal runs, one by one.** -/
theorem tally_eq (close : γ → Nat → γ) (xs : List α) {g : List α} {last : α}
    (h : (g ++ [last]).IsChain fun x y => r x y)
    (c : γ) : tally r close xs last (g.length + 1) c = (runs r (g ++ last :: xs)).foldl close c := by
  induction xs generalizing g last c with
  | nil =>
    rw [runs_of_isChain (by simp) h]
    simp [tally]
  | cons x xs ih =>
    rw [tally]
    by_cases hr : r last x = true
    · have hchain : ((g ++ [last]) ++ [x]).IsChain fun x y => r x y := by
        rw [List.isChain_append]
        refine ⟨h, List.isChain_singleton x, ?_⟩
        intro a ha b hb
        simp only [List.getLast?_append, List.getLast?_singleton, Option.some_or, Option.mem_def, Option.some.injEq,
          List.head?_cons] at ha hb
        subst ha hb
        exact hr
      have hstep := ih hchain c
      rw [List.length_append, List.length_singleton, List.append_assoc, List.singleton_append] at hstep
      rw [if_pos hr, hstep]
    · have hstep := ih (show ([] ++ [x]).IsChain fun x y => r x y from List.isChain_singleton x)
        (close c (g.length + 1))
      rw [List.length_nil, Nat.zero_add, List.nil_append] at hstep
      have hsep : ∀ a ∈ (g ++ [last]).getLast?, ∀ b ∈ (x :: xs).head?, r a b = false := by
        intro a ha b hb
        simp only [List.getLast?_append, List.getLast?_singleton, Option.some_or, Option.mem_def, Option.some.injEq,
          List.head?_cons] at ha hb
        subst ha hb
        exact Bool.not_eq_true _ ▸ hr
      have hruns := runs_run_append (by simp) h hsep
      rw [List.append_assoc, List.singleton_append, List.length_append, List.length_singleton] at hruns
      rw [if_neg hr, hstep, hruns, List.foldl_cons]

end Runs
