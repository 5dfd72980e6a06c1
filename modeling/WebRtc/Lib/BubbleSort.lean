import Mathlib.Data.List.Pairwise
import Mathlib.Order.Defs.LinearOrder
import Mathlib.Order.Lattice

/-!
# Bubble sort

The inner loop swaps neighbours that are out of order, up to a position; the outer loop calls it for lower and lower
positions. `sort_perm` and `sort_sorted` are what it comes to.
-/

namespace BubbleSort

variable {α κ : Type} [LinearOrder κ] (key : α → κ)

/-- The neighbours up to position `i`. -/
def bubble : Nat → List α → List α
  | i + 1, a :: b :: l => if key b < key a then b :: bubble i (a :: l) else a :: bubble i (b :: l)
  | _, l => l

/-- The positions below `i`, from the highest on. -/
def sort : Nat → List α → List α
  | 0, l => l
  | i + 1, l => sort i (bubble key i l)

/-- The largest of the elements up to a position ends there. -/
theorem bubble_cons (i : Nat) (a : α) (l : List α) (hi : i ≤ l.length) :
    ∃ front m, bubble key i (a :: l) = front ++ m :: l.drop i ∧ (front ++ [m]).Perm (a :: l.take i) ∧
      ∀ x ∈ front, key x ≤ key m := by
  induction i generalizing a l with
  | zero => exact ⟨[], a, by simp [bubble], by simp, by simp⟩
  | succ i ih =>
    cases l with
    | nil => simp at hi
    | cons b l =>
      have hi' : i ≤ l.length := by simpa using hi
      by_cases hlt : key b < key a
      · obtain ⟨front, m, heq, hperm, hmax⟩ := ih a l hi'
        have ha : key a ≤ key m := by
          rcases List.mem_append.1 (hperm.mem_iff.2 List.mem_cons_self) with h | h
          · exact hmax a h
          · rw [List.mem_singleton.1 h]
        refine ⟨b :: front, m, ?_, ?_, ?_⟩
        · simp [bubble, hlt, heq]
        · exact (hperm.cons b).trans (List.Perm.swap a b _)
        · simpa using ⟨le_trans (le_of_lt hlt) ha, hmax⟩
      · obtain ⟨front, m, heq, hperm, hmax⟩ := ih b l hi'
        have hb : key b ≤ key m := by
          rcases List.mem_append.1 (hperm.mem_iff.2 List.mem_cons_self) with h | h
          · exact hmax b h
          · rw [List.mem_singleton.1 h]
        refine ⟨a :: front, m, ?_, ?_, ?_⟩
        · simp [bubble, hlt, heq]
        · exact hperm.cons a
        · simpa using ⟨le_trans (not_lt.1 hlt) hb, hmax⟩

/-- The elements from `i` on are in order, and none below is larger. -/
theorem sort_append (i : Nat) (front back : List α) (hlen : front.length = i)
    (hback : back.Pairwise fun a b => key a ≤ key b) (hcross : ∀ a ∈ front, ∀ b ∈ back, key a ≤ key b) :
    (sort key i (front ++ back)).Perm (front ++ back) ∧
      (sort key i (front ++ back)).Pairwise fun a b => key a ≤ key b := by
  induction i generalizing front back with
  | zero =>
    rw [List.length_eq_zero_iff] at hlen
    subst hlen
    exact ⟨List.Perm.refl _, hback⟩
  | succ i ih =>
    cases front with
    | nil => simp at hlen
    | cons a front =>
      have hlen' : front.length = i := by simpa using hlen
      obtain ⟨front', m, heq, hperm, hmax⟩ := bubble_cons key i a (front ++ back) (by simp; omega)
      rw [List.take_left' hlen'] at hperm
      rw [List.drop_left' hlen'] at heq
      have hmem : ∀ x, x ∈ front' ++ [m] → x ∈ a :: front := fun x => hperm.mem_iff.1
      have hm := hmem m (by simp)
      have hlength : front'.length = i := by
        have h := hperm.length_eq
        simp at h
        omega
      have hback' : (m :: back).Pairwise fun a b => key a ≤ key b := List.pairwise_cons.2 ⟨hcross m hm, hback⟩
      have hcross' : ∀ x ∈ front', ∀ b ∈ m :: back, key x ≤ key b := by
        intro x hx b hb
        rcases List.mem_cons.1 hb with rfl | hb
        · exact hmax x hx
        · exact hcross x (hmem x (List.mem_append_left _ hx)) b hb
      obtain ⟨hp, hs⟩ := ih front' (m :: back) hlength hback' hcross'
      rw [List.cons_append, sort, heq]
      refine ⟨hp.trans ?_, hs⟩
      have happ : front' ++ m :: back = (front' ++ [m]) ++ back := by simp
      rw [happ, ← List.cons_append]
      exact hperm.append_right back

theorem sort_perm (l : List α) : (sort key l.length l).Perm l := by
  simpa using (sort_append key l.length l [] rfl List.Pairwise.nil (by simp)).1

theorem sort_sorted (l : List α) : (sort key l.length l).Pairwise fun a b => key a ≤ key b := by
  simpa using (sort_append key l.length l [] rfl List.Pairwise.nil (by simp)).2

end BubbleSort
