import Mathlib.Data.List.Basic

/-!
# Priority queues

A container that gives back one of its elements (`std::priority_queue`). Which of them is left to the container:
an order of the elements says more about it only where it is one (`Orders`), and what holds of every container here
holds whatever the comparison does.
-/

/-- The elements lie in a list in an order of the container's own. -/
structure PriorityQueue (α : Type) where
  push : List α → α → List α
  top : List α → Option α
  pop : List α → List α
  push_perm : ∀ l a, (push l a).Perm (a :: l)
  top_eq_none : ∀ l, top l = none ↔ l = []
  pop_perm : ∀ l a, top l = some a → (a :: pop l).Perm l

namespace PriorityQueue

variable {α : Type}

theorem top_mem (q : PriorityQueue α) {l : List α} {a : α} (h : q.top l = some a) : a ∈ l :=
  (q.pop_perm l a h).subset List.mem_cons_self

/-! ## A queue that looks for the element -/

/-- The last of the elements that is not less than the best before it. -/
def best (less : α → α → Bool) : α → List α → α
  | a, [] => a
  | a, b :: l => best less (if less a b then b else a) l

theorem best_mem (less : α → α → Bool) (a : α) (l : List α) : best less a l ∈ a :: l := by
  induction l generalizing a with
  | nil => exact List.mem_cons_self
  | cons b l ih =>
    rw [best]
    split
    · exact List.mem_cons_of_mem a (ih b)
    · rcases List.mem_cons.mp (ih a) with h | h
      · rw [h]
        exact List.mem_cons_self
      · exact List.mem_cons_of_mem a (List.mem_cons_of_mem b h)

def bestOf (less : α → α → Bool) : List α → Option α
  | [] => none
  | a :: l => some (best less a l)

theorem bestOf_mem {less : α → α → Bool} {l : List α} {a : α} (h : bestOf less l = some a) : a ∈ l := by
  cases l with
  | nil => cases h
  | cons b l =>
    cases h
    exact best_mem less b l

/-- The elements in the order they came; the best is looked for when it is wanted. -/
def ofLess [DecidableEq α] (less : α → α → Bool) : PriorityQueue α where
  push l a := a :: l
  top l := bestOf less l
  pop l := match bestOf less l with
    | none => l
    | some a => l.erase a
  push_perm _ _ := List.Perm.refl _
  top_eq_none l := by cases l <;> simp [bestOf]
  pop_perm l a h := by
    simp only [h]
    exact (List.perm_cons_erase (bestOf_mem h)).symm

/-! ## Orders -/

/-- The comparison is a strict weak ordering of these elements. -/
structure StrictWeak (less : α → α → Bool) (l : List α) : Prop where
  irrefl : ∀ a ∈ l, ¬ less a a
  trans : ∀ a ∈ l, ∀ b ∈ l, ∀ c ∈ l, less a b → less b c → less a c
  equiv : ∀ a ∈ l, ∀ b ∈ l, ∀ c ∈ l, ¬ less a b → ¬ less b a → ¬ less b c → ¬ less c b → ¬ less a c ∧ ¬ less c a

/-- What a container promises of elements with an order, with `Heap` as the way in which it keeps them. -/
structure Orders (q : PriorityQueue α) (less : α → α → Bool) (Heap : List α → Prop) : Prop where
  nil : Heap []
  push : ∀ l a, StrictWeak less (a :: l) → Heap l → Heap (q.push l a)
  pop : ∀ l, StrictWeak less l → Heap l → Heap (q.pop l)
  top : ∀ l a, StrictWeak less l → Heap l → q.top l = some a → ∀ b ∈ l, ¬ less a b

section Orders
variable {less : α → α → Bool}

theorem StrictWeak.mono {l l' : List α} (h : StrictWeak less l) (hsub : l' ⊆ l) : StrictWeak less l' where
  irrefl a ha := h.irrefl a (hsub ha)
  trans a ha b hb c hc := h.trans a (hsub ha) b (hsub hb) c (hsub hc)
  equiv a ha b hb c hc := h.equiv a (hsub ha) b (hsub hb) c (hsub hc)

theorem StrictWeak.not_less {l : List α} (h : StrictWeak less l) {a b c : α} (ha : a ∈ l) (hb : b ∈ l) (hc : c ∈ l)
    (hab : ¬ less a b) (hbc : ¬ less b c) : ¬ less a c := by
  intro hac
  have hba : ¬ less b a := fun hba => hbc (h.trans b hb a ha c hc hba hac)
  have hcb : ¬ less c b := fun hcb => hab (h.trans a ha c hc b hb hac hcb)
  exact (h.equiv a ha b hb c hc hab hba hbc hcb).1 hac

theorem best_greatest {a : α} {l : List α} (h : StrictWeak less (a :: l)) : ∀ b ∈ a :: l, ¬ less (best less a l) b := by
  induction l generalizing a with
  | nil => simpa [best] using h.irrefl a List.mem_cons_self
  | cons b l ih =>
    -- The one that is kept is not less than the other.
    have hkept : ∀ {x : α}, x ∈ a :: b :: l → (∀ y ∈ x :: l, ¬ less (best less x l) y) → ¬ less x a → ¬ less x b →
        ∀ y ∈ a :: b :: l, ¬ less (best less x l) y := by
      intro x hx hbest hxa hxb y hy
      have hmem : best less x l ∈ a :: b :: l := by
        rcases List.mem_cons.1 (best_mem less x l) with heq | hmem
        · rw [heq]
          exact hx
        · exact List.mem_cons_of_mem a (List.mem_cons_of_mem b hmem)
      have hself := hbest x List.mem_cons_self
      rcases List.mem_cons.1 hy with rfl | hy
      · exact h.not_less hmem hx List.mem_cons_self hself hxa
      · rcases List.mem_cons.1 hy with rfl | hy
        · exact h.not_less hmem hx (by simp) hself hxb
        · exact hbest y (List.mem_cons_of_mem x hy)
    rw [best]
    split
    · rename_i hab
      have hba : ¬ less b a := fun hba => h.irrefl a (by simp) (h.trans a (by simp) b (by simp) a (by simp) hab hba)
      exact hkept (by simp) (ih (h.mono (List.subset_cons_self a _))) hba (h.irrefl b (by simp))
    · rename_i hab
      have hsub : a :: l ⊆ a :: b :: l := List.cons_subset_cons a (List.subset_cons_self b l)
      exact hkept List.mem_cons_self (ih (h.mono hsub)) (h.irrefl a List.mem_cons_self) hab

theorem ofLess_orders [DecidableEq α] : Orders (ofLess less) less fun _ => True where
  nil := trivial
  push _ _ _ _ := trivial
  pop _ _ _ := trivial
  top l a h _ htop := by
    cases l with
    | nil => cases htop
    | cons b l =>
      obtain rfl := Option.some.inj htop
      exact best_greatest h

end Orders

end PriorityQueue
