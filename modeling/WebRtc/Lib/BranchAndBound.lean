import Mathlib.Order.Lattice

/-!
# Branch and bound

A tree is given by the children of its nodes, of which there are up to two; a solution is a node that has
none. The search goes down to the child of the lower cost first, and to the other one only when its cost
is not above that of the solution it came back with. It comes back with a solution of the least cost if no
node costs more than a solution below it.
-/

namespace BranchAndBound

section Search
variable {Node Cost : Type} [LinearOrder Cost] (left right : Node → Option Node) (cost : Node → Cost)

/-- `s` is a solution below `n`. -/
inductive Solution : Node → Node → Prop where
  | here {n : Node} (hl : left n = none) (hr : right n = none) : Solution n n
  | left {n l s : Node} (hl : left n = some l) (below : Solution l s) : Solution n s
  | right {n r s : Node} (hr : right n = some r) (below : Solution r s) : Solution n s

/-- Below `first`, and below `second` unless that cannot be better. -/
def searchBoth (go : Node → Node) (first second : Node) : Node :=
  if cost second ≤ cost (go first) then
    if cost (go second) < cost (go first) then go second else go first
  else go first

def search : Nat → Node → Node
  | 0, n => n
  | fuel + 1, n =>
    match left n, right n with
    | none, none => n
    | none, some r => search fuel r
    | some l, none => search fuel l
    | some l, some r =>
      if cost l ≤ cost r then searchBoth cost (search fuel) l r else searchBoth cost (search fuel) r l

/-- `s` is a solution below `n`, and none is better. -/
structure Optimal (n s : Node) : Prop where
  solution : Solution left right n s
  least : ∀ t, Solution left right n t → cost s ≤ cost t

end Search

variable {Node Cost : Type} [LinearOrder Cost] {left right : Node → Option Node} {cost : Node → Cost} {P : Node → Prop}

/-- What holds of a node and is handed down to children holds of the solutions. -/
theorem Solution.induct (hleft : ∀ n m, P n → left n = some m → P m) (hright : ∀ n m, P n → right n = some m → P m)
    {n s : Node} (h : Solution left right n s) (hn : P n) : P s := by
  induction h with
  | here _ _ => exact hn
  | left hl _ ih => exact ih (hleft _ _ hn hl)
  | right hr _ ih => exact ih (hright _ _ hn hr)

theorem Solution.leaf {n s : Node} (h : Solution left right n s) : left s = none ∧ right s = none := by
  induction h with
  | here hl hr => exact ⟨hl, hr⟩
  | left _ _ ih => exact ih
  | right _ _ ih => exact ih

variable (cost) in
/-- A cost that does not fall from a node to its children bounds the solutions. -/
theorem Solution.le_of_step (hleft : ∀ n m, P n → left n = some m → P m ∧ cost n ≤ cost m)
    (hright : ∀ n m, P n → right n = some m → P m ∧ cost n ≤ cost m) {n s : Node} (h : Solution left right n s)
    (hn : P n) : cost n ≤ cost s := by
  induction h with
  | here _ _ => exact le_refl _
  | left hl _ ih => exact le_trans (hleft _ _ hn hl).2 (ih (hleft _ _ hn hl).1)
  | right hr _ ih => exact le_trans (hright _ _ hn hr).2 (ih (hright _ _ hn hr).1)

theorem searchBoth_optimal {go : Node → Node} {first second : Node} (hfirst : Optimal left right cost first (go first))
    (hsecond : Optimal left right cost second (go second))
    (hbound : ∀ s, Solution left right second s → cost second ≤ cost s) :
    (Solution left right first (searchBoth cost go first second) ∨
      Solution left right second (searchBoth cost go first second)) ∧
    ∀ s, Solution left right first s ∨ Solution left right second s →
        cost (searchBoth cost go first second) ≤ cost s := by
  unfold searchBoth
  split
  · split
    · rename_i hlt
      refine ⟨.inr hsecond.solution, fun s hs => hs.elim (fun h => ?_) (hsecond.least s)⟩
      exact le_trans (le_of_lt hlt) (hfirst.least s h)
    · rename_i hle
      refine ⟨.inl hfirst.solution, fun s hs => hs.elim (hfirst.least s) fun h => ?_⟩
      exact le_trans (not_lt.1 hle) (hsecond.least s h)
  · -- The bound of `second` is above what was found.
    rename_i hprune
    refine ⟨.inl hfirst.solution, fun s hs => hs.elim (hfirst.least s) fun h => ?_⟩
    exact le_trans (le_of_lt (not_le.1 hprune)) (hbound s h)

variable (left right cost) in
/-- **The search is optimal** among nodes whose cost bounds the solutions below them. -/
theorem search_optimal (rank : Node → Nat) (hleft : ∀ n m, P n → left n = some m → P m ∧ rank m < rank n)
    (hright : ∀ n m, P n → right n = some m → P m ∧ rank m < rank n)
    (hbound : ∀ n s, P n → Solution left right n s → cost n ≤ cost s) {fuel : Nat} {n : Node} (hn : P n)
    (hfuel : rank n ≤ fuel) : Optimal left right cost n (search left right cost fuel n) := by
  induction fuel generalizing n with
  | zero =>
    have hl : left n = none := Option.eq_none_iff_forall_ne_some.2 fun m hm => by have := (hleft n m hn hm).2; omega
    have hr : right n = none := Option.eq_none_iff_forall_ne_some.2 fun m hm => by have := (hright n m hn hm).2; omega
    refine ⟨.here hl hr, fun s hs => ?_⟩
    exact hbound n s hn hs
  | succ fuel ih =>
    have hgo : ∀ m, left n = some m ∨ right n = some m → Optimal left right cost m (search left right cost fuel m) ∧
        ∀ s, Solution left right m s → cost m ≤ cost s := by
      rintro m (hm | hm)
      · obtain ⟨hP, hrank⟩ := hleft n m hn hm
        exact ⟨ih hP (by omega), fun s => hbound m s hP⟩
      · obtain ⟨hP, hrank⟩ := hright n m hn hm
        exact ⟨ih hP (by omega), fun s => hbound m s hP⟩
    rw [search]
    cases hl : left n with
    | none =>
      cases hr : right n with
      | none => exact ⟨.here hl hr, fun s hs => hbound n s hn hs⟩
      | some r =>
        obtain ⟨hopt, -⟩ := hgo r (.inr hr)
        refine ⟨.right hr hopt.solution, fun s hs => ?_⟩
        cases hs with
        | here _ hr' => simp [hr] at hr'
        | left hl' _ => simp [hl] at hl'
        | right hr' below => exact hopt.least s (Option.some.inj (hr.symm.trans hr') ▸ below)
    | some l =>
      cases hr : right n with
      | none =>
        obtain ⟨hopt, -⟩ := hgo l (.inl hl)
        refine ⟨.left hl hopt.solution, fun s hs => ?_⟩
        cases hs with
        | here hl' _ => simp [hl] at hl'
        | left hl' below => exact hopt.least s (Option.some.inj (hl.symm.trans hl') ▸ below)
        | right hr' _ => simp [hr] at hr'
      | some r =>
        obtain ⟨hoptl, hboundl⟩ := hgo l (.inl hl)
        obtain ⟨hoptr, hboundr⟩ := hgo r (.inr hr)
        have hcases : ∀ s, Solution left right n s → Solution left right l s ∨ Solution left right r s := by
          intro s hs
          cases hs with
          | here hl' _ => simp [hl] at hl'
          | left hl' below => exact .inl (Option.some.inj (hl.symm.trans hl') ▸ below)
          | right hr' below => exact .inr (Option.some.inj (hr.symm.trans hr') ▸ below)
        dsimp only
        split
        · obtain ⟨hsol, hleast⟩ := searchBoth_optimal hoptl hoptr hboundr
          exact ⟨hsol.elim (.left hl) (.right hr), fun s hs => hleast s (hcases s hs)⟩
        · obtain ⟨hsol, hleast⟩ := searchBoth_optimal hoptr hoptl hboundl
          exact ⟨hsol.elim (.right hr) (.left hl), fun s hs => hleast s (hcases s hs).symm⟩

end BranchAndBound
