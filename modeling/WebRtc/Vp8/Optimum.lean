import Mathlib.Algebra.BigOperators.Group.List.Basic
import WebRtc.Lib.BranchAndBound
import WebRtc.Vp8.Aggregator

/-!
# The optimum of the aggregation

`GetOptimalNode` is a branch and bound over the ways to cut the partitions into packets. Along a branch the
largest size and the number of packets only grow and the smallest size only falls, so the cost of a node
bounds those below it, for as long as they fit an `int`.

The tree has no packet of empty partitions that another packet follows. Nothing is lost by that: such a
packet may go to the one behind it, and the cost does not grow.
-/

namespace WebRtc.Vp8

/-! ## What packets cost -/

/-- The partitions in order, in packets that are not too large. -/
structure Grouping (sizeVector : List Nat) (maxPayloadLen : Nat) (groups : List (List Nat)) : Prop where
  flatten : groups.flatten = sizeVector
  fits : ∀ g ∈ groups, g ≠ [] ∧ g.sum ≤ maxPayloadLen

/-- The largest packet, and the largest one before. -/
def largest (hi : Int) (groups : List (List Nat)) : Int := groups.foldl (fun m g => max m (g.sum : Int)) hi

def smallest (lo : Int) (groups : List (List Nat)) : Int := groups.foldl (fun m g => min m (g.sum : Int)) lo

/-- The cost of packets, after others of sizes from `lo` to `hi`. -/
def groupsCost (lo hi : Int) (penalty : Nat) (groups : List (List Nat)) : Int :=
  largest hi groups - smallest lo groups + groups.length * penalty

theorem largest_cons (hi : Int) (g : List Nat) (groups : List (List Nat)) :
    largest hi (g :: groups) = largest (max hi (g.sum : Int)) groups := rfl

theorem smallest_cons (lo : Int) (g : List Nat) (groups : List (List Nat)) :
    smallest lo (g :: groups) = smallest (min lo (g.sum : Int)) groups := rfl

theorem largest_snoc (hi : Int) (groups : List (List Nat)) (g : List Nat) :
    largest hi (groups ++ [g]) = max (largest hi groups) (g.sum : Int) := by
  rw [largest, List.foldl_append]
  rfl

theorem smallest_snoc (lo : Int) (groups : List (List Nat)) (g : List Nat) :
    smallest lo (groups ++ [g]) = min (smallest lo groups) (g.sum : Int) := by
  rw [smallest, List.foldl_append]
  rfl

theorem largest_mono {a b : Int} (h : a ≤ b) (groups : List (List Nat)) : largest a groups ≤ largest b groups := by
  induction groups generalizing a b with
  | nil => exact h
  | cons g groups ih => exact ih (max_le_max_right _ h)

theorem smallest_mono {a b : Int} (h : a ≤ b) (groups : List (List Nat)) : smallest a groups ≤ smallest b groups := by
  induction groups generalizing a b with
  | nil => exact h
  | cons g groups ih => exact ih (min_le_min_right _ h)

/-- When the costs are `int`s. -/
theorem groupsCost_le {sizeVector : List Nat} {maxPayloadLen : Nat} {groups : List (List Nat)}
    (h : Grouping sizeVector maxPayloadLen groups) {lo hi : Int} (hlo : 0 ≤ lo) (penalty : Nat) :
    groupsCost lo hi penalty groups ≤ max hi maxPayloadLen + sizeVector.length * penalty := by
  have hlarge : ∀ hi, largest hi groups ≤ max hi maxPayloadLen := by
    have hfits := h.fits
    clear h
    induction groups with
    | nil => exact fun hi => le_max_left _ _
    | cons g groups ih =>
      intro hi
      have hg := (hfits g List.mem_cons_self).2
      have hrest := ih (fun g hg => hfits g (List.mem_cons_of_mem _ hg)) (max hi (g.sum : Int))
      rw [largest_cons]
      omega
  have hsmall : ∀ lo, 0 ≤ lo → 0 ≤ smallest lo groups := by
    clear h hlarge
    induction groups with
    | nil => exact fun lo h => h
    | cons g groups ih => exact fun lo h => ih _ (le_min h (Int.natCast_nonneg _))
  have hlength : groups.length ≤ sizeVector.length := by
    have hsum := List.length_le_sum_of_one_le (groups.map List.length) (by
      intro k hk
      obtain ⟨g, hg, rfl⟩ := List.mem_map.1 hk
      exact List.length_pos_iff.2 (h.fits g hg).1)
    rwa [List.length_map, ← List.length_flatten, h.flatten] at hsum
  have hmul : ((groups.length : Nat) : Int) * penalty ≤ sizeVector.length * penalty :=
    Int.mul_le_mul_of_nonneg_right (by omega) (Int.natCast_nonneg _)
  have h1 := hlarge hi
  have h2 := hsmall lo hlo
  rw [groupsCost]
  omega

namespace PartitionTreeNode

variable {n m s : PartitionTreeNode} {maxSize penalty : Nat}

/-! ## Costs along a branch -/

theorem leftChild_eq_some : n.leftChild maxSize = some m ↔ ∃ size rest, n.sizeVector = size :: rest ∧
    n.thisSize + size ≤ maxSize ∧
    m = ⟨false :: n.starts, rest, n.thisSize + size, n.maxParentSize, n.minParentSize⟩ := by
  unfold leftChild
  cases n.sizeVector with
  | nil => simp
  | cons size rest => simp [eq_comm]

theorem rightChild_eq_some : n.rightChild = some m ↔ ∃ size rest, n.sizeVector = size :: rest ∧ 0 < n.thisSize ∧
    m = ⟨true :: n.starts, rest, size, max n.maxParentSize n.thisSizeInt, min n.minParentSize n.thisSizeInt⟩ := by
  unfold rightChild
  cases n.sizeVector with
  | nil => simp
  | cons size rest => simp [eq_comm]

/-- `cost` before it is converted. -/
def exactCost (n : PartitionTreeNode) (penalty : Nat) : Int :=
  (if n.sizeVector = [] then max n.maxParentSize n.thisSize - min n.minParentSize n.thisSize
    else max n.maxParentSize n.thisSize - n.minParentSize) + n.numPackets * penalty

/-- The sizes of a node are those of packets. -/
structure Sound (maxSize : Nat) (n : PartitionTreeNode) : Prop where
  thisSize : n.thisSize ≤ maxSize
  sizes : ∀ s ∈ n.sizeVector, s ≤ maxSize
  minParent : n.minParentSize ≤ intMax

theorem Sound.thisSizeInt_eq (h : n.Sound maxSize) (hmax : (maxSize : Int) ≤ intMax) : n.thisSizeInt = n.thisSize := by
  have hle := h.thisSize
  unfold intMax at hmax
  exact CInt.i32_id (by omega) (by omega)

theorem Sound.left (h : n.Sound maxSize) (hm : n.leftChild maxSize = some m) : m.Sound maxSize := by
  obtain ⟨size, rest, hs, hfits, rfl⟩ := leftChild_eq_some.1 hm
  exact ⟨hfits, fun s hmem => h.sizes s (hs ▸ List.mem_cons_of_mem _ hmem), h.minParent⟩

theorem Sound.right (h : n.Sound maxSize) (hm : n.rightChild = some m) : m.Sound maxSize := by
  obtain ⟨size, rest, hs, -, rfl⟩ := rightChild_eq_some.1 hm
  exact ⟨h.sizes size (hs ▸ List.mem_cons_self), fun s hmem => h.sizes s (hs ▸ List.mem_cons_of_mem _ hmem),
    le_trans (min_le_left _ _) h.minParent⟩

theorem numPackets_left (hm : n.leftChild maxSize = some m) : m.numPackets = n.numPackets := by
  obtain ⟨size, rest, -, -, rfl⟩ := leftChild_eq_some.1 hm
  exact List.count_cons_of_ne (by decide)

theorem numPackets_right (hm : n.rightChild = some m) : m.numPackets = n.numPackets + 1 := by
  obtain ⟨size, rest, -, -, rfl⟩ := rightChild_eq_some.1 hm
  exact List.count_cons_self

theorem exactCost_left (hm : n.leftChild maxSize = some m) : n.exactCost penalty ≤ m.exactCost penalty := by
  have hpackets := numPackets_left hm
  obtain ⟨size, rest, hs, -, rfl⟩ := leftChild_eq_some.1 hm
  rw [exactCost, exactCost, hpackets, if_neg (by rw [hs]; exact List.cons_ne_nil _ _)]
  dsimp only
  split <;> omega

theorem exactCost_right (h : n.Sound maxSize) (hmax : (maxSize : Int) ≤ intMax) (hm : n.rightChild = some m) :
    n.exactCost penalty ≤ m.exactCost penalty := by
  have hpackets := numPackets_right hm
  have hthis := h.thisSizeInt_eq hmax
  obtain ⟨size, rest, hs, -, rfl⟩ := rightChild_eq_some.1 hm
  have hmul : ((n.numPackets + 1 : Nat) : Int) * penalty = n.numPackets * penalty + penalty := by
    rw [Int.natCast_add, Int.add_mul, Int.natCast_one, Int.one_mul]
  rw [exactCost, exactCost, hpackets, hthis, hmul, if_neg (by rw [hs]; exact List.cons_ne_nil _ _)]
  dsimp only
  split <;> omega

theorem Sound.cost_eq (h : n.Sound maxSize) (hmax : (maxSize : Int) ≤ intMax) (hle : n.exactCost penalty ≤ intMax) :
    n.cost penalty = n.exactCost penalty := by
  have hthis := h.thisSizeInt_eq hmax
  have hmin := h.minParent
  have hpackets : 0 ≤ (n.numPackets : Int) * penalty := Int.mul_nonneg (Int.natCast_nonneg _) (Int.natCast_nonneg _)
  rw [cost, hthis]
  refine CInt.i32_id ?_ hle
  unfold intMax at hmin
  split <;> omega

/-! ## The search -/

theorem getOptimalNode_eq (maxSize penalty fuel : Nat) (n : PartitionTreeNode) :
    n.getOptimalNode maxSize penalty fuel =
      BranchAndBound.search (fun n => n.leftChild maxSize) rightChild (fun n => n.cost penalty) fuel n := by
  induction fuel generalizing n with
  | zero => rfl
  | succ fuel ih =>
    rw [getOptimalNode, BranchAndBound.search]
    cases hl : n.leftChild maxSize with
    | none =>
      cases hr : n.rightChild with
      | none => rfl
      | some r => exact ih r
    | some l =>
      cases hr : n.rightChild with
      | none => exact ih l
      | some r =>
        simp only [ih, decide_eq_true_eq, BranchAndBound.searchBoth]
        by_cases hle : l.cost penalty ≤ r.cost penalty
        · simp only [if_pos hle]
        · simp only [if_neg hle]

/-- `s` is a leaf below `n`. -/
abbrev Below (maxSize : Nat) (n s : PartitionTreeNode) : Prop :=
  BranchAndBound.Solution (fun n => n.leftChild maxSize) rightChild n s

theorem Sound.below (h : n.Sound maxSize) (hs : Below maxSize n s) : s.Sound maxSize :=
  hs.induct (fun _ _ hn hm => hn.left hm) (fun _ _ hn hm => hn.right hm) h

theorem Sound.exactCost_le (h : n.Sound maxSize) (hmax : (maxSize : Int) ≤ intMax) (hs : Below maxSize n s) :
    n.exactCost penalty ≤ s.exactCost penalty :=
  hs.le_of_step (fun n => n.exactCost penalty) (fun _ _ hn hm => ⟨hn.left hm, exactCost_left hm⟩)
    (fun _ _ hn hm => ⟨hn.right hm, exactCost_right hn hmax hm⟩) h

/-- A leaf has placed everything. -/
theorem Sound.leaf (h : n.Sound maxSize) (hs : Below maxSize n s) : s.sizeVector = [] := by
  obtain ⟨hl, hr⟩ := hs.leaf
  have hsound := h.below hs
  cases hv : s.sizeVector with
  | nil => rfl
  | cons size rest =>
    have hsize := hsound.sizes size (hv ▸ List.mem_cons_self)
    by_cases hthis : 0 < s.thisSize
    · rw [rightChild_eq_some.2 ⟨size, rest, hv, hthis, rfl⟩] at hr
      cases hr
    · have hleft : s.leftChild maxSize ≠ none := by
        rw [leftChild_eq_some.2 ⟨size, rest, hv, by omega, rfl⟩]
        exact Option.some_ne_none _
      exact absurd hl hleft

/-- The node that is found costs no more than any leaf. -/
theorem Sound.getOptimalNode_least (h : n.Sound maxSize) (hmax : (maxSize : Int) ≤ intMax) (penalty : Nat)
    (hcost : ∀ s, Below maxSize n s → s.exactCost penalty ≤ intMax) :
    Below maxSize n (n.getOptimalNode maxSize penalty n.sizeVector.length) ∧
      ∀ s, Below maxSize n s →
        (n.getOptimalNode maxSize penalty n.sizeVector.length).exactCost penalty ≤ s.exactCost penalty := by
  have hexact : ∀ n s : PartitionTreeNode, n.Sound maxSize ∧ (∀ s, Below maxSize n s → s.exactCost penalty ≤ intMax) →
      Below maxSize n s → n.cost penalty = n.exactCost penalty ∧ s.cost penalty = s.exactCost penalty := by
    rintro n s ⟨hn, hn'⟩ hs
    exact ⟨hn.cost_eq hmax (le_trans (hn.exactCost_le hmax hs) (hn' s hs)), (hn.below hs).cost_eq hmax (hn' s hs)⟩
  obtain ⟨hsol, hleast⟩ := BranchAndBound.search_optimal (fun n => leftChild n maxSize) rightChild
    (fun n => cost n penalty) (fun n => n.sizeVector.length)
    (P := fun n => n.Sound maxSize ∧ ∀ s, Below maxSize n s → s.exactCost penalty ≤ intMax)
    (fun n m ⟨hn, hn'⟩ hm => ⟨⟨hn.left hm, fun s hs => hn' s (.left hm hs)⟩, by
      obtain ⟨size, rest, hv, -, rfl⟩ := leftChild_eq_some.1 hm
      simp [hv]⟩)
    (fun n m ⟨hn, hn'⟩ hm => ⟨⟨hn.right hm, fun s hs => hn' s (.right hm hs)⟩, by
      obtain ⟨size, rest, hv, -, rfl⟩ := rightChild_eq_some.1 hm
      simp [hv]⟩)
    (fun n s hn hs => by
      obtain ⟨h1, h2⟩ := hexact n s hn hs
      rw [h1, h2]
      exact hn.1.exactCost_le hmax hs)
    ⟨h, hcost⟩ (le_refl n.sizeVector.length)
  rw [← getOptimalNode_eq] at hsol hleast
  refine ⟨hsol, fun s hs => ?_⟩
  have hle := hleast s hs
  rw [(hexact n s ⟨h, hcost⟩ hs).2, (hexact n _ ⟨h, hcost⟩ hsol).2] at hle
  exact hle

/-! ## The groupings in the tree -/

/-- Whatever way the rest of the packet and further packets are filled, there is a leaf that costs no more. By
induction on the sizes that are left; where the tree has no right child the packet is empty so far. -/
theorem Sound.exists_below (h : n.Sound maxSize) (hmax : (maxSize : Int) ≤ intMax) {rest : List Nat}
    {groups : List (List Nat)} (hrest : rest ++ groups.flatten = n.sizeVector) (hne : ∀ g ∈ groups, g ≠ [])
    (hfits : ∀ g ∈ (n.thisSize :: rest) :: groups, g.sum ≤ maxSize) (penalty : Nat) :
    ∃ s, Below maxSize n s ∧ s.exactCost penalty ≤
      largest n.maxParentSize ((n.thisSize :: rest) :: groups) - smallest n.minParentSize
        ((n.thisSize :: rest) :: groups) +
        (n.numPackets + groups.length : Nat) * penalty := by
  induction hv : n.sizeVector generalizing n rest groups with
  | nil =>
    rw [hv] at hrest
    obtain ⟨rfl, hflat⟩ := List.append_eq_nil_iff.1 hrest
    have hgroups : groups = [] := by
      rw [List.eq_nil_iff_forall_not_mem]
      intro g hg
      exact hne g hg (List.flatten_eq_nil_iff.1 hflat g hg)
    subst hgroups
    have hl : n.leftChild maxSize = none := by rw [leftChild, hv]
    have hr : n.rightChild = none := by rw [rightChild, hv]
    refine ⟨n, .here hl hr, ?_⟩
    rw [exactCost, if_pos hv, largest_cons, smallest_cons, List.sum_singleton]
    exact le_refl _
  | cons size sizes ih =>
    rw [hv] at hrest
    -- The left child, with the next partition in the packet.
    have hleft : ∀ rest' groups', rest' ++ groups'.flatten = sizes → (∀ g ∈ groups', g ≠ []) →
        (n.thisSize + (size + rest'.sum) ≤ maxSize) → (∀ g ∈ groups', g.sum ≤ maxSize) →
        ∃ s, Below maxSize n s ∧ s.exactCost penalty ≤
          largest n.maxParentSize ((n.thisSize :: size :: rest') :: groups') -
            smallest n.minParentSize ((n.thisSize :: size :: rest') :: groups') +
              (n.numPackets + groups'.length : Nat) * penalty := by
      intro rest' groups' hflat hne' hsum hfits'
      have hm : n.leftChild maxSize = some ⟨false :: n.starts, sizes, n.thisSize + size, n.maxParentSize,
          n.minParentSize⟩ := leftChild_eq_some.2 ⟨size, sizes, hv, by omega, rfl⟩
      have hfirst : ((n.thisSize + size) :: rest').sum = (n.thisSize :: size :: rest').sum := by
        rw [List.sum_cons, List.sum_cons, List.sum_cons, Nat.add_assoc]
      obtain ⟨s, hs, hle⟩ := ih (h.left hm) hflat hne' (by
        intro g hg
        rcases List.mem_cons.1 hg with rfl | hg
        · rw [hfirst, List.sum_cons, List.sum_cons]
          exact hsum
        · exact hfits' g hg) rfl
      refine ⟨s, .left hm hs, ?_⟩
      rw [numPackets_left hm, largest_cons, smallest_cons, hfirst] at hle
      rw [largest_cons, smallest_cons]
      exact hle
    cases rest with
    | cons x rest =>
      rw [List.cons_append, List.cons.injEq] at hrest
      obtain ⟨rfl, hflat⟩ := hrest
      have hsum := hfits _ List.mem_cons_self
      rw [List.sum_cons, List.sum_cons] at hsum
      exact hleft rest groups hflat hne hsum fun g hg => hfits g (List.mem_cons_of_mem _ hg)
    | nil =>
      cases groups with
      | nil => cases hrest
      | cons g groups =>
        obtain ⟨x, rest, rfl⟩ := List.exists_cons_of_ne_nil (hne g List.mem_cons_self)
        rw [List.nil_append, List.flatten_cons, List.cons_append, List.cons.injEq] at hrest
        obtain ⟨rfl, hflat⟩ := hrest
        have hne' : ∀ g ∈ groups, g ≠ [] := fun g hg => hne g (List.mem_cons_of_mem _ hg)
        have hfits' : ∀ g ∈ groups, g.sum ≤ maxSize := fun g hg =>
          hfits g (List.mem_cons_of_mem _ (List.mem_cons_of_mem _ hg))
        have hsum := hfits (x :: rest) (List.mem_cons_of_mem _ List.mem_cons_self)
        by_cases hthis : 0 < n.thisSize
        · have hm := rightChild_eq_some.2 ⟨x, sizes, hv, hthis, rfl⟩
          obtain ⟨s, hs, hle⟩ := ih (h.right hm) hflat hne' (by
            intro g hg
            rcases List.mem_cons.1 hg with rfl | hg
            · exact hsum
            · exact hfits' g hg) rfl
          refine ⟨s, .right hm hs, ?_⟩
          rw [numPackets_right hm, h.thisSizeInt_eq hmax] at hle
          rw [largest_cons, smallest_cons, List.sum_singleton, List.length_cons,
            show n.numPackets + (groups.length + 1) = n.numPackets + 1 + groups.length by omega]
          exact hle
        · -- The packet is still empty: its partitions go to the next one.
          have h0 : n.thisSize = 0 := by omega
          obtain ⟨s, hs, hle⟩ := hleft rest groups hflat hne' (by
            rw [List.sum_cons] at hsum
            omega) hfits'
          refine ⟨s, hs, le_trans hle ?_⟩
          have hmore : ((n.numPackets + (groups.length + 1) : Nat) : Int) * penalty =
              (n.numPackets + groups.length : Nat) * penalty + penalty := by
            rw [← Nat.add_assoc, Int.natCast_add _ 1, Int.add_mul, Int.natCast_one, Int.one_mul]
          have hempty : (n.thisSize :: x :: rest).sum = (x :: rest).sum := by rw [List.sum_cons, h0, Nat.zero_add]
          have hlarge := largest_mono (le_max_left n.maxParentSize 0) ((x :: rest) :: groups)
          have hsmall := smallest_mono (min_le_left n.minParentSize 0) ((x :: rest) :: groups)
          rw [largest_cons _ (n.thisSize :: _), smallest_cons _ (n.thisSize :: _), hempty,
            ← largest_cons, ← smallest_cons,
            List.length_cons, hmore, h0, largest_cons _ [0], smallest_cons _ [0], List.sum_singleton, Int.natCast_zero]
          omega

/-- What the parents of a node had for sizes. -/
structure Ranged (lo hi : Int) (n : PartitionTreeNode) (done : List (List Nat)) : Prop where
  max : n.maxParentSize = largest hi done
  min : n.minParentSize = smallest lo done

end PartitionTreeNode

open PartitionTreeNode

/-- The packets of a leaf, and what they cost. -/
theorem exactCost_leaf {lo hi : Int} {n : PartitionTreeNode} {sizes : List Nat} {maxSize : Nat} {done : List (List Nat)}
    {group : List Nat} (h : Grouped sizes maxSize n done group) (hr : n.Ranged lo hi done) (hleaf : n.sizeVector = [])
    (penalty : Nat) : n.exactCost penalty = groupsCost lo hi penalty (done ++ [group]) := by
  have hpackets : n.numPackets = (done ++ [group]).length := by
    rw [PartitionTreeNode.numPackets, ← List.count_reverse, h.starts, count_marks]
  rw [exactCost, if_pos hleaf, hr.max, hr.min, h.size, hpackets, groupsCost, largest_snoc, smallest_snoc]

/-- Every leaf is a grouping. -/
theorem grouped_below {lo hi : Int} {n s : PartitionTreeNode} {sizes : List Nat} {maxSize : Nat}
    {done : List (List Nat)}
    {group : List Nat} (hmax : (maxSize : Int) ≤ intMax) (hsizes : ∀ s ∈ sizes, s ≤ maxSize) (hn : n.Sound maxSize)
    (h : Grouped sizes maxSize n done group) (hr : n.Ranged lo hi done) (hs : Below maxSize n s) (penalty : Nat) :
    ∃ groups, Grouping sizes maxSize groups ∧ s.exactCost penalty = groupsCost lo hi penalty groups ∧
      configVector s.starts s.numPackets [] = numbered 0 groups := by
  obtain ⟨-, done, group, hgrouped, hranged⟩ := hs.induct
    (P := fun n => n.Sound maxSize ∧ ∃ done group, Grouped sizes maxSize n done group ∧ n.Ranged lo hi done)
    (by
      rintro n m ⟨hn, done, group, h, hr⟩ hm
      obtain ⟨group', h'⟩ := h.left hm
      obtain ⟨size, rest, -, -, heq⟩ := leftChild_eq_some.1 hm
      exact ⟨hn.left hm, done, group', h', by rw [heq]; exact ⟨hr.max, hr.min⟩⟩)
    (by
      rintro n m ⟨hn, done, group, h, hr⟩ hm
      obtain ⟨size, rest, -, -, heq⟩ := rightChild_eq_some.1 hm
      refine ⟨hn.right hm, done ++ [group], [m.thisSize], h.right hsizes hm, ?_, ?_⟩
      · rw [heq, largest_snoc, ← hr.max, ← h.size, hn.thisSizeInt_eq hmax]
      · rw [heq, smallest_snoc, ← hr.min, ← h.size, hn.thisSizeInt_eq hmax])
    ⟨hn, done, group, h, hr⟩
  have hleaf := hn.leaf hs
  exact ⟨done ++ [group], ⟨hgrouped.flatten_leaf hleaf, hgrouped.fits⟩, exactCost_leaf hgrouped hranged hleaf penalty,
    hgrouped.configVector_eq⟩

/-- The sizes of earlier packets, or what stands for them when there are none. -/
def priorMin (minSize maxSize : Int) : Int := if minSize ≥ 0 ∧ maxSize ≥ 0 then minSize else intMax

def priorMax (minSize maxSize : Int) : Int := if minSize ≥ 0 ∧ maxSize ≥ 0 then maxSize else 0

theorem findOptimalConfiguration_eq (size : Nat) (rest : List Nat) (minSize maxSize : Int)
    (maxPayloadLen penalty : Nat) :
    findOptimalConfiguration (size :: rest) minSize maxSize maxPayloadLen penalty =
      let root : PartitionTreeNode := ⟨[true], rest, size, priorMax minSize maxSize, priorMin minSize maxSize⟩
      let opt := root.getOptimalNode maxPayloadLen penalty root.sizeVector.length
      configVector opt.starts opt.numPackets [] := by
  unfold findOptimalConfiguration priorMin priorMax
  split <;> rfl

/-- **The configuration that is found costs the least** of all that fit, when the costs of all that fit are
`int`s. -/
theorem findOptimalConfiguration_optimal (sizeVector : List Nat) (hne : sizeVector ≠ []) (maxPayloadLen : Nat)
    (hsizes : ∀ s ∈ sizeVector, s ≤ maxPayloadLen) (hmax : (maxPayloadLen : Int) ≤ intMax) (minSize maxSize : Int)
    (hprior : minSize ≤ intMax) (penalty : Nat)
    (hcost : ∀ groups, Grouping sizeVector maxPayloadLen groups →
      groupsCost (priorMin minSize maxSize) (priorMax minSize maxSize) penalty groups ≤ intMax) :
    ∃ groups, Grouping sizeVector maxPayloadLen groups ∧
      findOptimalConfiguration sizeVector minSize maxSize maxPayloadLen penalty = numbered 0 groups ∧
      ∀ others, Grouping sizeVector maxPayloadLen others →
        groupsCost (priorMin minSize maxSize) (priorMax minSize maxSize) penalty groups ≤
          groupsCost (priorMin minSize maxSize) (priorMax minSize maxSize) penalty others := by
  obtain ⟨size, rest, rfl⟩ := List.exists_cons_of_ne_nil hne
  rw [findOptimalConfiguration_eq]
  dsimp only
  generalize hroot : (⟨[true], rest, size, priorMax minSize maxSize,
    priorMin minSize maxSize⟩ : PartitionTreeNode) = root
  have hthis : root.thisSize = size := by rw [← hroot]
  have hvector : root.sizeVector = rest := by rw [← hroot]
  have hsize : size ≤ maxPayloadLen := hsizes size List.mem_cons_self
  have hsound : root.Sound maxPayloadLen := by
    refine ⟨hthis ▸ hsize, fun s hs => hsizes s (List.mem_cons_of_mem _ (hvector ▸ hs)), ?_⟩
    rw [← hroot]
    dsimp only [priorMin]
    split
    · exact hprior
    · exact le_refl _
  have hgrouped : Grouped (size :: rest) maxPayloadLen root [] [size] := .root hsize (by rw [← hroot]) hvector hthis
  have hranged : root.Ranged (priorMin minSize maxSize) (priorMax minSize maxSize) [] := by
    rw [← hroot]
    exact ⟨rfl, rfl⟩
  have hbelow := fun s hs => grouped_below hmax hsizes hsound hgrouped hranged (s := s) hs penalty
  obtain ⟨hopt, hleast⟩ := hsound.getOptimalNode_least hmax penalty (by
    intro s hs
    obtain ⟨groups, hgroups, heq, -⟩ := hbelow s hs
    rw [heq]
    exact hcost groups hgroups)
  obtain ⟨groups, hgroups, heq, hconfig⟩ := hbelow _ hopt
  rw [hvector] at hconfig
  refine ⟨groups, hgroups, hconfig, ?_⟩
  rintro others ⟨hflat, hfits⟩
  obtain ⟨g, others, rfl⟩ := List.exists_cons_of_ne_nil (show others ≠ [] by rintro rfl; cases hflat)
  obtain ⟨x, tail, rfl⟩ := List.exists_cons_of_ne_nil (hfits g List.mem_cons_self).1
  rw [List.flatten_cons, List.cons_append, List.cons.injEq] at hflat
  obtain ⟨rfl, htail⟩ := hflat
  obtain ⟨s, hs, hle⟩ := hsound.exists_below hmax (show tail ++ others.flatten = root.sizeVector by rw [htail, hvector])
    (fun g hg => (hfits g (List.mem_cons_of_mem _ hg)).1) (by
      rw [hthis]
      exact fun g hg => (hfits g hg).2) penalty
  have hpackets : root.numPackets + others.length = ((x :: tail) :: others).length := by
    rw [← hroot, List.length_cons, PartitionTreeNode.numPackets, Nat.add_comm]
    rfl
  rw [hthis, hpackets, hranged.max, hranged.min] at hle
  rw [← heq]
  exact le_trans (hleast s hs) hle

/-- Four partitions that fit in two, three or four packets. -/
theorem findOptimalConfiguration_optimal_four : Grouping [3, 2, 1, 3] 5 [[3], [2, 1], [3]] ∧
    Grouping [3, 2, 1, 3] 5 [[3], [2], [1], [3]] ∧
    ∃ groups, Grouping [3, 2, 1, 3] 5 groups ∧ numbered 0 groups = [0, 0, 1, 1] ∧
      findOptimalConfiguration [3, 2, 1, 3] 2 5 5 1 = numbered 0 groups ∧
      ∀ others, Grouping [3, 2, 1, 3] 5 others → groupsCost 2 5 1 groups ≤ groupsCost 2 5 1 others := by
  have hfound : findOptimalConfiguration [3, 2, 1, 3] 2 5 5 1 = [0, 0, 1, 1] := by decide
  obtain ⟨groups, hgroups, heq, hleast⟩ := findOptimalConfiguration_optimal [3, 2, 1, 3] (by decide) 5 (by decide)
    (by decide) 2 5 (by decide) 1 fun groups h => le_trans (groupsCost_le h (by decide) 1) (by decide)
  exact ⟨⟨by decide, by decide⟩, ⟨by decide, by decide⟩, groups, hgroups, heq.symm.trans hfound, heq, hleast⟩

/-- Of two costs the lesser is that of one packet, but as an `int` that of three packets looks like it. -/
theorem findOptimalConfiguration_not : Grouping [2, 1, 1] 4 [[2, 1, 1]] ∧
    findOptimalConfiguration [2, 1, 1] (-1) (-1) 4 2147483648 = numbered 0 [[2], [1], [1]] ∧
    groupsCost intMax 0 2147483648 [[2, 1, 1]] < groupsCost intMax 0 2147483648 [[2], [1], [1]] ∧
    CInt.i32 (groupsCost intMax 0 2147483648 [[2, 1, 1]]) < CInt.i32 (groupsCost intMax 0 2147483648
        [[2], [1], [1]]) := by
  refine ⟨⟨by decide, by decide⟩, by decide, by decide, by decide⟩

end WebRtc.Vp8
