import Mathlib.Algebra.Order.Group.Nat
import Mathlib.Algebra.Ring.Int.Defs
import Mathlib.Algebra.Ring.Nat
import Mathlib.Data.Int.Order.Basic
import Mathlib.Data.List.Basic
import Mathlib.Data.List.Induction
import WebRtc.Lib.CInt

/-!
# The aggregation of small partitions

| here | there |
| --- | --- |
| `PartitionTreeNode` | `vp8_partition_aggregator.cc:20-156`, `vp8_partition_aggregator.h:24-82` |
| `findOptimalConfiguration`, `calcMinMax`, `calcNumberOfFragments` | the functions of `Vp8PartitionAggregator` (:158-268) |

A node keeps the `packet_start_` of all nodes up to the root instead of its parent. The conversions of
sizes and costs to `int` wrap (the constructor of a node asserts that its size does not). Whatever the
costs are, the search ends in a leaf, and the packets of a leaf are consecutive partitions that fit
(`findOptimalConfiguration_groups`).
-/

namespace WebRtc.Vp8

def intMax : Int := 2147483647

structure PartitionTreeNode where
  /-- `packet_start_` of the node, of its parent, and so on. -/
  starts : List Bool
  /-- The sizes that are not placed yet. -/
  sizeVector : List Nat
  thisSize : Nat
  maxParentSize : Int
  minParentSize : Int
deriving DecidableEq, Repr

namespace PartitionTreeNode

def createRootNode (sizeVector : List Nat) : PartitionTreeNode :=
  ⟨[true], sizeVector.tail, sizeVector.headD 0, 0, intMax⟩

variable (node : PartitionTreeNode)

def numPackets : Nat := node.starts.count true

def thisSizeInt : Int := CInt.i32 node.thisSize

def cost (penalty : Nat) : Int :=
  let cost :=
    -- This is a solution node.
    if node.sizeVector = [] then
      max node.maxParentSize node.thisSizeInt - min node.minParentSize node.thisSizeInt
    else max node.maxParentSize node.thisSizeInt - node.minParentSize
  -- Added as `size_t`, returned as `int`.
  CInt.i32 (cost + node.numPackets * penalty)

/-- "Left" child is continuation of same packet. -/
def leftChild (maxSize : Nat) : Option PartitionTreeNode :=
  match node.sizeVector with
  | [] => none
  | size :: rest =>
    if node.thisSize + size ≤ maxSize then
      some ⟨false :: node.starts, rest, node.thisSize + size, node.maxParentSize, node.minParentSize⟩
    else none

/-- "Right" child starts a new packet. -/
def rightChild : Option PartitionTreeNode :=
  match node.sizeVector with
  | [] => none
  | size :: rest =>
    if node.thisSize > 0 then
      some ⟨true :: node.starts, rest, size, max node.maxParentSize node.thisSizeInt,
        min node.minParentSize node.thisSizeInt⟩
    else none

/-- One level for each size that is left. -/
def getOptimalNode (maxSize penalty : Nat) : Nat → PartitionTreeNode → PartitionTreeNode
  | 0, node => node
  | fuel + 1, node =>
    match node.leftChild maxSize, node.rightChild with
    | none, none => node
    | none, some right => getOptimalNode maxSize penalty fuel right
    | some left, none => getOptimalNode maxSize penalty fuel left
    | some left, some right =>
      let inOrder := decide (left.cost penalty ≤ right.cost penalty)
      let first := getOptimalNode maxSize penalty fuel (if inOrder then left else right)
      let second := if inOrder then right else left
      if second.cost penalty ≤ first.cost penalty then
        let second := getOptimalNode maxSize penalty fuel second
        -- Compare cost estimate for "second" with actual cost for "first".
        if second.cost penalty < first.cost penalty then second else first
      else first

end PartitionTreeNode

/-- The packet of every partition, from the leaf up; `packetIndex` is the packet of the last one. -/
def configVector : List Bool → Nat → List Nat → List Nat
  | [], _, config => config
  | start :: starts, packetIndex, config =>
    configVector starts (if start then packetIndex - 1 else packetIndex) ((packetIndex - 1) :: config)

/-- `SetPriorMinMax`, when there are earlier packets, and `FindOptimalConfiguration`. -/
def findOptimalConfiguration (sizeVector : List Nat) (minSize maxSize : Int) (maxPayloadLen penalty : Nat) : List Nat :=
  let root := PartitionTreeNode.createRootNode sizeVector
  let root := if minSize ≥ 0 ∧ maxSize ≥ 0 then
      { root with minParentSize := minSize, maxParentSize := maxSize } else root
  let opt := root.getOptimalNode maxPayloadLen penalty root.sizeVector.length
  configVector opt.starts opt.numPackets []

/-- The sizes of the packets, each with its index, go into the two extremes. -/
def calcMinMaxLoop : Nat → List (Nat × Nat) → Int × Int → Int × Int
  | 0, _, range => range
  | _ + 1, [], range => range
  | fuel + 1, (index, size) :: rest, (minSize, maxSize) =>
    let same := rest.takeWhile (fun p => p.1 = index)
    let thisSize : Int := (size + (same.map Prod.snd).sum : Nat)
    calcMinMaxLoop fuel (rest.drop same.length)
      (if thisSize < minSize then thisSize else minSize, if thisSize > maxSize then thisSize else maxSize)

def calcMinMax (config sizeVector : List Nat) (minSize maxSize : Int) : Int × Int :=
  calcMinMaxLoop config.length (config.zip sizeVector)
    (if minSize < 0 then intMax else minSize, if maxSize < 0 then 0 else maxSize)

/-- Round up so that we use the largest fragment. -/
def fragmentSize (largePartitionSize n : Nat) : Nat := (largePartitionSize + n - 1) / n

def fragmentCost (largePartitionSize penalty : Nat) (minSize maxSize : Int) (n : Nat) : Nat :=
  let size := fragmentSize largePartitionSize n
  if size < minSize.toNat then minSize.toNat - size + n * penalty
  else if size > maxSize.toNat then size - maxSize.toNat + n * penalty
  else n * penalty

/-- The best number so far and its cost. -/
def bestFragments (largePartitionSize maxPayloadSize penalty : Nat) (minSize maxSize : Int) (best : Option (Nat × Nat))
    (n : Nat) : Option (Nat × Nat) :=
  let cost := fragmentCost largePartitionSize penalty minSize maxSize n
  if fragmentSize largePartitionSize n ≤ maxPayloadSize ∧ best.all (fun b => decide (cost < b.2)) then some (n, cost)
  else best

def calcNumberOfFragments (largePartitionSize maxPayloadSize penalty : Nat) (minSize maxSize : Int) : Nat :=
  -- Divisions with rounding up.
  let minNumberOfFragments := (largePartitionSize + maxPayloadSize - 1) / maxPayloadSize
  -- No aggregates produced, so we do not have any size boundaries.
  if minSize < 0 ∨ maxSize < 0 then minNumberOfFragments
  else
    let maxNumberOfFragments := (largePartitionSize + minSize.toNat - 1) / minSize.toNat
    let candidates := List.range' minNumberOfFragments (maxNumberOfFragments + 1 - minNumberOfFragments)
    let best := candidates.foldl (bestFragments largePartitionSize maxPayloadSize penalty minSize maxSize) none
    -- `num_fragments` is -1 when there is none.
    (best.map Prod.fst).getD (2 ^ 64 - 1)

/-! ## The search -/

namespace PartitionTreeNode

/-- Where there are two children, one of them is followed. -/
theorem getOptimalNode_both {maxSize penalty fuel : Nat} {n left right : PartitionTreeNode}
    (hl : n.leftChild maxSize = some left) (hr : n.rightChild = some right) :
    n.getOptimalNode maxSize penalty (fuel + 1) = left.getOptimalNode maxSize penalty fuel ∨
      n.getOptimalNode maxSize penalty (fuel + 1) = right.getOptimalNode maxSize penalty fuel := by
  rw [getOptimalNode, hl, hr]
  dsimp only
  cases decide (left.cost penalty ≤ right.cost penalty) with
  | true =>
    rw [if_pos rfl, if_pos rfl]
    split
    · split
      · exact Or.inr rfl
      · exact Or.inl rfl
    · exact Or.inl rfl
  | false =>
    rw [if_neg Bool.false_ne_true, if_neg Bool.false_ne_true]
    split
    · split
      · exact Or.inl rfl
      · exact Or.inr rfl
    · exact Or.inr rfl

/-- What holds of a node and of every child of such a node holds of the node that is found. -/
theorem getOptimalNode_induct {P : PartitionTreeNode → Prop} {maxSize : Nat}
    (hleft : ∀ n m, P n → n.leftChild maxSize = some m → P m) (hright : ∀ n m, P n → n.rightChild = some m → P m)
    (penalty fuel : Nat) {n : PartitionTreeNode} (h : P n) : P (n.getOptimalNode maxSize penalty fuel) := by
  induction fuel generalizing n with
  | zero => exact h
  | succ fuel ih =>
    cases hl : n.leftChild maxSize with
    | none =>
      cases hr : n.rightChild with
      | none => simpa only [getOptimalNode, hl, hr] using h
      | some right => simpa only [getOptimalNode, hl, hr] using ih (hright n right h hr)
    | some left =>
      cases hr : n.rightChild with
      | none => simpa only [getOptimalNode, hl, hr] using ih (hleft n left h hl)
      | some right =>
        rcases @getOptimalNode_both _ penalty fuel _ _ _ hl hr with heq | heq
        · rw [heq]
          exact ih (hleft n left h hl)
        · rw [heq]
          exact ih (hright n right h hr)

/-- A node that is not empty has a right child until everything is placed. -/
theorem getOptimalNode_leaf (maxSize penalty fuel : Nat) {n : PartitionTreeNode} (hthis : 0 < n.thisSize)
    (hpos : ∀ s ∈ n.sizeVector, 0 < s) (hfuel : n.sizeVector.length ≤ fuel) :
    (n.getOptimalNode maxSize penalty fuel).sizeVector = [] := by
  induction fuel generalizing n with
  | zero => exact List.length_eq_zero_iff.1 (Nat.le_zero.1 hfuel)
  | succ fuel ih =>
    cases hs : n.sizeVector with
    | nil => simp only [getOptimalNode, leftChild, rightChild, hs]
    | cons size rest =>
      rw [hs] at hpos hfuel
      have hsize := hpos size List.mem_cons_self
      have hrest : ∀ s ∈ rest, 0 < s := fun s hs => hpos s (List.mem_cons_of_mem _ hs)
      have hfuel : rest.length ≤ fuel := Nat.le_of_succ_le_succ hfuel
      -- Either child leaves the rest to be placed.
      have hleft : ∀ m, n.leftChild maxSize = some m → (m.getOptimalNode maxSize penalty fuel).sizeVector = [] := by
        intro m hm
        simp only [leftChild, hs] at hm
        split at hm
        · obtain rfl := Option.some.inj hm
          exact ih (Nat.add_pos_left hthis _) hrest hfuel
        · exact absurd hm (by simp)
      have hright : ∀ m, n.rightChild = some m → (m.getOptimalNode maxSize penalty fuel).sizeVector = [] := by
        intro m hm
        simp only [rightChild, hs, hthis, if_true] at hm
        obtain rfl := Option.some.inj hm
        exact ih hsize hrest hfuel
      obtain ⟨right, hr⟩ : ∃ right, n.rightChild = some right := by
        simp only [rightChild, hs, hthis, if_true]
        exact ⟨_, rfl⟩
      cases hl : n.leftChild maxSize with
      | none => simpa only [getOptimalNode, hl, hr] using hright right hr
      | some left =>
        rcases @getOptimalNode_both _ penalty fuel _ _ _ hl hr with heq | heq
        · rw [heq]
          exact hleft left hl
        · rw [heq]
          exact hright right hr

end PartitionTreeNode

/-! ## The packets of a node -/

def marks (group : List Nat) : List Bool := true :: List.replicate (group.length - 1) false

theorem marks_snoc {group : List Nat} (h : group ≠ []) (size : Nat) :
    marks (group ++ [size]) = marks group ++ [false] := by
  have hpos := List.length_pos_iff.2 h
  have hlen : (group ++ [size]).length - 1 = (group.length - 1) + 1 := by
    rw [List.length_append, List.length_singleton]
    omega
  rw [marks, marks, hlen, List.replicate_succ', List.cons_append]

/-- The groups of partitions that a node stands for; the last one may still grow. -/
structure Grouped (sizes : List Nat) (maxSize : Nat) (n : PartitionTreeNode) (done : List (List Nat))
    (group : List Nat) :
    Prop where
  sizes : done.flatten ++ group ++ n.sizeVector = sizes
  size : n.thisSize = group.sum
  starts : n.starts.reverse = (done ++ [group]).flatMap marks
  fits : ∀ g ∈ done ++ [group], g ≠ [] ∧ g.sum ≤ maxSize

variable {sizes : List Nat} {maxSize : Nat} {n m : PartitionTreeNode} {done : List (List Nat)} {group : List Nat}

theorem Grouped.left (h : Grouped sizes maxSize n done group) (hm : n.leftChild maxSize = some m) :
    ∃ group', Grouped sizes maxSize m done group' := by
  unfold PartitionTreeNode.leftChild at hm
  split at hm
  · exact absurd hm (by simp)
  · rename_i size rest hs
    split at hm
    · rename_i hfits
      obtain rfl := Option.some.inj hm
      have hne := (h.fits group (by simp)).1
      refine ⟨group ++ [size], ?_, ?_, ?_, ?_⟩
      · rw [← h.sizes, hs]
        simp
      · simp [h.size]
      · simp [h.starts, marks_snoc hne]
      · intro g hg
        rcases List.mem_append.1 hg with hg | hg
        · exact h.fits g (List.mem_append_left _ hg)
        · rw [List.mem_singleton.1 hg]
          refine ⟨by simp, ?_⟩
          rw [h.size] at hfits
          simpa using hfits
    · exact absurd hm (by simp)

theorem Grouped.right (hmax : ∀ s ∈ sizes, s ≤ maxSize) (h : Grouped sizes maxSize n done group)
    (hm : n.rightChild = some m) : Grouped sizes maxSize m (done ++ [group]) [m.thisSize] := by
  unfold PartitionTreeNode.rightChild at hm
  split at hm
  · exact absurd hm (by simp)
  · rename_i size rest hs
    split at hm
    · obtain rfl := Option.some.inj hm
      refine ⟨?_, ?_, ?_, ?_⟩
      · rw [← h.sizes, hs]
        simp
      · simp
      · simp [h.starts, marks]
      · intro g hg
        rcases List.mem_append.1 hg with hg | hg
        · exact h.fits g hg
        · rw [List.mem_singleton.1 hg]
          refine ⟨by simp, ?_⟩
          have hmem : size ∈ sizes := by
            rw [← h.sizes, hs]
            simp
          simpa using hmax size hmem
    · exact absurd hm (by simp)

/-- The groups, numbered from `k` on. -/
def numbered (k : Nat) : List (List Nat) → List Nat
  | [] => []
  | group :: groups => List.replicate group.length k ++ numbered (k + 1) groups

theorem numbered_snoc (k : Nat) (groups : List (List Nat)) (group : List Nat) :
    numbered k (groups ++ [group]) = numbered k groups ++ List.replicate group.length (k + groups.length) := by
  induction groups generalizing k with
  | nil => simp [numbered]
  | cons g groups ih =>
    have hk : k + 1 + groups.length = k + (groups.length + 1) := by omega
    simp [numbered, ih, hk]

theorem count_marks (groups : List (List Nat)) : (groups.flatMap marks).count true = groups.length := by
  induction groups with
  | nil => rfl
  | cons g groups ih => simp [marks, ih, List.count_replicate]

theorem configVector_replicate (j : Nat) (starts : List Bool) (k : Nat) (config : List Nat) :
    configVector (List.replicate j false ++ starts) (k + 1) config =
      configVector starts (k + 1) (List.replicate j k ++ config) := by
  induction j generalizing config with
  | zero => rfl
  | succ j ih =>
    rw [List.replicate_succ, List.cons_append, configVector, if_neg Bool.false_ne_true, ih, List.replicate_succ']
    simp

theorem configVector_marks (groups : List (List Nat)) (hne : ∀ g ∈ groups, g ≠ []) (config : List Nat) :
    configVector (groups.flatMap marks).reverse groups.length config = numbered 0 groups ++ config := by
  induction groups using List.reverseRecOn generalizing config with
  | nil => rfl
  | append_singleton groups g ih =>
    have hpos := List.length_pos_iff.2 (hne g (by simp))
    have hg : List.replicate g.length groups.length = groups.length :: List.replicate (g.length - 1) groups.length := by
      rw [← List.replicate_succ, Nat.sub_add_cancel hpos]
    have hrev : ((groups ++ [g]).flatMap marks).reverse =
        List.replicate (g.length - 1) false ++ true :: (groups.flatMap marks).reverse := by
      simp [marks]
    rw [hrev, List.length_append, List.length_singleton, configVector_replicate, configVector, if_pos rfl,
      Nat.add_sub_cancel, ih (fun g hg => hne g (List.mem_append_left _ hg)), numbered_snoc, Nat.zero_add, hg]
    simp

theorem Grouped.root {size : Nat} {rest : List Nat} (hsize : size ≤ maxSize) (hstarts : n.starts = [true])
    (hsizes : n.sizeVector = rest) (hthis : n.thisSize = size) : Grouped (size :: rest) maxSize n [] [size] where
  sizes := by simp [hsizes]
  size := by simp [hthis]
  starts := by simp [hstarts, marks]
  fits g hg := by
    rw [List.nil_append, List.mem_singleton] at hg
    subst hg
    exact ⟨by simp, by simpa using hsize⟩

/-- A leaf has placed everything. -/
theorem Grouped.flatten_leaf (h : Grouped sizes maxSize n done group) (hleaf : n.sizeVector = []) :
    (done ++ [group]).flatten = sizes := by
  have hall := h.sizes
  rw [hleaf, List.append_nil] at hall
  simpa using hall

theorem Grouped.configVector_eq (h : Grouped sizes maxSize n done group) :
    configVector n.starts n.numPackets [] = numbered 0 (done ++ [group]) := by
  have hmarks : n.starts = ((done ++ [group]).flatMap marks).reverse := by rw [← h.starts, List.reverse_reverse]
  rw [PartitionTreeNode.numPackets, hmarks, List.count_reverse, count_marks,
    configVector_marks _ (fun g hg => (h.fits g hg).1), List.append_nil]

/-- **The optimal configuration** puts consecutive partitions together, as many as fit into a packet. -/
theorem findOptimalConfiguration_groups (sizeVector : List Nat) (hne : sizeVector ≠ []) {maxPayloadLen : Nat}
    (h : ∀ s ∈ sizeVector, 0 < s ∧ s ≤ maxPayloadLen) (minSize maxSize : Int) (penalty : Nat) :
    ∃ groups : List (List Nat), groups.flatten = sizeVector ∧ (∀ g ∈ groups, g ≠ [] ∧ g.sum ≤ maxPayloadLen) ∧
      findOptimalConfiguration sizeVector minSize maxSize maxPayloadLen penalty = numbered 0 groups := by
  obtain ⟨size, rest, rfl⟩ := List.exists_cons_of_ne_nil hne
  unfold findOptimalConfiguration
  dsimp only
  generalize hroot : (if minSize ≥ 0 ∧ maxSize ≥ 0 then
    { PartitionTreeNode.createRootNode (size :: rest) with minParentSize := minSize, maxParentSize := maxSize }
    else PartitionTreeNode.createRootNode (size :: rest)) = root
  have hstarts : root.starts = [true] := by
    rw [← hroot]
    split <;> rfl
  have hsizes : root.sizeVector = rest := by
    rw [← hroot]
    split <;> rfl
  have hthis : root.thisSize = size := by
    rw [← hroot]
    split <;> rfl
  obtain ⟨done, group, hopt⟩ := PartitionTreeNode.getOptimalNode_induct
    (P := fun n => ∃ done group, Grouped (size :: rest) maxPayloadLen n done group)
    (fun n m ⟨done, group, hn⟩ hm => ⟨done, hn.left hm⟩)
    (fun n m ⟨done, group, hn⟩ hm => ⟨_, _, hn.right (fun s hs => (h s hs).2) hm⟩) penalty root.sizeVector.length
    ⟨[], [size], .root (h size List.mem_cons_self).2 hstarts hsizes hthis⟩
  have hleaf := PartitionTreeNode.getOptimalNode_leaf maxPayloadLen penalty root.sizeVector.length (n := root)
    (by rw [hthis]; exact (h size List.mem_cons_self).1)
    (fun s hs => (h s (List.mem_cons_of_mem _ (hsizes ▸ hs))).1) (Nat.le_refl _)
  exact ⟨done ++ [group], hopt.flatten_leaf hleaf, hopt.fits, hopt.configVector_eq⟩

/-! ## The sizes of the packets -/

theorem zip_numbered (k : Nat) (group : List Nat) (groups : List (List Nat)) :
    (numbered k (group :: groups)).zip (group :: groups).flatten =
      group.map (fun s => (k, s)) ++ (numbered (k + 1) groups).zip groups.flatten := by
  have hzip : (List.replicate group.length k).zip group = group.map (fun s => (k, s)) := by
    induction group with
    | nil => rfl
    | cons s group ih => simp [List.replicate_succ, ih]
  rw [numbered, List.flatten_cons, List.zip_append (by simp), hzip]

/-- The run of the first packet ends where the next one begins. -/
theorem takeWhile_numbered (k : Nat) (group : List Nat) (groups : List (List Nat)) (hne : ∀ g ∈ groups, g ≠ []) :
    (group.map (fun s => (k, s)) ++ (numbered (k + 1) groups).zip groups.flatten).takeWhile
      (fun p => decide (p.1 = k)) = group.map (fun s => (k, s)) := by
  rw [List.takeWhile_append_of_pos (by simp)]
  have hnext : ((numbered (k + 1) groups).zip groups.flatten).takeWhile (fun p => decide (p.1 = k)) = [] := by
    cases groups with
    | nil => rfl
    | cons g groups =>
      obtain ⟨s, rest, rfl⟩ := List.exists_cons_of_ne_nil (hne g List.mem_cons_self)
      rw [zip_numbered]
      simp
  rw [hnext, List.append_nil]

/-- The minimum stays positive and becomes the size of a packet. -/
theorem calcMinMaxLoop_min {maxPayloadLen : Nat} (groups : List (List Nat))
    (hfits : ∀ g ∈ groups, g ≠ [] ∧ g.sum ≤ maxPayloadLen)
    (hpos : ∀ g ∈ groups, ∀ s ∈ g, 0 < s) (k fuel : Nat) (hfuel : groups.length ≤ fuel)
    (range : Int × Int) (h1 : 1 ≤ range.1) :
    1 ≤ (calcMinMaxLoop fuel ((numbered k groups).zip groups.flatten) range).1 ∧
      (calcMinMaxLoop fuel ((numbered k groups).zip groups.flatten) range).1 ≤ range.1 ∧
      (groups ≠ [] → (calcMinMaxLoop fuel ((numbered k groups).zip groups.flatten) range).1 ≤ maxPayloadLen) := by
  induction groups generalizing k fuel range with
  | nil => cases fuel <;> exact ⟨h1, Int.le_refl _, fun h => absurd rfl h⟩
  | cons group groups ih =>
    obtain ⟨fuel, rfl⟩ : ∃ f, fuel = f + 1 := ⟨fuel - 1, by simp only [List.length_cons] at hfuel; omega⟩
    obtain ⟨hne, hsum⟩ := hfits group List.mem_cons_self
    obtain ⟨size, rest, rfl⟩ := List.exists_cons_of_ne_nil hne
    have hsize := hpos _ List.mem_cons_self size List.mem_cons_self
    have hrun := takeWhile_numbered k rest groups (fun g hg => (hfits g (List.mem_cons_of_mem _ hg)).1)
    rw [zip_numbered, List.map_cons, List.cons_append, calcMinMaxLoop, hrun, List.drop_left, List.map_map]
    have hid : rest.map (Prod.snd ∘ fun s => (k, s)) = rest := by simp [Function.comp_def]
    rw [hid]
    rw [List.sum_cons] at hsum
    have hnew : 1 ≤ (if ((size + rest.sum : Nat) : Int) < range.1 then ((size + rest.sum : Nat) : Int) else range.1) ∧
        (if ((size + rest.sum : Nat) : Int) < range.1 then ((size + rest.sum : Nat) : Int) else range.1) ≤ range.1 ∧
        (if ((size + rest.sum : Nat) : Int) < range.1 then ((size + rest.sum : Nat) : Int)
            else range.1) ≤ maxPayloadLen := by
      split <;> omega
    obtain ⟨ih1, ih2, -⟩ := ih (fun g hg => hfits g (List.mem_cons_of_mem _ hg))
      (fun g hg => hpos g (List.mem_cons_of_mem _ hg)) (k + 1) fuel (Nat.le_of_succ_le_succ hfuel)
      (if ((size + rest.sum : Nat) : Int) < range.1 then ((size + rest.sum : Nat) : Int) else range.1,
        if ((size + rest.sum : Nat) : Int) > range.2 then ((size + rest.sum : Nat) : Int) else range.2) hnew.1
    exact ⟨ih1, Int.le_trans ih2 hnew.2.1, fun _ => Int.le_trans ih2 hnew.2.2⟩

/-! ## The fragments of a large partition -/

theorem fragmentSize_le {largePartitionSize n q : Nat} (hn : 0 < n) :
    fragmentSize largePartitionSize n ≤ q ↔ largePartitionSize ≤ n * q := by
  rw [fragmentSize, Nat.div_le_iff_le_mul_add_pred hn]
  omega

/-- A number of fragments that fit and leave none empty. -/
structure Splits (largePartitionSize maxPayloadSize n : Nat) : Prop where
  fits : fragmentSize largePartitionSize n ≤ maxPayloadSize
  used : (n - 1) * fragmentSize largePartitionSize n < largePartitionSize
  pos : 0 < n

section Fragments
variable {size maxPayloadSize penalty : Nat} {minSize maxSize : Int}

/-- The best of the numbers that have been tried; of equals it is the first. -/
def Best (size maxPayloadSize penalty : Nat) (minSize maxSize : Int) (tried : List Nat) : Option (Nat × Nat) → Prop
  | none => ∀ m ∈ tried, ¬ fragmentSize size m ≤ maxPayloadSize
  | some (n, cost) => n ∈ tried ∧ fragmentSize size n ≤ maxPayloadSize ∧
    cost = fragmentCost size penalty minSize maxSize n ∧
      ∀ m ∈ tried, fragmentSize size m ≤ maxPayloadSize →
        cost ≤ fragmentCost size penalty minSize maxSize m ∧
          (m < n → cost < fragmentCost size penalty minSize maxSize m)

theorem best_step {tried : List Nat} {best : Option (Nat × Nat)}
    (h : Best size maxPayloadSize penalty minSize maxSize tried best)
    {n : Nat} (hn : ∀ m ∈ tried, m < n) :
    Best size maxPayloadSize penalty minSize maxSize (tried ++ [n])
      (bestFragments size maxPayloadSize penalty minSize maxSize best n) := by
  unfold bestFragments
  cases best with
  | none =>
    by_cases hfit : fragmentSize size n ≤ maxPayloadSize
    · rw [if_pos ⟨hfit, rfl⟩]
      refine ⟨by simp, hfit, rfl, ?_⟩
      intro m hm hmfit
      rcases List.mem_append.1 hm with hm | hm
      · exact absurd hmfit (h m hm)
      · obtain rfl := List.mem_singleton.1 hm
        exact ⟨Nat.le_refl _, fun hlt => absurd hlt (Nat.lt_irrefl _)⟩
    · rw [if_neg (fun hc => hfit hc.1)]
      intro m hm
      rcases List.mem_append.1 hm with hm | hm
      · exact h m hm
      · rw [List.mem_singleton.1 hm]
        exact hfit
  | some b =>
    obtain ⟨hmem, hbfit, hcost, hbest⟩ := h
    by_cases hc : fragmentSize size n ≤ maxPayloadSize ∧ fragmentCost size penalty minSize maxSize n < b.2
    · rw [if_pos (by simpa using hc)]
      refine ⟨by simp, hc.1, rfl, ?_⟩
      intro m hm hmfit
      rcases List.mem_append.1 hm with hm | hm
      · have hle := (hbest m hm hmfit).1
        exact ⟨by omega, fun _ => by omega⟩
      · obtain rfl := List.mem_singleton.1 hm
        exact ⟨Nat.le_refl _, fun hlt => absurd hlt (Nat.lt_irrefl _)⟩
    · rw [if_neg (by simpa using hc)]
      refine ⟨List.mem_append_left _ hmem, hbfit, hcost, ?_⟩
      intro m hm hmfit
      rcases List.mem_append.1 hm with hm | hm
      · exact hbest m hm hmfit
      · obtain rfl := List.mem_singleton.1 hm
        have hlt := hn _ hmem
        exact ⟨by omega, fun h => by omega⟩

theorem best_range (first count : Nat) : Best size maxPayloadSize penalty minSize maxSize (List.range' first count)
    ((List.range' first count).foldl (bestFragments size maxPayloadSize penalty minSize maxSize) none) := by
  induction count with
  | zero =>
    intro m hm
    simp at hm
  | succ count ih =>
    rw [List.range'_concat, Nat.one_mul, List.foldl_append]
    refine best_step ih ?_
    intro m hm
    rw [List.mem_range'_1] at hm
    exact hm.2

/-- One fragment less of the same size would have been cheaper. -/
theorem fragmentCost_pred {n : Nat} (hpen : 0 < penalty) (hn : 1 < n) (hsame : fragmentSize size
    (n - 1) = fragmentSize size n) :
    fragmentCost size penalty minSize maxSize (n - 1) < fragmentCost size penalty minSize maxSize n := by
  have hmul : (n - 1) * penalty + penalty = n * penalty := by
    rw [← Nat.succ_mul]
    congr 1
    omega
  unfold fragmentCost
  dsimp only
  rw [hsame]
  split
  · omega
  · split <;> omega

theorem minFragments_le {n : Nat} (hmax : 0 < maxPayloadSize) :
    (size + maxPayloadSize - 1) / maxPayloadSize ≤ n ↔ size ≤ maxPayloadSize * n := by
  rw [Nat.div_le_iff_le_mul_add_pred hmax]
  omega

/-- **The number of fragments**: all fit, and none is empty. -/
theorem calcNumberOfFragments_splits (hsize : 0 < size) (hmax : 0 < maxPayloadSize) (hpen : 0 < penalty)
    (hmin : minSize < 0 ∨ 1 ≤ minSize ∧ minSize ≤ maxPayloadSize) :
    Splits size maxPayloadSize (calcNumberOfFragments size maxPayloadSize penalty minSize maxSize) := by
  unfold calcNumberOfFragments
  dsimp only
  generalize hfirst : (size + maxPayloadSize - 1) / maxPayloadSize = first
  have hle : ∀ n, first ≤ n ↔ size ≤ maxPayloadSize * n := by
    intro n
    rw [← hfirst]
    exact minFragments_le hmax
  have hpos : 0 < first := by
    rw [Nat.pos_iff_ne_zero]
    intro h0
    have := (hle 0).1 (Nat.le_of_eq h0)
    omega
  have hfit : ∀ n, 0 < n → (fragmentSize size n ≤ maxPayloadSize ↔ first ≤ n) := by
    intro n hn
    rw [fragmentSize_le hn, hle, Nat.mul_comm]
  by_cases hno : minSize < 0 ∨ maxSize < 0
  · rw [if_pos hno]
    refine ⟨(hfit first hpos).2 (Nat.le_refl _), ?_, hpos⟩
    by_contra hused
    have hless : first ≤ first - 1 := by
      rw [hle]
      calc size ≤ (first - 1) * fragmentSize size first := Nat.not_lt.1 hused
        _ ≤ (first - 1) * maxPayloadSize := Nat.mul_le_mul_left _ ((hfit first hpos).2 (Nat.le_refl _))
        _ = maxPayloadSize * (first - 1) := Nat.mul_comm _ _
    omega
  · rw [if_neg hno]
    obtain ⟨hmin1, hminMax⟩ : 1 ≤ minSize ∧ minSize ≤ maxPayloadSize := hmin.resolve_left (fun h => hno (Or.inl h))
    generalize hlast : (size + minSize.toNat - 1) / minSize.toNat = last
    have hle_last : first ≤ last := by
      rw [hle]
      have hm := (@minFragments_le size minSize.toNat last (by omega)).1 (Nat.le_of_eq hlast)
      calc size ≤ minSize.toNat * last := hm
        _ ≤ maxPayloadSize * last := Nat.mul_le_mul_right _ (by omega)
    have hbest := @best_range size maxPayloadSize penalty minSize maxSize first (last + 1 - first)
    have hmem : first ∈ List.range' first (last + 1 - first) := by
      rw [List.mem_range'_1]
      omega
    generalize (List.range' first (last + 1 - first)).foldl
      (bestFragments size maxPayloadSize penalty minSize maxSize) none =
      best at hbest ⊢
    cases best with
    | none => exact absurd ((hfit first hpos).2 (Nat.le_refl _)) (hbest first hmem)
    | some b =>
      obtain ⟨n, cost⟩ := b
      obtain ⟨hn, hnfit, hcost, hleast⟩ := hbest
      rw [List.mem_range'_1] at hn
      have hnpos : 0 < n := by omega
      refine ⟨hnfit, ?_, hnpos⟩
      show (n - 1) * fragmentSize size n < size
      by_contra hused
      -- Without its last fragment the partition would be split into fragments of the same size.
      have h1 : 1 < n := by
        by_contra h
        have h0 : n - 1 = 0 := by omega
        rw [h0, Nat.zero_mul] at hused
        exact hused hsize
      have hsame : fragmentSize size (n - 1) = fragmentSize size n := by
        apply Nat.le_antisymm
        · rw [fragmentSize_le (by omega)]
          exact Nat.not_lt.1 hused
        · rw [fragmentSize_le hnpos]
          calc size ≤ (n - 1) * fragmentSize size (n - 1) := (fragmentSize_le (by omega)).1 (Nat.le_refl _)
            _ ≤ n * fragmentSize size (n - 1) := Nat.mul_le_mul_right _ (Nat.sub_le _ _)
      have hfit' : fragmentSize size (n - 1) ≤ maxPayloadSize := hsame ▸ hnfit
      have hfirst' := (hfit (n - 1) (by omega)).1 hfit'
      have hcheaper := (hleast (n - 1) (by rw [List.mem_range'_1]; omega) hfit').1
      have hpred := @fragmentCost_pred size penalty minSize maxSize n hpen h1 hsame
      omega

end Fragments

end WebRtc.Vp8
