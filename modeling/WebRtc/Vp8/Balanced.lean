import Mathlib.Data.List.TakeWhile
import WebRtc.Vp8.EqualSize

/-!
# Aggregated packets

`AggregateSmallPartitions` decides for every partition: -1 for one that is to be split, and one number for
all that go into the same packet (`Packed`). The packets that are made of such decisions cover the frame,
and each begins with a partition or goes on with the one it splits.
-/

namespace WebRtc.Vp8

open RtpPacketizerVp8 (splitPartition)

/-- Partitions and their decisions: neighbours with the same number fit into a packet. -/
inductive Packed (room : Nat) : List (Nat × Int) → Prop where
  | nil : Packed room []
  | split {length : Nat} {rest : List (Nat × Int)} (others : Packed room rest) : Packed room ((length, -1) :: rest)
  | group {g : List Nat} {k : Int} {rest : List (Nat × Int)} (ne : g ≠ []) (fits : g.sum ≤ room) (number : 0 ≤ k)
      (ends : ∀ q, rest.head? = some q → q.2 ≠ k) (others : Packed room rest) :
      Packed room (g.map (fun length => (length, k)) ++ rest)

/-- The least size so far, when there is one. -/
def MinOk (room : Nat) (minSize : Int) : Prop := minSize < 0 ∨ 1 ≤ minSize ∧ minSize ≤ room

variable {room : Nat}

/-- The groups of a set, numbered from `k` on, before what is not small. -/
theorem packed_numbered (groups : List (List Nat)) (hfits : ∀ g ∈ groups, g ≠ [] ∧ g.sum ≤ room) (k : Nat) {num : Int}
    (hnum : 0 ≤ num) {tail : List (Nat × Int)} (htail : Packed room tail)
    (hends : ∀ q, tail.head? = some q → q.2 = -1) :
    Packed room (groups.flatten.zip ((numbered k groups).map fun (c : Nat) => num + (c : Int)) ++ tail) := by
  induction groups generalizing k with
  | nil => exact htail
  | cons g groups ih =>
    obtain ⟨hne, hsum⟩ := hfits g List.mem_cons_self
    have hzip : (g :: groups).flatten.zip ((numbered k (g :: groups)).map fun (c : Nat) => num + (c : Int)) ++ tail =
        g.map (fun length => (length, num + (k : Int))) ++
          (groups.flatten.zip ((numbered (k + 1) groups).map fun (c : Nat) => num + (c : Int)) ++ tail) := by
      have hg : g.zip (List.replicate g.length (num + (k : Int))) = g.map (fun length =>
          (length, num + (k : Int))) := by
        clear hne hsum hfits
        induction g with
        | nil => rfl
        | cons s g ih => simp [List.replicate_succ, ih]
      rw [numbered, List.flatten_cons, List.map_append, List.map_replicate,
        List.zip_append (by simp), hg, List.append_assoc]
    rw [hzip]
    refine .group hne hsum (by omega) ?_ (ih (fun g hg => hfits g (List.mem_cons_of_mem _ hg)) (k + 1))
    intro q hq
    cases groups with
    | nil =>
      have := hends q hq
      omega
    | cons g' groups =>
      obtain ⟨s, rest, rfl⟩ := List.exists_cons_of_ne_nil (hfits g' (by simp)).1
      simp only [numbered, List.flatten_cons, List.length_cons, List.replicate_succ, List.cons_append, List.map_cons,
        List.zip_cons_cons, List.head?_cons, Option.some.injEq] at hq
      rw [← hq]
      dsimp only
      omega

theorem numbered_length (k : Nat) (groups : List (List Nat)) : (numbered k groups).length = groups.flatten.length := by
  induction groups generalizing k with
  | nil => rfl
  | cons g groups ih => simp [numbered, ih]

section Decisions
variable {p : RtpPacketizerVp8}

/-- What `AggregateSmallPartitions` gives for the partitions that are left. -/
structure Decided (p : RtpPacketizerVp8) (lengths : List Nat) (result : List Int × Int × Int) : Prop where
  packed : Packed p.room (lengths.zip result.1)
  length : result.1.length = lengths.length
  min : MinOk p.room result.2.1
  large : ∀ length, lengths.head? = some length → ¬ length < p.room → result.1.head? = some (-1)

theorem aggregateSmallPartitions_decided (fuel : Nat) (lengths : List Nat) (hfuel : lengths.length ≤ fuel)
    (hpos : ∀ l ∈ lengths, 0 < l) {minSize maxSize num : Int} (hmin : MinOk p.room minSize) (hnum : 0 ≤ num) :
    Decided p lengths (p.aggregateSmallPartitions fuel lengths minSize maxSize num) := by
  induction fuel generalizing lengths minSize maxSize num with
  | zero =>
    have hnil := List.length_eq_zero_iff.1 (Nat.le_zero.1 hfuel)
    subst hnil
    exact ⟨.nil, rfl, hmin, by simp⟩
  | succ fuel ih =>
    cases lengths with
    | nil => exact ⟨.nil, rfl, hmin, by simp⟩
    | cons length rest =>
      rw [RtpPacketizerVp8.aggregateSmallPartitions]
      have hrestpos : ∀ l ∈ rest, 0 < l := fun l hl => hpos l (List.mem_cons_of_mem _ hl)
      by_cases hsmall : length < p.room
      · rw [if_pos hsmall]
        have hset : ∀ s ∈ length :: rest.takeWhile (fun l => decide (l < p.room)), 0 < s ∧ s ≤ p.room := by
          intro s hs
          rcases List.mem_cons.1 hs with rfl | hs
          · exact ⟨hpos _ List.mem_cons_self, Nat.le_of_lt hsmall⟩
          · have hlt := List.mem_takeWhile_imp hs
            rw [decide_eq_true_eq] at hlt
            exact ⟨hrestpos s ((List.takeWhile_prefix _).subset hs), Nat.le_of_lt hlt⟩
        obtain ⟨groups, hflat, hgroups, hconfig⟩ :=
          findOptimalConfiguration_groups _ (List.cons_ne_nil _ _) hset minSize maxSize
          p.hdrInfo.descriptorLength
        have hgroupspos : ∀ g ∈ groups, ∀ s ∈ g, 0 < s := by
          intro g hg s hs
          exact (hset s (hflat ▸ List.mem_flatten_of_mem hg hs)).1
        have hne : groups ≠ [] := by
          rintro rfl
          simp at hflat
        have hminmax : MinOk p.room (calcMinMax (numbered 0 groups) groups.flatten minSize maxSize).1 := by
          have h1 : 1 ≤ (if minSize < 0 then intMax else minSize) := by
            have hbig : 1 ≤ intMax := by decide
            unfold MinOk at hmin
            split <;> omega
          have hspec := calcMinMaxLoop_min groups hgroups hgroupspos 0 (numbered 0 groups).length (by
            rw [numbered_length]
            clear hflat hconfig hne hgroupspos
            induction groups with
            | nil => exact Nat.le_refl _
            | cons g groups ih =>
              have hg := List.length_pos_iff.2 (hgroups g List.mem_cons_self).1
              have hrest := ih (fun g hg => hgroups g (List.mem_cons_of_mem _ hg))
              simp only [List.length_cons, List.flatten_cons, List.length_append]
              omega) (if minSize < 0 then intMax else minSize, if maxSize < 0 then 0 else maxSize) h1
          exact Or.inr ⟨hspec.1, hspec.2.2 hne⟩
        rw [← hflat] at hconfig ⊢
        simp only [hconfig]
        generalize calcMinMax (numbered 0 groups) groups.flatten minSize maxSize = range at hminmax
        have hdrop : rest.dropWhile (fun l => decide (l < p.room)) = rest.drop
            (rest.takeWhile fun l => decide (l < p.room)).length := by
          have hleft : (rest.takeWhile (fun l => decide (l < p.room)) ++ rest.dropWhile fun l =>
            decide (l < p.room)).drop
              (rest.takeWhile fun l => decide (l < p.room)).length = rest.dropWhile fun l =>
                decide (l < p.room) := List.drop_left
          rw [List.takeWhile_append_dropWhile] at hleft
          exact hleft.symm
        have hshort : (rest.dropWhile fun l => decide (l < p.room)).length ≤ fuel := by
          rw [hdrop, List.length_drop]
          simp only [List.length_cons] at hfuel
          omega
        have hothers : Decided p (rest.dropWhile fun l => decide (l < p.room))
            (p.aggregateSmallPartitions fuel (rest.dropWhile fun l => decide (l < p.room)) range.1 range.2
              (num + (((numbered 0 groups).getLastD 0 : Nat) : Int) + 1)) :=
          ih _ hshort (fun l hl => hrestpos l (List.dropWhile_subset _ hl)) hminmax (by omega)
        generalize p.aggregateSmallPartitions fuel (rest.dropWhile fun l => decide (l < p.room)) range.1 range.2
          (num + (((numbered 0 groups).getLastD 0 : Nat) : Int) + 1) = others at hothers
        have hall : length :: rest = groups.flatten ++ rest.dropWhile (fun l => decide (l < p.room)) := by
          rw [hflat, List.cons_append, List.takeWhile_append_dropWhile]
        have hlen : ((numbered 0 groups).map fun (c : Nat) => num + (c : Int)).length = groups.flatten.length := by
          rw [List.length_map, numbered_length]
        refine ⟨?_, ?_, hothers.min, ?_⟩
        · rw [hall, List.zip_append hlen.symm]
          refine packed_numbered groups hgroups 0 hnum hothers.packed ?_
          intro q hq
          cases hrest : rest.dropWhile (fun l => decide (l < p.room)) with
          | nil => rw [hrest] at hq; simp at hq
          | cons l ls =>
            have hnot : ¬ l < p.room := by
              have hd := List.head?_dropWhile_not (fun l => decide (l < p.room)) rest
              rw [hrest] at hd
              simpa using hd
            have hhead := hothers.large l (by rw [hrest]; rfl) hnot
            obtain ⟨d, ds, hds⟩ : ∃ d ds, others.1 = d :: ds := by
              cases hd : others.1 with
              | nil => rw [hd] at hhead; simp at hhead
              | cons d ds => exact ⟨d, ds, rfl⟩
            rw [hds] at hhead
            rw [hrest, hds] at hq
            simp only [List.head?_cons, Option.some.injEq] at hhead
            simp only [List.zip_cons_cons, List.head?_cons, Option.some.injEq] at hq
            rw [← hq]
            exact hhead
        · rw [hall, List.length_append, List.length_append, hlen, hothers.length]
        · intro l hl hlarge
          simp only [List.head?_cons, Option.some.injEq] at hl
          omega
      · rw [if_neg hsmall]
        have hothers : Decided p rest (p.aggregateSmallPartitions fuel rest minSize maxSize num) :=
          ih rest (Nat.le_of_succ_le_succ hfuel) hrestpos hmin hnum
        generalize p.aggregateSmallPartitions fuel rest minSize maxSize num = others at hothers
        exact ⟨.split hothers.packed, by simp [hothers.length], hothers.min, fun _ _ _ => rfl⟩

end Decisions

/-! ## The packets -/

/-- Pieces of the frame from byte `total` to byte `stop`, each marked as it should be. -/
structure Pieces (frame : Frame) (room total stop : Nat) (infos : List InfoStruct) : Prop where
  tiles : Cut.Tiles InfoStruct.payloadStartPos InfoStruct.size total infos stop
  fits : ∀ i ∈ infos, 0 < i.size ∧ i.size ≤ room
  partition : ∀ i ∈ infos, frame.Contains i.firstPartitionIx i.payloadStartPos
  marked : ∀ i ∈ infos, Marked frame i

variable {frame : Frame}

theorem Pieces.append {total middle stop : Nat} {l m : List InfoStruct} (h : Pieces frame room total middle l)
    (h' : Pieces frame room middle stop m) : Pieces frame room total stop (l ++ m) := by
  refine ⟨h.tiles.append h'.tiles, ?_, ?_, ?_⟩ <;> intro i hi <;> rcases List.mem_append.1 hi with hi | hi
  · exact h.fits i hi
  · exact h'.fits i hi
  · exact h.partition i hi
  · exact h'.partition i hi
  · exact h.marked i hi
  · exact h'.marked i hi

theorem Pieces.single {i : InfoStruct} (hsize : 0 < i.size ∧ i.size ≤ room)
    (hpart : frame.Contains i.firstPartitionIx i.payloadStartPos) (hmarked : Marked frame i) :
    Pieces frame room i.payloadStartPos (i.payloadStartPos + i.size) [i] := by
  refine ⟨.single rfl rfl, ?_, ?_, ?_⟩ <;> intro j hj <;> rw [List.mem_singleton.1 hj] <;> assumption

theorem Pieces.nil (total : Nat) : Pieces frame room total total [] := ⟨.nil _, by simp, by simp, by simp⟩

/-- **A partition that is split**: fragments `n` and on. -/
theorem splitPartition_pieces {packetBytes ix left n remaining total : Nat} {minSize maxSize : Int}
    (hb : packetBytes ≤ room) (hbpos : 0 < packetBytes) (hn : n = 0 ↔ total = frame.offset ix)
    (hstart : frame.offset ix ≤ total) (hend : total + remaining = frame.offset (ix + 1))
    (hix : ix < frame.lengths.length)
    (hleft : remaining ≤ left * packetBytes) (hused : 0 < left → (left - 1) * packetBytes < remaining)
    (hmin : MinOk room minSize) :
    Pieces frame room total (frame.offset (ix + 1))
      (splitPartition packetBytes ix left n remaining total minSize maxSize).1 ∧
      (splitPartition packetBytes ix left n remaining total minSize maxSize).2.1 = frame.offset (ix + 1) ∧
      MinOk room (splitPartition packetBytes ix left n remaining total minSize maxSize).2.2.1 := by
  induction left generalizing n remaining total minSize maxSize with
  | zero =>
    rw [Nat.zero_mul] at hleft
    have hdone : total = frame.offset (ix + 1) := by omega
    rw [splitPartition, ← hdone]
    exact ⟨.nil _, rfl, hmin⟩
  | succ left ih =>
    have hused := hused (Nat.succ_pos _)
    rw [Nat.add_sub_cancel] at hused
    rw [Nat.succ_mul] at hleft
    rw [splitPartition]
    generalize hthis : (if packetBytes < remaining then packetBytes else remaining) = this
    have hpos : 0 < this ∧ this ≤ packetBytes ∧ this ≤ remaining := by
      rw [← hthis]
      split <;> omega
    have hnext : remaining - this ≤ left * packetBytes ∧ (0 < left → (left - 1) * packetBytes < remaining - this) := by
      cases left with
      | zero =>
        rw [← hthis]
        split <;> omega
      | succ left =>
        have e : (left + 1) * packetBytes = left * packetBytes + packetBytes := Nat.succ_mul _ _
        have h0 := Nat.zero_le (left * packetBytes)
        rw [← hthis, if_pos (by omega)]
        simp only [Nat.add_sub_cancel]
        omega
    have hmin' : MinOk room (if (this : Int) < minSize then (this : Int) else minSize) := by
      unfold MinOk at hmin ⊢
      split <;> omega
    obtain ⟨hpieces, htotal, hrange⟩ := @ih (n + 1) (remaining - this) (total + this) _
      (if (this : Int) > maxSize then (this : Int) else maxSize) (by omega) (by omega) (by omega) hnext.1 hnext.2 hmin'
    dsimp only
    refine ⟨?_, htotal, hrange⟩
    exact Pieces.append (Pieces.single (i := ⟨total, this, decide (n = 0), ix⟩) ⟨hpos.1, by dsimp only; omega⟩
      ⟨hix, hstart, by dsimp only; omega⟩ (by simpa [Marked] using hn)) hpieces

/-- The partitions of a list that begins with partition `ix` of the frame. -/
theorem offset_add {pre post rest : List Nat} (h : frame.lengths = pre ++ post ++ rest) :
    frame.offset (pre.length + post.length) = frame.offset pre.length + post.sum := by
  have htake : frame.lengths.take (pre.length + post.length) = pre ++ post := by
    rw [h, ← List.length_append, List.take_left]
  have htake' : frame.lengths.take pre.length = pre := by
    rw [h, List.append_assoc, List.take_left]
  rw [Frame.offset, Frame.offset, htake, htake', List.sum_append]

section Loop
variable {p : RtpPacketizerVp8}

/-- **Aggregation**: the decisions give packets that cover the frame. -/
theorem aggregateLoop_pieces (hroom : 0 < p.room) (fuel : Nat) {todo : List (Nat × Int)} (hpacked : Packed p.room todo)
    (hfuel : todo.length ≤ fuel) {pre : List Nat} (hlengths : frame.lengths = pre ++ todo.map Prod.fst)
    {minSize maxSize : Int} (hmin : MinOk p.room minSize) :
    Pieces frame p.room (frame.offset pre.length) frame.data.length
      (p.aggregateLoop fuel todo pre.length (frame.offset pre.length) minSize maxSize) := by
  induction fuel generalizing todo pre minSize maxSize with
  | zero =>
    have hnil := List.length_eq_zero_iff.1 (Nat.le_zero.1 hfuel)
    subst hnil
    simp only [List.map_nil, List.append_nil] at hlengths
    rw [← hlengths, frame.offset_length]
    exact .nil _
  | succ fuel ih =>
    cases hpacked with
    | nil =>
      simp only [List.map_nil, List.append_nil] at hlengths
      rw [← hlengths, frame.offset_length]
      exact .nil _
    | @split length rest others =>
      have hlengths' : frame.lengths = (pre ++ [length]) ++ rest.map Prod.fst := by rw [hlengths]; simp
      have hix : pre.length < frame.lengths.length := by rw [hlengths]; simp
      have hlen : frame.lengths.getD pre.length 0 = length := by
        rw [hlengths, List.getD_eq_getElem?_getD]
        simp
      have hpos := Frame.length_pos hix
      rw [hlen] at hpos
      have hoff := frame.offset_succ pre.length
      rw [hlen] at hoff
      have hdesc : 0 < p.hdrInfo.descriptorLength := by
        rw [RTPVideoHeaderVP8.descriptorLength]
        omega
      obtain ⟨hfits, hused, hnum⟩ := @calcNumberOfFragments_splits _ _ _ _ maxSize hpos hroom hdesc hmin
      rw [RtpPacketizerVp8.aggregateLoop, if_pos rfl]
      generalize calcNumberOfFragments length p.room p.hdrInfo.descriptorLength minSize maxSize =
        num at hfits hused hnum
      have hall := (fragmentSize_le (q := fragmentSize length num) hnum).1 (Nat.le_refl _)
      have hbpos : 0 < fragmentSize length num := by
        rw [Nat.pos_iff_ne_zero]
        intro h0
        rw [h0, Nat.mul_zero] at hall
        omega
      obtain ⟨hpieces, htotal, hmin'⟩ := @splitPartition_pieces p.room frame
        (fragmentSize length num) pre.length num 0 length
          (frame.offset pre.length) minSize maxSize hfits hbpos (by simp) (Nat.le_refl _)
        hoff.symm hix hall (fun _ => hused) hmin
      change Pieces frame p.room _ _
        ((splitPartition (fragmentSize length num) pre.length num 0 length _ minSize maxSize).1 ++ _)
      have hrest := @ih rest others (by simpa using hfuel) (pre ++ [length]) hlengths' _
        (splitPartition (fragmentSize length num) pre.length num 0 length
          (frame.offset pre.length) minSize maxSize).2.2.2 hmin'
      rw [List.length_append, List.length_singleton] at hrest
      refine hpieces.append ?_
      change Pieces frame p.room _ _ (p.aggregateLoop fuel rest (pre.length + 1)
        (splitPartition (fragmentSize length num) pre.length num 0 length _ minSize maxSize).2.1 _ _)
      rw [htotal]
      exact hrest
    | @group g k rest ne fits number ends others =>
      obtain ⟨length, g, rfl⟩ := List.exists_cons_of_ne_nil ne
      have hrun : (g.map (fun l => (l, k)) ++ rest).takeWhile (fun q => decide (q.2 = k)) =
          g.map (fun l => (l, k)) := by
        rw [List.takeWhile_append_of_pos (by simp)]
        have hnext : rest.takeWhile (fun q => decide (q.2 = k)) = [] := by
          cases rest with
          | nil => rfl
          | cons q rest => simp [ends q rfl]
        rw [hnext, List.append_nil]
      have hlengths' : frame.lengths = pre ++ (length :: g) ++ rest.map Prod.fst := by
        rw [hlengths]
        simp [Function.comp_def]
      have hoff := offset_add hlengths'
      have hix : pre.length < frame.lengths.length := by rw [hlengths']; simp
      have hlen : frame.lengths.getD pre.length 0 = length := by
        rw [hlengths', List.getD_eq_getElem?_getD]
        simp
      have hpos := Frame.length_pos hix
      have hsucc := frame.offset_succ pre.length
      rw [hlen] at hpos hsucc
      have hnum : ¬ k = -1 := by omega
      rw [List.map_cons, List.cons_append, RtpPacketizerVp8.aggregateLoop, if_neg hnum, hrun]
      dsimp only
      rw [List.drop_left, List.map_map, List.length_map]
      have hid : g.map (Prod.fst ∘ fun l => (l, k)) = g := by simp [Function.comp_def]
      rw [hid]
      rw [List.sum_cons, List.length_cons] at hoff
      rw [List.sum_cons] at fits
      have hrest := @ih rest others (by simp at hfuel; omega) (pre ++ (length :: g)) hlengths' _ maxSize hmin
      rw [List.length_append, List.length_cons, hoff] at hrest
      have hplace : pre.length + 1 + g.length = pre.length + (g.length + 1) := by omega
      rw [hplace]
      exact Pieces.append (Pieces.single (i := ⟨frame.offset pre.length, length + g.sum, true, pre.length⟩)
        ⟨by dsimp only; omega, fits⟩ ⟨hix, Nat.le_refl _, by dsimp only; omega⟩ (by simp [Marked])) hrest

end Loop

end WebRtc.Vp8
