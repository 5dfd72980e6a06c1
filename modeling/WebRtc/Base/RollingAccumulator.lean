import Mathlib.Data.List.MinMax
import Mathlib.Data.Nat.ModEq
import WebRtc.Lib.Machine

/-!
# The extremes of the most recent samples (`rollingaccumulator.h`)

| here | there |
| --- | --- |
| `Extreme`            | `max_` and `max_stale_`, `min_` and `min_stale_` (:131-134) |
| `Extreme.evict`, `Extreme.insert` | what `AddSample` does to them (:59-64, 73-80) |
| `Extreme.compute`    | `ComputeMax` (:97), `ComputeMin` (:110) |
| `RollingAccumulator` | the fields (:125-135), without the sums |

An extreme that is cached bounds all samples, also when the sample it was has been replaced, and it is one of the
samples unless it is stale (`Caches`).
-/

namespace WebRtc.Base

/-- An extreme and whether it is stale. -/
structure Extreme (α : Type) where
  value : α
  stale : Bool
deriving DecidableEq, Repr

namespace Extreme

variable {α : Type} (better : α → α → Bool) (e : Extreme α)

/-- The sample is removed. -/
def evict (sampleToRemove : α) : Extreme α := if better sampleToRemove e.value then { e with stale := true } else e

/-- The sample is added: it is the only one, or not. -/
def insert (only : Bool) (sample : α) : Extreme α := if only || better sample e.value then ⟨sample, false⟩ else e

/-- The better one, the first one of the two when they are the same. -/
def pick (a b : α) : α := if better a b then a else b

/-- From the oldest sample on. -/
def compute (sampleAt : Nat → α) (count : Nat) : Extreme α :=
  if e.stale then
    ⟨(List.range (count - 1)).foldl (fun value i => pick better value (sampleAt (i + 1))) (sampleAt 0), false⟩
  else e

end Extreme

structure RollingAccumulator (α : Type) where
  maxCount : Nat
  count : Nat
  nextIndex : Nat
  cachedMax : Extreme α
  cachedMin : Extreme α
  samples : Nat → α

namespace RollingAccumulator

variable {α : Type} [LinearOrder α] [Inhabited α]

/-- `a >= b`. -/
def greater (a b : α) : Bool := decide (b ≤ a)

/-- `a <= b`. -/
def less (a b : α) : Bool := decide (a ≤ b)

def create (maxCount : Nat) : RollingAccumulator α :=
    ⟨maxCount, 0, 0, ⟨default, false⟩, ⟨default, false⟩, fun _ => default⟩

variable (s : RollingAccumulator α)

def reset : RollingAccumulator α :=
  { s with count := 0, nextIndex := 0, cachedMax := ⟨default, false⟩, cachedMin := ⟨default, false⟩ }

/-- The oldest sample is removed when there is no room. -/
def makeRoom : RollingAccumulator α :=
  if s.count = s.maxCount then
    let sampleToRemove := s.samples s.nextIndex
    { s with
      cachedMax := s.cachedMax.evict greater sampleToRemove
      cachedMin := s.cachedMin.evict less sampleToRemove }
  else { s with count := s.count + 1 }

def addSample (sample : α) : RollingAccumulator α :=
  let room := s.makeRoom
  { room with
    samples := Function.update room.samples room.nextIndex sample
    cachedMax := room.cachedMax.insert greater (room.count = 1) sample
    cachedMin := room.cachedMin.insert less (room.count = 1) sample
    nextIndex := (room.nextIndex + 1) % room.maxCount }

def sampleAt (i : Nat) : α := s.samples ((s.nextIndex + i) % s.maxCount)

def computeMax : RollingAccumulator α × α :=
  let cachedMax := s.cachedMax.compute greater s.sampleAt s.count
  ({ s with cachedMax }, cachedMax.value)

def computeMin : RollingAccumulator α × α :=
  let cachedMin := s.cachedMin.compute less s.sampleAt s.count
  ({ s with cachedMin }, cachedMin.value)

end RollingAccumulator

/-! ## A cached extreme -/

/-- What is better is better or the same, of two one is better, and two that are better than each other are the
same. -/
structure Ranks {α : Type} (better : α → α → Bool) : Prop where
  total : ∀ a b, better a b = true ∨ better b a = true
  trans : ∀ {a b c}, better a b = true → better b c = true → better a c = true
  antisymm : ∀ {a b}, better a b = true → better b a = true → a = b

theorem greater_ranks {α : Type} [LinearOrder α] : Ranks (RollingAccumulator.greater (α := α)) := by
  constructor <;> simp only [RollingAccumulator.greater, decide_eq_true_eq]
  case total => exact fun a b => le_total b a
  case trans => exact fun hab hbc => le_trans hbc hab
  case antisymm => exact fun hab hba => le_antisymm hba hab

theorem less_ranks {α : Type} [LinearOrder α] : Ranks (RollingAccumulator.less (α := α)) := by
  constructor <;> simp only [RollingAccumulator.less, decide_eq_true_eq]
  case total => exact fun a b => le_total a b
  case trans => exact fun hab hbc => le_trans hab hbc
  case antisymm => exact fun hab hba => le_antisymm hab hba

/-- The extreme of the samples. -/
def IsBest {α : Type} (better : α → α → Bool) (samples : List α) (value : α) : Prop :=
  value ∈ samples ∧ ∀ x ∈ samples, better value x = true

/-- **What a cached value still says** of the samples. -/
structure Caches {α : Type} (better : α → α → Bool) (samples : List α) (e : Extreme α) : Prop where
  bounds : ∀ x ∈ samples, better e.value x = true
  present : e.stale = false → e.value ∈ samples

namespace Extreme

variable {α : Type} {better : α → α → Bool} {samples : List α} {e : Extreme α}

theorem insert_caches (hr : Ranks better) (h : samples ≠ [] → Caches better samples e) (sample : α) :
    Caches better (samples ++ [sample]) (e.insert better samples.isEmpty sample) := by
  have hself : better sample sample = true := by simpa using hr.total sample sample
  unfold insert
  split
  · rename_i hbest
    refine ⟨fun x hx => ?_, fun _ => by simp⟩
    rcases List.mem_append.1 hx with hx | hx
    · rw [Bool.or_eq_true] at hbest
      rcases hbest with hnone | hbest
      · rw [List.isEmpty_iff] at hnone
        simp [hnone] at hx
      · exact hr.trans hbest ((h (List.ne_nil_of_mem hx)).bounds x hx)
    · rw [List.mem_singleton.1 hx]
      exact hself
  · rename_i hnot
    rw [Bool.or_eq_true, not_or] at hnot
    have hcaches := h (by simpa using hnot.1)
    refine ⟨fun x hx => ?_, fun hfresh => List.mem_append_left _ (hcaches.present hfresh)⟩
    rcases List.mem_append.1 hx with hx | hx
    · exact hcaches.bounds x hx
    · rw [List.mem_singleton.1 hx]
      exact (hr.total sample e.value).resolve_left hnot.2

/-- The oldest one is removed: if it was the extreme, the value is stale. -/
theorem evict_caches (hr : Ranks better) {oldest : α} (h : Caches better (oldest :: samples) e) :
    Caches better samples (e.evict better oldest) := by
  have hself : better oldest oldest = true := by simpa using hr.total oldest oldest
  unfold evict
  split
  · exact ⟨fun x hx => h.bounds x (List.mem_cons_of_mem _ hx), fun hfresh => absurd hfresh (by simp)⟩
  · rename_i hnot
    refine ⟨fun x hx => h.bounds x (List.mem_cons_of_mem _ hx), fun hfresh => ?_⟩
    rcases List.mem_cons.1 (h.present hfresh) with heq | hmem
    · rw [heq] at hnot
      exact absurd hself hnot
    · exact hmem

/-- A value that is stale after all has been so before. -/
theorem insert_stale {only : Bool} {sample : α} (h : (e.insert better only sample).stale = true) : e.stale = true := by
  unfold insert at h
  split at h
  · simp at h
  · exact h

theorem compute_stale {sampleAt : Nat → α} {count : Nat} (h : (e.compute better sampleAt count).stale = true) :
    e.stale = true := by
  unfold compute at h
  split at h
  · simp at h
  · exact h

/-- There is nothing stale to begin with. -/
theorem compute_fresh [Inhabited α] (he : e = ⟨default, false⟩) (sampleAt : Nat → α) (count : Nat) :
    e.compute better sampleAt count = ⟨default, false⟩ := by
  rw [he]
  rfl

theorem foldl_pick_best (hr : Ranks better) (a : α) (l : List α) :
    IsBest better (a :: l) (l.foldl (pick better) a) := by
  induction l generalizing a with
  | nil =>
    refine ⟨by simp, fun x hx => ?_⟩
    rw [List.mem_singleton.1 hx]
    simpa using hr.total a a
  | cons b l ih =>
    obtain ⟨hmem, hbest⟩ := ih (pick better a b)
    have hpick : pick better a b = a ∧ better a b = true ∨ pick better a b = b ∧ better b a = true := by
      unfold pick
      split
      · rename_i hab
        exact Or.inl ⟨rfl, hab⟩
      · rename_i hab
        exact Or.inr ⟨rfl, (hr.total a b).resolve_left hab⟩
    have hfirst := hbest _ List.mem_cons_self
    have hself : ∀ x, better x x = true := fun x => by simpa using hr.total x x
    refine ⟨?_, fun x hx => ?_⟩
    · rw [List.foldl_cons]
      rcases List.mem_cons.1 hmem with heq | hl
      · rw [heq]
        rcases hpick with ⟨h, -⟩ | ⟨h, -⟩ <;> simp [h]
      · exact List.mem_cons_of_mem _ (List.mem_cons_of_mem _ hl)
    · rw [List.foldl_cons]
      have hpicked : better (pick better a b) a = true ∧ better (pick better a b) b = true := by
        rcases hpick with ⟨h, hab⟩ | ⟨h, hba⟩ <;> rw [h] <;> simp_all
      rcases List.mem_cons.1 hx with rfl | hx
      · exact hr.trans hfirst hpicked.1
      rcases List.mem_cons.1 hx with rfl | hx
      · exact hr.trans hfirst hpicked.2
      · exact hbest x (List.mem_cons_of_mem _ hx)

/-- **The value that is read** is the extreme, and it is cached then. -/
theorem compute_caches (hr : Ranks better) (h : Caches better samples e) (hne : samples ≠ []) {sampleAt : Nat → α}
    (hsamples : e.stale = true → samples = (List.range samples.length).map sampleAt) :
    IsBest better samples (e.compute better sampleAt samples.length).value ∧
      Caches better samples (e.compute better sampleAt samples.length) := by
  unfold compute
  split
  · rename_i hstale
    obtain ⟨n, hn⟩ : ∃ n, samples.length = n + 1 :=
      ⟨samples.length - 1, by have := List.length_pos_of_ne_nil hne; omega⟩
    have hsplit : samples = sampleAt 0 :: (List.range n).map fun i => sampleAt (i + 1) := by
      rw [hsamples hstale, hn, List.range_succ_eq_map, List.map_cons, List.map_map]
      rfl
    have hfold : (List.range (samples.length - 1)).foldl (fun value i => pick better value (sampleAt (i + 1)))
        (sampleAt 0) = ((List.range n).map fun i => sampleAt (i + 1)).foldl (pick better) (sampleAt 0) := by
      rw [List.foldl_map, hn, Nat.add_sub_cancel]
    rw [hfold]
    have hbest := foldl_pick_best hr (sampleAt 0) ((List.range n).map fun i => sampleAt (i + 1))
    rw [← hsplit] at hbest
    exact ⟨hbest, ⟨hbest.2, fun _ => hbest.1⟩⟩
  · rename_i hfresh
    rw [Bool.not_eq_true] at hfresh
    exact ⟨⟨h.present hfresh, h.bounds⟩, h⟩

end Extreme

/-! ## Runs -/

namespace RollingAccumulator

variable {α : Type}

inductive Call (α : Type) where
  | addSample (sample : α)
  | computeMax
  | computeMin
  | reset
deriving DecidableEq, Repr

/-- The call only reads. -/
def Call.reads : Call α → Bool
  | .computeMax | .computeMin => true
  | _ => false

/-- The most recent samples. -/
def window (maxCount : Nat) (since : List α) : List α := since.drop (since.length - maxCount)

/-- Those of them that stay when there is one more. -/
def staying (maxCount : Nat) (since : List α) : List α :=
  if maxCount ≤ since.length then since.drop (since.length - maxCount + 1) else since

section Window
variable {maxCount : Nat} {since : List α}

theorem window_length : (window maxCount since).length = min since.length maxCount := by
  unfold window
  rw [List.length_drop]
  omega

theorem window_ne_nil (hpos : 0 < maxCount) (hne : since ≠ []) : window maxCount since ≠ [] := by
  have hlength := List.length_pos_of_ne_nil hne
  rw [← List.length_pos_iff, window_length]
  omega

theorem window_room (h : since.length < maxCount) : window maxCount since = since := by
  unfold window
  rw [Nat.sub_eq_zero_of_le (Nat.le_of_lt h), List.drop_zero]

theorem staying_length (hpos : 0 < maxCount) : (staying maxCount since).length = min since.length (maxCount - 1) := by
  unfold staying
  split <;> simp <;> omega

/-- Without room the oldest sample goes. -/
theorem window_full (hpos : 0 < maxCount) (h : maxCount ≤ since.length) :
    ∃ oldest, since[since.length - maxCount]? = some oldest ∧
      window maxCount since = oldest :: since.drop (since.length - maxCount + 1) := by
  have hlt : since.length - maxCount < since.length := by omega
  exact ⟨_, List.getElem?_eq_getElem hlt, List.drop_eq_getElem_cons hlt⟩

theorem window_append (hpos : 0 < maxCount) (sample : α) :
    window maxCount (since ++ [sample]) = staying maxCount since ++ [sample] := by
  unfold window staying
  rw [List.length_append, List.length_singleton]
  split
  · rename_i h
    have hshift : since.length + 1 - maxCount = since.length - maxCount + 1 := by omega
    rw [hshift, List.drop_append_of_le_length (by omega)]
  · rename_i h
    have hnone : since.length + 1 - maxCount = 0 := by omega
    rw [hnone, List.drop_zero]

end Window

variable [LinearOrder α] [Inhabited α]

def step (s : RollingAccumulator α) : Call α → RollingAccumulator α × Option α
  | .addSample sample => (s.addSample sample, none)
  | .computeMax => (s.computeMax.1, some s.computeMax.2)
  | .computeMin => (s.computeMin.1, some s.computeMin.2)
  | .reset => (s.reset, none)

/-- What the calls mean: the state is all samples since the last reset. -/
def meaning (maxCount : Nat) (since : List α) : Call α → List α × Option α
  | .addSample sample => (since ++ [sample], none)
  | .computeMax => (since, some ((window maxCount since).max?.getD default))
  | .computeMin => (since, some ((window maxCount since).min?.getD default))
  | .reset => ([], none)

/-- The ring has the window, and the extremes are cached. -/
structure Follows (maxCount : Nat) (s : RollingAccumulator α) (since : List α) : Prop where
  maxCount_eq : s.maxCount = maxCount
  count_eq : s.count = min since.length maxCount
  nextIndex_eq : s.nextIndex = since.length % maxCount
  samples_eq : ∀ i < since.length, since.length - maxCount ≤ i → since[i]? = some (s.samples (i % maxCount))
  none : since = [] → s.cachedMax = ⟨default, false⟩ ∧ s.cachedMin = ⟨default, false⟩
  cachedMax : since ≠ [] → Caches greater (window maxCount since) s.cachedMax
  cachedMin : since ≠ [] → Caches less (window maxCount since) s.cachedMin
  full : s.cachedMax.stale = true ∨ s.cachedMin.stale = true → maxCount ≤ since.length

section Step
variable {maxCount : Nat} {s : RollingAccumulator α} {since : List α}

theorem follows_create (maxCount : Nat) : Follows maxCount (create maxCount) ([] : List α) := by
  constructor
  case maxCount_eq => rfl
  case count_eq | nextIndex_eq => simp [create]
  case samples_eq => exact fun i h _ => absurd h (by simp)
  case none => exact fun _ => ⟨rfl, rfl⟩
  case cachedMax | cachedMin => exact fun hno => absurd rfl hno
  case full => simp [create]

theorem follows_reset (h : Follows maxCount s since) : Follows maxCount s.reset [] := by
  constructor
  case maxCount_eq => exact h.maxCount_eq
  case count_eq | nextIndex_eq => simp [reset]
  case samples_eq => exact fun i hi _ => absurd hi (by simp)
  case none => exact fun _ => ⟨rfl, rfl⟩
  case cachedMax | cachedMin => exact fun hno => absurd rfl hno
  case full => simp [reset]

/-- The samples that are read for a stale value are the window. -/
theorem window_read (h : Follows maxCount s since) (hfull : maxCount ≤ since.length) :
    window maxCount since = (List.range (window maxCount since).length).map s.sampleAt := by
  apply List.ext_getElem?
  intro i
  by_cases hi : i < maxCount
  · have hplace : (s.nextIndex + i) % s.maxCount = (since.length - maxCount + i) % maxCount := by
      rw [h.nextIndex_eq, h.maxCount_eq, Nat.mod_add_mod]
      have hsum : since.length + i = since.length - maxCount + i + maxCount := by omega
      rw [hsum, Nat.add_mod_right]
    have hread := h.samples_eq (since.length - maxCount + i) (by omega) (by omega)
    have hlt : i < (window maxCount since).length := by rw [window_length]; omega
    rw [List.getElem?_map, List.getElem?_range hlt, window, List.getElem?_drop, hread, Option.map_some, sampleAt,
      hplace]
  · rw [List.getElem?_eq_none (by rw [window_length]; omega), List.getElem?_eq_none (by simp [window_length]; omega)]

/-- A cached extreme when there is room. -/
theorem evict_staying {better : α → α → Bool} (hr : Ranks better) (hpos : 0 < maxCount) (h : Follows maxCount s since)
    {e : Extreme α} (he : since ≠ [] → Caches better (window maxCount since) e) (hne : staying maxCount since ≠ []) :
    Caches better (staying maxCount since)
      (if s.count = s.maxCount then e.evict better (s.samples s.nextIndex) else e) := by
  have hsince : since ≠ [] := by
    rintro rfl
    simp [staying] at hne
  have hcount := h.count_eq
  have hcaches := he hsince
  rw [h.maxCount_eq]
  by_cases hfull : maxCount ≤ since.length
  · obtain ⟨oldest, holdest, hwindow⟩ := window_full hpos hfull
    have hplace : s.nextIndex = (since.length - maxCount) % maxCount := by
      rw [h.nextIndex_eq, Nat.mod_eq_sub_mod hfull]
    have hread := h.samples_eq (since.length - maxCount) (by omega) (Nat.le_refl _)
    rw [holdest, ← hplace, Option.some.injEq] at hread
    rw [if_pos (by omega), ← hread, staying, if_pos hfull]
    rw [hwindow] at hcaches
    exact Extreme.evict_caches hr hcaches
  · rw [if_neg (by omega), staying, if_neg hfull]
    rw [window_room (by omega)] at hcaches
    exact hcaches

/-- The samples of the window are where they were, and the new one is behind them. -/
theorem samples_append (h : Follows maxCount s since) (sample : α) {i : Nat}
    (hi : i < (since ++ [sample]).length) (hfirst : (since ++ [sample]).length - maxCount ≤ i) :
    (since ++ [sample])[i]? = some (Function.update s.samples s.nextIndex sample (i % maxCount)) := by
  rw [List.length_append, List.length_singleton] at hi hfirst
  rw [h.nextIndex_eq]
  by_cases hlast : i = since.length
  · rw [hlast, Function.update_self, List.getElem?_append_right (Nat.le_refl _), Nat.sub_self]
    rfl
  · have hother : i % maxCount ≠ since.length % maxCount := by
      intro hsame
      have hdvd : maxCount ∣ since.length - i := (Nat.modEq_iff_dvd' (by omega)).1 hsame
      have hle := Nat.le_of_dvd (by omega) hdvd
      omega
    rw [Function.update_of_ne hother, List.getElem?_append_left (by omega)]
    exact h.samples_eq i (by omega) (by omega)

/-- **A sample is added.** -/
theorem follows_addSample (hpos : 0 < maxCount) (h : Follows maxCount s since) (sample : α) :
    Follows maxCount (s.addSample sample) (since ++ [sample]) := by
  have hcount : s.makeRoom.count = (staying maxCount since).length + 1 := by
    have hbefore := h.count_eq
    have hmax := h.maxCount_eq
    rw [staying_length hpos]
    unfold makeRoom
    split
    · show s.count = _
      omega
    · show s.count + 1 = _
      omega
  have hsame : s.makeRoom.maxCount = s.maxCount ∧ s.makeRoom.nextIndex = s.nextIndex ∧
      s.makeRoom.samples = s.samples := by
    unfold makeRoom
    split <;> exact ⟨rfl, rfl, rfl⟩
  have honly : decide (s.makeRoom.count = 1) = (staying maxCount since).isEmpty := by
    rw [hcount, Bool.eq_iff_iff, decide_eq_true_eq, List.isEmpty_iff, ← List.length_eq_zero_iff]
    omega
  have hmax : s.makeRoom.cachedMax =
      if s.count = s.maxCount then s.cachedMax.evict greater (s.samples s.nextIndex) else s.cachedMax := by
    unfold makeRoom
    split <;> rfl
  have hmin : s.makeRoom.cachedMin =
      if s.count = s.maxCount then s.cachedMin.evict less (s.samples s.nextIndex) else s.cachedMin := by
    unfold makeRoom
    split <;> rfl
  constructor
  case maxCount_eq => exact hsame.1.trans h.maxCount_eq
  case count_eq =>
    show s.makeRoom.count = _
    rw [hcount, staying_length hpos, List.length_append, List.length_singleton]
    omega
  case nextIndex_eq =>
    show (s.makeRoom.nextIndex + 1) % s.makeRoom.maxCount = _
    rw [hsame.1, hsame.2.1, h.nextIndex_eq, h.maxCount_eq, Nat.mod_add_mod, List.length_append, List.length_singleton]
  case samples_eq =>
    intro i hi hfirst
    show _ = some (Function.update s.makeRoom.samples s.makeRoom.nextIndex sample (i % maxCount))
    rw [hsame.2.1, hsame.2.2]
    exact samples_append h sample hi hfirst
  case none => exact fun hno => absurd hno (by simp)
  case cachedMax =>
    intro _
    show Caches greater _ (s.makeRoom.cachedMax.insert greater (decide (s.makeRoom.count = 1)) sample)
    rw [window_append hpos, honly, hmax]
    exact Extreme.insert_caches greater_ranks (evict_staying greater_ranks hpos h h.cachedMax) sample
  case cachedMin =>
    intro _
    show Caches less _ (s.makeRoom.cachedMin.insert less (decide (s.makeRoom.count = 1)) sample)
    rw [window_append hpos, honly, hmin]
    exact Extreme.insert_caches less_ranks (evict_staying less_ranks hpos h h.cachedMin) sample
  case full =>
    intro hstale
    have hsum : (since ++ [sample]).length = since.length + 1 := by simp
    by_cases hfull : s.count = s.maxCount
    · have hbefore := h.count_eq
      have hmaxCount := h.maxCount_eq
      omega
    · rw [if_neg hfull] at hmax hmin
      have hkept : s.cachedMax.stale = true ∨ s.cachedMin.stale = true := by
        rw [← hmax, ← hmin]
        exact hstale.imp Extreme.insert_stale Extreme.insert_stale
      have hlength := h.full hkept
      omega

/-- An extreme is read. -/
theorem compute_spec {better : α → α → Bool} (hr : Ranks better) (hpos : 0 < maxCount) (h : Follows maxCount s since)
    {e : Extreme α} (he : since ≠ [] → Caches better (window maxCount since) e)
    (hstale : e.stale = true → maxCount ≤ since.length) (hne : since ≠ []) :
    IsBest better (window maxCount since) (e.compute better s.sampleAt s.count).value ∧
      Caches better (window maxCount since) (e.compute better s.sampleAt s.count) := by
  have hlength : s.count = (window maxCount since).length := by rw [window_length, h.count_eq]
  rw [hlength]
  exact Extreme.compute_caches hr (he hne) (window_ne_nil hpos hne) fun hs => window_read h (hstale hs)

theorem follows_computeMax (hpos : 0 < maxCount) (h : Follows maxCount s since) :
    Follows maxCount s.computeMax.1 since ∧ s.computeMax.2 = (window maxCount since).max?.getD default := by
  have hread := compute_spec greater_ranks hpos h h.cachedMax fun hs => h.full (Or.inl hs)
  refine ⟨⟨h.maxCount_eq, h.count_eq, h.nextIndex_eq,
    h.samples_eq, fun hnone => ?_, fun hne => (hread hne).2, h.cachedMin,
    fun hs => h.full (hs.imp_left Extreme.compute_stale)⟩, ?_⟩
  · exact ⟨Extreme.compute_fresh (h.none hnone).1 _ _, (h.none hnone).2⟩
  · show (s.cachedMax.compute greater s.sampleAt s.count).value = _
    by_cases hne : since = []
    · rw [Extreme.compute_fresh (h.none hne).1, hne]
      simp [window]
    · obtain ⟨hmem, hbest⟩ := (hread hne).1
      have hmax : (window maxCount since).max? = some (s.cachedMax.compute greater s.sampleAt s.count).value :=
        List.max?_eq_some_iff.2 ⟨hmem, fun x hx => by simpa [greater] using hbest x hx⟩
      rw [hmax, Option.getD_some]

theorem follows_computeMin (hpos : 0 < maxCount) (h : Follows maxCount s since) :
    Follows maxCount s.computeMin.1 since ∧ s.computeMin.2 = (window maxCount since).min?.getD default := by
  have hread := compute_spec less_ranks hpos h h.cachedMin fun hs => h.full (Or.inr hs)
  refine ⟨⟨h.maxCount_eq, h.count_eq, h.nextIndex_eq, h.samples_eq, fun hnone => ?_,
    h.cachedMax, fun hne => (hread hne).2,
    fun hs => h.full (hs.imp_right Extreme.compute_stale)⟩, ?_⟩
  · exact ⟨(h.none hnone).1, Extreme.compute_fresh (h.none hnone).2 _ _⟩
  · show (s.cachedMin.compute less s.sampleAt s.count).value = _
    by_cases hne : since = []
    · rw [Extreme.compute_fresh (h.none hne).2, hne]
      simp [window]
    · obtain ⟨hmem, hbest⟩ := (hread hne).1
      have hmin : (window maxCount since).min? = some (s.cachedMin.compute less s.sampleAt s.count).value :=
        List.min?_eq_some_iff.2 ⟨hmem, fun x hx => by simpa [less] using hbest x hx⟩
      rw [hmin, Option.getD_some]

/-- **A call** does what it means. -/
theorem step_follows (hpos : 0 < maxCount) (h : Follows maxCount s since) (call : Call α) :
    Follows maxCount (step s call).1 (meaning maxCount since call).1 ∧
      (step s call).2 = (meaning maxCount since call).2 := by
  cases call with
  | addSample sample => exact ⟨follows_addSample hpos h sample, rfl⟩
  | computeMax => exact ⟨(follows_computeMax hpos h).1, congrArg some (follows_computeMax hpos h).2⟩
  | computeMin => exact ⟨(follows_computeMin hpos h).1, congrArg some (follows_computeMin hpos h).2⟩
  | reset => exact ⟨follows_reset h, rfl⟩

end Step

/-- Reading leaves the samples alone. -/
theorem run_meaning_writes (maxCount : Nat) (since : List α) (calls : List (Call α)) :
    Machine.run (meaning maxCount) since calls =
      Machine.run (meaning maxCount) since (calls.filter fun call => !call.reads) := by
  induction calls generalizing since with
  | nil => rfl
  | cons call calls ih => cases call <;> simp [Call.reads, meaning, ih]

/-- **The extremes are the true ones**, and what has been read before makes no difference. -/
theorem extremes_exact {maxCount : Nat} (hpos : 0 < maxCount) :
    (∀ calls : List (Call α), Machine.trace step (create maxCount) calls = Machine.trace (meaning maxCount) [] calls) ∧
    ∀ before before' after : List (Call α),
      (before.filter fun call => !call.reads) = (before'.filter fun call => !call.reads) →
      Machine.trace step (Machine.run step (create maxCount) before) after =
        Machine.trace step (Machine.run step (create maxCount) before') after := by
  have hsim : ∀ (s : RollingAccumulator α) since call, Follows maxCount s since →
      Follows maxCount (step s call).1 (meaning maxCount since call).1 ∧
        (step s call).2 = (meaning maxCount since call).2 := fun s since call h => step_follows hpos h call
  have hrun : ∀ calls : List (Call α), Follows maxCount (Machine.run step (create maxCount) calls)
      (Machine.run (meaning maxCount) [] calls) :=
    Machine.run_of_sim (fun s since call h => (hsim s since call h).1) (follows_create maxCount)
  refine ⟨Machine.trace_eq_of_sim hsim (follows_create maxCount), fun before before' after hsame => ?_⟩
  have hbefore := hrun before
  have hbefore' := hrun before'
  rw [run_meaning_writes] at hbefore hbefore'
  rw [← hsame] at hbefore'
  rw [Machine.trace_eq_of_sim hsim hbefore after, Machine.trace_eq_of_sim hsim hbefore' after]

/-- The largest of three samples has gone, and has been read or not. -/
theorem extremes_exact_two : Machine.trace step (create 2)
    [.addSample 7, .addSample 3, .addSample (5 : Int), .computeMax] =
    [none, none, none, some 5] :=
  (extremes_exact (by decide)).1 _

end RollingAccumulator

end WebRtc.Base
