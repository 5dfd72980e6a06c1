import Mathlib.Algebra.Order.Field.Basic
import Mathlib.Algebra.Order.Ring.Basic
import Mathlib.Tactic.Linarith
import Mathlib.Tactic.Ring

/-!
# Falling lines

A line `height - slope * x` allows the points on it and below. Of lines that get steeper and steeper the lowest ones
are found with a stack:

* `allows_between`: a line that is crossed by a steeper one before it crosses the line below it on the stack can go;
* `allows_beyond`: a line that crosses the last one under the axis adds nothing;
* `touches_last` and `Touches.outside`: any other line leaves out points that all the lines on the stack allow.
-/

namespace Lines

structure Line (K : Type) where
  height : K
  slope : K

section Definitions
variable {K : Type} [Field K] [LinearOrder K]

def Line.Allows (l : Line K) (x y : K) : Prop := y + l.slope * x ≤ l.height

/-- From `x` on the steeper line `l` is below `p`. -/
def Line.Below (l p : Line K) (x : K) : Prop := l.height - p.height ≤ (l.slope - p.slope) * x

/-- `c` crosses `l` no later than `l` crosses `p`. -/
def Line.CrossesBefore (c l p : Line K) : Prop :=
  (c.height - l.height) * (l.slope - p.slope) ≤ (l.height - p.height) * (c.slope - l.slope)

/-- `c` crosses `l` no earlier than `l` crosses the axis. -/
def Line.CrossesUnder (c l : Line K) : Prop := l.height * (c.slope - l.slope) ≤ (c.height - l.height) * l.slope

/-- Every line is steeper than the one below it, and crosses it later than that one the next. -/
def Rising : List (Line K) → Prop
  | l :: p :: q :: rest => p.slope < l.slope ∧ ¬ l.CrossesBefore p q ∧ Rising (p :: q :: rest)
  | [l, p] => p.slope < l.slope
  | _ => True

theorem Rising.tail {l : Line K} {stack : List (Line K)} (h : Rising (l :: stack)) : Rising stack := by
  cases stack with
  | nil => trivial
  | cons p stack =>
    cases stack with
    | nil => trivial
    | cons q stack => exact h.2.2

theorem Rising.steeper {l p : Line K} {stack : List (Line K)} (h : Rising (l :: p :: stack)) : p.slope < l.slope := by
  cases stack with
  | nil => exact h
  | cons q stack => exact h.1

end Definitions

variable {K : Type} [Field K] [LinearOrder K] [IsStrictOrderedRing K]

namespace Line

variable {p l c : Line K} {x y : K}

theorem Below.allows (h : l.Below p x) (hl : l.Allows x y) : p.Allows x y := by
  unfold Below at h
  unfold Allows at hl ⊢
  linarith [sub_mul l.slope p.slope x]

theorem allows_of_above (h : ¬ l.Below p x) (hp : p.Allows x y) : l.Allows x y := by
  unfold Below at h
  unfold Allows at hp ⊢
  linarith [sub_mul l.slope p.slope x]

/-- Behind the earlier crossing is behind the later one. -/
theorem Below.of_crossing (hpl : p.slope < l.slope) (hlc : l.slope < c.slope) (h : ¬ CrossesBefore c l p)
    (hx : c.Below l x) : l.Below p x := by
  unfold CrossesBefore at h
  unfold Below at hx ⊢
  have hmul : (c.height - l.height) * (l.slope - p.slope) ≤ (c.slope - l.slope) * x * (l.slope - p.slope) :=
    mul_le_mul_of_nonneg_right hx (sub_nonneg.2 hpl.le)
  have hpos : 0 < c.slope - l.slope := sub_pos.2 hlc
  have hle : (l.height - p.height) * (c.slope - l.slope) ≤ ((l.slope - p.slope) * x) * (c.slope - l.slope) := by
    calc (l.height - p.height) * (c.slope - l.slope) ≤ (c.height - l.height) * (l.slope - p.slope) := (not_le.1 h).le
      _ ≤ (c.slope - l.slope) * x * (l.slope - p.slope) := hmul
      _ = ((l.slope - p.slope) * x) * (c.slope - l.slope) := by ring
  exact le_of_mul_le_mul_right hle hpos

/-- A line between two others that is nowhere below both. -/
theorem allows_between (hpl : p.slope < l.slope) (hlc : l.slope < c.slope) (h : CrossesBefore c l p)
    (hp : p.Allows x y) (hc : c.Allows x y) : l.Allows x y := by
  by_cases hx : c.Below l x
  · exact hx.allows hc
  · refine allows_of_above ?_ hp
    unfold CrossesBefore at h
    unfold Below at hx ⊢
    have hmul : (c.slope - l.slope) * x * (l.slope - p.slope) < (c.height - l.height) * (l.slope - p.slope) :=
      mul_lt_mul_of_pos_right (not_le.1 hx) (sub_pos.2 hpl)
    have hlt : ((l.slope - p.slope) * x) * (c.slope - l.slope) < (l.height - p.height) * (c.slope - l.slope) := by
      calc ((l.slope - p.slope) * x) * (c.slope - l.slope) = (c.slope - l.slope) * x * (l.slope - p.slope) := by ring
        _ < (c.height - l.height) * (l.slope - p.slope) := hmul
        _ ≤ (l.height - p.height) * (c.slope - l.slope) := h
    exact not_le.2 (lt_of_mul_lt_mul_right hlt (sub_pos.2 hlc).le)

/-- A line that crosses another one under the axis is above it where both are positive. -/
theorem allows_beyond (hl : 0 < l.slope) (hlc : l.slope < c.slope) (h : CrossesUnder c l) (hy : 0 ≤ y)
    (hallows : l.Allows x y) : c.Allows x y := by
  by_cases hx : c.Below l x
  · -- The crossing itself is allowed.
    unfold CrossesUnder at h
    unfold Below at hx
    unfold Allows at hallows ⊢
    have hmul : (c.slope - l.slope) * (l.slope * x) ≤ (c.slope - l.slope) * l.height :=
      mul_le_mul_of_nonneg_left (by linarith) (sub_pos.2 hlc).le
    have hle : ((c.slope - l.slope) * x) * l.slope ≤ (c.height - l.height) * l.slope := by
      calc ((c.slope - l.slope) * x) * l.slope = (c.slope - l.slope) * (l.slope * x) := by ring
        _ ≤ (c.slope - l.slope) * l.height := hmul
        _ = l.height * (c.slope - l.slope) := mul_comm _ _
        _ ≤ (c.height - l.height) * l.slope := h
    linarith [le_of_mul_le_mul_right hle hl, sub_mul c.slope l.slope x]
  · exact allows_of_above hx hallows

end Line

/-! ## Stacks -/

open Line

/-- Behind the last crossing the last line is the lowest. -/
theorem Rising.allows {l p : Line K} {stack : List (Line K)} (h : Rising (l :: p :: stack)) {x y : K}
    (hx : l.Below p x) (hl : l.Allows x y) : ∀ m ∈ p :: stack, m.Allows x y := by
  induction stack generalizing l p with
  | nil => simpa using hx.allows hl
  | cons q stack ih =>
    have hp := hx.allows hl
    have hq := hx.of_crossing h.2.2.steeper h.1 h.2.1
    intro m hm
    rcases List.mem_cons.1 hm with rfl | hm
    · exact hp
    · exact ih h.2.2 hq hp m hm

/-- A point of `c` above the axis is allowed by all the lines. -/
def Touches (c : Line K) (lines : List (Line K)) : Prop :=
  ∃ x y, 0 ≤ x ∧ 0 < y ∧ y + c.slope * x = c.height ∧ ∀ m ∈ lines, m.Allows x y

/-- It is where `c` crosses the last line. -/
theorem touches_last {l c : Line K} {stack : List (Line K)} (hstack : Rising (l :: stack)) (hl : 0 < l.slope)
    (hlc : l.slope < c.slope) (hh : l.height ≤ c.height) (h : ¬ c.CrossesUnder l)
    (hlast : ∀ p ∈ stack.head?, ¬ c.CrossesBefore l p) : Touches c (l :: stack) := by
  have hpos : 0 < c.slope - l.slope := sub_pos.2 hlc
  have hcross : (c.height - l.height) / (c.slope - l.slope) < l.height / l.slope :=
    (div_lt_div_iff₀ hpos hl).2 (not_le.1 h)
  have hx : 0 ≤ (c.height - l.height) / (c.slope - l.slope) := div_nonneg (sub_nonneg.2 hh) hpos.le
  have heq : (c.slope - l.slope) * ((c.height - l.height) / (c.slope - l.slope)) = c.height - l.height :=
    mul_div_cancel₀ _ hpos.ne'
  generalize (c.height - l.height) / (c.slope - l.slope) = x at hcross hx heq
  rw [lt_div_iff₀ hl] at hcross
  have hallows : l.Allows x (c.height - c.slope * x) := by
    unfold Allows
    linarith [sub_mul c.slope l.slope x]
  refine ⟨x, c.height - c.slope * x, hx, by linarith [sub_mul c.slope l.slope x, mul_comm x l.slope], by ring, ?_⟩
  intro m hm
  rcases List.mem_cons.1 hm with rfl | hm
  · exact hallows
  · cases stack with
    | nil => cases hm
    | cons p stack =>
      have hbelow : c.Below l x := heq.ge
      exact hstack.allows (hbelow.of_crossing hstack.steeper hlc (hlast p rfl)) hallows m hm

/-- A line that can go allows the point too. -/
theorem Touches.cons {l p c : Line K} {stack : List (Line K)} (h : Touches c (p :: stack)) (hpl : p.slope < l.slope)
    (hlc : l.slope < c.slope) (hcross : c.CrossesBefore l p) : Touches c (l :: p :: stack) := by
  obtain ⟨x, y, hx, hy, hc, hall⟩ := h
  refine ⟨x, y, hx, hy, hc, ?_⟩
  intro m hm
  rcases List.mem_cons.1 hm with rfl | hm
  · exact allows_between hpl hlc hcross (hall p List.mem_cons_self) hc.le
  · exact hall m hm

/-- Something is between a value and a list of larger ones. -/
theorem exists_above {v : K} {lines : List (Line K)} {x : K} (h : ∀ m ∈ lines, v + m.slope * x < m.height) :
    ∃ y, v < y ∧ ∀ m ∈ lines, m.Allows x y := by
  induction lines with
  | nil => exact ⟨v + 1, by linarith, by simp⟩
  | cons l lines ih =>
    obtain ⟨hl, hlines⟩ := List.forall_mem_cons.1 h
    obtain ⟨y, hy, hall⟩ := ih hlines
    refine ⟨min y (l.height - l.slope * x), lt_min hy (by linarith), ?_⟩
    intro m hm
    rcases List.mem_cons.1 hm with rfl | hm
    · unfold Allows
      linarith [min_le_right y (m.height - m.slope * x)]
    · have hle := hall m hm
      unfold Allows at hle ⊢
      linarith [min_le_left y (l.height - l.slope * x)]

/-- A line that is the steepest is below all the others behind the point. -/
theorem Touches.outside {c : Line K} {lines : List (Line K)} (h : Touches c lines) (hc : 0 < c.slope)
    (hsteep : ∀ m ∈ lines, m.slope < c.slope) :
    ∃ x y, 0 ≤ x ∧ 0 ≤ y ∧ (∀ m ∈ lines, m.Allows x y) ∧ ¬ c.Allows x y := by
  obtain ⟨x, y, hx, hy, hon, hall⟩ := h
  have haxis : x < c.height / c.slope := by
    rw [lt_div_iff₀ hc]
    linarith [mul_comm x c.slope]
  obtain ⟨x', hx0, hx1⟩ := exists_between haxis
  rw [lt_div_iff₀ hc] at hx1
  have hlower : ∀ m ∈ lines, (c.height - c.slope * x') + m.slope * x' < m.height := by
    intro m hm
    have hm' := hall m hm
    have hmul : m.slope * (x' - x) < c.slope * (x' - x) := mul_lt_mul_of_pos_right (hsteep m hm) (sub_pos.2 hx0)
    unfold Allows at hm'
    linarith [mul_sub m.slope x' x, mul_sub c.slope x' x]
  obtain ⟨y', hy', hall'⟩ := exists_above hlower
  refine ⟨x', y', by linarith, by linarith [mul_comm x' c.slope], hall', ?_⟩
  unfold Allows
  linarith

end Lines
