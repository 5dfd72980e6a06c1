import Mathlib.Logic.Basic

/-!
# Circular histories

`n` slots written in turn hold the last `n` entries. `Recent n slots p past` says so of the slots seen
as a function of their index: `p` was written last and, going back from it around the circle, the
slots show `past`, the newest entry first, and past its end what the slots held at the start. How the
writer keeps its position does not matter: `Recent.push` is the only rule.
-/

namespace Circular

variable {β : Type}

/-- The slot written `d` writes before `p`. -/
def back (n p d : Nat) : Nat := (p + (n - d)) % n

theorem back_of_le {n p d : Nat} (hp : p < n) (h : d ≤ p) : back n p d = p - d := by
  have hsum : p + (n - d) = p - d + n := by omega
  rw [back, hsum, Nat.add_mod_right, Nat.mod_eq_of_lt (by omega)]

theorem back_of_lt {n p d : Nat} (h : p < d) (hd : d < n) : back n p d = p + (n - d) :=
  Nat.mod_eq_of_lt (by omega)

theorem back_lt {n p d : Nat} (hp : p < n) : back n p d < n := Nat.mod_lt _ (by omega)

/-- The position after `p`. -/
def next (n p : Nat) : Nat := if p + 1 < n then p + 1 else 0

theorem next_lt {n : Nat} (p : Nat) (hn : 0 < n) : next n p < n := by
  unfold next
  split <;> omega

theorem back_next_zero {n p : Nat} (hp : p < n) : back n (next n p) 0 = next n p :=
  back_of_le (next_lt p (by omega)) (Nat.zero_le _)

theorem back_next_succ {n p d : Nat} (hp : p < n) (hd : d + 1 < n) : back n (next n p) (d + 1) = back n p d := by
  unfold next
  by_cases hlast : p + 1 < n
  · rw [if_pos hlast]
    by_cases h : d ≤ p
    · rw [back_of_le hlast (by omega), back_of_le hp h]
      omega
    · rw [back_of_lt (by omega) hd, back_of_lt (by omega) (by omega)]
      omega
  · rw [if_neg hlast, back_of_lt (by omega) hd, back_of_le hp (by omega)]
    omega

theorem back_ne_next {n p d : Nat} (hp : p < n) (hd : d + 1 < n) : back n p d ≠ next n p := by
  unfold next
  by_cases h : d ≤ p
  · rw [back_of_le hp h]
    split <;> omega
  · rw [back_of_lt (by omega) (by omega)]
    split <;> omega

/-- `past` is what was written, the last entry first; `rest` is what no write has replaced. -/
def Recent (n : Nat) (slots : Nat → β) (rest : β) (p : Nat) (past : List β) : Prop :=
  ∀ d < n, slots (back n p d) = past.getD d rest

theorem Recent.init {n : Nat} {slots : Nat → β} {rest : β} {p : Nat} (hp : p < n) (h : ∀ k < n, slots k = rest) :
    Recent n slots rest p [] := by
  intro d _
  exact h _ (back_lt hp)

theorem Recent.push {n : Nat} {slots slots' : Nat → β} {rest x : β} {p : Nat} {past : List β}
    (hr : Recent n slots rest p past) (hp : p < n) (hnew : slots' (next n p) = x)
    (hold : ∀ k < n, k ≠ next n p → slots' k = slots k) : Recent n slots' rest (next n p) (x :: past) := by
  intro d hd
  cases d with
  | zero =>
    rw [back_next_zero hp, hnew]
    rfl
  | succ d =>
    rw [back_next_succ hp hd, hold _ (back_lt hp) (back_ne_next hp hd), hr d (by omega)]
    rfl

end Circular
