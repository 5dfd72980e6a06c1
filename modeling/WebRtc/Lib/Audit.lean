import WebRtc.Lib.Bytes

/-!
# Audits

Code that reads a buffer and asserts what it takes for granted: a result, with a log of both. An assertion
that fails is noted and the code goes on, as it does where assertions are compiled out.
-/

inductive AuditEvent where
  | read (p : Nat)
  | check (holds : Bool)
deriving DecidableEq, Repr

/-- A result and what was read and asserted for it. -/
@[ext] structure Audited (α : Type) where
  val : α
  log : List AuditEvent

namespace Audited

variable {α β : Type}

instance instMonad : Monad Audited where
  pure a := ⟨a, []⟩
  bind x f := ⟨(f x.val).val, x.log ++ (f x.val).log⟩

@[simp] theorem val_pure (a : α) : (pure a : Audited α).val = a := rfl
@[simp] theorem log_pure (a : α) : (pure a : Audited α).log = [] := rfl
@[simp] theorem val_bind (x : Audited α) (f : α → Audited β) : (x >>= f).val = (f x.val).val := rfl
@[simp] theorem log_bind (x : Audited α) (f : α → Audited β) : (x >>= f).log = x.log ++ (f x.val).log := rfl

/-- A value that is made of `n` bytes from `p` on. -/
def reading (p n : Nat) (a : α) : Audited α := ⟨a, (List.range n).map fun i => .read (p + i)⟩

def check (p : Prop) [Decidable p] : Audited Unit := ⟨(), [.check (decide p)]⟩

/-- The assertion for each of the elements. -/
def checkAll (p : α → Prop) [DecidablePred p] (l : List α) : Audited Unit := ⟨(), l.map fun a => .check (decide (p a))⟩

@[simp] theorem val_reading (p n : Nat) (a : α) : (reading p n a).val = a := rfl

theorem val_reading_bind (p n : Nat) (a : α) (f : α → Audited β) : (reading p n a >>= f).val = (f a).val := rfl

theorem log_reading_bind (p n : Nat) (a : α) (f : α → Audited β) :
    (reading p n a >>= f).log = (reading p n a).log ++ (f a).log := rfl

section Continued
variable {p n : Nat} {a : α} {f : α → Audited β} {x : Audited β}

/-- The program that is left is given with the value in it: `rfl` for `h` leaves nothing to reduce. -/
theorem val_reading_bind_of (h : f a = x) : (reading p n a >>= f).val = x.val := by
  rw [val_reading_bind, h]

theorem log_reading_bind_of (h : f a = x) : (reading p n a >>= f).log = (reading p n a).log ++ x.log := by
  rw [log_reading_bind, h]

end Continued

/-! ## Logs -/

/-- All reads are from `lo` on and before `hi`. -/
def ReadsWithin (lo hi : Nat) (log : List AuditEvent) : Prop := ∀ p, .read p ∈ log → lo ≤ p ∧ p < hi

/-- No assertion failed. -/
def AllHold (log : List AuditEvent) : Prop := .check false ∉ log

variable {lo lo' hi hi' : Nat} {l l' : List AuditEvent}

theorem readsWithin_nil (lo hi : Nat) : ReadsWithin lo hi [] := by simp [ReadsWithin]

theorem ReadsWithin.append (h : ReadsWithin lo hi l) (h' : ReadsWithin lo hi l') : ReadsWithin lo hi (l ++ l') := by
  intro p hp
  rcases List.mem_append.1 hp with hp | hp
  · exact h p hp
  · exact h' p hp

theorem ReadsWithin.mono (h : ReadsWithin lo hi l) (hlo : lo' ≤ lo) (hhi : hi ≤ hi') : ReadsWithin lo' hi' l := by
  intro p hp
  obtain ⟨h1, h2⟩ := h p hp
  exact ⟨Nat.le_trans hlo h1, Nat.lt_of_lt_of_le h2 hhi⟩

theorem readsWithin_reading {p n : Nat} (a : α) (hlo : lo ≤ p) (hhi : p + n ≤ hi) :
    ReadsWithin lo hi (reading p n a).log := by
  intro q hq
  obtain ⟨i, hi, heq⟩ := List.mem_map.1 hq
  rw [List.mem_range] at hi
  cases heq
  omega

theorem readsWithin_append_iff : ReadsWithin lo hi (l ++ l') ↔ ReadsWithin lo hi l ∧ ReadsWithin lo hi l' := by
  refine ⟨fun h => ⟨fun p hp => h p (List.mem_append_left l' hp), fun p hp => h p (List.mem_append_right l hp)⟩, ?_⟩
  exact fun h => h.1.append h.2

/-- The last byte is the one that can be behind the end. -/
theorem readsWithin_reading_iff {p n : Nat} (a : α) (hn : 0 < n) :
    ReadsWithin 0 hi (reading p n a).log ↔ p + n ≤ hi := by
  constructor
  · intro h
    have hlast := h (p + (n - 1)) (List.mem_map.2 ⟨n - 1, List.mem_range.2 (by omega), rfl⟩)
    omega
  · exact readsWithin_reading a (Nat.zero_le p)

theorem readsWithin_check (lo hi : Nat) (p : Prop) [Decidable p] : ReadsWithin lo hi (check p).log := by
  simp [ReadsWithin, check]

@[simp] theorem allHold_nil : AllHold [] := List.not_mem_nil

@[simp] theorem allHold_append : AllHold (l ++ l') ↔ AllHold l ∧ AllHold l' := by simp [AllHold]

@[simp] theorem allHold_reading (p n : Nat) (a : α) : AllHold (reading p n a).log := by simp [AllHold, reading]

@[simp] theorem allHold_check (p : Prop) [Decidable p] : AllHold (check p).log ↔ p := by simp [AllHold, check]

@[simp] theorem allHold_checkAll (p : α → Prop) [DecidablePred p] (l : List α) :
    AllHold (checkAll p l).log ↔ ∀ a ∈ l, p a := by simp [AllHold, checkAll]

/-! ## Code without assertions that fail -/

/-- The code returns `a`, reads in these bounds and no assertion fails. -/
structure Returns (lo hi : Nat) (x : Audited α) (a : α) : Prop where
  val : x.val = a
  reads : ReadsWithin lo hi x.log
  holds : AllHold x.log

theorem returns_pure (lo hi : Nat) (a : α) : Returns lo hi (pure a) a := ⟨rfl, readsWithin_nil _ _, allHold_nil⟩

theorem Returns.reading_bind {p n : Nat} {a : α} {b : β} {f : α → Audited β} (hlo : lo ≤ p) (hhi : p + n ≤ hi)
    (h : Returns lo hi (f a) b) : Returns lo hi (reading p n a >>= f) b where
  val := h.val
  reads := (readsWithin_reading a hlo hhi).append h.reads
  holds := allHold_append.2 ⟨allHold_reading p n a, h.holds⟩

end Audited
