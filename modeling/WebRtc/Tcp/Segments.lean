import WebRtc.Tcp.Process
import Mathlib.Data.List.TakeWhile

/-!
# The list of segments

`bytesIn` counts the bytes of a list and `sentIn` those of its segments that have been transmitted.
`Contiguous una slist`: each segment starts where the one before it ends, the first one at `una`.
`SentFirst`: what has been transmitted comes first.
-/

namespace WebRtc.Tcp

def SSegment.size (s : SSegment) : Nat := s.len.toNat

def SSegment.sentSize (s : SSegment) : Nat := if s.xmit = 0 then 0 else s.len.toNat

def bytesIn (slist : List SSegment) : Nat := (slist.map SSegment.size).sum

def sentIn (slist : List SSegment) : Nat := (slist.map SSegment.sentSize).sum

def Contiguous (una : UInt32) : List SSegment → Prop
  | [] => True
  | s :: slist => s.seq = una ∧ Contiguous (una + s.len) slist

def SentFirst (slist : List SSegment) : Prop := slist.Pairwise fun a b => b.xmit ≠ 0 → a.xmit ≠ 0

section
variable {s : SSegment} {a b slist : List SSegment} {una : UInt32}

@[simp] theorem bytesIn_nil : bytesIn [] = 0 := rfl
@[simp] theorem sentIn_nil : sentIn [] = 0 := rfl
@[simp] theorem bytesIn_cons : bytesIn (s :: slist) = s.len.toNat + bytesIn slist := by simp [bytesIn, SSegment.size]
@[simp] theorem sentIn_cons : sentIn (s :: slist) = s.sentSize + sentIn slist := by simp [sentIn]
@[simp] theorem bytesIn_append : bytesIn (a ++ b) = bytesIn a + bytesIn b := by simp [bytesIn]
@[simp] theorem sentIn_append : sentIn (a ++ b) = sentIn a + sentIn b := by simp [sentIn]

theorem sentSize_le : s.sentSize ≤ s.len.toNat := by
  rw [SSegment.sentSize]
  split
  · exact Nat.zero_le _
  · exact Nat.le_refl _

theorem sentIn_le (slist : List SSegment) : sentIn slist ≤ bytesIn slist := by
  induction slist with
  | nil => exact Nat.le_refl _
  | cons s slist ih =>
    rw [sentIn_cons, bytesIn_cons]
    exact Nat.add_le_add sentSize_le ih

theorem sentIn_of_unsent (h : ∀ s ∈ slist, s.xmit = 0) : sentIn slist = 0 := by
  induction slist with
  | nil => rfl
  | cons s slist ih =>
    rw [sentIn_cons, ih fun t ht => h t (List.mem_cons_of_mem s ht), SSegment.sentSize, if_pos (h s List.mem_cons_self)]

theorem sentIn_of_sent (h : ∀ s ∈ slist, s.xmit ≠ 0) : sentIn slist = bytesIn slist := by
  induction slist with
  | nil => rfl
  | cons s slist ih =>
    rw [sentIn_cons, bytesIn_cons, ih fun t ht => h t (List.mem_cons_of_mem s ht), SSegment.sentSize,
      if_neg (h s List.mem_cons_self)]

theorem ne_nil_of_sentIn (h : sentIn slist ≠ 0) : slist ≠ [] := by
  rintro rfl
  exact h rfl

theorem contiguous_append : Contiguous una (a ++ b) ↔ Contiguous una a ∧
    Contiguous (una + UInt32.ofNat (bytesIn a)) b := by
  induction a generalizing una with
  | nil => simp [Contiguous]
  | cons s a ih =>
    rw [List.cons_append, Contiguous, Contiguous, ih, bytesIn_cons, UInt32.ofNat_add,
      UInt32.ofNat_toNat, UInt32.add_assoc,
      and_assoc]

/-- The numbers of two segments for one. -/
theorem contiguous_split {n : UInt32} (s : SSegment) (slist : List SSegment) (p q : SSegment)
    (hp : p.seq = s.seq ∧ p.len = n) (hq : q.seq = s.seq + n ∧ q.len = s.len - n) :
    Contiguous una (p :: q :: slist) ↔ Contiguous una (s :: slist) := by
  simp only [Contiguous, hp.1, hp.2, hq.1, hq.2]
  constructor
  · rintro ⟨rfl, -, h⟩
    exact ⟨rfl, by rwa [UInt32.add_assoc, UInt32.add_comm n, UInt32.sub_add_cancel] at h⟩
  · rintro ⟨rfl, h⟩
    exact ⟨rfl, rfl, by rwa [UInt32.add_assoc, UInt32.add_comm n, UInt32.sub_add_cancel]⟩

/-- Where a segment is found. -/
theorem Contiguous.offset (h : Contiguous una (a ++ s :: b)) : s.seq - una = UInt32.ofNat (bytesIn a) := by
  obtain ⟨-, hs, -⟩ := contiguous_append.1 h
  rw [hs, UInt32.add_comm, UInt32.add_sub_cancel]

theorem sentFirst_append : SentFirst (a ++ b) ↔
    SentFirst a ∧ SentFirst b ∧ ∀ s ∈ a, ∀ t ∈ b, t.xmit ≠ 0 → s.xmit ≠ 0 := List.pairwise_append

theorem pos_iff_sent (s : SSegment) : decide (0 < s.xmit) = true ↔ s.xmit ≠ 0 := by
  rw [decide_eq_true_eq, UInt8.lt_iff_toNat_lt, ne_eq, ← UInt8.toNat_inj]
  exact Nat.pos_iff_ne_zero

/-- The loop that looks for a segment to transmit. -/
theorem takeWhile_sent (slist : List SSegment) : ∀ s ∈ slist.takeWhile fun s => decide (0 < s.xmit), s.xmit ≠ 0 :=
  fun s hs => (pos_iff_sent s).1 (List.mem_takeWhile_imp (p := fun s : SSegment => decide (0 < s.xmit)) hs)

theorem SentFirst.dropWhile_unsent (h : SentFirst slist) :
    ∀ s ∈ slist.dropWhile fun s => decide (0 < s.xmit), s.xmit = 0 := by
  induction slist with
  | nil => intro s hs; cases hs
  | cons s slist ih =>
    obtain ⟨hs, hrest⟩ := List.pairwise_cons.1 h
    intro t ht
    rw [List.dropWhile_cons] at ht
    split at ht
    · exact ih hrest t ht
    · next h0 =>
      rw [pos_iff_sent, not_not] at h0
      rcases List.mem_cons.1 ht with rfl | ht
      · exact h0
      · by_contra hne
        exact hs t ht hne h0

end

end WebRtc.Tcp
