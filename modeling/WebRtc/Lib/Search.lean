import Mathlib.Data.List.Basic
import Mathlib.Data.List.Pairwise

/-!
# Searching in a tree

An ordered container is the list of its elements in the order of the tree. A search goes down the tree
and compares some of them: it is known to end at the partition point when there is one, and only then
(`Search`). A set is such a container of its keys (`upperBound`, `erase`, `insertEnd`).
-/

/-- What holds of an element holds of all before it. -/
def Partitioned {α : Type} (p : α → Bool) (l : List α) : Prop := l.Pairwise fun a b => p b = true → p a = true

/-- The position that the search for the first element without `p` ends at. -/
structure Search (α : Type) where
  find : (α → Bool) → List α → Nat
  find_partitioned : ∀ {p l}, Partitioned p l → find p l = (l.takeWhile p).length

namespace Search

variable {α : Type} {p : α → Bool} {l : List α}

/-- One after the other. -/
def linear (α : Type) : Search α := ⟨fun p l => (l.takeWhile p).length, fun _ => rfl⟩

theorem takeWhile_eq_filter (h : Partitioned p l) : l.takeWhile p = l.filter p := by
  induction l with
  | nil => rfl
  | cons a l ih =>
    obtain ⟨hfirst, hrest⟩ := List.pairwise_cons.1 h
    by_cases ha : p a = true
    · rw [List.takeWhile_cons_of_pos ha, List.filter_cons_of_pos ha, ih hrest]
    · have hnone : l.filter p = [] := by
        rw [List.filter_eq_nil_iff]
        intro b hb hpb
        exact ha (hfirst b hb hpb)
      rw [List.takeWhile_cons_of_neg ha, List.filter_cons_of_neg ha, hnone]

theorem dropWhile_eq_filter (h : Partitioned p l) : l.dropWhile p = l.filter fun a => !p a := by
  induction l with
  | nil => rfl
  | cons a l ih =>
    obtain ⟨hfirst, hrest⟩ := List.pairwise_cons.1 h
    by_cases ha : p a = true
    · rw [List.dropWhile_cons_of_pos ha, List.filter_cons_of_neg (by simp [ha]), ih hrest]
    · have hall : (a :: l).filter (fun a => !p a) = a :: l := by
        rw [List.filter_eq_self]
        intro b hb
        rcases List.mem_cons.1 hb with rfl | hb
        · simpa using ha
        · have hpb : ¬ p b = true := fun hpb => ha (hfirst b hb hpb)
          simpa using hpb
      rw [List.dropWhile_cons_of_neg ha, hall]

theorem drop_takeWhile_length (p : α → Bool) (l : List α) : l.drop (l.takeWhile p).length = l.dropWhile p := by
  induction l with
  | nil => rfl
  | cons a l ih =>
    by_cases ha : p a = true
    · rw [List.takeWhile_cons_of_pos ha, List.dropWhile_cons_of_pos ha, List.length_cons, List.drop_succ_cons, ih]
    · rw [List.takeWhile_cons_of_neg ha, List.dropWhile_cons_of_neg ha]
      rfl

theorem take_takeWhile_length (p : α → Bool) (l : List α) : l.take (l.takeWhile p).length = l.takeWhile p :=
  List.prefix_iff_eq_take.1 (List.takeWhile_prefix p) |>.symm

variable (s : Search α)

/-- What is before the position. -/
theorem take_find (h : Partitioned p l) : l.take (s.find p l) = l.filter p := by
  rw [s.find_partitioned h, take_takeWhile_length, takeWhile_eq_filter h]

/-- What is behind it. -/
theorem drop_find (h : Partitioned p l) : l.drop (s.find p l) = l.filter fun a => !p a := by
  rw [s.find_partitioned h, drop_takeWhile_length, dropWhile_eq_filter h]

/-! ## Ordered sets -/

section Sets
variable (lt : α → α → Bool)

def upperBound (key : α) (l : List α) : Nat := s.find (fun a => !lt key a) l

/-- Keys are the same when neither comes before the other. -/
def erase (key : α) (l : List α) : List α :=
  let position := s.find (fun a => lt a key) l
  match l[position]? with
  | none => l
  | some a => if lt key a || lt a key then l else l.eraseIdx position

/-- A key that is expected to belong to the end. -/
def insertEnd (l : List α) (key : α) : List α :=
  match l.getLast? with
  | none => [key]
  | some last =>
    if lt last key then l ++ [key]
    else
      let position := s.find (fun a => lt a key) l
      match l[position]? with
      | none => l ++ [key]
      | some a => if lt key a then l.insertIdx position key else l

variable {s lt} {key : α}

theorem erase_sublist : (s.erase lt key l).Sublist l := by
  unfold erase
  dsimp only
  split
  · exact List.Sublist.refl l
  · split
    · exact List.Sublist.refl l
    · exact List.eraseIdx_sublist l _

/-- What has been erased is not there any more. -/
theorem not_mem_erase (hirrefl : lt key key = false) (hl : l.Pairwise fun a b => lt a b = true)
    (hpart : Partitioned (fun a => lt a key) l) : key ∉ s.erase lt key l := by
  intro hmem
  have hkey : key ∈ l := erase_sublist.subset hmem
  -- The key is not in front of the position that is found, so there is something at the position.
  have hfind := s.find_partitioned hpart
  have hfront : key ∉ l.takeWhile fun a => lt a key := by
    rw [takeWhile_eq_filter hpart, List.mem_filter, hirrefl]
    exact fun h => Bool.false_ne_true h.2
  have hsplit := List.takeWhile_append_dropWhile (p := fun a => lt a key) (l := l)
  generalize hfrontEq : l.takeWhile (fun a => lt a key) = front at hfind hfront hsplit
  cases hback : l.dropWhile fun a => lt a key with
  | nil =>
    rw [hback, List.append_nil] at hsplit
    rw [hsplit] at hfront
    exact hfront hkey
  | cons a back =>
    have hafter : lt a key = false := by
      have hhead : a ∈ l.dropWhile fun a => lt a key := by rw [hback]; exact List.mem_cons_self
      rw [dropWhile_eq_filter hpart, List.mem_filter] at hhead
      simpa using hhead.2
    rw [hback] at hsplit
    rw [← hsplit, List.pairwise_append, List.pairwise_cons] at hl
    have ha : a = key := by
      rw [← hsplit, List.mem_append, List.mem_cons] at hkey
      rcases hkey with hkey | hkey | hkey
      · exact absurd hkey hfront
      · exact hkey.symm
      · have hbefore := hl.2.1.1 key hkey
        rw [hafter] at hbefore
        exact absurd hbefore Bool.false_ne_true
    have hget : l[front.length]? = some a := by
      rw [← hsplit, List.getElem?_append_right (Nat.le_refl _), Nat.sub_self]
      rfl
    have herased : s.erase lt key l = front ++ back := by
      unfold erase
      dsimp only
      rw [hfind, hget]
      dsimp only
      rw [ha, hirrefl, Bool.or_self, if_neg Bool.false_ne_true, ← hsplit,
        List.eraseIdx_append_of_length_le (Nat.le_refl _), Nat.sub_self]
      rfl
    rw [herased, List.mem_append] at hmem
    rcases hmem with hmem | hmem
    · exact hfront hmem
    · have hself := hl.2.1.1 key hmem
      rw [ha, hirrefl] at hself
      exact Bool.false_ne_true hself

theorem insertEnd_last (h : ∀ last, l.getLast? = some last → lt last key = true) : s.insertEnd lt l key = l ++ [key] := by
  unfold insertEnd
  split
  · rename_i hnone
    rw [List.getLast?_eq_none_iff.1 hnone]
    rfl
  · rename_i last hlast
    rw [if_pos (h last hlast)]

end Sets

end Search
