import Mathlib.Data.List.Dedup
import Mathlib.Data.List.Forall2
import Mathlib.Data.List.Perm.Subperm
import WebRtc.Rtcp.Tmmbr

/-!
# The candidates of the bounding set

What the steps 1 to 4 leave of the candidates: the tuple with the lowest bitrate and, in the order of their overheads,
the tuple with the lowest bitrate of every larger overhead (`candidates_spec`). The number of candidates goes down
with the ones that step 4 discards, not with those of step 2.
-/

namespace WebRtc.Rtcp

/-- An array of tuples with gaps. -/
def Gapped (l : List SetElement) : Prop := ∀ c ∈ l, c = cleared ∨ 0 < c.tmmbr ∧ 0 < c.packetOh

section Gaps
variable {l l' : List SetElement} {c : SetElement}

@[simp] theorem mem_tuples : c ∈ tuples l ↔ c ∈ l ∧ 0 < c.tmmbr := by
  simp [tuples]

theorem cleared_tmmbr : ¬ 0 < cleared.tmmbr := by decide

/-- Entries that were cleared, and nothing else. -/
def Thinned (l l' : List SetElement) : Prop := List.Forall₂ (fun c c' => c' = c ∨ c' = cleared) l l'

theorem Thinned.refl (l : List SetElement) : Thinned l l := List.forall₂_same.2 fun _ _ => Or.inl rfl

theorem Thinned.trans {l'' : List SetElement} (h : Thinned l l') (h' : Thinned l' l'') : Thinned l l'' := by
  induction h generalizing l'' with
  | nil =>
    cases h'
    exact List.Forall₂.nil
  | cons hc _ ih =>
    cases h' with
    | cons hc' h' =>
      refine List.Forall₂.cons ?_ (ih h')
      rcases hc' with rfl | rfl
      · exact hc
      · exact Or.inr rfl

theorem Thinned.gapped (h : Thinned l l') (hl : Gapped l) : Gapped l' := by
  induction h with
  | nil => exact hl
  | cons hc _ ih =>
    obtain ⟨ha, hrest⟩ := List.forall_mem_cons.1 hl
    refine List.forall_mem_cons.2 ⟨?_, ih hrest⟩
    rcases hc with rfl | rfl
    · exact ha
    · exact Or.inl rfl

theorem Thinned.sublist (h : Thinned l l') : (tuples l').Sublist (tuples l) := by
  induction h with
  | nil => exact List.Sublist.refl _
  | cons hc _ ih =>
    unfold tuples at ih ⊢
    rcases hc with rfl | rfl
    · rw [List.filter_cons, List.filter_cons]
      split
      · exact ih.cons_cons _
      · exact ih
    · rw [List.filter_cons, if_neg (by decide), List.filter_cons]
      split
      · exact ih.cons _
      · exact ih

theorem thinned_map (p : SetElement → Bool) (l : List SetElement) :
    Thinned l (l.map fun c => if p c then cleared else c) := by
  induction l with
  | nil => exact List.Forall₂.nil
  | cons c l ih =>
    refine List.Forall₂.cons ?_ ih
    dsimp only
    split
    · exact Or.inr rfl
    · exact Or.inl rfl

theorem thinned_mapIdx (p : Nat → SetElement → Prop) [∀ j c, Decidable (p j c)] (l : List SetElement) :
    Thinned l (l.mapIdx fun j c => if p j c then cleared else c) := by
  induction l generalizing p with
  | nil => exact List.Forall₂.nil
  | cons c l ih =>
    rw [List.mapIdx_cons]
    refine List.Forall₂.cons ?_ (ih fun j => p (j + 1))
    split
    · exact Or.inr rfl
    · exact Or.inl rfl

theorem thinned_set (l : List SetElement) (i : Nat) : Thinned l (l.set i cleared) := by
  induction l generalizing i with
  | nil => exact List.Forall₂.nil
  | cons c l ih =>
    cases i with
    | zero => exact List.Forall₂.cons (Or.inr rfl) (Thinned.refl l)
    | succ i => exact List.Forall₂.cons (Or.inl rfl) (ih i)

theorem Thinned.length_eq (h : Thinned l l') : l'.length = l.length := (List.Forall₂.length_eq h).symm

/-- What is in the array is at some index. -/
theorem mem_tuples_iff : c ∈ tuples l ↔ 0 < c.tmmbr ∧ ∃ j < l.length, entry l j = c := by
  rw [mem_tuples, and_comm, List.mem_iff_getElem]
  refine and_congr_right fun _ => exists_congr fun j => ?_
  constructor
  · rintro ⟨hj, rfl⟩
    exact ⟨hj, by simp [entry, hj]⟩
  · rintro ⟨hj, rfl⟩
    exact ⟨hj, by simp [entry, hj]⟩

theorem entry_outside {j : Nat} (h : ¬ j < l.length) : entry l j = cleared := by
  rw [entry, List.getD_eq_getElem?_getD, List.getElem?_eq_none (Nat.not_lt.1 h), Option.getD_none]

theorem entry_lt {j : Nat} (h : 0 < (entry l j).tmmbr) : j < l.length := by
  by_contra hnot
  rw [entry_outside hnot] at h
  exact cleared_tmmbr h

theorem entry_mem {j : Nat} (h : 0 < (entry l j).tmmbr) : entry l j ∈ tuples l :=
  mem_tuples_iff.2 ⟨h, j, entry_lt h, rfl⟩

/-- An overhead means a tuple. -/
theorem Gapped.entry_pos (h : Gapped l) {j : Nat} (hoh : (entry l j).packetOh ≠ 0) : 0 < (entry l j).tmmbr := by
  by_cases hj : j < l.length
  · have hmem : entry l j ∈ l := by simp [entry, hj]
    rcases h _ hmem with hc | ⟨hpos, -⟩
    · rw [hc] at hoh
      exact absurd rfl hoh
    · exact hpos
  · rw [entry_outside hj] at hoh
    exact absurd rfl hoh

theorem Gapped.overhead (h : Gapped l) {j : Nat} (hpos : 0 < (entry l j).tmmbr) : (entry l j).packetOh ≠ 0 := by
  have hj := entry_lt hpos
  have hmem : entry l j ∈ l := by simp [entry, hj]
  rcases h _ hmem with hc | ⟨-, hoh⟩
  · rw [hc] at hpos
    exact absurd hpos cleared_tmmbr
  · intro hzero
    rw [hzero] at hoh
    exact absurd hoh (by decide)

theorem Thinned.entry_eq (h : Thinned l l') {j : Nat} (hj : 0 < (entry l' j).tmmbr) : entry l' j = entry l j := by
  have hlt := entry_lt hj
  have hlt' : j < l.length := h.length_eq ▸ hlt
  have hget := List.Forall₂.get h hlt' hlt
  simp only [entry, List.getD_eq_getElem?_getD, List.getElem?_eq_getElem hlt, List.getElem?_eq_getElem hlt',
    Option.getD_some] at hj ⊢
  rcases hget with h | h
  · simpa using h
  · rw [List.get_eq_getElem] at h
    rw [h] at hj
    exact absurd hj cleared_tmmbr

/-- The array after the first tuple is taken out. -/
theorem takeFirst_cons {tail : List SetElement} (h : tuples l = c :: tail) (cur : SetElement) :
    ∃ l', takeFirst l cur = (l', c) ∧ tuples l' = tail := by
  have hfirst : ∃ i, firstIndex l = some i ∧ entry l i = c ∧ tuples (l.set i cleared) = tail := by
    induction l with
    | nil => cases h
    | cons a l ih =>
      by_cases ha : 0 < a.tmmbr
      · simp only [tuples, List.filter_cons, ha, decide_true, if_true, List.cons.injEq] at h
        obtain ⟨rfl, htail⟩ := h
        refine ⟨0, ?_, rfl, ?_⟩
        · simp [firstIndex, List.findIdx?_cons, ha]
        · simpa [tuples, cleared] using htail
      · simp only [tuples, List.filter_cons, ha, decide_false] at h
        obtain ⟨i, hi, hentry, hset⟩ := ih h
        refine ⟨i + 1, ?_, hentry, ?_⟩
        · unfold firstIndex at hi ⊢
          simp [List.findIdx?_cons, ha, hi]
        · unfold tuples at hset ⊢
          simpa [ha] using hset
  obtain ⟨i, hi, hentry, hset⟩ := hfirst
  exact ⟨l.set i cleared, by rw [takeFirst, hi, ← hentry], hset⟩

theorem takeFirst_nil (h : tuples l = []) (cur : SetElement) : takeFirst l cur = (l, cur) := by
  have hnone : firstIndex l = none := by
    rw [firstIndex, List.findIdx?_eq_none_iff]
    intro c hc
    have hnot : c ∉ tuples l := by rw [h]; simp
    simpa [hc] using hnot
  rw [takeFirst, hnone]

end Gaps

/-! ## The lowest bitrate of every overhead -/

section Lowest
variable {l : List SetElement} {i : Nat}

theorem foldl_lowest (l : List SetElement) (i : Nat) (js : List Nat) (m : Nat)
    (hm : (entry l m).packetOh = (entry l i).packetOh) :
    let m' := js.foldl (fun m j => if (entry l j).packetOh = (entry l i).packetOh ∧
      (entry l j).tmmbr < (entry l m).tmmbr then j else m) m
    (entry l m').packetOh = (entry l i).packetOh ∧ (entry l m').tmmbr ≤ (entry l m).tmmbr ∧
      ∀ j ∈ js, (entry l j).packetOh = (entry l i).packetOh → (entry l m').tmmbr ≤ (entry l j).tmmbr := by
  induction js generalizing m with
  | nil => exact ⟨hm, UInt32.le_refl _, by simp⟩
  | cons j js ih =>
    rw [List.foldl_cons]
    by_cases hj : (entry l j).packetOh = (entry l i).packetOh ∧ (entry l j).tmmbr < (entry l m).tmmbr
    · rw [if_pos hj]
      obtain ⟨hoh, hle, hall⟩ := ih j hj.1
      exact ⟨hoh, UInt32.le_trans hle (UInt32.le_of_lt hj.2), List.forall_mem_cons.2 ⟨fun _ => hle, hall⟩⟩
    · rw [if_neg hj]
      obtain ⟨hoh, hle, hall⟩ := ih m hm
      refine ⟨hoh, hle, List.forall_mem_cons.2 ⟨fun hsame => UInt32.le_trans hle ?_, hall⟩⟩
      exact UInt32.not_lt.1 fun hlt => hj ⟨hsame, hlt⟩

theorem lowestIndex_spec (l : List SetElement) (i : Nat) :
    (entry l (lowestIndex l i)).packetOh = (entry l i).packetOh ∧
      ∀ j, i ≤ j → j < l.length → (entry l j).packetOh = (entry l i).packetOh →
        (entry l (lowestIndex l i)).tmmbr ≤ (entry l j).tmmbr := by
  obtain ⟨hoh, hle, hall⟩ := foldl_lowest l i (List.range' (i + 1) (l.length - (i + 1))) i rfl
  refine ⟨hoh, ?_⟩
  intro j hij hj hsame
  by_cases hji : j = i
  · rw [hji]
    exact hle
  · exact hall j (List.mem_range'_1.2 (by omega)) hsame

theorem entry_keepLowest (l : List SetElement) (i j : Nat) : entry (keepLowest l i) j =
    if (entry l j).packetOh = (entry l i).packetOh ∧ j ≠ lowestIndex l i then cleared else entry l j := by
  by_cases hj : j < l.length
  · simp [entry, keepLowest, hj]
  · rw [entry_outside hj, entry_outside (by simpa [keepLowest] using hj)]
    split <;> rfl

/-- The tuples before `i` are the only ones with their overheads. -/
def Alone (l : List SetElement) (i : Nat) : Prop := ∀ j k, j < i → j ≠ k → 0 < (entry l j).tmmbr →
    0 < (entry l k).tmmbr →
  (entry l j).packetOh ≠ (entry l k).packetOh

/-- For every tuple there is one with its overhead and no higher bitrate. -/
def Covers (l l' : List SetElement) : Prop := ∀ c ∈ tuples l, ∃ e ∈ tuples l',
    e.packetOh = c.packetOh ∧ e.tmmbr ≤ c.tmmbr

theorem keepLowest_spec (hl : Gapped l) (halone : Alone l i) (hi : 0 < (entry l i).tmmbr) :
    Alone (keepLowest l i) (i + 1) ∧ Covers l (keepLowest l i) := by
  obtain ⟨hoh, hlowest⟩ := lowestIndex_spec l i
  have hold : ∀ {j}, 0 < (entry (keepLowest l i) j).tmmbr → entry (keepLowest l i) j = entry l j ∧
      ((entry l j).packetOh = (entry l i).packetOh → j = lowestIndex l i) := by
    intro j hj
    rw [entry_keepLowest] at hj ⊢
    split at hj
    · exact absurd hj cleared_tmmbr
    · rename_i hnot
      rw [if_neg hnot]
      exact ⟨rfl, fun hsame => by_contra fun hne => hnot ⟨hsame, hne⟩⟩
  constructor
  · intro j k hj hjk hposj hposk
    obtain ⟨hentryj, hlowj⟩ := hold hposj
    obtain ⟨hentryk, hlowk⟩ := hold hposk
    rw [hentryj] at hposj ⊢
    rw [hentryk] at hposk ⊢
    intro hsame
    by_cases hown : (entry l j).packetOh = (entry l i).packetOh
    · exact hjk ((hlowj hown).trans (hlowk (hsame ▸ hown)).symm)
    · have hji : j ≠ i := fun h => hown (by rw [h])
      exact halone j k (by omega) hjk hposj hposk hsame
  · intro c hc
    obtain ⟨hpos, k, hk, rfl⟩ := mem_tuples_iff.1 hc
    by_cases hown : (entry l k).packetOh = (entry l i).packetOh
    · have hik : i ≤ k := by
        by_contra hlt
        exact halone k i (Nat.not_le.1 hlt) (by omega) hpos hi hown
      have hm : 0 < (entry l (lowestIndex l i)).tmmbr := hl.entry_pos (hoh ▸ hl.overhead hi)
      have hentry : entry (keepLowest l i) (lowestIndex l i) = entry l (lowestIndex l i) := by
        rw [entry_keepLowest, if_neg (by simp)]
      refine ⟨entry l (lowestIndex l i), ?_, hoh.trans hown.symm, hlowest k hik hk hown⟩
      rw [← hentry] at hm ⊢
      exact entry_mem hm
    · have hentry : entry (keepLowest l i) k = entry l k := by rw [entry_keepLowest, if_neg fun h => hown h.1]
      refine ⟨entry l k, ?_, rfl, UInt32.le_refl _⟩
      rw [← hentry] at hpos ⊢
      exact entry_mem hpos

theorem Covers.trans {l l' l'' : List SetElement} (h : Covers l l') (h' : Covers l' l'') : Covers l l'' := by
  intro c hc
  obtain ⟨e, he, hoh, hle⟩ := h c hc
  obtain ⟨f, hf, hoh', hle'⟩ := h' e he
  exact ⟨f, hf, hoh'.trans hoh, UInt32.le_trans hle' hle⟩

/-- One tuple is left of every overhead. -/
theorem keepLowestAll_spec (hl : Gapped l) : Thinned l (keepLowestAll l) ∧ Alone (keepLowestAll l) l.length ∧
    Covers l (keepLowestAll l) := by
  have hfold : ∀ n, let l' := (List.range n).foldl (fun l i => if 0 < (entry l i).tmmbr then keepLowest l i else l) l
      Thinned l l' ∧ Alone l' n ∧ Covers l l' := by
    intro n
    induction n with
    | zero => exact ⟨Thinned.refl l, fun j k hj =>
      absurd hj (Nat.not_lt_zero j), fun c hc => ⟨c, hc, rfl, UInt32.le_refl _⟩⟩
    | succ n ih =>
      rw [List.range_succ, List.foldl_append]
      obtain ⟨hthin, halone, hcovers⟩ := ih
      generalize (List.range n).foldl (fun l i => if 0 < (entry l i).tmmbr then keepLowest l i else l) l =
        l' at hthin halone hcovers
      by_cases hn : 0 < (entry l' n).tmmbr
      · obtain ⟨halone', hcovers'⟩ := keepLowest_spec (hthin.gapped hl) halone hn
        rw [List.foldl_cons, List.foldl_nil, if_pos hn]
        exact ⟨hthin.trans (thinned_mapIdx _ l'), halone', hcovers.trans hcovers'⟩
      · rw [List.foldl_cons, List.foldl_nil, if_neg hn]
        refine ⟨hthin, ?_, hcovers⟩
        intro j k hj hjk hposj hposk
        have hjn : j ≠ n := fun h => hn (h ▸ hposj)
        exact halone j k (by omega) hjk hposj hposk
  exact hfold l.length

end Lowest

/-! ## The lowest bitrate of all -/

section Minimum
variable {l : List SetElement}

/-- The tuples of an array in the order of their overheads. -/
def Climbing (l : List SetElement) : Prop :=
  ∀ j k, j < k → 0 < (entry l j).tmmbr → 0 < (entry l k).tmmbr → (entry l j).packetOh < (entry l k).packetOh

theorem climbing_keepLowestAll (hl : Gapped l) (hsorted : l.Pairwise fun a b => a.packetOh.toNat ≤ b.packetOh.toNat) :
    Climbing (keepLowestAll l) := by
  obtain ⟨hthin, halone, -⟩ := keepLowestAll_spec hl
  intro j k hjk hposj hposk
  have hlt : k < l.length := hthin.length_eq ▸ entry_lt hposk
  have hne := halone j k (by omega) (by omega) hposj hposk
  have hle : (entry l j).packetOh.toNat ≤ (entry l k).packetOh.toNat := by
    have hj : j < l.length := by omega
    simpa [entry, hj, hlt] using List.pairwise_iff_getElem.1 hsorted j k hj hlt hjk
  rw [hthin.entry_eq hposj, hthin.entry_eq hposk] at hne ⊢
  refine UInt32.lt_iff_toNat_lt.2 (lt_of_le_of_ne hle fun h => hne ?_)
  exact UInt32.toNat_inj.1 h

theorem foldl_minIndex (l : List SetElement) {m : Nat} (hm : 0 < (entry l m).tmmbr) (n : Nat) :
    let m' := (List.range n).foldl (fun m i =>
      if 0 < (entry l i).tmmbr ∧ (entry l i).tmmbr ≤ (entry l m).tmmbr then i else m) m
    0 < (entry l m').tmmbr ∧ ∀ j < n, 0 < (entry l j).tmmbr →
      (entry l m').tmmbr ≤ (entry l j).tmmbr ∧ ((entry l j).tmmbr = (entry l m').tmmbr → j ≤ m') := by
  induction n with
  | zero => exact ⟨hm, fun j hj => absurd hj (Nat.not_lt_zero j)⟩
  | succ n ih =>
    rw [List.range_succ, List.foldl_append, List.foldl_cons, List.foldl_nil]
    obtain ⟨hpos, hall⟩ := ih
    generalize (List.range n).foldl
      (fun m i => if 0 < (entry l i).tmmbr ∧ (entry l i).tmmbr ≤ (entry l m).tmmbr then i else m) m = m' at hpos hall
    by_cases hn : 0 < (entry l n).tmmbr ∧ (entry l n).tmmbr ≤ (entry l m').tmmbr
    · rw [if_pos hn]
      refine ⟨hn.1, ?_⟩
      intro j hj hposj
      by_cases hjn : j = n
      · rw [hjn]
        exact ⟨UInt32.le_refl _, fun _ => le_refl n⟩
      · exact ⟨UInt32.le_trans hn.2 (hall j (by omega) hposj).1, fun _ => by omega⟩
    · rw [if_neg hn]
      refine ⟨hpos, ?_⟩
      intro j hj hposj
      by_cases hjn : j = n
      · rw [hjn] at hposj ⊢
        have hlt : (entry l m').tmmbr < (entry l n).tmmbr := UInt32.not_le.1 fun h => hn ⟨hposj, h⟩
        exact ⟨UInt32.le_of_lt hlt, fun heq => absurd hlt (by rw [heq]; exact UInt32.lt_irrefl _)⟩
      · exact hall j (by omega) hposj

/-- The lowest bitrate, of several the one with the largest overhead. -/
structure LowestBitrate (candidates : List SetElement) (c : SetElement) : Prop where
  mem : c ∈ candidates
  bitrate : ∀ d ∈ candidates, c.tmmbr ≤ d.tmmbr
  overhead : ∀ d ∈ candidates, d.tmmbr = c.tmmbr → d.packetOh ≤ c.packetOh

theorem minIndexTmmbr_spec (hclimb : Climbing l) (hne : tuples l ≠ []) :
    0 < (entry l (minIndexTmmbr l)).tmmbr ∧ LowestBitrate (tuples l) (entry l (minIndexTmmbr l)) := by
  obtain ⟨c, tail, htuples⟩ := List.exists_cons_of_ne_nil hne
  have hfirst : ∃ i, firstIndex l = some i ∧ 0 < (entry l i).tmmbr := by
    have hc : c ∈ tuples l := by rw [htuples]; exact List.mem_cons_self
    obtain ⟨hmem, hpos⟩ := mem_tuples.1 hc
    cases hi : firstIndex l with
    | none =>
      rw [firstIndex, List.findIdx?_eq_none_iff] at hi
      exact absurd hpos (decide_eq_false_iff_not.1 (hi c hmem))
    | some i =>
      obtain ⟨hlt, hp, -⟩ := List.findIdx?_eq_some_iff_getElem.1 hi
      exact ⟨i, rfl, by simpa [entry, hlt] using hp⟩
  obtain ⟨i, hi, hposi⟩ := hfirst
  obtain ⟨hpos, hall⟩ := foldl_minIndex l hposi l.length
  have hm : minIndexTmmbr l = (List.range l.length).foldl
      (fun m i => if 0 < (entry l i).tmmbr ∧ (entry l i).tmmbr ≤ (entry l m).tmmbr then i else m) i := by
    rw [minIndexTmmbr, hi, Option.getD_some]
  rw [← hm] at hpos hall
  refine ⟨hpos, entry_mem hpos, ?_, ?_⟩
  · intro d hd
    obtain ⟨hposd, j, hj, rfl⟩ := mem_tuples_iff.1 hd
    exact (hall j hj hposd).1
  · intro d hd heq
    obtain ⟨hposd, j, hj, rfl⟩ := mem_tuples_iff.1 hd
    rcases Nat.lt_or_eq_of_le ((hall j hj hposd).2 heq) with hlt | heq'
    · exact UInt32.le_of_lt (hclimb j _ hlt hposd hpos)
    · rw [heq']
      exact UInt32.le_refl _

/-! ## What is left -/

theorem length_discardLower (packetOh : UInt32) (l : List SetElement) :
    (tuples (discardLower l packetOh)).length + l.countP (lower packetOh) = (tuples l).length := by
  induction l with
  | nil => rfl
  | cons c l ih =>
    unfold tuples discardLower at ih ⊢
    rw [List.map_cons, List.countP_cons]
    by_cases hc : lower packetOh c = true
    · have hpos : 0 < c.tmmbr := by
        simp only [lower, decide_eq_true_eq] at hc
        exact hc.1
      rw [if_pos hc, List.filter_cons, if_neg (by decide), List.filter_cons, if_pos hc,
        if_pos (decide_eq_true hpos), List.length_cons]
      omega
    · rw [if_neg hc, if_neg hc, List.filter_cons, List.filter_cons]
      split
      · rw [List.length_cons, List.length_cons]
        omega
      · exact ih

theorem length_set {m : Nat} (hm : 0 < (entry l m).tmmbr) :
    (tuples (l.set m cleared)).length + 1 = (tuples l).length := by
  induction l generalizing m with
  | nil => exact absurd hm cleared_tmmbr
  | cons c l ih =>
    cases m with
    | zero =>
      have hpos : 0 < c.tmmbr := hm
      simp [tuples, hpos, cleared]
    | succ m =>
      have hrest := ih (m := m) hm
      unfold tuples at hrest ⊢
      rw [List.set_cons_succ, List.filter_cons, List.filter_cons]
      split
      · rw [List.length_cons, List.length_cons]
        omega
      · exact hrest

theorem Climbing.pairwise (h : Climbing l) : (tuples l).Pairwise fun a b => a.packetOh < b.packetOh := by
  rw [tuples, List.pairwise_filter, List.pairwise_iff_getElem]
  intro j k hj hk hjk hposj hposk
  simpa [entry, hj, hk] using h j k hjk (by simpa [entry, hj] using hposj) (by simpa [entry, hk] using hposk)

theorem Thinned.climbing {l' : List SetElement} (h : Thinned l l') (hl : Climbing l) : Climbing l' := by
  intro j k hjk hposj hposk
  have hj := h.entry_eq hposj
  have hk := h.entry_eq hposk
  rw [hj] at hposj ⊢
  rw [hk] at hposk ⊢
  exact hl j k hjk hposj hposk

theorem entry_set_ne {m j : Nat} (h : j ≠ m) : entry (l.set m cleared) j = entry l j := by
  simp [entry, List.getElem?_set_ne h.symm]

theorem entry_set_self (m : Nat) : entry (l.set m cleared) m = cleared := by
  simp only [entry, List.getD_eq_getElem?_getD, List.getElem?_set, if_true]
  split <;> rfl

theorem entry_discardLower (packetOh : UInt32) (j : Nat) :
    entry (discardLower l packetOh) j = if lower packetOh (entry l j) then cleared else entry l j := by
  by_cases hj : j < l.length
  · simp [entry, discardLower, hj]
  · rw [entry_outside hj, entry_outside (by simpa [discardLower] using hj)]
    split <;> rfl

theorem nodup_packetOh {l : List SetElement} (h : l.Pairwise fun a b => a.packetOh < b.packetOh) :
    (l.map SetElement.packetOh).Nodup := by
  rw [List.Nodup, List.pairwise_map]
  refine h.imp fun {a b} hlt heq => ?_
  rw [heq] at hlt
  exact UInt32.lt_irrefl _ hlt

/-- As many as there are overheads. -/
theorem length_eq_iff {kept candidates : List SetElement} (hsub : kept.Sublist candidates)
    (hkept : kept.Pairwise fun a b => a.packetOh < b.packetOh)
    (hcovers : ∀ c ∈ candidates, ∃ e ∈ kept, e.packetOh = c.packetOh ∧ e.tmmbr ≤ c.tmmbr) :
    kept.length = candidates.length ↔ (candidates.map SetElement.packetOh).Nodup := by
  constructor
  · intro hlen
    rw [← hsub.eq_of_length hlen]
    exact nodup_packetOh hkept
  · intro hnodup
    refine Nat.le_antisymm hsub.length_le ?_
    have hsubset : candidates.map SetElement.packetOh ⊆ kept.map SetElement.packetOh := by
      intro packetOh hmem
      obtain ⟨c, hc, rfl⟩ := List.mem_map.1 hmem
      obtain ⟨e, he, hoh, -⟩ := hcovers c hc
      exact List.mem_map.2 ⟨e, he, hoh⟩
    simpa using (List.subperm_of_subset hnodup hsubset).length_le

/-- The lowest bitrate, and the lowest bitrates of the larger overheads in their order. -/
structure Separated (candidates : List SetElement) (base : SetElement) (steeper : List SetElement) : Prop where
  lowest : LowestBitrate candidates base
  order : (base :: steeper).Pairwise fun a b => a.packetOh < b.packetOh
  mem : ∀ c ∈ steeper, c ∈ candidates
  covers : ∀ c ∈ candidates, base.packetOh < c.packetOh → ∃ e ∈ steeper, e.packetOh = c.packetOh ∧ e.tmmbr ≤ c.tmmbr

/-- **The steps 1 to 4.** -/
theorem candidates_spec {sorted : List SetElement} (hl : Gapped l) (hne : tuples l ≠ []) (hperm : sorted.Perm l)
    (hsorted : sorted.Pairwise fun a b => a.packetOh.toNat ≤ b.packetOh.toNat) :
    let first := entry (keepLowestAll sorted) (minIndexTmmbr (keepLowestAll sorted))
    let rest := (keepLowestAll sorted).set (minIndexTmmbr (keepLowestAll sorted)) cleared
    let left := discardLower rest first.packetOh
    Separated (tuples l) first (tuples left) ∧
      (tuples left).length ≤ (tuples l).length - 1 - rest.countP (lower first.packetOh) ∧
      (tuples left = [] → ((tuples l).length - 1 - rest.countP (lower first.packetOh) = 0 ↔
        ((tuples l).map SetElement.packetOh).Nodup)) := by
  have hgapped : Gapped sorted := fun c hc => hl c (hperm.mem_iff.1 hc)
  have htuples : (tuples sorted).Perm (tuples l) := hperm.filter _
  obtain ⟨hthin, -, hcovers⟩ := keepLowestAll_spec hgapped
  have hclimb := climbing_keepLowestAll hgapped hsorted
  have hsub := hthin.sublist
  have hcovers' : ∀ c ∈ tuples l, ∃ e ∈ tuples (keepLowestAll sorted), e.packetOh = c.packetOh ∧ e.tmmbr ≤ c.tmmbr :=
    fun c hc => hcovers c (htuples.mem_iff.2 hc)
  have hmem : ∀ c ∈ tuples (keepLowestAll sorted), c ∈ tuples l := fun c hc => htuples.mem_iff.1 (hsub.subset hc)
  have hkept : tuples (keepLowestAll sorted) ≠ [] := by
    obtain ⟨c, tail, hc⟩ := List.exists_cons_of_ne_nil hne
    obtain ⟨e, he, -⟩ := hcovers' c (by rw [hc]; exact List.mem_cons_self)
    exact List.ne_nil_of_mem he
  have hlength := length_eq_iff hsub hclimb.pairwise hcovers
  have hnodup : ((tuples sorted).map SetElement.packetOh).Nodup ↔ ((tuples l).map SetElement.packetOh).Nodup :=
    (htuples.map _).nodup_iff
  have hsublength := hsub.length_le
  rw [hnodup] at hlength
  rw [htuples.length_eq] at hlength hsublength
  generalize keepLowestAll sorted = kept at *
  obtain ⟨hpos, hlowest⟩ := minIndexTmmbr_spec hclimb hkept
  generalize minIndexTmmbr kept = m at hpos hlowest ⊢
  intro first rest left
  have hrest : Thinned kept rest := thinned_set kept m
  have hleft : Thinned rest left := thinned_map _ rest
  have hcount : (tuples left).length + rest.countP (lower first.packetOh) = (tuples rest).length :=
    length_discardLower first.packetOh rest
  have hset : (tuples rest).length + 1 = (tuples kept).length := length_set hpos
  refine ⟨⟨⟨hmem _ hlowest.mem, ?_, ?_⟩, ?_, ?_, ?_⟩, by omega, ?_⟩
  · intro d hd
    obtain ⟨e, he, -, hle⟩ := hcovers' d hd
    exact UInt32.le_trans (hlowest.bitrate e he) hle
  · intro d hd heq
    obtain ⟨e, he, hoh, hle⟩ := hcovers' d hd
    rw [← hoh]
    exact hlowest.overhead e he (UInt32.le_antisymm (heq ▸ hle) (hlowest.bitrate e he))
  · refine List.pairwise_cons.2 ⟨?_, ((hrest.trans hleft).climbing hclimb).pairwise⟩
    intro c hc
    obtain ⟨hposc, j, hj, rfl⟩ := mem_tuples_iff.1 hc
    have hentry := hleft.entry_eq hposc
    have hentry' : entry rest j = entry kept j := hrest.entry_eq (hentry ▸ hposc)
    have hjm : j ≠ m := by
      rintro rfl
      rw [hentry, entry_set_self] at hposc
      exact cleared_tmmbr hposc
    have hnotlower : ¬ lower first.packetOh (entry rest j) = true := by
      intro hlower
      rw [entry_discardLower, if_pos hlower] at hposc
      exact cleared_tmmbr hposc
    rw [hentry, hentry'] at hposc ⊢
    rw [hentry'] at hnotlower
    rcases Nat.lt_or_gt_of_ne hjm with hlt | hgt
    · exact absurd (decide_eq_true ⟨hposc, hclimb j m hlt hposc hpos⟩) hnotlower
    · exact hclimb m j hgt hpos hposc
  · intro c hc
    exact hmem c ((hrest.trans hleft).sublist.subset hc)
  · intro c hc hlarger
    obtain ⟨e, he, hoh, hle⟩ := hcovers' c hc
    refine ⟨e, ?_, hoh, hle⟩
    obtain ⟨hpose, j, hj, rfl⟩ := mem_tuples_iff.1 he
    have hjm : j ≠ m := by
      rintro rfl
      rw [← hoh] at hlarger
      exact UInt32.lt_irrefl _ hlarger
    have hentry : entry left j = entry kept j := by
      rw [entry_discardLower, entry_set_ne hjm, if_neg]
      intro hlower
      simp only [lower, decide_eq_true_eq] at hlower
      rw [hoh] at hlower
      exact UInt32.lt_asymm hlarger hlower.2
    rw [← hentry] at hpose ⊢
    exact entry_mem hpose
  · intro hnil
    rw [hnil, List.length_nil] at hcount
    rw [← hlength]
    omega

end Minimum

end WebRtc.Rtcp
