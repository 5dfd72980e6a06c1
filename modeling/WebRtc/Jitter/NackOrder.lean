import WebRtc.Jitter.JitterBuffer

/-!
# The order of the numbers on the list

Numbers are compared by how far they are behind the latest one (`behind`), where the range does not wrap: a list whose
numbers are within half of the range of the latest one (`Listed`) is in the order of its set, a number is found in it
and all up to one are dropped as in any sorted list, and the loop of `UpdateNackList` adds the numbers in between
(`pushMissing_eq`).
-/

namespace WebRtc.Jitter

/-! ## Numbers behind the latest one -/

/-- How far `n` is behind. -/
def behind (latest n : UInt16) : Nat := (latest - n).toNat

theorem behind_lt (latest n : UInt16) : behind latest n < 65536 := (latest - n).toNat_lt

@[simp] theorem behind_self (n : UInt16) : behind n n = 0 := by simp [behind]

theorem eq_of_behind {latest n : UInt16} (h : behind latest n = 0) : latest = n := by
  have h1 := latest.toNat_lt
  have h2 := n.toNat_lt
  rw [behind, UInt16.toNat_sub] at h
  apply UInt16.toNat_inj.1
  omega

theorem behind_trans {a b n : UInt16} (h : behind b a + behind a n < 65536) : behind b n = behind b a + behind a n := by
  have h1 := a.toNat_lt
  have h2 := b.toNat_lt
  have h3 := n.toNat_lt
  unfold behind at *
  rw [UInt16.toNat_sub] at *
  rw [UInt16.toNat_sub] at *
  rw [UInt16.toNat_sub] at *
  omega

theorem behind_of_le {latest a n : UInt16} (h : behind latest a ≤ behind latest n) :
    behind a n = behind latest n - behind latest a := by
  have h1 := a.toNat_lt
  have h2 := latest.toNat_lt
  have h3 := n.toNat_lt
  unfold behind at *
  rw [UInt16.toNat_sub] at *
  rw [UInt16.toNat_sub] at *
  rw [UInt16.toNat_sub] at *
  omega

/-- Of two numbers that are less than half of the range apart the newer one is less far behind. -/
theorem newer_iff_behind {latest a b : UInt16} (h1 : behind latest a < behind latest b + 32768)
    (h2 : behind latest b < behind latest a + 32768) :
    isNewerSequenceNumber a b = true ↔ behind latest a < behind latest b := by
  have ha := a.toNat_lt
  have hb := b.toNat_lt
  have hl := latest.toNat_lt
  rw [isNewerSequenceNumber_iff]
  unfold behind at *
  rw [UInt16.toNat_sub] at *
  rw [UInt16.toNat_sub] at *
  rw [UInt16.toNat_sub] at *
  omega

/-- What is not newer is behind by at most half of the range. -/
theorem behind_of_not_newer {latest n : UInt16} (h : isNewerSequenceNumber n latest = false) :
    behind latest n ≤ 32768 := by
  have h1 := latest.toNat_lt
  have h2 := n.toNat_lt
  rw [← Bool.not_eq_true, isNewerSequenceNumber_iff, UInt16.toNat_sub] at h
  rw [behind, UInt16.toNat_sub]
  omega

theorem behind_of_newer {latest n : UInt16} (h : isNewerSequenceNumber n latest = true) :
    0 < behind n latest ∧ behind n latest ≤ 32768 := by
  rw [isNewerSequenceNumber_iff] at h
  unfold behind
  omega

theorem behind_next {latest number : UInt16} (h : 0 < behind number latest) :
    behind number (latest + 1) = behind number latest - 1 := by
  have h1 := latest.toNat_lt
  have h2 := number.toNat_lt
  have hone : (1 : UInt16).toNat = 1 := rfl
  unfold behind at *
  rw [UInt16.toNat_sub] at *
  rw [UInt16.toNat_sub, UInt16.toNat_add, hone]
  omega

theorem latest_of_newer {latest number : UInt16} (h : isNewerSequenceNumber number latest = true) :
    latestSequenceNumber latest number = number := by
  rw [latestSequenceNumber, not_newer_both h, if_neg Bool.false_ne_true]

theorem latest_of_not_newer {latest number : UInt16} (h : isNewerSequenceNumber number latest = false) :
    latestSequenceNumber latest number = latest := by
  unfold latestSequenceNumber
  split
  · rfl
  · rename_i hnot
    rw [Bool.not_eq_true] at hnot
    exact eq_of_not_newer h hnot

theorem not_newer_latest (latest number : UInt16) :
    isNewerSequenceNumber number (latestSequenceNumber latest number) = false := by
  unfold latestSequenceNumber
  split
  · rename_i hnewer
    exact not_newer_both hnewer
  · simp [isNewerSequenceNumber]

/-- Twice ahead is not once around. -/
theorem behind_newer_newer {a b c : UInt16} (hb : b = a ∨ isNewerSequenceNumber b a = true)
    (hc : isNewerSequenceNumber c b = true) : behind c b + behind b a < 65536 := by
  have h1 := a.toNat_lt
  have h2 := b.toNat_lt
  have h3 := c.toNat_lt
  rcases hb with rfl | hb
  · rw [behind_self]
    exact behind_lt c b
  · rw [isNewerSequenceNumber_iff] at hb hc
    unfold behind
    rw [UInt16.toNat_sub] at *
    rw [UInt16.toNat_sub] at *
    omega

/-! ## Numbers in the order of the set -/

/-- The numbers are behind the latest one, by at most `age`, the oldest first. -/
structure Listed (latest : UInt16) (age : Nat) (missing : List UInt16) : Prop where
  sorted : missing.Pairwise fun a b => behind latest b < behind latest a
  near : ∀ n ∈ missing, 0 < behind latest n ∧ behind latest n ≤ age

section Lists
variable {latest number : UInt16} {age : Nat} {missing : List UInt16} {tree : Search UInt16}

theorem Listed.sublist (h : Listed latest age missing) {rest : List UInt16} (hsub : rest.Sublist missing) :
    Listed latest age rest :=
  ⟨h.sorted.sublist hsub, fun n hn => h.near n (hsub.subset hn)⟩

theorem Listed.newer (h : Listed latest age missing) (hage : age < 32768) {n : UInt16} (hn : n ∈ missing) :
    isNewerSequenceNumber latest n = true := by
  have hn' := h.near n hn
  rw [@newer_iff_behind latest latest n (by rw [behind_self]; omega) (by rw [behind_self]; omega), behind_self]
  exact hn'.1

/-- What is not newer than the latest number is compared with those on the list by how far they are behind. -/
theorem Listed.newer_iff (h : Listed latest age missing) (hage : age < 32768)
    (hnumber : isNewerSequenceNumber number latest = false) {n : UInt16} (hn : n ∈ missing) :
    (isNewerSequenceNumber n number = true ↔ behind latest n < behind latest number) ∧
      (isNewerSequenceNumber number n = true ↔ behind latest number < behind latest n) := by
  have hn' := h.near n hn
  have hle := behind_of_not_newer hnumber
  exact ⟨newer_iff_behind (by omega) (by omega), newer_iff_behind (by omega) (by omega)⟩

/-- A number that is newer is not further behind `number` than behind the latest one. -/
theorem Listed.near_of_newer (h : Listed latest age missing) (hage : age < 32768)
    (hnumber : isNewerSequenceNumber number latest = false) {n : UInt16} (hn : n ∈ missing)
    (hnewer : isNewerSequenceNumber number n = true) : behind number n ≤ age := by
  have hlt := (h.newer_iff hage hnumber hn).2.1 hnewer
  have hnear := (h.near n hn).2
  rw [behind_of_le (Nat.le_of_lt hlt)]
  omega

theorem Listed.apart (h : Listed latest age missing) (hage : age < 32768) :
    missing.Pairwise fun a b => sequenceNumberLessThan a b = true := by
  refine h.sorted.imp_of_mem ?_
  intro a b ha hb hab
  have ha' := h.near a ha
  exact (newer_iff_behind (by omega) (by omega)).2 hab

/-- The same list behind another number. -/
theorem Listed.again (h : Listed latest age missing) (hage : age < 32768)
    (hnear : ∀ n ∈ missing, isNewerSequenceNumber number n = true ∧ behind number n ≤ age) :
    Listed number age missing := by
  refine ⟨h.sorted.imp_of_mem ?_, fun n hn => ⟨(behind_of_newer (hnear n hn).1).1, (hnear n hn).2⟩⟩
  intro a b ha hb hab
  have ha' := h.near a ha
  have hnear_a := (hnear a ha).2
  have hnear_b := (hnear b hb).2
  have hnewer := (@newer_iff_behind latest b a (by omega) (by omega)).2 hab
  exact (newer_iff_behind (by omega) (by omega)).1 hnewer

/-- What is left behind `number` is newer. -/
theorem Listed.upperBound_newer (h : Listed latest age missing) (hage : age < 32768)
    (hnumber : isNewerSequenceNumber number latest = true → ∀ n ∈ missing, isNewerSequenceNumber number n = true)
    {n : UInt16} (hn : n ∈ missing.drop (tree.upperBound sequenceNumberLessThan number missing)) :
    isNewerSequenceNumber n number = true := by
  have hpart : Partitioned (fun a => !sequenceNumberLessThan number a) missing := by
    refine h.sorted.imp_of_mem ?_
    intro a b ha hb hab hbefore
    rw [Bool.not_eq_true', ← Bool.not_eq_true] at hbefore ⊢
    intro hafter
    apply hbefore
    by_cases hnewer : isNewerSequenceNumber number latest = true
    · have hcontra := not_newer_both (hnumber hnewer a ha)
      rw [show isNewerSequenceNumber a number = true from hafter] at hcontra
      exact absurd hcontra.symm Bool.false_ne_true
    · rw [Bool.not_eq_true] at hnewer
      have hlt := (h.newer_iff hage hnewer ha).1.1 hafter
      exact (h.newer_iff hage hnewer hb).1.2 (Nat.lt_trans hab hlt)
  rw [Search.upperBound, tree.drop_find hpart, List.mem_filter, Bool.not_not] at hn
  exact hn.2

theorem Listed.not_mem_erase (h : Listed latest age missing) (hage : age < 32768)
    (hnumber : isNewerSequenceNumber number latest = false) :
    number ∉ tree.erase sequenceNumberLessThan number missing := by
  refine Search.not_mem_erase ?_ (h.apart hage) ?_
  · simp [sequenceNumberLessThan, isNewerSequenceNumber]
  · refine h.sorted.imp_of_mem ?_
    intro a b ha hb hab hbefore
    have hlt := (h.newer_iff hage hnumber hb).2.1 hbefore
    exact (h.newer_iff hage hnumber ha).2.2 (Nat.lt_trans hlt hab)

/-! ## New numbers -/

/-- The last `distance` numbers before `number`. -/
def upTo (number : UInt16) : Nat → List UInt16
  | 0 => []
  | distance + 1 => (number - UInt16.ofNat (distance + 1)) :: upTo number distance

theorem behind_sub {distance : Nat} (h : distance < 65536) :
    behind number (number - UInt16.ofNat distance) = distance := by
  have h1 := number.toNat_lt
  unfold behind
  rw [UInt16.toNat_sub, UInt16.toNat_sub, UInt16.toNat_ofNat']
  omega

theorem mem_upTo {n : UInt16} {distance : Nat} (h : distance < 65536) (hn : n ∈ upTo number distance) :
    0 < behind number n ∧ behind number n ≤ distance := by
  induction distance with
  | zero => cases hn
  | succ distance ih =>
    rcases List.mem_cons.1 hn with rfl | hn
    · rw [behind_sub h]
      omega
    · have hrest := ih (by omega) hn
      omega

theorem upTo_sorted {distance : Nat} (h : distance < 65536) :
    (upTo number distance).Pairwise fun a b => behind number b < behind number a := by
  induction distance with
  | zero => exact List.Pairwise.nil
  | succ distance ih =>
    refine List.pairwise_cons.2 ⟨?_, ih (by omega)⟩
    intro n hn
    have hn' := mem_upTo (show distance < 65536 by omega) hn
    rw [behind_sub h]
    omega

/-- The old numbers, and those before the new one, are in the order of the new one. -/
theorem Listed.append_upTo (h : Listed latest age missing) (hage : age < 32767)
    (hnumber : isNewerSequenceNumber number latest = true) :
    (missing ++ upTo number (behind number latest - 1)).Pairwise (fun a b => behind number b < behind number a) ∧
      ∀ n ∈ missing ++ upTo number (behind number latest - 1), 0 < behind number n := by
  obtain ⟨hgap0, hgap1⟩ := behind_of_newer hnumber
  generalize hd : behind number latest = d at *
  have hold : ∀ n ∈ missing, behind number n = d + behind latest n := by
    intro n hn
    have hn' := h.near n hn
    rw [← hd]
    exact behind_trans (by omega)
  constructor
  · rw [List.pairwise_append]
    refine ⟨?_, upTo_sorted (by omega), ?_⟩
    · refine h.sorted.imp_of_mem ?_
      intro a b ha hb hab
      rw [hold a ha, hold b hb]
      omega
    · intro a ha b hb
      have hb' := mem_upTo (show d - 1 < 65536 by omega) hb
      rw [hold a ha]
      omega
  · intro n hn
    rcases List.mem_append.1 hn with hn | hn
    · rw [hold n hn]
      omega
    · exact (mem_upTo (by omega) hn).1

/-- A number that is not on the list yet is put on it when there are numbers in between. -/
theorem Listed.mem_append_upTo (h : Listed latest age missing) (hage : age < 32768)
    (hnumber : isNewerSequenceNumber number latest = true) {n : UInt16}
    (hn : n ∈ missing ++ upTo number (behind number latest - 1)) :
    n ∈ missing ∧ n ≠ number ∨ isNewerSequenceNumber number (latest + 1) = true := by
  obtain ⟨hgap0, hgap1⟩ := behind_of_newer hnumber
  rcases List.mem_append.1 hn with hlisted | hgap
  · left
    refine ⟨hlisted, ?_⟩
    rintro rfl
    have holder := not_newer_both (h.newer hage hlisted)
    rw [hnumber] at holder
    exact Bool.false_ne_true holder.symm
  · right
    have hn' := mem_upTo (by omega) hgap
    have hnext := behind_next hgap0
    refine (@newer_iff_behind number number _ ?_ ?_).2 ?_
    all_goals rw [hnext, behind_self]; omega

/-- **The loop** puts all numbers before the new one at the end. -/
theorem pushMissing_eq {distance fuel : Nat} {i : UInt16} (hi : behind number i = distance)
    (hdistance : distance < 32768)
    (hfuel : distance < fuel) (hlast : ∀ last, missing.getLast? = some last → sequenceNumberLessThan last i = true) :
    VCMJitterBuffer.pushMissing tree number fuel i missing = some (missing ++ upTo number distance) := by
  induction distance generalizing fuel i missing with
  | zero =>
    obtain ⟨fuel, rfl⟩ : ∃ j, fuel = j + 1 := ⟨fuel - 1, by omega⟩
    have hsame := eq_of_behind hi
    rw [VCMJitterBuffer.pushMissing, hsame, if_neg (by simp [isNewerSequenceNumber]), upTo, List.append_nil]
  | succ distance ih =>
    obtain ⟨fuel, rfl⟩ : ∃ j, fuel = j + 1 := ⟨fuel - 1, by omega⟩
    have hnewer : isNewerSequenceNumber number i = true :=
      (@newer_iff_behind number number i (by rw [behind_self]; omega) (by rw [behind_self]; omega)).2
        (by rw [behind_self]; omega)
    have hnumber : i = number - UInt16.ofNat (distance + 1) := by
      have h1 := number.toNat_lt
      have h2 := i.toNat_lt
      rw [behind, UInt16.toNat_sub] at hi
      apply UInt16.toNat_inj.1
      rw [UInt16.toNat_sub, UInt16.toNat_ofNat']
      omega
    have hnext : behind number (i + 1) = distance := by
      have h1 := number.toNat_lt
      have h2 := i.toNat_lt
      have hone : (1 : UInt16).toNat = 1 := rfl
      rw [behind, UInt16.toNat_sub] at hi
      rw [behind, UInt16.toNat_sub, UInt16.toNat_add, hone]
      omega
    have hinsert : tree.insertEnd sequenceNumberLessThan missing i = missing ++ [i] := Search.insertEnd_last hlast
    rw [VCMJitterBuffer.pushMissing, if_pos hnewer, hinsert]
    rw [ih hnext (by omega) (by omega), upTo, ← hnumber, List.append_assoc]
    · rfl
    · intro last hlast'
      rw [List.getLast?_append_cons, List.getLast?_singleton, Option.some.injEq] at hlast'
      subst hlast'
      exact (@newer_iff_behind number (i + 1) i (by omega) (by omega)).2 (by omega)

end Lists

end WebRtc.Jitter
