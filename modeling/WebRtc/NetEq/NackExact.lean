import WebRtc.Lib.Machine
import WebRtc.NetEq.Nack

/-!
# What is on the NACK list

Numbers are taken without wrap here: a received number is the one nearest to the newest. The list has
the numbers that have been skipped, have not come since, and have never been more than the maximum
behind the newest (`listed_always`). A number that has been dropped does not come back when the maximum
is raised (`raised_maximum`).
-/

namespace WebRtc.NetEq

/-! ## Searches in a window of numbers -/

section Window
variable {P : UInt16 → Bool} {q : Int} {L : List Int}

theorem partitioned_keys {l : NackList} (hL : L.Pairwise (· < ·)) (hP : ∀ n ∈ L, P (wrap16 n) = decide (n < q))
    (hkeys : l.map Prod.fst = L.map wrap16) : Partitioned (fun e => P e.1) l := by
  have hints : (L.map wrap16).Pairwise fun a b => P b = true → P a = true := by
    rw [List.pairwise_map]
    refine hL.imp_of_mem ?_
    intro a b ha hb hab
    rw [hP a ha, hP b hb, decide_eq_true_eq, decide_eq_true_eq]
    intro hlt
    exact Int.lt_trans hab hlt
  rw [← hkeys, List.pairwise_map] at hints
  exact hints

/-- What is before `q` stands before the rest. -/
theorem sorted_split (hL : L.Pairwise (· < ·)) (q : Int) :
    L.filter (fun n => decide (n < q)) ++ L.filter (fun n => !decide (n < q)) = L := by
  have hpart : Partitioned (fun n : Int => decide (n < q)) L := by
    refine hL.imp ?_
    intro a b hab hb
    rw [decide_eq_true_eq] at hb ⊢
    exact Int.lt_trans hab hb
  rw [← Search.takeWhile_eq_filter hpart, ← Search.dropWhile_eq_filter hpart, List.takeWhile_append_dropWhile]

end Window

/-! ## The operations of the map -/

section Map
variable (tree : Search (UInt16 × NackElement)) {L : List Int} {f : Int → NackElement}

/-- The entries of the numbers `L`. -/
def entries (L : List Int) (f : Int → NackElement) : NackList := L.map fun n => (wrap16 n, f n)

theorem entries_keys (L : List Int) (f : Int → NackElement) : (entries L f).map Prod.fst = L.map wrap16 := by
  rw [entries, List.map_map]
  rfl

theorem entries_filter {P : UInt16 → Bool} {p : Int → Bool} (h : ∀ n ∈ L, P (wrap16 n) = p n) :
    (entries L f).filter (fun e => P e.1) = entries (L.filter p) f := by
  rw [entries, List.filter_map, entries]
  congr 1
  exact List.filter_congr h

/-- A key that is not there. -/
theorem erase_absent {key : UInt16} {l : NackList} (h : ∀ e ∈ l, e.1 ≠ key) : Nack.erase tree key l = l := by
  unfold Nack.erase
  split
  · rfl
  · rename_i e he
    split
    · rfl
    · rename_i hnot
      rw [Bool.or_eq_true, not_or, Bool.not_eq_true, Bool.not_eq_true] at hnot
      exact absurd (eq_of_not_newer hnot.1 hnot.2) (h e (List.mem_of_getElem? he))

/-- A number that is removed, where the numbers around it are near. -/
theorem erase_entries (hL : L.Pairwise (· < ·)) {p : Int} (hnear : ∀ n ∈ L, -32768 < p - n ∧ p - n < 32768) :
    Nack.erase tree (wrap16 p) (entries L f) = entries (L.filter fun n => decide (n ≠ p)) f := by
  have hcomp : ∀ n ∈ L, nackListCompare (wrap16 n) (wrap16 p) = decide (n < p) :=
    fun n hn => isNewer_wrap16 (hnear n hn).1 (hnear n hn).2
  have hpart : Partitioned (fun e => nackListCompare e.1 (wrap16 p)) (entries L f) :=
    partitioned_keys (P := fun k => nackListCompare k (wrap16 p)) hL hcomp (entries_keys L f)
  have hsplit := sorted_split hL p
  have hlower : Nack.lowerBound tree (wrap16 p) (entries L f) = (L.filter fun n => decide (n < p)).length := by
    rw [Nack.lowerBound, tree.find_partitioned hpart, Search.takeWhile_eq_filter hpart,
      entries_filter (P := fun k => nackListCompare k (wrap16 p)) hcomp, entries, List.length_map]
  generalize hA : L.filter (fun n => decide (n < p)) = A at hsplit hlower
  generalize hB : L.filter (fun n => !decide (n < p)) = B at hsplit
  have hbefore : ∀ n ∈ A, n < p := by
    intro n hn
    rw [← hA] at hn
    simpa using (List.mem_filter.1 hn).2
  have hbehind : ∀ n ∈ B, p ≤ n := by
    intro n hn
    rw [← hB] at hn
    simpa using (List.mem_filter.1 hn).2
  have hentries : entries L f = entries A f ++ entries B f := by
    rw [← hsplit, entries, entries, entries, List.map_append]
  have hlength : (entries A f).length = A.length := by rw [entries, List.length_map]
  have hget : (entries L f)[A.length]? = (entries B f).head? := by
    rw [hentries, ← hlength, List.getElem?_append_right (Nat.le_refl _), Nat.sub_self, List.head?_eq_getElem?]
  have hkept : A.filter (fun n => decide (n ≠ p)) = A := by
    rw [List.filter_eq_self]
    intro n hn
    have hlt := hbefore n hn
    simpa using Int.ne_of_lt hlt
  rw [Nack.erase, hlower, hget]
  rw [← hsplit, List.pairwise_append] at hL
  cases B with
  | nil =>
    rw [← hsplit, List.append_nil, hkept]
    rfl
  | cons b B =>
    have hb : p ≤ b := hbehind b List.mem_cons_self
    have hbL : b ∈ L := by rw [← hsplit]; simp
    have hcomp' := isNewer_wrap16 (a := b) (b := p) (by have := hnear b hbL; omega) (by have := hnear b hbL; omega)
    have hrest : ∀ n ∈ B, b < n := (List.pairwise_cons.1 hL.2.1).1
    have hkeptB : B.filter (fun n => decide (n ≠ p)) = B := by
      rw [List.filter_eq_self]
      intro n hn
      have hlt := hrest n hn
      simpa using (show n ≠ p by omega)
    show (if nackListCompare (wrap16 p) (wrap16 b) || nackListCompare (wrap16 b) (wrap16 p) then _ else _) = _
    rw [show nackListCompare (wrap16 p) (wrap16 b) = decide (p < b) from hcomp', hcomp b hbL]
    by_cases heq : b = p
    · subst heq
      have herase : (entries L f).eraseIdx A.length = entries A f ++ entries B f := by
        rw [hentries, ← hlength, List.eraseIdx_append_of_length_le (Nat.le_refl _), Nat.sub_self]
        rfl
      have hfilter : (A ++ b :: B).filter (fun n => decide (n ≠ b)) = A ++ B := by
        rw [List.filter_append, hkept, List.filter_cons_of_neg (by simp), hkeptB]
      rw [if_neg (by simp), herase, ← hsplit, hfilter, entries, entries, entries, List.map_append]
    · have hlt : p < b := by omega
      have hfilter : (A ++ b :: B).filter (fun n => decide (n ≠ p)) = A ++ b :: B := by
        rw [List.filter_append, hkept, List.filter_cons_of_pos (by simpa using heq), hkeptB]
      rw [if_pos (by simp [hlt]), ← hsplit, hfilter]

/-- The numbers from `n` on. -/
def up : Int → Nat → List Int
  | _, 0 => []
  | n, k + 1 => n :: up (n + 1) k

theorem mem_up {n m : Int} {k : Nat} : m ∈ up n k ↔ n ≤ m ∧ m < n + k := by
  induction k generalizing n with
  | zero => simp [up]
  | succ k ih =>
    rw [up, List.mem_cons, ih]
    push_cast
    omega

theorem up_sorted (n : Int) (k : Nat) : (up n k).Pairwise (· < ·) := by
  induction k generalizing n with
  | zero => exact List.Pairwise.nil
  | succ k ih =>
    refine List.pairwise_cons.2 ⟨fun m hm => ?_, ih (n + 1)⟩
    have h := (mem_up.1 hm).1
    omega

/-- Newer numbers go to the end. -/
theorem insertEnd_newer {l : NackList} {e : UInt16 × NackElement}
    (h : ∀ last, l.getLast? = some last → nackListCompare last.1 e.1 = true) : Nack.insertEnd tree l e = l ++ [e] := by
  unfold Nack.insertEnd
  split
  · rename_i hnone
    rw [List.getLast?_eq_none_iff.1 hnone]
    rfl
  · rename_i last hlast
    rw [if_pos (h last hlast)]

end Map

/-! ## A packet ahead -/

section Ahead
variable (tree : Search (UInt16 × NackElement)) (s : Nack)

/-- What `AddToList` makes of a number. -/
def newElement (sequenceNumber n : UInt16) : NackElement :=
  ⟨s.timeToPlay (s.estimateTimestamp n), s.estimateTimestamp n,
    isNewerSequenceNumber (Nack.before sequenceNumber s.nackThresholdPackets) n⟩

/-- **The loop** adds all numbers up to the received one. -/
theorem addFrom_eq {p n : Int} (k : Nat) (hp : p = n + k) (hk : k < 32768) {fuel : Nat}
    (hfuel : k < fuel) (l : NackList)
    (hl : ∀ last, l.getLast? = some last → nackListCompare last.1 (wrap16 n) = true) :
    s.addFrom tree (wrap16 p) fuel (wrap16 n) l =
      some (l ++ entries (up n k) fun m => newElement s (wrap16 p) (wrap16 m)) := by
  induction k generalizing n fuel l with
  | zero =>
    obtain ⟨fuel, rfl⟩ : ∃ j, fuel = j + 1 := ⟨fuel - 1, by omega⟩
    rw [Nack.addFrom, isNewer_wrap16 (by omega) (by omega), if_neg (by simp; omega)]
    rw [up, entries, List.map_nil, List.append_nil]
  | succ k ih =>
    obtain ⟨fuel, rfl⟩ : ∃ j, fuel = j + 1 := ⟨fuel - 1, by omega⟩
    have hnext : wrap16 n + 1 = wrap16 (n + 1) := wrap16_add n 1
    rw [Nack.addFrom, isNewer_wrap16 (by omega) (by omega), if_pos (by simp; omega)]
    dsimp only
    rw [insertEnd_newer tree hl, hnext, ih (by push_cast at hp; omega) (by omega) (by omega), List.append_assoc]
    · rfl
    · intro last hlast
      rw [List.getLast?_concat] at hlast
      cases hlast
      show isNewerSequenceNumber (wrap16 (n + 1)) (wrap16 n) = true
      rw [isNewer_wrap16 (by omega) (by omega), decide_eq_true_eq]
      omega

end Ahead

/-! ## What has happened -/

/-- The numbers without wrap: the first one, the newest one, those that have been received, and those
that have been more than the maximum behind the newest. -/
structure NackTruth where
  started : Bool
  first : Int
  newest : Int
  max : Nat
  received : Int → Prop
  dropped : Int → Prop

namespace NackTruth

variable (t : NackTruth)

/-- Skipped, not received since, and never more than the maximum behind. -/
def Wanted (n : Int) : Prop := t.first < n ∧ n < t.newest ∧ ¬ t.received n ∧ ¬ t.dropped n

/-- Which number a sequence number stands for. -/
def position (sequenceNumber : UInt16) : Int :=
  if isNewerSequenceNumber sequenceNumber (wrap16 t.newest) then t.newest + (sequenceNumber - wrap16 t.newest).toNat
  else t.newest - (wrap16 t.newest - sequenceNumber).toNat

/-- The maximum is looked at. -/
def limit : NackTruth := { t with dropped := fun n => t.dropped n ∨ n < t.newest ∧ t.max < t.newest - n }

def start : NackTruth := limit ⟨false, 0, 0, 500, fun _ => False, fun _ => False⟩

def receive (sequenceNumber : UInt16) : NackTruth :=
  if t.started = false then
    limit { t with started := true, first := sequenceNumber.toNat, newest := sequenceNumber.toNat,
                   received := fun n => n = sequenceNumber.toNat, dropped := fun _ => False }
  else
    limit { t with newest := Max.max t.newest (t.position sequenceNumber),
                   received := fun n => t.received n ∨ n = t.position sequenceNumber }

def setMax (n : Nat) : NackTruth := limit { t with max := n }

end NackTruth

/-- What the list has of it. -/
def Listed (nackList : NackList) (t : NackTruth) (threshold : Int) : Prop :=
  ∃ L f, nackList = entries L f ∧ L.Pairwise (· < ·) ∧ (∀ n, n ∈ L ↔ t.Wanted n) ∧
    ∀ n ∈ L, (f n).isMissing = decide (n < t.newest - threshold)

structure NackTracks (threshold : Int) (s : Nack) (t : NackTruth) : Prop where
  started : s.anyRtpReceived = t.started
  decoded : s.anyRtpDecoded = false
  threshold_eq : s.nackThresholdPackets = threshold
  last : t.started = true → s.sequenceNumLastReceivedRtp = wrap16 t.newest
  size : s.maxNackListSize = t.max ∧ 0 < t.max ∧ t.max ≤ 500
  first_le : t.first ≤ t.newest
  fresh : t.started = false → t.first = t.newest
  received_le : ∀ n, t.received n → n ≤ t.newest
  received_newest : t.started = true → t.received t.newest
  dropped_lt : ∀ n, t.dropped n → n < t.newest
  far : ∀ n, n < t.newest → t.max < t.newest - n → t.dropped n
  listed : Listed s.nackList t threshold

section Step
variable {tree : Search (UInt16 × NackElement)} {threshold : Int} {s : Nack} {t : NackTruth}

/-- What is wanted is near the newest. -/
theorem wanted_near (h : NackTracks threshold s t) {n : Int} (hn : t.Wanted n) :
    n < t.newest ∧ t.newest - n ≤ t.max := by
  refine ⟨hn.2.1, ?_⟩
  by_contra hfar
  exact hn.2.2.2 (h.far n hn.2.1 (by omega))

theorem limit_dropped_lt (h : ∀ n, t.dropped n → n < t.newest) (n : Int) (hn : t.limit.dropped n) : n < t.newest := by
  rcases hn with hn | ⟨hn, -⟩
  · exact h n hn
  · exact hn

/-- Nothing is wanted before there are two numbers. -/
theorem listed_nil (h : t.first = t.newest) : Listed [] t threshold := by
  refine ⟨[], fun _ => ⟨0, 0, false⟩, rfl, List.Pairwise.nil, ?_, by simp⟩
  intro n
  simp only [List.not_mem_nil, NackTruth.Wanted, false_iff, not_and]
  intro h1 h2
  omega

theorem start_tracks (threshold : Int) : NackTracks threshold (Nack.create threshold) .start := by
  constructor
  case started | decoded | threshold_eq => rfl
  case last => exact fun hno => absurd hno Bool.false_ne_true
  case size => exact ⟨rfl, show 0 < 500 ∧ 500 ≤ 500 by decide⟩
  case first_le => exact Int.le_refl 0
  case fresh => exact fun _ => rfl
  case received_le => exact fun _ hno => False.elim hno
  case received_newest => exact fun hno => absurd hno Bool.false_ne_true
  case dropped_lt => exact limit_dropped_lt fun _ hno => False.elim hno
  case far => exact fun n h1 h2 => Or.inr ⟨h1, h2⟩
  case listed => exact listed_nil rfl

/-- **The limit** takes off the numbers that are too far behind, where all numbers are near. -/
theorem limit_filter {L : List Int} (hL : L.Pairwise (· < ·)) {q : Int}
    (hq : s.sequenceNumLastReceivedRtp - UInt16.ofNat s.maxNackListSize - 1 = wrap16 q)
    (hkeys : s.nackList.map Prod.fst = L.map wrap16) (hnear : ∀ n ∈ L, -32768 < n - q ∧ n - q < 32768) :
    (s.limitNackListSize tree).nackList = s.nackList.filter fun e => nackListCompare (wrap16 q) e.1 := by
  have hpred : ∀ n ∈ L, (!nackListCompare (wrap16 q) (wrap16 n)) = decide (n < q + 1) := by
    intro n hn
    have hcomp : nackListCompare (wrap16 q) (wrap16 n) = decide (q < n) := isNewer_wrap16 (hnear n hn).1 (hnear n hn).2
    rw [hcomp, ← decide_not, decide_eq_decide]
    omega
  have hpart := partitioned_keys (P := fun k => !nackListCompare (wrap16 q) k) hL hpred hkeys
  show s.nackList.drop (Nack.upperBound tree
    (s.sequenceNumLastReceivedRtp - UInt16.ofNat s.maxNackListSize - 1) s.nackList) = _
  rw [hq, Nack.upperBound, tree.drop_find hpart]
  simp only [Bool.not_not]

theorem limit_number {N : Int} {m : Nat} (hm : m ≤ 500) : wrap16 N - UInt16.ofNat m - 1 = wrap16 (N - m - 1) := by
  apply UInt16.toNat_inj.1
  have hone : (1 : UInt16).toNat = 1 := rfl
  rw [UInt16.toNat_sub, UInt16.toNat_sub, wrap16_toNat, wrap16_toNat, UInt16.toNat_ofNat', hone]
  omega

/-- **Another maximum.** -/
theorem tracks_setMax (h : NackTracks threshold s t) {m : Nat} (h0 : 0 < m) (h1 : m ≤ 500) :
    ∃ s', s.setMaxNackListSize tree m = some s' ∧ NackTracks threshold s' (t.setMax m) := by
  obtain ⟨L, f, hlist, hL, hwanted, hmissing⟩ := h.listed
  obtain ⟨hsize, hpos, hmax⟩ := h.size
  refine ⟨_, if_pos ⟨h0, h1⟩, ?_⟩
  have hfilter : Listed (Nack.limitNackListSize tree { s with maxNackListSize := m }).nackList
      (t.setMax m) threshold := by
    cases hstarted : t.started with
    | false =>
      have hnil : L = [] := by
        rw [List.eq_nil_iff_forall_not_mem]
        intro n hn
        have hw := (hwanted n).1 hn
        have hsame := h.fresh hstarted
        unfold NackTruth.Wanted at hw
        omega
      have hempty : s.nackList = [] := by rw [hlist, hnil]; rfl
      have hresult : (Nack.limitNackListSize tree { s with maxNackListSize := m }).nackList = [] := by
        show s.nackList.drop _ = []
        rw [hempty, List.drop_nil]
      rw [hresult]
      exact listed_nil (h.fresh hstarted)
    | true =>
      have hnear : ∀ n ∈ L, -32768 < n - (t.newest - m - 1) ∧ n - (t.newest - m - 1) < 32768 := by
        intro n hn
        have hw := wanted_near h ((hwanted n).1 hn)
        omega
      have hcomp : ∀ n ∈ L, nackListCompare (wrap16 (t.newest - m - 1)) (wrap16 n) = decide (t.newest - m - 1 < n) :=
        fun n hn => isNewer_wrap16 (hnear n hn).1 (hnear n hn).2
      refine ⟨L.filter fun n => decide (t.newest - m - 1 < n), f, ?_, hL.filter _, ?_, ?_⟩
      · rw [limit_filter (s := { s with maxNackListSize := m }) hL ?_ ?_ hnear]
        · show s.nackList.filter _ = _
          rw [hlist, entries_filter hcomp]
        · show s.sequenceNumLastReceivedRtp - UInt16.ofNat m - 1 = _
          rw [h.last hstarted, limit_number h1]
        · show s.nackList.map Prod.fst = _
          rw [hlist, entries_keys]
      · intro n
        rw [List.mem_filter, hwanted, decide_eq_true_eq]
        unfold NackTruth.Wanted NackTruth.setMax NackTruth.limit
        dsimp only
        constructor
        · rintro ⟨⟨ha, hb, hc, hd⟩, hq⟩
          refine ⟨ha, hb, hc, ?_⟩
          rintro (hd' | ⟨-, hd'⟩)
          · exact hd hd'
          · omega
        · rintro ⟨ha, hb, hc, hd⟩
          refine ⟨⟨ha, hb, hc, fun hd' => hd (Or.inl hd')⟩, ?_⟩
          by_contra hq
          exact hd (Or.inr ⟨hb, by omega⟩)
      · intro n hn
        exact hmissing n (List.mem_filter.1 hn).1
  exact ⟨h.started, h.decoded, h.threshold_eq, h.last, ⟨rfl, h0, h1⟩, h.first_le, h.fresh,
    h.received_le, h.received_newest,
    limit_dropped_lt h.dropped_lt, fun n h1 h2 => Or.inr ⟨h1, h2⟩, hfilter⟩

/-- The first packet. -/
theorem tracks_first (h : NackTracks threshold s t) (hstarted : t.started = false)
    (sequenceNumber : UInt16) (timestamp : UInt32) :
    ∃ s', s.updateLastReceivedPacket tree sequenceNumber timestamp = some s' ∧
        NackTracks threshold s' (t.receive sequenceNumber) := by
  obtain ⟨L, f, hlist, hL, hwanted, -⟩ := h.listed
  have hnil : s.nackList = [] := by
    have hempty : L = [] := by
      rw [List.eq_nil_iff_forall_not_mem]
      intro n hn
      have hw := (hwanted n).1 hn
      have hsame := h.fresh hstarted
      unfold NackTruth.Wanted at hw
      omega
    rw [hlist, hempty]
    rfl
  have hany : s.anyRtpReceived = false := h.started.trans hstarted
  unfold Nack.updateLastReceivedPacket NackTruth.receive
  rw [if_pos hany, if_pos hstarted]
  dsimp only
  rw [if_neg (by simp [h.decoded])]
  refine ⟨_, rfl, ?_⟩
  constructor
  case started => rfl
  case decoded => exact h.decoded
  case threshold_eq => exact h.threshold_eq
  case last => exact fun _ => (wrap16_of sequenceNumber).symm
  case size => exact h.size
  case first_le => exact Int.le_refl _
  case fresh => exact fun _ => rfl
  case received_le => exact fun n hn => Int.le_of_eq hn
  case received_newest => exact fun _ => rfl
  case dropped_lt => exact limit_dropped_lt fun _ hno => False.elim hno
  case far => exact fun n h1 h2 => Or.inr ⟨h1, h2⟩
  case listed =>
    show Listed s.nackList _ _
    rw [hnil]
    exact listed_nil rfl

/-- **A number behind the newest** is taken off the list. -/
theorem tracks_behind (h : NackTracks threshold s t) (hstarted : t.started = true)
    {sequenceNumber : UInt16} (timestamp : UInt32)
    (hbehind : isNewerSequenceNumber sequenceNumber (wrap16 t.newest) = false) :
    ∃ s', s.updateLastReceivedPacket tree sequenceNumber timestamp = some s' ∧
        NackTracks threshold s' (t.receive sequenceNumber) := by
  obtain ⟨L, f, hlist, hL, hwanted, hmissing⟩ := h.listed
  have hlast := h.last hstarted
  have hany : ¬ s.anyRtpReceived = false := by simp [h.started, hstarted]
  have hposition : t.position sequenceNumber = t.newest - (wrap16 t.newest - sequenceNumber).toNat :=
    if_neg (by simp [hbehind])
  have hle : t.position sequenceNumber ≤ t.newest := by omega
  have hmax : max t.newest (t.position sequenceNumber) = t.newest := Int.max_eq_left hle
  -- The list without the number is what is wanted then.
  have hkept : Listed (entries (L.filter fun n => decide (n ≠ t.position sequenceNumber)) f)
      (t.receive sequenceNumber) threshold := by
    refine ⟨_, f, rfl, hL.filter _, ?_, ?_⟩
    · intro n
      rw [List.mem_filter, hwanted, decide_eq_true_eq]
      unfold NackTruth.receive NackTruth.Wanted NackTruth.limit
      rw [if_neg (by simp [hstarted])]
      dsimp only
      rw [hmax]
      constructor
      · rintro ⟨⟨ha, hb, hc, hd⟩, hne⟩
        refine ⟨ha, hb, ?_, ?_⟩
        · rintro (hc' | hc')
          · exact hc hc'
          · exact hne hc'
        · rintro (hd' | ⟨-, hd'⟩)
          · exact hd hd'
          · exact hd (h.far n hb hd')
      · rintro ⟨ha, hb, hc, hd⟩
        exact ⟨⟨ha, hb, fun hc' => hc (Or.inl hc'), fun hd' => hd (Or.inl hd')⟩, fun heq => hc (Or.inr heq)⟩
    · intro n hn
      have hsame : (t.receive sequenceNumber).newest = t.newest := by
        unfold NackTruth.receive NackTruth.limit
        rw [if_neg (by simp [hstarted])]
        exact hmax
      rw [hsame]
      exact hmissing n (List.mem_filter.1 hn).1
  have htracks : ∀ s' : Nack, s'.anyRtpReceived = s.anyRtpReceived → s'.anyRtpDecoded = s.anyRtpDecoded →
      s'.nackThresholdPackets = s.nackThresholdPackets → s'.sequenceNumLastReceivedRtp = s.sequenceNumLastReceivedRtp →
      s'.maxNackListSize = s.maxNackListSize → Listed s'.nackList (t.receive sequenceNumber) threshold →
      NackTracks threshold s' (t.receive sequenceNumber) := by
    intro s' h1 h2 h3 h4 h5 hlisted
    have hreceive : t.receive sequenceNumber = NackTruth.limit { t with
        newest := t.newest, received := fun n => t.received n ∨ n = t.position sequenceNumber } := by
      unfold NackTruth.receive
      rw [if_neg (by simp [hstarted]), hmax]
    rw [hreceive] at hlisted ⊢
    constructor
    case started => exact h1.trans h.started
    case decoded => exact h2.trans h.decoded
    case threshold_eq => exact h3.trans h.threshold_eq
    case last => exact fun _ => h4.trans hlast
    case size =>
      rw [h5]
      exact h.size
    case first_le => exact h.first_le
    case fresh => exact h.fresh
    case received_le =>
      rintro n (hn | hn)
      · exact h.received_le n hn
      · exact hn ▸ hle
    case received_newest => exact fun _ => Or.inl (h.received_newest hstarted)
    case dropped_lt => exact limit_dropped_lt h.dropped_lt
    case far => exact fun n h1 h2 => Or.inr ⟨h1, h2⟩
    case listed => exact hlisted
  unfold Nack.updateLastReceivedPacket
  rw [if_neg hany]
  by_cases hsame : sequenceNumber = s.sequenceNumLastReceivedRtp
  · rw [if_pos hsame]
    refine ⟨s, rfl, htracks s rfl rfl rfl rfl rfl ?_⟩
    have hnewest : t.position sequenceNumber = t.newest := by
      rw [hposition, hsame, hlast, UInt16.sub_self]
      simp
    have hall : L.filter (fun n => decide (n ≠ t.position sequenceNumber)) = L := by
      rw [List.filter_eq_self]
      intro n hn
      have hlt := (wanted_near h ((hwanted n).1 hn)).1
      rw [hnewest]
      simpa using Int.ne_of_lt hlt
    rw [hall] at hkept
    rw [hlist]
    exact hkept
  · have holder : isNewerSequenceNumber (wrap16 t.newest) sequenceNumber = true := by
      by_contra hnot
      rw [Bool.not_eq_true] at hnot
      exact hsame ((eq_of_not_newer hbehind hnot).trans hlast.symm)
    have hdistance := (isNewerSequenceNumber_iff _ _).1 holder
    have hnumber : sequenceNumber = wrap16 (t.position sequenceNumber) := by
      have hlt := sequenceNumber.toNat_lt
      rw [hposition]
      apply UInt16.toNat_inj.1
      rw [UInt16.toNat_sub, wrap16_toNat, wrap16_toNat]
      omega
    have hnear : ∀ n ∈ L, -32768 < t.position sequenceNumber - n ∧ t.position sequenceNumber - n < 32768 := by
      intro n hn
      have hw := wanted_near h ((hwanted n).1 hn)
      have hsize := h.size
      omega
    have herase : Nack.erase tree sequenceNumber s.nackList =
        entries (L.filter fun n => decide (n ≠ t.position sequenceNumber)) f := by
      rw [hlist, ← erase_entries tree hL hnear, ← hnumber]
    have hreturn : isNewerSequenceNumber s.sequenceNumLastReceivedRtp sequenceNumber = true := by rw [hlast, holder]
    rw [if_neg hsame]
    dsimp only
    rw [if_pos hreturn, herase]
    exact ⟨_, rfl, htracks _ rfl rfl rfl rfl rfl hkept⟩

/-! ### A number ahead of the newest -/

/-- The entries behind a position are left alone, those before it are marked: the keys stay. -/
theorem changeFromLateToMissing_keys (sequenceNumber : UInt16) :
    (s.changeFromLateToMissing tree sequenceNumber).nackList.map Prod.fst = s.nackList.map Prod.fst := by
  unfold Nack.changeFromLateToMissing
  dsimp only
  rw [List.map_append, List.map_map]
  show (s.nackList.take _).map Prod.fst ++ (s.nackList.drop _).map Prod.fst = _
  rw [← List.map_append, List.take_append_drop]

/-- Where all numbers are near, those before the threshold are marked. -/
theorem changeFromLateToMissing_near {L : List Int} {f : Int → NackElement} (hlist : s.nackList = entries L f)
    (hL : L.Pairwise (· < ·)) {sequenceNumber : UInt16} {q : Int}
    (hq : Nack.before sequenceNumber s.nackThresholdPackets = wrap16 q)
    (hnear : ∀ n ∈ L, -32768 < q - n ∧ q - n < 32768) :
    (s.changeFromLateToMissing tree sequenceNumber).nackList =
      entries L fun n => if n < q then { f n with isMissing := true } else f n := by
  have hcomp : ∀ n ∈ L, nackListCompare (wrap16 n) (wrap16 q) = decide (n < q) :=
    fun n hn => isNewer_wrap16 (hnear n hn).1 (hnear n hn).2
  have hpart : Partitioned (fun e => nackListCompare e.1 (wrap16 q)) (entries L f) :=
    partitioned_keys (P := fun k => nackListCompare k (wrap16 q)) hL hcomp (entries_keys L f)
  have hbefore := entries_filter (f := f) (P := fun k => nackListCompare k (wrap16 q)) hcomp
  have hbehind := entries_filter (L := L) (f := f) (P := fun k => !nackListCompare k (wrap16 q))
      (p := fun n => !decide (n < q))
    fun n hn => by rw [hcomp n hn]
  unfold Nack.changeFromLateToMissing
  dsimp only
  rw [hq, hlist, Nack.lowerBound, tree.take_find hpart, tree.drop_find hpart, hbefore, hbehind]
  -- The two halves are those of the numbers.
  have hmarked : (entries (L.filter fun n => decide (n < q)) f).map (fun e => (e.1, { e.2 with isMissing := true })) =
      entries (L.filter fun n => decide (n < q)) fun n => if n < q then { f n with isMissing := true } else f n := by
    rw [entries, List.map_map, entries]
    apply List.map_congr_left
    intro n hn
    have hlt : n < q := by simpa using (List.mem_filter.1 hn).2
    simp only [Function.comp, if_pos hlt]
  have hleft : entries (L.filter fun n => !decide (n < q)) f =
      entries (L.filter fun n => !decide (n < q)) fun n => if n < q then { f n with isMissing := true } else f n := by
    apply List.map_congr_left
    intro n hn
    have hge : ¬ n < q := by simpa using (List.mem_filter.1 hn).2
    simp only [if_neg hge]
  have hsplit := sorted_split hL q
  rw [hmarked, hleft, entries, entries, ← List.map_append, hsplit]
  rfl

/-- What `UpdateList` makes of the list. -/
theorem updateList_eq {L : List Int} (hkeys : s.nackList.map Prod.fst = L.map wrap16)
    (hdecoded : s.anyRtpDecoded = false)
    {N p : Int} (hlast : s.sequenceNumLastReceivedRtp = wrap16 N) (hnear : ∀ n ∈ L, n < N ∧ N - n ≤ 500) (h1 : N < p)
    (h2 : p - N ≤ 32768) :
    s.updateList tree (wrap16 p) = some { s.changeFromLateToMissing tree (wrap16 p) with
      nackList := (s.changeFromLateToMissing tree (wrap16 p)).nackList ++
        entries (up (N + 1) (p - N - 1).toNat) fun m =>
          newElement (s.changeFromLateToMissing tree (wrap16 p)) (wrap16 p) (wrap16 m) } := by
  have hkeys' := (@changeFromLateToMissing_keys tree s (wrap16 p)).trans hkeys
  have hnext : (s.changeFromLateToMissing tree (wrap16 p)).sequenceNumLastReceivedRtp + 1 = wrap16 (N + 1) := by
    show s.sequenceNumLastReceivedRtp + 1 = _
    rw [hlast]
    exact wrap16_add N 1
  have hdecoded' : (s.changeFromLateToMissing tree (wrap16 p)).anyRtpDecoded = false := hdecoded
  unfold Nack.updateList
  dsimp only
  generalize s.changeFromLateToMissing tree (wrap16 p) = c at hkeys' hnext hdecoded'
  rw [hnext, isNewer_wrap16 (by omega) (by omega)]
  by_cases hgap : N + 1 < p
  · have holder : ∀ last, c.nackList.getLast? = some last → nackListCompare last.1 (wrap16 (N + 1)) = true := by
      intro last hlast
      have hmem : last.1 ∈ L.map wrap16 := by
        rw [← hkeys']
        exact List.mem_map_of_mem (List.mem_of_getLast? hlast)
      obtain ⟨n, hn, heq⟩ := List.mem_map.1 hmem
      have hw := hnear n hn
      show isNewerSequenceNumber (wrap16 (N + 1)) last.1 = true
      rw [← heq, isNewer_wrap16 (by omega) (by omega), decide_eq_true_eq]
      omega
    have hadd : c.addFrom tree (wrap16 p) 65536 (wrap16 (N + 1)) c.nackList = some (c.nackList ++
        entries (up (N + 1) (p - N - 1).toNat) fun m => newElement c (wrap16 p) (wrap16 m)) :=
      addFrom_eq tree c (p - N - 1).toNat (by omega) (by omega) (by omega) c.nackList holder
    rw [if_pos (by simpa using hgap), Nack.addToList, hdecoded', Bool.false_and, if_neg Bool.false_ne_true, hnext, hadd]
    rfl
  · have hone : (p - N - 1).toNat = 0 := by omega
    rw [if_neg (by simpa using hgap), hone, up, entries, List.map_nil, List.append_nil]

theorem position_ahead {sequenceNumber : UInt16}
    (hahead : isNewerSequenceNumber sequenceNumber (wrap16 t.newest) = true) :
    t.newest < t.position sequenceNumber ∧ t.position sequenceNumber - t.newest ≤ 32768 ∧
      sequenceNumber = wrap16 (t.position sequenceNumber) := by
  have hdistance := (isNewerSequenceNumber_iff _ _).1 hahead
  have hposition : t.position sequenceNumber = t.newest + (sequenceNumber - wrap16 t.newest).toNat := if_pos hahead
  refine ⟨by omega, by omega, ?_⟩
  have hlt := sequenceNumber.toNat_lt
  rw [hposition]
  apply UInt16.toNat_inj.1
  rw [UInt16.toNat_sub, wrap16_toNat, wrap16_toNat]
  omega

/-- The truth when `p` is the newest number. -/
def NackTruth.advance (t : NackTruth) (p : Int) : NackTruth :=
  NackTruth.limit { t with newest := p, received := fun n => t.received n ∨ n = p }

theorem receive_ahead (hstarted : t.started = true) {sequenceNumber : UInt16}
    (hlt : t.newest < t.position sequenceNumber) :
      t.receive sequenceNumber = t.advance (t.position sequenceNumber) := by
  unfold NackTruth.receive NackTruth.advance
  rw [if_neg (by simp [hstarted]), Int.max_eq_right (Int.le_of_lt hlt)]

/-- What is wanted then: of the old numbers and of those in between, what is not too far behind. -/
theorem wanted_ahead (h : NackTracks threshold s t) (hstarted : t.started = true) {p : Int} (hgap : t.newest < p)
    (n : Int) : (t.Wanted n ∨ t.newest < n ∧ n < p) ∧ p - t.max - 1 < n ↔ (t.advance p).Wanted n := by
  unfold NackTruth.advance NackTruth.Wanted NackTruth.limit
  dsimp only
  constructor
  · rintro ⟨⟨ha, hb, hc, hd⟩ | ⟨ha, hb⟩, hq⟩
    · refine ⟨ha, by omega, ?_, ?_⟩
      · rintro (hc' | hc')
        · exact hc hc'
        · omega
      · rintro (hd' | ⟨-, hd'⟩)
        · exact hd hd'
        · omega
    · have hfirst := h.first_le
      refine ⟨by omega, by omega, ?_, ?_⟩
      · rintro (hc' | hc')
        · have hle := h.received_le n hc'
          omega
        · omega
      · rintro (hd' | ⟨-, hd'⟩)
        · have hlt := h.dropped_lt n hd'
          omega
        · omega
  · rintro ⟨ha, hb, hc, hd⟩
    have hq : ¬ (t.max : Int) < p - n := fun hfar => hd (Or.inr ⟨hb, hfar⟩)
    refine ⟨?_, by omega⟩
    rcases Int.lt_trichotomy n t.newest with hlt | heq | hgt
    · exact Or.inl ⟨ha, hlt, fun hc' => hc (Or.inl hc'), fun hd' => hd (Or.inl hd')⟩
    · exact absurd (Or.inl (heq ▸ h.received_newest hstarted)) hc
    · exact Or.inr ⟨hgt, hb⟩

section Window
variable {L : List Int} {f : Int → NackElement} {N p : Int} {m : Nat}

/-- Behind the old numbers those in between are in order. -/
theorem sorted_ahead (hL : L.Pairwise (· < ·)) (hwindow : ∀ n ∈ L, n < N ∧ N - n ≤ m) :
    (L ++ up (N + 1) (p - N - 1).toNat).Pairwise (· < ·) := by
  rw [List.pairwise_append]
  refine ⟨hL, up_sorted _ _, ?_⟩
  intro a ha b hb
  have hw := hwindow a ha
  have hb' := mem_up.1 hb
  omega

/-- All of the numbers are near the limit. -/
theorem near_ahead (hwindow : ∀ n ∈ L, n < N ∧ N - n ≤ m) (hm : m ≤ 500) (h1 : N < p) (h2 : p - N ≤ 32768) :
    ∀ n ∈ L ++ up (N + 1) (p - N - 1).toNat, -32768 < n - (p - m - 1) ∧ n - (p - m - 1) < 32768 := by
  intro n hn
  rcases List.mem_append.1 hn with hn | hn
  · have hw := hwindow n hn
    omega
  · have hn' := mem_up.1 hn
    omega

/-- Of the old numbers those are kept that are near, and they are marked as they should be. -/
theorem marked_kept (hlist : s.nackList = entries L f) (hL : L.Pairwise (· < ·))
    (hwindow : ∀ n ∈ L, n < N ∧ N - n ≤ m) (hm : m ≤ 500)
    (hmissing : ∀ n ∈ L, (f n).isMissing = decide (n < N - threshold)) (hthreshold : 0 ≤ threshold ∧ threshold < 32768)
    (h1 : N < p) (h2 : p - N ≤ 32768)
    (hbefore : Nack.before (wrap16 p) s.nackThresholdPackets = wrap16 (p - threshold)) :
    ∃ marked, (s.changeFromLateToMissing tree (wrap16 p)).nackList.filter
        (fun e => nackListCompare (wrap16 (p - m - 1)) e.1) =
          entries (L.filter fun n => decide (p - m - 1 < n)) marked ∧
      ∀ n ∈ L.filter fun n => decide (p - m - 1 < n), (marked n).isMissing = decide (n < p - threshold) := by
  have hcomp : ∀ n ∈ L, nackListCompare (wrap16 (p - m - 1)) (wrap16 n) = decide (p - m - 1 < n) := by
    intro n hn
    have hnear := near_ahead hwindow hm h1 h2 n (List.mem_append_left _ hn)
    exact isNewer_wrap16 hnear.1 hnear.2
  by_cases hsmall : p - N ≤ 500
  · have hnear : ∀ n ∈ L, -32768 < p - threshold - n ∧ p - threshold - n < 32768 := by
      intro n hn
      have hw := hwindow n hn
      omega
    refine ⟨fun n => if n < p - threshold then { f n with isMissing := true } else f n, ?_, ?_⟩
    · rw [changeFromLateToMissing_near hlist hL hbefore hnear]
      exact entries_filter hcomp
    · intro n hn
      have hnL := (List.mem_filter.1 hn).1
      dsimp only
      split
      · rename_i hlt
        simpa using hlt
      · rename_i hge
        rw [hmissing n hnL]
        have hge' : ¬ n < N - threshold := by omega
        simp only [hge, hge']
  · -- Behind a wide gap none of them is near.
    have hnone : ∀ n ∈ L, ¬ p - m - 1 < n := by
      intro n hn
      have hw := hwindow n hn
      omega
    have hempty : L.filter (fun n => decide (p - m - 1 < n)) = [] := by
      rw [List.filter_eq_nil_iff]
      intro n hn
      simpa using hnone n hn
    refine ⟨f, ?_, by rw [hempty]; exact List.forall_mem_nil _⟩
    rw [hempty]
    show _ = []
    rw [List.filter_eq_nil_iff]
    intro e he
    have hkey : e.1 ∈ L.map wrap16 := by
      rw [← entries_keys L f, ← hlist, ← @changeFromLateToMissing_keys tree s (wrap16 p)]
      exact List.mem_map_of_mem he
    obtain ⟨n, hn, heq⟩ := List.mem_map.1 hkey
    rw [← heq, hcomp n hn]
    simpa using hnone n hn

end Window

/-- The list when `p` is the newest: the old entries that are near, and those in between. -/
theorem listed_ahead (h : NackTracks threshold s t) (hthreshold : 0 ≤ threshold ∧ threshold < 32768)
    (hstarted : t.started = true) {p : Int} (h1 : t.newest < p) (h2 : p - t.newest ≤ 32768) {L : List Int}
    (hL : L.Pairwise (· < ·)) (hwanted : ∀ n, n ∈ L ↔ t.Wanted n) {marked added : Int → NackElement}
    (hmarked : ∀ n ∈ L.filter fun n => decide (p - t.max - 1 < n), (marked n).isMissing = decide (n < p - threshold))
    (hadded : ∀ n, (added n).isMissing = isNewerSequenceNumber (wrap16 (p - threshold)) (wrap16 n)) :
    Listed (entries (L.filter fun n => decide (p - t.max - 1 < n)) marked ++
      entries ((up (t.newest + 1) (p - t.newest - 1).toNat).filter fun n => decide (p - t.max - 1 < n)) added)
      (t.advance p) threshold := by
  have hmax := h.size.2.2
  have hwindow : ∀ n ∈ L, n < t.newest ∧ t.newest - n ≤ t.max := fun n hn => wanted_near h ((hwanted n).1 hn)
  refine ⟨L.filter (fun n => decide (p - t.max - 1 < n)) ++
    (up (t.newest + 1) (p - t.newest - 1).toNat).filter fun n => decide (p - t.max - 1 < n),
    fun n => if n < t.newest then marked n else added n, ?_, ?_, ?_, ?_⟩
  · rw [entries, entries, entries, List.map_append]
    congr 1
    · apply List.map_congr_left
      intro n hn
      have hw := hwindow n (List.mem_filter.1 hn).1
      simp only [if_pos hw.1]
    · apply List.map_congr_left
      intro n hn
      have hn' := mem_up.1 (List.mem_filter.1 hn).1
      have hge : ¬ n < t.newest := by omega
      simp only [if_neg hge]
  · rw [← List.filter_append]
    exact (sorted_ahead hL hwindow).filter _
  · intro n
    have hup : n ∈ up (t.newest + 1) (p - t.newest - 1).toNat ↔ t.newest < n ∧ n < p := by
      rw [mem_up]
      omega
    rw [← List.filter_append, List.mem_filter, List.mem_append, hwanted, hup, decide_eq_true_eq]
    exact wanted_ahead h hstarted h1 n
  · intro n hn
    dsimp only
    rcases List.mem_append.1 hn with hn | hn
    · have hw := hwindow n (List.mem_filter.1 hn).1
      rw [if_pos hw.1]
      exact hmarked n hn
    · obtain ⟨hnUp, hnNear⟩ := List.mem_filter.1 hn
      have hn' := mem_up.1 hnUp
      have hnear : p - t.max - 1 < n := by simpa using hnNear
      rw [if_neg (by omega), hadded, isNewer_wrap16 (by omega) (by omega)]
      rfl

/-- What `UpdateLastReceivedPacket` does with a number ahead. -/
theorem updateLastReceivedPacket_ahead (h : NackTracks threshold s t) (hstarted : t.started = true) {p : Int}
    (timestamp : UInt32) (hahead : isNewerSequenceNumber (wrap16 p) (wrap16 t.newest) = true)
    (h1 : t.newest < p) (h2 : p - t.newest ≤ 32768) :
    ∃ s1 : Nack, s1.nackList = s.nackList ∧ s1.anyRtpReceived = true ∧ s1.anyRtpDecoded = false ∧
      s1.nackThresholdPackets = threshold ∧ s1.maxNackListSize = t.max ∧
      s.updateLastReceivedPacket tree (wrap16 p) timestamp =
        some (Nack.limitNackListSize tree { s1.changeFromLateToMissing tree (wrap16 p) with
          nackList := (s1.changeFromLateToMissing tree (wrap16 p)).nackList ++
            entries (up (t.newest + 1) (p - t.newest - 1).toNat) fun n =>
              newElement (s1.changeFromLateToMissing tree (wrap16 p)) (wrap16 p) (wrap16 n)
          sequenceNumLastReceivedRtp := wrap16 p
          timestampLastReceivedRtp := timestamp }) := by
  obtain ⟨L, f, hlist, hL, hwanted, -⟩ := h.listed
  obtain ⟨hsize, -, hmax⟩ := h.size
  have hlast := h.last hstarted
  have hwindow : ∀ n ∈ L, n < t.newest ∧ t.newest - n ≤ t.max := fun n hn => wanted_near h ((hwanted n).1 hn)
  have hnew : ¬ wrap16 p = s.sequenceNumLastReceivedRtp := by
    rw [hlast, wrap16_inj (by omega) (by omega)]
    omega
  have hnotOlder : isNewerSequenceNumber s.sequenceNumLastReceivedRtp (wrap16 p) = false := by
    rw [hlast]
    exact not_newer_both hahead
  have habsent : Nack.erase tree (wrap16 p) s.nackList = s.nackList := by
    apply erase_absent
    rw [hlist]
    intro e he heq
    obtain ⟨n, hn, rfl⟩ := List.mem_map.1 he
    have hw := hwindow n hn
    have hsame : wrap16 n = wrap16 p := heq
    rw [wrap16_inj (by omega) (by omega)] at hsame
    omega
  obtain ⟨s1, hs1⟩ : ∃ s1 : Nack, s1 = Nack.updateSamplesPerPacket
      { s with nackList := Nack.erase tree (wrap16 p) s.nackList } (wrap16 p) timestamp := ⟨_, rfl⟩
  have hlist1 : s1.nackList = s.nackList := by rw [hs1]; exact habsent
  have hupdate := @updateList_eq tree s1 L (by rw [hlist1, hlist, entries_keys]) (by rw [hs1]; exact h.decoded)
    t.newest p (by rw [hs1]; exact hlast) (fun n hn => ⟨(hwindow n hn).1, by have hw := hwindow n hn; omega⟩) h1 h2
  refine ⟨s1, hlist1, by rw [hs1]; exact h.started.trans hstarted, by rw [hs1]; exact h.decoded,
    by rw [hs1]; exact h.threshold_eq, by rw [hs1]; exact hsize, ?_⟩
  unfold Nack.updateLastReceivedPacket
  rw [if_neg (by simp [h.started, hstarted]), if_neg hnew]
  dsimp only
  rw [if_neg (by simp [hnotOlder]), ← hs1, hupdate, Option.map_some]

/-- **A number ahead of the newest**: the numbers in between are added, and those too far behind go. -/
theorem tracks_ahead (h : NackTracks threshold s t) (hthreshold : 0 ≤ threshold ∧ threshold < 32768)
    (hstarted : t.started = true)
    {sequenceNumber : UInt16} (timestamp : UInt32)
    (hahead : isNewerSequenceNumber sequenceNumber (wrap16 t.newest) = true) :
    ∃ s', s.updateLastReceivedPacket tree sequenceNumber timestamp = some s' ∧
        NackTracks threshold s' (t.receive sequenceNumber) := by
  obtain ⟨L, f, hlist, hL, hwanted, hmissing⟩ := h.listed
  obtain ⟨-, hmax0, hmax1⟩ := h.size
  have hwindow : ∀ n ∈ L, n < t.newest ∧ t.newest - n ≤ t.max := fun n hn => wanted_near h ((hwanted n).1 hn)
  obtain ⟨hgap0, hgap1, hnumber⟩ := position_ahead hahead
  rw [receive_ahead hstarted hgap0]
  generalize t.position sequenceNumber = p at hgap0 hgap1 hnumber
  subst hnumber
  obtain ⟨s1, hlist1, hstarted1, hdecoded1, hthreshold1, hsize1, hresult⟩ :=
    @updateLastReceivedPacket_ahead tree threshold s t h hstarted p timestamp hahead hgap0 hgap1
  rw [hlist] at hlist1
  have hbefore : Nack.before (wrap16 p) s1.nackThresholdPackets = wrap16 (p - threshold) := by
    rw [hthreshold1, Nack.before]
    apply UInt16.toNat_inj.1
    rw [wrap16_sub, wrap16_toNat]
  have hnear := near_ahead hwindow hmax1 hgap0 hgap1
  -- The limit takes off the same numbers of the old entries and of the new ones.
  obtain ⟨marked, hmarked, hmarkedMissing⟩ :=
    @marked_kept tree threshold s1 L f t.newest p t.max hlist1 hL hwindow hmax1 hmissing hthreshold hgap0 hgap1 hbefore
  have hkeys : (s1.changeFromLateToMissing tree (wrap16 p)).nackList.map Prod.fst = L.map wrap16 := by
    rw [changeFromLateToMissing_keys, hlist1, entries_keys]
  obtain ⟨added, hadded⟩ : ∃ added : Int → NackElement, added = fun n =>
      newElement (s1.changeFromLateToMissing tree (wrap16 p)) (wrap16 p) (wrap16 n) := ⟨_, rfl⟩
  have haddedMissing : ∀ n, (added n).isMissing = isNewerSequenceNumber (wrap16 (p - threshold)) (wrap16 n) := by
    intro n
    rw [hadded, ← hbefore]
    rfl
  rw [← hadded] at hresult
  refine ⟨_, hresult, ?_⟩
  constructor
  case started => exact hstarted1.trans hstarted.symm
  case decoded => exact hdecoded1
  case threshold_eq => exact hthreshold1
  case last => exact fun _ => rfl
  case size => exact ⟨hsize1, hmax0, hmax1⟩
  case first_le => exact Int.le_trans h.first_le (Int.le_of_lt hgap0)
  case fresh => exact fun hno => absurd hstarted (by simp [show t.started = false from hno])
  case received_le =>
    rintro n (hn | hn)
    · exact Int.le_trans (h.received_le n hn) (Int.le_of_lt hgap0)
    · exact Int.le_of_eq hn
  case received_newest => exact fun _ => Or.inr rfl
  case dropped_lt => exact limit_dropped_lt fun n hn => Int.lt_trans (h.dropped_lt n hn) hgap0
  case far => exact fun n h1 h2 => Or.inr ⟨h1, h2⟩
  case listed =>
    have hnew := entries_filter (f := added) (P := fun k => nackListCompare (wrap16 (p - t.max - 1)) k)
      fun n hn => isNewer_wrap16 (hnear n (List.mem_append_right L hn)).1 (hnear n (List.mem_append_right L hn)).2
    rw [limit_filter (sorted_ahead hL hwindow) ?_ ?_ hnear]
    · rw [List.filter_append, hmarked, hnew]
      exact listed_ahead h hthreshold hstarted hgap0 hgap1 hL hwanted hmarkedMissing haddedMissing
    · show wrap16 p - UInt16.ofNat s1.maxNackListSize - 1 = _
      rw [hsize1, limit_number hmax1]
    · rw [List.map_append, List.map_append, hkeys, entries_keys]

end Step

/-! ## Runs -/

inductive NackEvent where
  | received (sequenceNumber : UInt16) (timestamp : UInt32)
  | setMaxNackListSize (n : Nat)
deriving DecidableEq, Repr

/-- The sizes that pass the check. -/
def NackEvent.Allowed : NackEvent → Prop
  | .received _ _ => True
  | .setMaxNackListSize n => 0 < n ∧ n ≤ 500

section Runs
variable (tree : Search (UInt16 × NackElement))

def nackStep (p : Option Nack × NackTruth) : NackEvent → (Option Nack × NackTruth) × Unit
  | .received sequenceNumber timestamp =>
    ((p.1.bind fun s => s.updateLastReceivedPacket tree sequenceNumber timestamp, p.2.receive sequenceNumber), ())
  | .setMaxNackListSize n => ((p.1.bind fun s => s.setMaxNackListSize tree n, p.2.setMax n), ())

/-- The list has what is wanted, from the oldest on, and no more than the maximum; missing is what is
more than the threshold behind. -/
def ListExact (threshold : Int) (p : Option Nack × NackTruth) : Prop :=
  ∃ (s : Nack) (L : List Int), p.1 = some s ∧ L.Pairwise (· < ·) ∧ (∀ n, n ∈ L ↔ p.2.Wanted n) ∧
    s.nackList.map (fun e => (e.1, e.2.isMissing)) = L.map (fun n => (wrap16 n, decide (n < p.2.newest - threshold))) ∧
    s.nackList.length ≤ p.2.max

theorem length_le_of_sorted {lo hi : Int} (L : List Int) (hL : L.Pairwise (· < ·)) (h : ∀ n ∈ L, lo ≤ n ∧ n < hi) :
    L.length ≤ (hi - lo).toNat := by
  induction L generalizing lo with
  | nil => exact Nat.zero_le _
  | cons a L ih =>
    obtain ⟨hfirst, hrest⟩ := List.pairwise_cons.1 hL
    have ha := h a List.mem_cons_self
    have hle : L.length ≤ (hi - (a + 1)).toNat :=
      ih hrest fun n hn => ⟨hfirst n hn, (h n (List.mem_cons_of_mem a hn)).2⟩
    rw [List.length_cons]
    omega

theorem NackTracks.exact {threshold : Int} {s : Nack} {t : NackTruth} (h : NackTracks threshold s t) :
    ListExact threshold (some s, t) := by
  obtain ⟨L, f, hlist, hL, hwanted, hmissing⟩ := h.listed
  refine ⟨s, L, rfl, hL, hwanted, ?_, ?_⟩
  · rw [hlist, entries, List.map_map]
    apply List.map_congr_left
    intro n hn
    simp only [Function.comp, hmissing n hn]
  · have hnear : ∀ n ∈ L, t.newest - t.max ≤ n ∧ n < t.newest := by
      intro n hn
      have hw := wanted_near h ((hwanted n).1 hn)
      omega
    have hlength := length_le_of_sorted L hL hnear
    rw [hlist, entries, List.length_map]
    show L.length ≤ t.max
    omega

theorem nackStep_tracks {threshold : Int} (hthreshold : 0 ≤ threshold ∧ threshold < 32768)
    (p : Option Nack × NackTruth) (e : NackEvent)
    (h : ∃ s, p.1 = some s ∧ NackTracks threshold s p.2) (hallowed : e.Allowed) :
    ∃ s, (nackStep tree p e).1.1 = some s ∧ NackTracks threshold s (nackStep tree p e).1.2 := by
  obtain ⟨o, t⟩ := p
  obtain ⟨s, rfl, hs⟩ := h
  cases e with
  | received sequenceNumber timestamp =>
    cases hstarted : t.started with
    | false => exact tracks_first hs hstarted sequenceNumber timestamp
    | true =>
      cases hahead : isNewerSequenceNumber sequenceNumber (wrap16 t.newest) with
      | false => exact tracks_behind hs hstarted timestamp hahead
      | true => exact tracks_ahead hs hthreshold hstarted timestamp hahead
  | setMaxNackListSize n => exact tracks_setMax hs hallowed.1 hallowed.2

/-- **The list is exact** in every run. -/
theorem listed_always {threshold : Int} (hthreshold : 0 ≤ threshold ∧ threshold < 32768) (events : List NackEvent)
    (hallowed : ∀ e ∈ events, e.Allowed) :
    Machine.Always (nackStep tree) (ListExact threshold) (some (Nack.create threshold), .start) events := by
  have htracks := Machine.always_of_meets (P := fun p => ∃ s, p.1 = some s ∧ NackTracks threshold s p.2)
    (fun p e h hin => nackStep_tracks tree hthreshold p e h hin) ⟨_, rfl, start_tracks threshold⟩
    (Machine.meets_of_forall (nackStep tree) hallowed (some (Nack.create threshold), .start))
  refine htracks.mono ?_
  rintro ⟨o, t⟩ ⟨s, rfl, hs⟩
  exact hs.exact

end Runs

/-- A gap, a late packet and a smaller maximum. -/
theorem listed_always_gap : Machine.Always (nackStep (.linear _)) (ListExact 2) (some (Nack.create 2), .start)
    [.received 65534 0, .received 3 4800, .received 0 1920, .setMaxNackListSize 2] :=
  listed_always (.linear _) (by decide) _ (by simp [NackEvent.Allowed])

/-- **What has been dropped stays away**: of 11 to 14 only 14 is on the list when the maximum has been 1. -/
theorem raised_maximum : ¬ ∀ (tree : Search (UInt16 × NackElement)) (events : List NackEvent),
    (∀ e ∈ events, e.Allowed) →
    Machine.Always (nackStep tree) (fun p => ∃ s, p.1 = some s ∧ ∀ n : Int, p.2.first < n →
      n < p.2.newest → ¬ p.2.received n →
      p.2.newest - n ≤ p.2.max → wrap16 n ∈ s.nackList.map Prod.fst) (some (Nack.create 2), .start) events := by
  intro h
  have hrun := h (.linear _) [.setMaxNackListSize 1, .received 10 0, .received 15 4800, .setMaxNackListSize 500]
    (by simp [NackEvent.Allowed])
  have hlast := hrun.2.2.2.2
  generalize hstate : (nackStep (.linear _) (nackStep (.linear _) (nackStep (.linear _) (nackStep (.linear _)
    (some (Nack.create 2), .start) (.setMaxNackListSize 1)).1 (.received 10 0)).1 (.received 15 4800)).1
    (.setMaxNackListSize 500)).1 = state at hlast
  have hkeys : state.1.map (fun s => s.nackList.map Prod.fst) = some [14] := by
    rw [← hstate]
    decide +kernel
  obtain ⟨s, hs, hlist⟩ := hlast
  rw [hs, Option.map_some, Option.some.injEq] at hkeys
  rw [hkeys, ← hstate] at hlist
  have hmem := hlist 12 (by decide) (by decide) (by
    rintro (h10 | h15)
    · exact absurd (show (12 : Int) = 10 from h10) (by decide)
    · exact absurd (show (12 : Int) = 15 from h15) (by decide)) (by decide)
  exact absurd hmem (by decide)

end WebRtc.NetEq
