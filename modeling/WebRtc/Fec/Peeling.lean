import WebRtc.Fec.Renumber
import WebRtc.Fec.RoundTrip
import WebRtc.Lib.Search

/-!
# Recovering as much as there is

`AttemptRecover` starts over after every packet it recovers and drops a FEC packet whenever it has used it
up. `AttemptEnds` is the loop without a bound on its rounds; what holds of a run is shown by induction on
it, and that there is a run, by counting rounds (`attemptEnds`). The entries of the FEC packets tell what is
known: at first the packets of the list, and then also those that have been recovered, even when the list has
dropped some of its oldest (`Peeled`). An entry is found by its number because the numbers a FEC packet
protects are in order (`cover_eq`).
-/

namespace WebRtc.Fec

/-! ## Finding an entry -/

theorem any_takeWhile {α : Type} {p : α → Bool} {l : List α} (h : Partitioned p l) {i : Nat} (hi : i < l.length) :
    l[i]?.any p = decide (i < (l.takeWhile p).length) := by
  induction l generalizing i with
  | nil => cases hi
  | cons a l ih =>
    obtain ⟨hfirst, hrest⟩ := List.pairwise_cons.1 h
    by_cases ha : p a = true
    · rw [List.takeWhile_cons_of_pos ha, List.length_cons]
      cases i with
      | zero => simp [ha]
      | succ i =>
        rw [List.getElem?_cons_succ, ih hrest (Nat.lt_of_succ_lt_succ hi)]
        simp
    · rw [List.takeWhile_cons_of_neg ha]
      cases i with
      | zero => simp [ha]
      | succ i =>
        have hi' : i < l.length := Nat.lt_of_succ_lt_succ hi
        have hnot : ¬ p l[i] = true := fun hp => ha (hfirst _ (List.getElem_mem hi') hp)
        rw [List.getElem?_cons_succ, List.getElem?_eq_getElem hi']
        simpa using hnot

/-- The position is between `first` and `first + len` all along. -/
theorem lowerBoundLoop_eq {α : Type} {less : α → Bool} {l : List α} (h : Partitioned less l)
    (fuel : Nat) {first len : Nat}
    (hlow : first ≤ (l.takeWhile less).length) (hhigh : (l.takeWhile less).length ≤ first + len)
    (hlen : first + len ≤ l.length) (hfuel : len ≤ fuel) :
    lowerBoundLoop less l fuel first len = (l.takeWhile less).length := by
  induction fuel generalizing first len with
  | zero =>
    rw [lowerBoundLoop]
    omega
  | succ fuel ih =>
    rw [lowerBoundLoop]
    by_cases h0 : len = 0
    · rw [if_pos h0]
      omega
    · rw [if_neg h0]
      dsimp only
      rw [any_takeWhile h (show first + len / 2 < l.length by omega)]
      by_cases hless : first + len / 2 < (l.takeWhile less).length
      · rw [decide_eq_true hless, if_pos rfl]
        exact ih (by omega) (by omega) (by omega) (by omega)
      · rw [decide_eq_false hless, if_neg Bool.false_ne_true]
        exact ih hlow (by omega) (by omega) (by omega)

/-- `std::lower_bound` is a search. -/
def bisect (α : Type) : Search α where
  find := lowerBound
  find_partitioned h :=
    lowerBoundLoop_eq h _ (Nat.zero_le _) (by
      rw [Nat.zero_add]
      exact (List.takeWhile_sublist _).length_le) (Nat.le_of_eq (Nat.zero_add _)) (Nat.le_refl _)

/-- How far `b` is ahead; at just half the range the larger number is. -/
theorem lessThan_iff (a b : UInt16) : lessThan a b = true ↔
    0 < (b.toNat - a.toNat : Int) % 65536 ∧ ((b.toNat - a.toNat : Int) % 65536 < 0x8000 ∨
      (b.toNat - a.toNat : Int) % 65536 = 0x8000 ∧ a.toNat < b.toNat) := by
  have ha := a.toNat_lt
  have hb := b.toNat_lt
  have hsub : ((b - a).toNat : Int) = (b.toNat - a.toNat : Int) % 65536 := by
    rw [UInt16.toNat_sub]
    omega
  have hhalf : (0x8000 : UInt16).toNat = 0x8000 := rfl
  rw [← hsub]
  unfold lessThan isNewerSequenceNumber
  split
  · rename_i heq
    rw [heq, decide_eq_true_eq, hhalf, UInt16.lt_iff_toNat_lt]
    omega
  · rename_i hne
    rw [Bool.and_eq_true, decide_eq_true_eq, decide_eq_true_eq, ne_eq, ← UInt16.toNat_inj,
      UInt16.lt_iff_toNat_lt, hhalf]
    rw [← UInt16.toNat_inj, hhalf] at hne
    omega

theorem lessThan_asymm {a b : UInt16} (h : lessThan a b = true) : ¬ lessThan b a = true := by
  rw [lessThan_iff] at h ⊢
  have ha := a.toNat_lt
  have hb := b.toNat_lt
  omega

theorem lessThan_irrefl (a : UInt16) : ¬ lessThan a a = true := by
  rw [lessThan_iff]
  omega

/-- The numbers a mask protects are less than half the range apart. -/
theorem protectedSeqs_sorted (pkt : Packet) : (protectedSeqs pkt).Pairwise fun a b => lessThan a b = true := by
  have hsize : 8 * maskSize (lBitOf pkt) ≤ 48 := by
    unfold maskSize
    split <;> decide
  have hks : ((List.range (8 * maskSize (lBitOf pkt))).filter fun k => maskBit pkt.data 12 k).Pairwise (· < ·) :=
    List.pairwise_lt_range.filter _
  rw [protectedSeqs, List.pairwise_map]
  refine hks.imp_of_mem fun {j k} hj hk hlt => ?_
  have hj' := List.mem_range.1 (List.mem_filter.1 hj).1
  have hk' := List.mem_range.1 (List.mem_filter.1 hk).1
  rw [lessThan_window _ (by omega) (by omega)]
  exact decide_eq_true hlt

/-- The entries have the numbers of the mask, as `InsertFECPacket` makes them. -/
def FecPacket.Stored (f : FecPacket) : Prop := f.protectedPktList.map ProtectedPacket.seqNum = protectedSeqs f.pkt

theorem FecPacket.Stored.sorted {f : FecPacket} (h : f.Stored) :
    f.protectedPktList.Pairwise fun p q => lessThan p.seqNum q.seqNum = true := by
  have hsorted := protectedSeqs_sorted f.pkt
  rw [← show _ = _ from h, List.pairwise_map] at hsorted
  exact hsorted

/-- Of entries in order, the one with a number in question is where the search for the number ends. -/
theorem lowerBound_entry {l : List ProtectedPacket} (h : l.Pairwise fun p q => lessThan p.seqNum q.seqNum = true)
    {j : Nat} (hj : j < l.length) : lowerBound (fun p : ProtectedPacket => lessThan p.seqNum l[j].seqNum) l = j := by
  have hbefore : ∀ i (hi : i < l.length), i < j → lessThan l[i].seqNum l[j].seqNum = true :=
    fun i hi hij => List.pairwise_iff_getElem.1 h i j hi hj hij
  have hbehind : ∀ i (hi : i < l.length), j ≤ i → ¬ lessThan l[i].seqNum l[j].seqNum = true := by
    intro i hi hij
    rcases Nat.lt_or_eq_of_le hij with hlt | rfl
    · exact lessThan_asymm (List.pairwise_iff_getElem.1 h j i hj hi hlt)
    · exact lessThan_irrefl _
  have hpart : Partitioned (fun p : ProtectedPacket => lessThan p.seqNum l[j].seqNum) l := by
    refine List.pairwise_iff_getElem.2 fun i k hi hk hik hless => ?_
    have hkj : k < j := Nat.not_le.1 fun hjk => hbehind k hk hjk hless
    exact hbefore i hi (Nat.lt_trans hik hkj)
  rw [show lowerBound _ l = _ from (bisect ProtectedPacket).find_partitioned hpart]
  have hat := any_takeWhile hpart hj
  rw [List.getElem?_eq_getElem hj] at hat
  have hle : (l.takeWhile fun p => lessThan p.seqNum l[j].seqNum).length ≤ j :=
    Nat.not_lt.1 fun hlt => hbehind j hj (Nat.le_refl j) (hat.trans (decide_eq_true hlt))
  refine Nat.le_antisymm hle (Nat.not_lt.1 fun hlt => ?_)
  have hlen : (l.takeWhile fun p => lessThan p.seqNum l[j].seqNum).length < l.length := Nat.lt_trans hlt hj
  have hlast := any_takeWhile hpart hlen
  rw [List.getElem?_eq_getElem hlen, decide_eq_false (Nat.lt_irrefl _)] at hlast
  exact absurd (hbefore _ hlen hlt) (by simpa using hlast)

/-- Link an entry to the packet, if it has its number. -/
def link (packet : RecoveredPacket) (p : ProtectedPacket) : ProtectedPacket :=
  if p.seqNum = packet.seqNum then { p with pkt := some packet.pkt } else p

/-- **Every entry with the number is found.** -/
theorem cover_eq {f : FecPacket} (h : f.Stored) (packet : RecoveredPacket) :
    (cover packet f).protectedPktList = f.protectedPktList.map (link packet) := by
  refine List.ext_getElem? fun j => ?_
  rw [cover, List.getElem?_modify, List.getElem?_map]
  by_cases hj : j < f.protectedPktList.length
  · rw [List.getElem?_eq_getElem hj]
    simp only [Option.map_eq_map, Option.map_some, Option.some.injEq]
    by_cases hseq : f.protectedPktList[j].seqNum = packet.seqNum
    · have hpos := lowerBound_entry h.sorted hj
      rw [hseq] at hpos
      rw [if_pos hpos]
      rfl
    · simp only [link, if_neg hseq, ite_self]
  · rw [List.getElem?_eq_none (Nat.not_lt.1 hj)]
    rfl

/-! ## The loop -/

section Rounds
variable {sort : List RecoveredPacket → List RecoveredPacket}

/-- The rounds of `AttemptRecover` with the iterator after `seen`, up to its end. -/
inductive AttemptEnds (sort : List RecoveredPacket → List RecoveredPacket) :
    List FecPacket → List FecPacket → List RecoveredPacket → Decoder × List RecoveredPacket → Prop where
  | done {seen : List FecPacket} {recovered : List RecoveredPacket} :
      AttemptEnds sort seen [] recovered (⟨seen, recovered⟩, [])
  | unusable {seen rest : List FecPacket} {fec : FecPacket} {recovered : List RecoveredPacket}
      {r : Decoder × List RecoveredPacket} (one : numCoveredPacketsMissing fec = 1) (fails : recoverPacket fec = none)
      (next : AttemptEnds sort seen rest recovered r) : AttemptEnds sort seen (fec :: rest) recovered r
  | recovers {seen rest : List FecPacket} {fec : FecPacket} {recovered : List RecoveredPacket}
      {packet : RecoveredPacket} {r : Decoder × List RecoveredPacket} (one : numCoveredPacketsMissing fec = 1)
      (succeeds : recoverPacket fec = some packet)
      (next : AttemptEnds sort [] (updateCoveringFecPackets packet (seen ++ rest))
        (discardOldPackets (sort (recovered ++ [packet]))) r) :
      AttemptEnds sort seen (fec :: rest) recovered (r.1, packet :: r.2)
  | complete {seen rest : List FecPacket} {fec : FecPacket} {recovered : List RecoveredPacket}
      {r : Decoder × List RecoveredPacket} (none : numCoveredPacketsMissing fec = 0)
      (next : AttemptEnds sort seen rest recovered r) : AttemptEnds sort seen (fec :: rest) recovered r
  | passed {seen rest : List FecPacket} {fec : FecPacket} {recovered : List RecoveredPacket}
      {r : Decoder × List RecoveredPacket} (more : 2 ≤ numCoveredPacketsMissing fec)
      (next : AttemptEnds sort (seen ++ [fec]) rest recovered r) : AttemptEnds sort seen (fec :: rest) recovered r

/-- A pass takes at most as many rounds as there are FEC packets, and a new pass has one FEC packet less. -/
theorem attemptEnds_loop {n fuel : Nat} {seen rest : List FecPacket} (hn : seen.length + rest.length ≤ n)
    (hfuel : (seen.length + rest.length) * (n + 1) + rest.length < fuel) (recovered : List RecoveredPacket) :
    AttemptEnds sort seen rest recovered (attemptLoop sort fuel seen rest recovered) := by
  induction fuel generalizing seen rest recovered with
  | zero => omega
  | succ fuel ih =>
    cases rest with
    | nil => exact .done
    | cons fec rest =>
      simp only [List.length_cons, ← Nat.add_assoc, Nat.add_one_mul] at hn hfuel
      have hdrop : ∀ recovered, AttemptEnds sort seen rest recovered (attemptLoop sort fuel seen rest recovered) :=
        ih (by omega) (by omega)
      rw [attemptLoop]
      split
      · rename_i hone
        cases hr : recoverPacket fec with
        | none => exact .unusable hone hr (hdrop _)
        | some packet =>
          have hlen : (updateCoveringFecPackets packet (seen ++ rest)).length = seen.length + rest.length := by
            rw [updateCoveringFecPackets, List.length_map, List.length_append]
          refine .recovers hone hr (ih ?_ ?_ _) <;> simp only [hlen, List.length_nil, Nat.zero_add] <;> omega
      · rename_i hone
        split
        · rename_i hnone
          exact .complete hnone (hdrop _)
        · rename_i hnone
          refine .passed (by omega) (ih ?_ ?_ _) <;>
            simp only [List.length_append, List.length_singleton, Nat.add_right_comm _ 1, Nat.add_one_mul] <;>
            omega

/-- **The loop ends**, with what `attemptRecover` returns. -/
theorem attemptEnds (s : Decoder) :
    AttemptEnds sort [] s.fecPacketList s.recoveredPacketList (attemptRecover sort s) := by
  refine attemptEnds_loop (n := s.fecPacketList.length) (by simp) ?_ _
  simp only [List.length_nil, Nat.zero_add, Nat.add_one_mul]
  omega

end Rounds

/-! ## What is known -/

/-- The number of protected packets that are missing. -/
def FecPacket.missing (f : FecPacket) : Nat := f.protectedPktList.countP fun p => p.pkt.isNone

/-- The entries of all FEC packets point to the packets with a known number and to no others. -/
structure Peeled (known : UInt16 → Prop) (fs : List FecPacket) : Prop where
  stored : ∀ f ∈ fs, f.Stored
  linked : ∀ f ∈ fs, ∀ p ∈ f.protectedPktList, p.pkt.isSome = true ↔ known p.seqNum

theorem Peeled.sub {known : UInt16 → Prop} {fs gs : List FecPacket} (h : Peeled known fs) (hsub : ∀ g ∈ gs, g ∈ fs) :
    Peeled known gs :=
  ⟨fun f hf => h.stored f (hsub f hf), fun f hf => h.linked f (hsub f hf)⟩

theorem stored_cover {f : FecPacket} (h : f.Stored) (packet : RecoveredPacket) : (cover packet f).Stored :=
  (cover_seqs packet f).2.trans h

/-- One number more is known. -/
theorem Peeled.cover {known : UInt16 → Prop} {fs : List FecPacket} (h : Peeled known fs) (packet : RecoveredPacket) :
    Peeled (fun n => known n ∨ n = packet.seqNum) (updateCoveringFecPackets packet fs) := by
  refine ⟨fun g hg => ?_, fun g hg p hp => ?_⟩
  · obtain ⟨f, hf, rfl⟩ := List.mem_map.1 hg
    exact stored_cover (h.stored f hf) packet
  · obtain ⟨f, hf, rfl⟩ := List.mem_map.1 hg
    rw [cover_eq (h.stored f hf)] at hp
    obtain ⟨q, hq, rfl⟩ := List.mem_map.1 hp
    have hlinked := h.linked f hf q hq
    unfold link
    by_cases hseq : q.seqNum = packet.seqNum
    · rw [if_pos hseq]
      exact iff_of_true rfl (.inr hseq)
    · rw [if_neg hseq, hlinked]
      exact ⟨.inl, fun hor => hor.resolve_right hseq⟩

theorem Peeled.fresh {known : UInt16 → Prop} {fs : List FecPacket} (h : Peeled known fs) {f : FecPacket} (hf : f ∈ fs)
    (h1 : numCoveredPacketsMissing f = 1) {packet : RecoveredPacket} (hr : recoverPacket f = some packet) :
    ¬ known packet.seqNum := by
  obtain ⟨p, hp, hnone, hseq⟩ := recoverPacket_seqNum h1 hr
  intro hknown
  have hsome := (h.linked f hf p hp).2 (hseq ▸ hknown)
  rw [hnone] at hsome
  cases hsome

/-! ## What a run keeps -/

section Kept
variable {sort : List RecoveredPacket → List RecoveredPacket} {seen rest : List FecPacket}
  {recovered : List RecoveredPacket} {r : Decoder × List RecoveredPacket}

/-- What the call leaves: the FEC packets know the packets that were known and those that were recovered, and
each of them misses two at least. -/
structure Left (known : UInt16 → Prop) (r : Decoder × List RecoveredPacket) : Prop where
  fresh : ∀ q ∈ r.2, ¬ known q.seqNum
  once : (r.2.map RecoveredPacket.seqNum).Nodup
  peeled : Peeled (fun n => known n ∨ n ∈ r.2.map RecoveredPacket.seqNum) r.1.fecPacketList
  stuck : ∀ f ∈ r.1.fecPacketList, 2 ≤ f.missing

theorem AttemptEnds.left (hr : AttemptEnds sort seen rest recovered r) {known : UInt16 → Prop}
    (h : Peeled known (seen ++ rest)) (hseen : ∀ f ∈ seen, 2 ≤ f.missing) : Left known r := by
  induction hr generalizing known with
  | done =>
    rw [List.append_nil] at h
    refine ⟨(fun q hq => nomatch hq), List.nodup_nil, ?_, hseen⟩
    exact ⟨h.stored, fun f hf p hp => by rw [h.linked f hf p hp]; simp⟩
  | unusable _ _ _ ih => exact ih (h.sub mem_without) hseen
  | complete _ _ ih => exact ih (h.sub mem_without) hseen
  | @passed seen rest fec recovered r more _ ih =>
    refine ih (by rw [List.append_assoc]; exact h) fun f hf => ?_
    rcases List.mem_append.1 hf with hf | hf
    · exact hseen f hf
    · rw [List.mem_singleton.1 hf]
      exact Nat.le_trans more (Nat.min_le_right _ _)
  | @recovers seen rest fec recovered packet r one succeeds _ ih =>
    have hfresh := h.fresh (List.mem_append_right seen List.mem_cons_self) one succeeds
    have hleft := ih ((h.sub mem_without).cover packet) fun f hf => nomatch hf
    refine ⟨?_, ?_, ?_, hleft.stuck⟩
    · intro q hq
      rcases List.mem_cons.1 hq with rfl | hq
      · exact hfresh
      · exact fun hknown => hleft.fresh q hq (.inl hknown)
    · rw [List.map_cons, List.nodup_cons]
      refine ⟨fun hmem => ?_, hleft.once⟩
      obtain ⟨q, hq, hseq⟩ := List.mem_map.1 hmem
      exact hleft.fresh q hq (.inr hseq)
    · refine ⟨hleft.peeled.stored, fun f hf p hp => ?_⟩
      rw [hleft.peeled.linked f hf p hp, List.map_cons, List.mem_cons, or_assoc]

/-- The list gets the packets one by one and may lose its oldest. -/
theorem AttemptEnds.nodup (hr : AttemptEnds sort seen rest recovered r) (hsort : ∀ l, (sort l).Perm l)
    (h : ((recovered ++ r.2).map RecoveredPacket.seqNum).Nodup) :
    (r.1.recoveredPacketList.map RecoveredPacket.seqNum).Nodup := by
  induction hr with
  | done =>
    rw [List.append_nil] at h
    exact h
  | unusable _ _ _ ih => exact ih h
  | complete _ _ ih => exact ih h
  | passed _ _ ih => exact ih h
  | @recovers seen rest fec recovered packet r one succeeds _ ih =>
    refine ih ?_
    have hall : ((sort (recovered ++ [packet]) ++ r.2).map RecoveredPacket.seqNum).Nodup := by
      refine ((((hsort _).append_right r.2).map _).nodup_iff).2 ?_
      rw [List.append_assoc]
      exact h
    exact hall.sublist (((List.drop_sublist _ _).append_right r.2).map _)

/-- Sorted as the algorithms of the standard library understand it. -/
def Sorted (l : List RecoveredPacket) : Prop :=
  (l.map RecoveredPacket.seqNum).Pairwise fun a b => lessThan b a = false

instance (l : List RecoveredPacket) : Decidable (Sorted l) := inferInstanceAs (Decidable (List.Pairwise _ _))

/-- Less than half the range behind `base`. -/
def InWindow (base n : UInt16) : Prop := (n - base).toNat < 32768

theorem lessThan_inWindow {base a b : UInt16} (ha : InWindow base a) (hb : InWindow base b) :
    lessThan a b = decide ((a - base).toNat < (b - base).toNat) := by
  have hback : ∀ n : UInt16, base + UInt16.ofNat (n - base).toNat = n := by
    intro n
    rw [UInt16.ofNat_toNat, UInt16.add_comm, UInt16.sub_add_cancel]
  have h := lessThan_window base ha hb
  rw [hback, hback] at h
  exact h

/-- What is known of `std::list::sort`: it moves elements, and it sorts where the comparison is an order. -/
structure Sorts (sort : List RecoveredPacket → List RecoveredPacket) : Prop where
  perm : ∀ l, (sort l).Perm l
  sorted : ∀ {base : UInt16} {l : List RecoveredPacket}, (∀ r ∈ l, InWindow base r.seqNum) → Sorted (sort l)

/-- In a window a list is sorted by the distance from its start. -/
theorem sorted_sortPackets {base : UInt16} {l : List RecoveredPacket} (hw : ∀ r ∈ l, InWindow base r.seqNum) :
    Sorted (sortPackets RecoveredPacket.seqNum l) := by
  have hle : ∀ a ∈ l, ∀ b ∈ l, lessThan b.seqNum a.seqNum = false ↔
      (a.seqNum - base).toNat ≤ (b.seqNum - base).toNat := by
    intro a ha b hb
    rw [lessThan_inWindow (hw b hb) (hw a ha), decide_eq_false_iff_not, Nat.not_lt]
  have hmap : (sortPackets RecoveredPacket.seqNum l).map (fun r => (r.seqNum - base).toNat) =
      (l.map fun r => (r.seqNum - base).toNat).insertionSort (· ≤ ·) := List.map_insertionSort _ _ _ l hle
  have hsorted := List.pairwise_insertionSort (· ≤ ·) (l.map fun r => (r.seqNum - base).toNat)
  rw [← hmap, List.pairwise_map] at hsorted
  rw [Sorted, List.pairwise_map]
  refine hsorted.imp_of_mem fun {a b} ha hb hab => ?_
  exact (hle a ((List.mem_insertionSort _).1 ha) b ((List.mem_insertionSort _).1 hb)).2 hab

theorem sorts_sortPackets : Sorts (sortPackets RecoveredPacket.seqNum) :=
  ⟨fun _ => List.perm_insertionSort _ _, sorted_sortPackets⟩

theorem AttemptEnds.sorted (hr : AttemptEnds sort seen rest recovered r) (hsort : Sorts sort) {base : UInt16}
    (hw : Decoder.Within (InWindow base) (fun _ => True) ⟨seen ++ rest, recovered⟩) (h : Sorted recovered) :
    Sorted r.1.recoveredPacketList := by
  induction hr with
  | done => exact h
  | unusable _ _ _ ih => exact ih (hw.sub mem_without) h
  | complete _ _ ih => exact ih (hw.sub mem_without) h
  | passed _ _ ih => exact ih (by rw [List.append_assoc]; exact hw) h
  | @recovers seen rest fec recovered packet r one succeeds _ ih =>
    have hp : InWindow base packet.seqNum := by
      obtain ⟨p, hp, -, hseq⟩ := recoverPacket_seqNum one succeeds
      exact hseq ▸ hw.protects fec (List.mem_append_right seen List.mem_cons_self) p hp
    have hin := within_add (hw.sub mem_without) hp
    have hmem : ∀ q ∈ recovered ++ [packet], InWindow base q.seqNum :=
      fun q hq => hin.recovered q ((List.mem_insertionSort _).2 hq)
    refine ih ⟨fun q hq => hmem q ((hsort.perm _).mem_iff.1 (List.mem_of_mem_drop hq)), hin.fec, hin.protects⟩ ?_
    exact (hsort.sorted hmem).sublist ((List.drop_sublist _ _).map _)

/-! ## A call -/

def Decoder.Stored (s : Decoder) : Prop := ∀ f ∈ s.fecPacketList, f.Stored

theorem stored_updateCovering {fs : List FecPacket} (h : ∀ f ∈ fs, f.Stored) (packet : RecoveredPacket) :
    ∀ f ∈ updateCoveringFecPackets packet fs, f.Stored := by
  intro g hg
  obtain ⟨f, hf, rfl⟩ := List.mem_map.1 hg
  exact stored_cover (h f hf) packet

theorem stored_insertPacket {s : Decoder} (h : s.Stored) (rx : ReceivedPacket) : (insertPacket s rx).Stored := by
  have hdrop : Decoder.Stored (if tooOld s rx then { s with fecPacketList := s.fecPacketList.tail } else s) := by
    split
    · exact fun f hf => h f (List.mem_of_mem_tail hf)
    · exact h
  unfold insertPacket
  dsimp only
  generalize (if tooOld s rx then { s with fecPacketList := s.fecPacketList.tail } else s) = t at hdrop
  split
  · rw [insertFecPacket_eq]
    split
    · exact hdrop
    · split
      · exact hdrop
      · intro f hf
        rcases List.mem_append.1 ((List.mem_insertionSort _).1 (mem_of_mem_capFec hf)) with hf | hf
        · exact hdrop f hf
        · rw [List.mem_singleton.1 hf]
          exact newFecPacket_seqs rx t.recoveredPacketList
  · unfold insertMediaPacket
    split
    · exact hdrop
    · exact stored_updateCovering hdrop _

theorem AttemptEnds.stored (hr : AttemptEnds sort seen rest recovered r) (h : ∀ f ∈ seen ++ rest, f.Stored) :
    r.1.Stored := by
  induction hr with
  | done =>
    rw [List.append_nil] at h
    exact h
  | unusable _ _ _ ih => exact ih fun f hf => h f (mem_without f hf)
  | complete _ _ ih => exact ih fun f hf => h f (mem_without f hf)
  | passed _ _ ih => exact ih (by rw [List.append_assoc]; exact h)
  | recovers _ _ _ ih => exact ih (stored_updateCovering (fun f hf => h f (mem_without f hf)) _)

/-- The states the decoder can get to are stored as `InsertFECPacket` stores them. -/
theorem stored_decodeFec {s : Decoder} (h : s.Stored) (received : List ReceivedPacket) :
    (decodeFec s received).1.Stored := by
  have hgap : (afterGap s received).Stored := by
    unfold afterGap
    split
    · exact fun f hf => nomatch hf
    · exact h
  have hinsert : (insertPackets (afterGap s received) received).Stored := by
    have hfold : ∀ (l : List ReceivedPacket) (t : Decoder), t.Stored → (l.foldl insertPacket t).Stored := by
      intro l
      induction l with
      | nil => exact fun t ht => ht
      | cons rx l ih => exact fun t ht => ih _ (stored_insertPacket ht rx)
    exact hfold received _ hgap
  exact (attemptEnds _).stored hinsert

/-- The entries of the FEC packets point to exactly the packets of the list. -/
def Decoder.Linked (s : Decoder) : Prop :=
  ∀ f ∈ s.fecPacketList, ∀ p ∈ f.protectedPktList, ∀ pkt,
    p.pkt = some pkt ↔ ∃ r ∈ s.recoveredPacketList, r.seqNum = p.seqNum ∧ r.pkt = pkt

/-- All numbers that are compared are less than half the range apart. -/
def Decoder.Near (s : Decoder) : Prop := ∃ base, s.Within (InWindow base) fun _ => True

theorem Decoder.Linked.peeled {s : Decoder} (hs : s.Stored) (h : s.Linked) :
    Peeled (fun n => n ∈ s.recoveredPacketList.map RecoveredPacket.seqNum) s.fecPacketList := by
  refine ⟨hs, fun f hf p hp => ?_⟩
  rw [Option.isSome_iff_exists, List.mem_map]
  constructor
  · rintro ⟨pkt, hpkt⟩
    obtain ⟨r, hr, hseq, -⟩ := (h f hf p hp pkt).1 hpkt
    exact ⟨r, hr, hseq⟩
  · rintro ⟨r, hr, hseq⟩
    exact ⟨r.pkt, (h f hf p hp r.pkt).2 ⟨r, hr, hseq, rfl⟩⟩

/-- What `AttemptRecover` does, and what it leaves. -/
structure RecoversAll (sort : List RecoveredPacket → List RecoveredPacket) (s : Decoder) : Prop where
  ends : AttemptEnds sort [] s.fecPacketList s.recoveredPacketList (attemptRecover sort s)
  /-- Nothing is recovered that was there or has been recovered before. -/
  fresh : ((s.recoveredPacketList ++ (attemptRecover sort s).2).map RecoveredPacket.seqNum).Nodup
  distinct : ((attemptRecover sort s).1.recoveredPacketList.map RecoveredPacket.seqNum).Nodup
  sorted : s.Near → Sorted (attemptRecover sort s).1.recoveredPacketList
  /-- A packet is missing if it was not there and has not been recovered. -/
  linked : ∀ f ∈ (attemptRecover sort s).1.fecPacketList, ∀ p ∈ f.protectedPktList, p.pkt.isSome = true ↔
    p.seqNum ∈ (s.recoveredPacketList ++ (attemptRecover sort s).2).map RecoveredPacket.seqNum
  stuck : ∀ f ∈ (attemptRecover sort s).1.fecPacketList, 2 ≤ f.missing

/-- **All is recovered that can be**, from any state whose entries are those of the list, however packets that are
not in order are sorted. -/
theorem attemptRecover_all (hsort : Sorts sort) {s : Decoder} (hs : s.Stored) (hl : s.Linked)
    (hn : (s.recoveredPacketList.map RecoveredPacket.seqNum).Nodup) (hsorted : Sorted s.recoveredPacketList) :
    RecoversAll sort s := by
  have hends := @attemptEnds sort s
  have hleft := hends.left (hl.peeled hs) fun f hf => nomatch hf
  have hfresh : ((s.recoveredPacketList ++ (attemptRecover sort s).2).map RecoveredPacket.seqNum).Nodup := by
    rw [List.map_append, List.nodup_append']
    refine ⟨hn, hleft.once, fun n hold hnew => ?_⟩
    obtain ⟨q, hq, rfl⟩ := List.mem_map.1 hnew
    exact hleft.fresh q hq hold
  refine ⟨hends, hfresh, hends.nodup hsort.perm hfresh, ?_, ?_, hleft.stuck⟩
  · rintro ⟨base, hw⟩
    exact hends.sorted hsort hw hsorted
  · intro f hf p hp
    rw [List.map_append, List.mem_append]
    exact hleft.peeled.linked f hf p hp

end Kept

/-- The packet 3 is there, and 4 comes back. -/
def threeThere : Decoder where
  fecPacketList := [newFecPacket fecFive [⟨3, false, mediaThree.pkt⟩]]
  recoveredPacketList := [⟨3, false, mediaThree.pkt⟩]

theorem attemptRecover_all_three :
    (attemptRecover (sortPackets RecoveredPacket.seqNum) threeThere).2.map RecoveredPacket.seqNum = [4] ∧
      RecoversAll (sortPackets RecoveredPacket.seqNum) threeThere := by
  have hentries : (newFecPacket fecFive [⟨3, false, mediaThree.pkt⟩]).protectedPktList =
      [⟨3, some mediaThree.pkt⟩, ⟨4, none⟩] :=
    rfl
  refine ⟨by decide, attemptRecover_all sorts_sortPackets ?_ ?_ (by decide) (by decide)⟩
  · intro f hf
    rw [List.mem_singleton.1 hf]
    exact newFecPacket_seqs _ _
  · intro f hf p hp pkt
    rw [List.mem_singleton.1 hf, hentries] at hp
    rcases List.mem_pair.1 hp with rfl | rfl
    · simp [threeThere]
    · simp [threeThere]

/-- A FEC packet that protects the packet 50000 alone. -/
def fecFiftyThousand : ReceivedPacket :=
  ⟨7, 0, true, ⟨14, fun j => if j = 2 then 0xc3 else if j = 3 then 0x50 else if j = 12 then 0x80 else 0⟩⟩

/-- The packets 0 and 30000, neither of which the FEC packet protects. -/
def farApart : Decoder where
  fecPacketList := [newFecPacket fecFiftyThousand []]
  recoveredPacketList := [⟨0, false, mediaThree.pkt⟩, ⟨30000, false, mediaThree.pkt⟩]

/-- Each of 0, 30000 and 50000 is before the next, and 50000 is before 0: no order of them is sorted. -/
theorem attemptRecover_not_sorted : ¬ ∀ s : Decoder, s.Stored → s.Linked →
    (s.recoveredPacketList.map RecoveredPacket.seqNum).Nodup → Sorted s.recoveredPacketList →
    Sorted (attemptRecover (sortPackets RecoveredPacket.seqNum) s).1.recoveredPacketList := by
  intro h
  have hstored : farApart.Stored := by
    intro f hf
    rw [List.mem_singleton.1 hf]
    exact newFecPacket_seqs _ _
  have hentries : (newFecPacket fecFiftyThousand []).protectedPktList = [⟨50000, none⟩] := rfl
  have hlinked : farApart.Linked := by
    intro f hf p hp pkt
    rw [List.mem_singleton.1 hf, hentries] at hp
    rw [List.mem_singleton.1 hp]
    simp [farApart]
  exact absurd (h farApart hstored hlinked (by decide) (by decide)) (by decide)

example : ∀ l ∈ List.permutations' [(0 : UInt16), 30000, 50000], ¬ l.Pairwise fun a b =>
  lessThan b a = false := by decide

end WebRtc.Fec
