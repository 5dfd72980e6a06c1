import WebRtc.Rtcp.Bitrate
import WebRtc.Rtcp.TmmbrBounding

/-!
# When the bounding set bounds

`findTMMBRBoundingSet_exact` says for which candidates `FindTMMBRBoundingSet` returns a bounding set. There are two
ways in which it does not:

* a tuple that is passed over is left out where it makes a difference;
* step 2 clears tuples without counting them, so that the loop runs without a candidate: the tuple that is then
  placed is all zeros (`Stale`).
-/

namespace WebRtc.Rtcp

open Bytes
open WebRtc.Rtcp.Parser

/-- The tuples that are heard allow nothing that the others do not. -/
def HeardBound (candidates : List SetElement) : Prop :=
  ∀ bitrate packetRate : ℝ, 0 ≤ bitrate → 0 ≤ packetRate →
    (∀ c, Heard candidates c → c.Allows bitrate packetRate) → ∀ c ∈ candidates, c.Allows bitrate packetRate

/-- No tuple is steeper than the one with the lowest bitrate, but two have the same overhead; and the line of the
tuple that is all zeros crosses it above the axis. -/
def Stale (candidates : List SetElement) : Prop :=
  ∃ a, LowestBitrate candidates a ∧ (∀ c ∈ candidates, c.packetOh ≤ a.packetOh) ∧
    ¬ (candidates.map SetElement.packetOh).Nodup ∧ 8 * a.packetOh.toNat < a.tmmbr.toNat

/-- Parsed requests are valid, apart from the zeros. -/
theorem tmmbItemAt_valid (buf : List UInt8) (p : Nat) (ssrc : UInt32) :
    let c : SetElement := ⟨(tmmbItemAt buf p).maxTotalMediaBitRate, (tmmbItemAt buf p).measuredOverhead, ssrc⟩
    0 < c.tmmbr → 0 < c.packetOh → c.Valid := by
  intro c hbitrate hover
  have hmax : c.tmmbr.toNat ≤ 4294967 := by
    have hthousand : (1000 : UInt32).toNat = 1000 := rfl
    dsimp only [c, tmmbItemAt]
    generalize (_ : UInt32) <<< _ = bits
    have hbits := bits.toNat_lt
    rw [UInt32.toNat_div, hthousand]
    omega
  have hover' : c.packetOh.toNat ≤ 511 := by
    have height : (8 : UInt32).toNat % 32 = 8 := rfl
    have hlow := (byteAt buf (p + 7)).toNat_lt
    dsimp only [c, tmmbItemAt]
    rw [UInt32.toNat_add, UInt32.toNat_shiftLeft, UInt8.toNat_toUInt32, UInt8.toNat_toUInt32, height,
      (byte_fields _).2.2.2, Nat.shiftLeft_eq]
    omega
  exact ⟨⟨UInt32.lt_iff_toNat_lt.1 hbitrate, hmax⟩, ⟨UInt32.lt_iff_toNat_lt.1 hover, hover'⟩⟩

section Loop
variable {candidates steeper left : List SetElement} {base c cur : SetElement} {selected selected' : List Selected}

theorem Separated.progress (h : Separated candidates base steeper) :
    Progress candidates base steeper [⟨base, ⟨0, 1⟩, maxPacketRate base⟩] := by
  have hstanding := h.standing List.mem_cons_self
  have hnone : ∀ u, Heard candidates u → ¬ u.packetOh < base.packetOh := fun u hu hlt =>
    UInt32.not_lt.2 ((heard_iff.1 hu).1.overhead base h.lowest) hlt
  have hheard : Heard candidates base := heard_iff.2 ⟨hstanding, fun u hu huh _ => absurd hu (hnone u huh)⟩
  have hcuts : Cuts candidates base := by
    refine ⟨base.tmmbr.toNat + 1, 0, by positivity, le_refl 0, fun v hv hvh => absurd hv (hnone v hvh), ?_⟩
    unfold SetElement.Allows
    linarith
  -- Only the numbers of the first tuple come before the steeper ones.
  have htwin : ∀ u, Heard candidates u → Behind steeper u → base.packetOh = u.packetOh ∧ base.tmmbr = u.tmmbr := by
    intro u hu hbehind
    obtain ⟨d, hd, hoh, hbitrate⟩ := h.twin (heard_iff.1 hu).1
    rcases List.mem_cons.1 hd with rfl | hd
    · exact ⟨hoh, hbitrate⟩
    · have hlt := hbehind d hd
      rw [hoh] at hlt
      exact absurd hlt (UInt32.lt_irrefl _)
  refine ⟨by rw [Stacked], ?_, ?_, ?_⟩
  · simpa using ⟨hheard, hcuts, (List.pairwise_cons.1 h.order).1⟩
  · intro bitrate packetRate _ hall u hu hbehind
    obtain ⟨hoh, hbitrate⟩ := htwin u hu hbehind
    exact (allows_congr hoh hbitrate).1 (hall _ List.mem_cons_self)
  · intro s hs u hu _ hbehind
    obtain rfl : ⟨base, ⟨0, 1⟩, maxPacketRate base⟩ = s := by simpa using hs
    exact UInt32.le_of_eq (htwin u hu hbehind).2.symm

/-- **The loop.** Rounds without a candidate place the last one again. -/
theorem Progress.rounds (hsep : Separated candidates base steeper) (hvalid : ∀ d ∈ candidates, d.Valid)
    {l : List SetElement} {n : Nat} (h : Progress candidates base (tuples l) selected)
    (hsuffix : tuples l <:+ steeper) (hn : (tuples l).length ≤ n) (cur : SetElement)
    (hlast : tuples l = [] → place cur selected = some selected) :
    ∃ selected', rounds n l cur selected = some selected' ∧ Progress candidates base [] selected' := by
  induction n generalizing l cur selected with
  | zero =>
    have hnil : tuples l = [] := List.length_eq_zero_iff.1 (Nat.le_zero.1 hn)
    rw [hnil] at h
    exact ⟨selected, rfl, h⟩
  | succ n ih =>
    cases hl : tuples l with
    | nil =>
      obtain ⟨selected', hrounds, hprogress⟩ := ih h hsuffix (by rw [hl]; exact Nat.zero_le n) cur hlast
      refine ⟨selected', ?_, hprogress⟩
      rw [WebRtc.Rtcp.rounds, takeFirst_nil hl]
      simpa only [hlast hl, Option.bind_some] using hrounds
    | cons c left =>
      obtain ⟨l', htake, hl'⟩ := takeFirst_cons hl cur
      rw [hl] at h hsuffix hn
      obtain ⟨selected', hplace, hprogress⟩ := h.step (hsep.next hvalid hsuffix)
      have hrest : tuples l' <:+ steeper := by
        rw [hl']
        exact (List.suffix_cons c left).trans hsuffix
      rw [← hl'] at hprogress
      obtain ⟨selected'', hrounds, hend⟩ := ih hprogress hrest (by rw [hl']; simpa using hn) c
        fun _ => place_again c hplace
      refine ⟨selected'', ?_, hend⟩
      rw [WebRtc.Rtcp.rounds, htake]
      simpa only [hplace, Option.bind_some] using hrounds

theorem rounds_nil {l : List SetElement} (h : tuples l = []) (hplace : place cur selected = some selected') (n : Nat) :
    rounds (n + 1) l cur selected = some selected' := by
  induction n generalizing selected with
  | zero =>
    rw [rounds, takeFirst_nil h]
    simp [hplace, rounds]
  | succ n ih =>
    rw [rounds, takeFirst_nil h]
    simp only [hplace, Option.bind_some]
    exact ih (place_again cur hplace)

/-- The tuple that is all zeros. -/
theorem place_cleared (hbase : base.Valid) : place cleared [⟨base, ⟨0, 1⟩, maxPacketRate base⟩] =
    if 8 * base.packetOh.toNat < base.tmmbr.toNat then
      some [⟨cleared, packetRate cleared base, maxPacketRate cleared⟩, ⟨base, ⟨0, 1⟩, maxPacketRate base⟩]
    else some [⟨base, ⟨0, 1⟩, maxPacketRate base⟩] := by
  obtain ⟨⟨hpos, hmax⟩, ⟨hpos', hmax'⟩⟩ := hbase
  have hrate : packetRate cleared base =
      ⟨(4294967296 - base.tmmbr.toNat) * 1000, 4294967296 - 8 * base.packetOh.toNat⟩ := by
    have height : (8 : UInt32).toNat = 8 := rfl
    have hzero : (0 : UInt32).toNat = 0 := rfl
    unfold packetRate cleared
    rw [UInt32.toNat_sub, UInt32.toNat_mul, UInt32.toNat_sub, height, hzero]
    exact congrArg₂ FloatQuotient.mk (by omega) (by omega)
  have hle : (packetRate cleared base).le ⟨0, 1⟩ = false := by
    rw [hrate, ← Bool.not_eq_true, le_iff (by omega) (by omega)]
    omega
  have hlt : (packetRate cleared base).lt (maxPacketRate base) = true ↔ 8 * base.packetOh.toNat < base.tmmbr.toNat := by
    rw [hrate, maxPacketRate_eq ⟨⟨hpos, hmax⟩, ⟨hpos', hmax'⟩⟩, lt_iff (by omega) (by omega)]
    have hover : (4294967296 - base.tmmbr.toNat) * 1000 * (8 * base.packetOh.toNat) +
        base.tmmbr.toNat * 1000 * (8 * base.packetOh.toNat) = 4294967296 * 1000 * (8 * base.packetOh.toNat) := by
      rw [← Nat.add_mul, ← Nat.add_mul, Nat.sub_add_cancel (by omega)]
    have hbitrate : base.tmmbr.toNat * 1000 * (4294967296 - 8 * base.packetOh.toNat) +
        base.tmmbr.toNat * 1000 * (8 * base.packetOh.toNat) = base.tmmbr.toNat * 1000 * 4294967296 := by
      rw [← Nat.mul_add, Nat.sub_add_cancel (by omega)]
    omega
  rw [place, hle]
  by_cases hpush : 8 * base.packetOh.toNat < base.tmmbr.toNat
  · rw [if_pos hpush]
    simp [hlt.2 hpush]
  · rw [if_neg hpush]
    simp [mt hlt.1 hpush]

/-- The selected tuples bound what is heard. -/
theorem Progress.isBoundingSet_iff (h : Progress candidates base [] selected) :
    IsBoundingSet candidates (selected.map Selected.tuple).reverse ↔ HeardBound candidates := by
  have hmem : ∀ c, c ∈ (selected.map Selected.tuple).reverse ↔ ∃ s ∈ selected, s.tuple = c := by simp
  constructor
  · intro hset bitrate packetRate hpos hpos' hall
    refine (hset.bounds bitrate packetRate hpos hpos').2 fun c hc => ?_
    obtain ⟨s, hs, rfl⟩ := (hmem c).1 hc
    exact hall s.tuple (h.heard s hs).1
  · intro hheard
    have hsubset : (selected.map Selected.tuple).reverse ⊆ candidates := by
      intro c hc
      obtain ⟨s, hs, rfl⟩ := (hmem c).1 hc
      exact (heard_iff.1 (h.heard s hs).1).1.mem
    refine ⟨?_, ?_, hsubset, ?_⟩
    · obtain ⟨s, hs, -⟩ := h.stacked.base_mem
      exact List.ne_nil_of_mem ((hmem s.tuple).2 ⟨s, hs, rfl⟩)
    · rw [List.nodup_reverse]
      exact h.stacked.nodup
    · intro bitrate packetRate hpos hpos'
      refine ⟨fun hall c hc => hall c (hsubset hc), fun hall => hheard bitrate packetRate hpos hpos' fun c hc => ?_⟩
      refine h.bounds bitrate packetRate hpos (fun s hs => hall s.tuple ((hmem s.tuple).2 ⟨s, hs, rfl⟩)) c hc ?_
      exact fun d hd => absurd hd (by simp)

end Loop

section Result
variable {candidates : List SetElement}

/-- One tuple is all there is. -/
theorem separated_singleton (a : SetElement) : Separated [a] a [] := by
  refine ⟨⟨List.mem_cons_self, ?_, ?_⟩, List.pairwise_singleton _ a, by simp, ?_⟩
  · simp
  · simp
  · intro c hc hlt
    obtain rfl : c = a := by simpa using hc
    exact absurd hlt (UInt32.lt_irrefl _)

/-- The tuples, then nothing. -/
theorem tuples_padded (hpos : ∀ c ∈ candidates, 0 < c.tmmbr) (n : Nat) :
    tuples (candidates ++ List.replicate n cleared) = candidates := by
  have hnone : (List.replicate n cleared).filter (fun c => decide (0 < c.tmmbr)) = [] := by
    rw [List.filter_eq_nil_iff]
    intro c hc
    rw [(List.mem_replicate.1 hc).2]
    simpa using cleared_tmmbr
  rw [tuples, List.filter_append, hnone, List.append_nil, List.filter_eq_self]
  simpa using hpos

theorem gapped_padded (hvalid : ∀ c ∈ candidates, c.Valid) (n : Nat) :
    Gapped (candidates ++ List.replicate n cleared) := by
  intro c hc
  rcases List.mem_append.1 hc with hc | hc
  · exact Or.inr ⟨UInt32.lt_iff_toNat_lt.2 (hvalid c hc).bitrate.1, UInt32.lt_iff_toNat_lt.2 (hvalid c hc).overhead.1⟩
  · exact Or.inl (List.mem_replicate.1 hc).2

/-- Nothing is steeper than the lowest bitrate. -/
theorem Separated.stale_iff {base : SetElement} {steeper : List SetElement} (h : Separated candidates base steeper) :
    Stale candidates ↔ steeper = [] ∧ ¬ (candidates.map SetElement.packetOh).Nodup ∧
      8 * base.packetOh.toNat < base.tmmbr.toNat := by
  have hnil : steeper = [] ↔ ∀ c ∈ candidates, c.packetOh ≤ base.packetOh := by
    constructor
    · intro hnil c hc
      refine UInt32.not_lt.1 fun hlt => ?_
      obtain ⟨e, he, -⟩ := h.covers c hc hlt
      rw [hnil] at he
      cases he
    · intro hall
      refine List.eq_nil_iff_forall_not_mem.2 fun c hc => ?_
      exact UInt32.not_lt.2 (hall c (h.mem c hc)) ((List.pairwise_cons.1 h.order).1 c hc)
  constructor
  · rintro ⟨a, ha, hall, hsame, hlarge⟩
    have hbitrate : a.tmmbr = base.tmmbr :=
      UInt32.le_antisymm (ha.bitrate base h.lowest.mem) (h.lowest.bitrate a ha.mem)
    have hoh : a.packetOh = base.packetOh :=
      UInt32.le_antisymm (h.lowest.overhead a ha.mem hbitrate) (ha.overhead base h.lowest.mem hbitrate.symm)
    rw [hoh] at hall hlarge
    rw [hbitrate] at hlarge
    exact ⟨hnil.2 hall, hsame, hlarge⟩
  · rintro ⟨hempty, hsame, hlarge⟩
    exact ⟨base, h.lowest, hnil.1 hempty, hsame, hlarge⟩

/-- **The steps together.** Either the loop ends with its list, or it places the tuple that is all zeros. -/
theorem boundingSet_spec (hvalid : ∀ c ∈ candidates, c.Valid) (hne : candidates ≠ []) (n : Nat) :
    ∃ set, boundingSet candidates.length (candidates ++ List.replicate n cleared) = some set ∧
      (Stale candidates ∧ cleared ∈ set ∨ ¬ Stale candidates ∧
        ∃ base selected, Progress candidates base [] selected ∧ set = (selected.map Selected.tuple).reverse) := by
  have hpos : ∀ c ∈ candidates, 0 < c.tmmbr := fun c hc => UInt32.lt_iff_toNat_lt.2 (hvalid c hc).bitrate.1
  have htuples := tuples_padded hpos n
  by_cases hone : candidates.length = 1
  · obtain ⟨a, rfl⟩ := List.length_eq_one_iff.1 hone
    have hsep := separated_singleton a
    refine ⟨[a], ?_, Or.inr ⟨?_, a, _, hsep.progress, rfl⟩⟩
    · rw [boundingSet, if_pos hone]
      exact congrArg some htuples
    · rw [hsep.stale_iff]
      simp
  · have hspec := candidates_spec (gapped_padded hvalid n) (by rw [htuples]; exact hne)
      (BubbleSort.sort_perm (fun c => c.packetOh.toNat) (candidates ++ List.replicate n cleared))
      (BubbleSort.sort_sorted (fun c => c.packetOh.toNat) (candidates ++ List.replicate n cleared))
    rw [boundingSet, if_neg hone]
    dsimp only
    rw [htuples] at hspec
    generalize keepLowestAll _ = kept at hspec ⊢
    dsimp only at hspec
    generalize entry kept (minIndexTmmbr kept) = base at hspec ⊢
    generalize kept.set (minIndexTmmbr kept) cleared = rest at hspec ⊢
    generalize candidates.length - 1 - rest.countP (lower base.packetOh) = count at hspec ⊢
    generalize discardLower rest base.packetOh = left at hspec ⊢
    obtain ⟨hsep, hcount, hnodup⟩ := hspec
    have hbase := hvalid base hsep.lowest.mem
    have hstart := hsep.progress
    have hstale := hsep.stale_iff
    generalize hl : tuples left = steeper at hsep hcount hnodup hstart hstale
    cases steeper with
    | nil =>
      cases count with
      | zero =>
        refine ⟨_, rfl, Or.inr ⟨fun h => ?_, base, _, hstart, rfl⟩⟩
        exact (hstale.1 h).2.1 ((hnodup rfl).1 rfl)
      | succ count =>
        -- Nothing is left, but candidates are counted.
        have hsame : ¬ (candidates.map SetElement.packetOh).Nodup := fun h => absurd ((hnodup rfl).2 h) (by simp)
        have hplace := place_cleared hbase
        by_cases hlarge : 8 * base.packetOh.toNat < base.tmmbr.toNat
        · rw [if_pos hlarge] at hplace
          rw [rounds_nil hl hplace]
          exact ⟨_, rfl, Or.inl ⟨hstale.2 ⟨rfl, hsame, hlarge⟩, by simp⟩⟩
        · rw [if_neg hlarge] at hplace
          rw [rounds_nil hl hplace]
          exact ⟨_, rfl, Or.inr ⟨fun h => hlarge (hstale.1 h).2.2, base, _, hstart, rfl⟩⟩
    | cons c steeper =>
      rw [← hl] at hstart hcount
      have hall : tuples left <:+ c :: steeper := ⟨[], hl⟩
      obtain ⟨selected, hrounds, hend⟩ := hstart.rounds hsep hvalid hall hcount cleared (by rw [hl]; simp)
      refine ⟨_, by rw [hrounds]; rfl, Or.inr ⟨fun h => ?_, base, selected, hend, rfl⟩⟩
      exact absurd (hstale.1 h).1 (by simp)

theorem exists_separated (hvalid : ∀ c ∈ candidates, c.Valid) (hne : candidates ≠ []) :
    ∃ base steeper, Separated candidates base steeper := by
  have hpos : ∀ c ∈ candidates, 0 < c.tmmbr := fun c hc => UInt32.lt_iff_toNat_lt.2 (hvalid c hc).bitrate.1
  have htuples := tuples_padded hpos 0
  have hspec := candidates_spec (gapped_padded hvalid 0) (by rw [htuples]; exact hne)
    (BubbleSort.sort_perm (fun c => c.packetOh.toNat) (candidates ++ List.replicate 0 cleared))
    (BubbleSort.sort_sorted (fun c => c.packetOh.toNat) (candidates ++ List.replicate 0 cleared))
  rw [htuples] at hspec
  exact ⟨_, _, hspec.1⟩

theorem allows_of_le {c d : SetElement} (hoh : d.packetOh ≤ c.packetOh) (hbitrate : c.tmmbr ≤ d.tmmbr)
    {bitrate packetRate : ℝ} (hpos : 0 ≤ packetRate) (h : c.Allows bitrate packetRate) :
      d.Allows bitrate packetRate := by
  have hoh' : (d.packetOh.toNat : ℝ) ≤ c.packetOh.toNat := by exact_mod_cast UInt32.le_iff_toNat_le.1 hoh
  have hbitrate' : (c.tmmbr.toNat : ℝ) ≤ d.tmmbr.toNat := by exact_mod_cast UInt32.le_iff_toNat_le.1 hbitrate
  unfold SetElement.Allows at h ⊢
  linarith [mul_le_mul_of_nonneg_right hoh' hpos]

/-- Nothing is passed over when no bitrate is lower than that of a smaller overhead. -/
theorem heardBound_of_rising (hvalid : ∀ c ∈ candidates, c.Valid) (hne : candidates ≠ [])
    (hrising : ∀ c d, Standing candidates c → Standing candidates d → c.packetOh < d.packetOh → c.tmmbr ≤ d.tmmbr) :
    HeardBound candidates := by
  obtain ⟨base, steeper, hsep⟩ := exists_separated hvalid hne
  have hheard : ∀ c ∈ base :: steeper, Heard candidates c := fun c hc =>
    heard_iff.2 ⟨hsep.standing hc, fun u hu huh _ => hrising u c (heard_iff.1 huh).1 (hsep.standing hc) hu⟩
  intro bitrate packetRate _ hpos hall c hc
  by_cases hlt : base.packetOh < c.packetOh
  · obtain ⟨e, he, hoh, hle⟩ := hsep.covers c hc hlt
    exact allows_of_le (UInt32.le_of_eq hoh.symm) hle hpos (hall e (hheard e (List.mem_cons_of_mem base he)))
  · exact allows_of_le (UInt32.not_lt.1 hlt) (hsep.lowest.bitrate c hc) hpos
      (hall base (hheard base List.mem_cons_self))

/-- `FindTMMBRBoundingSet` returns a bounding set if and only if there is a tuple, the tuple that is all zeros is not
selected, and what is passed over makes no difference. -/
theorem findTMMBRBoundingSet_exact {candidateSet : List SetElement}
    (hvalid : ∀ c ∈ candidateSet, 0 < c.tmmbr → c.Valid) :
    (∃ set : List SetElement, findTMMBRBoundingSet candidateSet = some ((set.length : Int), set) ∧
      IsBoundingSet (tuples candidateSet) set) ↔
    tuples candidateSet ≠ [] ∧ ¬ Stale (tuples candidateSet) ∧ HeardBound (tuples candidateSet) := by
  have hvalid' : ∀ c ∈ tuples candidateSet, c.Valid := fun c hc => hvalid c (mem_tuples.1 hc).1 (mem_tuples.1 hc).2
  have hlength : (tuples candidateSet).length ≤ candidateSet.length := List.length_filter_le _ _
  by_cases hne : tuples candidateSet = []
  · -- There is no tuple to return.
    refine ⟨fun ⟨set, hfind, hset⟩ => ?_, fun h => absurd hne h.1⟩
    rw [findTMMBRBoundingSet, hne] at hfind
    obtain ⟨c, tail, hc⟩ := List.exists_cons_of_ne_nil hset.nonempty
    have hmem := hset.subset (a := c) (by rw [hc]; exact List.mem_cons_self)
    rw [hne] at hmem
    cases hmem
  · obtain ⟨set, hbounding, hset⟩ := boundingSet_spec hvalid' hne (candidateSet.length - (tuples candidateSet).length)
    have hfind : findTMMBRBoundingSet candidateSet = some (if set.length < 1 ∨ candidateSet.length < set.length then
        (-1, []) else ((set.length : Int), set)) := by
      simp only [findTMMBRBoundingSet, List.length_pos_iff.2 hne, if_true, hbounding, Option.map_some]
    have hsame : ∀ {found : List SetElement}, findTMMBRBoundingSet candidateSet = some ((found.length : Int), found) →
        found ≠ [] → set = found := by
      intro found hfound hfne
      rw [hfind, Option.some.injEq] at hfound
      split at hfound
      · exact absurd (Prod.ext_iff.1 hfound).2.symm hfne
      · exact (Prod.ext_iff.1 hfound).2
    rcases hset with ⟨hstale, hcleared⟩ | ⟨hstale, base, selected, hprogress, hset⟩
    · refine ⟨fun ⟨found, hfound, hbounds⟩ => ?_, fun h => absurd hstale h.2.1⟩
      rw [← hsame hfound hbounds.nonempty] at hbounds
      exact absurd (mem_tuples.1 (hbounds.subset hcleared)).2 cleared_tmmbr
    · have hiff := hprogress.isBoundingSet_iff
      rw [← hset] at hiff
      constructor
      · rintro ⟨found, hfound, hbounds⟩
        rw [← hsame hfound hbounds.nonempty] at hbounds
        exact ⟨hne, hstale, hiff.1 hbounds⟩
      · rintro ⟨-, -, hheard⟩
        have hbounds := hiff.2 hheard
        have hle := (hbounds.nodup.subperm hbounds.subset).length_le
        have hpos := List.length_pos_iff.2 hbounds.nonempty
        refine ⟨set, ?_, hbounds⟩
        rw [hfind, if_neg (by omega)]

/-- Two tuples, none of them passed over. -/
theorem findTMMBRBoundingSet_exact_two :
    (∃ set : List SetElement, findTMMBRBoundingSet [⟨150, 20, 2⟩, ⟨100, 10, 1⟩] = some ((set.length : Int), set) ∧
      IsBoundingSet (tuples [⟨150, 20, 2⟩, ⟨100, 10, 1⟩]) set) := by
  have hvalid : ∀ c ∈ ([⟨150, 20, 2⟩, ⟨100, 10, 1⟩] : List SetElement), 0 < c.tmmbr → c.Valid := by
    simp only [List.forall_mem_cons]
    exact ⟨fun _ => ⟨by decide, by decide⟩, fun _ => ⟨by decide, by decide⟩, by simp⟩
  have hlowest : LowestBitrate (tuples [⟨150, 20, 2⟩, ⟨100, 10, 1⟩]) ⟨100, 10, 1⟩ := ⟨by decide, by decide, by decide⟩
  refine (findTMMBRBoundingSet_exact hvalid).2 ⟨by decide, ?_, ?_⟩
  · rintro ⟨a, -, -, hsame, -⟩
    exact hsame (by decide)
  · refine heardBound_of_rising (fun c hc => hvalid c (mem_tuples.1 hc).1 (mem_tuples.1 hc).2) (by decide) ?_
    intro c d hc hd
    have hall : ∀ c ∈ tuples [⟨150, 20, 2⟩, ⟨100, 10, 1⟩], ∀ d ∈ tuples [⟨150, 20, 2⟩, ⟨100, 10, 1⟩],
        c.packetOh < d.packetOh → c.tmmbr ≤ d.tmmbr := by decide
    exact hall c hc.mem d hd.mem

/-- The third tuple is passed over; and of two equal tuples one is cleared but counted. -/
theorem not_findTMMBRBoundingSet_bounding :
    (¬ ∃ set : List SetElement,
      findTMMBRBoundingSet [⟨100, 10, 1⟩, ⟨150, 20, 2⟩, ⟨120, 30, 3⟩] = some ((set.length : Int), set) ∧
        IsBoundingSet [⟨100, 10, 1⟩, ⟨150, 20, 2⟩, ⟨120, 30, 3⟩] set) ∧
    ¬ ∃ set : List SetElement, findTMMBRBoundingSet [⟨1000, 40, 1⟩, ⟨1000, 40, 2⟩] = some ((set.length : Int), set) ∧
      IsBoundingSet [⟨1000, 40, 1⟩, ⟨1000, 40, 2⟩] set := by
  constructor
  · rintro ⟨set, hfind, hset⟩
    have heq : findTMMBRBoundingSet [⟨100, 10, 1⟩, ⟨150, 20, 2⟩, ⟨120, 30, 3⟩] =
        some (2, [⟨100, 10, 1⟩, ⟨150, 20, 2⟩]) := by decide +kernel
    obtain ⟨-, rfl⟩ := Prod.mk.inj (Option.some.inj (heq.symm.trans hfind))
    -- At 600 packets a second nothing is left for the third.
    have hallows : ∀ c ∈ ([⟨100, 10, 1⟩, ⟨150, 20, 2⟩] : List SetElement), c.Allows 0 (3 / 5) := by
      simp [SetElement.Allows]
      norm_num
    have hpoint := (hset.bounds 0 (3 / 5) (le_refl 0) (by norm_num)).2 hallows ⟨120, 30, 3⟩ (by simp)
    simp [SetElement.Allows] at hpoint
    norm_num at hpoint
  · rintro ⟨set, hfind, hset⟩
    have heq : findTMMBRBoundingSet [⟨1000, 40, 1⟩, ⟨1000, 40, 2⟩] =
      some (2, [⟨1000, 40, 1⟩, cleared]) := by decide +kernel
    obtain ⟨-, rfl⟩ := Prod.mk.inj (Option.some.inj (heq.symm.trans hfind))
    exact absurd (hset.subset (a := cleared) (by simp)) (by decide)

end Result

end WebRtc.Rtcp
