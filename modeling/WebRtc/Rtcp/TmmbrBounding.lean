import WebRtc.Rtcp.TmmbrCandidates
import WebRtc.Rtcp.TmmbrSelected

/-!
# What the bounding set bounds

The candidates come to the selected list in the order of their overheads. One with a lower bitrate than the last
tuple selected is passed over, because the difference of the two wraps; `Heard` says which ones are not, without
the list. The tuples selected allow what the ones that are heard allow (`Progress`).
-/

namespace WebRtc.Rtcp

open Lines

/-- Some of the candidates, that allow what all of them allow. -/
structure IsBoundingSet (candidates set : List SetElement) : Prop where
  nonempty : set ≠ []
  nodup : set.Nodup
  subset : set ⊆ candidates
  bounds : ∀ bitrate packetRate : ℝ, 0 ≤ bitrate → 0 ≤ packetRate →
    ((∀ c ∈ candidates, c.Allows bitrate packetRate) ↔ ∀ c ∈ set, c.Allows bitrate packetRate)

/-- The lowest bitrate of its overhead, and no lower overhead than that of the lowest bitrate of all. -/
structure Standing (candidates : List SetElement) (c : SetElement) : Prop where
  mem : c ∈ candidates
  bitrate : ∀ d ∈ candidates, d.packetOh = c.packetOh → c.tmmbr ≤ d.tmmbr
  overhead : ∀ d, LowestBitrate candidates d → d.packetOh ≤ c.packetOh

/-- No tuple that is heard before, and leaves out something that the ones heard before it allow, has a
higher bitrate. -/
def Heard (candidates : List SetElement) (c : SetElement) : Prop :=
  Standing candidates c ∧ ∀ u, ∀ _ : u.packetOh < c.packetOh, Heard candidates u →
    (∃ bitrate packetRate : ℝ, 0 ≤ bitrate ∧ 0 ≤ packetRate ∧
      (∀ v, ∀ _ : v.packetOh < u.packetOh, Heard candidates v → v.Allows bitrate packetRate) ∧
      ¬ u.Allows bitrate packetRate) → u.tmmbr ≤ c.tmmbr
termination_by c.packetOh.toNat
decreasing_by
  · exact UInt32.lt_iff_toNat_lt.1 ‹_›
  · exact UInt32.lt_iff_toNat_lt.1 (UInt32.lt_trans ‹_› ‹_›)

/-- The tuple leaves out something that the ones heard before it allow. -/
def Cuts (candidates : List SetElement) (u : SetElement) : Prop :=
  ∃ bitrate packetRate : ℝ, 0 ≤ bitrate ∧ 0 ≤ packetRate ∧
    (∀ v, v.packetOh < u.packetOh → Heard candidates v → v.Allows bitrate packetRate) ∧ ¬ u.Allows bitrate packetRate

theorem heard_iff {candidates : List SetElement} {c : SetElement} : Heard candidates c ↔
    Standing candidates c ∧ ∀ u, u.packetOh < c.packetOh → Heard candidates u → Cuts candidates u →
      u.tmmbr ≤ c.tmmbr := by
  rw [Heard]
  rfl

section Standing
variable {candidates steeper : List SetElement} {base c u : SetElement}

theorem Separated.standing (h : Separated candidates base steeper) (hc : c ∈ base :: steeper) :
    Standing candidates c := by
  obtain ⟨hbefore, horder⟩ := List.pairwise_cons.1 h.order
  rcases List.mem_cons.1 hc with rfl | hc
  · exact ⟨h.lowest.mem, fun d hd _ => h.lowest.bitrate d hd,
      fun d hd => h.lowest.overhead d hd.mem
        (UInt32.le_antisymm (hd.bitrate c h.lowest.mem) (h.lowest.bitrate d hd.mem))⟩
  · refine ⟨h.mem c hc, ?_, ?_⟩
    · intro d hd hsame
      obtain ⟨e, he, hoh, hle⟩ := h.covers d hd (hsame ▸ hbefore c hc)
      -- There is one tuple of every overhead.
      rw [← List.inj_on_of_nodup_map (nodup_packetOh horder) he hc (hoh.trans hsame)]
      exact hle
    · intro d hd
      have hle := h.lowest.overhead d hd.mem
        (UInt32.le_antisymm (hd.bitrate base h.lowest.mem) (h.lowest.bitrate d hd.mem))
      exact UInt32.le_trans hle (UInt32.le_of_lt (hbefore c hc))

theorem Separated.twin (h : Separated candidates base steeper) (hu : Standing candidates u) :
    ∃ c ∈ base :: steeper, c.packetOh = u.packetOh ∧ c.tmmbr = u.tmmbr := by
  rcases UInt32.lt_or_eq_of_le (hu.overhead base h.lowest) with hlt | heq
  · obtain ⟨c, hc, hoh, hle⟩ := h.covers u hu.mem hlt
    exact ⟨c, List.mem_cons_of_mem base hc, hoh, UInt32.le_antisymm hle (hu.bitrate c (h.mem c hc) hoh)⟩
  · exact ⟨base, List.mem_cons_self, heq, UInt32.le_antisymm (h.lowest.bitrate u hu.mem)
      (hu.bitrate base h.lowest.mem heq)⟩

/-- Only the numbers matter. -/
theorem Heard.congr (hu : Heard candidates u) (hc : c ∈ candidates) (hoh : c.packetOh = u.packetOh)
    (hbitrate : c.tmmbr = u.tmmbr) : Heard candidates c := by
  obtain ⟨⟨-, hlowest, hover⟩, hlower⟩ := heard_iff.1 hu
  refine heard_iff.2 ⟨⟨hc, ?_, ?_⟩, ?_⟩
  · rw [hoh, hbitrate]
    exact hlowest
  · rw [hoh]
    exact hover
  · rw [hoh, hbitrate]
    exact hlower

theorem allows_congr {bitrate packetRate : ℝ} (hoh : c.packetOh = u.packetOh) (hbitrate : c.tmmbr = u.tmmbr) :
    c.Allows bitrate packetRate ↔ u.Allows bitrate packetRate := by
  rw [SetElement.Allows, SetElement.Allows, hoh, hbitrate]

theorem Cuts.congr (hu : Cuts candidates u) (hoh : c.packetOh = u.packetOh) (hbitrate : c.tmmbr = u.tmmbr) :
    Cuts candidates c := by
  obtain ⟨bitrate, packetRate, hpos, hpos', hall, hnot⟩ := hu
  refine ⟨bitrate, packetRate, hpos, hpos', ?_, ?_⟩
  · rw [hoh]
    exact hall
  · rwa [allows_congr hoh hbitrate]

end Standing

/-! ## The loop -/

/-- The candidates that are left come after the tuple. -/
def Behind (left : List SetElement) (u : SetElement) : Prop := ∀ c ∈ left, u.packetOh < c.packetOh

/-- The selected list before the candidates that are left. -/
structure Progress (candidates : List SetElement) (base : SetElement) (left : List SetElement)
    (selected : List Selected) : Prop where
  stacked : Stacked base selected
  heard : ∀ s ∈ selected, Heard candidates s.tuple ∧ Cuts candidates s.tuple ∧ Behind left s.tuple
  bounds : ∀ bitrate packetRate, 0 ≤ bitrate → (∀ s ∈ selected, s.tuple.Allows bitrate packetRate) →
    ∀ u, Heard candidates u → Behind left u → u.Allows bitrate packetRate
  highest : ∀ s ∈ selected.head?, ∀ u, Heard candidates u → Cuts candidates u → Behind left u → u.tmmbr ≤ s.tuple.tmmbr

section Loop
variable {candidates steeper left : List SetElement} {base c u : SetElement} {selected : List Selected}

/-- A tuple before the rest of the candidates is one before all of them or is the first. -/
theorem Separated.behind (h : Separated candidates base steeper) {done : List SetElement}
    (hsplit : base :: steeper = done ++ c :: left) (hu : Standing candidates u) (hbehind : Behind left u) :
    Behind (c :: left) u ∨ c.packetOh = u.packetOh ∧ c.tmmbr = u.tmmbr := by
  have horder := h.order
  rw [hsplit] at horder
  obtain ⟨d, hd, hoh, hbitrate⟩ := h.twin hu
  rw [hsplit] at hd
  rcases List.mem_append.1 hd with hd | hd
  · refine Or.inl fun e he => ?_
    rw [← hoh]
    exact (List.pairwise_append.1 horder).2.2 d hd e he
  · rcases List.mem_cons.1 hd with rfl | hd
    · exact Or.inr ⟨hoh, hbitrate⟩
    · have hlt := hbehind d hd
      rw [hoh] at hlt
      exact absurd hlt (UInt32.lt_irrefl _)

/-- What tuples heard before it do not leave room for is not a cut. -/
theorem Cuts.not_bounded (h : Cuts candidates c) (hheard : ∀ s ∈ selected, Heard candidates s.tuple)
    (hbefore : ∀ s ∈ selected, s.tuple.packetOh < c.packetOh) :
    ¬ ∀ bitrate packetRate, 0 ≤ bitrate → (∀ s ∈ selected, s.tuple.Allows bitrate packetRate) →
      c.Allows bitrate packetRate := by
  obtain ⟨bitrate, packetRate, hpos, -, hall, hnot⟩ := h
  intro hbounded
  exact hnot (hbounded bitrate packetRate hpos fun s hs => hall s.tuple (hbefore s hs) (hheard s hs))

/-- What a candidate is when it comes. -/
structure Next (candidates : List SetElement) (base : SetElement) (left : List SetElement) (c : SetElement) : Prop where
  valid : ∀ d ∈ candidates, d.Valid
  standing : Standing candidates c
  bitrate : base.tmmbr < c.tmmbr
  behind : Behind left c
  new : ∀ u, Heard candidates u → Behind left u → Behind (c :: left) u ∨ c.packetOh = u.packetOh ∧ c.tmmbr = u.tmmbr

theorem Separated.next (h : Separated candidates base steeper) (hvalid : ∀ d ∈ candidates, d.Valid)
    (hsuffix : c :: left <:+ steeper) : Next candidates base left c := by
  have hc : c ∈ steeper := hsuffix.subset List.mem_cons_self
  obtain ⟨done, hsplit⟩ := hsuffix
  have hsplit' : base :: steeper = (base :: done) ++ c :: left := by rw [← hsplit, List.cons_append]
  have hstanding : Standing candidates c := h.standing (List.mem_cons_of_mem base hc)
  have hbefore := (List.pairwise_cons.1 h.order).1 c hc
  refine ⟨hvalid, hstanding, ?_, ?_, fun u hu hul => h.behind hsplit' (heard_iff.1 hu).1 hul⟩
  · refine UInt32.lt_of_le_of_ne (h.lowest.bitrate c hstanding.mem) fun heq => ?_
    exact UInt32.not_lt.2 (h.lowest.overhead c hstanding.mem heq.symm) hbefore
  · have horder := h.order
    rw [hsplit'] at horder
    exact (List.pairwise_cons.1 (List.pairwise_append.1 horder).2.1).1

section Step
variable {s : Selected}

theorem Next.before (h : Next candidates base left c) (hu : u.packetOh < c.packetOh) : Behind (c :: left) u :=
  List.forall_mem_cons.2 ⟨hu, fun d hd => UInt32.lt_trans hu (h.behind d hd)⟩

theorem Progress.valid (h : Progress candidates base left selected) (hvalid : ∀ d ∈ candidates, d.Valid) :
    ∀ s ∈ selected, s.tuple.Valid := fun s hs => hvalid _ (heard_iff.1 (h.heard s hs).1).1.mem

/-- A candidate that is passed over. -/
theorem Progress.lower (h : Progress candidates base (c :: left) (s :: selected)) (hnext : Next candidates base left c)
    (hlower : c.tmmbr < s.tuple.tmmbr) :
    place c (s :: selected) = some (s :: selected) ∧ Progress candidates base left (s :: selected) := by
  obtain ⟨hheard, hcuts, hbehind⟩ := h.heard s List.mem_cons_self
  have hoh : s.tuple.packetOh < c.packetOh := hbehind c List.mem_cons_self
  refine ⟨place_lower h.stacked (h.valid hnext.valid) (hnext.valid c hnext.standing.mem) (UInt32.lt_iff_toNat_lt.1 hoh)
    (UInt32.lt_iff_toNat_lt.1 hlower), ?_⟩
  -- Nothing that is heard is new.
  have hnew : ∀ u, Heard candidates u → Behind left u → Behind (c :: left) u := by
    intro u hu hul
    rcases hnext.new u hu hul with hul | ⟨hsame, hbitrate⟩
    · exact hul
    · have hle := (heard_iff.1 (hu.congr hnext.standing.mem hsame hbitrate)).2 s.tuple hoh hheard hcuts
      exact absurd hlower (UInt32.not_lt.2 hle)
  refine ⟨h.stacked, ?_, ?_, ?_⟩
  · intro t ht
    obtain ⟨hheard, hcuts, hbehind⟩ := h.heard t ht
    exact ⟨hheard, hcuts, fun d hd => hbehind d (List.mem_cons_of_mem c hd)⟩
  · intro bitrate packetRate hpos hall u hu hul
    exact h.bounds bitrate packetRate hpos hall u hu (hnew u hu hul)
  · intro t ht u hu hcut hul
    exact h.highest t ht u hu hcut (hnew u hu hul)

/-- A candidate that is heard. -/
theorem Progress.higher (h : Progress candidates base (c :: left) (s :: selected)) (hnext : Next candidates base left c)
    (hle : s.tuple.tmmbr ≤ c.tmmbr) :
    ∃ selected', place c (s :: selected) = some selected' ∧ Progress candidates base left selected' := by
  have hcv := hnext.valid c hnext.standing.mem
  have hheardc : Heard candidates c := heard_iff.2 ⟨hnext.standing, fun u hu huh hcut =>
    UInt32.le_trans (h.highest s rfl u huh hcut (hnext.before hu)) hle⟩
  have hoh : ∀ t ∈ s :: selected, t.tuple.packetOh < c.packetOh := fun t ht => (h.heard t ht).2.2 c List.mem_cons_self
  have hcs : Steeper c s.tuple := ⟨UInt32.lt_iff_toNat_lt.1 (hoh s List.mem_cons_self), UInt32.le_iff_toNat_le.1 hle⟩
  have hsteep : ∀ t ∈ s :: selected, Steeper c t.tuple :=
    List.forall_mem_cons.2 ⟨hcs, fun t ht => hcs.trans (h.stacked.steeper ht)⟩
  obtain ⟨selected', hplace, hstacked, hshape, hregion⟩ :=
    place_spec h.stacked (h.valid hnext.valid) hcv hsteep (UInt32.lt_iff_toNat_lt.1 hnext.bitrate)
  have hold : ∀ t ∈ s :: selected, Heard candidates t.tuple ∧ Cuts candidates t.tuple ∧ Behind left t.tuple := by
    intro t ht
    obtain ⟨hheard, hcuts, hbehind⟩ := h.heard t ht
    exact ⟨hheard, hcuts, fun d hd => hbehind d (List.mem_cons_of_mem c hd)⟩
  have hbounds : ∀ bitrate packetRate, 0 ≤ bitrate → (∀ t ∈ selected', t.tuple.Allows bitrate packetRate) →
      ∀ u, Heard candidates u → Behind left u → u.Allows bitrate packetRate := by
    intro bitrate packetRate hpos hall u hu hul
    obtain ⟨hsel, hcand⟩ := hregion bitrate packetRate hpos hall
    rcases hnext.new u hu hul with hul | ⟨hsame, hbitrate⟩
    · exact h.bounds bitrate packetRate hpos hsel u hu hul
    · exact (allows_congr hsame hbitrate).1 hcand
  refine ⟨selected', hplace, hstacked, ?_, hbounds, ?_⟩
  · intro t ht
    rcases hshape with hsuffix | ⟨t', rest, rfl, ht', hsuffix, htouch⟩
    · exact hold t (hsuffix.subset ht)
    · rcases List.mem_cons.1 ht with rfl | ht
      · -- The candidate leaves out what is behind the crossing.
        rw [ht']
        obtain ⟨x, y, hx, hy, hlines, hnot⟩ := htouch.outside hcv.slope_pos fun m hm => by
          obtain ⟨t, ht, rfl⟩ := List.mem_map.1 hm
          exact (hsteep t ht).slope
        refine ⟨hheardc, ⟨y, x, hy, hx, ?_, hnot⟩, hnext.behind⟩
        intro v hv hheard
        exact h.bounds y x hy (fun t ht => hlines _ (List.mem_map_of_mem ht)) v hheard (hnext.before hv)
      · exact hold t (hsuffix.subset ht)
  · intro t ht u hu hcut hul
    rcases hshape with hsuffix | ⟨t', rest, rfl, ht', -, -⟩
    · have hall : ∀ t ∈ selected', Heard candidates t.tuple := fun t ht => (hold t (hsuffix.subset ht)).1
      -- Neither the last tuple nor the candidate is left out for nothing.
      rcases hnext.new u hu hul with hul | ⟨hsame, hbitrate⟩
      · rcases List.suffix_cons_iff.1 hsuffix with rfl | hpopped
        · exact h.highest t ht u hu hcut hul
        · refine absurd ?_ ((h.heard s List.mem_cons_self).2.1.not_bounded hall fun t ht =>
            UInt32.lt_iff_toNat_lt.2 (h.stacked.steeper (hpopped.subset ht)).overhead)
          exact fun bitrate packetRate hpos hsel => (hregion bitrate packetRate hpos hsel).1 s List.mem_cons_self
      · refine absurd ?_ ((hcut.congr hsame hbitrate).not_bounded hall fun t ht => hoh t (hsuffix.subset ht))
        exact fun bitrate packetRate hpos hsel => (hregion bitrate packetRate hpos hsel).2
    · obtain rfl : t' = t := by simpa using ht
      rw [ht']
      rcases hnext.new u hu hul with hul | ⟨-, hbitrate⟩
      · exact UInt32.le_trans (h.highest s rfl u hu hcut hul) hle
      · exact UInt32.le_of_eq hbitrate.symm

theorem Progress.step (h : Progress candidates base (c :: left) selected) (hnext : Next candidates base left c) :
    ∃ selected', place c selected = some selected' ∧ Progress candidates base left selected' := by
  cases selected with
  | nil => exact h.stacked.elim
  | cons s selected =>
    by_cases hlower : c.tmmbr < s.tuple.tmmbr
    · exact ⟨s :: selected, h.lower hnext hlower⟩
    · exact h.higher hnext (UInt32.not_lt.1 hlower)

end Step

end Loop

end WebRtc.Rtcp
