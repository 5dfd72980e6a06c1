import Mathlib.Data.List.Chain
import WebRtc.Common.Numbers
import WebRtc.Rtp.LossStats

/-!
# The loss counts are the lengths of the runs

A sequence of lost packets is a list of integers, the code sees their low 16 bits. Its runs are those of
`Runs.runs` under `follows`. The two sets hold what is not yet counted, the packets of one lap in the
buffer and those of the next one in the wrapped buffer (`Holds`), as long as no packet of the next lap
gets into the buffer (`InOrder`). The threshold does not rule that out: it is looked at only after a
packet is inserted, and a packet can be up to `2^15 - 1` ahead of the last one (`not_counted`).
-/

namespace WebRtc.Rtp

open Machine Runs

namespace PacketLossStats

def follows (a b : Int) : Bool := b == a + 1

/-- The sequence number of a lost packet. -/
def seq16 (u : Int) : Nat := (wrap16 u).toNat

/-- The runs of length one, the longer runs, and the packets in these. -/
def trueCounts (lost : List Int) : LossCounts where
  single := ((runs follows lost).filter (· = 1)).length
  multipleEvents := ((runs follows lost).filter (1 < ·)).length
  multiplePackets := ((runs follows lost).filter (1 < ·)).sum

/-- The packets come in order, each less than half of the numbers ahead of the last. -/
def Increasing (lost : List Int) : Prop := lost.IsChain fun a b => a < b ∧ b - a < 32768

/-- No more than `kBufferSize` packets in a row. -/
def ShortRuns (lost : List Int) : Prop :=
  ∀ g, g <:+: lost → g.IsChain (fun a b => b = a + 1) → g.length ≤ kBufferSize

/-- Once packets are in the wrapped buffer, the packet goes there too. -/
def InOrder (s : PacketLossStats) (u : Int) : Prop := s.wrapped = [] ∨ s.wraps (seq16 u)

def lostStep (s : PacketLossStats) (u : Int) : PacketLossStats × Option PacketLossStats := lossStep s (seq16 u)

theorem Increasing.sub {lost g : List Int} (h : Increasing lost) (hg : g <:+: lost) : Increasing g := by
  exact List.IsChain.infix h hg

/-! ## The counts of a list of integers -/

theorem foldl_close (c : LossCounts) (ns : List Nat) (h : ∀ n ∈ ns, 1 ≤ n) :
    ns.foldl LossCounts.close c = ⟨c.single + (ns.filter (· = 1)).length,
      c.multipleEvents + (ns.filter (1 < ·)).length, c.multiplePackets + (ns.filter (1 < ·)).sum⟩ := by
  induction ns generalizing c with
  | nil => rfl
  | cons n ns ih =>
    have hn : 1 ≤ n := h n List.mem_cons_self
    rw [List.foldl_cons, ih _ fun m hm => h m (List.mem_cons_of_mem n hm)]
    unfold LossCounts.close
    by_cases hone : n = 1
    · subst hone
      simp [Nat.add_assoc, Nat.add_comm 1]
    · have hlong : 1 < n := by omega
      simp [hone, hlong, Nat.add_assoc, Nat.add_comm 1]

theorem runs_pos {lost : List Int} : ∀ n ∈ runs follows lost, 1 ≤ n := by
  intro n hn
  obtain ⟨g, hg, rfl⟩ := List.mem_map.1 hn
  exact List.length_pos_iff.2 (List.ne_nil_of_mem_splitBy hg)

theorem trueCounts_eq (lost : List Int) : trueCounts lost = (runs follows lost).foldl LossCounts.close ⟨0, 0, 0⟩ := by
  rw [foldl_close _ _ runs_pos]
  simp [trueCounts]

theorem follows_eq_true {a b : Int} : follows a b = true ↔ b = a + 1 := beq_iff_eq

theorem seq16_eq (u : Int) : seq16 u = (u % 65536).toNat := wrap16_toNat u

/-- The numbers tell whether a packet is the next one. -/
theorem next_seq16 {a b : Int} (h : a < b ∧ b - a < 32768) : Next (seq16 a) (seq16 b) ↔ follows a b = true := by
  rw [Next, seq16_eq, seq16_eq, follows_eq_true]
  omega

theorem countLoop_eq_tally {last : Int} {xs : List Int} (h : Increasing (last :: xs)) {n : Nat}
    (hn : 1 ≤ n) (c : LossCounts) :
    countLoop (xs.map seq16) (seq16 last) n c = tally follows LossCounts.close xs last n c := by
  induction xs generalizing last n c with
  | nil => rw [List.map_nil, countLoop, if_pos hn, tally]
  | cons x xs ih =>
    rw [Increasing, List.isChain_cons_cons] at h
    have hnext := next_seq16 h.1
    rw [List.map_cons, countLoop, tally]
    by_cases hf : follows last x = true
    · have hx : seq16 x = (seq16 last + 1) % 65536 := hnext.2 hf
      rw [if_neg (fun hne => hne.2 hx), if_pos hf, ih h.2 (by omega)]
    · have hx : seq16 x ≠ (seq16 last + 1) % 65536 := fun hx => hf (hnext.1 hx)
      rw [if_pos ⟨hn, hx⟩, if_neg hf, ih h.2 (Nat.le_refl 1)]

/-- The loop over both sets counts the runs of the packets in them. -/
theorem countLoop_eq {xs : List Int} (hne : xs ≠ []) (h : Increasing xs) (c : LossCounts) :
    countLoop (xs.map seq16) 0 0 c = (runs follows xs).foldl LossCounts.close c := by
  cases xs with
  | nil => exact absurd rfl hne
  | cons x xs =>
    have htally := tally_eq LossCounts.close xs
      (show ([] ++ [x]).IsChain (fun a b => follows a b) from List.isChain_singleton x) c
    rw [List.map_cons, countLoop, if_neg (by omega), countLoop_eq_tally h (Nat.le_refl 1)]
    exact htally

/-! ## What the sets hold -/

/-- The packets up to `gone` are counted, those in `before` and `after` are in the sets, on two laps. -/
structure Holds (s : PacketLossStats) (lost : List Int) (lap : Int) (gone before after : List Int) : Prop where
  split : lost = gone ++ (before ++ after)
  buffer : s.buffer = before.map seq16
  wrapped : s.wrapped = after.map seq16
  historic : s.historic = (runs follows gone).foldl LossCounts.close ⟨0, 0, 0⟩
  apart : ∀ x ∈ gone.getLast?, ∀ y ∈ (before ++ after).head?, follows x y = false
  backed : before = [] → lost = []
  mem_before : ∀ x ∈ before, 65536 * lap ≤ x ∧ x < 65536 * lap + 65536
  mem_after : ∀ x ∈ after, 65536 * lap + 65536 ≤ x ∧ x < 65536 * lap + 131072

/-- **The counts of the state are those of the packets.** -/
theorem Holds.counts {s : PacketLossStats} {lost gone before after : List Int} {lap : Int}
    (h : Holds s lost lap gone before after) (hinc : Increasing lost) : s.computeLossCounts = trueCounts lost := by
  rw [trueCounts_eq, computeLossCounts]
  split
  · next hnil =>
    rw [h.buffer, List.map_eq_nil_iff] at hnil
    have hlost := h.backed hnil
    have hgone : gone = [] := (List.append_eq_nil_iff.1 (h.split.symm.trans hlost)).1
    rw [h.historic, hlost, hgone]
  · next hne =>
    have hkept : before ++ after ≠ [] := by
      intro hnil
      rw [h.buffer, (List.append_eq_nil_iff.1 hnil).1] at hne
      exact hne rfl
    have hinc' : Increasing (before ++ after) := hinc.sub ⟨gone, [], by rw [h.split, List.append_nil]⟩
    rw [h.buffer, h.wrapped, ← List.map_append, countLoop_eq hkept hinc', h.historic, ← List.foldl_append,
      ← runs_append h.apart, ← h.split]

/-! ## Pruning -/

/-- In a list of packets in order, next numbers are next packets. -/
theorem isChain_follows {g : List Int} (hinc : Increasing g) (h : (g.map seq16).IsChain Next) :
    g.IsChain fun a b => b = a + 1 := by
  rw [List.isChain_map] at h
  rw [Increasing, List.isChain_iff_getElem] at hinc
  rw [List.isChain_iff_getElem] at h ⊢
  intro i hi
  exact follows_eq_true.1 ((next_seq16 (hinc i hi)).1 (h i hi))

/-- The last of some packets in a row. -/
theorem getLast_of_chain {x z : Int} {g : List Int} (h : (x :: g).IsChain fun a b => b = a + 1)
    (hz : z ∈ (x :: g).getLast?) : z = x + g.length := by
  induction g generalizing x with
  | nil =>
    rw [List.getLast?_singleton, Option.mem_def, Option.some.injEq] at hz
    simp [hz]
  | cons y g ih =>
    rw [List.isChain_cons_cons] at h
    rw [List.getLast?_cons_cons] at hz
    have hlast := ih h.2 hz
    rw [List.length_cons]
    push_cast
    omega

/-- A cut of the sets is a cut of the packets in them. -/
theorem Cut.lift {before after : List Int} {gone buffer wrapped : List Nat}
    (h : Cut (before.map seq16) (after.map seq16) gone buffer wrapped) :
    ∃ g before' after', g.map seq16 = gone ∧ before'.map seq16 = buffer ∧ after'.map seq16 = wrapped ∧
      before ++ after = g ++ (before' ++ after') ∧
      ((before = g ++ before' ∧ after' = after) ∨ ((∃ more, after = more ++ before') ∧ after' = [])) := by
  rcases h with ⟨hb, rfl, -⟩ | ⟨more, rfl, hw, rfl⟩
  · obtain ⟨g, before', rfl, rfl, rfl⟩ := List.map_eq_append_iff.1 hb
    exact ⟨g, before', after, rfl, rfl, rfl, List.append_assoc .., .inl ⟨rfl, rfl⟩⟩
  · obtain ⟨m, before', rfl, rfl, rfl⟩ := List.map_eq_append_iff.1 hw
    refine ⟨before ++ m, before', [], List.map_append, rfl, rfl, ?_, .inr ⟨⟨m, rfl⟩, rfl⟩⟩
    rw [List.append_nil, List.append_assoc]

/-- One run less in the sets, one more in the history. -/
theorem Holds.cut {s : PacketLossStats} {lost gone before after : List Int} {lap : Int}
    (h : Holds s lost lap gone before after) (hinc : Increasing lost) {removed buffer wrapped : List Nat}
    (hremoved : Cut s.buffer s.wrapped removed buffer wrapped) (hne : removed ≠ []) (hchain : removed.IsChain Next)
    (hstop : ∀ x ∈ removed.getLast?, ∀ y ∈ buffer.head?, ¬ Next x y) (hbuffer : buffer ≠ []) :
    ∃ lap' gone' before' after', Holds ⟨buffer, wrapped,
        s.historic.close removed.length⟩ lost lap' gone' before' after' := by
  rw [h.buffer, h.wrapped] at hremoved
  obtain ⟨g, before', after', hg, hb, hw, hcut, hlap⟩ := hremoved.lift
  have hleft : before' ≠ [] := by
    rintro rfl
    exact hbuffer hb.symm
  have hgne : g ≠ [] := by
    rintro rfl
    exact hne hg.symm
  have hincRest : Increasing (before ++ after) := hinc.sub ⟨gone, [], by rw [h.split, List.append_nil]⟩
  have hincG : Increasing g := hincRest.sub ⟨[], before' ++ after', by rw [hcut, List.nil_append]⟩
  have hrun : g.IsChain fun a b => follows a b := by
    have hnext := isChain_follows hincG (hg ▸ hchain)
    exact hnext.imp fun a b hab => follows_eq_true.2 hab
  have happart : ∀ x ∈ g.getLast?, ∀ y ∈ (before' ++ after').head?, follows x y = false := by
    intro x hx y hy
    rw [List.head?_append_of_ne_nil _ hleft] at hy
    have hinc' : Increasing (g ++ (before' ++ after')) := hcut ▸ hincRest
    rw [Increasing, List.isChain_append] at hinc'
    have hxy := hinc'.2.2 x hx y (by rw [List.head?_append_of_ne_nil _ hleft]; exact hy)
    have hstop' := hstop (seq16 x) (by rw [← hg, List.getLast?_map, Option.mem_def, Option.mem_def.1 hx]; rfl)
      (seq16 y) (by rw [← hb, List.head?_map, Option.mem_def, Option.mem_def.1 hy]; rfl)
    rw [next_seq16 hxy] at hstop'
    exact Bool.not_eq_true _ ▸ hstop'
  have hsep : ∀ x ∈ gone.getLast?, ∀ y ∈ g.head?, follows x y = false := by
    intro x hx y hy
    exact h.apart x hx y (by rw [hcut, List.head?_append_of_ne_nil _ hgne]; exact hy)
  have hlast : ∀ x ∈ (gone ++ g).getLast?, ∀ y ∈ (before' ++ after').head?, follows x y = false := by
    intro x hx
    rw [List.getLast?_append_of_ne_nil _ hgne] at hx
    exact happart x hx
  have hlen : removed.length = g.length := by rw [← hg, List.length_map]
  have hhistoric : s.historic.close removed.length = (runs follows (gone ++ g)).foldl LossCounts.close ⟨0, 0, 0⟩ := by
    rw [runs_append hsep, runs_of_isChain hgne hrun, List.foldl_append, ← h.historic, hlen]
    rfl
  have hsplit : lost = gone ++ g ++ (before' ++ after') := by rw [h.split, hcut, List.append_assoc]
  rcases hlap with ⟨rfl, rfl⟩ | ⟨⟨more, rfl⟩, rfl⟩
  · refine ⟨lap, _, _, _, hsplit, hb.symm, hw.symm, hhistoric, hlast, fun hnil => absurd hnil hleft, ?_, h.mem_after⟩
    intro x hx
    exact h.mem_before x (List.mem_append_right g hx)
  · refine ⟨lap + 1, _, _, _, hsplit, hb.symm, hw.symm, hhistoric, hlast, fun hnil => absurd hnil hleft, ?_, ?_⟩
    · intro x hx
      have hrange := h.mem_after x (List.mem_append_right more hx)
      omega
    · intro x hx
      cases hx

/-- What makes the function prune. -/
def Crowded (s : PacketLossStats) : Prop := s.wrapped.length + s.buffer.length > kBufferSize ∨ beyond s.wrapped = true

theorem beyond_iff {wrapped : List Nat} : beyond wrapped = true ↔ ∃ x ∈ wrapped.getLast?, 0x4000 < x := by
  rw [beyond, Option.any_eq_true]
  simp only [gt_iff_lt, decide_eq_true_eq, Option.mem_def]

/-- Too many packets, and packets on both sides of a wrap, are not one run. -/
theorem Holds.left {s : PacketLossStats} {lost gone before after : List Int} {lap : Int}
    (h : Holds s lost lap gone before after) (hinc : Increasing lost) (hshort : ShortRuns lost) (hcrowded : s.Crowded)
    {removed buffer wrapped : List Nat} (hcut : Cut s.buffer s.wrapped removed buffer wrapped)
    (hchain : removed.IsChain Next) : buffer ≠ [] := by
  intro hnil
  have hall : (before ++ after).map seq16 = removed := by
    rw [List.map_append, ← h.buffer, ← h.wrapped, hcut.append_eq, hcut.backed hnil, hnil,
      List.append_nil, List.append_nil]
  have hinfix : before ++ after <:+: lost := ⟨gone, [], by rw [h.split, List.append_nil]⟩
  have hrun := isChain_follows (hinc.sub hinfix) (hall ▸ hchain)
  have hlen := hshort _ hinfix hrun
  rcases hcrowded with hmany | hbeyond
  · rw [h.buffer, h.wrapped, List.length_map, List.length_map] at hmany
    rw [List.length_append] at hlen
    omega
  · obtain ⟨x, hx, hgt⟩ := beyond_iff.1 hbeyond
    rw [h.wrapped, List.getLast?_map, Option.mem_def, Option.map_eq_some_iff] at hx
    obtain ⟨z, hz, rfl⟩ := hx
    have hz' := h.mem_after z (List.mem_of_getLast? hz)
    cases hbefore : before with
    | nil =>
      have hlost := h.backed hbefore
      have hafter : after = [] := (List.append_eq_nil_iff.1 (List.append_eq_nil_iff.1 (h.split.symm.trans hlost)).2).2
      rw [hafter] at hz
      cases hz
    | cons x before' =>
      have hx := h.mem_before x (by rw [hbefore]; exact List.mem_cons_self)
      rw [hbefore, List.cons_append] at hrun hlen
      have hlast := getLast_of_chain hrun (z := z) (by
        rw [← List.cons_append, List.getLast?_append, Option.mem_def, hz]
        rfl)
      rw [seq16_eq] at hgt
      rw [List.length_cons] at hlen
      unfold kBufferSize at hlen
      omega

/-- **Pruning keeps what the sets and the history stand for.** -/
theorem Holds.prune {fuel : Nat} {s : PacketLossStats} {lost gone before after : List Int} {lap : Int}
    (h : Holds s lost lap gone before after) (hinc : Increasing lost) (hshort : ShortRuns lost) (hcrowded : s.Crowded)
    (hbuffer : s.buffer ≠ []) (hfuel : s.buffer.length + s.wrapped.length ≤ fuel) :
    ∃ t lap' gone' before' after', s.pruneBuffer fuel = some t ∧ Holds t lost lap' gone' before' after' ∧
      beyond t.wrapped = false := by
  induction fuel generalizing s lap gone before after with
  | zero =>
    have hpos := List.length_pos_iff.2 hbuffer
    omega
  | succ fuel ih =>
    obtain ⟨removed, buffer, wrapped, hne, hcut, hchain, hstop, heq⟩ := pruneBuffer_step fuel hbuffer
    have hleft := h.left hinc hshort hcrowded hcut hchain
    obtain ⟨lap', gone', before', after', h'⟩ := h.cut hinc hcut hne hchain hstop hleft
    rw [heq]
    split
    · next hbeyond =>
      have hlen := congrArg List.length hcut.append_eq
      have hpos := List.length_pos_iff.2 hne
      simp only [List.length_append] at hlen
      exact ih h' (.inr hbeyond) hleft (by dsimp only; omega)
    · next hbeyond => exact ⟨_, lap', gone', before', after', rfl, h', Bool.not_eq_true _ ▸ hbeyond⟩

/-! ## Adding a packet -/

/-- A number beyond all of a set goes to its end. -/
theorem setInsert_last {x : Nat} {l : List Nat} (h : ∀ y ∈ l, y < x) : setInsert x l = l ++ [x] := by
  induction l with
  | nil => rfl
  | cons y l ih =>
    have hy := h y List.mem_cons_self
    rw [setInsert, if_neg (by omega), if_neg (by omega), ih fun z hz =>
      h z (List.mem_cons_of_mem y hz), List.cons_append]

theorem Increasing.lt_last {lost : List Int} {u : Int} (h : Increasing (lost ++ [u])) : ∀ x ∈ lost, x < u := by
  have hlt : (lost ++ [u]).IsChain (fun a b => a < b) := h.imp fun a b hab => hab.1
  have hpair := List.isChain_iff_pairwise.1 hlt
  intro x hx
  exact (List.pairwise_append.1 hpair).2.2 x hx u (List.mem_singleton.2 rfl)

theorem Increasing.gap {lost : List Int} {u z : Int} (h : Increasing (lost ++ [u])) (hz : z ∈ lost.getLast?) :
    z < u ∧ u - z < 32768 := by
  rw [Increasing, List.isChain_append] at h
  exact h.2.2 z hz u rfl

/-- The packet behind all packets of the buffer, on their lap. -/
theorem Holds.insert_before {s : PacketLossStats} {lost gone before : List Int} {lap u : Int}
    (h : Holds s lost lap gone before []) (hinc : Increasing (lost ++ [u])) (hbefore : before ≠ [])
    (hu : 65536 * lap ≤ u ∧ u < 65536 * lap + 65536) :
    Holds (s.insert (seq16 u)) (lost ++ [u]) lap gone (before ++ [u]) [] := by
  have hlt : ∀ x ∈ before, x < u := fun x hx =>
    hinc.lt_last x (by rw [h.split, List.append_nil]; exact List.mem_append_right gone hx)
  have hend : ∀ y ∈ before.map seq16, y < seq16 u := by
    intro y hy
    obtain ⟨x, hx, rfl⟩ := List.mem_map.1 hy
    have hx' := h.mem_before x hx
    have hxu := hlt x hx
    rw [seq16_eq, seq16_eq]
    omega
  have hstays : s.wraps (seq16 u) = false := by
    rw [wraps, h.buffer, List.getLast?_eq_some_getLast (by simpa using hbefore), Option.any_some,
      decide_eq_false_iff_not]
    have hz := hend _ (List.getLast_mem (by simpa using hbefore))
    omega
  have hhead : ∀ y ∈ (before ++ [u]).head?, y ∈ (before ++ []).head? := by
    intro y hy
    rw [List.head?_append_of_ne_nil _ hbefore] at hy
    rw [List.append_nil]
    exact hy
  have hsplit : lost ++ [u] = gone ++ (before ++ [u] ++ []) := by
    rw [h.split, List.append_nil, List.append_nil, List.append_assoc]
  have hinsert : s.insert (seq16 u) = { s with buffer := (before ++ [u]).map seq16 } := by
    rw [insert, hstays, h.buffer, setInsert_last hend, List.map_append, List.map_singleton]
    rfl
  rw [hinsert]
  refine ⟨hsplit, rfl, h.wrapped, h.historic, ?_, fun hnil => absurd hnil (by simp), ?_, h.mem_after⟩
  · intro x hx y hy
    rw [List.append_nil] at hy
    exact h.apart x hx y (hhead y hy)
  · intro x hx
    rcases List.mem_append.1 hx with hx | hx
    · exact h.mem_before x hx
    · rw [List.mem_singleton.1 hx]
      exact hu

/-- The packet behind all packets of the wrapped buffer. -/
theorem Holds.insert_after {s : PacketLossStats} {lost gone before after : List Int} {lap u : Int}
    (h : Holds s lost lap gone before after) (hinc : Increasing (lost ++ [u])) (hbefore : before ≠ [])
    (hwraps : s.wraps (seq16 u) = true) (hu : 65536 * lap + 65536 ≤ u ∧ u < 65536 * lap + 131072) :
    Holds (s.insert (seq16 u)) (lost ++ [u]) lap gone before (after ++ [u]) := by
  have hend : ∀ y ∈ after.map seq16, y < seq16 u := by
    intro y hy
    obtain ⟨x, hx, rfl⟩ := List.mem_map.1 hy
    have hx' := h.mem_after x hx
    have hxu := hinc.lt_last x (by rw [h.split]; exact List.mem_append_right gone (List.mem_append_right before hx))
    rw [seq16_eq, seq16_eq]
    omega
  have hsplit : lost ++ [u] = gone ++ (before ++ (after ++ [u])) := by
    rw [h.split, List.append_assoc, List.append_assoc]
  have hinsert : s.insert (seq16 u) = { s with wrapped := (after ++ [u]).map seq16 } := by
    rw [insert, hwraps, h.wrapped, setInsert_last hend, List.map_append, List.map_singleton]
    rfl
  rw [hinsert]
  refine ⟨hsplit, h.buffer, rfl, h.historic, ?_, fun hnil => absurd hnil hbefore, h.mem_before, ?_⟩
  · intro x hx y hy
    rw [List.head?_append_of_ne_nil _ hbefore] at hy
    exact h.apart x hx y (by rw [List.head?_append_of_ne_nil _ hbefore]; exact hy)
  · intro x hx
    rcases List.mem_append.1 hx with hx | hx
    · exact h.mem_after x hx
    · rw [List.mem_singleton.1 hx]
      exact hu

theorem Holds.insert {s : PacketLossStats} {lost gone before after : List Int} {lap u : Int}
    (h : Holds s lost lap gone before after) (hcalm : beyond s.wrapped = false) (hinc : Increasing (lost ++ [u]))
    (horder : s.InOrder u) :
    ∃ lap' before' after', Holds (s.insert (seq16 u)) (lost ++ [u]) lap' gone before' after' := by
  by_cases hbefore : before = []
  · obtain rfl := h.backed hbefore
    obtain ⟨hgone, hrest⟩ := List.append_eq_nil_iff.1 h.split.symm
    obtain ⟨-, hafter⟩ := List.append_eq_nil_iff.1 hrest
    subst hgone hbefore hafter
    have hinsert : s.insert (seq16 u) = { s with buffer := [seq16 u] } := by
      rw [PacketLossStats.insert, wraps, h.buffer]
      rfl
    rw [hinsert]
    refine ⟨u / 65536, [u], [], rfl, rfl, h.wrapped, h.historic, ?_, ?_, ?_, ?_⟩
    · intro x hx
      cases hx
    · intro hnil
      cases hnil
    · intro x hx
      rw [List.mem_singleton.1 hx]
      omega
    · intro x hx
      cases hx
  · have hz := List.getLast?_eq_some_getLast hbefore
    have hzb := h.mem_before _ (List.getLast_mem hbefore)
    have hwraps : s.wraps (seq16 u) = decide ((seq16 (before.getLast hbefore) : Int) - (seq16 u : Int) > 0x8000) := by
      rw [wraps, h.buffer, List.getLast?_map, hz]
      rfl
    generalize before.getLast hbefore = z at hz hzb hwraps
    by_cases hafter : after = []
    · subst hafter
      have hgap := hinc.gap (z := z) (by
        rw [h.split, List.append_nil, List.getLast?_append_of_ne_nil _ hbefore]
        exact hz)
      by_cases hlap : u < 65536 * lap + 65536
      · exact ⟨lap, _, _, h.insert_before hinc hbefore ⟨by omega, hlap⟩⟩
      · refine ⟨lap, _, _, h.insert_after hinc hbefore ?_ ⟨by omega, by omega⟩⟩
        rw [hwraps, decide_eq_true_eq, seq16_eq, seq16_eq]
        omega
    · have hy := List.getLast?_eq_some_getLast hafter
      have hya := h.mem_after _ (List.getLast_mem hafter)
      generalize after.getLast hafter = y at hy hya
      have hgap := hinc.gap (z := y) (by
        rw [h.split, List.getLast?_append_of_ne_nil _ (by simp [hafter]), List.getLast?_append_of_ne_nil _ hafter]
        exact hy)
      have hlow : ¬ 0x4000 < seq16 y := by
        intro hgt
        rw [beyond_iff.2 ⟨seq16 y, by rw [h.wrapped, List.getLast?_map, hy]; rfl, hgt⟩] at hcalm
        cases hcalm
      rw [seq16_eq] at hlow
      have hwrapped : s.wrapped ≠ [] := by
        rw [h.wrapped]
        simpa using hafter
      exact ⟨lap, _, _, h.insert_after hinc hbefore (horder.resolve_left hwrapped) ⟨by omega, by omega⟩⟩

/-! ## Whole runs -/

/-- A state between two calls. -/
def Tracks (s : PacketLossStats) (lost : List Int) : Prop :=
  beyond s.wrapped = false ∧ ∃ lap gone before after, Holds s lost lap gone before after

theorem Tracks.init : Tracks {} [] := by
  have hnone : ∀ (P : Int → Prop), ∀ x ∈ ([] : List Int), P x := fun P x hx => by cases hx
  exact ⟨rfl, 0, [], [], [], rfl, rfl, rfl, rfl, fun x hx => (by cases hx), fun _ => rfl, hnone _, hnone _⟩

/-- **A call keeps track of the packets.** -/
theorem Tracks.step {s : PacketLossStats} {lost : List Int} {u : Int} (h : Tracks s lost)
    (hinc : Increasing (lost ++ [u]))
    (hshort : ShortRuns (lost ++ [u])) (horder : s.InOrder u) : Tracks (lostStep s u).1 (lost ++ [u]) := by
  obtain ⟨hcalm, lap, gone, before, after, h⟩ := h
  obtain ⟨lap', before', after', h'⟩ := h.insert hcalm hinc horder
  have hne := insert_buffer_ne_nil s (seq16 u)
  rw [lostStep, lossStep]
  by_cases hcrowded : (s.insert (seq16 u)).Crowded
  · obtain ⟨t, lap'', gone', before'', after'', heq, ht, hbeyond⟩ := h'.prune hinc hshort hcrowded hne (Nat.le_refl _)
    have hadd : s.addLostPacket (seq16 u) = some t := by
      unfold Crowded at hcrowded
      rw [addLostPacket, if_pos hcrowded, heq]
    simp only [hadd]
    exact ⟨hbeyond, lap'', gone', before'', after'', ht⟩
  · have hadd : s.addLostPacket (seq16 u) = some (s.insert (seq16 u)) := by
      unfold Crowded at hcrowded
      rw [addLostPacket, if_neg hcrowded]
    simp only [hadd]
    exact ⟨Bool.not_eq_true _ ▸ fun hb => hcrowded (.inr hb), lap', gone, before', after', h'⟩

theorem Tracks.run {s : PacketLossStats} {past lost : List Int} (h : Tracks s past) (hinc : Increasing (past ++ lost))
    (hshort : ShortRuns (past ++ lost)) (horder : Meets lostStep InOrder s lost) :
    Tracks (run lostStep s lost) (past ++ lost) := by
  induction lost generalizing s past with
  | nil => rwa [List.append_nil]
  | cons u lost ih =>
    have hsplit : past ++ u :: lost = past ++ [u] ++ lost := by simp
    have hprefix : past ++ [u] <:+: past ++ u :: lost := ⟨[], lost, by rw [hsplit, List.nil_append]⟩
    have hstep := h.step (hinc.sub hprefix) (fun g hg hrun => hshort g (hg.trans hprefix) hrun) horder.1
    rw [hsplit] at hinc hshort ⊢
    exact ih hstep hinc hshort horder.2

theorem shortRuns_of_length {lost : List Int} (h : lost.length ≤ kBufferSize) : ShortRuns lost :=
  fun _ hg _ => Nat.le_trans hg.length_le h

/-- **The counts are those of the packets after every call of a run in which no packet of the next lap gets
into the buffer, and every call at all comes to an end.** -/
theorem lossCounts_exact (lost : List Int) (hinc : Increasing lost) (hshort : ShortRuns lost)
    (horder : Meets lostStep InOrder {} lost) (k : Nat) :
    (run lostStep {} (lost.take k)).computeLossCounts = trueCounts (lost.take k) ∧
      ∀ (s : PacketLossStats) (seq : Nat), ∃ t, s.addLostPacket seq = some t := by
  constructor
  · have hprefix : lost.take k <:+: lost := (List.take_prefix k lost).isInfix
    have hsplit : Meets lostStep InOrder {} (lost.take k ++ lost.drop k) := by rwa [List.take_append_drop]
    have hshort' : ShortRuns (lost.take k) := fun g hg hrun => hshort g (hg.trans hprefix) hrun
    obtain ⟨-, lap, gone, before, after, h⟩ :=
      Tracks.init.run (show Increasing ([] ++ lost.take k) from hinc.sub hprefix) hshort' (meets_append.1 hsplit).1
    exact h.counts (hinc.sub hprefix)
  · intro s seq
    obtain ⟨t, heq, -⟩ := addLostPacket_spec s seq
    exact ⟨t, heq⟩

theorem lossCounts_exact_wrap :
    (run lostStep {} ([65534, 65536, 65537].take 3)).computeLossCounts = trueCounts ([65534, 65536, 65537].take 3) :=
  (lossCounts_exact [65534, 65536, 65537] (by simp [Increasing]) (shortRuns_of_length (by decide))
    ⟨.inl rfl, .inl rfl, .inr rfl, trivial⟩ 3).1

/-- Of four single packets the last gets into the buffer just before the first, and the two count as a run. -/
theorem not_counted : Increasing [40000, 72000, 95536, 105535] ∧ ShortRuns [40000, 72000, 95536, 105535] ∧
    (run lostStep {} [40000, 72000, 95536, 105535]).computeLossCounts = ⟨2, 1, 2⟩ ∧
    trueCounts [40000, 72000, 95536, 105535] = ⟨4, 0, 0⟩ :=
  ⟨by simp [Increasing], shortRuns_of_length (by decide), rfl, rfl⟩

end PacketLossStats

end WebRtc.Rtp
