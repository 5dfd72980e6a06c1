import Mathlib.Tactic.Ring
import WebRtc.Vp8.Frame

/-!
# Strict and equal-size packets

A partition that goes on in a new packet is cut into fragments of about the same size, and the last of
them is `lastFragment` bytes long wherever the cuts before it are (`roomAfter_next`). In the equal-size
mode the next partition goes on behind it. When no room is left there, the next packet begins with a
partition and is not marked so: `NeverFull` says that this does not happen.
-/

namespace WebRtc.Vp8

/-! ## The balanced sizes -/

/-- The size of a fragment when a partition of `len` bytes goes on in a packet with `room`. -/
def nextSize (room len : Nat) : Nat := (2 * len + (len / room + 1)) / (2 * (len / room + 1))

theorem calcNextSize_balanced {room len : Nat} (hr : 0 < room) (hl : 0 < len) :
    calcNextSize true room len true = nextSize room len := by
  have h : ¬ (room = 0 ∨ len = 0) := by omega
  simp [calcNextSize, h, nextSize]

theorem div_succ_bounds {room len : Nat} (hr : 0 < room) : room * (len / room) ≤ len ∧
    len < room * (len / room + 1) := by
  have h1 := Nat.div_add_mod len room
  have h2 := Nat.mod_lt len hr
  rw [Nat.mul_add, Nat.mul_one]
  omega

theorem nextSize_spec {room len : Nat} (hr : 0 < room) (hl : 0 < len) :
    0 < nextSize room len ∧ nextSize room len ≤ room ∧ nextSize room len ≤ len := by
  have hlt := (@div_succ_bounds room len hr).2
  have hdiv : len / room ≤ len := Nat.div_le_self _ _
  unfold nextSize
  generalize len / room = j at hlt hdiv ⊢
  generalize hk : j + 1 = k at hlt ⊢
  have hkpos : 0 < 2 * k := by omega
  refine ⟨Nat.div_pos (by omega) hkpos, ?_, ?_⟩
  · rw [← Nat.lt_succ_iff, Nat.div_lt_iff_lt_mul hkpos]
    have e : (room + 1) * (2 * k) = 2 * (room * k) + 2 * k := by ring
    rw [Nat.succ_eq_add_one, e]
    omega
  · rw [← Nat.lt_succ_iff, Nat.div_lt_iff_lt_mul hkpos]
    have e : (len + 1) * (2 * k) = 2 * (len * k) + 2 * k := by ring
    rw [Nat.succ_eq_add_one, e]
    have : len ≤ len * k := Nat.le_mul_of_pos_right _ (by omega)
    omega

/-- Only what fits leaves nothing for the next packet, or a single byte. -/
theorem nextSize_all {room len : Nat} (hr : 0 < room) (hl : 0 < len) : nextSize room len = len ↔
    len < room ∨ len = 1 := by
  have hb := @div_succ_bounds room len hr
  constructor
  · intro h
    by_contra hno
    have h1 : room ≤ len := by omega
    have hk : 1 ≤ len / room := Nat.div_pos h1 hr
    unfold nextSize at h
    generalize len / room = j at h hb hk
    have hlt : (2 * len + (j + 1)) / (2 * (j + 1)) < len := by
      rw [Nat.div_lt_iff_lt_mul (by omega)]
      have e : len * (2 * (j + 1)) = 2 * len * j + 2 * len := by ring
      have h2 : 4 * j ≤ 2 * len * j := Nat.mul_le_mul_right _ (by omega)
      omega
    omega
  · rintro (hlt | rfl)
    · rw [nextSize, Nat.div_eq_of_lt hlt]
      omega
    · rcases Nat.lt_or_ge 1 room with h1 | h1
      · rw [nextSize, Nat.div_eq_of_lt h1]
      · have h1 : room = 1 := by omega
        subst h1
        rfl

/-- The last fragment of a partition that begins with a packet. -/
def lastFragment (cap len : Nat) : Nat := max 1 (len / (len / cap + 1))

/-- The room that is left in the packet when a partition of `len` bytes is in; it has gone on with
`room` before. -/
def roomAfter (cap room len : Nat) : Nat :=
  if len < room then room - len else if len = 1 then 0 else cap - lastFragment cap (len - nextSize room len)

/-- A fragment less of the same average. -/
theorem lastFragment_next {cap len : Nat} (hc : 0 < cap) (h : cap ≤ len) :
    lastFragment cap (len - nextSize cap len) = lastFragment cap len := by
  have hb := @div_succ_bounds cap len hc
  obtain ⟨hpos, hle, hlen⟩ := @nextSize_spec cap len hc (by omega)
  rcases Nat.eq_or_lt_of_le (show 1 ≤ cap from hc) with hone | htwo
  · -- With a byte a packet all fragments are of one byte.
    have hzero : ∀ n, lastFragment cap n = 1 := by
      intro n
      rw [← hone, lastFragment, Nat.div_one, Nat.div_eq_of_lt (Nat.lt_succ_self n)]
      rfl
    rw [hzero, hzero]
  · have hk : 1 ≤ len / cap := Nat.div_pos h hc
    -- `len` is `k + 1` times `q`, and `t` more.
    generalize hkdef : len / cap = k at hb hk
    have hq := Nat.div_add_mod len (k + 1)
    have ht := Nat.mod_lt len (Nat.succ_pos k)
    have hnext : nextSize cap len = len / (k + 1) + (if k + 1 ≤ 2 * (len % (k + 1)) then 1 else 0) := by
      unfold nextSize
      rw [hkdef]
      generalize len / (k + 1) = q at hq
      generalize len % (k + 1) = t at hq ht
      rw [← hq]
      have e : 2 * ((k + 1) * q + t) + (k + 1) = (2 * t + (k + 1)) + 2 * (k + 1) * q := by ring
      rw [e, Nat.add_mul_div_left _ _ (by omega), Nat.add_comm]
      congr 1
      split
      · rw [Nat.div_eq_iff (by omega)]
        omega
      · exact Nat.div_eq_of_lt (by omega)
    generalize hqdef : len / (k + 1) = q at hq hnext
    generalize len % (k + 1) = t at hq ht hnext
    generalize hrest : len - nextSize cap len = rest
    have e1 : (k + 1) * q = k * q + q := Nat.succ_mul k q
    -- The rest is `k` times `q`, and `s` more.
    obtain ⟨s, hs, hsk⟩ : ∃ s, rest = k * q + s ∧ s < k := by
      refine ⟨t - (if k + 1 ≤ 2 * t then 1 else 0), ?_, ?_⟩
      · split at hnext <;> split <;> omega
      · split <;> omega
    have hdivk : rest / cap + 1 = k := by
      have hq1 : q < cap := by
        by_contra hge
        have := Nat.mul_le_mul_left (k + 1) (Nat.not_lt.1 hge)
        have e : (k + 1) * cap = cap * (k + 1) := Nat.mul_comm _ _
        omega
      have hup : k * q ≤ k * (cap - 1) := Nat.mul_le_mul_left k (by omega)
      have e2 : k * (cap - 1) + k = cap * k := by
        rw [← Nat.mul_succ, Nat.succ_eq_add_one, Nat.sub_add_cancel hc, Nat.mul_comm]
      have e3 : cap * (k - 1) + cap = cap * k := by
        rw [← Nat.mul_succ, Nat.succ_eq_add_one, Nat.sub_add_cancel hk]
      have hj : rest / cap = k - 1 := by
        rw [Nat.div_eq_iff hc]
        have e4 : (k - 1) * cap = cap * (k - 1) := Nat.mul_comm _ _
        omega
      omega
    rw [lastFragment, lastFragment, hdivk, hkdef, hqdef, hs, Nat.mul_add_div (by omega),
      Nat.div_eq_of_lt hsk, Nat.add_zero]

/-- **Where a partition ends in its last packet** does not depend on where it is cut before. -/
theorem roomAfter_next {cap room len : Nat} (hr : 0 < room) (hcap : room ≤ cap) (hl : 0 < len)
    (hne : nextSize room len ≠ len) :
    roomAfter cap cap (len - nextSize room len) = roomAfter cap room len := by
  have hno : ¬ (len < room ∨ len = 1) := fun h => hne ((nextSize_all hr hl).2 h)
  obtain ⟨hpos, hle, hlen⟩ := @nextSize_spec room len hr hl
  generalize hrest : len - nextSize room len = rest
  have hrestpos : 0 < rest := by omega
  have hright : roomAfter cap room len = cap - lastFragment cap rest := by
    rw [roomAfter, if_neg (by omega), if_neg (by omega), hrest]
  rw [hright, roomAfter]
  by_cases h1 : rest < cap
  · rw [if_pos h1, lastFragment, Nat.div_eq_of_lt h1, Nat.zero_add, Nat.div_one]
    omega
  · rw [if_neg h1]
    by_cases h2 : rest = 1
    · have hc : cap = 1 := by omega
      rw [if_pos h2, hc]
      have := Nat.le_max_left 1 (rest / (rest / 1 + 1))
      rw [lastFragment]
      omega
    · rw [if_neg h2, lastFragment_next (by omega) (by omega)]

/-- No partition but the last ends where its packet is full. The first one goes on in a packet with `room`. -/
def NeverFull (cap : Nat) : Nat → List Nat → Prop
  | _, [] => True
  | _, [_] => True
  | room, len :: next :: rest => 0 < roomAfter cap room len ∧ NeverFull cap (roomAfter cap room len) (next :: rest)

/-! ## A packet -/

section Fill
variable {hdr : RTPVideoHeaderVP8} {maxPayloadLen : Nat} {mode : VP8PacketizerMode} {frame : Frame}

theorem packetizer_length (ix : Nat) : (packetizer hdr maxPayloadLen mode frame).length ix =
    frame.lengths.getD ix 0 := rfl

theorem packetizer_numPartitions : (packetizer hdr maxPayloadLen mode frame).numPartitions = frame.lengths.length := rfl

theorem fragmentationOffset_getD {ix : Nat} (h : ix < frame.lengths.length) :
    (packetizer hdr maxPayloadLen mode frame).partInfo.fragmentationOffset.getD ix 0 = frame.offset ix := by
  show ((List.range frame.lengths.length).map frame.offset).getD ix 0 = frame.offset ix
  simp [List.getD_eq_getElem?_getD, h]

/-- A packet that begins at byte `total` while it is filled. -/
structure FillInv (frame : Frame) (cap total : Nat) (f : Filling) : Prop where
  partIx : f.partIx < frame.lengths.length
  place : total + f.packetBytes + f.remainingInPartition = frame.offset (f.partIx + 1)
  part : f.remainingInPartition ≤ frame.lengths.getD f.partIx 0
  room : f.packetBytes + f.remPayloadLen = cap
  split : f.splitPayload = true

/-- The partitions from the one of `f` on, as far as they are not in a packet. -/
def ahead (frame : Frame) (f : Filling) : List Nat := f.remainingInPartition :: frame.lengths.drop (f.partIx + 1)

/-- How a packet of the equal-size mode may end. -/
inductive EndsFilling (frame : Frame) (cap room : Nat) (todo : List Nat) (g : Filling) : Prop where
  | last (rem : g.remainingInPartition = 0) (ix : g.partIx + 1 = frame.lengths.length) (fits : NeverFull cap room todo)
  | inside (pos : 0 < g.remainingInPartition) (lt : g.remainingInPartition < frame.lengths.getD g.partIx 0)
      (fits : NeverFull cap room todo ↔ NeverFull cap cap (ahead frame g))
  | full (pos : 0 < g.remainingInPartition) (eq : g.remainingInPartition = frame.lengths.getD g.partIx 0)
      (full : ¬ NeverFull cap room todo)

/-- What a packet takes next of the partition. -/
def Filling.take (f : Filling) (n : Nat) : Filling :=
  { f with packetBytes := f.packetBytes + n, remPayloadLen := f.remPayloadLen - n,
           remainingInPartition := f.remainingInPartition - n }

theorem FillInv.take {cap total : Nat} {f : Filling} (h : FillInv frame cap total f) {n : Nat}
    (hroom : n ≤ f.remPayloadLen)
    (hrem : n ≤ f.remainingInPartition) : FillInv frame cap total (f.take n) := by
  have h1 := h.place
  have h2 := h.part
  have h3 := h.room
  refine ⟨h.partIx, ?_, ?_, ?_, h.split⟩ <;> simp only [Filling.take] <;> omega

/-- Nothing more is taken from what is used up. -/
theorem fillPacket_stop {p : RtpPacketizerVp8} {beginning start : Bool} (fuel : Nat) {f : Filling}
    (h : f.remPayloadLen = 0 ∨ f.remainingInPartition = 0) : p.fillPacket beginning start fuel f = f := by
  cases fuel with
  | zero => rfl
  | succ fuel =>
    rw [RtpPacketizerVp8.fillPacket, calcNextSize, if_pos h]
    rfl

theorem ahead_next {f : Filling} (h : f.partIx + 1 < frame.lengths.length) :
    frame.lengths.drop (f.partIx + 1) =
      frame.lengths.getD (f.partIx + 1) 0 :: frame.lengths.drop (f.partIx + 2) := by
  rw [List.drop_eq_getElem_cons h, List.getD_eq_getElem?_getD, List.getElem?_eq_getElem h, Option.getD_some]

/-- **A packet of the equal-size mode.** -/
theorem fillPacket_equalSize {cap total : Nat} {beginning start : Bool} (fuel : Nat) {f : Filling}
    (h : FillInv frame cap total f) (hroom : 0 < f.remPayloadLen) (hrem : 0 < f.remainingInPartition)
    (hfuel : f.remPayloadLen ≤ fuel) :
    let g := (packetizer hdr maxPayloadLen .equalSize frame).fillPacket beginning start fuel f
    FillInv frame cap total g ∧ f.packetBytes < g.packetBytes ∧
      EndsFilling frame cap f.remPayloadLen (ahead frame f) g := by
  induction fuel generalizing f with
  | zero => omega
  | succ fuel ih =>
    obtain ⟨hpos, hnroom, hnrem⟩ := nextSize_spec hroom hrem
    have hcap : f.remPayloadLen ≤ cap := by
      have := h.room
      omega
    have htake := h.take hnroom hnrem
    have hsplit : f.splitPayload = true := h.split
    simp only [Filling.take, hsplit] at htake
    dsimp only
    rw [RtpPacketizerVp8.fillPacket]
    rw [show (packetizer hdr maxPayloadLen .equalSize frame).balance = true from rfl, hsplit,
      calcNextSize_balanced hroom hrem]
    generalize hn : nextSize f.remPayloadLen f.remainingInPartition = n at hpos hnroom hnrem htake
    rw [if_neg (by omega)]
    have hsep : (packetizer hdr maxPayloadLen .equalSize frame).separateFirst = false := rfl
    have haggr : (packetizer hdr maxPayloadLen .equalSize frame).aggrMode = .aggrFragments := rfl
    simp only [hsep, haggr, Bool.and_false, Bool.not_false, and_true, true_or, packetizer_numPartitions, decide_true]
    by_cases hall : f.remainingInPartition - n = 0
    · rw [if_pos hall]
      have hlen : f.remainingInPartition = n := by omega
      have hend := (nextSize_all hroom hrem).1 (hn.trans hlen.symm)
      have hafter : roomAfter cap f.remPayloadLen f.remainingInPartition = f.remPayloadLen - n := by
        rw [roomAfter]
        split
        · rw [hlen]
        · rw [if_pos (by omega)]
          omega
      by_cases hnext : f.partIx + 1 < frame.lengths.length
      · -- The partition is done, and the next one goes on in the packet.
        rw [if_pos hnext, packetizer_length]
        have hlenpos := Frame.length_pos hnext
        have hoff := frame.offset_succ (f.partIx + 1)
        have hplace := htake.place
        have hinv : FillInv frame cap total
            ⟨f.packetBytes + n, f.remPayloadLen - n, frame.lengths.getD (f.partIx + 1) 0, f.partIx + 1, true⟩ := by
          refine ⟨hnext, ?_, Nat.le_refl _, htake.room, rfl⟩
          dsimp only at hplace ⊢
          omega
        have hahead : NeverFull cap f.remPayloadLen (ahead frame f) ↔ 0 < f.remPayloadLen - n ∧
            NeverFull cap (f.remPayloadLen - n)
              (frame.lengths.getD (f.partIx + 1) 0 :: frame.lengths.drop (f.partIx + 2)) := by
          rw [ahead, ahead_next hnext, NeverFull, hafter]
        by_cases hfull : f.remPayloadLen - n = 0
        · rw [fillPacket_stop fuel (Or.inl hfull)]
          refine ⟨by simpa only [Filling.take, hsplit] using hinv, by dsimp only; omega, .full hlenpos rfl ?_⟩
          rw [hahead]
          omega
        · obtain ⟨hg, hbytes, hends⟩ := ih hinv (Nat.pos_of_ne_zero hfull) hlenpos (by dsimp only; omega)
          dsimp only at hbytes hends
          refine ⟨hg, by omega, ?_⟩
          have hsame : NeverFull cap f.remPayloadLen (ahead frame f) ↔ NeverFull cap (f.remPayloadLen - n)
              (frame.lengths.getD (f.partIx + 1) 0 :: frame.lengths.drop (f.partIx + 2)) := by
            rw [hahead]
            exact ⟨fun h => h.2, fun h => ⟨by omega, h⟩⟩
          cases hends with
          | last rem ix fits => exact .last rem ix (hsame.2 fits)
          | inside pos lt fits => exact .inside pos lt (hsame.trans fits)
          | full pos eq full => exact .full pos eq (fun h => full (hsame.1 h))
      · -- It was the last one.
        rw [if_neg hnext, fillPacket_stop fuel (Or.inr hall)]
        have hix : f.partIx + 1 = frame.lengths.length := by
          have := h.partIx
          omega
        refine ⟨htake, by dsimp only; omega, .last hall hix ?_⟩
        rw [ahead, List.drop_of_length_le (by omega)]
        trivial
    · -- The packet ends inside the partition.
      rw [if_neg hall, if_pos ⟨trivial, by omega⟩]
      have hpart := h.part
      refine ⟨htake, by dsimp only; omega, .inside (by dsimp only; omega) (by dsimp only; omega) ?_⟩
      have hstep := roomAfter_next hroom hcap hrem (fun he => hall (by omega))
      rw [hn] at hstep
      rw [ahead, ahead]
      cases frame.lengths.drop (f.partIx + 1) with
      | nil => exact Iff.rfl
      | cons l rest => rw [NeverFull, NeverFull, hstep]

/-- A packet of the strict mode: a part of one partition. -/
theorem fillPacket_strict {cap total : Nat} {beginning start : Bool} (fuel : Nat) {f : Filling}
    (h : FillInv frame cap total f) (hroom : 0 < f.remPayloadLen) (hrem : 0 < f.remainingInPartition) :
    (packetizer hdr maxPayloadLen .strict frame).fillPacket beginning start (fuel + 1) f =
      f.take (nextSize f.remPayloadLen f.remainingInPartition) := by
  have hpos := (nextSize_spec hroom hrem).1
  have hsplit : f.splitPayload = true := h.split
  rw [RtpPacketizerVp8.fillPacket, show (packetizer hdr maxPayloadLen .strict frame).balance = true from rfl, hsplit,
    calcNextSize_balanced hroom hrem]
  generalize nextSize f.remPayloadLen f.remainingInPartition = n at hpos
  rw [if_neg (by omega)]
  have haggr : (packetizer hdr maxPayloadLen .strict frame).aggrMode = .aggrNone := rfl
  simp only [haggr, reduceCtorEq, false_and, or_false, and_false, if_false, Filling.take, hsplit]
  by_cases hall : f.remainingInPartition - n = 0
  · rw [fillPacket_stop fuel (Or.inr hall)]
    simp
  · rw [if_neg (fun hc => hall hc.1), if_pos ⟨trivial, by omega⟩]

/-! ## Packet after packet -/

/-- A packet that has been filled. -/
structure Filled (frame : Frame) (cap total : Nat) (g : Filling) : Prop where
  inv : FillInv frame cap total g
  pos : 0 < g.packetBytes

/-- Where the next packet begins. -/
def Filling.nextIx (g : Filling) : Nat := if g.remainingInPartition = 0 then g.partIx + 1 else g.partIx

theorem Filled.next {cap total : Nat} {g : Filling} (h : Filled frame cap total g) :
    frame.Contains g.nextIx (total + g.packetBytes) ∨
      total + g.packetBytes = frame.data.length ∧ g.remainingInPartition = 0 := by
  have hplace := h.inv.place
  have hix := h.inv.partIx
  have hpart := h.inv.part
  have hoff := frame.offset_succ g.partIx
  unfold Filling.nextIx Frame.Contains
  by_cases h0 : g.remainingInPartition = 0
  · rw [if_pos h0]
    by_cases hlast : g.partIx + 1 < frame.lengths.length
    · have hlen := Frame.length_pos hlast
      have hoff' := frame.offset_succ (g.partIx + 1)
      exact Or.inl ⟨hlast, by omega, by omega⟩
    · have hend : g.partIx + 1 = frame.lengths.length := by omega
      rw [hend, frame.offset_length] at hplace
      exact Or.inr ⟨by omega, h0⟩
  · rw [if_neg h0]
    exact Or.inl ⟨hix, by omega, by omega⟩

/-- The packet at byte `total` begins in partition `ix`. -/
theorem begins_inv {total ix : Nat} (h : frame.Contains ix total) :
    FillInv frame (packetizer hdr maxPayloadLen mode frame).room total
      ⟨0, (packetizer hdr maxPayloadLen mode frame).room, frame.offset (ix + 1) - total, ix, true⟩ := by
  obtain ⟨hix, hle, hlt⟩ := h
  have hoff := frame.offset_succ ix
  refine ⟨hix, ?_, ?_, Nat.zero_add _, rfl⟩
  · dsimp only
    omega
  · dsimp only
    omega

theorem fill_eq {total ix : Nat} {start beginning : Bool} (h : frame.Contains ix total) :
    (packetizer hdr maxPayloadLen mode frame).fill total start beginning ix =
      (packetizer hdr maxPayloadLen mode frame).fillPacket beginning start
        (packetizer hdr maxPayloadLen mode frame).room
        ⟨0, (packetizer hdr maxPayloadLen mode frame).room, frame.offset (ix + 1) - total, ix, true⟩ := by
  rw [RtpPacketizerVp8.fill, fragmentationOffset_getD h.1, packetizer_length, ← frame.offset_succ]

/-- What is queued from byte `total` on. -/
structure CutsFrom (frame : Frame) (room total : Nat) (infos : List InfoStruct) : Prop where
  tiles : Cut.Tiles InfoStruct.payloadStartPos InfoStruct.size total infos frame.data.length
  fits : ∀ i ∈ infos, 0 < i.size ∧ i.size ≤ room
  partition : ∀ i ∈ infos, frame.Contains i.firstPartitionIx i.payloadStartPos

theorem packetLoop_done (p : RtpPacketizerVp8) (fuel : Nat) {total ix : Nat} {start beginning : Bool}
    (h : p.payloadData.length ≤ total) : p.packetLoop fuel total start beginning ix = [] := by
  cases fuel with
  | zero => rfl
  | succ fuel => rw [RtpPacketizerVp8.packetLoop, if_neg (Nat.not_lt.2 h)]

theorem packetLoop_more (fuel : Nat) {total ix : Nat} {start beginning : Bool} (h : total < frame.data.length) :
    (packetizer hdr maxPayloadLen mode frame).packetLoop (fuel + 1) total start beginning ix =
      let g := (packetizer hdr maxPayloadLen mode frame).fill total start beginning ix
      ⟨total, g.packetBytes, start, ix⟩ :: (packetizer hdr maxPayloadLen mode frame).packetLoop fuel
        (total + g.packetBytes)
        (decide (g.remainingInPartition = 0)) false g.nextIx := by
  rw [RtpPacketizerVp8.packetLoop]
  exact if_pos h

/-- **The packets cover the frame** when each is filled. -/
theorem packetLoop_cuts
    (hfill : ∀ {total ix start beginning}, frame.Contains ix total →
    Filled frame (maxPayloadLen - hdr.descriptorLength) total
      ((packetizer hdr maxPayloadLen mode frame).fill total start beginning ix))
    (fuel : Nat) {total ix : Nat} {start beginning : Bool} (h : frame.Contains ix total)
    (hfuel : frame.data.length ≤ total + fuel) :
    CutsFrom frame (maxPayloadLen - hdr.descriptorLength) total
      ((packetizer hdr maxPayloadLen mode frame).packetLoop fuel total start beginning ix) := by
  have hlt : total < frame.data.length := Nat.lt_of_lt_of_le h.2.2 (Frame.offset_le _)
  induction fuel generalizing total ix start beginning with
  | zero => omega
  | succ fuel ih =>
    rw [packetLoop_more fuel hlt]
    have hg := @hfill _ _ start beginning h
    generalize (packetizer hdr maxPayloadLen mode frame).fill total start beginning ix = g at hg
    have hbytes := hg.pos
    have hroom := hg.inv.room
    have hrest : CutsFrom frame (maxPayloadLen - hdr.descriptorLength) (total + g.packetBytes)
        ((packetizer hdr maxPayloadLen mode frame).packetLoop fuel (total + g.packetBytes)
          (decide (g.remainingInPartition = 0)) false g.nextIx) := by
      rcases hg.next with hnext | ⟨hend, -⟩
      · exact ih hnext (by omega) (Nat.lt_of_lt_of_le hnext.2.2 (Frame.offset_le _))
      · rw [packetLoop_done _ _ (Nat.le_of_eq hend.symm), hend]
        exact ⟨.nil _, by simp, by simp⟩
    dsimp only
    refine ⟨@Cut.Tiles.cons _ _ _ (InfoStruct.mk total g.packetBytes start ix) _ _ hrest.tiles, ?_, ?_⟩
    · intro i hi
      rcases List.mem_cons.1 hi with rfl | hi
      · exact ⟨hbytes, by dsimp only; omega⟩
      · exact hrest.fits i hi
    · intro i hi
      rcases List.mem_cons.1 hi with rfl | hi
      · exact h
      · exact hrest.partition i hi

/-- In the strict mode every packet is marked as it should be. -/
theorem packetLoop_strict (fuel : Nat) {total ix : Nat} {start beginning : Bool} (h : frame.Contains ix total)
    (hroom : 0 < (packetizer hdr maxPayloadLen .strict frame).room) (hstart : start = true ↔ total = frame.offset ix) :
    ∀ i ∈ (packetizer hdr maxPayloadLen .strict frame).packetLoop fuel total start beginning ix, Marked frame i := by
  induction fuel generalizing total ix start beginning with
  | zero => simp [RtpPacketizerVp8.packetLoop]
  | succ fuel ih =>
    have hlt : total < frame.data.length := Nat.lt_of_lt_of_le h.2.2 (Frame.offset_le _)
    rw [packetLoop_more fuel hlt, fill_eq h]
    obtain ⟨k, hk⟩ : ∃ k, (packetizer hdr maxPayloadLen .strict frame).room = k + 1 :=
      ⟨_, (Nat.succ_pred_eq_of_pos hroom).symm⟩
    have hbegin := @begins_inv hdr maxPayloadLen .strict frame _ _ h
    have hrem : 0 < frame.offset (ix + 1) - total := by
      have := h.2.2
      omega
    rw [hk] at hbegin ⊢
    have hfill := @fillPacket_strict hdr maxPayloadLen frame _ _ beginning start k _
      hbegin (Nat.succ_pos k) hrem
    rw [hfill]
    obtain ⟨hpos, -, hle⟩ := nextSize_spec (Nat.succ_pos k) hrem
    dsimp only
    generalize nextSize (k + 1) (frame.offset (ix + 1) - total) = n at hpos hle
    intro i hi
    rcases List.mem_cons.1 hi with rfl | hi
    · exact hstart
    · simp only [Filling.take, Filling.nextIx, Nat.zero_add] at hi
      have h1 := h.2.1
      have hoff := frame.offset_succ ix
      by_cases hall : frame.offset (ix + 1) - total - n = 0
      · simp only [hall, if_true, decide_true] at hi
        have hend : total + n = frame.offset (ix + 1) := by omega
        by_cases hlast : ix + 1 < frame.lengths.length
        · have hlen := Frame.length_pos hlast
          have hoff' := frame.offset_succ (ix + 1)
          exact ih ⟨hlast, by omega, by omega⟩ (by simp [hend]) i hi
        · have hix := h.1
          have hend' : ix + 1 = frame.lengths.length := by omega
          rw [packetLoop_done] at hi
          · simp at hi
          · show frame.data.length ≤ total + n
            rw [← frame.offset_length, ← hend']
            omega
      · simp only [hall, if_false, decide_false] at hi
        refine ih ⟨h.1, by omega, by omega⟩ ?_ i hi
        simp only [Bool.false_eq_true, false_iff]
        omega

/-- **In the equal-size mode** the packets are marked as they should be exactly when none is full at the
end of a partition. -/
theorem packetLoop_equalSize (fuel : Nat) {total ix : Nat} {start beginning : Bool} (h : frame.Contains ix total)
    (hroom : 0 < (packetizer hdr maxPayloadLen .equalSize frame).room) (hfuel : frame.data.length ≤ total + fuel)
    (hstart : start = true ↔ total = frame.offset ix) :
    (∀ i ∈ (packetizer hdr maxPayloadLen .equalSize frame).packetLoop fuel total start beginning ix, Marked frame i) ↔
      NeverFull (packetizer hdr maxPayloadLen .equalSize frame).room
        (packetizer hdr maxPayloadLen .equalSize frame).room
        ((frame.offset (ix + 1) - total) :: frame.lengths.drop (ix + 1)) := by
  have hlt : total < frame.data.length := Nat.lt_of_lt_of_le h.2.2 (Frame.offset_le _)
  induction fuel generalizing total ix start beginning with
  | zero => omega
  | succ fuel ih =>
    rw [packetLoop_more fuel hlt, fill_eq h]
    have hrem : 0 < frame.offset (ix + 1) - total := by
      have := h.2.2
      omega
    obtain ⟨hinv, hbytes, hends⟩ := @fillPacket_equalSize hdr maxPayloadLen frame _ _ beginning start
      (packetizer hdr maxPayloadLen .equalSize frame).room _
        (@begins_inv hdr maxPayloadLen .equalSize frame _ _ h) hroom hrem (Nat.le_refl _)
    dsimp only
    generalize (packetizer hdr maxPayloadLen .equalSize frame).fillPacket beginning start
      (packetizer hdr maxPayloadLen .equalSize frame).room _ = g at hinv hbytes hends ⊢
    have hfilled : Filled frame (packetizer hdr maxPayloadLen .equalSize frame).room total g := ⟨hinv, hbytes⟩
    have hplace := hinv.place
    have hoff := frame.offset_succ g.partIx
    rw [List.forall_mem_cons]
    have hhead : Marked frame ⟨total, g.packetBytes, start, ix⟩ := hstart
    simp only [hhead, true_and]
    cases hends with
    | last rem lastIx fits =>
      have hend : frame.data.length ≤ total + g.packetBytes := by
        rw [← frame.offset_length, ← lastIx]
        omega
      rw [packetLoop_done _ _ hend]
      simp only [List.not_mem_nil, false_implies, implies_true, true_iff]
      exact fits
    | inside pos lt fits =>
      have hnext : g.nextIx = g.partIx := if_neg (by omega)
      have hcont : frame.Contains g.partIx (total + g.packetBytes) := ⟨hinv.partIx, by omega, by omega⟩
      have hrest := @ih _ _ (decide (g.remainingInPartition = 0)) false hcont (by omega) (by
        rw [decide_eq_true_eq]
        omega) (Nat.lt_of_lt_of_le hcont.2.2 (Frame.offset_le _))
      have hleft : frame.offset (g.partIx + 1) - (total + g.packetBytes) = g.remainingInPartition := by omega
      rw [hleft] at hrest
      rw [hnext]
      exact hrest.trans fits.symm
    | full pos eq full =>
      -- The next packet begins with a partition, and is not marked.
      have hnext : g.nextIx = g.partIx := if_neg (by omega)
      have hcont : frame.Contains g.partIx (total + g.packetBytes) := ⟨hinv.partIx, by omega, by omega⟩
      have hlt' : total + g.packetBytes < frame.data.length := Nat.lt_of_lt_of_le hcont.2.2 (Frame.offset_le _)
      obtain ⟨fuel, rfl⟩ : ∃ k, fuel = k + 1 := ⟨fuel - 1, by omega⟩
      constructor
      · intro hall
        rw [packetLoop_more fuel hlt', hnext] at hall
        have hfirst := hall _ List.mem_cons_self
        simp only [Marked, decide_eq_true_eq] at hfirst
        omega
      · intro hno
        exact absurd hno full

end Fill

end WebRtc.Vp8
