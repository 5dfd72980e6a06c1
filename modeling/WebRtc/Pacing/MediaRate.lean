import WebRtc.Lib.Tally
import WebRtc.Pacing.Accounts

/-!
# The pacer keeps its rate (`paced_sender.cc`)

What one step does to the media budget is one of four things (`Charged`): nothing, a credit, a charge for a packet,
a charge for padding. A credit raises the budget by at most itself, also where the budget was positive and is
replaced. A packet is sent from a positive budget only and is no longer than the window, so that the charge for it is
never cut off at the lowest value of the budget; a charge for padding may be, which leaves the budget no higher than
it was.
-/

namespace WebRtc.Pacing

open CInt

/-! ## One budget -/

namespace IntervalBudget

/-- The bytes of a time interval. -/
def credit (targetRateKbps deltaTimeMs : Int) : Int := (targetRateKbps * deltaTimeMs).tdiv 8

/-- The lowest value of a budget, as `UseBudget` and `set_target_rate_kbps` cut it off. -/
def lowest (targetRateKbps : Int) : Int := (-kWindowMs * targetRateKbps).tdiv 8

variable {r : Int} {b : IntervalBudget}

theorem lowest_eq (hr : 0 ≤ r) : lowest r = -(500 * r / 8) := by
  have hneg : -kWindowMs * r = -(500 * r) := by
    rw [show (-kWindowMs : Int) = -500 from rfl, Int.neg_mul]
  rw [lowest, hneg, Int.neg_tdiv, Int.tdiv_eq_ediv_of_nonneg (by omega)]

theorem credit_nonneg {delta : Int} (hr : 0 ≤ r) (hdelta : 0 ≤ delta) : 0 ≤ credit r delta :=
  Int.tdiv_nonneg (Int.mul_nonneg hr hdelta) (by decide)

/-- A credit is an `int`, as the product for the window is one. -/
theorem credit_lt {delta : Int} (hr : 0 ≤ r) (hfits : 500 * r < 2147483648) (hdelta : 0 ≤ delta)
    (hcap : delta ≤ kMaxIntervalTimeMs) : credit r delta < 2147483648 := by
  have hle : r * delta ≤ r * 30 := Int.mul_le_mul_of_nonneg_left hcap hr
  have hpos := Int.mul_nonneg hr hdelta
  rw [credit, Int.tdiv_eq_ediv_of_nonneg hpos]
  omega

theorem setTargetRateKbps_same (hrate : b.targetRateKbps = r) (hlowest : lowest r ≤ b.bytesRemaining) :
    b.setTargetRateKbps r = b := by
  rw [setTargetRateKbps, show max ((-kWindowMs * r).tdiv 8) b.bytesRemaining =
    b.bytesRemaining from max_eq_right hlowest,
    ← hrate]

/-- What a credit does. -/
theorem increaseBudget_spec {delta : Int} (hr : 0 ≤ r) (hfits : 500 * r < 2147483648) (hrate : b.targetRateKbps = r)
    (hlowest : lowest r ≤ b.bytesRemaining) (hdelta : 0 ≤ delta) (hcap : delta ≤ kMaxIntervalTimeMs) :
    lowest r ≤ (b.increaseBudget delta).bytesRemaining ∧
      (b.increaseBudget delta).bytesRemaining ≤ b.bytesRemaining + credit r delta ∧
      (b.increaseBudget delta).bytesRemaining ≤ credit r delta := by
  have hpos := credit_nonneg hr hdelta
  have hlt := credit_lt hr hfits hdelta hcap
  have hbytes : (b.targetRateKbps * delta).tdiv 8 = credit r delta := by
    rw [hrate, credit]
  rw [lowest_eq hr] at hlowest ⊢
  have heq : (b.increaseBudget delta).bytesRemaining =
      if b.bytesRemaining < 0 then b.bytesRemaining + credit r delta else credit r delta := by
    simp only [increaseBudget, hbytes]
    split
    · exact i32_id (by omega) (by omega)
    · exact i32_id (by omega) (by omega)
  rw [heq]
  split <;> omega

/-- What a charge does. -/
theorem useBudget_spec {bytes : UInt64} (hrate : b.targetRateKbps = r) (hlowest : lowest r ≤ b.bytesRemaining)
    (hbytes : bytes.toNat < 2147483648) :
    (b.useBudget bytes).bytesRemaining = max (b.bytesRemaining - bytes.toNat) (lowest r) ∧
      lowest r ≤ (b.useBudget bytes).bytesRemaining ∧ (b.useBudget bytes).bytesRemaining ≤ b.bytesRemaining := by
  have heq : (b.useBudget bytes).bytesRemaining = max (b.bytesRemaining - bytes.toNat) (lowest r) := by
    simp only [useBudget]
    rw [i32_id (by omega) (by omega), hrate, lowest]
  refine ⟨heq, ?_, ?_⟩
  · rw [heq]
    exact le_max_right _ _
  · rw [heq]
    exact max_le (by omega) hlowest

end IntervalBudget

open IntervalBudget

/-- What a step grants and sends, and the media budget before and after it. -/
inductive Charged (r : Int) (L : Nat) : IntervalBudget → Int → Int → IntervalBudget → Prop
  | kept (b : IntervalBudget) : Charged r L b 0 0 b
  | granted (b : IntervalBudget) {delta : Int} (hdelta : 0 ≤ delta) (hcap : delta ≤ kMaxIntervalTimeMs) :
    Charged r L b (credit r delta) 0 ((b.setTargetRateKbps r).increaseBudget delta)
  | packet (b : IntervalBudget) {bytes : UInt64} (hpos : 0 < b.bytesRemaining) (hbytes : bytes.toNat ≤ L) :
    Charged r L b 0 bytes.toNat (b.useBudget bytes)
  | padding (b : IntervalBudget) {bytes : UInt64} (hbytes : bytes.toNat < 2147483648) :
    Charged r L b 0 0 (b.useBudget bytes)

/-- The rate and the largest packet; the products that the code computes for the window are `int`s. -/
structure Rate (r : Int) (L : Nat) : Prop where
  fits : 500 * r < 2147483648
  window : 8 * (L : Int) ≤ 500 * r

theorem Rate.nonneg {r : Int} {L : Nat} (h : Rate r L) : 0 ≤ r := by
  have := h.window
  omega

section Charged
variable {r granted sent : Int} {L : Nat} {b b' : IntervalBudget}

theorem Charged.lowest_le (h : Charged r L b granted sent b') (hr : Rate r L) (hrate : b.targetRateKbps = r)
    (hlowest : lowest r ≤ b.bytesRemaining) : lowest r ≤ b'.bytesRemaining := by
  have hwindow := hr.window
  have hfits := hr.fits
  cases h with
  | kept => exact hlowest
  | granted hdelta hcap =>
    rw [setTargetRateKbps_same hrate hlowest]
    exact (increaseBudget_spec hr.nonneg hr.fits hrate hlowest hdelta hcap).1
  | packet hpos hbytes => exact (useBudget_spec hrate hlowest (by omega)).2.1
  | padding hbytes => exact (useBudget_spec hrate hlowest hbytes).2.1

/-- The budget rises by no more than what is granted less what is sent. -/
theorem Charged.balance (h : Charged r L b granted sent b') (hr : Rate r L) (hrate : b.targetRateKbps = r)
    (hlowest : lowest r ≤ b.bytesRemaining) : b'.bytesRemaining + sent ≤ b.bytesRemaining + granted := by
  have hwindow := hr.window
  have hfits := hr.fits
  cases h with
  | kept => exact le_refl _
  | granted hdelta hcap =>
    rw [setTargetRateKbps_same hrate hlowest]
    have := (increaseBudget_spec hr.nonneg hr.fits hrate hlowest hdelta hcap).2.1
    omega
  | packet hpos hbytes =>
    have heq := (useBudget_spec hrate hlowest (lt_of_le_of_lt hbytes (by omega))).1
    rw [lowest_eq hr.nonneg] at heq
    -- A packet is no longer than the window, so nothing of the charge is cut off.
    rw [heq, max_eq_left (by omega)]
    omega
  | padding hbytes =>
    have := (useBudget_spec hrate hlowest hbytes).2.2
    omega

theorem Charged.le_largest (h : Charged r L b granted sent b') (hr : Rate r L) (hrate : b.targetRateKbps = r)
    (hlowest : lowest r ≤ b.bytesRemaining) {m : Int} (hb : b.bytesRemaining ≤ m) (hm : granted ≤ m) :
    b'.bytesRemaining ≤ m := by
  have hwindow := hr.window
  have hfits := hr.fits
  cases h with
  | kept => exact hb
  | granted hdelta hcap =>
    rw [setTargetRateKbps_same hrate hlowest]
    exact ((increaseBudget_spec hr.nonneg hr.fits hrate hlowest hdelta hcap).2.2).trans hm
  | packet hpos hbytes => exact ((useBudget_spec hrate hlowest (by omega)).2.2).trans hb
  | padding hbytes => exact ((useBudget_spec hrate hlowest hbytes).2.2).trans hb

/-- A packet is sent from a positive budget. -/
theorem Charged.affords (h : Charged r L b granted sent b') : sent = 0 ∨ 0 < b.bytesRemaining ∧ sent ≤ L := by
  cases h with
  | packet hpos hbytes => exact .inr ⟨hpos, Int.ofNat_le.2 hbytes⟩
  | _ => exact .inl rfl

end Charged

/-! ## One step -/

namespace PacedSender

variable {heap : PriorityQueue Packet} {s s' : PacedSender} {processing : Processing}

/-- The milliseconds since the last call of `Process`. -/
def elapsedTimeMs (s : PacedSender) (nowUs : Int) : Int := (nowUs - s.timeLastUpdateUs + 500).tdiv 1000

theorem remaining_pos {b : IntervalBudget} (h : b.remaining ≠ 0) : 0 < b.bytesRemaining := by
  by_contra hle
  apply h
  rw [remaining, max_eq_left (by omega)]
  rfl

theorem sendPadding_ne_sendPacket (s : PacedSender) (packet : Packet) : s.sendPadding ≠ .sendPacket packet := by
  unfold sendPadding
  dsimp only
  split <;> split <;> simp

/-- A packet is taken where the budget is positive. -/
theorem sendLoop_media (heap : PriorityQueue Packet) (hprobe : s.prober.isProbing = false) :
    (s.sendLoop heap).2.mediaBudget = s.mediaBudget ∧
      ∀ packet, (s.sendLoop heap).1 = .sendPacket packet → 0 < s.mediaBudget.bytesRemaining := by
  unfold sendLoop
  split
  · exact ⟨rfl, fun packet h => absurd h (sendPadding_ne_sendPacket s packet)⟩
  split
  · exact ⟨rfl, fun packet h => by cases h⟩
  · rename_i hstop
    have hpos : 0 < s.mediaBudget.bytesRemaining := by
      refine remaining_pos fun hzero => hstop ⟨hzero, ?_⟩
      rw [hprobe]
      rfl
    split
    · exact ⟨rfl, fun packet h => by cases h⟩
    · exact ⟨rfl, fun packet _ => hpos⟩

theorem increaseBudget_rate (b : IntervalBudget) (delta : Int) :
    (b.increaseBudget delta).targetRateKbps = b.targetRateKbps := by
  unfold increaseBudget
  dsimp only
  split <;> rfl

theorem process_media {nowUs nowMs : Int} (hprobe : s.prober.isProbing = false)
    (h : s.process heap nowUs nowMs = some (processing, s')) :
    s'.mediaBudget = (if s.paused = true ∨ s.elapsedTimeMs nowUs ≤ 0 then s.mediaBudget else
      (s.mediaBudget.setTargetRateKbps s'.mediaBudget.targetRateKbps).increaseBudget
        (min kMaxIntervalTimeMs (s.elapsedTimeMs nowUs))) ∧
      ∀ packet, processing = .sendPacket packet → 0 < s'.mediaBudget.bytesRemaining := by
  unfold process at h
  dsimp only at h
  by_cases hpaused : s.paused = true
  · rw [if_pos hpaused] at h
    obtain ⟨rfl, rfl⟩ := Prod.mk.inj (Option.some.inj h)
    exact ⟨(if_pos (.inl hpaused)).symm, fun packet hp => by cases hp⟩
  have hfold : (nowUs - s.timeLastUpdateUs + 500).tdiv 1000 = s.elapsedTimeMs nowUs := rfl
  rw [if_neg hpaused, hfold] at h
  by_cases helapsed : s.elapsedTimeMs nowUs ≤ 0
  · rw [if_neg (show ¬s.elapsedTimeMs nowUs > 0 by omega)] at h
    have hloop := sendLoop_media heap (s := { s with timeLastUpdateUs := nowUs }) hprobe
    rw [Option.some.inj h] at hloop
    rw [if_pos (.inr helapsed), hloop.1]
    exact ⟨rfl, hloop.2⟩
  · rw [if_pos (show s.elapsedTimeMs nowUs > 0 by omega)] at h
    obtain ⟨packets, -, hrest⟩ := Option.map_eq_some_iff.1 h
    -- The credit is granted before the loop, which leaves the budget alone.
    have hloop := fun target => sendLoop_media heap (s := updateBytesPerInterval
      { s with timeLastUpdateUs := nowUs, packets := packets, mediaBudget := s.mediaBudget.setTargetRateKbps target }
      (min kMaxIntervalTimeMs (s.elapsedTimeMs nowUs))) hprobe
    have hbudget := hloop (if packets.sizeInBytes > 0 then
      { s with timeLastUpdateUs := nowUs, packets := packets : PacedSender }.targetBitrate else s.maxBitrateKbps)
    rw [hrest] at hbudget
    rw [if_neg (by tauto), hbudget.1]
    refine ⟨?_, hbudget.2⟩
    simp only [updateBytesPerInterval, increaseBudget_rate]
    rfl

theorem packetSent_media {packet : Packet} {success : Bool} {nowMs : Int} (hprobe : s.prober.isProbing = false)
    (h : s.packetSent heap packet success nowMs = some (processing, s')) :
    s'.mediaBudget = (if success then s.mediaBudget.useBudget packet.bytes else s.mediaBudget) ∧
      ∀ packet, processing = .sendPacket packet → 0 < s'.mediaBudget.bytesRemaining := by
  cases success with
  | false =>
    obtain ⟨rfl, rfl⟩ := Prod.mk.inj (Option.some.inj h)
    exact ⟨rfl, fun packet hp => by cases hp⟩
  | true =>
    obtain ⟨packets, -, hrest⟩ := Option.map_eq_some_iff.1 h
    have hprobe' : (s.bytesSent nowMs packet.bytes).prober.isProbing = false := by
      rw [← hprobe]
      simp only [bytesSent, BitrateProber.packetSent, BitrateProber.isProbing]
      split <;> rfl
    have hloop := sendLoop_media heap (s := { s.bytesSent nowMs packet.bytes with packets := packets }) hprobe'
    simp only [hprobe', Bool.false_eq_true, if_false] at hrest
    rw [hrest] at hloop
    rw [hloop.1]
    exact ⟨rfl, hloop.2⟩

end PacedSender

/-- No packet has more than `L` bytes, and the bytes of padding that are sent are an `int`. -/
def Action.Fits (L : Nat) : Action → Prop
  | .insertPacket _ _ _ _ bytes _ _ => bytes.toNat ≤ L
  | .paddingSent bytes _ => bytes.toNat < 2147483648
  | _ => True

namespace System

variable {heap : PriorityQueue Packet} {product : Int → Int → Int} {s s' : System} {r m : Int} {L : Nat} {a : Action}

/-- The credit that is granted in a call of `Process`. -/
def creditGranted (r : Int) (s : System) : Action → Int
  | .process nowUs _ =>
    if s.pacer.paused = true ∨ s.pacer.elapsedTimeMs nowUs ≤ 0 then 0
    else credit r (min kMaxIntervalTimeMs (s.pacer.elapsedTimeMs nowUs))
  | _ => 0

/-- The bytes of a packet that is sent successfully. -/
def mediaSent (s : System) : Action → Int
  | .packetSent true _ =>
    match s.processing with
    | .sendPacket packet => packet.bytes.toNat
    | _ => 0
  | _ => 0

/-- A step without probing, with a media target rate of `r` before and after it. -/
structure AtRate (heap : PriorityQueue Packet) (product : Int → Int → Int) (r : Int) (L : Nat) (s : System)
    (a : Action) : Prop where
  allowed : s.Allowed a
  noProbing : s.pacer.prober.isProbing = false
  rate : s.pacer.mediaBudget.targetRateKbps = r
  rateKept : (s.step heap product a).1.pacer.mediaBudget.targetRateKbps = r
  fits : a.Fits L

/-- Every packet has at most `L` bytes, the media budget lies between its lowest value and the credit `m`, and it is
positive where a packet is being sent. -/
structure Budgeted (r : Int) (L : Nat) (m : Int) (s : System) : Prop where
  accounted : s.Accounted
  packets : ∀ packet ∈ s.accepted, packet.bytes.toNat ≤ L
  lowest_le : lowest r ≤ s.pacer.mediaBudget.bytesRemaining
  le_largest : s.pacer.mediaBudget.bytesRemaining ≤ m
  sending : ∀ packet, s.processing = .sendPacket packet → 0 < s.pacer.mediaBudget.bytesRemaining

theorem creditGranted_nonneg (hr : 0 ≤ r) (s : System) (a : Action) : 0 ≤ s.creditGranted r a := by
  cases a with
  | process nowUs nowMs =>
    simp only [creditGranted]
    split
    · exact le_refl 0
    · refine credit_nonneg hr (le_min (by decide) ?_)
      omega
  | _ => exact le_refl 0

/-- The packets that were accepted are in the list, or sent. -/
theorem Budgeted.inFlight_le (h : Budgeted r L m s) {packet : Packet} (hsending : s.processing = .sendPacket packet) :
    packet.bytes.toNat ≤ L := by
  have hqueue := h.accounted.queue.heap
  rw [hsending] at hqueue
  have hmem : packet ∈ s.pacer.packets.packetList := hqueue.subset (List.mem_append_left _ List.mem_cons_self)
  exact h.packets packet (h.accounted.packets.symm.subset (List.mem_append_right _ hmem))

theorem step_accepted (h : ∀ packet ∈ s.accepted, packet.bytes.toNat ≤ L) (hfits : a.Fits L) :
    ∀ packet ∈ (s.step heap product a).1.accepted, packet.bytes.toNat ≤ L := by
  cases a with
  | insertPacket priority ssrc sequenceNumber captureTimeMs bytes retransmission nowMs =>
    simp only [step]
    split
    · exact h
    · simp only
      split
      · exact h
      · intro packet hpacket
        rcases List.mem_cons.1 hpacket with rfl | hold
        · exact hfits
        · exact h packet hold
  | averageQueueTimeMs nowMs =>
    simp only [step]
    split <;> exact h
  | process nowUs nowMs =>
    simp only [step]
    split
    · split <;> exact h
    · exact h
  | packetSent success nowMs =>
    simp only [step]
    split
    · split <;> exact h
    · exact h
  | paddingSent bytes nowMs =>
    simp only [step]
    split <;> exact h
  | _ => exact h

/-- The step leaves the budget and the thread in `Process` alone. -/
theorem Budgeted.kept (h : Budgeted r L m s) (hbudget : s'.pacer.mediaBudget = s.pacer.mediaBudget)
    (hprocessing : s'.processing = s.processing) :
    Charged r L s.pacer.mediaBudget 0 0 s'.pacer.mediaBudget ∧
      ∀ packet, s'.processing = .sendPacket packet → 0 < s'.pacer.mediaBudget.bytesRemaining := by
  rw [hbudget, hprocessing]
  exact ⟨.kept _, h.sending⟩

/-- **Step lemma.** -/
theorem step_charged (h : Budgeted r L m s) (ha : AtRate heap product r L s a) :
    Charged r L s.pacer.mediaBudget (s.creditGranted r a) (s.mediaSent a) (s.step heap product a).1.pacer.mediaBudget ∧
      ∀ packet, (s.step heap product a).1.processing = .sendPacket packet →
        0 < (s.step heap product a).1.pacer.mediaBudget.bytesRemaining := by
  have hrate := ha.rateKept
  cases a with
  | insertPacket priority ssrc sequenceNumber captureTimeMs bytes retransmission nowMs =>
    simp only [step, PacedSender.insertPacket]
    cases s.pacer.packets.push heap
      (s.pacer.newPacket priority ssrc sequenceNumber captureTimeMs bytes retransmission nowMs) with
    | none => exact h.kept rfl rfl
    | some packets => exact h.kept rfl rfl
  | averageQueueTimeMs nowMs =>
    simp only [step, PacedSender.averageQueueTimeMs]
    cases s.pacer.packets.updateQueueTime nowMs with
    | none => exact h.kept rfl rfl
    | some packets => exact h.kept rfl rfl
  | timeUntilNextProcess nowUs nowMs =>
    have hbudget : (s.pacer.timeUntilNextProcess nowUs nowMs).2.mediaBudget = s.pacer.mediaBudget := by
      unfold PacedSender.timeUntilNextProcess
      dsimp only
      split_ifs <;> rfl
    exact h.kept hbudget rfl
  | process nowUs nowMs =>
    obtain ⟨hidle, hlater⟩ := ha.allowed
    have hqueue := h.accounted.queue
    rw [hidle] at hqueue
    obtain ⟨processing, pacer, hsome, -⟩ := process_exact heap hqueue nowUs (h.accounted.clock.trans hlater)
    obtain ⟨hbudget, hsending⟩ := PacedSender.process_media ha.noProbing hsome
    simp only [step, hidle, hsome] at hrate ⊢
    refine ⟨?_, hsending⟩
    rw [hrate] at hbudget
    simp only [creditGranted, mediaSent]
    rw [hbudget]
    split
    · exact .kept _
    · exact .granted _ (le_min (by decide) (by omega)) (min_le_left _ _)
  | packetSent success nowMs =>
    obtain ⟨⟨packet, hprocessing⟩, hlater⟩ := ha.allowed
    have hqueue := h.accounted.queue
    rw [hprocessing] at hqueue
    obtain ⟨processing, pacer, hsome, -⟩ := packetSent_exact heap hqueue success nowMs
    obtain ⟨hbudget, hsending⟩ := PacedSender.packetSent_media ha.noProbing hsome
    simp only [step, hprocessing, hsome]
    refine ⟨?_, hsending⟩
    rw [hbudget]
    cases success with
    | false => exact .kept _
    | true =>
      simp only [mediaSent, hprocessing]
      exact .packet _ (h.sending packet hprocessing) (h.inFlight_le hprocessing)
  | paddingSent bytes nowMs =>
    obtain ⟨⟨paddingNeeded, hprocessing⟩, hlater⟩ := ha.allowed
    simp only [step, hprocessing, PacedSender.paddingSent]
    refine ⟨?_, fun packet hp => by cases hp⟩
    split
    · exact .padding _ ha.fits
    · exact .kept _
  | _ => exact h.kept rfl rfl

theorem step_budgeted (hr : Rate r L) (h : Budgeted r L m s) (ha : AtRate heap product r L s a)
    (hm : s.creditGranted r a ≤ m) : Budgeted r L m (s.step heap product a).1 := by
  obtain ⟨hcharged, hsending⟩ := step_charged h ha
  exact ⟨(step_accounted h.accounted ha.allowed).1, step_accepted h.packets ha.fits,
    hcharged.lowest_le hr ha.rate h.lowest_le, hcharged.le_largest hr ha.rate h.lowest_le h.le_largest hm, hsending⟩

theorem start_budgeted (hr : Rate r L) (nowUs nowMs : Int) (probingEnabled : Bool) (bitrateKbps minBitrateKbps : Int)
    (hm : credit r kMinPacketLimitMs ≤ m) :
    Budgeted r L m (start nowUs nowMs probingEnabled bitrateKbps r minBitrateKbps) := by
  have hlowest : lowest r ≤ (IntervalBudget.create r).bytesRemaining := by
    rw [lowest_eq hr.nonneg]
    have := hr.nonneg
    simp only [IntervalBudget.create]
    omega
  have hspec := increaseBudget_spec hr.nonneg hr.fits (b := .create r) rfl hlowest
    (show 0 ≤ kMinPacketLimitMs by decide) (by decide)
  exact ⟨start_accounted nowUs nowMs probingEnabled bitrateKbps r minBitrateKbps, fun packet hp => (by cases hp),
    hspec.1, hspec.2.2.trans hm, fun packet hp => by cases hp⟩

/-- What is granted and what is sent, with the media budget for a potential. -/
theorem spends_media (heap : PriorityQueue Packet) (product : Int → Int → Int) (hr : Rate r L) :
    Machine.Spends (step heap product) (fun s => ∃ m, Budgeted r L m s) (AtRate heap product r L)
      (fun s => s.pacer.mediaBudget.bytesRemaining) (creditGranted r) mediaSent L where
  keeps := by
    rintro s a ⟨m, h⟩ ha
    have hmore : Budgeted r L (max m (s.creditGranted r a)) s := { h with
      le_largest := h.le_largest.trans (le_max_left _ _) }
    exact ⟨_, step_budgeted hr hmore ha (le_max_right _ _)⟩
  grants := creditGranted_nonneg hr.nonneg
  balance := by
    rintro s a ⟨m, h⟩ ha
    exact (step_charged h ha).1.balance hr ha.rate h.lowest_le
  affords := by
    rintro s a ⟨m, h⟩ ha
    exact (step_charged h ha).1.affords

/-- **The media that any part of a run sends** is at most the credits of that part, the largest one granted before it
(the constructor grants the first) and a packet. -/
theorem mediaSent_le (heap : PriorityQueue Packet) (product : Int → Int → Int) {r : Int} {L : Nat} (hr : Rate r L)
    (nowUs nowMs : Int) (probingEnabled : Bool) (bitrateKbps minBitrateKbps : Int) {before series : List Action}
    (h : Machine.Meets (step heap product) (AtRate heap product r L)
      (start nowUs nowMs probingEnabled bitrateKbps r minBitrateKbps) (before ++ series)) :
    let s := start nowUs nowMs probingEnabled bitrateKbps r minBitrateKbps
    let s' := Machine.run (step heap product) s before
    Machine.total (step heap product) mediaSent s' series ≤
      Machine.total (step heap product) (creditGranted r) s' series +
        Machine.largest (step heap product) (creditGranted r) (credit r kMinPacketLimitMs) s before + L := by
  intro s s'
  obtain ⟨hbefore, hseries⟩ := Machine.meets_append.1 h
  have hfirst : credit r kMinPacketLimitMs ≤
      Machine.largest (step heap product) (creditGranted r) (credit r kMinPacketLimitMs) s before :=
    Machine.first_le_largest before
  have hbudgeted : Budgeted r L (Machine.largest (step heap product) (creditGranted r) (credit r kMinPacketLimitMs)
      s before) s' :=
    Machine.run_of_meets (fun _ _ hs ha => step_budgeted hr hs ha.1 ha.2)
      (start_budgeted hr nowUs nowMs probingEnabled bitrateKbps minBitrateKbps hfirst)
      (hbefore.and (Machine.meets_largest before))
  have hcredit : 0 ≤ credit r kMinPacketLimitMs := credit_nonneg hr.nonneg (by decide)
  have hcredits : 0 ≤ Machine.total (step heap product) (creditGranted r) s' series :=
    Machine.total_nonneg (creditGranted_nonneg hr.nonneg) series
  have hle := hbudgeted.le_largest
  rcases (spends_media heap product hr).le ⟨_, hbudgeted⟩ hseries with hnone | hspent
  · rw [hnone]
    omega
  · omega

/-- At 500 kbps a packet of 1200 bytes is sent from a credit of 625. -/
theorem mediaSent_le_one :
    let step := step (PriorityQueue.ofLess comparator) fun multiplier bitrate => multiplier * bitrate
    let s := start 0 0 false 500 500 0
    let s' := Machine.run step s [.insertPacket .normal 7 1 0 1200 false 1]
    Machine.total step mediaSent s' [.process 10000 10, .packetSent true 13] ≤
      Machine.total step (creditGranted 500) s' [.process 10000 10, .packetSent true 13] +
        Machine.largest step (creditGranted 500) (credit 500 kMinPacketLimitMs) s
          [.insertPacket .normal 7 1 0 1200 false 1] + (1200 : Nat) := by
  refine mediaSent_le (PriorityQueue.ofLess comparator) (fun multiplier bitrate => multiplier * bitrate)
    ⟨by decide, by decide⟩ 0 0 false 500 0 ⟨⟨?_, rfl, rfl, rfl, ?_⟩, ⟨⟨rfl, ?_⟩, rfl, rfl, rfl, trivial⟩,
      ⟨⟨⟨_, rfl⟩, ?_⟩, rfl, rfl, rfl, trivial⟩, trivial⟩
  · change (0 : Int) ≤ 1
    decide
  · change 1200 ≤ 1200
    exact le_refl _
  · change (1 : Int) ≤ 10
    decide
  · change (10 : Int) ≤ 13
    decide

end System
end WebRtc.Pacing
