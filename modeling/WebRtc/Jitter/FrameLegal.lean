import WebRtc.Jitter.FrameSession
import WebRtc.Lib.Machine

/-!
# When the checks of a frame buffer hold (`frame_buffer.cc`)

An insertion leaves the buffer, or one of its checks fails, exactly where it is not `Legal`: a STAP-A with more start
codes than there is room for, a packet in front of one whose data pointer is NULL, a second packet with a marker, or a
packet that leaves a gap in a frame that was complete and can be decoded with errors. `Consistent` is what every
insertion keeps.
-/

namespace WebRtc.Jitter

open CInt VCMSessionInfo

namespace FrameBuffer

/-- The bytes of the buffer when the packet is put into the session: none when the frame is too big. -/
def sizeFor (s : FrameBuffer) (packet : ReceivedPacket) : Option Nat :=
  if s.requiredSizeBytes packet < s.size then some s.size
  else if newSize s.size (s.requiredSizeBytes packet) > kMaxJBFrameSizeBytes then none
  else some (max s.size (newSize s.size (s.requiredSizeBytes packet)))

/-- No check fails. -/
structure Legal (s : FrameBuffer) (packet : ReceivedPacket) (decodeErrorMode : VCMDecodeErrorMode)
    (frameData : FrameData) : Prop where
  room : ∀ size, s.sizeFor packet = some size → Takes s.session.toVCMSessionInfo packet →
    s.length + requiredLength packet ≤ size
  pointers : s.sizeFor packet ≠ none → Takes s.session.toVCMSessionInfo packet →
    ¬ MovesFromNull (s.session.packets.rtakeWhile (passes packet.seqNum))
  marker : s.sizeFor packet ≠ none → packet.frameType = .emptyFrame ∨ Takes s.session.toVCMSessionInfo packet →
    packet.markerBit = true → s.rotationSet = false
  sequence : s.sizeFor packet ≠ none → Takes s.session.toVCMSessionInfo packet → s.state = .stateComplete →
    (placed s.session.toVCMSessionInfo packet).IsChain (fun a b => a + 1 = b) ∨
      ¬DecodableWith s.session packet decodeErrorMode frameData

/-- The data lies without gaps in the buffer, and a frame that was complete is complete, or cannot be decoded. -/
structure Consistent (s : FrameBuffer) : Prop where
  contiguous : Contiguous 0 s.session.packets
  length : s.length = totalSize s.session.packets
  fits : s.length ≤ s.size
  size : s.size ≤ kMaxJBFrameSizeBytes
  known : s.session.complete = true ∨ s.state = .stateComplete → Known s.session.toVCMSessionInfo
  settled : s.state = .stateComplete → s.session.complete = true ∨ s.session.decodable = false

section Step
variable {s s' : FrameBuffer} {packet : ReceivedPacket} {decodeErrorMode : VCMDecodeErrorMode} {frameData : FrameData}
  {timeInMs retVal : Int} {result : VCMFrameBufferEnum} {size : Nat}

/-! ## The parts of an insertion -/

/-- What the first packet sets is not asked about again. -/
structure Entered (s s' : FrameBuffer) : Prop where
  session : s'.session = s.session
  buffer : s'.buffer = s.buffer
  size : s'.size = s.size
  length : s'.length = s.length
  rotationSet : s'.rotationSet = s.rotationSet
  state : s'.state = .stateComplete ↔ s.state = .stateComplete

theorem firstPacket_entered (s : FrameBuffer) (packet : ReceivedPacket) :
    ∃ s', s.firstPacket packet = some s' ∧ Entered s s' := by
  unfold firstPacket
  split
  · rename_i hempty
    dsimp only
    split
    · refine ⟨{ s with timeStamp := packet.timestamp, codec := packet.codec, state := .stateIncomplete }, ?_,
        rfl, rfl, rfl, rfl, rfl, ?_⟩
      · simp [setState, hempty]
      · simp [hempty]
    · exact ⟨_, rfl, rfl, rfl, rfl, rfl, rfl, Iff.rfl⟩
  · exact ⟨s, rfl, rfl, rfl, rfl, rfl, rfl, Iff.rfl⟩

theorem makeRoom_eq (s : FrameBuffer) (packet : ReceivedPacket) :
    s.makeRoom (s.requiredSizeBytes packet) = (s.sizeFor packet).map fun size => { s with size } := by
  unfold makeRoom sizeFor
  by_cases hroom : s.requiredSizeBytes packet < s.size
  · rw [if_neg (by omega), if_pos hroom]
    rfl
  rw [if_pos (by omega), if_neg hroom]
  split
  · rfl
  · simp only [verifyAndAllocate, Option.map_some, Option.some.injEq]
    split
    · rename_i hgrows
      rw [max_eq_right (le_of_lt hgrows)]
    · rename_i hkeeps
      rw [max_eq_left (not_lt.1 hkeeps)]

theorem sizeFor_spec (hsize : s.size ≤ kMaxJBFrameSizeBytes) (h : s.sizeFor packet = some size) :
    s.size ≤ size ∧ size ≤ kMaxJBFrameSizeBytes := by
  unfold sizeFor at h
  split at h
  · obtain rfl := Option.some.inj h
    exact ⟨le_refl _, hsize⟩
  · split at h
    · cases h
    · obtain rfl := Option.some.inj h
      exact ⟨le_max_left _ _, max_le hsize (by omega)⟩

theorem setState_complete (s : FrameBuffer) : s.setState .stateComplete = some { s with state := .stateComplete } := by
  cases hstate : s.state <;> simp [setState, hstate]
  rw [← hstate]

theorem setState_decodable (s : FrameBuffer) : s.setState .stateDecodable =
    if s.state = .stateComplete then none else some { s with state := .stateDecodable } := by
  cases hstate : s.state <;> simp [setState, hstate]
  rw [← hstate]

theorem packetInserted_isSome (s : FrameBuffer) (packet : ReceivedPacket) (retVal timeInMs : Int) :
    (s.packetInserted packet retVal timeInMs).isSome = true ↔ (packet.markerBit = true → s.rotationSet = false) ∧
      (s.state = .stateComplete → s.session.complete = true ∨ s.session.decodable = false) := by
  unfold packetInserted
  dsimp only
  by_cases hrotation : packet.markerBit = true ∧ s.rotationSet = true
  · rw [if_pos hrotation]
    refine iff_of_false (by simp) ?_
    rintro ⟨hmarker, -⟩
    rw [hmarker hrotation.1] at hrotation
    cases hrotation.2
  · have hmarker : packet.markerBit = true → s.rotationSet = false := by
      intro hset
      rw [← Bool.not_eq_true]
      exact fun hboth => hrotation ⟨hset, hboth⟩
    rw [if_neg hrotation]
    by_cases hcomplete : s.session.complete = true
    · simpa [hcomplete, setState_complete] using hmarker
    · rw [if_neg hcomplete]
      by_cases hdecodable : s.session.decodable = true
      · rw [if_pos hdecodable, setState_decodable]
        by_cases hstate : s.state = .stateComplete
        · simp [hstate, hcomplete, hdecodable]
        · simpa [hstate] using hmarker
      · rw [if_neg hdecodable]
        exact iff_of_true rfl ⟨hmarker, fun _ => .inr (Bool.not_eq_true _ ▸ hdecodable)⟩

/-- What follows the insertion changes the length and the state. -/
structure Finished (s s' : FrameBuffer) (length : Nat) : Prop where
  session : s'.session = s.session
  buffer : s'.buffer = s.buffer
  size : s'.size = s.size
  length : s'.length = s.length + length
  state : s'.state = .stateComplete → s.session.complete = true ∨ s.state = .stateComplete ∧ s.session.decodable = false

theorem packetInserted_finished (h : s.packetInserted packet retVal timeInMs = some (result, s')) :
    Finished s s' (u32 retVal).toNat ∧ result ≠ .sizeError := by
  have hchecks := (packetInserted_isSome s packet retVal timeInMs).1 (by rw [h]; rfl)
  unfold packetInserted at h
  dsimp only at h
  split at h
  · cases h
  · split at h
    · rename_i hcomplete
      rw [setState_complete] at h
      obtain ⟨rfl, rfl⟩ := Prod.mk.inj (Option.some.inj h)
      exact ⟨⟨rfl, rfl, rfl, rfl, fun _ => .inl hcomplete⟩, by simp⟩
    · rename_i hincomplete
      split at h
      · rw [setState_decodable] at h
        split at h
        · cases h
        · obtain ⟨rfl, rfl⟩ := Prod.mk.inj (Option.some.inj h)
          exact ⟨⟨rfl, rfl, rfl, rfl, fun hstate => by cases hstate⟩, by simp⟩
      · rename_i hdecodable
        obtain ⟨rfl, rfl⟩ := Prod.mk.inj (Option.some.inj h)
        exact ⟨⟨rfl, rfl, rfl, rfl, fun hstate => .inr ⟨hstate, Bool.not_eq_true _ ▸ hdecodable⟩⟩, by simp⟩

theorem Entered.sizeFor_eq {s₁ : FrameBuffer} (h : Entered s s₁) (packet : ReceivedPacket) :
    s₁.sizeFor packet = s.sizeFor packet := by
  have hrequired : s₁.requiredSizeBytes packet = s.requiredSizeBytes packet := by
    rw [requiredSizeBytes, requiredSizeBytes, h.length]
  rw [sizeFor, sizeFor, hrequired, h.size]

/-- What is done with what the session returns. -/
def finish (s : FrameBuffer) (packet : ReceivedPacket) (timeInMs : Int) (inserted : Int × DecodableSession × Memory) :
    Option (VCMFrameBufferEnum × FrameBuffer) :=
  let s₂ := { s with session := inserted.2.1, buffer := inserted.2.2 }
  if i32 inserted.1 = -1 then some (.sizeError, s₂)
  else if i32 inserted.1 = -2 then some (.duplicatePacket, s₂)
  else if i32 inserted.1 = -3 then some (.outOfBoundsPacket, s₂)
  else s₂.packetInserted packet (i32 inserted.1) timeInMs

/-- The insertion, after the buffer has grown. -/
theorem insertPacket_eq (s : FrameBuffer) (packet : ReceivedPacket) (timeInMs : Int)
    (decodeErrorMode : VCMDecodeErrorMode) (frameData : FrameData) : ∃ s₁, Entered s s₁ ∧
    s.insertPacket packet timeInMs decodeErrorMode frameData = match s.sizeFor packet with
      | none => some (.sizeError, s₁)
      | some size => (insertIntoSession { s₁ with size } packet decodeErrorMode frameData).bind
          (finish { s₁ with size } packet timeInMs) := by
  obtain ⟨s₁, hfirst, hentered⟩ := firstPacket_entered s packet
  refine ⟨s₁, hentered, ?_⟩
  rw [insertPacket, hfirst, Option.bind_eq_bind, Option.bind_some, makeRoom_eq, hentered.sizeFor_eq]
  cases s.sizeFor packet with
  | none => rfl
  | some size => rfl

/-! ## One insertion -/

/-- A packet that is rejected for the size leaves what is stored. -/
def KeepsStored (s : FrameBuffer) (result : VCMFrameBufferEnum) (s' : FrameBuffer) : Prop :=
  result = .sizeError → s'.length = s.length ∧ s'.session.packets = s.session.packets ∧ s'.buffer = s.buffer

/-- The session and the buffer have not changed but for what does not matter. -/
theorem Consistent.left (h : Consistent s) (hleft : Left s.session s'.session) (hlength : s'.length = s.length)
    (hsize : s.size ≤ s'.size ∧ s'.size ≤ kMaxJBFrameSizeBytes)
    (hstate : s'.state = .stateComplete → s.session.complete = true ∨ s.state = .stateComplete) : Consistent s' where
  contiguous := by
    rw [hleft.packets]
    exact h.contiguous
  length := by
    rw [hleft.packets, hlength]
    exact h.length
  fits := by
    have := h.fits
    omega
  size := hsize.2
  known := by
    rintro (hcomplete | hdone)
    · exact hleft.known (h.known (.inl (hleft.complete.symm.trans hcomplete)))
    · rcases hstate hdone with hcomplete | hdone
      · exact hleft.known (h.known (.inl hcomplete))
      · exact hleft.known (h.known (.inr hdone))
  settled := by
    intro hdone
    rw [hleft.complete, hleft.decodable]
    rcases hstate hdone with hcomplete | hdone
    · exact .inl hcomplete
    · exact h.settled hdone

theorem not_takes_of_empty (hempty : packet.frameType = .emptyFrame) : ¬Takes s.session.toVCMSessionInfo packet :=
  fun htakes => htakes.arrives.media hempty

/-- A packet that is rejected. -/
theorem finish_rejected {code : Int} {session : DecodableSession} {buffer : Memory}
    (hcode : code = -1 ∨ code = -2 ∨ code = -3) :
    ∃ result, s.finish packet timeInMs (code, session, buffer) = some (result, { s with session, buffer }) := by
  rcases hcode with rfl | rfl | rfl
  · exact ⟨.sizeError, rfl⟩
  · exact ⟨.duplicatePacket, rfl⟩
  · exact ⟨.outOfBoundsPacket, rfl⟩

/-- A packet that is not. -/
theorem finish_inserted {length : Nat} (hlength : length ≤ kMaxJBFrameSizeBytes) (session : DecodableSession)
    (buffer : Memory) : s.finish packet timeInMs ((length : Int), session, buffer) =
      packetInserted { s with session, buffer } packet length timeInMs := by
  have hcast : i32 (length : Int) = length := by
    simp only [kMaxJBFrameSizeBytes] at hlength
    exact i32_id (by omega) (by omega)
  simp only [finish, hcast]
  rw [if_neg (by omega), if_neg (by omega), if_neg (by omega)]

theorem u32_length {length : Nat} (hlength : length ≤ kMaxJBFrameSizeBytes) : (u32 (length : Int)).toNat = length := by
  simp only [kMaxJBFrameSizeBytes, u32] at *
  omega

/-- What is proved of one insertion and its result. -/
structure StepSpec (s : FrameBuffer) (packet : ReceivedPacket) (decodeErrorMode : VCMDecodeErrorMode)
    (frameData : FrameData) (o : Option (VCMFrameBufferEnum × FrameBuffer)) : Prop where
  legal : o.isSome = true ↔ Legal s packet decodeErrorMode frameData
  keeps : ∀ result s', o = some (result, s') → Consistent s' ∧ KeepsStored s result s'

/-- Nothing is put into the session because the frame is too big. -/
theorem step_tooBig {s₁ : FrameBuffer} (h : Consistent s) (hentered : Entered s s₁) (hsize : s.sizeFor packet = none) :
    StepSpec s packet decodeErrorMode frameData (some (.sizeError, s₁)) where
  legal := by
    refine iff_of_true rfl ⟨fun size hsome => ?_, fun hsome => absurd hsize hsome, fun hsome => absurd hsize hsome,
      fun hsome => absurd hsize hsome⟩
    rw [hsize] at hsome
    cases hsome
  keeps := by
    rintro result s' hresult
    obtain ⟨rfl, rfl⟩ := Prod.mk.inj (Option.some.inj hresult)
    refine ⟨h.left (hentered.session ▸ .refl _) hentered.length ?_ fun hdone => .inr (hentered.state.1 hdone),
      fun _ => ⟨hentered.length, by rw [hentered.session], hentered.buffer⟩⟩
    rw [hentered.size]
    exact ⟨le_refl _, h.size⟩

section Grown
variable {s₁ : FrameBuffer} {session : DecodableSession} {written : Memory}

/-- An empty packet can only have a marker too many. -/
theorem step_empty (h : Consistent s) (hentered : Entered s s₁) (hsize : s.sizeFor packet = some size)
    (hempty : packet.frameType = .emptyFrame) (hleft : Left s.session session)
    (hsession : s.session.insertPacket s.buffer packet decodeErrorMode frameData = (0, session, s.buffer)) :
    StepSpec s packet decodeErrorMode frameData
      ((insertIntoSession { s₁ with size } packet decodeErrorMode frameData).bind
      (finish { s₁ with size } packet timeInMs)) := by
  have hgrown := sizeFor_spec h.size hsize
  have hinto : insertIntoSession { s₁ with size } packet decodeErrorMode frameData = some (0, session, s.buffer) := by
    simp only [insertIntoSession, hentered.session, hentered.buffer, hsession, hempty, or_true, if_true]
  rw [hinto, Option.bind_some, show (0 : Int) = ((0 : Nat) : Int) from rfl, finish_inserted (Nat.zero_le _)]
  constructor
  · rw [packetInserted_isSome]
    constructor
    · rintro ⟨hmarker, -⟩
      exact ⟨fun _ _ htakes => absurd htakes (not_takes_of_empty hempty),
        fun _ htakes => absurd htakes (not_takes_of_empty hempty), fun _ _ hset =>
          hentered.rotationSet ▸ hmarker hset, fun _ htakes => absurd htakes (not_takes_of_empty hempty)⟩
    · intro hlegal
      refine ⟨fun hset => ?_, fun hdone => ?_⟩
      · rw [← hlegal.marker (by rw [hsize]; simp) (.inl hempty) hset, ← hentered.rotationSet]
      · show session.complete = true ∨ session.decodable = false
        rw [hleft.complete, hleft.decodable]
        exact h.settled (hentered.state.1 hdone)
  · intro result s' hresult
    obtain ⟨hfinished, hne⟩ := packetInserted_finished hresult
    have hsession' : s'.session = session := hfinished.session
    have hlength : s'.length = s.length := hfinished.length.trans hentered.length
    have hsize' : s'.size = size := hfinished.size
    refine ⟨h.left (hsession' ▸ hleft) hlength (hsize' ▸ hgrown) fun hdone => ?_, fun herror => absurd herror hne⟩
    rcases hfinished.state hdone with hcomplete | hdone'
    · exact .inl (hleft.complete.symm.trans hcomplete)
    · exact .inr (hentered.state.1 hdone'.1)

theorem step_rejected {code : Int} (h : Consistent s) (hentered : Entered s s₁) (hsize : s.sizeFor packet = some size)
    (hmedia : packet.frameType ≠ .emptyFrame) (hnot : ¬Takes s.session.toVCMSessionInfo packet)
    (hcode : code = -1 ∨ code = -2 ∨ code = -3) (hleft : Left s.session session)
    (hsession : s.session.insertPacket s.buffer packet decodeErrorMode frameData = (code, session, s.buffer)) :
    StepSpec s packet decodeErrorMode frameData
      ((insertIntoSession { s₁ with size } packet decodeErrorMode frameData).bind
      (finish { s₁ with size } packet timeInMs)) := by
  have hinto : insertIntoSession { s₁ with size } packet decodeErrorMode frameData =
      some (code, session, s.buffer) := by
    simp only [insertIntoSession, hentered.session, hentered.buffer, hsession]
    rw [if_pos (.inl (by omega))]
  obtain ⟨result, hfinish⟩ := @finish_rejected { s₁ with size } packet timeInMs code session s.buffer hcode
  rw [hinto, Option.bind_some, hfinish]
  constructor
  · refine iff_of_true rfl ⟨fun _ _ htakes => absurd htakes hnot, fun _ htakes => absurd htakes hnot, ?_,
      fun _ htakes => absurd htakes hnot⟩
    rintro - (hempty | htakes)
    · exact absurd hempty hmedia
    · exact absurd htakes hnot
  · rintro result' s' hresult
    obtain ⟨rfl, rfl⟩ := Prod.mk.inj (Option.some.inj hresult)
    exact ⟨h.left hleft hentered.length (sizeFor_spec h.size hsize) fun hdone => .inr (hentered.state.1 hdone),
      fun _ => ⟨hentered.length, hleft.packets, rfl⟩⟩

/-- A packet that is put into the list. -/
theorem step_taken (h : Consistent s) (hwhole : Whole packet) (hentered : Entered s s₁)
    (hsize : s.sizeFor packet = some size) (htakes : Takes s.session.toVCMSessionInfo packet)
    (hinserted : Inserted s.session packet decodeErrorMode frameData
      (insertBuffer s.buffer (s.session.packets.rdropWhile (passes packet.seqNum)) packet
        (s.session.packets.rtakeWhile (passes packet.seqNum))).1 session)
    (hsession : s.session.insertPacket s.buffer packet decodeErrorMode frameData =
      ((requiredLength packet : Int), session, written)) :
    StepSpec s packet decodeErrorMode frameData
      ((insertIntoSession { s₁ with size } packet decodeErrorMode frameData).bind
      (finish { s₁ with size } packet timeInMs)) := by
  have hgrown := sizeFor_spec h.size hsize
  have hsome : s.sizeFor packet ≠ none := by simp [hsize]
  have hsplit := @List.rdropWhile_append_rtakeWhile _ (passes packet.seqNum) s.session.packets
  have hcontiguous := h.contiguous
  rw [← hsplit] at hcontiguous
  have htotal : totalSize (s.session.packets.rdropWhile (passes packet.seqNum) ++
      s.session.packets.rtakeWhile (passes packet.seqNum)) = s.length := by
    rw [hsplit, h.length]
  have hrange := @insertBufferAccesses_inRange size (s.session.packets.rdropWhile (passes packet.seqNum))
    (s.session.packets.rtakeWhile (passes packet.seqNum)) packet hcontiguous
    (by rw [htotal]; exact h.fits.trans hgrown.1)
  rw [htotal] at hrange
  obtain ⟨hplaced, htotal'⟩ := insertBuffer_contiguous s.buffer packet hcontiguous
  rw [htotal] at htotal'
  have hinto : insertIntoSession { s₁ with size } packet decodeErrorMode frameData =
      if s.length + requiredLength packet ≤ size ∧
          ¬ MovesFromNull (s.session.packets.rtakeWhile (passes packet.seqNum)) then
        some ((requiredLength packet : Int), pointersIn size session, written)
      else none := by
    have hnot : ¬(((requiredLength packet : Nat) : Int) < 0 ∨ packet.frameType = .emptyFrame) := by
      rintro (hneg | hempty)
      · omega
      · exact htakes.arrives.media hempty
    simp only [insertIntoSession, hentered.session, hentered.buffer, hsession]
    rw [if_neg hnot]
    by_cases hboth : s.length + requiredLength packet ≤ size ∧
        ¬ MovesFromNull (s.session.packets.rtakeWhile (passes packet.seqNum))
    · rw [if_pos ⟨hwhole, (hrange hboth.2).2 hboth.1, hboth.2⟩, if_pos hboth]
    · rw [if_neg fun hin => hboth ⟨(hrange hin.2.2).1 hin.2.1, hin.2.2⟩, if_neg hboth]
  rw [hinto]
  by_cases hboth : s.length + requiredLength packet ≤ size ∧
      ¬ MovesFromNull (s.session.packets.rtakeWhile (passes packet.seqNum))
  · obtain ⟨hfits, hnull⟩ := hboth
    have hlength : requiredLength packet ≤ kMaxJBFrameSizeBytes := by omega
    have hchain : Known s.session.toVCMSessionInfo → (session.complete = true ↔
        (placed s.session.toVCMSessionInfo packet).IsChain fun a b => a + 1 = b) := by
      intro hknown
      rw [hinserted.complete hknown, allInSequence_iff, insertBuffer_seqNums]
      rfl
    obtain ⟨hcompletes, hdecodes, hfirsts, hlasts⟩ := pointersIn_rest size session
    have hknows : Known (pointersIn size session).toVCMSessionInfo ↔ Known session.toVCMSessionInfo := by
      rw [Known, Known, hfirsts, hlasts]
    rw [if_pos ⟨hfits, hnull⟩, Option.bind_some, finish_inserted hlength]
    constructor
    · rw [packetInserted_isSome]
      dsimp only
      rw [hcompletes, hdecodes]
      constructor
      · rintro ⟨hmarker, hsettled⟩
        refine ⟨fun size' hsize' _ => ?_, fun _ _ => hnull, fun _ _ hset => hentered.rotationSet ▸ hmarker hset,
          fun _ _ hdone => ?_⟩
        · obtain rfl := Option.some.inj (hsize.symm.trans hsize')
          exact hfits
        · have hknown := h.known (.inr hdone)
          have hsettled' : session.complete = true ∨ session.decodable = false := hsettled (hentered.state.2 hdone)
          by_cases hcomplete : session.complete = true
          · exact .inl ((hchain hknown).1 hcomplete)
          · have hincomplete : session.complete = false := Bool.not_eq_true _ ▸ hcomplete
            refine .inr fun hwith => ?_
            rw [(hinserted.decodable hknown hincomplete).2 hwith] at hsettled'
            rcases hsettled' with hdone' | hfalse
            · exact hcomplete hdone'
            · cases hfalse
      · intro hlegal
        refine ⟨fun hset => hentered.rotationSet.trans (hlegal.marker hsome (.inr htakes) hset), fun hdone => ?_⟩
        have hstate := hentered.state.1 hdone
        have hknown := h.known (.inr hstate)
        by_cases hcomplete : session.complete = true
        · exact .inl hcomplete
        · have hincomplete : session.complete = false := Bool.not_eq_true _ ▸ hcomplete
          rcases hlegal.sequence hsome htakes hstate with hin | hnot
          · exact .inl ((hchain hknown).2 hin)
          · right
            rw [← Bool.not_eq_true, hinserted.decodable hknown hincomplete]
            exact hnot
    · intro result s' hresult
      obtain ⟨hfinished, hne⟩ := packetInserted_finished hresult
      have hsession' : s'.session = pointersIn size session := hfinished.session
      have hlength' : s'.length = s.length + requiredLength packet := by
        rw [hfinished.length, u32_length hlength]
        exact congrArg (· + requiredLength packet) hentered.length
      have hsize' : s'.size = size := hfinished.size
      have hdone : s'.state = .stateComplete → session.complete = true ∨
          Known s.session.toVCMSessionInfo ∧ session.decodable = false := by
        intro hstate
        have hpointers : (pointersIn size session).complete = true ∨ s₁.state = .stateComplete ∧
            (pointersIn size session).decodable = false := hfinished.state hstate
        rw [hcompletes, hdecodes] at hpointers
        rcases hpointers with hcomplete | ⟨hstate', hfalse⟩
        · exact .inl hcomplete
        · exact .inr ⟨h.known (.inr (hentered.state.1 hstate')), hfalse⟩
      have hcompleted := hinserted.completed fun hcomplete => h.known (.inl hcomplete)
      obtain ⟨hpointed, htotal''⟩ := @pointersIn_packets size session (hinserted.packets ▸ hplaced)
        (by rw [hinserted.packets, htotal']; exact hfits)
      rw [hinserted.packets, htotal'] at htotal''
      refine ⟨⟨?_, ?_, ?_, hsize' ▸ hgrown.2, ?_, ?_⟩, fun herror => absurd herror hne⟩
      · rw [hsession']
        exact hpointed
      · rw [hsession', hlength', htotal'']
      · rw [hlength', hsize']
        exact hfits
      · rw [hsession', hcompletes, hknows]
        rintro (hcomplete | hstate)
        · exact hcompleted hcomplete
        · rcases hdone hstate with hcomplete | ⟨hknown, -⟩
          · exact hcompleted hcomplete
          · exact hinserted.known hknown
      · intro hstate
        rw [hsession', hcompletes, hdecodes]
        exact (hdone hstate).imp id And.right
  · rw [if_neg hboth]
    refine ⟨iff_of_false (by simp) fun hlegal => hboth ⟨hlegal.room size hsize htakes, hlegal.pointers hsome htakes⟩,
      fun result s' hresult => ?_⟩
    cases hresult

end Grown

/-- **Step lemma.** -/
theorem insertPacket_step (h : Consistent s) (hwhole : Whole packet) (timeInMs : Int)
    (decodeErrorMode : VCMDecodeErrorMode) (frameData : FrameData) :
    StepSpec s packet decodeErrorMode frameData (s.insertPacket packet timeInMs decodeErrorMode frameData) := by
  obtain ⟨s₁, hentered, heq⟩ := insertPacket_eq s packet timeInMs decodeErrorMode frameData
  rw [heq]
  cases hsize : s.sizeFor packet with
  | none => exact step_tooBig h hentered hsize
  | some size =>
    rcases insertPacket_cases s.session s.buffer packet decodeErrorMode frameData with
      ⟨hempty, session, hsession, hleft⟩ | ⟨⟨hmedia, hnot⟩, code, session, hsession, hcode, hleft⟩ |
        ⟨htakes, session, written, hsession, hinserted⟩
    · exact step_empty h hentered hsize hempty hleft hsession
    · exact step_rejected h hentered hsize hmedia hnot hcode hleft hsession
    · exact step_taken h hwhole hentered hsize htakes hinserted hsession

end Step
end FrameBuffer
end WebRtc.Jitter
