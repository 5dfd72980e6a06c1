import WebRtc.Jitter.FrameLegal

/-!
# Frames, packet after packet (`frame_buffer.cc`)

In a run no check fails exactly where every insertion is legal (`frameBuffer_exact`). There is room for every packet
but a STAP-A of three units or more that get start codes (`room_of_few`); a new frame buffer is too small for one that
fills it to the last byte (`create_overflows`).
-/

namespace WebRtc.Jitter

open VCMSessionInfo FrameBuffer

inductive FrameInput where
  | insertPacket (packet : ReceivedPacket) (timeInMs : Int) (decodeErrorMode : VCMDecodeErrorMode)
    (frameData : FrameData)
  | reset

def FrameInput.Whole : FrameInput → Prop
  | .insertPacket packet _ _ _ => Jitter.Whole packet
  | .reset => True

namespace FrameBuffer

/-- None when a check fails. -/
def step (s : FrameBuffer) : FrameInput → FrameBuffer × Option VCMFrameBufferEnum
  | .insertPacket packet timeInMs decodeErrorMode frameData =>
    match s.insertPacket packet timeInMs decodeErrorMode frameData with
    | none => (s, none)
    | some (result, s') => (s', some result)
  | .reset => (s.reset, some .noError)

def LegalInput (s : FrameBuffer) : FrameInput → Prop
  | .insertPacket packet _ decodeErrorMode frameData => Legal s packet decodeErrorMode frameData
  | .reset => True

/-- A packet that is rejected for the size leaves the length and the data. -/
def RejectedKeeps (s : FrameBuffer) (input : FrameInput) : Prop :=
  (s.step input).2 = some .sizeError → (s.step input).1.length = s.length ∧
    (s.step input).1.session.packets = s.session.packets ∧ (s.step input).1.buffer = s.buffer

theorem create_consistent (buffer : Memory) : Consistent (create buffer) where
  contiguous := trivial
  length := rfl
  fits := le_refl _
  size := Nat.zero_le _
  known := by rintro (h | h) <;> cases h
  settled := fun h => by cases h

theorem reset_consistent {s : FrameBuffer} (h : Consistent s) : Consistent s.reset where
  contiguous := trivial
  length := rfl
  fits := Nat.zero_le _
  size := h.size
  known := by rintro (h | h) <;> cases h
  settled := fun h => by cases h

section Runs
variable {s : FrameBuffer} {input : FrameInput}

theorem step_insertPacket (s : FrameBuffer) (packet : ReceivedPacket) (timeInMs : Int)
    (decodeErrorMode : VCMDecodeErrorMode) (frameData : FrameData) :
    s.step (.insertPacket packet timeInMs decodeErrorMode frameData) =
      match s.insertPacket packet timeInMs decodeErrorMode frameData with
      | none => (s, none)
      | some (result, s') => (s', some result) := rfl

theorem step_consistent (h : Consistent s) (hwhole : input.Whole) :
    Consistent (s.step input).1 ∧ RejectedKeeps s input := by
  cases input with
  | insertPacket packet timeInMs decodeErrorMode frameData =>
    have hspec := insertPacket_step h hwhole timeInMs decodeErrorMode frameData
    rw [RejectedKeeps, step_insertPacket]
    cases hinsert : s.insertPacket packet timeInMs decodeErrorMode frameData with
    | none => exact ⟨h, fun hnone => by cases hnone⟩
    | some result =>
      obtain ⟨hconsistent, hkeeps⟩ := hspec.keeps result.1 result.2 hinsert
      exact ⟨hconsistent, fun herror => hkeeps (Option.some.inj herror)⟩
  | reset => exact ⟨reset_consistent h, fun herror => by cases herror⟩

theorem step_legal (h : Consistent s) (hwhole : input.Whole) : (s.step input).2 ≠ none ↔ s.LegalInput input := by
  cases input with
  | insertPacket packet timeInMs decodeErrorMode frameData =>
    rw [LegalInput, ← (insertPacket_step h hwhole timeInMs decodeErrorMode frameData).legal, step_insertPacket]
    cases s.insertPacket packet timeInMs decodeErrorMode frameData with
    | none => simp
    | some result => simp
  | reset => exact iff_of_true (by simp [step]) trivial

end Runs

/-- **No check of a frame buffer fails** exactly in the runs of which every insertion is legal. In every run the length
is that of the session and within the buffer, and a packet that is rejected for the size leaves what is stored. -/
theorem frameBuffer_exact (buffer : Memory) {inputs : List FrameInput} (hwhole : ∀ input ∈ inputs, input.Whole) :
    ((∀ result ∈ Machine.trace step (create buffer) inputs, result ≠ none) ↔
        Machine.Meets step LegalInput (create buffer) inputs) ∧
      Machine.Always step (fun s => s.length = totalSize s.session.packets ∧ s.length ≤ s.size) (create buffer) inputs ∧
      Machine.Meets step RejectedKeeps (create buffer) inputs := by
  have hmeets := Machine.meets_of_forall step hwhole (create buffer)
  have houtputs : (∀ result ∈ Machine.trace step (create buffer) inputs, result ≠ none) ↔
      Machine.Meets step (fun s input => (s.step input).2 ≠ none) (create buffer) inputs :=
    Machine.trace_iff_meets (P := fun _ => True) (fun _ _ _ => trivial) (fun _ _ _ _ => Iff.rfl) trivial
      (Machine.meets_trivial step (create buffer) inputs)
  refine ⟨?_, ?_, ?_⟩
  · rw [houtputs]
    constructor
    · intro h
      exact Machine.meets_of_inv (P := Consistent) (fun s input hs hboth =>
        ⟨(step_consistent hs hboth.1).1, (step_legal hs hboth.1).1 hboth.2⟩) (create_consistent buffer) (hmeets.and h)
    · intro h
      exact Machine.meets_of_inv (P := Consistent) (fun s input hs hboth =>
        ⟨(step_consistent hs hboth.1).1, (step_legal hs hboth.1).2 hboth.2⟩) (create_consistent buffer) (hmeets.and h)
  · exact (Machine.always_of_meets (P := Consistent) (fun s input h hinput => (step_consistent h hinput).1)
      (create_consistent buffer) hmeets).mono fun s h => ⟨h.length, h.fits⟩
  · exact Machine.meets_of_inv (P := Consistent) (fun s input h hinput => step_consistent h hinput)
      (create_consistent buffer) hmeets

/-- A whole frame. -/
def markerPacket (seqNum : UInt16) : ReceivedPacket where
  seqNum := seqNum
  data := [7]
  markerBit := true
  frameType := .videoFrameDelta
  codec := .h264
  isFirstPacket := true

/-- One packet, and the frame is complete. -/
theorem frameBuffer_exact_one : Machine.Meets step LegalInput (create fun _ => 0)
    [.insertPacket (markerPacket 10) 0 .noErrors ⟨0, fun _ => false⟩] := by
  refine (frameBuffer_exact (fun _ => 0) ?_).1.1 ?_
  · simp [FrameInput.Whole, Whole, markerPacket]
  · have htrace : Machine.trace step (create fun _ => 0)
        [.insertPacket (markerPacket 10) 0 .noErrors ⟨0, fun _ => false⟩] = [some .completeSession] := rfl
    rw [htrace]
    simp

def withMarkers : List FrameInput :=
  [.insertPacket (markerPacket 10) 0 .noErrors ⟨0, fun _ => false⟩,
    .insertPacket (markerPacket 11) 0 .noErrors ⟨0, fun _ => false⟩]

/-- The second one finds the rotation set. -/
theorem withMarkers_fails : ¬∀ (buffer : Memory) (inputs : List FrameInput), (∀ input ∈ inputs, input.Whole) →
    ∀ result ∈ Machine.trace step (create buffer) inputs, result ≠ none := by
  intro hall
  have htrace : Machine.trace step (create fun _ => 0) withMarkers = [some .completeSession, none] := rfl
  refine hall (fun _ => 0) withMarkers ?_ none ?_ rfl
  · simp [withMarkers, FrameInput.Whole, Whole, markerPacket]
  · rw [htrace]
    simp

def mediaPacket (seqNum : UInt16) (data : List UInt8) : ReceivedPacket where
  seqNum := seqNum
  data := data
  markerBit := false
  frameType := .videoFrameDelta
  codec := .vp8
  isFirstPacket := false

/-- A packet without data, one with data, and one in front of both, which would move the data from NULL. -/
example : Machine.trace step (create fun _ => 0)
    [.insertPacket (mediaPacket 10 []) 0 .noErrors ⟨0, fun _ => false⟩,
      .insertPacket (mediaPacket 11 [1, 2]) 0 .noErrors ⟨0, fun _ => false⟩,
      .insertPacket (mediaPacket 9 [3]) 0 .noErrors ⟨0, fun _ => false⟩] = [some .incomplete, some .incomplete, none] :=
  rfl

/-! ## Where there is room -/

section Room
variable {s : FrameBuffer} {packet : ReceivedPacket} {size : Nat}

/-- The buffer grows for every packet that is not cut down to 32 bits, but for a STAP-A of three units or more. -/
theorem room_of_few (h : Consistent s) (hwhole : Whole packet)
    (hsmall : s.length + packet.data.length + kH264StartCodeLengthBytes + kBufferIncStepSizeBytes +
      kMaxJBFrameSizeBytes < 4294967296)
    (hfew : packet.isStapA = true → packet.insertStartCode = true → (nalUnits (packet.data.drop 1)).length ≤ 2)
    (hsize : s.sizeFor packet = some size) : s.length + requiredLength packet ≤ size := by
  have hcode : startCodeLength packet.insertStartCode ≤ kH264StartCodeLengthBytes := by
    cases packet.insertStartCode <;> decide
  have hrequired : s.requiredSizeBytes packet =
      s.length + packet.data.length + startCodeLength packet.insertStartCode := by
    rw [requiredSizeBytes]
    exact Nat.mod_eq_of_lt (by omega)
  have hlength : requiredLength packet ≤ packet.data.length + startCodeLength packet.insertStartCode := by
    by_cases hstapA : packet.isStapA = true
    · by_cases hheader : packet.data = []
      · simp [requiredLength, hstapA, hheader, nalUnits]
      · have hunits := requiredLength_stapA hstapA hwhole hheader
        cases hcode' : packet.insertStartCode with
        | false =>
          rw [hcode', startCodeLength, if_neg Bool.false_ne_true] at hunits
          omega
        | true =>
          have hle := hfew hstapA hcode'
          rw [hcode', startCodeLength, if_pos rfl, kH264StartCodeLengthBytes] at hunits
          rw [startCodeLength, if_pos rfl, kH264StartCodeLengthBytes]
          omega
    · rw [requiredLength, if_neg hstapA]
  unfold sizeFor at hsize
  split at hsize
  · obtain rfl := Option.some.inj hsize
    omega
  · split at hsize
    · cases hsize
    · obtain rfl := Option.some.inj hsize
      have hgrown := @newSize_ge s.size (s.requiredSizeBytes packet) h.size (by omega)
      have hmax := le_max_right s.size (newSize s.size (s.requiredSizeBytes packet))
      omega

/-- A STAP-A of three units that fills the first buffer with its start code: the bytes of the units and their start
codes do not fit. -/
theorem create_overflows (buffer : Memory) (hmedia : packet.frameType ≠ .emptyFrame) (hstapA : packet.isStapA = true)
    (hcode : packet.insertStartCode = true) (hwhole : Whole packet)
    (hunits : 3 ≤ (nalUnits (packet.data.drop 1)).length)
    (hlength : packet.data.length + kH264StartCodeLengthBytes = kBufferIncStepSizeBytes) (timeInMs : Int)
    (decodeErrorMode : VCMDecodeErrorMode) (frameData : FrameData) :
    (create buffer).insertPacket packet timeInMs decodeErrorMode frameData = none := by
  have hspec := insertPacket_step (create_consistent buffer) hwhole timeInMs decodeErrorMode frameData
  have htakes : Takes (create buffer).session.toVCMSessionInfo packet :=
    ⟨⟨hmedia, by simp [create, kMaxPacketsInSession], rfl⟩, fun _ => rfl, fun _ => rfl⟩
  have hrequired : (create buffer).requiredSizeBytes packet = kBufferIncStepSizeBytes := by
    rw [requiredSizeBytes, hcode, startCodeLength, if_pos rfl, ← hlength, create, Nat.zero_add]
    rw [hlength]
    decide
  have hsize : (create buffer).sizeFor packet = some kBufferIncStepSizeBytes := by
    rw [sizeFor, hrequired]
    simp [create, newSize, kBufferIncStepSizeBytes, kMaxJBFrameSizeBytes]
  have hheader : packet.data ≠ [] := by
    intro hnil
    rw [hnil] at hlength
    cases hlength
  have hlonger := requiredLength_stapA hstapA hwhole hheader
  rw [hcode, startCodeLength, if_pos rfl] at hlonger
  rw [← Option.not_isSome_iff_eq_none, hspec.legal]
  intro hlegal
  have hroom := hlegal.room _ hsize htakes
  have hempty : (create buffer).length = 0 := rfl
  simp only [kH264StartCodeLengthBytes] at hlength hlonger
  omega

end Room

end FrameBuffer
end WebRtc.Jitter
