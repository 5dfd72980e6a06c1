import Mathlib.Algebra.BigOperators.Group.List.Basic
import Mathlib.Data.Nat.Log
import WebRtc.NetEq.PacketBuffer

/-!
# Splitting audio payloads

| here | there |
| --- | --- |
| `NetEqDecoder` | `rent_a_codec.h:113-141` |
| `sampleRates`, `splitPacket`, `splitAudio` | `PayloadSplitter::SplitAudio` (`payload_splitter.cc:219-356`) |
| `splitSize`, `chunkLoop`, `splitBySamples` | `PayloadSplitter::SplitBySamples` (:358-405) |
| `frameLoop`, `splitByFrames` | `PayloadSplitter::SplitByFrames` (:407-442) |

A loop has `fuel` for its rounds and no result when it takes more. The split size is the payload length halved
until it is below 40 ms, so it is rounded. Where it does not stay a number of whole samples, samples are cut
(`splitBySamples_aligned_iff`); where there is nothing to split, the loop does not end.
-/

namespace WebRtc.NetEq

inductive SplitterReturnCode where
  | ok
  | tooLargePayload
  | frameSplitError
  | unknownPayloadType
  | redLengthMismatch
deriving DecidableEq, Repr

inductive NetEqDecoder where
  | decoderPCMu
  | decoderPCMa
  | decoderPCMu_2ch
  | decoderPCMa_2ch
  | decoderILBC
  | decoderISAC
  | decoderISACswb
  | decoderPCM16B
  | decoderPCM16Bwb
  | decoderPCM16Bswb32kHz
  | decoderPCM16Bswb48kHz
  | decoderPCM16B_2ch
  | decoderPCM16Bwb_2ch
  | decoderPCM16Bswb32kHz_2ch
  | decoderPCM16Bswb48kHz_2ch
  | decoderPCM16B_5ch
  | decoderG722
  | decoderG722_2ch
  | decoderRED
  | decoderAVT
  | decoderCNGnb
  | decoderCNGwb
  | decoderCNGswb32kHz
  | decoderCNGswb48kHz
  | decoderArbitrary
  | decoderOpus
  | decoderOpus_2ch
deriving DecidableEq, Repr

/-- `|payload_length|` bytes; none where these are not the ones that are there. -/
def Packet.data (p : Packet) : Option (List UInt8) := p.payload.filter fun bytes => bytes.length = p.payloadLength

/-- A new packet with a part of the payload. -/
def newPacket (packet : Packet) (timestamp : UInt32) (bytes : List UInt8) : Packet where
  header := { packet.header with timestamp }
  payload := some bytes
  payloadLength := bytes.length
  primary := packet.primary
  waitingTime := 0
  syncPacket := false

/-! ## Samples -/

/-- Bytes and timestamps per ms of the codecs that are split by samples. -/
def sampleRates : NetEqDecoder → Option (Nat × Nat)
  | .decoderPCMu | .decoderPCMa => some (8, 8)
  | .decoderPCMu_2ch | .decoderPCMa_2ch => some (2 * 8, 8)
  | .decoderG722 => some (8, 16)
  | .decoderPCM16B => some (16, 8)
  | .decoderPCM16Bwb => some (32, 16)
  | .decoderPCM16Bswb32kHz => some (64, 32)
  | .decoderPCM16Bswb48kHz => some (96, 48)
  | .decoderPCM16B_2ch => some (2 * 16, 8)
  | .decoderPCM16Bwb_2ch => some (2 * 32, 16)
  | .decoderPCM16Bswb32kHz_2ch => some (2 * 64, 32)
  | .decoderPCM16Bswb48kHz_2ch => some (2 * 96, 48)
  | .decoderPCM16B_5ch => some (5 * 16, 8)
  | _ => none

/-- The split size is halved as long as it is at least twice the minimum. -/
def splitSize (minChunkSize : Nat) : Nat → Nat → Option Nat
  | 0, _ => none
  | fuel + 1, splitSizeBytes =>
    if splitSizeBytes ≥ 2 * minChunkSize then splitSize minChunkSize fuel (splitSizeBytes >>> 1)
      else some splitSizeBytes

/-- The loop over the chunks, with what follows it for the last one. -/
def chunkLoop (packet : Packet) (splitSizeBytes : Nat) (timestampsPerChunk : UInt32) :
    Nat → UInt32 → List UInt8 → Option (List Packet)
  | 0, _, _ => none
  | fuel + 1, timestamp, payload =>
    if payload.length ≥ 2 * splitSizeBytes then
      (chunkLoop packet splitSizeBytes timestampsPerChunk fuel (timestamp + timestampsPerChunk)
        (payload.drop splitSizeBytes)).map (newPacket packet timestamp (payload.take splitSizeBytes) :: ·)
    else if payload.length > 0 then some [newPacket packet timestamp payload]
    else some []

def splitBySamples (fuel : Nat) (packet : Packet) (bytesPerMs timestampsPerMs : Nat) : Option (List Packet) := do
  let payload ← packet.data
  let splitSizeBytes ← splitSize (bytesPerMs * 20) fuel packet.payloadLength
  let timestampsPerChunk := UInt32.ofNat (splitSizeBytes * timestampsPerMs / bytesPerMs)
  chunkLoop packet splitSizeBytes timestampsPerChunk fuel packet.timestamp payload

/-! ## Frames -/

/-- What becomes of a packet. -/
inductive Split where
  | noSplit
  | split (newPackets : List Packet)
  | failed (code : SplitterReturnCode)

def frameLoop (packet : Packet) (bytesPerFrame : Nat) (timestampsPerFrame : UInt32) :
    Nat → UInt32 → List UInt8 → Option (List Packet)
  | 0, _, _ => none
  | fuel + 1, timestamp, payload =>
    if payload.length > 0 then
      (frameLoop packet bytesPerFrame timestampsPerFrame fuel (timestamp + timestampsPerFrame)
        (payload.drop bytesPerFrame)).map (newPacket packet timestamp (payload.take bytesPerFrame) :: ·)
    else some []

def splitByFrames (fuel : Nat) (packet : Packet) (bytesPerFrame : Nat)
    (timestampsPerFrame : UInt32) : Option Split := do
  let payload ← packet.data
  if packet.payloadLength % bytesPerFrame ≠ 0 then some (.failed .frameSplitError)
  else if packet.payloadLength = bytesPerFrame then some .noSplit
  else (frameLoop packet bytesPerFrame timestampsPerFrame fuel packet.timestamp payload).map .split

/-- The case of iLBC. -/
def splitIlbc (fuel : Nat) (packet : Packet) : Option Split :=
  if packet.payloadLength ≥ 950 then some (.failed .tooLargePayload)
  else if packet.payloadLength % 38 = 0 then splitByFrames fuel packet 38 160
  else if packet.payloadLength % 50 = 0 then splitByFrames fuel packet 50 240
  else some (.failed .frameSplitError)

def splitPacket (fuel : Nat) (codecType : NetEqDecoder) (packet : Packet) : Option Split :=
  match sampleRates codecType with
  | some (bytesPerMs, timestampsPerMs) => (splitBySamples fuel packet bytesPerMs timestampsPerMs).map .split
  | none => if codecType = .decoderILBC then splitIlbc fuel packet else some .noSplit

/-- The packet list and the return value. -/
def splitAudio (fuel : Nat) (decoderInfo : UInt8 → Option NetEqDecoder) :
    List Packet → Option (List Packet × SplitterReturnCode)
  | [] => some ([], .ok)
  | packet :: packetList =>
    match decoderInfo packet.header.payloadType with
    | none => some (packet :: packetList, .unknownPayloadType)
    | some codecType => do
      let split ← if packet.syncPacket then some .noSplit else splitPacket fuel codecType packet
      match split with
      | .failed code => some (packet :: packetList, code)
      | .noSplit =>
        let (rest, code) ← splitAudio fuel decoderInfo packetList
        some (packet :: rest, code)
      | .split newPackets =>
        let (rest, code) ← splitAudio fuel decoderInfo packetList
        some (newPackets ++ rest, code)

/-! ## The split size -/

/-- How often the length of a payload is halved. -/
def halvings (minChunkSize length : Nat) : Nat := Nat.log 2 (length / minChunkSize)

theorem halvings_below {minChunkSize length : Nat} (h : length < 2 * minChunkSize) :
    halvings minChunkSize length = 0 := by
  have hdiv : length / minChunkSize < 2 := Nat.div_lt_of_lt_mul (by omega)
  exact Nat.log_of_lt hdiv

theorem halvings_half {minChunkSize length : Nat} (hmin : 0 < minChunkSize) (h : 2 * minChunkSize ≤ length) :
    halvings minChunkSize length = halvings minChunkSize (length / 2) + 1 := by
  have hdiv : 2 ≤ length / minChunkSize := (Nat.le_div_iff_mul_le hmin).2 h
  rw [halvings, halvings, Nat.log_of_one_lt_of_le Nat.one_lt_two hdiv, Nat.div_div_eq_div_mul, Nat.div_div_eq_div_mul,
    Nat.mul_comm]

theorem splitSize_eq {minChunkSize fuel length size : Nat} (hmin : 0 < minChunkSize)
    (h : splitSize minChunkSize fuel length = some size) : size = length / 2 ^ halvings minChunkSize length := by
  induction fuel generalizing length with
  | zero => cases h
  | succ fuel ih =>
    rw [splitSize] at h
    split at h
    · rename_i hlong
      rw [ih h, halvings_half hmin hlong, Nat.pow_succ', ← Nat.div_div_eq_div_mul, Nat.shiftRight_one]
    · rename_i hshort
      cases h
      simp [halvings_below (Nat.lt_of_not_le hshort)]

theorem splitSize_lt {minChunkSize fuel length size : Nat} (h : splitSize minChunkSize fuel length = some size) :
    size < 2 * minChunkSize := by
  induction fuel generalizing length with
  | zero => cases h
  | succ fuel ih =>
    rw [splitSize] at h
    split at h
    · exact ih h
    · cases h
      omega

/-- No smaller than the minimum, unless the length is. -/
theorem splitSize_ge {minChunkSize fuel length size : Nat} (h : splitSize minChunkSize fuel length = some size)
    (hlength : minChunkSize ≤ length) : minChunkSize ≤ size := by
  induction fuel generalizing length with
  | zero => cases h
  | succ fuel ih =>
    rw [splitSize] at h
    split at h
    · exact ih h (by omega)
    · cases h
      exact hlength

theorem splitSize_ends {minChunkSize fuel length : Nat} (hmin : 0 < minChunkSize) (hfuel : length < fuel) :
    ∃ size, splitSize minChunkSize fuel length = some size := by
  induction fuel generalizing length with
  | zero => omega
  | succ fuel ih =>
    rw [splitSize]
    split
    · exact ih (by omega)
    · exact ⟨length, rfl⟩

/-! ## The chunks -/

section Chunks
variable {packet : Packet} {splitSizeBytes perChunk fuel : Nat} {timestamp : UInt32} {payload : List UInt8}
variable {chunks : List Packet}

/-- What is known of a chunk from the chunks before and behind it. -/
structure ChunkAt (splitSizeBytes perChunk : Nat) (timestamp : UInt32) (before : List Packet) (p : Packet)
    (after : List Packet) : Prop where
  before_sum : (before.map Packet.payloadLength).sum = before.length * splitSizeBytes
  timestamp_eq : p.timestamp = timestamp + UInt32.ofNat (before.length * perChunk)
  size : p.payloadLength < 2 * splitSizeBytes
  size_eq : after ≠ [] → p.payloadLength = splitSizeBytes

theorem chunkLoop_ends (hsize : 0 < splitSizeBytes) (hfuel : payload.length < fuel) :
    ∃ chunks, chunkLoop packet splitSizeBytes (UInt32.ofNat perChunk) fuel timestamp payload = some chunks := by
  induction fuel generalizing timestamp payload with
  | zero => omega
  | succ fuel ih =>
    rw [chunkLoop]
    split
    · have hless : (payload.drop splitSizeBytes).length < fuel := by
        rw [List.length_drop]
        omega
      obtain ⟨chunks, hchunks⟩ := @ih (timestamp + UInt32.ofNat perChunk) _ hless
      exact ⟨_, by rw [hchunks, Option.map_some]⟩
    · split <;> exact ⟨_, rfl⟩

/-- Nothing is never taken from. -/
theorem chunkLoop_zero (fuel : Nat) (timestamp : UInt32) (payload : List UInt8) :
    chunkLoop packet 0 (UInt32.ofNat perChunk) fuel timestamp payload = none := by
  induction fuel generalizing timestamp payload with
  | zero => rfl
  | succ fuel ih => simp [chunkLoop, ih]

theorem chunkLoop_payload (h : chunkLoop packet splitSizeBytes
    (UInt32.ofNat perChunk) fuel timestamp payload = some chunks) :
    chunks.flatMap (fun p => p.payload.getD []) = payload ∧ (chunks.map Packet.payloadLength).sum = payload.length := by
  induction fuel generalizing timestamp payload chunks with
  | zero => cases h
  | succ fuel ih =>
    rw [chunkLoop] at h
    split at h
    · obtain ⟨rest, hrest, rfl⟩ := Option.map_eq_some_iff.1 h
      obtain ⟨hbytes, hsum⟩ := ih hrest
      simp only [List.flatMap_cons, hbytes, List.map_cons, List.sum_cons, hsum, newPacket, Option.getD_some,
        List.take_append_drop, List.length_take, List.length_drop, true_and]
      omega
    · split at h
      · cases h
        simp [newPacket]
      · cases h
        have hnil : payload = [] := List.eq_nil_of_length_eq_zero (by omega)
        simp [hnil]

/-- **The loop**: every chunk but the last has the split size, and the timestamps go on by `perChunk`. -/
theorem chunkLoop_at (h : chunkLoop packet splitSizeBytes (UInt32.ofNat perChunk) fuel timestamp payload = some chunks)
    {before after : List Packet} {p : Packet} (hat : chunks = before ++ p :: after) :
    ChunkAt splitSizeBytes perChunk timestamp before p after := by
  induction fuel generalizing timestamp payload chunks before with
  | zero => cases h
  | succ fuel ih =>
    rw [chunkLoop] at h
    split at h
    · rename_i hlong
      obtain ⟨rest, hrest, rfl⟩ := Option.map_eq_some_iff.1 h
      have hlen : (payload.take splitSizeBytes).length = splitSizeBytes := by
        rw [List.length_take]
        omega
      cases before with
      | nil =>
        obtain ⟨rfl, rfl⟩ := List.cons.inj hat
        have hpos : 0 < splitSizeBytes := by
          rcases Nat.eq_zero_or_pos splitSizeBytes with hzero | hpos
          · rw [hzero, chunkLoop_zero] at hrest
            cases hrest
          · exact hpos
        exact ⟨by simp, by simp [newPacket, Packet.timestamp], by simp only [newPacket, hlen]; omega, fun _ => hlen⟩
      | cons first before =>
        obtain ⟨rfl, htail⟩ := List.cons.inj hat
        obtain ⟨hsum, hstamp, hsize, hexact⟩ := ih hrest htail
        refine ⟨?_, ?_, hsize, hexact⟩
        · rw [List.map_cons, List.sum_cons, hsum, List.length_cons, Nat.succ_mul, Nat.add_comm]
          simp only [newPacket, hlen]
        · rw [hstamp, List.length_cons, Nat.succ_mul, Nat.add_comm _ perChunk, UInt32.ofNat_add, UInt32.add_assoc]
    · rename_i hshort
      split at h
      · cases h
        obtain ⟨rfl, hp⟩ : before = [] ∧ p = newPacket packet timestamp payload ∧ after = [] := by
          cases before with
          | nil =>
            obtain ⟨rfl, rfl⟩ := List.cons.inj hat
            exact ⟨rfl, rfl, rfl⟩
          | cons first before =>
            obtain ⟨-, htail⟩ := List.cons.inj hat
            simp at htail
        obtain ⟨rfl, rfl⟩ := hp
        exact ⟨by simp, by simp [newPacket, Packet.timestamp], by simp only [newPacket]; omega, fun h => absurd rfl h⟩
      · cases h
        simp at hat

theorem chunkLoop_ge {perChunk : UInt32} (h :
    chunkLoop packet splitSizeBytes perChunk fuel timestamp payload = some chunks)
    (hlength : splitSizeBytes ≤ payload.length) : ∀ p ∈ chunks, splitSizeBytes ≤ p.payloadLength := by
  induction fuel generalizing timestamp payload chunks with
  | zero => cases h
  | succ fuel ih =>
    rw [chunkLoop] at h
    split at h
    · obtain ⟨rest, hrest, rfl⟩ := Option.map_eq_some_iff.1 h
      refine List.forall_mem_cons.2 ⟨?_, ih hrest ?_⟩
      · simp [newPacket, hlength]
      · rw [List.length_drop]
        omega
    · split at h
      · cases h
        simpa [newPacket] using hlength
      · cases h
        simp

theorem chunkLoop_data {perChunk : UInt32} (h :
    chunkLoop packet splitSizeBytes perChunk fuel timestamp payload = some chunks) :
    ∀ p ∈ chunks, p.data.isSome := by
  have hnew : ∀ timestamp bytes, (newPacket packet timestamp bytes).data.isSome := by
    simp [Packet.data, newPacket]
  induction fuel generalizing timestamp payload chunks with
  | zero => cases h
  | succ fuel ih =>
    rw [chunkLoop] at h
    split at h
    · obtain ⟨rest, hrest, rfl⟩ := Option.map_eq_some_iff.1 h
      exact List.forall_mem_cons.2 ⟨hnew _ _, ih hrest⟩
    · split at h
      · cases h
        simpa using hnew _ _
      · cases h
        simp

end Chunks

/-! ## Whole samples -/

/-- The bytes of one sample of all channels; in G.722 there are two samples in a byte. -/
def bytesPerSample : NetEqDecoder → Nat
  | .decoderPCMu_2ch | .decoderPCMa_2ch => 2 * 1
  | .decoderPCM16B | .decoderPCM16Bwb | .decoderPCM16Bswb32kHz | .decoderPCM16Bswb48kHz => 2
  | .decoderPCM16B_2ch | .decoderPCM16Bwb_2ch | .decoderPCM16Bswb32kHz_2ch | .decoderPCM16Bswb48kHz_2ch => 2 * 2
  | .decoderPCM16B_5ch => 5 * 2
  | _ => 1

/-- A whole number of samples lasts a whole number of timestamps. -/
theorem sampleRates_whole {codecType : NetEqDecoder} {bytesPerMs timestampsPerMs : Nat}
    (h : sampleRates codecType = some (bytesPerMs, timestampsPerMs)) :
    0 < bytesPerMs ∧ bytesPerMs ∣ bytesPerSample codecType * timestampsPerMs := by
  cases codecType <;> cases h <;> exact ⟨by decide, by decide⟩

/-- What the halvings round off. -/
def rounding (minChunkSize length : Nat) : Nat := length % 2 ^ halvings minChunkSize length

/-- The chunks are the payload, in pieces of 20 to 40 ms of whole samples, and each is stamped with the time at
which it begins. -/
structure Aligned (codecType : NetEqDecoder) (bytesPerMs timestampsPerMs : Nat) (packet : Packet) (payload : List UInt8)
    (chunks : List Packet) : Prop where
  bytes : chunks.flatMap (fun p => p.payload.getD []) = payload
  data : ∀ p ∈ chunks, p.data.isSome
  shortest : ∀ p ∈ chunks, 20 * bytesPerMs ≤ p.payloadLength ∨ payload.length < 20 * bytesPerMs
  longest : ∀ p ∈ chunks, p.payloadLength < 40 * bytesPerMs + rounding (bytesPerMs * 20) payload.length
  boundary : ∀ before p after, chunks = before ++ p :: after →
    bytesPerSample codecType ∣ (before.map Packet.payloadLength).sum
  timestamp : ∀ before p after, chunks = before ++ p :: after → ∃ duration : Nat,
    duration * bytesPerMs = (before.map Packet.payloadLength).sum * timestampsPerMs ∧
      p.timestamp = packet.timestamp + UInt32.ofNat duration

section Samples
variable {codecType : NetEqDecoder} {bytesPerMs timestampsPerMs fuel : Nat} {packet : Packet} {payload : List UInt8}
variable {chunks : List Packet}

theorem data_eq (hdata : packet.data = some payload) : packet.payload = some payload ∧
    packet.payloadLength = payload.length := by
  obtain ⟨hpayload, hlength⟩ := Option.filter_eq_some_iff.1 hdata
  exact ⟨hpayload, (of_decide_eq_true hlength).symm⟩

theorem splitBySamples_eq (hdata : packet.data = some payload) (hrate : 0 < bytesPerMs)
    (h : splitBySamples fuel packet bytesPerMs timestampsPerMs = some chunks) :
    ∃ size, splitSize (bytesPerMs * 20) fuel payload.length = some size ∧
      size = payload.length / 2 ^ halvings (bytesPerMs * 20) payload.length ∧
      chunkLoop packet size (UInt32.ofNat (size * timestampsPerMs / bytesPerMs)) fuel packet.timestamp
        payload = some chunks := by
  simp only [splitBySamples, hdata, (data_eq hdata).2, Option.bind_eq_bind, Option.bind_some] at h
  obtain ⟨size, hsize, hloop⟩ := Option.bind_eq_some_iff.1 h
  exact ⟨size, hsize, splitSize_eq (by omega) hsize, hloop⟩

/-- An empty payload is split without end. -/
theorem splitBySamples_empty (hdata : packet.data = some []) (hrate : 0 < bytesPerMs) (fuel : Nat) :
    splitBySamples fuel packet bytesPerMs timestampsPerMs = none := by
  rcases hsplit : splitBySamples fuel packet bytesPerMs timestampsPerMs with _ | chunks
  · rfl
  · obtain ⟨size, -, hsize, hloop⟩ := splitBySamples_eq hdata hrate hsplit
    rw [List.length_nil, Nat.zero_div] at hsize
    rw [hsize, chunkLoop_zero] at hloop
    cases hloop

theorem splitBySamples_ends (hdata : packet.data = some payload) (hrate : 0 < bytesPerMs) (hpayload : payload ≠ [])
    (hfuel : payload.length < fuel) : ∃ chunks,
      splitBySamples fuel packet bytesPerMs timestampsPerMs = some chunks := by
  obtain ⟨size, hsize⟩ := @splitSize_ends (bytesPerMs * 20) fuel payload.length (by omega) hfuel
  have hlength : 0 < payload.length := List.length_pos_iff.2 hpayload
  have hpos : 0 < size := by
    rcases Nat.lt_or_ge payload.length (bytesPerMs * 20) with hshort | hlong
    · rw [splitSize_eq (by omega) hsize, halvings_below (by omega)]
      simpa using hlength
    · have hmin := splitSize_ge hsize hlong
      omega
  obtain ⟨chunks, hchunks⟩ := chunkLoop_ends hpos hfuel
  refine ⟨chunks, ?_⟩
  simp only [splitBySamples, hdata, (data_eq hdata).2, Option.bind_eq_bind, Option.bind_some, hsize]
  exact hchunks

/-- The last chunk takes what the halvings round off. -/
theorem chunk_longest {size perChunk min : Nat} {timestamp : UInt32} {before after : List Packet} {p : Packet}
    (hsize : size = payload.length / 2 ^ halvings min payload.length) (hless : size < 2 * min)
    (hsum : ((before ++ p :: after).map Packet.payloadLength).sum = payload.length)
    (hchunk : ChunkAt size perChunk timestamp before p after) :
    p.payloadLength < 2 * min + rounding min payload.length := by
  cases after with
  | cons next after =>
    rw [hchunk.size_eq (by simp)]
    omega
  | nil =>
    have htotal : before.length * size + p.payloadLength = payload.length := by
      rw [← hsum, ← hchunk.before_sum]
      simp
    have hdiv : 2 ^ halvings min payload.length * size + rounding min payload.length = payload.length := by
      rw [hsize]
      exact Nat.div_add_mod _ _
    have hlast := hchunk.size
    -- The halvings are no more than the chunks.
    have hcount : 2 ^ halvings min payload.length < before.length + 2 := by
      refine Nat.lt_of_mul_lt_mul_right (a := size) ?_
      rw [Nat.add_mul]
      omega
    have hle : 2 ^ halvings min payload.length * size ≤ (before.length + 1) * size :=
      Nat.mul_le_mul_right size (by omega)
    rw [Nat.succ_mul] at hle
    omega

/-- **Whole samples in a chunk** are enough. -/
theorem aligned_of {size : Nat} (hrates : sampleRates codecType = some (bytesPerMs, timestampsPerMs))
    (hsplit : splitSize (bytesPerMs * 20) fuel payload.length = some size)
    (hloop : chunkLoop packet size (UInt32.ofNat (size * timestampsPerMs / bytesPerMs)) fuel packet.timestamp
      payload = some chunks)
    (hwhole : bytesPerSample codecType ∣ size) :
    Aligned codecType bytesPerMs timestampsPerMs packet payload chunks := by
  obtain ⟨hrate, hticks⟩ := sampleRates_whole hrates
  obtain ⟨hbytes, hsum⟩ := chunkLoop_payload hloop
  have hless := splitSize_lt hsplit
  have hsize := splitSize_eq (by omega) hsplit
  -- The timestamps of a chunk are not rounded.
  have hexact : size * timestampsPerMs / bytesPerMs * bytesPerMs = size * timestampsPerMs :=
    Nat.div_mul_cancel (hticks.trans (Nat.mul_dvd_mul_right hwhole timestampsPerMs))
  refine ⟨hbytes, chunkLoop_data hloop, fun p hp => ?_, fun p hp => ?_, fun before p after hat => ?_,
    fun before p after hat => ?_⟩
  · rcases Nat.lt_or_ge payload.length (20 * bytesPerMs) with hshort | hlong
    · exact .inr hshort
    · have hmin := splitSize_ge hsplit (by omega)
      have hfits : size ≤ payload.length := by
        rw [hsize]
        exact Nat.div_le_self _ _
      have hchunk := chunkLoop_ge hloop hfits p hp
      exact .inl (by omega)
  · obtain ⟨before, after, rfl⟩ := List.append_of_mem hp
    have hlongest := chunk_longest hsize hless hsum (chunkLoop_at hloop rfl)
    omega
  · rw [(chunkLoop_at hloop hat).before_sum]
    exact Dvd.dvd.mul_left hwhole _
  · have hchunk := chunkLoop_at hloop hat
    refine ⟨before.length * (size * timestampsPerMs / bytesPerMs), ?_, hchunk.timestamp_eq⟩
    rw [hchunk.before_sum, Nat.mul_assoc, hexact, Nat.mul_assoc]

/-- **And there is no other way.** -/
theorem whole_of_aligned {size : Nat} (hpayload : payload ≠ [])
    (hwhole : bytesPerSample codecType ∣ payload.length)
      (hsize : size = payload.length / 2 ^ halvings (bytesPerMs * 20) payload.length)
    (hloop : chunkLoop packet size (UInt32.ofNat (size * timestampsPerMs / bytesPerMs)) fuel packet.timestamp
      payload = some chunks)
    (h : Aligned codecType bytesPerMs timestampsPerMs packet payload chunks) : bytesPerSample codecType ∣ size := by
  obtain ⟨-, hsum⟩ := chunkLoop_payload hloop
  match chunks, hloop, hsum, h with
  | [], _, hsum, _ => exact absurd (List.eq_nil_of_length_eq_zero hsum.symm) hpayload
  | [p], hloop, hsum, _ =>
    -- One chunk that is not twice as long as the split size: nothing was halved.
    have hless := (@chunkLoop_at _ _ _ _ _ _ _ hloop [] [] p rfl).size
    rw [List.map_singleton, List.sum_singleton] at hsum
    rcases Nat.eq_zero_or_pos (halvings (bytesPerMs * 20) payload.length) with hzero | hpos
    · rw [hsize, hzero, Nat.pow_zero, Nat.div_one]
      exact hwhole
    · have htwo : payload.length / 2 ^ halvings (bytesPerMs * 20) payload.length ≤ payload.length / 2 ^ 1 :=
        Nat.div_le_div_left (Nat.pow_le_pow_right (by decide) hpos) (by decide)
      omega
  | p :: q :: rest, hloop, _, h =>
    have hboundary := h.boundary [p] q rest rfl
    rwa [(@chunkLoop_at _ _ _ _ _ _ _ hloop [p] rest q rfl).before_sum, List.length_singleton, Nat.one_mul] at hboundary

theorem splitBySamples_aligned (hrates : sampleRates codecType = some (bytesPerMs, timestampsPerMs))
    (hdata : packet.data = some payload) (hpayload : payload ≠ [])
    (hwhole : bytesPerSample codecType ∣ payload.length / 2 ^ halvings (bytesPerMs * 20) payload.length)
    (hfuel : payload.length < fuel) : ∃ chunks, splitBySamples fuel packet bytesPerMs timestampsPerMs = some chunks ∧
      Aligned codecType bytesPerMs timestampsPerMs packet payload chunks := by
  obtain ⟨hrate, -⟩ := sampleRates_whole hrates
  obtain ⟨chunks, hchunks⟩ := splitBySamples_ends hdata hrate hpayload hfuel
  obtain ⟨size, hsplit, rfl, hloop⟩ := splitBySamples_eq hdata hrate hchunks
  exact ⟨chunks, hchunks, aligned_of hrates hsplit hloop hwhole⟩

theorem aligned_whole (hrates : sampleRates codecType = some (bytesPerMs, timestampsPerMs))
    (hdata : packet.data = some payload) (hwhole : bytesPerSample codecType ∣ payload.length)
    (hchunks : splitBySamples fuel packet bytesPerMs timestampsPerMs = some chunks)
    (h : Aligned codecType bytesPerMs timestampsPerMs packet payload chunks) :
    payload ≠ [] ∧ bytesPerSample codecType ∣ payload.length / 2 ^ halvings (bytesPerMs * 20) payload.length := by
  obtain ⟨hrate, -⟩ := sampleRates_whole hrates
  have hpayload : payload ≠ [] := by
    rintro rfl
    rw [splitBySamples_empty hdata hrate] at hchunks
    cases hchunks
  obtain ⟨size, -, hsize, hloop⟩ := splitBySamples_eq hdata hrate hchunks
  exact ⟨hpayload, hsize ▸ whole_of_aligned hpayload hwhole hsize hloop h⟩

/-- **Splitting by samples cuts no sample exactly when the halved length is whole**, and there is something to
split. -/
theorem splitBySamples_aligned_iff (codecType : NetEqDecoder) (bytesPerMs timestampsPerMs : Nat)
    (hrates : sampleRates codecType = some (bytesPerMs, timestampsPerMs)) (packet : Packet) (payload : List UInt8)
    (hdata : packet.data = some payload) (hwhole : bytesPerSample codecType ∣ payload.length) :
    (∃ fuel chunks, splitBySamples fuel packet bytesPerMs timestampsPerMs = some chunks ∧
      Aligned codecType bytesPerMs timestampsPerMs packet payload chunks) ↔
    payload ≠ [] ∧ bytesPerSample codecType ∣ payload.length / 2 ^ halvings (bytesPerMs * 20) payload.length := by
  constructor
  · rintro ⟨fuel, chunks, hchunks, h⟩
    exact aligned_whole hrates hdata hwhole hchunks h
  · rintro ⟨hpayload, hdvd⟩
    obtain ⟨chunks, hchunks, h⟩ := splitBySamples_aligned hrates hdata hpayload hdvd (Nat.lt_succ_self _)
    exact ⟨_, chunks, hchunks, h⟩

/-- A packet with silence, `length` bytes. -/
def silence (length : Nat) : Packet where
  header := .empty
  payload := some (List.replicate length 0)
  payloadLength := length
  primary := true
  waitingTime := 0
  syncPacket := false

theorem silence_data (length : Nat) : (silence length).data = some (List.replicate length 0) := by
  simp [Packet.data, silence]

/-- 40 ms are split in two halves. -/
theorem splitBySamples_halves : ∃ fuel chunks, splitBySamples fuel (silence 640) 16 8 = some chunks ∧
    Aligned .decoderPCM16B 16 8 (silence 640) (List.replicate 640 0) chunks :=
  (splitBySamples_aligned_iff .decoderPCM16B 16 8 rfl (silence 640) (List.replicate 640 0) (silence_data 640)
    (by rw [List.length_replicate]; decide)).2
      ⟨List.replicate_succ ▸ List.cons_ne_nil _ _, by rw [List.length_replicate]; decide⟩

/-- One sample more, and the boundary is inside of a sample. -/
theorem not_aligned_odd : ¬ ∀ (codecType : NetEqDecoder) (bytesPerMs timestampsPerMs : Nat),
    sampleRates codecType = some (bytesPerMs, timestampsPerMs) → ∀ (packet : Packet) (payload : List UInt8),
    packet.data = some payload → bytesPerSample codecType ∣ payload.length →
    ∃ fuel chunks, splitBySamples fuel packet bytesPerMs timestampsPerMs = some chunks ∧
      Aligned codecType bytesPerMs timestampsPerMs packet payload chunks := by
  intro h
  obtain ⟨fuel, chunks, hchunks, haligned⟩ := h .decoderPCM16B 16 8 rfl (silence 642) _ (silence_data 642)
    (by rw [List.length_replicate]; decide)
  have hwhole := aligned_whole rfl (silence_data 642) (by rw [List.length_replicate]; decide) hchunks haligned
  rw [List.length_replicate] at hwhole
  exact absurd hwhole.2 (by decide)

end Samples

/-! ## A list of packets -/

/-- A packet of a codec that is split by samples, whose halved length is whole. -/
structure SplitsWhole (decoderInfo : UInt8 → Option NetEqDecoder) (packet : Packet) (codecType : NetEqDecoder)
    (bytesPerMs timestampsPerMs : Nat) (payload : List UInt8) : Prop where
  noSync : packet.syncPacket = false
  codec : decoderInfo packet.header.payloadType = some codecType
  rates : sampleRates codecType = some (bytesPerMs, timestampsPerMs)
  data : packet.data = some payload
  nonempty : payload ≠ []
  whole : bytesPerSample codecType ∣ payload.length / 2 ^ halvings (bytesPerMs * 20) payload.length

/-- The packets of a list are split one by one. -/
theorem splitAudio_aligned (fuel : Nat) (decoderInfo : UInt8 → Option NetEqDecoder) (packetList : List Packet)
    (hwhole : ∀ p ∈ packetList, ∃ codecType bytesPerMs timestampsPerMs payload,
      SplitsWhole decoderInfo p codecType bytesPerMs timestampsPerMs payload)
    (hfuel : ∀ p ∈ packetList, p.payloadLength < fuel) :
    ∃ parts, splitAudio fuel decoderInfo packetList = some (parts.flatten, .ok) ∧
      List.Forall₂ (fun p chunks => ∃ codecType bytesPerMs timestampsPerMs payload, p.data = some payload ∧
        Aligned codecType bytesPerMs timestampsPerMs p payload chunks) packetList parts := by
  induction packetList with
  | nil => exact ⟨[], rfl, .nil⟩
  | cons packet packetList ih =>
    obtain ⟨hpacket, hrest⟩ := List.forall_mem_cons.1 hwhole
    obtain ⟨hless, hfuel⟩ := List.forall_mem_cons.1 hfuel
    obtain ⟨parts, hparts, hall⟩ := ih hrest hfuel
    obtain ⟨codecType, bytesPerMs, timestampsPerMs, payload, h⟩ := hpacket
    rw [(data_eq h.data).2] at hless
    obtain ⟨chunks, hchunks, haligned⟩ := splitBySamples_aligned h.rates h.data h.nonempty h.whole hless
    refine ⟨chunks :: parts, ?_, .cons ⟨codecType, bytesPerMs, timestampsPerMs, payload, h.data, haligned⟩ hall⟩
    simp [splitAudio, h.codec, h.noSync, splitPacket, h.rates, hchunks, hparts]

end WebRtc.NetEq
