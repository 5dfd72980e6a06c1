import Mathlib.Tactic.NormNum
import WebRtc.Wav.Header

/-!
# When WAV headers are exact (`common_audio/wav_header.cc`)

`CheckWavParameters` bounds the byte rate and the RIFF size by their fields, and leaves out the block
align, which loses its upper bits for 65536 and more bytes in a block. A reader compares the RIFF size with the
one of a header of 44 bytes, also when an extension field has made it two bytes longer.
-/

namespace WebRtc.Wav

open Bytes

/-! ## Parameters that are accepted -/

theorem toNat_toUInt32 {x : Int32} {n : Nat} (h : x.toInt = n) : x.toUInt32.toNat = n := by
  have hle : 0 ≤ x := by
    rw [Int32.le_iff_toInt_le, h]
    exact Int.natCast_nonneg n
  rw [Int32.toNat_toUInt32_of_le hle, Int32.toNatClampNeg, h, Int.toNat_natCast]

theorem toInt32_ofNat {n : Nat} (h : n < 2 ^ 31) : (Int32.ofNat n).toInt = n := Int32.toInt_ofNat_of_lt h

structure Accepted (p : WavParameters) (channels rate bytes : Nat) : Prop where
  numChannels : p.numChannels.toInt = channels
  sampleRate : p.sampleRate.toInt = rate
  bytesPerSample : p.bytesPerSample.toInt = bytes
  channels_pos : 0 < channels
  channels_le : channels ≤ 65535
  byteRate_le : rate * channels * bytes ≤ 4294967295
  format : formatAgrees p.format bytes = true
  samples_le : p.numSamples.toNat ≤ 4294967259 / bytes

theorem accepted_of_check {p : WavParameters} (h : checkWavParameters p = true) :
    ∃ channels rate bytes, Accepted p channels rate bytes := by
  simp only [checkWavParameters] at h
  split at h
  · cases h
  · next hpos =>
    obtain ⟨channels, hchannels⟩ := Int.eq_ofNat_of_zero_le (show 0 ≤ p.numChannels.toInt by omega)
    obtain ⟨rate, hrate⟩ := Int.eq_ofNat_of_zero_le (show 0 ≤ p.sampleRate.toInt by omega)
    obtain ⟨bytes, hbytes⟩ := Int.eq_ofNat_of_zero_le (show 0 ≤ p.bytesPerSample.toInt by omega)
    rw [hchannels, hrate, hbytes] at h hpos
    split_ifs at h with h1 h2 h3 h4 h5 h6
    refine ⟨channels, rate, bytes, hchannels, hrate, hbytes, by omega, by omega, ?_, by simpa using h5, ?_⟩
    · have hle := Int.not_lt.1 h4
      norm_num at hle
      exact_mod_cast hle
    · have hle := Int.not_lt.1 h6
      norm_num [kWavHeaderSize] at hle
      exact_mod_cast hle

section
variable {p : WavParameters} {channels rate bytes : Nat}

theorem Accepted.bytes_cases (h : Accepted p channels rate bytes) : bytes = 1 ∨ bytes = 2 := by
  have hformat := h.format
  cases hf : p.format <;> simp [hf, formatAgrees] at hformat <;> omega

/-- The payload and the 36 bytes of the header behind the first chunk header fit in 32 bits. -/
theorem Accepted.riffSize_lt (h : Accepted p channels rate bytes) :
    bytes * p.numSamples.toNat + (bytes - 1) + 36 < 2 ^ 32 := by
  have hle := h.samples_le
  rcases h.bytes_cases with rfl | rfl <;> omega

theorem ofValue_value (h : Accepted p channels rate bytes) : WavFormat.ofValue p.format.value = p.format := by
  have hformat := h.format
  cases hf : p.format with
  | other value => simp [hf, formatAgrees] at hformat
  | _ => rfl

/-! ## The fields that are written -/

/-- Each field, as a whole number, is what the parameters say. -/
structure FieldsExact (h : WavHeader) (p : WavParameters) : Prop where
  audioFormat : h.audioFormat = p.format.value
  numChannels : h.numChannels.toNat = p.numChannels.toInt
  sampleRate : h.sampleRate.toNat = p.sampleRate.toInt
  byteRate : h.byteRate.toNat = p.numChannels.toInt * p.sampleRate.toInt * p.bytesPerSample.toInt
  blockAlign : h.blockAlign.toNat = p.numChannels.toInt * p.bytesPerSample.toInt
  bitsPerSample : h.bitsPerSample.toNat = 8 * p.bytesPerSample.toInt
  dataSize : h.dataSize.toNat = p.bytesPerSample.toInt * p.numSamples.toNat
  riffSize : h.riffSize.toNat = p.bytesPerSample.toInt * p.numSamples.toNat + 36

theorem Accepted.dataSize (h : Accepted p channels rate bytes) :
    (p.bytesPerSample.toUInt32 * p.numSamples).toNat = bytes * p.numSamples.toNat := by
  rw [UInt32.toNat_mul, toNat_toUInt32 h.bytesPerSample]
  exact Nat.mod_eq_of_lt (by have := h.riffSize_lt; omega)

theorem riffChunkSize_toNat {size : UInt32} (h : size.toNat + 36 < 2 ^ 32) :
    (riffChunkSize size).toNat = size.toNat + 36 := by
  have height : (8 : UInt32).toNat = 8 := rfl
  simp only [riffChunkSize, kWavHeaderSize, UInt32.toNat_sub, UInt32.toNat_add, UInt32.toNat_ofNat', height]
  omega

theorem Accepted.blockAlign (h : Accepted p channels rate bytes) :
    (Wav.blockAlign p.numChannels p.bytesPerSample).toNat = channels * bytes % 65536 := by
  have hlt : channels * bytes < 2 ^ 32 := by
    have := h.channels_le
    rcases h.bytes_cases with rfl | rfl <;> omega
  rw [Wav.blockAlign, UInt32.toNat_toUInt16, UInt32.toNat_mul, toNat_toUInt32 h.numChannels,
    toNat_toUInt32 h.bytesPerSample, Nat.mod_eq_of_lt hlt]

/-- All fields but the block align are exact. -/
theorem fieldsExact_iff (h : Accepted p channels rate bytes) :
    FieldsExact (WavHeader.ofParameters p) p ↔ channels * bytes ≤ 65535 := by
  have hchannels := toNat_toUInt32 h.numChannels
  have hbytes := toNat_toUInt32 h.bytesPerSample
  have hrate := toNat_toUInt32 h.sampleRate
  constructor
  · intro hexact
    have hblock := hexact.blockAlign
    simp only [WavHeader.ofParameters, h.blockAlign, h.numChannels, h.bytesPerSample] at hblock
    have hmod : channels * bytes % 65536 = channels * bytes := by exact_mod_cast hblock
    omega
  · intro hle
    have hlt : channels * rate * bytes < 2 ^ 32 := by
      have := h.byteRate_le
      rw [Nat.mul_comm rate channels] at this
      omega
    have hprod : channels * rate < 2 ^ 32 := by
      refine Nat.lt_of_le_of_lt (Nat.le_mul_of_pos_right _ ?_) hlt
      rcases h.bytes_cases with rfl | rfl <;> decide
    constructor
    · rfl
    · have := h.channels_le
      rw [h.numChannels, WavHeader.ofParameters, UInt32.toNat_toUInt16, hchannels]
      omega
    · rw [h.sampleRate, WavHeader.ofParameters, hrate]
    · rw [h.numChannels, h.sampleRate, h.bytesPerSample, WavHeader.ofParameters, byteRate, UInt32.toNat_mul,
        UInt32.toNat_mul, hchannels, hrate, hbytes, Nat.mod_eq_of_lt hprod, Nat.mod_eq_of_lt hlt]
      push_cast
      rfl
    · rw [h.numChannels, h.bytesPerSample, WavHeader.ofParameters, h.blockAlign]
      push_cast
      omega
    · rw [h.bytesPerSample, WavHeader.ofParameters, UInt32.toNat_toUInt16, UInt32.toNat_mul, hbytes]
      rcases h.bytes_cases with rfl | rfl <;> rfl
    · rw [h.bytesPerSample, WavHeader.ofParameters, h.dataSize]
      push_cast
      rfl
    · have := h.riffSize_lt
      rw [h.bytesPerSample, WavHeader.ofParameters, riffChunkSize_toNat (by rw [h.dataSize]; omega), h.dataSize]
      push_cast
      rfl

/-! ## What is written is read -/

theorem ofBytes_bytes (h : WavHeader) : WavHeader.ofBytes (h.bytes.take 36) (h.bytes.drop 36) = h := by
  have hat : At h.bytes 0 h.bytes := List.prefix_refl _
  simp only [WavHeader.bytes, at_append, List.length_append, le32_length, le16_length] at hat
  simp only [WavHeader.ofBytes, le32At_drop]
  obtain ⟨⟨⟨⟨⟨⟨⟨⟨⟨⟨⟨⟨h0, h4⟩, h8⟩, h12⟩, h16⟩, h20⟩, h22⟩, h24⟩, h28⟩, h32⟩, h34⟩, h36⟩, h40⟩ := hat
  rw [le32At_take (by decide), le32At_take (by decide), le32At_take (by decide), le32At_take (by decide),
    le32At_take (by decide), le16At_take (by decide), le16At_take (by decide), le32At_take (by decide),
    le32At_take (by decide), le16At_take (by decide), le16At_take (by decide)]
  rw [WavHeader.bytes, h0.le32, h4.le32, h8.le32, h12.le32, h16.le32, h20.le16, h22.le16, h24.le32, h28.le32,
    h32.le16, h34.le16,
    h36.le32, h40.le32]

theorem ofBytes_fmtSize (first data : List UInt8) : (WavHeader.ofBytes first data).fmtSize = le32At first 16 := rfl

@[simp] theorem bytes_length (h : WavHeader) : h.bytes.length = 44 := by simp [WavHeader.bytes]

theorem read_append {first rest : List UInt8} {n : Nat} (h : first.length = n) :
    read (first ++ rest) n = some (first, rest) := by
  subst h
  simp [read]

theorem readWavHeader_reads (readable : List UInt8) : readWavHeader readable =
    (read readable (kWavHeaderSize - 8)).bind fun first => (readExtension (le32At first.1 16) first.2).bind fun rest =>
      (read rest 8).bind fun data => parseHeader (WavHeader.ofBytes first.1 data.1) := rfl

theorem readWavHeader_bytes {h : WavHeader} (hsize : h.fmtSize = kFmtSubchunkSize) (rest : List UInt8) :
    readWavHeader (h.bytes ++ rest) = parseHeader h := by
  have hfirst : read (h.bytes ++ rest) 36 = some (h.bytes.take 36, h.bytes.drop 36 ++ rest) := by
    rw [← @read_append (h.bytes.take 36) (h.bytes.drop 36 ++ rest) 36 (by simp),
      ← List.append_assoc, List.take_append_drop]
  have hdata : read (h.bytes.drop 36 ++ rest) 8 = some (h.bytes.drop 36, rest) :=
    read_append (by simp)
  have hfmt : le32At (h.bytes.take 36) 16 = kFmtSubchunkSize := by
    rw [← hsize, ← ofBytes_fmtSize _ (h.bytes.drop 36), ofBytes_bytes]
  have hnone : readExtension (le32At (h.bytes.take 36) 16) (h.bytes.drop 36 ++ rest) = some (h.bytes.drop 36 ++ rest) :=
    if_pos hfmt
  have hstart : read (h.bytes ++ rest) (kWavHeaderSize - 8) = some (h.bytes.take 36, h.bytes.drop 36 ++ rest) := hfirst
  rw [readWavHeader_reads, hstart, Option.bind_some, hnone, Option.bind_some, hdata, Option.bind_some, ofBytes_bytes]

theorem parseHeader_ofParameters (h : Accepted p channels rate bytes) (hcheck : checkWavParameters p = true) :
    parseHeader (WavHeader.ofParameters p) = some p := by
  have hbits : (WavHeader.ofParameters p).bitsPerSample.toNat / 8 = bytes := by
    rw [WavHeader.ofParameters, UInt32.toNat_toUInt16, UInt32.toNat_mul, toNat_toUInt32 h.bytesPerSample]
    rcases h.bytes_cases with rfl | rfl <;> rfl
  have hbytes : Int32.ofNat ((WavHeader.ofParameters p).bitsPerSample.toNat / 8) = p.bytesPerSample := by
    apply Int32.toInt_inj.1
    rw [hbits, h.bytesPerSample]
    exact toInt32_ofNat (by rcases h.bytes_cases with rfl | rfl <;> decide)
  have hchannels : Int32.ofNat (WavHeader.ofParameters p).numChannels.toNat = p.numChannels := by
    apply Int32.toInt_inj.1
    have := h.channels_le
    rw [WavHeader.ofParameters, UInt32.toNat_toUInt16, toNat_toUInt32 h.numChannels, h.numChannels]
    rw [Nat.mod_eq_of_lt (by omega)]
    exact toInt32_ofNat (by omega)
  have hrate : (WavHeader.ofParameters p).sampleRate.toInt32 = p.sampleRate := Int32.toInt32_toUInt32 _
  have hformat : WavFormat.ofValue (WavHeader.ofParameters p).audioFormat = p.format := ofValue_value h
  have hpos : ¬p.bytesPerSample ≤ 0 := by
    rw [Int32.le_iff_toInt_le, h.bytesPerSample]
    rcases h.bytes_cases with rfl | rfl <;> decide
  have hsamples : (WavHeader.ofParameters p).dataSize / p.bytesPerSample.toUInt32 = p.numSamples := by
    apply UInt32.toNat_inj.1
    rw [UInt32.toNat_div, WavHeader.ofParameters, h.dataSize, toNat_toUInt32 h.bytesPerSample]
    exact Nat.mul_div_cancel_left _ (by rcases h.bytes_cases with rfl | rfl <;> decide)
  simp only [parseHeader, hbytes, hchannels, hrate, hformat, hpos, hsamples, if_false]
  simp [WavHeader.ofParameters, hcheck]

/-- The header of accepted parameters is read as these, whatever stands behind it. -/
theorem readWavHeader_write (hcheck : checkWavParameters p = true) (rest : List UInt8) :
    readWavHeader ((WavHeader.ofParameters p).bytes ++ rest) = some p := by
  obtain ⟨channels, rate, bytes, h⟩ := accepted_of_check hcheck
  rw [readWavHeader_bytes rfl]
  exact parseHeader_ofParameters h hcheck

/-! ## What is accepted -/

theorem parseHeader_eq {header : WavHeader} (h : parseHeader header = some p) :
    checkWavParameters p = true ∧ p.bytesPerSample = Int32.ofNat (header.bitsPerSample.toNat / 8) ∧
      p.numSamples = header.dataSize / p.bytesPerSample.toUInt32 ∧ riffChunkSize header.dataSize ≤ header.riffSize := by
  simp only [parseHeader, Option.ite_none_left_eq_some, Option.ite_none_right_eq_some] at h
  obtain ⟨-, -, -, -, -, hriff, -, -, hcheck, hp⟩ := h
  cases hp
  exact ⟨hcheck, rfl, rfl, UInt32.not_lt.1 hriff⟩

/-! ## Both directions -/

/-- The header is written, each field holds its number and what is read is what was written. -/
def WriteExact (p : WavParameters) : Prop :=
  ∃ header, writeWavHeader p = some header.bytes ∧ FieldsExact header p ∧
    ∀ rest, readWavHeader (header.bytes ++ rest) = some p

theorem writeExact_iff (hcheck : checkWavParameters p = true) :
    WriteExact p ↔ p.numChannels.toInt * p.bytesPerSample.toInt ≤ 65535 := by
  obtain ⟨channels, rate, bytes, h⟩ := accepted_of_check hcheck
  have hwrite : writeWavHeader p = some (WavHeader.ofParameters p).bytes := if_pos hcheck
  have hfields := fieldsExact_iff h
  rw [h.numChannels, h.bytesPerSample]
  constructor
  · rintro ⟨header, hheader, hexact, -⟩
    have hsame : header = WavHeader.ofParameters p := by
      rw [hwrite, Option.some.injEq] at hheader
      rw [← ofBytes_bytes header, ← hheader, ofBytes_bytes]
    exact_mod_cast hfields.1 (hsame ▸ hexact)
  · intro hle
    exact ⟨_, hwrite, hfields.2 (by exact_mod_cast hle), readWavHeader_write hcheck⟩

section
variable (readable : List UInt8)

/-- The numbers that a stream announces: the RIFF size, the length of its header and the size of the payload. -/
def riffSize : Nat := (le32At readable 4).toNat
def hasExtension : Prop := le32At readable 16 ≠ kFmtSubchunkSize
instance : Decidable (hasExtension readable) := inferInstanceAs (Decidable (_ ≠ _))
def headerSize : Nat := if hasExtension readable then kWavHeaderSize + 2 else kWavHeaderSize
def payloadSize : Nat := (le32At readable (headerSize readable - 4)).toNat

/-- The parameters are acceptable, the samples are the whole ones of the payload, and the RIFF size covers everything
behind its own chunk header. -/
def ReadExact (p : WavParameters) : Prop :=
  checkWavParameters p = true ∧
  p.numSamples.toNat * p.bytesPerSample.toInt = payloadSize readable - payloadSize readable % p.bytesPerSample.toInt ∧
  headerSize readable - 8 + payloadSize readable ≤ riffSize readable

end

variable {readable : List UInt8}

theorem read_eq_some {n : Nat} {buf rest : List UInt8} (h : read readable n = some (buf, rest)) :
    buf = readable.take n ∧ rest = readable.drop n := by
  rw [read] at h
  split_ifs at h
  cases h
  exact ⟨rfl, rfl⟩

theorem readExtension_eq {rest : List UInt8} (h : readExtension (le32At readable 16) (readable.drop 36) = some rest) :
    rest = readable.drop (headerSize readable - 8) := by
  rw [readExtension] at h
  by_cases hplain : le32At readable 16 = kFmtSubchunkSize
  · have hsize : headerSize readable = 44 := if_neg (not_not.2 hplain)
    rw [if_pos hplain] at h
    cases h
    rw [hsize]
  · have hsize : headerSize readable = 46 := if_pos hplain
    rw [if_neg hplain] at h
    split_ifs at h
    obtain ⟨⟨extSize, rest'⟩, hread, h⟩ := Option.bind_eq_some_iff.1 h
    obtain ⟨rfl, rfl⟩ := read_eq_some hread
    simp only at h
    split_ifs at h
    cases h
    rw [hsize, List.drop_drop]

/-- The header that is parsed stands in the stream, behind it the data. -/
theorem readWavHeader_eq (h : readWavHeader readable = some p) :
    ∃ header, parseHeader header = some p ∧ header.riffSize.toNat = riffSize readable ∧
      header.dataSize.toNat = payloadSize readable := by
  obtain ⟨⟨first, rest⟩, hfirst, h⟩ := Option.bind_eq_some_iff.1 h
  obtain ⟨rfl, rfl⟩ := read_eq_some hfirst
  obtain ⟨rest', hext, h⟩ := Option.bind_eq_some_iff.1 h
  obtain ⟨⟨data, rest''⟩, hdata, h⟩ := Option.bind_eq_some_iff.1 h
  obtain ⟨rfl, rfl⟩ := read_eq_some hdata
  have hfmt : le32At (readable.take 36) 16 = le32At readable 16 := le32At_take (by decide)
  have hrest : rest' = readable.drop (headerSize readable - 8) := readExtension_eq (hfmt ▸ hext)
  have hriff : le32At (readable.take 36) 4 = le32At readable 4 := le32At_take (by decide)
  have hlast : headerSize readable - 8 + 4 = headerSize readable - 4 := by
    rw [headerSize]
    split <;> rfl
  have hpayload : le32At (rest'.take 8) 4 = le32At readable (headerSize readable - 4) := by
    rw [le32At_take (by decide), hrest, le32At_drop, hlast]
  exact ⟨_, h, congrArg UInt32.toNat hriff, congrArg UInt32.toNat hpayload⟩

theorem readExact_iff (h : readWavHeader readable = some p) :
    ReadExact readable p ↔ ¬(hasExtension readable ∧ riffSize readable < payloadSize readable + 38) := by
  obtain ⟨header, hparse, hriff, hdata⟩ := readWavHeader_eq h
  obtain ⟨hcheck, hbytes, hsamples, hcovers⟩ := parseHeader_eq hparse
  obtain ⟨channels, rate, bytes, haccepted⟩ := accepted_of_check hcheck
  have hnum : p.numSamples.toNat = payloadSize readable / bytes := by
    rw [hsamples, UInt32.toNat_div, toNat_toUInt32 haccepted.bytesPerSample, hdata]
  have hwhole := Nat.div_add_mod (payloadSize readable) bytes
  have hfits : payloadSize readable + 36 < 2 ^ 32 := by
    have hlt := haccepted.riffSize_lt
    rw [hnum] at hlt
    rcases haccepted.bytes_cases with rfl | rfl <;> omega
  have hle : payloadSize readable + 36 ≤ riffSize readable := by
    rw [UInt32.le_iff_toNat_le, riffChunkSize_toNat (by rw [hdata]; exact hfits), hriff, hdata] at hcovers
    exact hcovers
  have hmultiple : (p.numSamples.toNat : Int) * p.bytesPerSample.toInt =
      payloadSize readable - payloadSize readable % p.bytesPerSample.toInt := by
    rw [haccepted.bytesPerSample, hnum]
    rcases haccepted.bytes_cases with rfl | rfl <;> omega
  have hiff : ReadExact readable p ↔ headerSize readable - 8 + payloadSize readable ≤ riffSize readable :=
    ⟨fun h => h.2.2, fun h => ⟨hcheck, hmultiple, h⟩⟩
  rw [hiff]
  by_cases hext : hasExtension readable
  · have hsize : headerSize readable = 46 := if_pos hext
    simp only [hsize, hext, true_and]
    omega
  · have hsize : headerSize readable = 44 := if_neg hext
    simp only [hsize, hext, false_and, not_false_iff, iff_true]
    omega

end

/-- A header that is written is exact up to 65535 bytes in a block, and one that is read unless an extension field
makes it longer than the RIFF size allows. -/
theorem wavHeader_exact (p : WavParameters) (readable : List UInt8) :
    (checkWavParameters p = true → (WriteExact p ↔ p.numChannels.toInt * p.bytesPerSample.toInt ≤ 65535)) ∧
    ∀ q, readWavHeader readable = some q →
      (ReadExact readable q ↔ ¬(hasExtension readable ∧ riffSize readable < payloadSize readable + 38)) :=
  ⟨writeExact_iff, fun _ => readExact_iff⟩

/-- 40000 channels of two bytes. -/
def manyChannels : WavParameters := ⟨40000, 1, .pcm, 2, 0⟩

/-- A header with an extension field whose RIFF size is the one of a header without it. -/
def extended : List UInt8 :=
  [0x52, 0x49, 0x46, 0x46, 38, 0, 0, 0, 0x57, 0x41, 0x56, 0x45, 0x66, 0x6d, 0x74, 0x20, 18, 0, 0, 0, 1, 0, 1, 0,
    0x40, 0x1f, 0, 0, 0x40, 0x1f, 0, 0, 1, 0, 8, 0, 0, 0, 0x64, 0x61, 0x74, 0x61, 2, 0, 0, 0]

/-- Two channels, and the same header with a RIFF size that counts its extension field. -/
theorem wavHeader_exact_counted :
    WriteExact ⟨2, 48000, .pcm, 2, 480⟩ ∧ ReadExact (extended.set 4 40) ⟨1, 8000, .pcm, 1, 2⟩ := by
  obtain ⟨hwrite, -⟩ := wavHeader_exact ⟨2, 48000, .pcm, 2, 480⟩ []
  obtain ⟨-, hread⟩ := wavHeader_exact manyChannels (extended.set 4 40)
  exact ⟨(hwrite (by decide)).2 (by decide), (hread _ (by decide)).2 (by decide)⟩

theorem wavHeader_inexact :
    (checkWavParameters manyChannels = true ∧ ¬WriteExact manyChannels) ∧
    ∃ q, readWavHeader extended = some q ∧ ¬ReadExact extended q := by
  have hcheck : checkWavParameters manyChannels = true := by decide
  refine ⟨⟨hcheck, ?_⟩, ⟨1, 8000, .pcm, 1, 2⟩, ?_, ?_⟩
  · rw [writeExact_iff hcheck]
    decide
  · decide
  · rintro ⟨-, -, hcovers⟩
    revert hcovers
    decide

end WebRtc.Wav
