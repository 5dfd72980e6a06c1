import WebRtc.Lib.Audit
import WebRtc.Stun.Integrity

/-!
# What the validation of a message reads

`validateMessageIntegrity` and `validateFingerprint` again, with the bytes they look at. The first of them takes the
length from a message of size 0, and compares 20 bytes behind the header of an attribute of which it has only made
sure that 20 bytes with the header are there.
-/

namespace WebRtc.Stun

open Audited Bytes

variable (hmac : List UInt8 → List UInt8 → Vector UInt8 20) (crc32 : List UInt8 → UInt32)

/-- `GetBE16` at `data + p`. -/
def getBE16 (data : List UInt8) (p : Nat) : Audited UInt16 := reading p 2 (read16At data p)

def getBE32 (data : List UInt8) (p : Nat) : Audited UInt32 := reading p 4 (read32At data p)

/-- The loop; every attribute is at least as long as its header. -/
def walkToIntegrity (data : List UInt8) (size currentPos : Nat) : Audited (Option Nat) :=
  if currentPos < size then do
    let attrType ← getBE16 data currentPos
    let attrLength ← getBE16 data (currentPos + 2)
    if attrType = messageIntegrity then
      return if attrLength.toNat ≠ kStunMessageIntegritySize ∨ size < currentPos + attrLength.toNat then none
        else some currentPos
    walkToIntegrity data size (currentPos + kStunAttributeHeaderSize + padded attrLength.toNat)
  else return none
termination_by size - currentPos
decreasing_by
  unfold kStunAttributeHeaderSize
  omega

def readMessageIntegrity (data : List UInt8) (size : Nat) (password : List UInt8) : Audited Bool := do
  if size % 4 ≠ 0 then return false
  let msgLength ← getBE16 data 2
  if size ≠ msgLength.toNat + kStunHeaderSize then return false
  match ← walkToIntegrity data size kStunHeaderSize with
  | none => return false
  | some miPos =>
    let tempData ← reading 0 miPos (bytesAt data 0 miPos)
    let tempData :=
      if miEnd miPos < size then
        let extraOffset := size - miEnd miPos
        put tempData 2 (be16 (UInt16.ofNat (size - extraOffset - kStunHeaderSize)))
      else tempData
    let mac ← reading (miPos + kStunAttributeHeaderSize) kStunMessageIntegritySize
      (bytesAt data (miPos + kStunAttributeHeaderSize) kStunMessageIntegritySize)
    return mac == (hmac password tempData).toList

def readFingerprint (data : List UInt8) (size : Nat) : Audited Bool := do
  let fingerprintAttrSize := kStunAttributeHeaderSize + 4
  if size % 4 ≠ 0 ∨ size < kStunHeaderSize + fingerprintAttrSize then return false
  let magicCookie ← getBE32 data 4
  if magicCookie ≠ kStunMagicCookie then return false
  let attrData := size - fingerprintAttrSize
  let attrType ← getBE16 data attrData
  if attrType ≠ fingerprint then return false
  let attrLength ← getBE16 data (attrData + 2)
  if attrLength ≠ 4 then return false
  let value ← getBE32 data (attrData + kStunAttributeHeaderSize)
  let text ← reading 0 attrData (bytesAt data 0 attrData)
  return (value ^^^ stunFingerprintXorValue) == crc32 text

section Walk
variable {data : List UInt8} {size currentPos : Nat}

/-- The loop ends within as many rounds as there are bytes. -/
theorem walkToIntegrity_val {fuel : Nat} (hfuel : size ≤ currentPos + fuel) :
    (walkToIntegrity data size currentPos).val = findIntegrity data size fuel currentPos := by
  induction fuel generalizing currentPos with
  | zero =>
    rw [walkToIntegrity, if_neg (by omega)]
    rfl
  | succ fuel ih =>
    rw [walkToIntegrity, findIntegrity]
    by_cases hlt : currentPos < size
    · rw [if_pos hlt, if_pos hlt]
      have hrest : (walkToIntegrity data size (currentPos + kStunAttributeHeaderSize +
          padded (read16At data (currentPos + 2)).toNat)).val = findIntegrity data size fuel (currentPos +
            kStunAttributeHeaderSize + padded (read16At data (currentPos + 2)).toNat) :=
        ih (by unfold kStunAttributeHeaderSize; omega)
      simp only [getBE16, val_reading_bind]
      by_cases htype : read16At data currentPos = messageIntegrity
      · rw [if_pos htype, if_pos htype]
        rfl
      · rw [if_neg htype, if_neg htype]
        exact hrest
    · rw [if_neg hlt, if_neg hlt]
      rfl

/-- Headers begin at multiples of 4. -/
theorem walkToIntegrity_reads (hsize : size % 4 = 0) (hpos : currentPos % 4 = 0) {fuel : Nat}
    (hfuel : size ≤ currentPos + fuel) : ReadsWithin 0 size (walkToIntegrity data size currentPos).log := by
  induction fuel generalizing currentPos with
  | zero =>
    rw [walkToIntegrity, if_neg (by omega)]
    exact readsWithin_nil 0 size
  | succ fuel ih =>
    rw [walkToIntegrity]
    by_cases hlt : currentPos < size
    · rw [if_pos hlt]
      simp only [getBE16, log_reading_bind]
      refine (readsWithin_reading _ (Nat.zero_le _) (by omega)).append
        ((readsWithin_reading _ (Nat.zero_le _) (by omega)).append ?_)
      by_cases htype : read16At data currentPos = messageIntegrity
      · rw [if_pos htype]
        exact readsWithin_nil 0 size
      · have hpad := padded_mod (read16At data (currentPos + 2)).toNat
        rw [if_neg htype]
        unfold kStunAttributeHeaderSize
        exact ih (by omega) (by omega)
    · rw [if_neg hlt]
      exact readsWithin_nil 0 size

end Walk

/-! ## The two functions -/

section Validation
variable {data password : List UInt8} {size pos : Nat}

theorem readMessageIntegrity_val : (readMessageIntegrity hmac data size password).val =
    validateMessageIntegrity hmac data size password := by
  unfold readMessageIntegrity validateMessageIntegrity
  by_cases hmod : size % 4 ≠ 0
  · rw [if_pos hmod, if_pos hmod]
    rfl
  · rw [if_neg hmod, if_neg hmod]
    simp only [getBE16, val_reading_bind]
    by_cases hlen : size ≠ (read16At data 2).toNat + kStunHeaderSize
    · rw [if_pos hlen, if_pos hlen]
      rfl
    · rw [if_neg hlen, if_neg hlen]
      simp only [val_bind, walkToIntegrity_val (Nat.le_add_left size kStunHeaderSize)]
      cases findIntegrity data size size kStunHeaderSize with
      | none => rfl
      | some miPos => rfl

theorem readFingerprint_val : (readFingerprint crc32 data size).val = validateFingerprint crc32 data size := by
  unfold readFingerprint validateFingerprint
  by_cases hsize : size % 4 ≠ 0 ∨ size < kStunHeaderSize + (kStunAttributeHeaderSize + 4)
  · rw [if_pos hsize, if_pos hsize, val_pure]
  · rw [if_neg hsize, if_neg hsize, getBE32, val_reading_bind_of rfl]
    by_cases hcookie : read32At data 4 ≠ kStunMagicCookie
    · rw [if_pos hcookie, if_pos hcookie, val_pure]
    · rw [if_neg hcookie, if_neg hcookie]
      extract_lets attrData
      rw [getBE16, val_reading_bind_of rfl]
      by_cases htype : read16At data attrData ≠ fingerprint
      · rw [if_pos htype, if_pos (Or.inl htype), val_pure]
      · rw [if_neg htype, getBE16, val_reading_bind_of rfl]
        by_cases hlength : read16At data (attrData + 2) ≠ 4
        · rw [if_pos hlength, if_pos (Or.inr hlength), val_pure]
        · rw [if_neg hlength, if_neg (not_or.2 ⟨htype, hlength⟩), getBE32, val_reading_bind_of rfl,
            val_reading_bind_of rfl, val_pure]

/-- The comparison goes behind the end when the attribute begins 20 bytes before it. -/
theorem readMessageIntegrity_reads_iff : ReadsWithin 0 size (readMessageIntegrity hmac data size password).log ↔
    size ≠ 0 ∧ ¬ (size % 4 = 0 ∧ size = (read16At data 2).toNat + kStunHeaderSize ∧
      FirstIntegrity data (size - kStunMessageIntegritySize)) := by
  unfold readMessageIntegrity
  by_cases hmod : size % 4 ≠ 0
  · rw [if_pos hmod]
    exact iff_of_true (readsWithin_nil 0 size) ⟨by omega, fun h => hmod h.1⟩
  · rw [if_neg hmod]
    simp only [getBE16, log_reading_bind]
    rw [readsWithin_append_iff, readsWithin_reading_iff _ (by decide)]
    by_cases hlen : size ≠ (read16At data 2).toNat + kStunHeaderSize
    · rw [if_pos hlen]
      constructor
      · exact fun h => ⟨by omega, fun h' => hlen h'.2.1⟩
      · exact fun h => ⟨by omega, readsWithin_nil 0 size⟩
    · have hlen' : size = (read16At data 2).toNat + kStunHeaderSize := not_not.1 hlen
      have hsize : kStunMessageIntegritySize ≤ size := hlen' ▸ Nat.le_add_left _ _
      have hwalk : ReadsWithin 0 size (walkToIntegrity data size kStunHeaderSize).log :=
        walkToIntegrity_reads (not_not.1 hmod) (by decide) (Nat.le_add_left size kStunHeaderSize)
      rw [if_neg hlen]
      simp only [log_bind, walkToIntegrity_val (Nat.le_add_left size kStunHeaderSize)]
      rw [readsWithin_append_iff, and_iff_right hwalk]
      cases hfind : findIntegrity data size size kStunHeaderSize with
      | none =>
        refine iff_of_true ⟨by unfold kStunMessageIntegritySize at hsize; omega, readsWithin_nil 0 size⟩ ?_
        refine ⟨by unfold kStunMessageIntegritySize at hsize; omega, fun h => ?_⟩
        rw [h.2.2.find (Nat.le_of_eq (Nat.sub_add_cancel hsize))] at hfind
        cases hfind
      | some pos =>
        obtain ⟨hpath, htype, hlength, hin⟩ := find_some hfind
        have hfirst : FirstIntegrity data pos := ⟨hpath, htype, hlength⟩
        have hpos := hfirst.mod.1
        have hread : ReadsWithin 0 size (reading 0 pos (bytesAt data 0 pos)).log :=
          readsWithin_reading _ (Nat.zero_le _) (by omega)
        simp only [log_reading_bind, log_pure]
        rw [readsWithin_append_iff, readsWithin_append_iff, and_iff_right hread, readsWithin_reading_iff _ (by decide),
          and_iff_left (readsWithin_nil 0 size)]
        unfold kStunMessageIntegritySize kStunAttributeHeaderSize at *
        constructor
        · rintro ⟨-, hend⟩
          refine ⟨by omega, fun h => ?_⟩
          rw [h.2.2.find (Nat.le_of_eq (Nat.sub_add_cancel hsize))] at hfind
          have heq := Option.some.inj hfind
          omega
        · rintro ⟨-, hnot⟩
          refine ⟨by omega, ?_⟩
          by_contra hend
          have heq : pos = size - 20 := by omega
          exact hnot ⟨not_not.1 hmod, hlen', heq ▸ hfirst⟩

theorem readFingerprint_reads : ReadsWithin 0 size (readFingerprint crc32 data size).log := by
  unfold readFingerprint
  by_cases hsize : size % 4 ≠ 0 ∨ size < kStunHeaderSize + (kStunAttributeHeaderSize + 4)
  · rw [if_pos hsize]
    exact readsWithin_nil 0 size
  · have hlong : 28 ≤ size := Nat.not_lt.1 (not_or.1 hsize).2
    have hattr : size - (kStunAttributeHeaderSize + 4) + 8 = size := by
      unfold kStunAttributeHeaderSize
      omega
    rw [if_neg hsize, getBE32, log_reading_bind_of rfl]
    refine (readsWithin_reading _ (Nat.zero_le _) (by omega)).append ?_
    split
    · exact readsWithin_nil 0 size
    · extract_lets attrData
      change attrData + 8 = size at hattr
      rw [getBE16, log_reading_bind_of rfl]
      refine (readsWithin_reading _ (Nat.zero_le _) (by omega)).append ?_
      split
      · exact readsWithin_nil 0 size
      · rw [getBE16, log_reading_bind_of rfl]
        refine (readsWithin_reading _ (Nat.zero_le _) (by omega)).append ?_
        split
        · exact readsWithin_nil 0 size
        · rw [getBE32, log_reading_bind_of rfl, log_reading_bind_of rfl]
          unfold kStunAttributeHeaderSize
          refine (readsWithin_reading _ (Nat.zero_le _) (by omega)).append ?_
          exact (readsWithin_reading _ (Nat.zero_le _) (by omega)).append (readsWithin_nil 0 size)

/-- **Only the message is read**, unless there is none or a MESSAGE-INTEGRITY attribute begins 20 bytes before the
end. -/
theorem validation_reads_iff : (ReadsWithin 0 size (readMessageIntegrity hmac data size password).log ∧
      ReadsWithin 0 size (readFingerprint crc32 data size).log) ↔
    size ≠ 0 ∧ ¬ (size % 4 = 0 ∧ size = (read16At data 2).toNat + kStunHeaderSize ∧
      FirstIntegrity data (size - kStunMessageIntegritySize)) := by
  rw [readMessageIntegrity_reads_iff, and_iff_left (readFingerprint_reads crc32)]

/-- No bytes at all; and 40 bytes, the last 20 of which begin with the header of a MESSAGE-INTEGRITY attribute. -/
theorem not_validation_reads : ¬ ReadsWithin 0 0 (readMessageIntegrity (fun _ _ => Vector.replicate 20 0) [] 0 []).log ∧
    ¬ ReadsWithin 0 40 (readMessageIntegrity (fun _ _ => Vector.replicate 20 0)
      ([0, 1, 0, 20] ++ List.replicate 16 0 ++ [0, 8, 0, 20] ++ List.replicate 16 0) 40 []).log := by
  constructor
  · rw [readMessageIntegrity_reads_iff]
    exact fun h => h.1 rfl
  · rw [readMessageIntegrity_reads_iff]
    exact fun h => h.2 ⟨by decide, by decide, Walk.here 20, by decide, by decide⟩

end Validation

end WebRtc.Stun
