import Mathlib.Data.List.Nodup
import WebRtc.Lib.Machine
import WebRtc.Rtp.PacketHistory

/-!
# Lookups in the history are exact

A log is kept of the packets that were put, with the slots they were written to. Numbers in it do not
wrap: within 2^16 of them no two have the same 16 bits, and a packet is not kept for longer
(`ageBound`), however the ring grows.
-/

namespace WebRtc.Rtp.History

open Bytes CInt

structure SentPacket where
  number : Int
  packet : List UInt8
  timeMs : Int
  storageType : StorageType
  slot : Nat
deriving DecidableEq, Repr

def SentPacket.sequenceNumber (e : SentPacket) : UInt16 := read16At e.packet 2

/-- The last of the packets that was written to a slot. The log starts with the packet that was put last. -/
def lastIn (log : List SentPacket) (i : Nat) : Option SentPacket := log.find? fun e => e.slot == i

/-- A packet that was put and whose slot has not been used since. -/
def Kept (log : List SentPacket) (e : SentPacket) : Prop := lastIn log e.slot = some e

/-- What the number of the next packet is, when its 16 bits are known for the first one. -/
def nextNumber (log : List SentPacket) (sequenceNumber : UInt16) : Int :=
  match log.head? with
  | none => sequenceNumber.toNat
  | some e => e.number + 1

@[simp] theorem lastIn_nil (i : Nat) : lastIn [] i = none := rfl

theorem lastIn_cons_self (e : SentPacket) (log : List SentPacket) : lastIn (e :: log) e.slot = some e := by
  simp [lastIn]

theorem lastIn_cons_ne {e : SentPacket} {i : Nat} (h : e.slot ≠ i) (log : List SentPacket) :
    lastIn (e :: log) i = lastIn log i := by
  simp [lastIn, h]

theorem lastIn_cons_some {e f : SentPacket} {log : List SentPacket} {i : Nat} (h : lastIn (e :: log) i = some f) :
    i = e.slot ∧ f = e ∨ i ≠ e.slot ∧ lastIn log i = some f := by
  by_cases hi : e.slot = i
  · subst hi
    rw [lastIn_cons_self, Option.some.injEq] at h
    exact Or.inl ⟨rfl, h.symm⟩
  · rw [lastIn_cons_ne hi] at h
    exact Or.inr ⟨Ne.symm hi, h⟩

theorem lastIn_cons_none {e : SentPacket} {log : List SentPacket} {i : Nat} (h : lastIn (e :: log) i = none) :
    i ≠ e.slot ∧ lastIn log i = none := by
  by_cases hi : e.slot = i
  · subst hi
    rw [lastIn_cons_self] at h
    cases h
  · rw [lastIn_cons_ne hi] at h
    exact ⟨Ne.symm hi, h⟩

theorem lastIn_mem {log : List SentPacket} {i : Nat} {e : SentPacket} (h : lastIn log i = some e) :
    e ∈ log ∧ e.slot = i :=
  ⟨List.mem_of_find?_eq_some h, by simpa using List.find?_some h⟩

theorem lastIn_none {log : List SentPacket} {i : Nat} (h : ∀ e ∈ log, e.slot ≠ i) : lastIn log i = none := by
  simpa [lastIn] using h

/-! ## The invariant -/

/-- The packet in a slot is the one of the log. -/
structure Holds (p : StoredPacket) (e : SentPacket) : Prop where
  length : p.length = e.packet.length
  positive : 0 < p.length
  fits : p.length ≤ ipPacketSize
  sequenceNumber : p.sequenceNumber = e.sequenceNumber
  timeMs : p.timeMs = e.timeMs
  storageType : p.storageType = e.storageType
  data : p.data.take p.length = e.packet

/-- How many packets ago a packet that is kept may have been put: all the sizes that the ring has had add up. -/
def ageBound (size : Nat) : Int := if size < kMaxHistoryCapacity then 4 * size else 48000

/-- A ring whose next slot may be written. The slots that have not been used are the last ones, from the
next one on. -/
structure Ready (h : RTPPacketHistory) (log : List SentPacket) (next : Int) : Prop where
  stores : h.store = true
  size : h.storedPackets.length ≤ kMaxHistoryCapacity
  prev : h.prevIndex < h.storedPackets.length
  held : ∀ i p e, h.storedPackets[i]? = some p → lastIn log i = some e → Holds p e
  unused : ∀ i p, h.storedPackets[i]? = some p → lastIn log i = none → p.length = 0 ∧ p.sequenceNumber = 0
  slots : ∀ e ∈ log, e.slot < h.storedPackets.length
  filled : ∀ i < h.prevIndex, lastIn log i ≠ none
  fresh : ∀ i j, h.prevIndex ≤ i → i < h.storedPackets.length → lastIn log i = none →
    h.prevIndex ≤ j → lastIn log j = none
  numbers : (log.map SentPacket.number).Nodup
  wraps : ∀ e ∈ log, e.sequenceNumber = wrap16 e.number
  before : ∀ e ∈ log, e.number < next
  old : ∀ i e, lastIn log i = some e →
    (i < h.prevIndex → next - e.number + (h.storedPackets.length - h.prevIndex) ≤ ageBound h.storedPackets.length) ∧
    (h.prevIndex ≤ i → next - e.number ≤ ageBound h.storedPackets.length + h.prevIndex)

/-- The slot before the next one is the one that was written last. -/
structure Tracks (h : RTPPacketHistory) (log : List SentPacket) : Prop where
  ready : ∀ next, (∀ e ∈ log.head?, next = e.number + 1) → Ready h log next
  latest : ∀ e ∈ log.head?, e.slot = (if 0 < h.prevIndex then h.prevIndex - 1 else h.storedPackets.length - 1)

theorem ageBound_le {size : Nat} (h : size ≤ kMaxHistoryCapacity) : ageBound size + size < 65536 := by
  unfold ageBound
  unfold kMaxHistoryCapacity at *
  split <;> omega

theorem le_ageBound {size : Nat} (h : size ≤ kMaxHistoryCapacity) : (size : Int) ≤ ageBound size := by
  unfold ageBound
  unfold kMaxHistoryCapacity at *
  split <;> omega

theorem ageBound_grow {c size : Nat} (hc0 : 0 < c) (hc : c < kMaxHistoryCapacity)
    (hsize : size = min (max (c * 3 / 2) (c + 1)) kMaxHistoryCapacity) :
    c < size ∧ size ≤ kMaxHistoryCapacity ∧ ageBound c + size ≤ ageBound size := by
  unfold ageBound
  unfold kMaxHistoryCapacity at *
  rw [if_pos hc]
  split <;> omega

section Slots
variable {h : RTPPacketHistory} {log : List SentPacket} {next : Int} (hr : Ready h log next)
include hr

theorem Ready.recent {i : Nat} {e : SentPacket} (he : lastIn log i = some e) :
    0 < next - e.number ∧ next - e.number < 65536 := by
  obtain ⟨hbefore, hafter⟩ := hr.old i e he
  have hlt := hr.before e (lastIn_mem he).1
  have hsize := ageBound_le hr.size
  have hprev := hr.prev
  by_cases hi : i < h.prevIndex
  · have hage := hbefore hi
    omega
  · have hage := hafter (Nat.le_of_not_lt hi)
    omega

/-- A number is kept once. -/
theorem Ready.unique {i j : Nat} {e f : SentPacket} (he : lastIn log i = some e) (hf : lastIn log j = some f)
    (hnumber : e.sequenceNumber = f.sequenceNumber) : e = f := by
  obtain ⟨heLog, -⟩ := lastIn_mem he
  obtain ⟨hfLog, -⟩ := lastIn_mem hf
  obtain ⟨he0, he1⟩ := hr.recent he
  obtain ⟨hf0, hf1⟩ := hr.recent hf
  rw [hr.wraps e heLog, hr.wraps f hfLog, wrap16_inj (by omega) (by omega)] at hnumber
  exact List.inj_on_of_nodup_map hr.numbers heLog hfLog hnumber

theorem Ready.slot {e : SentPacket} (he : Kept log e) : ∃ p, h.storedPackets[e.slot]? = some p ∧ Holds p e := by
  have hlt := hr.slots e (lastIn_mem he).1
  exact ⟨_, List.getElem?_eq_getElem hlt, hr.held _ _ e (List.getElem?_eq_getElem hlt) he⟩

end Slots

/-! ## The search -/

section Search
variable {h : RTPPacketHistory} (hprev : h.prevIndex < h.storedPackets.length) (n : UInt16)
include hprev

/-- What is found has the number. Number 0 is guessed before the next slot. -/
theorem findSeqNum_spec : ∃ found, h.findSeqNum n = some found ∧
    (∀ i, found = some i → ∃ p : StoredPacket, h.storedPackets[i]? = some p ∧ p.sequenceNumber = n) ∧
    (∀ i, found = some i → n = 0 → i = (if 0 < h.prevIndex then h.prevIndex - 1 else h.storedPackets.length - 1) ∨
      i < h.prevIndex ∨ ∀ j < i, ∀ p : StoredPacket, h.storedPackets[j]? = some p → p.sequenceNumber ≠ n) ∧
    (found = none → ∀ (i : Nat) (p : StoredPacket), h.storedPackets[i]? = some p → p.sequenceNumber ≠ n) := by
  unfold RTPPacketHistory.findSeqNum
  dsimp only
  have hlast : (if 0 < h.prevIndex then h.prevIndex - 1 else h.storedPackets.length - 1) < h.storedPackets.length := by
    split <;> omega
  generalize (if 0 < h.prevIndex then h.prevIndex - 1 else h.storedPackets.length - 1) = last at hlast ⊢
  obtain ⟨latest, hlatest⟩ : ∃ p, h.storedPackets[last]? = some p := ⟨_, List.getElem?_eq_getElem hlast⟩
  simp only [hlatest, Option.bind_eq_bind, Option.bind_some]
  generalize hidx : i32 ((h.prevIndex : Int) - 1 - ((latest.sequenceNumber.toNat : Int) - n.toNat)) = idx
  have hindex : (if 0 ≤ idx ∧ idx < h.storedPackets.length then idx.toNat else last) < h.storedPackets.length := by
    split <;> omega
  have hzero : n = 0 → (if 0 ≤ idx ∧ idx < h.storedPackets.length then idx.toNat else last) = last ∨
      (if 0 ≤ idx ∧ idx < h.storedPackets.length then idx.toNat else last) < h.prevIndex := by
    rintro rfl
    by_cases hin : 0 ≤ idx ∧ idx < h.storedPackets.length
    · right
      rw [if_pos hin]
      have hlt := latest.sequenceNumber.toNat_lt
      have h0 : ((0 : UInt16).toNat : Int) = 0 := rfl
      rw [h0] at hidx
      unfold i32 at hidx
      omega
    · left
      rw [if_neg hin]
  generalize (if 0 ≤ idx ∧ idx < h.storedPackets.length then idx.toNat else last) = index at hindex hzero ⊢
  obtain ⟨guessed, hguessed⟩ : ∃ p, h.storedPackets[index]? = some p := ⟨_, List.getElem?_eq_getElem hindex⟩
  simp only [hguessed, Option.bind_some]
  by_cases hn : guessed.sequenceNumber = n
  · rw [if_pos hn]
    refine ⟨some index, rfl, ?_, ?_, fun hno => by cases hno⟩
    · rintro i ⟨⟩
      exact ⟨guessed, hguessed, hn⟩
    · rintro i ⟨⟩ hn0
      rcases hzero hn0 with hl | hl
      · exact Or.inl hl
      · exact Or.inr (Or.inl hl)
  · rw [if_neg hn]
    refine ⟨_, rfl, ?_, ?_, ?_⟩
    · intro i hi
      obtain ⟨hlt, hp, -⟩ := List.findIdx?_eq_some_iff_getElem.1 hi
      exact ⟨_, List.getElem?_eq_getElem hlt, by simpa using hp⟩
    · intro i hi _
      obtain ⟨hlt, -, hfirst⟩ := List.findIdx?_eq_some_iff_getElem.1 hi
      right
      right
      intro j hj p hp
      have hjlt : j < h.storedPackets.length := Nat.lt_trans hj hlt
      rw [List.getElem?_eq_getElem hjlt, Option.some.injEq] at hp
      rw [← hp]
      simpa using hfirst j hj
    · intro hnone i p hp
      rw [List.findIdx?_eq_none_iff] at hnone
      simpa using hnone p (List.mem_of_getElem? hp)

end Search

section Found
variable {h : RTPPacketHistory} {log : List SentPacket} (ht : Tracks h log)
include ht

theorem Tracks.anyReady : Ready h log (nextNumber log 0) := by
  apply ht.ready
  intro e he
  rw [Option.mem_def] at he
  simp only [nextNumber, he]

/-- A packet that is kept is found. -/
theorem findSeqNum_kept {e : SentPacket} (he : Kept log e) : h.findSeqNum e.sequenceNumber = some (some e.slot) := by
  have hr := ht.anyReady
  obtain ⟨found, hfind, hsome, hfirst, hnone⟩ := findSeqNum_spec hr.prev e.sequenceNumber
  obtain ⟨q, hq, hqe⟩ := hr.slot he
  rw [hfind]
  cases found with
  | none => exact absurd hqe.sequenceNumber (hnone rfl _ _ hq)
  | some i =>
    obtain ⟨p, hp, hpn⟩ := hsome i rfl
    have hi : i < h.storedPackets.length := (List.getElem?_eq_some_iff.1 hp).1
    -- A slot that has not been used looks like number 0.
    have hused : lastIn log i ≠ none := by
      intro hno
      have hzero : e.sequenceNumber = 0 := by
        rw [← hpn]
        exact (hr.unused i p hp hno).2
      rcases hfirst i rfl hzero with hl | hl | hl
      · cases hlog : log with
        | nil =>
          rw [hlog] at he
          cases he
        | cons f rest =>
          have hf := ht.latest f (by rw [hlog]; rfl)
          rw [← hl] at hf
          rw [hlog, ← hf, lastIn_cons_self] at hno
          cases hno
      · exact hr.filled i hl hno
      · have hle : i ≤ e.slot := by
          by_contra hlt
          exact hl e.slot (Nat.lt_of_not_le hlt) q hq hqe.sequenceNumber
        have hprev : h.prevIndex ≤ i := by
          by_contra hlt
          exact hr.filled i (Nat.lt_of_not_le hlt) hno
        have hkept : lastIn log e.slot = none := hr.fresh i e.slot hprev hi hno (Nat.le_trans hprev hle)
        rw [show lastIn log e.slot = some e from he] at hkept
        cases hkept
    obtain ⟨f, hf⟩ := Option.ne_none_iff_exists'.1 hused
    have hpf := hr.held i p f hp hf
    have heq : f = e := hr.unique hf he (by rw [← hpf.sequenceNumber, hpn])
    rw [← heq, (lastIn_mem hf).2]

/-- No other packet is found: at most, for number 0, a slot that has not been used. -/
theorem findSeqNum_absent {n : UInt16} (hno : ∀ e, Kept log e → e.sequenceNumber ≠ n) :
    ∃ found, h.findSeqNum n = some found ∧
      ∀ i, found = some i → n = 0 ∧ ∃ p : StoredPacket, h.storedPackets[i]? = some p ∧ p.length = 0 := by
  have hr := ht.anyReady
  obtain ⟨found, hfind, hsome, -, -⟩ := findSeqNum_spec hr.prev n
  refine ⟨found, hfind, ?_⟩
  intro i hi
  obtain ⟨p, hp, hpn⟩ := hsome i hi
  cases hlast : lastIn log i with
  | some e =>
    have hslot := (lastIn_mem hlast).2
    have hkept : Kept log e := by rw [Kept, hslot, hlast]
    have hpe := hr.held i p e hp hlast
    exact absurd (by rw [← hpe.sequenceNumber, hpn]) (hno e hkept)
  | none =>
    obtain ⟨hlen, hseq⟩ := hr.unused i p hp hlast
    exact ⟨by rw [← hpn, hseq], p, hp, hlen⟩

end Found

/-! ## A packet is put -/

section Put
variable {h : RTPPacketHistory} {log : List SentPacket} {next : Int} (hr : Ready h log next)
include hr

/-- The ring grows only when all its slots are used. -/
theorem Ready.grow (hused : lastIn log h.prevIndex ≠ none) {size : Nat} (hlt : h.storedPackets.length < size)
    (hmax : size ≤ kMaxHistoryCapacity) (hage : ageBound h.storedPackets.length + size ≤ ageBound size) :
    Ready { h with
      storedPackets := h.storedPackets ++ List.replicate (size - h.storedPackets.length) {}
      prevIndex := h.storedPackets.length } log next := by
  have hlen : (h.storedPackets ++ List.replicate (size - h.storedPackets.length)
      ({} : StoredPacket)).length = size := by
    rw [List.length_append, List.length_replicate]
    omega
  have hall : ∀ i < h.storedPackets.length, lastIn log i ≠ none := by
    intro i hi hno
    by_cases hlo : i < h.prevIndex
    · exact hr.filled i hlo hno
    · exact hused (hr.fresh i h.prevIndex (Nat.le_of_not_lt hlo) hi hno (Nat.le_refl _))
  have hnew : ∀ i, h.storedPackets.length ≤ i → lastIn log i = none := by
    intro i hi
    apply lastIn_none
    intro e he heq
    have hslot := hr.slots e he
    omega
  constructor
  case stores => exact hr.stores
  case size => simpa only [hlen] using hmax
  case prev => simpa only [hlen] using hlt
  case held =>
    intro i p e hp he
    have hi : i < h.storedPackets.length := by
      by_contra hge
      rw [hnew i (Nat.le_of_not_lt hge)] at he
      cases he
    rw [List.getElem?_append_left hi] at hp
    exact hr.held i p e hp he
  case unused =>
    intro i p hp hno
    have hi : h.storedPackets.length ≤ i := by
      by_contra hlt
      exact hall i (Nat.lt_of_not_le hlt) hno
    rw [List.getElem?_append_right hi, List.getElem?_replicate] at hp
    split at hp
    · rw [Option.some.injEq] at hp
      subst hp
      exact ⟨rfl, rfl⟩
    · cases hp
  case slots =>
    intro e he
    rw [hlen]
    exact Nat.lt_trans (hr.slots e he) hlt
  case filled => exact hall
  case fresh => exact fun i j _ _ _ hj => hnew j hj
  case numbers => exact hr.numbers
  case wraps => exact hr.wraps
  case before => exact hr.before
  case old =>
    intro i e he
    obtain ⟨hbefore, hafter⟩ := hr.old i e he
    have hprev := hr.prev
    dsimp only
    rw [hlen]
    constructor
    · intro _
      by_cases hlo : i < h.prevIndex
      · have h1 := hbefore hlo
        omega
      · have h1 := hafter (Nat.le_of_not_lt hlo)
        omega
    · intro hi
      rw [hnew i hi] at he
      cases he

/-- A packet that has not been sent is written over at most when the ring cannot grow. -/
theorem expandIfUnsent_spec : ∃ h', h.expandIfUnsent = some h' ∧ Ready h' log next ∧
    (h.storedPackets.length < kMaxHistoryCapacity → ∀ (i : Nat) (p : StoredPacket), h.storedPackets[i]? = some p →
      h'.storedPackets[i]? = some p ∧ (0 < p.length → p.sendTime = 0 → i ≠ h'.prevIndex)) := by
  obtain ⟨slot, hslot⟩ : ∃ p, h.storedPackets[h.prevIndex]? = some p := ⟨_, List.getElem?_eq_getElem hr.prev⟩
  have hmod : h.storedPackets.length % 65536 = h.storedPackets.length := by
    have hsize := hr.size
    unfold kMaxHistoryCapacity at hsize
    omega
  unfold RTPPacketHistory.expandIfUnsent
  simp only [hslot, hmod, Option.bind_eq_bind, Option.bind_some]
  by_cases hgrow : 0 < slot.length ∧ slot.sendTime = 0 ∧ h.storedPackets.length < kMaxHistoryCapacity
  · rw [if_pos hgrow]
    obtain ⟨hlength, -, hcap⟩ := hgrow
    generalize hsize : min (max (h.storedPackets.length * 3 / 2)
      (h.storedPackets.length + 1)) kMaxHistoryCapacity = size
    obtain ⟨hlt, hmax, hage⟩ := ageBound_grow (Nat.lt_of_le_of_lt (Nat.zero_le _) hr.prev) hcap hsize.symm
    have hused : lastIn log h.prevIndex ≠ none := by
      intro hno
      have hzero := (hr.unused _ _ hslot hno).1
      omega
    have hallocate : h.allocate size = some { h with
        storedPackets := h.storedPackets ++ List.replicate (size - h.storedPackets.length) {} } := by
      have hstores := hr.stores
      unfold RTPPacketHistory.allocate
      rw [if_pos ⟨Nat.lt_of_le_of_lt (Nat.zero_le _) hlt, hmax⟩, List.take_of_length_le (Nat.le_of_lt hlt), ← hstores]
    rw [hallocate, Option.bind_some]
    refine ⟨_, rfl, hr.grow hused hlt hmax hage, ?_⟩
    intro _ i p hp
    have hi := (List.getElem?_eq_some_iff.1 hp).1
    refine ⟨?_, fun _ _ => Nat.ne_of_lt hi⟩
    dsimp only
    rw [List.getElem?_append_left hi, hp]
  · rw [if_neg hgrow]
    refine ⟨h, rfl, hr, ?_⟩
    rintro hcap i p hp
    refine ⟨hp, ?_⟩
    rintro hlength hsent rfl
    rw [hslot, Option.some.injEq] at hp
    subst hp
    exact hgrow ⟨hlength, hsent, hcap⟩

/-- The index behind the one that is written. -/
def nextIndex (h : RTPPacketHistory) : Nat := if h.prevIndex + 1 ≥ h.storedPackets.length then 0 else h.prevIndex + 1

theorem nextIndex_lt : nextIndex h < h.storedPackets.length := by
  have hprev := hr.prev
  unfold nextIndex
  split <;> omega

/-- How old the packets are when the next number is written. -/
theorem old_write {e : SentPacket} (hslot : e.slot = h.prevIndex) (hnumber : e.number = next) {i : Nat}
    {f : SentPacket} (hf : lastIn (e :: log) i = some f) :
    (i < nextIndex h →
      next + 1 - f.number + (h.storedPackets.length - nextIndex h) ≤ ageBound h.storedPackets.length) ∧
      (nextIndex h ≤ i → next + 1 - f.number ≤ ageBound h.storedPackets.length + nextIndex h) := by
  have hprev := hr.prev
  have hsizeBound := le_ageBound hr.size
  unfold nextIndex
  rcases lastIn_cons_some hf with ⟨rfl, rfl⟩ | ⟨hne, hf⟩
  · split <;> constructor <;> intro <;> omega
  · obtain ⟨hbefore, hafter⟩ := hr.old i f hf
    have hi := hr.slots f (lastIn_mem hf).1
    rw [(lastIn_mem hf).2] at hi
    by_cases hlo : i < h.prevIndex
    · have hage := hbefore hlo
      split <;> constructor <;> intro <;> omega
    · have hage := hafter (Nat.le_of_not_lt hlo)
      split <;> constructor <;> intro <;> omega

/-- The entry of the packet with the next number is put where the next one goes. -/
theorem Ready.write {p : StoredPacket} {e : SentPacket} (hslot : e.slot = h.prevIndex) (hnumber : e.number = next)
    (hwraps : e.sequenceNumber = wrap16 next) (hholds : Holds p e) :
    Ready { h with storedPackets := h.storedPackets.set h.prevIndex p, prevIndex := nextIndex h } (e :: log)
      (next + 1) := by
  have hprev := hr.prev
  constructor
  case stores => exact hr.stores
  case size =>
    rw [List.length_set]
    exact hr.size
  case prev =>
    rw [List.length_set]
    exact nextIndex_lt hr
  case held =>
    intro i p' f hp hf
    rcases lastIn_cons_some hf with ⟨rfl, rfl⟩ | ⟨hi, hf⟩
    · rw [hslot, List.getElem?_set_self hprev, Option.some.injEq] at hp
      rw [← hp]
      exact hholds
    · rw [hslot] at hi
      rw [List.getElem?_set_ne (Ne.symm hi)] at hp
      exact hr.held i p' f hp hf
  case unused =>
    intro i p' hp hno
    obtain ⟨hi, hno⟩ := lastIn_cons_none hno
    rw [hslot] at hi
    rw [List.getElem?_set_ne (Ne.symm hi)] at hp
    exact hr.unused i p' hp hno
  case slots =>
    intro f hf
    rw [List.length_set]
    rcases List.mem_cons.1 hf with rfl | hf
    · rw [hslot]
      exact hprev
    · exact hr.slots f hf
  case filled =>
    intro i hi hno
    obtain ⟨hne, hno⟩ := lastIn_cons_none hno
    have hlt : i < h.prevIndex := by
      dsimp only at hi
      unfold nextIndex at hi
      split at hi <;> omega
    exact hr.filled i hlt hno
  case fresh =>
    intro i j hi hilt hno hj
    obtain ⟨hne, hno⟩ := lastIn_cons_none hno
    rw [List.length_set] at hilt
    dsimp only at hi hj
    by_cases hlo : i < h.prevIndex
    · exact absurd hno (hr.filled i hlo)
    · have hnowrap : ¬ h.prevIndex + 1 ≥ h.storedPackets.length := by omega
      rw [nextIndex, if_neg hnowrap] at hi hj
      rw [lastIn_cons_ne (by omega)]
      exact hr.fresh i j (by omega) hilt hno (by omega)
  case numbers =>
    rw [List.map_cons, List.nodup_cons]
    refine ⟨?_, hr.numbers⟩
    intro hmem
    obtain ⟨f, hf, heq⟩ := List.mem_map.1 hmem
    have hlt := hr.before f hf
    omega
  case wraps =>
    intro f hf
    rcases List.mem_cons.1 hf with rfl | hf
    · rw [hnumber, hwraps]
    · exact hr.wraps f hf
  case before =>
    intro f hf
    rcases List.mem_cons.1 hf with rfl | hf
    · omega
    · have hlt := hr.before f hf
      omega
  case old =>
    intro i f hf
    rw [List.length_set]
    exact old_write hr hslot hnumber hf

/-- **The packet is written** to the next slot. -/
theorem Ready.store {slot : StoredPacket} {packet : List UInt8} (h0 : 3 < packet.length)
    (h1 : packet.length ≤ ipPacketSize)
    (hnumber : read16At packet 2 = wrap16 next) (timeMs : Int) (type : StorageType) :
    Tracks (h.storeAt slot packet timeMs type)
        ({ number := next, packet, timeMs, storageType := type, slot := h.prevIndex } :: log) := by
  obtain ⟨p, hp⟩ : ∃ p : StoredPacket, p =
      { sequenceNumber := read16At packet 2
        timeMs
        sendTime := 0
        storageType := type
        hasBeenRetransmitted := false
        data := packet ++ slot.data.drop packet.length
        length := packet.length } := ⟨_, rfl⟩
  have hstore : h.storeAt slot packet timeMs type =
      { h with storedPackets := h.storedPackets.set h.prevIndex p, prevIndex := nextIndex h } := by
    rw [hp]
    rfl
  have hprev := hr.prev
  rw [hstore]
  constructor
  case latest =>
    intro f hf
    cases hf
    rw [List.length_set]
    dsimp only
    unfold nextIndex
    by_cases hwrap : h.prevIndex + 1 ≥ h.storedPackets.length
    · rw [if_pos hwrap, if_neg (Nat.lt_irrefl 0)]
      omega
    · rw [if_neg hwrap, if_pos (Nat.succ_pos _)]
      rfl
  case ready =>
    intro next' hnext'
    have hn : next' = next + 1 := hnext' _ rfl
    subst hn
    refine hr.write rfl rfl hnumber ?_
    subst hp
    exact ⟨rfl, Nat.lt_of_le_of_lt (Nat.zero_le 3) h0, h1, rfl, rfl, rfl, List.take_left⟩

end Put

/-! ## Sending -/

/-- What is noted when a packet is sent does not change which packets are kept. -/
theorem Tracks.touch {h : RTPPacketHistory} {log : List SentPacket} (ht : Tracks h log) {i : Nat} {p q : StoredPacket}
    (hp : h.storedPackets[i]? = some p) (hlength : q.length = p.length) (hseq : q.sequenceNumber = p.sequenceNumber)
    (htime : q.timeMs = p.timeMs) (htype : q.storageType = p.storageType) (hdata : q.data = p.data) :
    Tracks { h with storedPackets := h.storedPackets.set i q } log := by
  have hi := (List.getElem?_eq_some_iff.1 hp).1
  have hat : ∀ (j : Nat) (q' : StoredPacket), (h.storedPackets.set i q)[j]? = some q' →
    ∃ p', h.storedPackets[j]? = some p' ∧
      q'.length = p'.length ∧ q'.sequenceNumber = p'.sequenceNumber ∧ q'.timeMs = p'.timeMs ∧
        q'.storageType = p'.storageType ∧
      q'.data = p'.data := by
    intro j q' hq'
    by_cases hij : i = j
    · subst hij
      rw [List.getElem?_set_self hi, Option.some.injEq] at hq'
      subst hq'
      exact ⟨p, hp, hlength, hseq, htime, htype, hdata⟩
    · rw [List.getElem?_set_ne hij] at hq'
      exact ⟨q', hq', rfl, rfl, rfl, rfl, rfl⟩
  constructor
  case latest =>
    intro e he
    dsimp only
    rw [List.length_set]
    exact ht.latest e he
  case ready =>
    intro next hnext
    have hr := ht.ready next hnext
    constructor
    case stores => exact hr.stores
    case size =>
      rw [List.length_set]
      exact hr.size
    case prev =>
      rw [List.length_set]
      exact hr.prev
    case held =>
      intro j q' e hq' he
      obtain ⟨p', hp', hl, hs, ht', hty, hd⟩ := hat j q' hq'
      have hh := hr.held j p' e hp' he
      constructor
      · rw [hl, hh.length]
      · rw [hl]
        exact hh.positive
      · rw [hl]
        exact hh.fits
      · rw [hs, hh.sequenceNumber]
      · rw [ht', hh.timeMs]
      · rw [hty, hh.storageType]
      · rw [hl, hd, hh.data]
    case unused =>
      intro j q' hq' hno
      obtain ⟨p', hp', hl, hs, -⟩ := hat j q' hq'
      rw [hl, hs]
      exact hr.unused j p' hp' hno
    case slots =>
      rw [List.length_set]
      exact hr.slots
    case filled => exact hr.filled
    case fresh =>
      rw [List.length_set]
      exact hr.fresh
    case numbers => exact hr.numbers
    case wraps => exact hr.wraps
    case before => exact hr.before
    case old =>
      rw [List.length_set]
      exact hr.old

section Calls
variable {h : RTPPacketHistory} {log : List SentPacket} (ht : Tracks h log)
include ht

theorem hasRTPPacket_spec (n : UInt16) : ∃ found, h.hasRTPPacket n = some found ∧
    (found = true ↔ ∃ e, Kept log e ∧ e.sequenceNumber = n) := by
  have hstores := ht.anyReady.stores
  unfold RTPPacketHistory.hasRTPPacket
  rw [if_neg (by simp [hstores])]
  by_cases hkept : ∃ e, Kept log e ∧ e.sequenceNumber = n
  · obtain ⟨e, he, rfl⟩ := hkept
    obtain ⟨p, hp, hpe⟩ := ht.anyReady.slot he
    have hpos := hpe.positive
    simp only [findSeqNum_kept ht he, hp, Option.bind_eq_bind, Option.bind_some]
    exact ⟨_, rfl, by simp only [decide_eq_true_eq]; exact iff_of_true (by omega) ⟨e, he, rfl⟩⟩
  · obtain ⟨found, hfind, hempty⟩ := findSeqNum_absent ht (n := n) fun e he heq => hkept ⟨e, he, heq⟩
    simp only [hfind, Option.bind_eq_bind, Option.bind_some]
    cases found with
    | none => exact ⟨false, rfl, by simp [hkept]⟩
    | some i =>
      obtain ⟨-, p, hp, hlength⟩ := hempty i rfl
      simp only [hp, hlength, Option.bind_some]
      exact ⟨false, rfl, by simp [hkept]⟩

theorem setSent_spec (n : UInt16) (now : Int) : ∃ done h', h.setSent n now = some (done, h') ∧ Tracks h' log ∧
    (done = true → (∃ e, Kept log e ∧ e.sequenceNumber = n) ∨ n = 0 ∧ ∃ p ∈ h.storedPackets, p.length = 0) := by
  have hstores := ht.anyReady.stores
  unfold RTPPacketHistory.setSent
  rw [if_neg (by simp [hstores])]
  have hfound : ∃ found, h.findSeqNum n = some found ∧ ∀ i, found = some i → ∃ p, h.storedPackets[i]? = some p ∧
      ((∃ e, Kept log e ∧ e.sequenceNumber = n) ∨ n = 0 ∧ p.length = 0) := by
    by_cases hkept : ∃ e, Kept log e ∧ e.sequenceNumber = n
    · obtain ⟨e, he, rfl⟩ := hkept
      obtain ⟨p, hp, -⟩ := ht.anyReady.slot he
      refine ⟨_, findSeqNum_kept ht he, ?_⟩
      rintro i ⟨⟩
      exact ⟨p, hp, Or.inl ⟨e, he, rfl⟩⟩
    · obtain ⟨found, hfind, hempty⟩ := findSeqNum_absent ht (n := n) fun e he heq => hkept ⟨e, he, heq⟩
      refine ⟨found, hfind, ?_⟩
      intro i hi
      obtain ⟨hn, p, hp, hlength⟩ := hempty i hi
      exact ⟨p, hp, Or.inr ⟨hn, hlength⟩⟩
  obtain ⟨found, hfind, hslot⟩ := hfound
  simp only [hfind, Option.bind_eq_bind, Option.bind_some]
  cases found with
  | none => exact ⟨false, h, rfl, ht, fun hno => by cases hno⟩
  | some i =>
    obtain ⟨p, hp, hwhich⟩ := hslot i rfl
    simp only [hp, Option.bind_some]
    by_cases hsent : p.sendTime ≠ 0
    · rw [if_pos hsent]
      exact ⟨false, h, rfl, ht, fun hno => by cases hno⟩
    · rw [if_neg hsent]
      refine ⟨true, _, rfl, ht.touch hp rfl rfl rfl rfl rfl, fun _ => ?_⟩
      rcases hwhich with hkept | ⟨hn, hlength⟩
      · exact Or.inl hkept
      · exact Or.inr ⟨hn, p, List.mem_of_getElem? hp, hlength⟩

theorem getPacketAndSetSendTime_spec (n : UInt16) {packetLength : Nat}
    (hroom : ipPacketSize ≤ packetLength) (r : Request) :
    ∃ got h', h.getPacketAndSetSendTime n packetLength r = some (got, h') ∧ Tracks h' log ∧
      ∀ bytes timeMs, got = some (bytes, timeMs) ↔ ∃ e p, Kept log e ∧ e.sequenceNumber = n ∧
        h.storedPackets[e.slot]? = some p ∧
        ¬ (r.retransmit = true ∧ e.storageType = .dontRetransmit) ∧ p.tooEarly r = false ∧
            bytes = e.packet ∧ timeMs = e.timeMs := by
  have hr := ht.anyReady
  unfold RTPPacketHistory.getPacketAndSetSendTime
  rw [if_neg (Nat.not_lt_of_le hroom), if_neg (by simp [hr.stores])]
  by_cases hkept : ∃ e, Kept log e ∧ e.sequenceNumber = n
  · obtain ⟨e, he, rfl⟩ := hkept
    obtain ⟨p, hp, hpe⟩ := hr.slot he
    have hfits := hpe.fits
    have hpos := hpe.positive
    simp only [findSeqNum_kept ht he, hp, Option.bind_eq_bind, Option.bind_some]
    rw [if_neg (by omega), if_neg (by omega)]
    -- No other packet has the number.
    have honly : ∀ f q, Kept log f → f.sequenceNumber = e.sequenceNumber → h.storedPackets[f.slot]? =
        some q → f = e ∧ q = p := by
      intro f q hf hseq hq
      have hfe : f = e := hr.unique hf he hseq
      subst hfe
      rw [hp, Option.some.injEq] at hq
      exact ⟨rfl, hq.symm⟩
    by_cases hearly : p.tooEarly r = true
    · rw [if_pos hearly]
      refine ⟨none, h, rfl, ht, ?_⟩
      intro bytes timeMs
      refine iff_of_false (by simp) ?_
      rintro ⟨f, q, hf, hseq, hq, -, hnot, -, -⟩
      obtain ⟨rfl, rfl⟩ := honly f q hf hseq hq
      rw [hearly] at hnot
      cases hnot
    rw [if_neg hearly]
    by_cases hagain : p.notAgain r = true
    · rw [if_pos hagain]
      refine ⟨none, h, rfl, ht, ?_⟩
      intro bytes timeMs
      refine iff_of_false (by simp) ?_
      rintro ⟨f, q, hf, hseq, hq, hnot, -, -, -⟩
      obtain ⟨rfl, rfl⟩ := honly f q hf hseq hq
      apply hnot
      simpa [StoredPacket.notAgain, hpe.storageType] using hagain
    rw [if_neg hagain]
    refine ⟨_, _, rfl, ht.touch hp rfl rfl rfl rfl rfl, ?_⟩
    intro bytes timeMs
    simp only [RTPPacketHistory.getPacket, hpe.data, hpe.timeMs, Option.some.injEq, Prod.mk.injEq]
    constructor
    · rintro ⟨rfl, rfl⟩
      refine ⟨e, p, he, rfl, hp, ?_, by simpa using hearly, rfl, rfl⟩
      simpa [StoredPacket.notAgain, hpe.storageType] using hagain
    · rintro ⟨f, q, hf, hseq, hq, -, -, rfl, rfl⟩
      obtain ⟨rfl, rfl⟩ := honly f q hf hseq hq
      exact ⟨rfl, rfl⟩
  · have hnone : ∀ bytes timeMs, (none : Option (List UInt8 × Int)) = some (bytes, timeMs) ↔
      ∃ e p, Kept log e ∧ e.sequenceNumber = n ∧
        h.storedPackets[e.slot]? = some p ∧
          ¬ (r.retransmit = true ∧ e.storageType = .dontRetransmit) ∧ p.tooEarly r = false ∧
        bytes = e.packet ∧ timeMs = e.timeMs := by
      intro bytes timeMs
      refine iff_of_false (by simp) ?_
      rintro ⟨e, p, he, hseq, -⟩
      exact hkept ⟨e, he, hseq⟩
    obtain ⟨found, hfind, hempty⟩ := findSeqNum_absent ht (n := n) fun e he heq => hkept ⟨e, he, heq⟩
    simp only [hfind, Option.bind_eq_bind, Option.bind_some]
    cases found with
    | none => exact ⟨none, h, rfl, ht, hnone⟩
    | some i =>
      obtain ⟨-, p, hp, hlength⟩ := hempty i rfl
      simp only [hp, Option.bind_some]
      rw [if_neg (by omega), if_pos hlength]
      exact ⟨none, h, rfl, ht, hnone⟩

end Calls

/-! ## Runs -/

inductive HistoryEvent where
  | put (packet : List UInt8) (captureTimeMs : Int) (type : StorageType) (now : Int)
  | has (sequenceNumber : UInt16)
  | setSent (sequenceNumber : UInt16) (now : Int)
  | get (sequenceNumber : UInt16) (packetLength : Nat) (request : Request)
deriving DecidableEq, Repr

/-- The log of a packet that is put; one that is too long is not. -/
def logPut (h : RTPPacketHistory) (log : List SentPacket) (packet : List UInt8) (captureTimeMs : Int)
    (type : StorageType) (now : Int) :
    List SentPacket :=
  if ipPacketSize < packet.length then log
  else
    { number := nextNumber log (read16At packet 2)
      packet
      timeMs := RTPPacketHistory.captureTime captureTimeMs now
      storageType := type
      slot := (h.expandIfUnsent.map RTPPacketHistory.prevIndex).getD 0 } :: log

/-- The history and its log after a call. -/
def historyStep : Option RTPPacketHistory × List SentPacket → HistoryEvent →
    (Option RTPPacketHistory × List SentPacket) × Unit
  | (none, log), _ => ((none, log), ())
  | (some h, log), .put packet captureTimeMs type now =>
    (((h.putRTPPacket packet captureTimeMs type now).map Prod.snd, logPut h log packet captureTimeMs type now), ())
  | (some h, log), .has sequenceNumber => (((h.hasRTPPacket sequenceNumber).map fun _ => h, log), ())
  | (some h, log), .setSent sequenceNumber now => (((h.setSent sequenceNumber now).map Prod.snd, log), ())
  | (some h, log), .get sequenceNumber packetLength request =>
    (((h.getPacketAndSetSendTime sequenceNumber packetLength request).map Prod.snd, log), ())

/-- The assertions, and consecutive sequence numbers: those of two packets that are put one after the other. -/
def Allowed (p : Option RTPPacketHistory × List SentPacket) : HistoryEvent → Prop
  | .put packet _ _ _ =>
    3 < packet.length ∧ (packet.length ≤ ipPacketSize → ∀ e ∈ p.2.head?, read16At packet 2 = e.sequenceNumber + 1)
  | .get _ packetLength _ => ipPacketSize ≤ packetLength
  | _ => True

/-- What the next call finds. -/
structure Exact (h : RTPPacketHistory) (log : List SentPacket) : Prop where
  has : ∀ n, ∃ found, h.hasRTPPacket n = some found ∧ (found = true ↔ ∃ e, Kept log e ∧ e.sequenceNumber = n)
  get : ∀ n packetLength r, ipPacketSize ≤ packetLength →
    ∃ got h', h.getPacketAndSetSendTime n packetLength r = some (got, h') ∧
    ∀ bytes timeMs, got = some (bytes, timeMs) ↔ ∃ e p, Kept log e ∧ e.sequenceNumber = n ∧
      h.storedPackets[e.slot]? = some p ∧
      ¬ (r.retransmit = true ∧ e.storageType = .dontRetransmit) ∧ p.tooEarly r = false ∧
        bytes = e.packet ∧ timeMs = e.timeMs
  sent : ∀ n now, ∃ done h', h.setSent n now = some (done, h') ∧
    (done = true → (∃ e, Kept log e ∧ e.sequenceNumber = n) ∨ n = 0 ∧ ∃ p ∈ h.storedPackets, p.length = 0)
  unsent : h.storedPackets.length < kMaxHistoryCapacity → ∀ packet captureTimeMs type now result h',
    h.putRTPPacket packet captureTimeMs type now = some (result, h') → ∀ (i : Nat) (p : StoredPacket),
      h.storedPackets[i]? = some p → 0 < p.length → p.sendTime = 0 → h'.storedPackets[i]? = some p

theorem nextNumber_spec {log : List SentPacket} {n : UInt16} (hwraps : ∀ e ∈ log, e.sequenceNumber = wrap16 e.number)
    (hnext : ∀ e ∈ log.head?, n = e.sequenceNumber + 1) :
    n = wrap16 (nextNumber log n) ∧ ∀ e ∈ log.head?, nextNumber log n = e.number + 1 := by
  cases log with
  | nil => exact ⟨(wrap16_of n).symm, by simp⟩
  | cons e rest =>
    have hn := hnext e rfl
    refine ⟨?_, by simp [nextNumber]⟩
    rw [hwraps e List.mem_cons_self] at hn
    have hadd := wrap16_add e.number 1
    rw [hn]
    exact hadd

section Step
variable {h : RTPPacketHistory} {log : List SentPacket} (ht : Tracks h log)
include ht

theorem putRTPPacket_spec {packet : List UInt8} (hlen : 3 < packet.length)
    (hnext : packet.length ≤ ipPacketSize → ∀ e ∈ log.head?, read16At packet 2 =
    e.sequenceNumber + 1) (captureTimeMs : Int)
    (type : StorageType) (now : Int) : ∃ result h', h.putRTPPacket packet captureTimeMs type now = some (result, h') ∧
      Tracks h' (logPut h log packet captureTimeMs type now) := by
  have hr := ht.anyReady
  unfold RTPPacketHistory.putRTPPacket logPut
  rw [if_neg (by simp [hr.stores]), if_neg (by omega)]
  by_cases hlong : ipPacketSize < packet.length
  · rw [if_pos hlong, if_pos hlong]
    exact ⟨_, h, rfl, ht⟩
  · rw [if_neg hlong, if_neg hlong]
    have hfits := Nat.le_of_not_lt hlong
    obtain ⟨hnumber, hsucc⟩ := nextNumber_spec hr.wraps (hnext hfits)
    obtain ⟨expanded, hexpand, hready, -⟩ := expandIfUnsent_spec (ht.ready _ hsucc)
    obtain ⟨slot, hslot⟩ : ∃ p, expanded.storedPackets[expanded.prevIndex]? = some p :=
      ⟨_, List.getElem?_eq_getElem hready.prev⟩
    simp only [hexpand, hslot, Option.bind_eq_bind, Option.bind_some, Option.map_some, Option.getD_some]
    exact ⟨_, _, rfl, hready.store hlen hfits hnumber _ type⟩

theorem putRTPPacket_unsent (hcap : h.storedPackets.length < kMaxHistoryCapacity)
    {packet : List UInt8} {captureTimeMs : Int}
    {type : StorageType} {now result : Int} {h' : RTPPacketHistory}
    (hput : h.putRTPPacket packet captureTimeMs type now = some (result, h')) {i : Nat} {p : StoredPacket}
    (hp : h.storedPackets[i]? = some p) (hlength : 0 < p.length)
    (hsent : p.sendTime = 0) : h'.storedPackets[i]? = some p := by
  have hr := ht.anyReady
  unfold RTPPacketHistory.putRTPPacket at hput
  rw [if_neg (by simp [hr.stores])] at hput
  by_cases hshort : packet.length ≤ 3
  · rw [if_pos hshort] at hput
    cases hput
  rw [if_neg hshort] at hput
  by_cases hlong : ipPacketSize < packet.length
  · rw [if_pos hlong, Option.some.injEq, Prod.mk.injEq] at hput
    rw [← hput.2]
    exact hp
  rw [if_neg hlong] at hput
  obtain ⟨expanded, hexpand, hready, hkeep⟩ := expandIfUnsent_spec hr
  obtain ⟨hsame, hne⟩ := hkeep hcap i p hp
  obtain ⟨slot, hslot⟩ : ∃ p, expanded.storedPackets[expanded.prevIndex]? = some p :=
    ⟨_, List.getElem?_eq_getElem hready.prev⟩
  simp only [hexpand, hslot, Option.bind_eq_bind, Option.bind_some, Option.some.injEq, Prod.mk.injEq] at hput
  rw [← hput.2]
  unfold RTPPacketHistory.storeAt
  dsimp only
  rw [List.getElem?_set_ne (Ne.symm (hne hlength hsent)), hsame]

theorem Tracks.exact : Exact h log where
  has := hasRTPPacket_spec ht
  get := by
    intro n packetLength r hroom
    obtain ⟨got, h', hget, -, hgot⟩ := getPacketAndSetSendTime_spec ht n hroom r
    exact ⟨got, h', hget, hgot⟩
  sent := by
    intro n now
    obtain ⟨done, h', hsent, -, hdone⟩ := setSent_spec ht n now
    exact ⟨done, h', hsent, hdone⟩
  unsent := fun hcap _ _ _ _ _ _ hput _ _ hp hlength hsent => putRTPPacket_unsent ht hcap hput hp hlength hsent

end Step

/-- **One call** keeps the log right. -/
theorem historyStep_tracks (p : Option RTPPacketHistory × List SentPacket) (e : HistoryEvent)
    (ht : ∃ h, p.1 = some h ∧ Tracks h p.2) (hallowed : Allowed p e) :
    ∃ h, (historyStep p e).1.1 = some h ∧ Tracks h (historyStep p e).1.2 := by
  obtain ⟨o, log⟩ := p
  obtain ⟨h, rfl, ht⟩ := ht
  cases e with
  | put packet captureTimeMs type now =>
    obtain ⟨result, h', hput, ht'⟩ := putRTPPacket_spec ht hallowed.1 hallowed.2 captureTimeMs type now
    exact ⟨h', congrArg (Option.map Prod.snd) hput, ht'⟩
  | has n =>
    obtain ⟨found, hhas, -⟩ := hasRTPPacket_spec ht n
    exact ⟨h, congrArg (Option.map fun _ => h) hhas, ht⟩
  | setSent n now =>
    obtain ⟨done, h', hsent, ht', -⟩ := setSent_spec ht n now
    exact ⟨h', congrArg (Option.map Prod.snd) hsent, ht'⟩
  | get n packetLength r =>
    obtain ⟨got, h', hget, ht', -⟩ := getPacketAndSetSendTime_spec ht n hallowed r
    exact ⟨h', congrArg (Option.map Prod.snd) hget, ht'⟩

/-- A history that nothing has been put into. -/
def started (numberToStore : UInt16) : Option RTPPacketHistory :=
  RTPPacketHistory.create.setStorePacketsStatus true numberToStore

theorem started_tracks {numberToStore : UInt16} (h0 : 0 < numberToStore.toNat)
    (h1 : numberToStore.toNat ≤ kMaxHistoryCapacity) :
    ∃ h, started numberToStore = some h ∧ Tracks h [] := by
  refine ⟨{ store := true, prevIndex := 0, storedPackets := List.replicate numberToStore.toNat {} }, ?_, ?_⟩
  · simp [started, RTPPacketHistory.setStorePacketsStatus, RTPPacketHistory.create,
      RTPPacketHistory.free, RTPPacketHistory.allocate, h0, h1]
  · constructor
    case latest => simp
    case ready =>
      intro next _
      constructor
      case stores => rfl
      case size => simpa using h1
      case prev => simpa using h0
      case held => simp
      case unused =>
        intro i p hp _
        rw [List.getElem?_replicate] at hp
        split at hp
        · rw [Option.some.injEq] at hp
          subst hp
          exact ⟨rfl, rfl⟩
        · cases hp
      case slots => simp
      case filled => simp
      case fresh => exact fun _ _ _ _ _ _ => rfl
      case numbers => simp
      case wraps => simp
      case before => simp
      case old => simp

/-- **Lookups are exact** in every run. -/
theorem lookups_exact (numberToStore : UInt16) (h0 : 0 < numberToStore.toNat)
    (h1 : numberToStore.toNat ≤ kMaxHistoryCapacity)
    (events : List HistoryEvent) (hallowed : Machine.Meets historyStep Allowed (started numberToStore, []) events) :
    Machine.Always historyStep (fun p => ∃ h, p.1 = some h ∧ Exact h p.2) (started numberToStore, []) events := by
  have htracks := Machine.always_of_meets (P := fun p : Option RTPPacketHistory × List SentPacket =>
    ∃ h, p.1 = some h ∧ Tracks h p.2)
    historyStep_tracks (started_tracks h0 h1) hallowed
  refine htracks.mono ?_
  rintro p ⟨h, hp, ht⟩
  exact ⟨h, hp, ht.exact⟩

/-- The second packet does not push out the first one, which has not been sent, where the numbers wrap. -/
theorem lookups_exact_wrap : Machine.Always historyStep (fun p => ∃ h, p.1 = some h ∧ Exact h p.2) (started 1, [])
    [.put [128, 0, 255, 255] 5 .allowRetransmission 7, .put [128, 0, 0, 0] 0 .dontRetransmit 9, .has 65535,
      .get 65535 1500 ⟨0, true, 10, 11⟩] :=
  lookups_exact 1 (by decide) (by decide) _
    ⟨⟨by decide, fun _ => by simp⟩, ⟨by decide, fun _ => by decide⟩, trivial, Nat.le_refl 1500, trivial⟩

/-- A packet that is kept may not be sent again. -/
theorem kept_not_again : ¬ ∀ (events : List HistoryEvent), Machine.Meets historyStep Allowed (started 1, []) events →
    Machine.Always historyStep (fun p => ∃ h, p.1 = some h ∧ ∀ n r,
      ∃ got h', h.getPacketAndSetSendTime n 1500 r = some (got, h') ∧
      (got.isSome = true ↔ ∃ e, Kept p.2 e ∧ e.sequenceNumber = n)) (started 1, []) events := by
  intro h
  have hrun := h [.put [128, 0, 0, 7] 5 .dontRetransmit 9] ⟨⟨by decide, fun _ => by simp⟩, trivial⟩
  obtain ⟨history, hhistory, hget⟩ := hrun.2
  obtain ⟨got, h', hgot, hiff⟩ := hget 7 ⟨0, true, 10, 11⟩
  have hnone : (historyStep (started 1, []) (.put [128, 0, 0, 7] 5 .dontRetransmit 9)).1.1.bind
      (fun h => (h.getPacketAndSetSendTime 7 1500 ⟨0, true, 10, 11⟩).map Prod.fst) = some none := by decide
  rw [hhistory, Option.bind_some, hgot, Option.map_some, Option.some.injEq] at hnone
  rw [show got = none from hnone] at hiff
  exact absurd (hiff.2 ⟨⟨7, [128, 0, 0, 7], 5, .dontRetransmit, 0⟩, by unfold Kept; decide, by decide⟩) (by decide)

end WebRtc.Rtp.History
