import Mathlib.Data.List.Forall2
import WebRtc.Rtcp.Events

/-!
# NACK packets, from a list of sequence numbers and back

| here | there |
| --- | --- |
| `withList`          | `Nack::WithList` (rtcp_packet.cc:977); the field in progress is an argument |
| `createNack`        | `CreateNack` (:344), behind the header, as `Nack::Create` calls them |
| `createLoop`, `create` | the loop of `Nack::Create` (:943); the last buffer is sent by the caller |
| `addNACKPacket`     | `RTCPPacketInformation::AddNACKPacket` (rtcp_receiver_help.cc:87) |
| `handleNACKItem`    | `RTCPReceiver::HandleNACKItem` (rtcp_receiver.cc:825) |
| `handlePacket`      | `HandleNACK` (:802) and the loop of `IncomingRTCPPacket` (:280), for what they do to the NACK list |

Every field stands for up to 17 numbers. A buffer holds at most one NACK block, since a block that does
not have all that is left fills it to the last word.
-/

namespace WebRtc.Rtcp

open Bytes CInt
open WebRtc.Rtcp.Parser

/-! ## The sender -/

structure NackItem where
  packetId : UInt16
  bitMask : UInt16
deriving DecidableEq, Repr

/-- `static_cast<uint16_t>(n - pid) - 1`. -/
def nackShift (pid n : UInt16) : Int := (n - pid).toNat - 1

def withListFrom (pid bitmask : UInt16) : List UInt16 → List NackItem
  | [] => [⟨pid, bitmask⟩]
  | n :: rest =>
    if 0 ≤ nackShift pid n ∧ nackShift pid n ≤ 15 then
      withListFrom pid (bitmask ||| UInt16.ofNat (1 <<< (nackShift pid n).toNat)) rest
    else ⟨pid, bitmask⟩ :: withListFrom n 0 rest

def withList : List UInt16 → List NackItem
  | [] => []
  | pid :: rest => withListFrom pid 0 rest

structure Nack where
  senderSsrc : UInt32
  mediaSsrc : UInt32
  nackFields : List NackItem

def nackItemBytes (item : NackItem) : List UInt8 := be16 item.packetId ++ be16 item.bitMask

/-- One block, with `fields`. -/
def Nack.createNack (nack : Nack) (fields : List NackItem) : List UInt8 :=
  createHeader 1 205 ((fields.length * 4 + 12 + 3) / 4 - 1) ++ be32 nack.senderSsrc ++ be32 nack.mediaSsrc ++
    fields.flatMap nackItemBytes

/-- A round writes something or empties the buffer, so there are at most two of them for each field, and one
more at the start. -/
def Nack.createLoop (nack : Nack) (maxLength : Nat) : Nat → Buffers → List NackItem → Option Buffers
  | 0, _, _ => none
  | fuel + 1, b, fields =>
    let bytesLeft := szSub maxLength b.packet.length
    if bytesLeft < 12 + 4 then
      match b.onBufferFull with
      | none => none
      | some b => if fields.length = 0 then some b else nack.createLoop maxLength fuel b fields
    else
      let num := min ((bytesLeft - 12) / 4) fields.length
      let b := { b with packet := b.packet ++ nack.createNack (fields.take num) }
      if (fields.drop num).length = 0 then some b else nack.createLoop maxLength fuel b (fields.drop num)

/-- All buffers, the last of which was not full. `packet` is what the first one held. -/
def Nack.create (nack : Nack) (maxLength : Nat) (packet : List UInt8) : Option (List (List UInt8)) :=
  (nack.createLoop maxLength (2 * nack.nackFields.length + 1) ⟨packet, []⟩ nack.nackFields).map
    fun b => b.ready ++ [b.packet]

/-! ## The receiver -/

def addNACKPacket (numbers : List UInt16) (packetId : UInt16) : List UInt16 :=
  if numbers.length ≥ 20000 then numbers else numbers ++ [packetId]

/-- `n` rounds of the loop, from `i` on. -/
def maskLoop (packetId : UInt16) : Nat → Nat → UInt16 → List UInt16 → List UInt16
  | 0, _, _, numbers => numbers
  | n + 1, i, bitMask, numbers =>
    maskLoop packetId n (i + 1) (bitMask >>> 1)
      (if bitMask &&& 0x01 ≠ 0 then addNACKPacket numbers (packetId + UInt16.ofNat i) else numbers)

def handleNACKItem (item : NackItem) (numbers : List UInt16) : List UInt16 :=
  let numbers := addNACKPacket numbers item.packetId
  if item.bitMask ≠ 0 then maskLoop item.packetId 16 1 item.bitMask numbers else numbers

/-- `toUs`: the parser is among the items of a NACK packet that `HandleNACK` has taken up. -/
structure NackInfo where
  toUs : Bool
  nackSequenceNumbers : List UInt16

def handlePacket {F : Type} (receiverOnly : Bool) (mainSsrc : UInt32) (info : NackInfo) : Packet F → NackInfo
  | .rtpfbNack _ mediaSsrc =>
    -- Not to us.
    if receiverOnly ∨ mainSsrc ≠ mediaSsrc then ⟨false, info.nackSequenceNumbers⟩ else ⟨true, []⟩
  | .rtpfbNackItem packetId bitMask =>
    if info.toUs then ⟨true, handleNACKItem ⟨packetId, bitMask⟩ info.nackSequenceNumbers⟩ else info
  | _ => ⟨false, info.nackSequenceNumbers⟩

/-- The numbers a packet asks `mainSsrc` to send again. -/
def nackSequenceNumbers {F : Type} (receiverOnly : Bool) (mainSsrc : UInt32) (packets : List (Packet F)) :
    List UInt16 :=
  (packets.foldl (handlePacket receiverOnly mainSsrc) ⟨false, []⟩).nackSequenceNumbers

/-! ## The numbers of a field -/

/-- `n` is one of the numbers a field stands for. -/
def NackItem.Covers (item : NackItem) (n : UInt16) : Prop :=
  n = item.packetId ∨ ∃ k < 16, item.bitMask.toNat.testBit k = true ∧ n = item.packetId + UInt16.ofNat (k + 1)

theorem covers_zero {pid n : UInt16} : NackItem.Covers ⟨pid, 0⟩ n ↔ n = pid := by
  simp [NackItem.Covers]

theorem testBit_or_one_shift (mask : UInt16) {k : Nat} (hk : k < 16) (i : Nat) :
    (mask ||| UInt16.ofNat (1 <<< k)).toNat.testBit i = (mask.toNat.testBit i || decide (k = i)) := by
  have hlt : 2 ^ k < 2 ^ 16 := Nat.pow_lt_pow_right (by decide) hk
  rw [UInt16.toNat_or, Nat.testBit_or, UInt16.toNat_ofNat', Nat.one_shiftLeft, Nat.mod_eq_of_lt hlt,
    Nat.testBit_two_pow]

theorem eq_add_shift {pid n : UInt16} (h0 : 0 ≤ nackShift pid n) :
    n = pid + UInt16.ofNat ((nackShift pid n).toNat + 1) := by
  have hs : (nackShift pid n).toNat + 1 = (n - pid).toNat := by
    unfold nackShift at h0 ⊢
    omega
  rw [hs, UInt16.ofNat_toNat, UInt16.add_comm, UInt16.sub_add_cancel]

/-- A number that fits is added to the field. -/
theorem covers_insert {pid mask m : UInt16} (h0 : 0 ≤ nackShift pid m) (h15 : nackShift pid m ≤ 15) (n : UInt16) :
    NackItem.Covers ⟨pid, mask ||| UInt16.ofNat (1 <<< (nackShift pid m).toNat)⟩ n ↔
      NackItem.Covers ⟨pid, mask⟩ n ∨ n = m := by
  have hk : (nackShift pid m).toNat < 16 := by omega
  have hm := eq_add_shift h0
  generalize (nackShift pid m).toNat = k at hk hm
  unfold NackItem.Covers
  dsimp only
  constructor
  · rintro (h | ⟨i, hi, hbit, h⟩)
    · exact Or.inl (Or.inl h)
    · rw [testBit_or_one_shift mask hk, Bool.or_eq_true, decide_eq_true_eq] at hbit
      rcases hbit with hbit | rfl
      · exact Or.inl (Or.inr ⟨i, hi, hbit, h⟩)
      · exact Or.inr (h.trans hm.symm)
  · rintro ((h | ⟨i, hi, hbit, h⟩) | rfl)
    · exact Or.inl h
    · refine Or.inr ⟨i, hi, ?_, h⟩
      rw [testBit_or_one_shift mask hk, hbit, Bool.true_or]
    · refine Or.inr ⟨k, hk, ?_, hm⟩
      rw [testBit_or_one_shift mask hk, decide_eq_true rfl, Bool.or_true]

theorem covers_withListFrom (pid mask : UInt16) (l : List UInt16) (n : UInt16) :
    (∃ f ∈ withListFrom pid mask l, f.Covers n) ↔ NackItem.Covers ⟨pid, mask⟩ n ∨ n ∈ l := by
  induction l generalizing pid mask with
  | nil => simp [withListFrom]
  | cons m l ih =>
    unfold withListFrom
    split
    · rename_i hs
      rw [ih, covers_insert hs.1 hs.2, List.mem_cons, or_assoc]
    · rw [List.exists_mem_cons_iff, ih, covers_zero, List.mem_cons]

/-- The fields stand for the list. -/
theorem covers_withList (l : List UInt16) (n : UInt16) : (∃ f ∈ withList l, f.Covers n) ↔ n ∈ l := by
  cases l with
  | nil => simp [withList]
  | cons pid l => rw [withList, covers_withListFrom, covers_zero, List.mem_cons]

theorem withList_ne_nil {l : List UInt16} (h : l ≠ []) : withList l ≠ [] := by
  obtain ⟨n, hn⟩ := List.exists_mem_of_ne_nil l h
  obtain ⟨f, hf, -⟩ := (covers_withList l n).2 hn
  exact List.ne_nil_of_mem hf

/-! ## What the receiver makes of a field -/

theorem low_bit_ne_zero (mask : UInt16) : mask &&& 0x01 ≠ 0 ↔ mask.toNat.testBit 0 = true := by
  rw [Nat.testBit_zero, decide_eq_true_eq, ← Nat.and_one_is_mod, ne_eq, ← UInt16.toNat_inj, UInt16.toNat_and]
  have h := Nat.and_one_is_mod mask.toNat
  have h1 : (0x01 : UInt16).toNat = 1 := rfl
  have h0 : (0 : UInt16).toNat = 0 := rfl
  rw [h1, h0]
  omega

theorem testBit_shiftRight_one (mask : UInt16) (k : Nat) :
    (mask >>> 1).toNat.testBit k = mask.toNat.testBit (k + 1) := by
  rw [UInt16.toNat_shiftRight]
  have h1 : (1 : UInt16).toNat % 16 = 1 := rfl
  rw [h1, Nat.testBit_shiftRight, Nat.add_comm]

theorem addNACKPacket_eq {l : List UInt16} (h : l.length < 20000) (n : UInt16) : addNACKPacket l n = l ++ [n] :=
  if_neg (Nat.not_le.2 h)

theorem maskLoop_spec (pid : UInt16) (n i : Nat) (mask : UInt16) (l : List UInt16) (hl : l.length + n ≤ 20000) :
    (maskLoop pid n i mask l).length ≤ l.length + n ∧ ∀ x, x ∈ maskLoop pid n i mask l ↔
      x ∈ l ∨ ∃ k < n, mask.toNat.testBit k = true ∧ x = pid + UInt16.ofNat (i + k) := by
  induction n generalizing i mask l with
  | zero => simp [maskLoop]
  | succ n ih =>
    -- The lowest bit now, those above it in the rounds that follow.
    have hsplit : ∀ x, (∃ k < n + 1, mask.toNat.testBit k = true ∧ x = pid + UInt16.ofNat (i + k)) ↔
        (mask.toNat.testBit 0 = true ∧ x = pid + UInt16.ofNat i) ∨
          ∃ k < n, (mask >>> 1).toNat.testBit k = true ∧ x = pid + UInt16.ofNat (i + 1 + k) := by
      intro x
      rw [Nat.exists_lt_succ_left]
      simp only [testBit_shiftRight_one, Nat.add_zero, Nat.add_assoc, Nat.add_comm 1]
    unfold maskLoop
    by_cases hbit : mask &&& 0x01 ≠ 0
    · rw [if_pos hbit, addNACKPacket_eq (by omega)]
      have hlen : (l ++ [pid + UInt16.ofNat i]).length = l.length + 1 := by simp
      obtain ⟨ihl, ihm⟩ := ih (i + 1) (mask >>> 1) (l ++ [pid + UInt16.ofNat i]) (by omega)
      refine ⟨by omega, fun x => ?_⟩
      rw [ihm, hsplit, List.mem_append, List.mem_singleton, or_assoc, and_iff_right ((low_bit_ne_zero mask).1 hbit)]
    · rw [if_neg hbit]
      obtain ⟨ihl, ihm⟩ := ih (i + 1) (mask >>> 1) l (by omega)
      refine ⟨by omega, fun x => ?_⟩
      rw [ihm, hsplit]
      rw [low_bit_ne_zero] at hbit
      simp only [hbit, Bool.false_eq_true, false_and, false_or]

theorem handleNACKItem_spec (item : NackItem) {l : List UInt16} (hl : l.length + 17 ≤ 20000) :
    (handleNACKItem item l).length ≤ l.length + 17 ∧ ∀ x, x ∈ handleNACKItem item l ↔ x ∈ l ∨ item.Covers x := by
  have hlen : (l ++ [item.packetId]).length = l.length + 1 := by simp
  unfold handleNACKItem
  rw [addNACKPacket_eq (by omega)]
  dsimp only
  split
  · obtain ⟨h1, h2⟩ := maskLoop_spec item.packetId 16 1 item.bitMask (l ++ [item.packetId]) (by omega)
    refine ⟨by omega, fun x => ?_⟩
    rw [h2, List.mem_append, List.mem_singleton, or_assoc]
    simp only [NackItem.Covers, Nat.add_comm 1]
  · rename_i h0
    have h0 : item.bitMask = 0 := of_not_not h0
    refine ⟨by omega, fun x => ?_⟩
    rw [List.mem_append, List.mem_singleton]
    simp [NackItem.Covers, h0]

variable {F : Type}

/-- What is reported for a field. -/
def itemPacket (item : NackItem) : Packet F := .rtpfbNackItem item.packetId item.bitMask

theorem handleItems_spec (media : UInt32) (fields : List NackItem) (l : List UInt16)
    (hl : l.length + 17 * fields.length ≤ 20000) (x : UInt16) :
    x ∈ ((fields.map (itemPacket (F := F))).foldl (handlePacket false media) ⟨true, l⟩).nackSequenceNumbers ↔
      x ∈ l ∨ ∃ f ∈ fields, f.Covers x := by
  induction fields generalizing l with
  | nil => simp
  | cons f fields ih =>
    rw [List.length_cons] at hl
    obtain ⟨hlen, hmem⟩ := handleNACKItem_spec f (l := l) (by omega)
    have hstep : handlePacket false media ⟨true, l⟩ (itemPacket (F := F) f) = ⟨true, handleNACKItem f l⟩ := rfl
    rw [List.map_cons, List.foldl_cons, hstep, ih _ (by omega), hmem, List.exists_mem_cons_iff, or_assoc]

/-- A NACK packet that is to us asks for the numbers of its fields. -/
theorem mem_nackSequenceNumbers (sender media : UInt32) (fields : List NackItem)
    (h : fields.length ≤ 1000) (x : UInt16) :
    x ∈ nackSequenceNumbers false media (Packet.rtpfbNack (F := F) sender media :: fields.map itemPacket) ↔
      ∃ f ∈ fields, f.Covers x := by
  have hstep : handlePacket false media ⟨false, []⟩ (Packet.rtpfbNack (F := F) sender media) = ⟨true, []⟩ :=
    if_neg (by simp)
  have hspec := handleItems_spec (F := F) media fields [] (by simp only [List.length_nil]; omega) x
  rw [nackSequenceNumbers, List.foldl_cons, hstep, hspec]
  simp

/-- A module that only receives is asked for nothing. -/
theorem nackSequenceNumbers_receiverOnly (media : UInt32) (packets : List (Packet F)) :
    nackSequenceNumbers true media packets = [] := by
  have hstays (packet : Packet F) : handlePacket true media ⟨false, []⟩ packet = ⟨false, []⟩ := by
    cases packet <;> rfl
  unfold nackSequenceNumbers
  induction packets with
  | nil => rfl
  | cons packet packets ih => rw [List.foldl_cons, hstays, ih]

/-! ## Blocks -/

@[simp] theorem nackItemBytes_length (item : NackItem) : (nackItemBytes item).length = 4 := rfl

theorem flatMap_nackItemBytes_length (fields : List NackItem) :
    (fields.flatMap nackItemBytes).length = 4 * fields.length := by
  induction fields with
  | nil => rfl
  | cons f fields ih =>
    rw [List.flatMap_cons, List.length_append, ih, nackItemBytes_length, List.length_cons]
    omega

theorem createNack_length (nack : Nack) (fields : List NackItem) :
    (nack.createNack fields).length = 12 + 4 * fields.length := by
  simp only [Nack.createNack, List.length_append, createHeader_length, be32_length, flatMap_nackItemBytes_length]

variable {buf : List UInt8} {parseFrom : List UInt8 → Option F} {s : Parser F} {p : Nat}

theorem createNack_run (nack : Nack) (fields : List NackItem) (hf : fields.length ≤ 1000) (h : AtTop s p)
    (hp : p ≤ buf.length) (hat : At buf p (nack.createNack fields)) :
    ∃ t, Run buf parseFrom s (.rtpfbNack nack.senderSsrc nack.mediaSsrc :: fields.map itemPacket) t ∧
      AtTop t (p + (nack.createNack fields).length) := by
  have hfits := hat.length_le hp
  rw [createNack_length] at hfits ⊢
  have hwords : (fields.length * 4 + 12 + 3) / 4 - 1 = fields.length + 2 := by omega
  rw [Nack.createNack, hwords] at hat
  obtain ⟨hfixed, hitems⟩ := at_append.1 hat
  have hend : p + (fields.length + 2 + 1) * 4 = p + 12 + 4 * fields.length := by omega
  obtain ⟨t, block, ht, hte, hround⟩ := @iterate_feedback _ _ parseFrom _ _ _ _ 205 _ _ (Or.inl rfl) (by decide)
    (by omega) (by omega) h (by omega) hfixed
  rw [if_pos (show (205 : UInt8).toNat = ptRTPFB from rfl), parseRtpfb, if_pos rfl] at hround
  obtain ⟨u, hrun, hu⟩ := @items_run _ _ parseFrom _ .rtpfbNackItem 4 (by decide)
    (fun q => .rtpfbNackItem (read16At buf q) (read16At buf (q + 2))) (fun s hs =>
      by unfold dispatch; rw [hs]; rfl) nackItemBytes itemPacket nackItemBytes_length
    (fun q f hq => by
      obtain ⟨h1, h2⟩ := at_append.1 hq
      have h2 : read16At buf (q + 2) = f.bitMask := h2.read16
      simp only [h1.read16, h2, itemPacket])
    fields (p := p + 12) hitems
    (s := { t.report (.rtpfbNack nack.senderSsrc nack.mediaSsrc) with state := .rtpfbNackItem })
    ⟨ht.valid, rfl, ht.ptr, hte.trans hend⟩
  refine ⟨u, .report hround rfl hrun, ?_⟩
  rw [← Nat.add_assoc]
  exact hu

/-! ## The loop -/

/-- What a buffer gets of the fields: a block, or nothing. -/
def Nack.written (nack : Nack) (fields : List NackItem) : List UInt8 :=
  if fields = [] then [] else nack.createNack fields

theorem written_nil (nack : Nack) : nack.written [] = [] := if_pos rfl

theorem written_of_ne {nack : Nack} {fields : List NackItem} (h : fields ≠ []) :
    nack.written fields = nack.createNack fields := if_neg h

theorem eq_nil_of_written {nack : Nack} {fields : List NackItem}
    (h : (nack.written fields).length < 16) : fields = [] := by
  by_contra hne
  rw [written_of_ne hne, createNack_length] at h
  have := List.length_pos_of_ne_nil hne
  omega

/-- The fields are split over the buffers: the first goes on in what there is, the others are new. -/
structure Split (nack : Nack) (maxLength : Nat) (b : Buffers) (fields : List NackItem) (b' : Buffers)
    (first : List NackItem) (rest : List (List NackItem)) : Prop where
  buffers : b'.ready ++ [b'.packet] = b.ready ++ (b.packet ++ nack.written first) :: rest.map nack.written
  fields : first ++ rest.flatten = fields
  firstFits : b.packet.length + (nack.written first).length ≤ maxLength
  restFits : ∀ c ∈ rest, (nack.written c).length ≤ maxLength

theorem createLoop_split (nack : Nack) {maxLength : Nat} (h16 : 16 ≤ maxLength) (hmax : maxLength ≤ 1500) (fuel : Nat)
    (b : Buffers) {fields : List NackItem} (hne : fields ≠ []) (hlen : b.packet.length ≤ maxLength)
    (hfuel : 2 * fields.length + (if maxLength - b.packet.length < 16 then 1 else 0) ≤ fuel) :
    ∃ b' first rest, nack.createLoop maxLength fuel b fields = some b' ∧
        Split nack maxLength b fields b' first rest := by
  have hpos := List.length_pos_of_ne_nil hne
  induction fuel generalizing b fields with
  | zero => omega
  | succ fuel ih =>
    unfold Nack.createLoop
    rw [szSub_eq hlen (by omega)]
    dsimp only
    split
    · -- The buffer is handed over, and the same fields go into an empty one.
      rename_i hfull
      have hfull : maxLength - b.packet.length < 16 := hfull
      rw [if_pos hfull] at hfuel
      have hempty : ¬ b.packet.length = 0 := by omega
      have hroom : ¬ maxLength - ([] : List UInt8).length < 16 := by
        simp only [List.length_nil]
        omega
      rw [Buffers.onBufferFull, if_neg hempty]
      dsimp only
      rw [if_neg (by omega)]
      obtain ⟨b', first, rest, hloop, hs⟩ := ih ⟨[], b.ready ++ [b.packet]⟩ hne (Nat.zero_le _)
        (by rw [if_neg hroom]; omega) hpos
      refine ⟨b', [], first :: rest, hloop, ?_, ?_, ?_, ?_⟩
      · rw [hs.buffers, written_nil]
        simp
      · exact hs.fields
      · rw [written_nil]
        exact hlen
      · intro c hc
        rcases List.mem_cons.1 hc with rfl | hc
        · have := hs.firstFits
          dsimp only [List.length_nil] at this
          omega
        · exact hs.restFits c hc
    · -- A block of as many fields as fit.
      rename_i hroom
      rw [if_neg hroom] at hfuel
      generalize hnum : min ((maxLength - b.packet.length - 12) / 4) fields.length = num
      have htake : (fields.take num).length = num := by
        rw [List.length_take]
        omega
      have hwrote : nack.written (fields.take num) = nack.createNack (fields.take num) := by
        refine written_of_ne fun h0 => ?_
        rw [h0, List.length_nil] at htake
        omega
      have hsize : (nack.createNack (fields.take num)).length = 12 + 4 * num := by rw [createNack_length, htake]
      by_cases hall : (fields.drop num).length = 0
      · rw [if_pos hall]
        have hall : fields.take num = fields := by
          rw [List.length_drop] at hall
          exact List.take_of_length_le (by omega)
        refine ⟨_, fields.take num, [], rfl, ?_, ?_, ?_, ?_⟩
        · rw [hwrote]
          simp
        · rw [hall]
          simp
        · rw [hwrote, hsize]
          omega
        · intro c hc
          cases hc
      · rw [if_neg hall]
        have hdrop : (fields.drop num).length = fields.length - num := List.length_drop
        have hpacket : (b.packet ++ nack.createNack (fields.take num)).length = b.packet.length + (12 + 4 * num) := by
          rw [List.length_append, hsize]
        have hfull : maxLength - (b.packet ++ nack.createNack (fields.take num)).length < 16 := by
          rw [hpacket]
          omega
        obtain ⟨b', first, rest, hloop, hs⟩ := ih ⟨b.packet ++ nack.createNack (fields.take num), b.ready⟩
          (show fields.drop num ≠ [] from fun h0 => hall (by rw [h0]; rfl)) (by dsimp only; rw [hpacket]; omega)
          (by rw [if_pos hfull]; omega) (by omega)
        -- There is no room for another block.
        have hfirst : first = [] := by
          apply @eq_nil_of_written nack
          have := hs.firstFits
          dsimp only at this
          rw [hpacket] at this
          omega
        subst hfirst
        refine ⟨b', fields.take num, rest, hloop, ?_, ?_, ?_, hs.restFits⟩
        · rw [hs.buffers, written_nil, hwrote, List.append_nil]
        · have := hs.fields
          rw [List.nil_append] at this
          rw [this, List.take_append_drop]
        · rw [hwrote, hsize]
          omega
/-! ## There and back -/

/-- What is reported of the fields of a buffer. -/
def Nack.reported (nack : Nack) (fields : List NackItem) : List (Packet F) :=
  if fields = [] then [] else .rtpfbNack nack.senderSsrc nack.mediaSsrc :: fields.map itemPacket

/-- The field a NACK item carries. -/
def nackItem : Packet F → Option NackItem
  | .rtpfbNackItem packetId bitMask => some ⟨packetId, bitMask⟩
  | _ => none

theorem filterMap_reported (nack : Nack) (fields : List NackItem) :
    (nack.reported (F := F) fields).filterMap nackItem = fields := by
  unfold Nack.reported
  split
  · rename_i h
    rw [h, List.filterMap_nil]
  · have hid : nackItem ∘ itemPacket (F := F) = some := rfl
    rw [List.filterMap_cons_none rfl, List.filterMap_map, hid, List.filterMap_some]

theorem mem_reported (nack : Nack) {fields : List NackItem} (h : fields.length ≤ 1000) (n : UInt16) :
    n ∈ nackSequenceNumbers false nack.mediaSsrc (nack.reported (F := F) fields) ↔ ∃ f ∈ fields, f.Covers n := by
  unfold Nack.reported
  split
  · rename_i h0
    rw [h0]
    simp [nackSequenceNumbers]
  · exact mem_nackSequenceNumbers nack.senderSsrc nack.mediaSsrc fields h n

theorem length_of_written {nack : Nack} {fields : List NackItem} (h : (nack.written fields).length ≤ 1500) :
    fields.length ≤ 1000 := by
  by_cases h0 : fields = []
  · rw [h0]
    exact Nat.zero_le _
  · rw [written_of_ne h0, createNack_length] at h
    omega

/-- Behind what is in the buffer already. -/
theorem written_run (nack : Nack) {fields : List NackItem} (hf : fields.length ≤ 1000) {pre : List UInt8}
    (h : AtTop s pre.length) : ∃ t, Run (pre ++ nack.written fields) parseFrom s (nack.reported fields) t ∧
      AtTop t (pre ++ nack.written fields).length := by
  unfold Nack.written Nack.reported
  split
  · rw [List.append_nil]
    exact ⟨s, .refl s, h⟩
  · have hat := at_suffix pre (nack.createNack fields) []
    rw [List.append_nil] at hat
    obtain ⟨t, hrun, ht⟩ := createNack_run nack fields hf h (by simp) hat
    rw [← List.length_append] at ht
    exact ⟨t, hrun, ht⟩

theorem written_yields (nack : Nack) {fields : List NackItem} (hf : fields.length ≤ 1000) :
    Yields (nack.written fields) parseFrom true (nack.reported fields) := by
  by_cases h0 : fields = []
  · rw [h0, written_nil, Nack.reported, if_pos rfl]
    exact yields_nil parseFrom
  · have hlen : (nack.written fields).length = 12 + 4 * fields.length := by rw [written_of_ne h0, createNack_length]
    have hat : At (nack.written fields) 0 (createHeader 1 205 ((fields.length * 4 + 12 + 3) / 4 - 1)) := by
      rw [written_of_ne h0, Nack.createNack, List.append_assoc, List.append_assoc]
      exact at_zero _ _
    have hinit := init_atTop (F := F) (headerAt_create (by decide) (by omega) hat (by omega))
    obtain ⟨t, hrun, ht⟩ := written_run nack hf
      (show AtTop (init (nack.written fields) true) (List.length ([] : List UInt8)) from hinit)
    exact hrun.yields_of_atTop ht

/-- The packets `first :: rest` ask `media` for the numbers of `list`; `first` stands behind `packet` in its
buffer. -/
structure Delivers (parseFrom : List UInt8 → Option F) (media : UInt32) (maxLength : Nat) (packet : List UInt8)
    (list : List UInt16) (first : List UInt8) (rest : List (List UInt8))
    (reported : List (List (Packet F))) : Prop where
  fits : ∀ b ∈ (packet ++ first) :: rest, b.length ≤ maxLength
  parsed : List.Forall₂ (fun b ps => Yields b parseFrom true ps) (first :: rest) reported
  behind : ∀ s : Parser F, AtTop s packet.length →
    ∃ t, Run (packet ++ first) parseFrom s (reported.headD []) t ∧ AtTop t (packet ++ first).length
  once : reported.flatten.filterMap nackItem = withList list
  numbers : ∀ n, n ∈ list ↔ ∃ ps ∈ reported, n ∈ nackSequenceNumbers false media ps

/-- **A list of sequence numbers arrives**, in whatever pieces. -/
theorem nack_delivered (parseFrom : List UInt8 → Option F) (sender media : UInt32)
    {list : List UInt16} (hne : list ≠ [])
    {maxLength : Nat} (h16 : 16 ≤ maxLength) (h1500 : maxLength ≤ 1500) {packet : List UInt8}
    (hindex : packet.length ≤ maxLength) :
    ∃ first rest reported, (Nack.mk sender media (withList list)).create maxLength packet =
      some ((packet ++ first) :: rest) ∧
      Delivers parseFrom media maxLength packet list first rest reported := by
  generalize hnack : Nack.mk sender media (withList list) = nack
  have hfields : nack.nackFields = withList list := by rw [← hnack]
  have hmedia : nack.mediaSsrc = media := by rw [← hnack]
  obtain ⟨b', first, rest, hloop, hs⟩ := createLoop_split nack h16 h1500 (2 * (withList list).length + 1) ⟨packet, []⟩
    (withList_ne_nil hne) hindex (by split <;> omega)
  have hbufs := hs.buffers
  have hsplit := hs.fields
  have hfit := hs.firstFits
  rw [List.nil_append] at hbufs
  dsimp only at hbufs hfit
  -- No piece is too long for the receiver's list.
  have hshort : ∀ c ∈ first :: rest, c.length ≤ 1000 := by
    intro c hc
    apply @length_of_written nack
    rcases List.mem_cons.1 hc with rfl | hc
    · omega
    · exact Nat.le_trans (hs.restFits c hc) h1500
  refine ⟨nack.written first, rest.map nack.written, (first :: rest).map nack.reported, ?_, ?_, ?_, ?_, ?_, ?_⟩
  · rw [Nack.create, hfields, hloop, Option.map_some, hbufs]
  · intro b hb
    rcases List.mem_cons.1 hb with rfl | hb
    · rw [List.length_append]
      exact hfit
    · obtain ⟨c, hc, rfl⟩ := List.mem_map.1 hb
      exact hs.restFits c hc
  · rw [← List.map_cons, List.forall₂_map_left_iff, List.forall₂_map_right_iff, List.forall₂_same]
    exact fun c hc => written_yields nack (hshort c hc)
  · intro s h
    exact written_run nack (hshort first List.mem_cons_self) h
  · rw [← List.flatMap_def, List.filterMap_flatMap]
    simp only [filterMap_reported]
    rw [List.flatMap_id', List.flatten_cons, hsplit]
  · intro n
    rw [← covers_withList, ← hsplit, ← List.flatten_cons]
    constructor
    · rintro ⟨f, hf, hcov⟩
      obtain ⟨c, hc, hfc⟩ := List.mem_flatten.1 hf
      refine ⟨_, List.mem_map_of_mem hc, ?_⟩
      rw [← hmedia, mem_reported nack (hshort c hc)]
      exact ⟨f, hfc, hcov⟩
    · rintro ⟨ps, hps, hn⟩
      obtain ⟨c, hc, rfl⟩ := List.mem_map.1 hps
      rw [← hmedia, mem_reported nack (hshort c hc)] at hn
      obtain ⟨f, hfc, hcov⟩ := hn
      exact ⟨f, List.mem_flatten.2 ⟨c, hc, hfc⟩, hcov⟩

/-- Across the wrap, behind 20 bytes, in buffers of 32. -/
theorem nack_delivered_wrap :
    ∃ first rest reported, (Nack.mk 1 2 (withList [65535, 0, 0, 40, 7])).create 32 (List.replicate 20 0) =
        some ((List.replicate 20 0 ++ first) :: rest) ∧
      Delivers (F := Unit) (fun _ => none) 2 32 (List.replicate 20 0) [65535, 0, 0, 40, 7] first rest reported :=
  nack_delivered (fun _ => none) 1 2 (by decide) (by decide) (by decide) (by decide)

end WebRtc.Rtcp
