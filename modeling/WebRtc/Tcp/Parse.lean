import WebRtc.Lib.Audit
import WebRtc.Tcp.Process

/-!
# What is read of a packet

| here | there |
| --- | --- |
| `bytesToLong`, `bytesToShort` | `pseudotcp.cc:150-156` |
| `parseHeader`, `parse` | `pseudotcp.cc:573-602` |
| `processAt`, `controlAt`, `receiveAt`, `trimOldAt`, `trimNewAt`, `storeAt` | `pseudotcp.cc:646-962` |
| `parseOptionsAt`, `optionsLoop`, `applyOptionAt` | `pseudotcp.cc:1183-1247` |
| `writeOffsetAt` | `stream.cc:874-899` |

`parse` and `process` again, on a segment whose data is a place in memory and an unsigned length. The packet begins
at address 0; what is behind its end is there too, but must not be read. The functions that look only at the
length of the data get zeros in place of it.
-/

namespace WebRtc.Tcp

open Audited Bytes

/-- `Segment` as the code keeps it. `data` is an address. -/
structure RawSegment where
  conv : UInt32
  seq : UInt32
  ack : UInt32
  flags : UInt8
  wnd : UInt16
  tsval : UInt32
  tsecr : UInt32
  data : Nat
  len : UInt32

namespace RawSegment

def withData (seg : RawSegment) (data : List UInt8) : Segment where
  conv := seg.conv
  seq := seg.seq
  ack := seg.ack
  flags := seg.flags
  wnd := seg.wnd
  tsval := seg.tsval
  tsecr := seg.tsecr
  data

/-- For what depends on the length only. -/
def sized (seg : RawSegment) : Segment := seg.withData (List.replicate seg.len.toNat 0)

def segment (mem : Memory) (seg : RawSegment) : Segment := seg.withData (mem.read seg.data seg.len.toNat)

end RawSegment

/-! ## The header -/

def bytesToLong (mem : Memory) (p : Nat) : Audited UInt32 := reading p 4 (read32At (mem.read p 4) 0)

def bytesToShort (mem : Memory) (p : Nat) : Audited UInt16 := reading p 2 (read16At (mem.read p 2) 0)

def parseHeader (mem : Memory) (size : UInt32) : Audited (Option RawSegment) :=
  if size < 12 then return none
  else do
    let conv ← bytesToLong mem 0
    let seq ← bytesToLong mem 4
    let ack ← bytesToLong mem 8
    let flags ← reading 13 1 (mem 13)
    let wnd ← bytesToShort mem 14
    let tsval ← bytesToLong mem 16
    let tsecr ← bytesToLong mem 20
    return some { conv, seq, ack, flags, wnd, tsval, tsecr, data := headerSize, len := size - UInt32.ofNat headerSize }

/-! ## Options -/

def applyOptionAt (mem : Memory) (t : PseudoTcp) (kind : UInt8) (p len : Nat) : Audited PseudoTcp :=
  if kind = tcpOptWndScale ∧ len = 1 then do
    let scaleFactor ← reading p 1 (mem p)
    return { t with swndScale := scaleFactor }
  else return t

/-- `ReadUInt8` into a variable that is 0: it stays 0 when no byte is left. -/
def readUInt8 (mem : Memory) (p len : Nat) : Audited UInt8 := if len = 0 then return 0 else reading p 1 (mem p)

/-- The options that are left in the buffer: `len` bytes from `p` on. Whether the window scale was among those
before, and whether the list ends as it should. -/
def optionsLoop (mem : Memory) : Nat → Nat → PseudoTcp → Bool → Audited (PseudoTcp × Bool × Bool)
  | _, 0, t, scaled => return (t, scaled, true)
  | p, len + 1, t, scaled => do
    let kind ← reading p 1 (mem p)
    if kind = tcpOptEol then return (t, scaled, true)
    else if kind = tcpOptNoop then optionsLoop mem (p + 1) len t scaled
    else
      let optLen ← readUInt8 mem (p + 1) len
      if optLen.toNat ≤ len - 1 then do
        let content := p + 1 + min 1 len
        let t ← applyOptionAt mem t kind content optLen.toNat
        optionsLoop mem (content + optLen.toNat) (len - 1 - optLen.toNat) t (scaled || kind == tcpOptWndScale)
      else return (t, scaled, false)
termination_by _ len => len
decreasing_by all_goals omega

/-- The bytes are copied, and the copy is read. -/
def parseOptionsAt (mem : Memory) (t : PseudoTcp) (data len : Nat) : Audited PseudoTcp := do
  let _ ← reading data len ()
  let (t, scaled, ended) ← optionsLoop mem data len t false
  return if ended = false then t
    else if scaled = false ∧ 0 < t.rwndScale then
      { t.resizeReceiveBuffer (UInt32.ofNat defaultRcvBufSize) with swndScale := 0 }
    else t

def controlAt (mem : Memory) (t : PseudoTcp) (seg : RawSegment) : Audited (Option PseudoTcp) :=
  if seg.sized.isCtl = false then return some t
  else if seg.len = 0 then return none
  else do
    let code ← reading seg.data 1 (mem seg.data)
    if code = ctlConnect then
      let t ← parseOptionsAt mem t (seg.data + 1) (seg.len - 1).toNat
      return some (match t.state with
        | .listen => { t with state := .synReceived }.queueConnectMessage
        | .synSent => { t with state := .established }.adjustMTU.notify .opened
        | _ => t)
    else return none

/-! ## Data -/

def trimOldAt (rcvNxt seq : UInt32) (data : Nat) (len : UInt32) : UInt32 × Nat × UInt32 :=
  if seq < rcvNxt then
    let nAdjust := rcvNxt - seq
    if nAdjust < len then (seq + nAdjust, data + nAdjust.toNat, len - nAdjust) else (seq, data, 0)
  else (seq, data, len)

def trimNewAt (rcvNxt availableSpace seq len : UInt32) : UInt32 :=
  if seq + len - rcvNxt > availableSpace then
    let nAdjust := seq + len - rcvNxt - availableSpace
    if nAdjust < len then len - nAdjust else 0
  else len

/-- Two copies, of which the second goes to the front of the buffer. -/
def writeOffsetAt (mem : Memory) (b : FifoBuffer) (p len offset : Nat) : Audited (Option (FifoBuffer × Nat)) :=
  if b.bufferLength ≤ b.dataLength + offset then return none
  else do
    let writePosition := (b.readPosition + b.dataLength + offset) % b.bufferLength
    let copy := min len (b.bufferLength - b.dataLength - offset)
    let tailCopy := min copy (b.bufferLength - writePosition)
    let tail ← reading p tailCopy (mem.read p tailCopy)
    let front ← reading (p + tailCopy) (copy - tailCopy) (mem.read (p + tailCopy) (copy - tailCopy))
    return some ({ b with buffer := (b.buffer.memcpy writePosition tail).memcpy 0 front }, copy)

/-- `ignore` is `bIgnoreData`. -/
def storeAt (mem : Memory) (t : PseudoTcp) (ignore : Bool) (seq : UInt32) (data : Nat) (len : UInt32) :
    Audited (PseudoTcp × Bool × Bool) :=
  if len = 0 then return (t, false, false)
  else if ignore then
    if seq = t.incoming.rcvNxt then
      return ({ t with incoming := { t.incoming with rcvNxt := t.incoming.rcvNxt + len } }, false, false)
    else return (t, false, false)
  else do
    let written ← writeOffsetAt mem t.incoming.rbuf data len.toNat (seq - t.incoming.rcvNxt).toNat
    let t := t.check .writeOffset (written.any fun w => w.2 == len.toNat)
    let t := { t with incoming := { t.incoming with rbuf := (written.map Prod.fst).getD t.incoming.rbuf } }
    if seq = t.incoming.rcvNxt then
      let (t, reached) := (t.advance len).recovered t.incoming.rlist
      return (t, true, reached)
    else
      let rseg : RSegment := { seq, len }
      let rlist := PseudoTcp.insertSegment rseg t.incoming.rlist
      return ({ t with incoming := { t.incoming with rlist } }, false, false)

/-- `shutdown` says that `m_shutdown` is not `SD_NONE`. -/
def receiveAt (mem : Memory) (t : PseudoTcp) (shutdown : Bool) (seg : RawSegment) : Audited PseudoTcp := do
  let sflags := t.ackFlags seg.sized
  let (seq, data, len) := trimOldAt t.incoming.rcvNxt seg.seq seg.data seg.len
  let availableSpace := UInt32.ofNat t.incoming.rbuf.getWriteRemaining
  let len := trimNewAt t.incoming.rcvNxt availableSpace seq len
  let (t, bNewData, reached) ← storeAt mem t (seg.sized.isCtl || shutdown) seq data len
  let t := t.attemptSend (if reached then .immediateAck else sflags)
  return if bNewData ∧ t.bReadEnable then { t with bReadEnable := false }.notify .readable else t

def processAt (mem : Memory) (t : PseudoTcp) (shutdown : Bool) (seg : RawSegment) : Audited (PseudoTcp × Bool) :=
  if seg.conv ≠ t.conv then return (t, false)
  else
    let t := { t with lasttraffic := t.env.now, lastrecv := t.env.now, bOutgoing := false }
    if t.state = .closed then return (t, false)
    else if seg.flags &&& flagRst ≠ 0 then return (t.closedown .connReset, false)
    else do
      match ← controlAt mem t seg with
      | none => return (t, false)
      | some t =>
        match (t.updateTimestamp seg.sized).acknowledge seg.sized with
        | (t, false) => return (t.closedown .connAborted, false)
        | (t, true) =>
          let t ← receiveAt mem ((t.establish seg.sized.isCtl).notifyWriteable) shutdown seg
          return (t, true)

def parse (mem : Memory) (size : UInt32) (t : PseudoTcp) (shutdown : Bool) : Audited (PseudoTcp × Bool) := do
  match ← parseHeader mem size with
  | none => return (t, false)
  | some seg => processAt mem t shutdown seg

/-! ## Reads -/

section Reads

variable {mem : Memory} {hi p len offset : Nat} {t : PseudoTcp} {seg : RawSegment}

theorem applyOptionAt_reads (kind : UInt8) (h : p + len ≤ hi) :
    ReadsWithin 0 hi (applyOptionAt mem t kind p len).log := by
  unfold applyOptionAt
  by_cases hscale : kind = tcpOptWndScale ∧ len = 1
  · rw [if_pos hscale]
    exact (readsWithin_reading _ (Nat.zero_le _) (by omega)).append (readsWithin_nil 0 hi)
  · rw [if_neg hscale]
    exact readsWithin_nil 0 hi

theorem readUInt8_reads (h : p + len ≤ hi) : ReadsWithin 0 hi (readUInt8 mem p len).log := by
  unfold readUInt8
  by_cases hlen : len = 0
  · rw [if_pos hlen]
    exact readsWithin_nil 0 hi
  · rw [if_neg hlen]
    exact readsWithin_reading _ (Nat.zero_le _) (by omega)

/-- An option is not behind the end: its length is tested before its content is looked at. -/
theorem optionsLoop_reads {scaled : Bool} (h : p + len ≤ hi) :
    ReadsWithin 0 hi (optionsLoop mem p len t scaled).log := by
  induction p, len, t, scaled using optionsLoop.induct with
  | case1 p t scaled =>
    rw [optionsLoop]
    exact readsWithin_nil 0 hi
  | case2 p len t scaled ihNoop ihNext =>
    rw [optionsLoop, log_reading_bind]
    refine (readsWithin_reading _ (Nat.zero_le _) (by omega)).append ?_
    by_cases heol : mem p = tcpOptEol
    · rw [if_pos heol]
      exact readsWithin_nil 0 hi
    rw [if_neg heol]
    by_cases hnoop : mem p = tcpOptNoop
    · rw [if_pos hnoop]
      exact ihNoop (by omega)
    rw [if_neg hnoop, log_bind]
    refine (readUInt8_reads (by omega)).append ?_
    by_cases hfits : (readUInt8 mem (p + 1) len).val.toNat ≤ len - 1
    · rw [if_pos hfits, log_bind]
      exact (applyOptionAt_reads _ (by omega)).append (ihNext _ _ _ (by omega))
    · rw [if_neg hfits]
      exact readsWithin_nil 0 hi

theorem parseOptionsAt_reads (h : p + len ≤ hi) : ReadsWithin 0 hi (parseOptionsAt mem t p len).log := by
  unfold parseOptionsAt
  rw [log_reading_bind, log_bind]
  exact (readsWithin_reading _ (Nat.zero_le _) h).append ((optionsLoop_reads h).append (readsWithin_nil 0 hi))

theorem controlAt_reads (h : seg.data + seg.len.toNat ≤ hi) : ReadsWithin 0 hi (controlAt mem t seg).log := by
  unfold controlAt
  by_cases hctl : seg.sized.isCtl = false
  · rw [if_pos hctl]
    exact readsWithin_nil 0 hi
  rw [if_neg hctl]
  by_cases hlen : seg.len = 0
  · rw [if_pos hlen]
    exact readsWithin_nil 0 hi
  have hpos : seg.len.toNat ≠ 0 := fun h0 => hlen (UInt32.toNat_inj.1 h0)
  have hrest : (seg.len - 1).toNat = seg.len.toNat - 1 :=
    UInt32.toNat_sub_of_le _ _ (UInt32.le_iff_toNat_le.2 (Nat.one_le_iff_ne_zero.2 hpos))
  rw [if_neg hlen, log_reading_bind]
  refine (readsWithin_reading _ (Nat.zero_le _) (by omega)).append ?_
  by_cases hcode : mem seg.data = ctlConnect
  · rw [if_pos hcode, log_bind]
    exact (parseOptionsAt_reads (by omega)).append (readsWithin_nil 0 hi)
  · rw [if_neg hcode]
    exact readsWithin_nil 0 hi

/-- What is left of the segment is a part of it. -/
theorem trimOldAt_within (rcvNxt seq : UInt32) (data : Nat) (len : UInt32) :
    (trimOldAt rcvNxt seq data len).2.1 + (trimOldAt rcvNxt seq data len).2.2.toNat ≤ data + len.toNat := by
  unfold trimOldAt
  by_cases hold : seq < rcvNxt
  · rw [if_pos hold]
    dsimp only
    by_cases hpart : rcvNxt - seq < len
    · rw [if_pos hpart]
      have hsub := UInt32.toNat_sub_of_le _ _ (UInt32.le_of_lt hpart)
      have hlt := UInt32.lt_iff_toNat_lt.1 hpart
      dsimp only
      omega
    · rw [if_neg hpart]
      exact Nat.add_le_add_left (Nat.zero_le _) data
  · rw [if_neg hold]

theorem trimNewAt_le (rcvNxt availableSpace seq len : UInt32) :
    (trimNewAt rcvNxt availableSpace seq len).toNat ≤ len.toNat := by
  unfold trimNewAt
  by_cases hnew : seq + len - rcvNxt > availableSpace
  · rw [if_pos hnew]
    dsimp only
    by_cases hpart : seq + len - rcvNxt - availableSpace < len
    · rw [if_pos hpart, UInt32.toNat_sub_of_le _ _ (UInt32.le_of_lt hpart)]
      exact Nat.sub_le _ _
    · rw [if_neg hpart]
      exact Nat.zero_le _
  · rw [if_neg hnew]

theorem writeOffsetAt_reads (b : FifoBuffer) (h : p + len ≤ hi) :
    ReadsWithin 0 hi (writeOffsetAt mem b p len offset).log := by
  unfold writeOffsetAt
  by_cases hfull : b.bufferLength ≤ b.dataLength + offset
  · rw [if_pos hfull]
    exact readsWithin_nil 0 hi
  · rw [if_neg hfull]
    dsimp only
    rw [log_reading_bind, log_reading_bind]
    exact (readsWithin_reading _ (Nat.zero_le _) (by omega)).append
      ((readsWithin_reading _ (Nat.zero_le _) (by omega)).append (readsWithin_nil 0 hi))

theorem storeAt_reads {ignore : Bool} {seq len : UInt32} (h : p + len.toNat ≤ hi) :
    ReadsWithin 0 hi (storeAt mem t ignore seq p len).log := by
  unfold storeAt
  by_cases hlen : len = 0
  · rw [if_pos hlen]
    exact readsWithin_nil 0 hi
  rw [if_neg hlen]
  cases ignore with
  | true =>
    rw [if_pos rfl]
    split <;> exact readsWithin_nil 0 hi
  | false =>
    rw [if_neg Bool.false_ne_true, log_bind]
    refine (writeOffsetAt_reads _ h).append ?_
    dsimp only
    split <;> exact readsWithin_nil 0 hi

theorem receiveAt_reads {shutdown : Bool} (h : seg.data + seg.len.toNat ≤ hi) :
    ReadsWithin 0 hi (receiveAt mem t shutdown seg).log := by
  have hold := trimOldAt_within t.incoming.rcvNxt seg.seq seg.data seg.len
  unfold receiveAt
  generalize trimOldAt t.incoming.rcvNxt seg.seq seg.data seg.len = trimmed at hold ⊢
  obtain ⟨seq, data, len⟩ := trimmed
  have hnew := trimNewAt_le t.incoming.rcvNxt (UInt32.ofNat t.incoming.rbuf.getWriteRemaining) seq len
  dsimp only at hold ⊢
  rw [log_bind]
  exact (storeAt_reads (by omega)).append (readsWithin_nil 0 hi)

/-- A segment whose data is inside the packet. -/
theorem processAt_reads {shutdown : Bool} (h : seg.data + seg.len.toNat ≤ hi) :
    ReadsWithin 0 hi (processAt mem t shutdown seg).log := by
  unfold processAt
  by_cases hconv : seg.conv ≠ t.conv
  · rw [if_pos hconv]
    exact readsWithin_nil 0 hi
  rw [if_neg hconv]
  dsimp only
  split
  · exact readsWithin_nil 0 hi
  split
  · exact readsWithin_nil 0 hi
  rw [log_bind]
  refine (controlAt_reads h).append ?_
  split
  · exact readsWithin_nil 0 hi
  split
  · exact readsWithin_nil 0 hi
  · rw [log_bind]
    exact (receiveAt_reads h).append (readsWithin_nil 0 hi)

end Reads

/-! ## Results -/

section Results

variable {mem : Memory} {p len offset : Nat} {t : PseudoTcp} {seg : RawSegment}

theorem applyOptionAt_val (kind : UInt8) :
    (applyOptionAt mem t kind p len).val = t.applyOption (kind, mem.read p len) := by
  unfold applyOptionAt
  match len with
  | 0 => rw [if_neg (by simp)]; rfl
  | 1 =>
    rw [Memory.read_succ, Memory.read_zero, PseudoTcp.applyOption]
    by_cases hkind : kind = tcpOptWndScale
    · rw [if_pos ⟨hkind, rfl⟩, if_pos hkind]
      rfl
    · rw [if_neg (fun h => hkind h.1), if_neg hkind]
      rfl
  | len + 2 =>
    rw [if_neg (by simp), Memory.read_succ, Memory.read_succ]
    rfl

theorem readUInt8_val : (readUInt8 mem p len).val = (mem.read p len).headD 0 := by
  unfold readUInt8
  cases len with
  | zero => rfl
  | succ len => rw [if_neg (Nat.succ_ne_zero len), Memory.read_succ]; rfl

theorem optionsLoop_val {scaled : Bool} : (optionsLoop mem p len t scaled).val =
    ((PseudoTcp.readOptions (mem.read p len)).1.foldl PseudoTcp.applyOption t,
      scaled || (PseudoTcp.readOptions (mem.read p len)).1.any fun option => option.1 == tcpOptWndScale,
      (PseudoTcp.readOptions (mem.read p len)).2) := by
  induction p, len, t, scaled using optionsLoop.induct with
  | case1 p t scaled =>
    rw [optionsLoop, Memory.read_zero, PseudoTcp.readOptions]
    simp
  | case2 p len t scaled ihNoop ihNext =>
    rw [optionsLoop, val_reading_bind, Memory.read_succ, PseudoTcp.readOptions]
    by_cases heol : mem p = tcpOptEol
    · rw [if_pos heol, if_pos heol]
      simp
    rw [if_neg heol, if_neg heol]
    by_cases hnoop : mem p = tcpOptNoop
    · rw [if_pos hnoop, if_pos hnoop]
      exact ihNoop
    rw [if_neg hnoop, if_neg hnoop, val_bind, readUInt8_val]
    have htail : (mem.read (p + 1) len).tail = mem.read (p + 1 + min 1 len) (len - 1) := by
      cases len with
      | zero => rfl
      | succ len =>
        rw [Memory.read_succ, List.tail_cons, Nat.min_eq_left (by omega), Nat.add_sub_cancel]
    dsimp only
    rw [htail, Memory.read_length]
    generalize (mem.read (p + 1) len).headD 0 = optLen
    by_cases hfits : optLen.toNat ≤ len - 1
    · rw [if_pos hfits, if_pos hfits, val_bind, applyOptionAt_val, ihNext (mem p) optLen _, Memory.read_drop _ _ hfits,
        Memory.read_take _ _ hfits]
      simp [Bool.or_assoc]
    · rw [if_neg hfits, if_neg hfits]
      simp

theorem parseOptionsAt_val : (parseOptionsAt mem t p len).val = t.parseOptions (mem.read p len) := by
  unfold parseOptionsAt PseudoTcp.parseOptions
  rw [val_reading_bind, val_bind, optionsLoop_val]
  rfl

theorem numBytes_read (mem : Memory) (p : Nat) (len : UInt32) : numBytes (mem.read p len.toNat) = len := by
  rw [numBytes, Memory.read_length, UInt32.ofNat_toNat]

theorem read_eq_nil {len : UInt32} : mem.read p len.toNat = [] ↔ len = 0 := by
  rw [← List.length_eq_zero_iff, Memory.read_length]
  exact UInt32.toNat_inj (b := 0)

theorem controlAt_val : (controlAt mem t seg).val = t.control (seg.segment mem) := by
  have hctl : (seg.segment mem).isCtl = seg.sized.isCtl := rfl
  have hdata : (seg.segment mem).data = mem.read seg.data seg.len.toNat := rfl
  unfold controlAt PseudoTcp.control
  rw [hctl, hdata]
  by_cases hflag : seg.sized.isCtl = false
  · rw [if_pos hflag, if_pos hflag]
    rfl
  rw [if_neg hflag, if_neg hflag]
  by_cases hlen : seg.len = 0
  · rw [if_pos hlen, read_eq_nil.2 hlen]
    rfl
  have hpos : seg.len.toNat ≠ 0 := fun h0 => hlen (UInt32.toNat_inj.1 h0)
  have hrest : (seg.len - 1).toNat = seg.len.toNat - 1 :=
    UInt32.toNat_sub_of_le _ _ (UInt32.le_iff_toNat_le.2 (Nat.one_le_iff_ne_zero.2 hpos))
  obtain ⟨n, hn⟩ := Nat.exists_eq_succ_of_ne_zero hpos
  have hn' : (seg.len - 1).toNat = n := by rw [hrest, hn, Nat.succ_sub_one]
  rw [if_neg hlen, val_reading_bind, hn, hn', Memory.read_succ]
  dsimp only
  by_cases hcode : mem seg.data = ctlConnect
  · rw [if_pos hcode, if_pos hcode, val_bind, parseOptionsAt_val]
    rfl
  · rw [if_neg hcode, if_neg hcode]
    rfl

theorem trimOldAt_eq (rcvNxt seq : UInt32) (data : Nat) (len : UInt32) :
    PseudoTcp.trimOld rcvNxt seq (mem.read data len.toNat) =
      ((trimOldAt rcvNxt seq data len).1,
        mem.read (trimOldAt rcvNxt seq data len).2.1 (trimOldAt rcvNxt seq data len).2.2.toNat) := by
  unfold PseudoTcp.trimOld trimOldAt
  rw [numBytes_read]
  by_cases hold : seq < rcvNxt
  · rw [if_pos hold, if_pos hold]
    dsimp only
    by_cases hpart : rcvNxt - seq < len
    · rw [if_pos hpart, if_pos hpart]
      dsimp only
      rw [Memory.read_drop _ _ (Nat.le_of_lt (UInt32.lt_iff_toNat_lt.1 hpart)),
        UInt32.toNat_sub_of_le _ _ (UInt32.le_of_lt hpart)]
    · rw [if_neg hpart, if_neg hpart]
      rfl
  · rw [if_neg hold, if_neg hold]

theorem trimNewAt_eq (rcvNxt availableSpace seq : UInt32) (data : Nat) (len : UInt32) :
    PseudoTcp.trimNew rcvNxt availableSpace seq (mem.read data len.toNat) =
      mem.read data (trimNewAt rcvNxt availableSpace seq len).toNat := by
  unfold PseudoTcp.trimNew trimNewAt
  rw [numBytes_read]
  by_cases hnew : seq + len - rcvNxt > availableSpace
  · rw [if_pos hnew, if_pos hnew]
    dsimp only
    by_cases hpart : seq + len - rcvNxt - availableSpace < len
    · rw [if_pos hpart, if_pos hpart, Memory.read_take]
      rw [UInt32.toNat_sub_of_le _ _ (UInt32.le_of_lt hpart)]
      exact Nat.sub_le _ _
    · rw [if_neg hpart, if_neg hpart]
      rfl
  · rw [if_neg hnew, if_neg hnew]

theorem writeOffsetAt_val (b : FifoBuffer) :
    (writeOffsetAt mem b p len offset).val = b.writeOffset (mem.read p len) offset := by
  unfold writeOffsetAt FifoBuffer.writeOffset
  by_cases hfull : b.bufferLength ≤ b.dataLength + offset
  · rw [if_pos hfull, if_pos hfull]
    rfl
  · rw [if_neg hfull, if_neg hfull]
    dsimp only
    rw [val_reading_bind, val_reading_bind, Memory.read_length, Memory.read_take _ _ (Nat.min_le_left _ _),
      Memory.read_take _ _ (Nat.le_trans (Nat.min_le_left _ _) (Nat.min_le_left _ _)),
      Memory.read_drop _ _ (Nat.min_le_left _ _)]
    rfl

theorem storeAt_val {ignore : Bool} {seq len : UInt32} :
    (storeAt mem t ignore seq p len).val = t.store ignore seq (mem.read p len.toNat) := by
  unfold storeAt PseudoTcp.store
  rw [numBytes_read, Memory.read_length]
  by_cases hlen : len = 0
  · rw [if_pos hlen, if_pos (read_eq_nil.2 hlen)]
    rfl
  rw [if_neg hlen, if_neg (fun h => hlen (read_eq_nil.1 h))]
  cases ignore with
  | true =>
    rw [if_pos rfl, if_pos rfl]
    split <;> rfl
  | false =>
    rw [if_neg Bool.false_ne_true, if_neg Bool.false_ne_true, val_bind, writeOffsetAt_val]
    dsimp only
    split <;> rfl

theorem ackFlags_sized (mem : Memory) : t.ackFlags seg.sized = t.ackFlags (seg.segment mem) := by
  unfold PseudoTcp.ackFlags RawSegment.sized RawSegment.segment RawSegment.withData
  simp only [ne_eq, List.replicate_eq_nil_iff, read_eq_nil, ← UInt32.toNat_inj]
  rfl

theorem receiveAt_val : (receiveAt mem t false seg).val = t.receive (seg.segment mem) := by
  have hctl : (seg.segment mem).isCtl = seg.sized.isCtl := rfl
  have hdata : (seg.segment mem).data = mem.read seg.data seg.len.toNat := rfl
  have hseq : (seg.segment mem).seq = seg.seq := rfl
  unfold receiveAt PseudoTcp.receive
  rw [ackFlags_sized mem, hctl, hdata, hseq, trimOldAt_eq]
  dsimp only
  rw [val_bind, storeAt_val, trimNewAt_eq, Bool.or_false]
  rfl

theorem updateTimestamp_sized (mem : Memory) : t.updateTimestamp seg.sized = t.updateTimestamp (seg.segment mem) := by
  unfold PseudoTcp.updateTimestamp RawSegment.sized RawSegment.segment RawSegment.withData
  dsimp only
  rw [numBytes_read, numBytes, List.length_replicate, UInt32.ofNat_toNat]

theorem acknowledge_sized (mem : Memory) : t.acknowledge seg.sized = t.acknowledge (seg.segment mem) := by
  have hdata : seg.sized.data = [] ↔ (seg.segment mem).data = [] := by
    change List.replicate _ _ = [] ↔ mem.read _ _ = []
    rw [read_eq_nil, List.replicate_eq_nil_iff, ← UInt32.toNat_inj]
    rfl
  have hsame : t.acknowledgeSame seg.sized = t.acknowledgeSame (seg.segment mem) := by
    unfold PseudoTcp.acknowledgeSame
    simp only [ne_eq, hdata]
    rfl
  unfold PseudoTcp.acknowledge
  rw [hsame]
  rfl

theorem processAt_val : (processAt mem t false seg).val = t.process (seg.segment mem) := by
  have hconv : (seg.segment mem).conv = seg.conv := rfl
  have hflags : (seg.segment mem).flags = seg.flags := rfl
  have hctl : (seg.segment mem).isCtl = seg.sized.isCtl := rfl
  unfold processAt PseudoTcp.process
  rw [hconv, hflags, hctl]
  split
  · rfl
  dsimp only
  split
  · rfl
  split
  · rfl
  rw [val_bind, controlAt_val]
  cases PseudoTcp.control _ (seg.segment mem) with
  | none => rfl
  | some t =>
    dsimp only
    rw [updateTimestamp_sized mem, acknowledge_sized mem]
    rcases (t.updateTimestamp (seg.segment mem)).acknowledge (seg.segment mem) with ⟨t, _ | _⟩
    · rfl
    · dsimp only
      rw [val_bind, receiveAt_val]
      rfl

end Results

/-! ## Packets -/

section Packets

variable (mem : Memory) (size : UInt32) (t : PseudoTcp) (shutdown : Bool)

theorem byteAt_read {p n i : Nat} (h : i < n) : byteAt (mem.read p n) i = mem (p + i) := by
  rw [byteAt, List.getD_eq_getElem?_getD, List.getElem?_eq_getElem (by rwa [Memory.read_length])]
  simp [Memory.read]

theorem bytesToLong_val {p n : Nat} (h : p + 4 ≤ n) : (bytesToLong mem p).val = read32At (mem.read 0 n) p := by
  unfold bytesToLong read32At
  rw [val_reading, byteAt_read mem (by omega), byteAt_read mem (by omega), byteAt_read mem (by omega),
    byteAt_read mem (by omega), byteAt_read mem (by omega), byteAt_read mem (by omega), byteAt_read mem (by omega),
    byteAt_read mem (by omega)]
  simp only [Nat.zero_add, Nat.add_zero]

theorem bytesToShort_val {p n : Nat} (h : p + 2 ≤ n) : (bytesToShort mem p).val = read16At (mem.read 0 n) p := by
  unfold bytesToShort read16At
  rw [val_reading, byteAt_read mem (by omega), byteAt_read mem (by omega), byteAt_read mem (by omega),
    byteAt_read mem (by omega)]
  simp only [Nat.zero_add, Nat.add_zero]

theorem parseHeader_short (h : size.toNat < 12) : parseHeader mem size = pure none :=
  if_pos (UInt32.lt_iff_toNat_lt.2 h)

/-- What is made of 12 bytes or more, and what is read for it. -/
theorem parseHeader_long (h : 12 ≤ size.toNat) : ∃ seg, (parseHeader mem size).val = some seg ∧
    seg.data = headerSize ∧ seg.len = size - UInt32.ofNat headerSize ∧
    ∀ hi, ReadsWithin 0 hi (parseHeader mem size).log ↔ headerSize ≤ hi := by
  have hlong : ¬ size < 12 := fun hlt => Nat.not_lt.2 h (UInt32.lt_iff_toNat_lt.1 hlt)
  have hheader : headerSize = 24 := rfl
  unfold parseHeader
  rw [if_neg hlong]
  refine ⟨_, rfl, rfl, rfl, fun hi => ?_⟩
  simp only [bytesToLong, bytesToShort, log_reading_bind, readsWithin_append_iff]
  repeat rw [readsWithin_reading_iff _ (by decide)]
  simp only [log_pure, readsWithin_nil, and_true]
  omega

theorem len_of_header (h : headerSize ≤ size.toNat) :
    (size - UInt32.ofNat headerSize).toNat = size.toNat - headerSize :=
  UInt32.toNat_sub_of_le _ _ (UInt32.le_iff_toNat_le.2 h)

theorem parseHeader_segment (h : headerSize ≤ (mem.read 0 size.toNat).length) : ∃ seg,
    (parseHeader mem size).val = some seg ∧ seg.segment mem = Datagram.segment ⟨mem.read 0 size.toNat, h⟩ := by
  have hheader : headerSize = 24 := rfl
  have hsize : headerSize ≤ size.toNat := by rwa [Memory.read_length] at h
  have hlong : ¬ size < 12 := by
    rw [UInt32.lt_iff_toNat_lt]
    change ¬ size.toNat < 12
    omega
  have hdata : mem.read headerSize (size - UInt32.ofNat headerSize).toNat =
      (mem.read 0 size.toNat).drop headerSize := by
    rw [len_of_header size hsize, Memory.read_drop _ _ hsize, Nat.zero_add]
  have hflags : mem 13 = byteAt (mem.read 0 size.toNat) 13 := by rw [byteAt_read mem (by omega), Nat.zero_add]
  have hwnd := bytesToShort_val mem (p := 14) (n := size.toNat) (by omega)
  have hlongs {p : Nat} (hp : p + 4 ≤ headerSize) : (bytesToLong mem p).val = read32At (mem.read 0 size.toNat) p :=
    bytesToLong_val mem (by omega)
  unfold parseHeader
  rw [if_neg hlong]
  refine ⟨_, rfl, ?_⟩
  unfold RawSegment.segment RawSegment.withData Datagram.segment
  simp only [val_reading, hwnd, hdata, hlongs (p := 0) (by decide), hlongs (p := 4) (by decide),
    hlongs (p := 8) (by decide), hlongs (p := 16) (by decide), hlongs (p := 20) (by decide), hflags]

/-- A packet with a header is processed as the list of its bytes. -/
theorem parse_val (h : headerSize ≤ (mem.read 0 size.toNat).length) :
    (parse mem size t false).val = t.process (Datagram.segment ⟨mem.read 0 size.toNat, h⟩) := by
  obtain ⟨seg, hseg, hsegment⟩ := parseHeader_segment mem size h
  unfold parse
  rw [val_bind, hseg]
  dsimp only
  rw [processAt_val, hsegment]

/-- `parse` lets packets pass that are shorter than the header. What is read of a packet is inside it, and the
length is that of what is behind the header, unless the packet is one of these. -/
theorem parse_reads_iff : (ReadsWithin 0 size.toNat (parse mem size t shutdown).log ∧
    ∀ seg, (parseHeader mem size).val = some seg → seg.len.toNat = size.toNat - headerSize) ↔
      size.toNat < 12 ∨ headerSize ≤ size.toNat := by
  unfold parse
  rw [log_bind, readsWithin_append_iff]
  constructor
  · rintro ⟨⟨hread, -⟩, -⟩
    by_cases hlong : 12 ≤ size.toNat
    · obtain ⟨seg, -, -, -, hreads⟩ := parseHeader_long mem size hlong
      exact .inr ((hreads _).1 hread)
    · exact .inl (Nat.not_le.1 hlong)
  · rintro (hshort | hheader)
    · rw [parseHeader_short mem size hshort]
      refine ⟨⟨readsWithin_nil _ _, readsWithin_nil _ _⟩, fun seg hseg => ?_⟩
      cases hseg
    · obtain ⟨seg, hseg, hdata, hlen, hreads⟩ := parseHeader_long mem size (Nat.le_trans (by decide) hheader)
      have hend := len_of_header size hheader
      rw [← hlen] at hend
      rw [hseg]
      refine ⟨⟨(hreads _).2 hheader, processAt_reads (by omega)⟩, ?_⟩
      rintro _ ⟨⟩
      exact hend

end Packets

/-- 12 bytes: the rest of the header is read behind them, and the length is almost 2^32. -/
theorem not_parse_reads :
    ¬ ReadsWithin 0 12 (parse (fun _ => 0) 12 (PseudoTcp.create 1 0) false).log ∧
      (parseHeader (fun _ => 0) 12).val.map RawSegment.len = some 4294967284 := by
  refine ⟨fun h => ?_, rfl⟩
  have hread : .read 23 ∈ (parse (fun _ => 0) 12 (PseudoTcp.create 1 0) false).log := by decide
  have hlt := (h 23 hread).2
  omega

end WebRtc.Tcp
