import WebRtc.Common.Shifts
import WebRtc.Lib.Machine

/-!
# DTMF events

| here | there |
| --- | --- |
| `DtmfEvent` | `dtmf_buffer.h:22-45` |
| `insertEvent`, `getEvent` | `dtmf_buffer.cc:112-188` |
| `setSampleRate` | `dtmf_buffer.cc:198-208` |
| `sameEvent`, `mergeEvents`, `compareEvents` | `dtmf_buffer.cc:215-246` |

The list is sorted with wrap-around, but `GetEvent` looks for the event to play with plain comparisons. So where
the timestamps start makes no difference as long as no call is made while they wrap (`dtmfTrace_shift`).
-/

namespace WebRtc.NetEq

structure DtmfEvent where
  timestamp : UInt32
  eventNo : Int
  volume : Int
  duration : Int
  endBit : Bool
deriving DecidableEq, Repr

inductive DtmfReturnCode where
  | ok
  | invalidEventParameters
  | invalidSampleRate
deriving DecidableEq, Repr

structure DtmfBuffer where
  maxExtrapolationSamples : Int
  frameLenSamples : Int
  buffer : List DtmfEvent
deriving DecidableEq, Repr

def sameEvent (a b : DtmfEvent) : Bool := decide (a.eventNo = b.eventNo) && decide (a.timestamp = b.timestamp)

/-- `a` goes before `b`. -/
def compareEvents (a b : DtmfEvent) : Bool :=
  if a.timestamp = b.timestamp then decide (a.eventNo < b.eventNo)
  else decide (b.timestamp - a.timestamp < 0xFFFFFFFF / 2)

/-- `MergeEvents` for the first event that is the same. -/
def mergeEvents (event : DtmfEvent) : List DtmfEvent → Option (List DtmfEvent)
  | [] => none
  | it :: rest =>
    if sameEvent it event then
      some ({ it with
        duration := if it.endBit then it.duration else max event.duration it.duration
        endBit := it.endBit || event.endBit } :: rest)
    else (mergeEvents event rest).map (it :: ·)

/-- Where an event is estimated to end, and whether this is the start of a next one. -/
def eventEnd (maxExtrapolationSamples : Int) (it : DtmfEvent) (rest : List DtmfEvent) : UInt32 × Bool :=
  let ends := it.timestamp + stamp32 it.duration
  if it.endBit then (ends, false)
  else
    let extrapolated := ends + stamp32 maxExtrapolationSamples
    match rest with
    | [] => (extrapolated, false)
    | next :: _ => (if next.timestamp < extrapolated then next.timestamp else extrapolated, true)

/-- The loop of `GetEvent`: the event that is found and the list. -/
def findEvent (maxExtrapolationSamples frameLenSamples : Int) (currentTimestamp : UInt32) :
    List DtmfEvent → Option DtmfEvent × List DtmfEvent
  | [] => (none, [])
  | it :: rest =>
    let (ends, nextAvailable) := eventEnd maxExtrapolationSamples it rest
    if currentTimestamp ≥ it.timestamp ∧ currentTimestamp ≤ ends then
      -- We are done playing this.
      if it.endBit ∧ currentTimestamp + stamp32 frameLenSamples ≥ ends then (some it, rest) else (some it, it :: rest)
    else if currentTimestamp > ends then
      if nextAvailable then findEvent maxExtrapolationSamples frameLenSamples currentTimestamp rest else (some it, rest)
    else
      let (found, left) := findEvent maxExtrapolationSamples frameLenSamples currentTimestamp rest
      (found, it :: left)

namespace DtmfBuffer

def setSampleRate (s : DtmfBuffer) (fsHz : Int) : DtmfBuffer × DtmfReturnCode :=
  if fsHz ≠ 8000 ∧ fsHz ≠ 16000 ∧ fsHz ≠ 32000 ∧ fsHz ≠ 48000 then (s, .invalidSampleRate)
  else ({ s with maxExtrapolationSamples := 7 * fsHz / 100, frameLenSamples := fsHz / 100 }, .ok)

/-- A buffer is made for one of four sample rates; for another one it is not initialized. -/
def create (fsHz : Int) : DtmfBuffer := (setSampleRate ⟨0, 0, []⟩ fsHz).1

def insertEvent (s : DtmfBuffer) (event : DtmfEvent) : DtmfBuffer × DtmfReturnCode :=
  if event.eventNo < 0 ∨ event.eventNo > 15 ∨ event.volume < 0 ∨ event.volume > 36 ∨ event.duration ≤ 0 ∨
      event.duration > 65535 then (s, .invalidEventParameters)
  else
    match mergeEvents event s.buffer with
    | some merged => ({ s with buffer := merged }, .ok)
    | none => ({ s with buffer := (s.buffer ++ [event]).mergeSort fun a b => !compareEvents b a }, .ok)

/-- The event that is to be played; none when the return value is false. -/
def getEvent (s : DtmfBuffer) (currentTimestamp : UInt32) : DtmfBuffer × Option DtmfEvent :=
  let (found, left) := findEvent s.maxExtrapolationSamples s.frameLenSamples currentTimestamp s.buffer
  ({ s with buffer := left }, found)

end DtmfBuffer

inductive DtmfCall where
  | insertEvent (event : DtmfEvent)
  | getEvent (currentTimestamp : UInt32)
deriving DecidableEq, Repr

inductive DtmfResult where
  | inserted (code : DtmfReturnCode)
  | got (event : Option DtmfEvent)
deriving DecidableEq, Repr

def dtmfStep (s : DtmfBuffer) : DtmfCall → DtmfBuffer × DtmfResult
  | .insertEvent event => ((s.insertEvent event).1, .inserted (s.insertEvent event).2)
  | .getEvent currentTimestamp => ((s.getEvent currentTimestamp).1, .got (s.getEvent currentTimestamp).2)

/-! ## Moving all timestamps -/

def DtmfEvent.shift (c : UInt32) (e : DtmfEvent) : DtmfEvent := { e with timestamp := e.timestamp + c }

def DtmfBuffer.shift (c : UInt32) (s : DtmfBuffer) : DtmfBuffer := { s with buffer := s.buffer.map (DtmfEvent.shift c) }

def DtmfCall.shift (c : UInt32) : DtmfCall → DtmfCall
  | .insertEvent event => .insertEvent (event.shift c)
  | .getEvent currentTimestamp => .getEvent (currentTimestamp + c)

def DtmfResult.shift (c : UInt32) : DtmfResult → DtmfResult
  | .inserted code => .inserted code
  | .got event => .got (event.map (DtmfEvent.shift c))

variable {c : UInt32}

@[simp] theorem DtmfEvent.shift_timestamp (e : DtmfEvent) : (e.shift c).timestamp = e.timestamp + c := rfl
@[simp] theorem DtmfEvent.shift_duration (e : DtmfEvent) : (e.shift c).duration = e.duration := rfl
@[simp] theorem DtmfEvent.shift_endBit (e : DtmfEvent) : (e.shift c).endBit = e.endBit := rfl
@[simp] theorem DtmfEvent.shift_eventNo (e : DtmfEvent) : (e.shift c).eventNo = e.eventNo := rfl

@[simp] theorem sameEvent_shift (a b : DtmfEvent) : sameEvent (a.shift c) (b.shift c) = sameEvent a b := by
  unfold sameEvent DtmfEvent.shift
  simp

@[simp] theorem compareEvents_shift (a b : DtmfEvent) : compareEvents (a.shift c) (b.shift c) = compareEvents a b := by
  unfold compareEvents DtmfEvent.shift
  simp

theorem mergeEvents_shift (event : DtmfEvent) (l : List DtmfEvent) :
    mergeEvents (event.shift c) (l.map (DtmfEvent.shift c)) =
      (mergeEvents event l).map (List.map (DtmfEvent.shift c)) := by
  induction l with
  | nil => rfl
  | cons it rest ih =>
    simp only [List.map_cons, mergeEvents, sameEvent_shift, ih]
    split
    · rfl
    · simp [Function.comp_def]

/-- An event is inserted in the same way wherever the timestamps start. -/
theorem insertEvent_shift (s : DtmfBuffer) (event : DtmfEvent) : (s.shift c).insertEvent (event.shift c) =
    ((s.insertEvent event).1.shift c, (s.insertEvent event).2) := by
  have hsort : ((s.buffer ++ [event]).mergeSort fun a b => !compareEvents b a).map (DtmfEvent.shift c) =
      ((s.buffer ++ [event]).map (DtmfEvent.shift c)).mergeSort fun a b => !compareEvents b a :=
    List.map_mergeSort fun a _ b _ => by simp
  simp only [List.map_append, List.map_cons, List.map_nil] at hsort
  simp only [DtmfBuffer.insertEvent, DtmfEvent.shift_eventNo, DtmfEvent.shift_duration, DtmfBuffer.shift,
    mergeEvents_shift, ← hsort, show (event.shift c).volume = event.volume from rfl]
  split
  · rfl
  · cases mergeEvents event s.buffer <;> rfl

/-! ## Timestamps that do not wrap -/

/-- From half of the range before `currentTimestamp` to half of the range behind it, with the end that is estimated
within 32 bits, and with the end of the frame if the event has ended. -/
structure Clear (maxExtrapolationSamples frameLenSamples : Int) (currentTimestamp : UInt32) (e : DtmfEvent) : Prop where
  after : currentTimestamp.toNat < e.timestamp.toNat + 0x80000000
  before : e.timestamp.toNat < currentTimestamp.toNat + 0x80000000
  ends : e.timestamp.toNat + e.duration + (if e.endBit then 0 else maxExtrapolationSamples) < 4294967296
  frame : e.endBit = true → currentTimestamp.toNat + frameLenSamples < 4294967296

/-- Nothing that the call compares wraps. -/
def PlainCall (s : DtmfBuffer) : DtmfCall → Prop
  | .insertEvent _ => True
  | .getEvent currentTimestamp =>
    ∀ e ∈ s.buffer, Clear s.maxExtrapolationSamples s.frameLenSamples currentTimestamp e

section Clear
variable {maxExtrapolationSamples frameLenSamples : Int} {currentTimestamp : UInt32}

/-- Events and `currentTimestamp` move by the same distance. -/
theorem Clear.moved {e : DtmfEvent} (h : Clear maxExtrapolationSamples frameLenSamples currentTimestamp e)
    (h' : Clear maxExtrapolationSamples frameLenSamples (currentTimestamp + c) (e.shift c)) :
    (e.timestamp + c).toNat + currentTimestamp.toNat = (currentTimestamp + c).toNat + e.timestamp.toNat :=
  shift_distance32 h.before h.after h'.before h'.after

theorem Clear.endsAt {e : DtmfEvent} (h : Clear maxExtrapolationSamples frameLenSamples currentTimestamp e)
    (hduration : 0 ≤ e.duration)
    (hextra : 0 ≤ maxExtrapolationSamples) :
    ((e.timestamp + stamp32 e.duration).toNat : Int) = e.timestamp.toNat + e.duration ∧
      (e.endBit = false → ((e.timestamp + stamp32 e.duration + stamp32 maxExtrapolationSamples).toNat : Int) =
        e.timestamp.toNat + e.duration + maxExtrapolationSamples) := by
  have hends := h.ends
  have hroom : e.timestamp.toNat + e.duration < 4294967296 := by
    split at hends <;> omega
  have hfirst := add_stamp32 hduration hroom
  refine ⟨hfirst, fun hgoes => ?_⟩
  simp only [hgoes, Bool.false_eq_true, if_false] at hends
  rw [@add_stamp32 (e.timestamp + stamp32 e.duration) maxExtrapolationSamples hextra (by omega), hfirst]

/-- The estimated end moves with the event. -/
theorem eventEnd_shift {it : DtmfEvent} {rest : List DtmfEvent} (hextra : 0 ≤ maxExtrapolationSamples)
    (hduration : 0 ≤ it.duration) (hclear : ∀ e ∈ it :: rest,
      Clear maxExtrapolationSamples frameLenSamples currentTimestamp e)
    (hclear' : ∀ e ∈ it :: rest, Clear maxExtrapolationSamples frameLenSamples (currentTimestamp + c) (e.shift c)) :
    (eventEnd maxExtrapolationSamples (it.shift c) (rest.map (DtmfEvent.shift c))).1.toNat + currentTimestamp.toNat =
        (currentTimestamp + c).toNat + (eventEnd maxExtrapolationSamples it rest).1.toNat ∧
      (eventEnd maxExtrapolationSamples (it.shift c) (rest.map (DtmfEvent.shift c))).2 =
        (eventEnd maxExtrapolationSamples it rest).2 := by
  have hit := hclear it List.mem_cons_self
  have hit' := hclear' it List.mem_cons_self
  obtain ⟨hends, hextrapolated⟩ := hit.endsAt hduration hextra
  obtain ⟨hends', hextrapolated'⟩ := hit'.endsAt hduration hextra
  have hmoved := hit.moved hit'
  simp only [DtmfEvent.shift_timestamp, DtmfEvent.shift_duration] at hends' hextrapolated'
  unfold eventEnd
  simp only [DtmfEvent.shift_timestamp, DtmfEvent.shift_duration, DtmfEvent.shift_endBit]
  by_cases hend : it.endBit = true
  · simp only [hend, if_true]
    exact ⟨by omega, trivial⟩
  · rw [Bool.not_eq_true] at hend
    have hextrapolated := hextrapolated hend
    have hextrapolated' := hextrapolated' hend
    cases rest with
    | nil =>
      simp only [hend, List.map_nil]
      exact ⟨by simp only [Bool.false_eq_true, if_false]; omega, rfl⟩
    | cons next rest =>
      -- Not behind the start of the next event.
      have hnext := (hclear next (by simp)).moved (hclear' next (by simp))
      simp only [hend, List.map_cons, DtmfEvent.shift_timestamp, Bool.false_eq_true, if_false, and_true,
        UInt32.lt_iff_toNat_lt]
      split <;> split <;> omega

/-- **The event that is found moves with the others**, and so does what is left. -/
theorem findEvent_shift {l : List DtmfEvent} (hextra : 0 ≤ maxExtrapolationSamples) (hframe : 0 ≤ frameLenSamples)
    (hduration : ∀ e ∈ l, 0 ≤ e.duration) (hclear : ∀ e ∈ l,
      Clear maxExtrapolationSamples frameLenSamples currentTimestamp e)
    (hclear' : ∀ e ∈ l, Clear maxExtrapolationSamples frameLenSamples (currentTimestamp + c) (e.shift c)) :
    findEvent maxExtrapolationSamples frameLenSamples (currentTimestamp + c) (l.map (DtmfEvent.shift c)) =
      ((findEvent maxExtrapolationSamples frameLenSamples currentTimestamp l).1.map (DtmfEvent.shift c),
        (findEvent maxExtrapolationSamples frameLenSamples currentTimestamp l).2.map (DtmfEvent.shift c)) := by
  induction l with
  | nil => rfl
  | cons it rest ih =>
    obtain ⟨hit, hrest⟩ := List.forall_mem_cons.1 hduration
    have ih := ih hrest (fun e he => hclear e (List.mem_cons_of_mem it he))
      (fun e he => hclear' e (List.mem_cons_of_mem it he))
    obtain ⟨hends, hnext⟩ := eventEnd_shift hextra hit hclear hclear'
    have hmoved := (hclear it List.mem_cons_self).moved (hclear' it List.mem_cons_self)
    simp only [List.map_cons, findEvent, DtmfEvent.shift_timestamp, DtmfEvent.shift_endBit, hnext, ih, ge_iff_le,
      gt_iff_lt,
      UInt32.le_iff_toNat_le, UInt32.lt_iff_toNat_lt]
    generalize (eventEnd maxExtrapolationSamples (it.shift c) (rest.map (DtmfEvent.shift c))).1.toNat = ends' at *
    generalize (eventEnd maxExtrapolationSamples it rest).1.toNat = ends at *
    -- All comparisons come out as before.
    have hplays : (it.timestamp + c).toNat ≤ (currentTimestamp + c).toNat ∧ (currentTimestamp + c).toNat ≤ ends' ↔
        it.timestamp.toNat ≤ currentTimestamp.toNat ∧ currentTimestamp.toNat ≤ ends := by
      omega
    have hlast : it.endBit = true ∧ ends' ≤ (currentTimestamp + c + stamp32 frameLenSamples).toNat ↔
        it.endBit = true ∧ ends ≤ (currentTimestamp + stamp32 frameLenSamples).toNat := by
      refine and_congr_right fun hend => ?_
      have hdone := add_stamp32 hframe ((hclear it List.mem_cons_self).frame hend)
      have hdone' := add_stamp32 hframe ((hclear' it List.mem_cons_self).frame hend)
      omega
    have hover : ends' < (currentTimestamp + c).toNat ↔ ends < currentTimestamp.toNat := by
      omega
    simp only [hplays, hlast, hover]
    split
    · split <;> rfl
    · split
      · split <;> rfl
      · rfl

end Clear

/-! ## Runs -/

/-- The events have a duration, and the sample rate is set. -/
structure DtmfBuffer.Valid (s : DtmfBuffer) : Prop where
  extra : 0 ≤ s.maxExtrapolationSamples
  frame : 0 ≤ s.frameLenSamples
  durations : ∀ e ∈ s.buffer, 0 ≤ e.duration

theorem create_valid (fsHz : Int) : (DtmfBuffer.create fsHz).Valid := by
  unfold DtmfBuffer.create DtmfBuffer.setSampleRate
  split
  · exact ⟨Int.le_refl 0, Int.le_refl 0, by simp⟩
  · exact ⟨by simp only; omega, by simp only; omega, by simp⟩

theorem mergeEvents_durations {event : DtmfEvent} (hevent : 0 ≤ event.duration) {l merged : List DtmfEvent}
    (h : mergeEvents event l = some merged) (hl : ∀ e ∈ l, 0 ≤ e.duration) : ∀ e ∈ merged, 0 ≤ e.duration := by
  induction l generalizing merged with
  | nil => cases h
  | cons it rest ih =>
    obtain ⟨hit, hrest⟩ := List.forall_mem_cons.1 hl
    rw [mergeEvents] at h
    split at h
    · cases h
      refine List.forall_mem_cons.2 ⟨?_, hrest⟩
      simp only
      split <;> omega
    · obtain ⟨left, hleft, rfl⟩ := Option.map_eq_some_iff.1 h
      exact List.forall_mem_cons.2 ⟨hit, ih hleft hrest⟩

theorem findEvent_left (maxExtrapolationSamples frameLenSamples : Int) (currentTimestamp : UInt32)
    (l : List DtmfEvent) :
    (findEvent maxExtrapolationSamples frameLenSamples currentTimestamp l).2 ⊆ l := by
  induction l with
  | nil => simp [findEvent]
  | cons it rest ih =>
    have hsub := List.subset_cons_of_subset it ih
    simp only [findEvent]
    repeat' split
    all_goals simp [hsub]

theorem dtmfStep_valid {s : DtmfBuffer} (h : s.Valid) (call : DtmfCall) : (dtmfStep s call).1.Valid := by
  cases call with
  | insertEvent event =>
    simp only [dtmfStep, DtmfBuffer.insertEvent]
    split
    · exact h
    · rename_i hparams
      have hevent : 0 ≤ event.duration := by omega
      cases hmerged : mergeEvents event s.buffer with
      | some merged => exact ⟨h.extra, h.frame, mergeEvents_durations hevent hmerged h.durations⟩
      | none =>
        refine ⟨h.extra, h.frame, fun e he => ?_⟩
        rcases List.mem_append.1 (List.mem_mergeSort.1 he) with he | he
        · exact h.durations e he
        · rw [List.mem_singleton.1 he]
          exact hevent
  | getEvent currentTimestamp =>
    exact ⟨h.extra, h.frame, fun e he => h.durations e (findEvent_left _ _ _ _ he)⟩

/-- **One call** that compares nothing that wraps. -/
theorem dtmfStep_shift {s : DtmfBuffer} {call : DtmfCall} (h : s.Valid) (hplain : PlainCall s call)
    (hplain' : PlainCall (s.shift c) (call.shift c)) :
    dtmfStep (s.shift c) (call.shift c) = ((dtmfStep s call).1.shift c, (dtmfStep s call).2.shift c) := by
  cases call with
  | insertEvent event => simp [dtmfStep, DtmfCall.shift, DtmfResult.shift, insertEvent_shift]
  | getEvent currentTimestamp =>
    have hfind := findEvent_shift h.extra h.frame h.durations hplain
      fun e he => hplain' (e.shift c) (List.mem_map_of_mem he)
    simp [dtmfStep, DtmfCall.shift, DtmfResult.shift, DtmfBuffer.getEvent, DtmfBuffer.shift, hfind]

/-- **Where the timestamps start makes no difference** in a run in which no call compares timestamps that wrap, before
and after. -/
theorem dtmfTrace_shift (fsHz : Int) (c : UInt32) (calls : List DtmfCall)
    (hplain : Machine.Meets dtmfStep (fun s call => PlainCall s call ∧ PlainCall (s.shift c) (call.shift c))
      (.create fsHz) calls) :
    Machine.trace dtmfStep (.create fsHz) (calls.map (DtmfCall.shift c)) =
      (Machine.trace dtmfStep (.create fsHz) calls).map (DtmfResult.shift c) := by
  have hrun : ∀ s : DtmfBuffer, s.Valid → Machine.Meets dtmfStep
      (fun s call => PlainCall s call ∧ PlainCall (s.shift c) (call.shift c)) s calls →
      Machine.trace dtmfStep (s.shift c) (calls.map (DtmfCall.shift c)) =
        (Machine.trace dtmfStep s calls).map (DtmfResult.shift c) := by
    clear hplain
    induction calls with
    | nil => exact fun _ _ _ => rfl
    | cons call calls ih =>
      rintro s h ⟨⟨hplain, hplain'⟩, hrest⟩
      rw [List.map_cons, Machine.trace, Machine.trace, dtmfStep_shift h hplain hplain', List.map_cons,
        ih _ (dtmfStep_valid h call) hrest]
  have hempty : (DtmfBuffer.create fsHz).shift c = DtmfBuffer.create fsHz := by
    unfold DtmfBuffer.create DtmfBuffer.setSampleRate
    split <;> rfl
  have hall := hrun _ (create_valid fsHz) hplain
  rwa [hempty] at hall

/-- The digit 1, which starts at `timestamp` and is held. -/
def heldDigit (timestamp : UInt32) : DtmfEvent where
  timestamp
  eventNo := 1
  volume := 10
  duration := 160
  endBit := false

theorem insertEvent_first (timestamp : UInt32) : (DtmfBuffer.create 8000).insertEvent (heldDigit timestamp) =
    ({ DtmfBuffer.create 8000 with buffer := [heldDigit timestamp] }, .ok) := by
  simp [DtmfBuffer.insertEvent, DtmfBuffer.create, DtmfBuffer.setSampleRate, heldDigit, mergeEvents]

theorem dtmfTrace_held : Machine.trace dtmfStep (.create 8000) [.insertEvent (heldDigit 6000), .getEvent 6080] =
    (Machine.trace dtmfStep (.create 8000) [.insertEvent (heldDigit 1000), .getEvent 1080]).map
      (DtmfResult.shift 5000) := by
  refine dtmfTrace_shift 8000 5000 [.insertEvent (heldDigit 1000), .getEvent 1080] ⟨⟨trivial, trivial⟩, ?_, trivial⟩
  simp only [dtmfStep, insertEvent_first, PlainCall, DtmfCall.shift, DtmfBuffer.shift, List.map_cons, List.map_nil,
    List.forall_mem_singleton]
  exact ⟨⟨by decide, by decide, by decide, by decide⟩, by decide, by decide, by decide, by decide⟩

/-- The timestamp of a call. -/
def DtmfCall.timestamp : DtmfCall → UInt32
  | .insertEvent event => event.timestamp
  | .getEvent currentTimestamp => currentTimestamp

/-- A digit that starts behind the wrap is played before. -/
theorem not_dtmfTrace_wrapping : ¬ ∀ (c base : UInt32) (calls : List DtmfCall),
    (∀ call ∈ calls, (call.timestamp - base).toNat < 2 ^ 30) →
    (∀ result ∈ Machine.trace dtmfStep (.create 8000) calls, result ≠ .inserted .invalidEventParameters) →
    Machine.trace dtmfStep (.create 8000) (calls.map (DtmfCall.shift c)) =
      (Machine.trace dtmfStep (.create 8000) calls).map (DtmfResult.shift c) := by
  intro h
  have hrun : ∀ timestamp now, Machine.trace dtmfStep (.create 8000)
    [.insertEvent (heldDigit timestamp), .getEvent now] =
      [.inserted .ok, .got (findEvent 560 80 now [heldDigit timestamp]).1] := by
    intro timestamp now
    simp only [Machine.trace, dtmfStep, insertEvent_first]
    rfl
  have hall := h 64 0xFFFFFFF0 [.insertEvent (heldDigit 16), .getEvent 0xFFFFFFF0] (by decide)
    (by rw [hrun]; decide)
  have hmoved : [DtmfCall.insertEvent (heldDigit 16), .getEvent 0xFFFFFFF0].map (DtmfCall.shift 64) =
      [.insertEvent (heldDigit 80), .getEvent 48] := rfl
  rw [hmoved, hrun, hrun] at hall
  exact absurd hall (by decide)

end WebRtc.NetEq
