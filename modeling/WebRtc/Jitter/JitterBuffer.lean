import WebRtc.Jitter.DecodingState
import WebRtc.Jitter.Rejected
import WebRtc.Lib.Search

/-!
# The video jitter buffer, and the numbers it asks for again

| here | there |
| --- | --- |
| `VCMFrameBufferEnum`, `VCMFrameBufferStateEnum` | `jitter_buffer_common.h:42-63` |
| `FrameList` and its functions | `jitter_buffer.h:58-70`, `jitter_buffer.cc:51-111` |
| `VCMJitterBuffer` | `jitter_buffer.h:102-387`, `jitter_buffer.cc:213-251` |
| `start`, `stop`, `flush` | `jitter_buffer.cc:297-368` |
| `extractAndSetDecode` | `jitter_buffer.cc:547-598` |
| `getFrame`, `insertPacket` | `jitter_buffer.cc:609-813` |
| `isContinuous`, `findAndInsertContinuousFrames` | `jitter_buffer.cc:815-885` |
| `setNackMode`, `setNackSettings` | `jitter_buffer.cc:907-940` |
| `getNackList` and what it asks | `jitter_buffer.cc:947-1038` |
| `updateNackList` and what it calls | `jitter_buffer.cc:1040-1125` |
| `recycleFramesUntilKeyFrame`, `cleanUpOldOrEmptyFrames` | `jitter_buffer.cc:1173-1202`, `:1245-1253` |

What `VCMFrameBuffer::InsertPacket` makes of a frame, and whether there is an empty frame, comes with the packet; the
packets of a frame are in `Session.lean`. The frame lists and the set of missing numbers are in the order of their
trees. A function that loops returns none where its loop does not end.
-/

namespace WebRtc.Jitter

def kMaxConsecutiveOldPackets : Nat := 300

inductive VCMNackMode where
  | kNack
  | kNoNack
deriving DecidableEq, Repr

inductive VCMFrameBufferEnum where
  | outOfBoundsPacket
  | notInitialized
  | oldPacket
  | generalError
  | flushIndicator
  | timeStampError
  | sizeError
  | noError
  | incomplete
  | completeSession
  | decodableSession
  | duplicatePacket
deriving DecidableEq, Repr

/-- The value is positive. -/
def VCMFrameBufferEnum.positive : VCMFrameBufferEnum → Bool
  | .incomplete | .completeSession | .decodableSession | .duplicatePacket => true
  | _ => false

inductive VCMFrameBufferStateEnum where
  | stateEmpty
  | stateIncomplete
  | stateComplete
  | stateDecodable
deriving DecidableEq, Repr

structure BufferedFrame extends VCMFrameBuffer where
  state : VCMFrameBufferStateEnum
  haveFirstPacket : Bool
deriving DecidableEq, Repr

/-- The trees of the containers. -/
structure Trees where
  frames : Search BufferedFrame
  numbers : Search UInt16

/-! ## The lists of frames -/

abbrev FrameList := List BufferedFrame

namespace FrameList

def timestampLessThan (timestamp1 timestamp2 : UInt32) : Bool := isNewerTimestamp timestamp2 timestamp1

def insertFrame (tree : Search BufferedFrame) (frame : BufferedFrame) (l : FrameList) : FrameList :=
  tree.insertEnd (fun a b => timestampLessThan a.timeStamp b.timeStamp) l frame

/-- The frame, and the list without it. -/
def popFrame (tree : Search BufferedFrame) (timestamp : UInt32) (l : FrameList) : Option (BufferedFrame × FrameList) :=
  let position := tree.find (fun a => timestampLessThan a.timeStamp timestamp) l
  match l[position]? with
  | none => none
  | some frame =>
    if timestampLessThan timestamp frame.timeStamp then none else some (frame, l.eraseIdx position)

/-- The frames from the key frame on, and the number of those that have been dropped. -/
def recycleFramesUntilKeyFrame : FrameList → FrameList × Nat
  | [] => ([], 0)
  | _ :: rest =>
    -- At least one frame is thrown.
    if rest.head?.any fun frame => frame.frameType = .videoFrameKey then (rest, 1)
    else
      let (kept, dropped) := recycleFramesUntilKeyFrame rest
      (kept, dropped + 1)

def cleanUpOldOrEmptyFrames : VCMDecodingState → FrameList → VCMDecodingState × FrameList
  | decodingState, [] => (decodingState, [])
  | decodingState, oldest :: rest =>
    let (updated, removeFrame) :=
      if oldest.state = .stateEmpty ∧ rest ≠ [] then decodingState.updateEmptyFrame oldest.toVCMFrameBuffer
      else (decodingState, decodingState.isOld oldest.timeStamp)
    if removeFrame then cleanUpOldOrEmptyFrames updated rest else (updated, oldest :: rest)

end FrameList

structure VCMJitterBuffer where
  running : Bool := false
  decodableFrames : FrameList := []
  incompleteFrames : FrameList := []
  lastDecodedState : VCMDecodingState := {}
  firstPacketSinceReset : Bool := true
  /-- Not set before there is a packet. -/
  latestReceivedSequenceNumber : UInt16
  numConsecutiveOldPackets : Nat := 0
  nackMode : VCMNackMode := .kNoNack
  missingSequenceNumbers : List UInt16 := []
  maxNackListSize : Nat := 0
  maxPacketAgeToNack : Nat := 0
  maxIncompleteTimeMs : Int := 0
  decodeErrorMode : VCMDecodeErrorMode := .noErrors

def sequenceNumberLessThan (sequenceNumber1 sequenceNumber2 : UInt16) : Bool :=
  isNewerSequenceNumber sequenceNumber2 sequenceNumber1

/-- What a call of `UpdateNackList` has left. -/
structure NackUpdate where
  sequenceNumber : UInt16
  result : Bool
  missingSequenceNumbers : List UInt16
  maxNackListSize : Nat
  maxPacketAgeToNack : Nat
deriving DecidableEq, Repr

namespace VCMJitterBuffer

variable (trees : Trees) (s : VCMJitterBuffer)

/-! ## Dropping frames and numbers -/

def estimatedLowSequenceNumber (frame : BufferedFrame) : UInt16 :=
  if frame.haveFirstPacket then wrap16 frame.lowSeqNum
  -- This estimate is not accurate if more than one packet with lower sequence number is lost.
  else wrap16 (frame.lowSeqNum - 1)

def dropPacketsFromNackList (lastDecodedSequenceNumber : UInt16) : VCMJitterBuffer :=
  let position := trees.numbers.upperBound sequenceNumberLessThan lastDecodedSequenceNumber s.missingSequenceNumbers
  { s with missingSequenceNumbers := s.missingSequenceNumbers.drop position }

/-- The lists without the frames that are released, and the key frame. -/
def releaseFrames (incomplete decodable : FrameList) : FrameList × FrameList × Option BufferedFrame :=
  let (kept, droppedFrames) := FrameList.recycleFramesUntilKeyFrame incomplete
  -- Decodable frames are only released if there are no incomplete ones.
  if droppedFrames = 0 then
    let (keptDecodable, _) := FrameList.recycleFramesUntilKeyFrame decodable
    (kept, keptDecodable, keptDecodable.head?)
  else (kept, decodable, kept.head?)

/-- Whether a key frame has been found. -/
def recycleFramesUntilKeyFrame : VCMJitterBuffer × Bool :=
  let (incompleteFrames, decodableFrames, key) := releaseFrames s.incompleteFrames s.decodableFrames
  let released := { s with incompleteFrames, decodableFrames }
  match key with
  | some frame =>
    -- The next frame decoded is a key frame, and NACKing starts from here.
    let reset := { released with lastDecodedState := s.lastDecodedState.reset }
    (reset.dropPacketsFromNackList trees (estimatedLowSequenceNumber frame), true)
  | none =>
    if decodableFrames = [] then
      ({ released with lastDecodedState := s.lastDecodedState.reset, missingSequenceNumbers := [] }, false)
    else (released, false)

/-- The loop of `HandleTooLargeNackList` and of `HandleTooOldPackets`. -/
def recycleWhile (tooMuch : VCMJitterBuffer → Bool) :
    Nat → VCMJitterBuffer → Bool → Option (VCMJitterBuffer × Bool)
  | 0, _, _ => none
  | fuel + 1, s, keyFrameFound =>
    if tooMuch s then
      let (recycled, found) := s.recycleFramesUntilKeyFrame trees
      recycleWhile tooMuch fuel recycled found
    else some (s, keyFrameFound)

/-- There are not more rounds than frames, but for the one that clears the list and the last one. -/
def rounds : Nat := s.incompleteFrames.length + s.decodableFrames.length + 2

def tooLargeNackList : Bool := s.missingSequenceNumbers.length > s.maxNackListSize

def handleTooLargeNackList : Option (VCMJitterBuffer × Bool) :=
  recycleWhile trees tooLargeNackList s.rounds s false

def missingTooOldPacket (latestSequenceNumber : UInt16) (s : VCMJitterBuffer) : Bool :=
  match s.missingSequenceNumbers with
  | [] => false
  | oldest :: _ => (latestSequenceNumber - oldest).toNat > s.maxPacketAgeToNack

def handleTooOldPackets (latestSequenceNumber : UInt16) : Option (VCMJitterBuffer × Bool) :=
  recycleWhile trees (missingTooOldPacket latestSequenceNumber) s.rounds s false

/-! ## The list -/

/-- The loop of `UpdateNackList`, from `i` on. -/
def pushMissing (tree : Search UInt16) (sequenceNumber : UInt16) :
    Nat → UInt16 → List UInt16 → Option (List UInt16)
  | 0, _, _ => none
  | fuel + 1, i, missing =>
    if isNewerSequenceNumber sequenceNumber i then
      pushMissing tree sequenceNumber fuel (i + 1) (tree.insertEnd sequenceNumberLessThan missing i)
    else some missing

/-- Packets that are already too old to be decoded are not added. -/
def skipDecoded : VCMJitterBuffer :=
  if s.lastDecodedState.inInitialState then s
  else
    { s with
      latestReceivedSequenceNumber :=
        latestSequenceNumber s.latestReceivedSequenceNumber s.lastDecodedState.sequenceNum }

/-- The list is made small and young enough. -/
def limitNackList (sequenceNumber : UInt16) : Option (VCMJitterBuffer × Bool) :=
  (if s.tooLargeNackList then s.handleTooLargeNackList trees else some (s, true)).bind fun (s, found) =>
    if found && s.missingTooOldPacket sequenceNumber then s.handleTooOldPackets trees sequenceNumber
    else some (s, found)

def updateNackList (sequenceNumber : UInt16) : Option (VCMJitterBuffer × Bool) :=
  if s.nackMode = .kNoNack then some (s, true)
  else
    let s := s.skipDecoded
    if isNewerSequenceNumber sequenceNumber s.latestReceivedSequenceNumber then
      (pushMissing trees.numbers sequenceNumber 65536 (s.latestReceivedSequenceNumber + 1)
        s.missingSequenceNumbers).bind fun missing =>
        { s with missingSequenceNumbers := missing }.limitNackList trees sequenceNumber
    else
      let missing := trees.numbers.erase sequenceNumberLessThan sequenceNumber s.missingSequenceNumbers
      some ({ s with missingSequenceNumbers := missing }, true)

/-! ## Continuous frames -/

def isContinuousInState (frame : BufferedFrame) (decodingState : VCMDecodingState) : Bool :=
  if s.decodeErrorMode = .withErrors then true
  else (frame.state = .stateComplete || frame.state = .stateDecodable) &&
    decodingState.continuousFrame frame.toVCMFrameBuffer

/-- The loop of `IsContinuous`. -/
def isContinuousBehind (frame : BufferedFrame) : VCMDecodingState → FrameList → Bool
  | _, [] => false
  | decodingState, decodableFrame :: rest =>
    if isNewerTimestamp decodableFrame.timeStamp frame.timeStamp then false
    else
      let decodingState := decodingState.setState decodableFrame.toVCMFrameBuffer
      s.isContinuousInState frame decodingState || isContinuousBehind frame decodingState rest

def isContinuous (frame : BufferedFrame) : Bool :=
  s.isContinuousInState frame s.lastDecodedState || s.isContinuousBehind frame s.lastDecodedState s.decodableFrames

/-- The loop of `FindAndInsertContinuousFramesWithState`: the incomplete frames that stay, and the decodable ones. -/
def moveContinuous (originalDecodedState : VCMDecodingState) :
    VCMDecodingState → FrameList → FrameList → FrameList × FrameList
  | _, [], decodable => ([], decodable)
  | decodingState, frame :: rest, decodable =>
    if isNewerTimestamp originalDecodedState.timeStamp frame.timeStamp then
      let (incomplete, decodable) := moveContinuous originalDecodedState decodingState rest decodable
      (frame :: incomplete, decodable)
    else if s.isContinuousInState frame decodingState then
      moveContinuous originalDecodedState (decodingState.setState frame.toVCMFrameBuffer) rest
        (FrameList.insertFrame trees.frames frame decodable)
    else if frame.temporalId ≤ 0 then (frame :: rest, decodable)
    else
      let (incomplete, decodable) := moveContinuous originalDecodedState decodingState rest decodable
      (frame :: incomplete, decodable)

def findAndInsertContinuousFramesWithState (originalDecodedState : VCMDecodingState) : VCMJitterBuffer :=
  let (incomplete, decodable) :=
    s.moveContinuous trees originalDecodedState originalDecodedState s.incompleteFrames s.decodableFrames
  { s with incompleteFrames := incomplete, decodableFrames := decodable }

def findAndInsertContinuousFrames (newFrame : BufferedFrame) : VCMJitterBuffer :=
  s.findAndInsertContinuousFramesWithState trees (s.lastDecodedState.setState newFrame.toVCMFrameBuffer)

/-! ## Starting over -/

def start : VCMJitterBuffer :=
  { s with
    running := true
    numConsecutiveOldPackets := 0
    firstPacketSinceReset := true
    lastDecodedState := s.lastDecodedState.reset }

def stop : VCMJitterBuffer :=
  { s with
    running := false
    lastDecodedState := s.lastDecodedState.reset
    decodableFrames := []
    incompleteFrames := [] }

def flush : VCMJitterBuffer :=
  { s with
    decodableFrames := []
    incompleteFrames := []
    lastDecodedState := s.lastDecodedState.reset
    numConsecutiveOldPackets := 0
    firstPacketSinceReset := true
    missingSequenceNumbers := [] }

/-! ## Packets in -/

inductive ListName where
  | incomplete
  | decodable
deriving DecidableEq, Repr

/-- Which list the frame was in, if any. There may be no frame at all. -/
def getFrame (timestamp : UInt32) (emptyFrame : Bool) : VCMJitterBuffer × Option (Option ListName) :=
  match FrameList.popFrame trees.frames timestamp s.incompleteFrames with
  | some (_, incomplete) => ({ s with incompleteFrames := incomplete }, some (some .incomplete))
  | none =>
    match FrameList.popFrame trees.frames timestamp s.decodableFrames with
    | some (_, decodable) => ({ s with decodableFrames := decodable }, some (some .decodable))
    | none =>
      if emptyFrame then (s, some none)
      else
        let (recycled, foundKeyFrame) := s.recycleFramesUntilKeyFrame trees
        if foundKeyFrame then (recycled, some none) else (recycled, none)

def insertIncomplete (frame : BufferedFrame) : VCMJitterBuffer :=
  { s with incompleteFrames := FrameList.insertFrame trees.frames frame s.incompleteFrames }

def insertDecodable (frame : BufferedFrame) : VCMJitterBuffer :=
  { s with decodableFrames := FrameList.insertFrame trees.frames frame s.decodableFrames }

/-- Where the frame goes. -/
def placeFrame (list : Option ListName) (bufferState : VCMFrameBufferEnum) (frame : BufferedFrame) :
    VCMJitterBuffer :=
  match bufferState with
  | .completeSession | .decodableSession =>
    if s.isContinuous frame then (s.insertDecodable trees frame).findAndInsertContinuousFrames trees frame
    else s.insertIncomplete trees frame
  | .incomplete =>
    let (updated, dropped) := s.lastDecodedState.updateEmptyFrame frame.toVCMFrameBuffer
    if frame.state = .stateEmpty && dropped then { s with lastDecodedState := updated }
    else s.insertIncomplete trees frame
  | .noError | .outOfBoundsPacket | .duplicatePacket =>
    match list with
    | some .incomplete => s.insertIncomplete trees frame
    | some .decodable => s.insertDecodable trees frame
    | none => s
  | _ => s

def insertOldPacket (packet : ReceivedPacket) : VCMJitterBuffer :=
  -- Account only for media packets.
  let counted :=
    if packet.data.length > 0 then { s with numConsecutiveOldPackets := s.numConsecutiveOldPackets + 1 } else s
  let updated := { counted with lastDecodedState := s.lastDecodedState.updateOldPacket packet }
  let dropped := updated.dropPacketsFromNackList trees updated.lastDecodedState.sequenceNum
  let found := dropped.findAndInsertContinuousFramesWithState trees dropped.lastDecodedState
  if found.numConsecutiveOldPackets > kMaxConsecutiveOldPackets then found.flush else found

/-- The buffer, the number of the packet that has been accepted, and the call of `UpdateNackList`. -/
structure Outcome where
  buffer : VCMJitterBuffer
  accepted : Option UInt16 := none
  update : Option NackUpdate := none

/-- From the insertion into the frame on. -/
def insertIntoFrame (packet : ReceivedPacket) (list : Option ListName) (bufferState : VCMFrameBufferEnum)
    (frame : BufferedFrame) : Option Outcome :=
  if bufferState.positive then
    if s.firstPacketSinceReset then
      let received := { s with latestReceivedSequenceNumber := packet.seqNum, firstPacketSinceReset := false }
      some ⟨received.placeFrame trees list bufferState frame, packet.seqNum, none⟩
    else (s.updateNackList trees packet.seqNum).map fun (updated, result) =>
      let state := if !result && packet.frameType ≠ .videoFrameKey then .flushIndicator else bufferState
      let latest := latestSequenceNumber updated.latestReceivedSequenceNumber packet.seqNum
      let received := { updated with latestReceivedSequenceNumber := latest }
      let update : NackUpdate :=
        ⟨packet.seqNum, result, updated.missingSequenceNumbers, updated.maxNackListSize, updated.maxPacketAgeToNack⟩
      ⟨received.placeFrame trees list state frame, packet.seqNum, some update⟩
  else some ⟨s.placeFrame trees list bufferState frame, none, none⟩

/-- `bufferState` is what the frame returns, and `frame` what it is then. -/
def insertPacket (packet : ReceivedPacket) (emptyFrame : Bool) (bufferState : VCMFrameBufferEnum)
    (frame : BufferedFrame) : Option Outcome :=
  if s.lastDecodedState.isOld packet.timestamp then some ⟨s.insertOldPacket trees packet, none, none⟩
  else
    match { s with numConsecutiveOldPackets := 0 }.getFrame trees packet.timestamp emptyFrame with
    | (s, none) => some ⟨s, none, none⟩
    | (s, some list) => s.insertIntoFrame trees packet list bufferState frame

/-! ## Frames out -/

def cleanUpOldOrEmptyFrames : VCMJitterBuffer :=
  let (decodingState, decodable) := FrameList.cleanUpOldOrEmptyFrames s.lastDecodedState s.decodableFrames
  let (decodingState, incomplete) := FrameList.cleanUpOldOrEmptyFrames decodingState s.incompleteFrames
  let cleaned := { s with
    lastDecodedState := decodingState, decodableFrames := decodable, incompleteFrames := incomplete }
  if decodingState.inInitialState then cleaned
  else cleaned.dropPacketsFromNackList trees decodingState.sequenceNum

/-- The frame, and the buffer without it. -/
def popFrame (timestamp : UInt32) : Option (BufferedFrame × VCMJitterBuffer) :=
  match FrameList.popFrame trees.frames timestamp s.decodableFrames with
  | some (frame, decodable) => some (frame, { s with decodableFrames := decodable })
  | none =>
    match FrameList.popFrame trees.frames timestamp s.incompleteFrames with
    | some (frame, incomplete) => some (frame, { s with incompleteFrames := incomplete })
    | none => none

def setDecoded (frame : BufferedFrame) : VCMJitterBuffer :=
  let decoded := { s with lastDecodedState := s.lastDecodedState.setState frame.toVCMFrameBuffer }
  decoded.dropPacketsFromNackList trees decoded.lastDecodedState.sequenceNum

def extractAndSetDecode (timestamp : UInt32) : VCMJitterBuffer :=
  if s.running then
    match s.popFrame trees timestamp with
    | some (frame, popped) => popped.setDecoded trees frame
    | none => s
  else s

/-! ## The settings, and the list that is sent -/

def setNackMode (mode : VCMNackMode) : VCMJitterBuffer :=
  if mode = .kNoNack then { s with nackMode := mode, missingSequenceNumbers := [] } else { s with nackMode := mode }

def setNackSettings (maxNackListSize maxPacketAgeToNack : Nat) (maxIncompleteTimeMs : Int) : VCMJitterBuffer :=
  { s with
    maxNackListSize := maxNackListSize
    maxPacketAgeToNack := maxPacketAgeToNack
    maxIncompleteTimeMs := maxIncompleteTimeMs }

def nextFrame : Option BufferedFrame := s.decodableFrames.head?.or s.incompleteFrames.head?

def nonContinuousOrIncompleteDuration : Int :=
  match s.incompleteFrames.head?, s.incompleteFrames.getLast? with
  | some front, some back =>
    let startTimestamp := (s.decodableFrames.getLast?.getD front).timeStamp
    (back.timeStamp - startTimestamp).toInt32.toInt
  | _, _ => 0

/-- Skip to the last key frame if what cannot be decoded takes too long: whether there is one. -/
def skipToKeyFrame : VCMJitterBuffer × Bool :=
  if s.maxIncompleteTimeMs > 0 ∧ s.nonContinuousOrIncompleteDuration > 90 * s.maxIncompleteTimeMs then
    match s.incompleteFrames.reverse.find? fun frame => frame.frameType = .videoFrameKey with
    | none => (s, false)
    | some key =>
      let reset := { s with lastDecodedState := s.lastDecodedState.reset }
      (reset.dropPacketsFromNackList trees (estimatedLowSequenceNumber key), true)
  else (s, true)

/-- The buffer, the list, and whether a key frame is requested. -/
def getNackList : Option (VCMJitterBuffer × List UInt16 × Bool) :=
  if s.nackMode = .kNoNack then some (s, [], false)
  else
    let firstFrameIsKey := s.nextFrame.any fun frame => frame.frameType = .videoFrameKey && frame.haveFirstPacket
    let haveNonEmptyFrame := (s.decodableFrames ++ s.incompleteFrames).any fun frame => frame.state ≠ .stateEmpty
    let (recycled, started) :=
      if s.lastDecodedState.inInitialState && !firstFrameIsKey then s.recycleFramesUntilKeyFrame trees else (s, true)
    if !started then some (recycled, [], haveNonEmptyFrame)
    else
      (if recycled.tooLargeNackList then recycled.handleTooLargeNackList trees else some (recycled, true)).map
        fun (handled, found) =>
          let (skipped, key) := handled.skipToKeyFrame trees
          if key then (skipped, skipped.missingSequenceNumbers, !found) else (skipped, [], true)

end VCMJitterBuffer

/-! ## Calls -/

/-- The functions that look for the next frame change what `cleanUpOldOrEmptyFrames` does, and nothing else. -/
inductive Call where
  | insertPacket (packet : ReceivedPacket) (emptyFrame : Bool) (bufferState : VCMFrameBufferEnum)
      (frame : BufferedFrame)
  | extractAndSetDecode (timestamp : UInt32)
  | cleanUpOldOrEmptyFrames
  | getNackList
  | setNackMode (mode : VCMNackMode)
  | setNackSettings (maxNackListSize maxPacketAgeToNack : Nat) (maxIncompleteTimeMs : Int)
  | setDecodeErrorMode (errorMode : VCMDecodeErrorMode)
  | start
  | stop
  | flush

def VCMJitterBuffer.call (trees : Trees) (s : VCMJitterBuffer) : Call → Option Outcome
  | .insertPacket packet emptyFrame bufferState frame => s.insertPacket trees packet emptyFrame bufferState frame
  | .extractAndSetDecode timestamp => some { buffer := s.extractAndSetDecode trees timestamp }
  | .cleanUpOldOrEmptyFrames => some { buffer := s.cleanUpOldOrEmptyFrames trees }
  | .getNackList => (s.getNackList trees).map fun answer => { buffer := answer.1 }
  | .setNackMode mode => some { buffer := s.setNackMode mode }
  | .setNackSettings maxNackListSize maxPacketAgeToNack maxIncompleteTimeMs =>
    some { buffer := s.setNackSettings maxNackListSize maxPacketAgeToNack maxIncompleteTimeMs }
  | .setDecodeErrorMode errorMode => some { buffer := { s with decodeErrorMode := errorMode } }
  | .start => some { buffer := s.start }
  | .stop => some { buffer := s.stop }
  | .flush => some { buffer := s.flush }

end WebRtc.Jitter
