import WebRtc.Jitter.NackList
import WebRtc.Jitter.NackOrder
import WebRtc.Lib.Machine

/-!
# The list of missing packets in whole runs

A buffer is made, and then called in any order. In a run whose calls are all legal (`VCMJitterBuffer.Legal`) no number
on the list is at or before the last decoded one, is newer than the latest one, or has been accepted (`Kept`), and every
call of `UpdateNackList` that returns true leaves the list within its limits. What carries it is `Tracks`: the list is
in the order of its set, within half of the range and within the limits, and what has been accepted is not ahead of the
latest number.

Three calls are not legal in every state, and break it there:

* `InsertPacket` advances the last decoded number over an empty frame and returns without `DropPacketsFromNackList`,
  which every other change of that number is followed by (`DropsOverMissing`);
* `Start` behind a `Stop` leaves the list, and the next packet sets the latest number anew, which may be behind it;
* `SetNackSettings` lowers the limits, and `UpdateNackList` asks for them only when numbers have been added.
-/

namespace WebRtc.Jitter

/-! ## What has been received -/

/-- The places of the packets that have been accepted, and of the latest number. Numbers come again, places do not. -/
structure Received where
  newest : Int := 0
  accepted : List Int := []
deriving DecidableEq, Repr

namespace Received

variable (r : Received)

/-- The place of `n`, where `latest` is the latest number. -/
def place (latest n : UInt16) : Int := r.newest - behind latest n

/-- The latest number goes on to `latest'`. -/
def advance (latest latest' : UInt16) : Received := { r with newest := r.newest + behind latest' latest }

/-- A packet is accepted. -/
def accept (latest number : UInt16) : Received := { r with accepted := r.place latest number :: r.accepted }

/-- The latest number goes on, and a packet is accepted. -/
def next (latest latest' number : UInt16) : Received := (r.advance latest latest').accept latest' number

@[simp] theorem advance_self (latest : UInt16) : r.advance latest latest = r := by
  simp [advance]

theorem advance_advance {a b c : UInt16} (h : behind c b + behind b a < 65536) :
    (r.advance a b).advance b c = r.advance a c := by
  unfold advance
  rw [behind_trans h]
  push_cast
  rw [Int.add_assoc, Int.add_comm (behind b a : Int)]

theorem place_advance {latest latest' n : UInt16} (h : behind latest' latest + behind latest n < 65536) :
    (r.advance latest latest').place latest' n = r.place latest n := by
  unfold advance place
  rw [behind_trans h]
  push_cast
  omega

variable {r}

/-- What has been accepted is not ahead of the latest number. -/
theorem next_le (haccepted : ∀ m ∈ r.accepted, m ≤ r.newest) (latest latest' number : UInt16) :
    ∀ m ∈ (r.next latest latest' number).accepted, m ≤ (r.next latest latest' number).newest := by
  intro m hm
  rcases List.mem_cons.1 hm with rfl | hm
  · show r.newest + (behind _ _ : Int) - (behind _ _ : Int) ≤ r.newest + (behind _ _ : Int)
    omega
  · have hle := haccepted m hm
    show m ≤ r.newest + (behind _ _ : Int)
    omega

/-- A number behind the one that is accepted has not been accepted with it. -/
theorem mem_next {latest number n : UInt16} (hn : 0 < behind number n)
    (h : (r.next latest number number).place number n ∈ (r.next latest number number).accepted) :
    (r.advance latest number).place number n ∈ r.accepted := by
  rcases List.mem_cons.1 h with hsame | h
  · have heq : r.newest + (behind number latest : Int) - (behind number n : Int) =
        r.newest + (behind number latest : Int) - (behind number number : Int) := hsame
    rw [behind_self] at heq
    omega
  · exact h

end Received

/-- What has been received behind a call that has been made in `s`. -/
def VCMJitterBuffer.Outcome.received (o : Outcome) (s : VCMJitterBuffer) (r : Received) : Received :=
  match o.accepted with
  | none => r
  | some number => r.next s.latestReceivedSequenceNumber o.buffer.latestReceivedSequenceNumber number

/-- No number on the list is at or before the one that has been decoded last, is newer than the latest one, or has the
place of one that has been accepted. -/
structure Kept (s : VCMJitterBuffer) (r : Received) : Prop where
  decoded : s.lastDecodedState.inInitialState = false →
    ∀ n ∈ s.missingSequenceNumbers, isNewerSequenceNumber n s.lastDecodedState.sequenceNum = true
  latest : ∀ n ∈ s.missingSequenceNumbers, isNewerSequenceNumber s.latestReceivedSequenceNumber n = true
  accepted : ∀ n ∈ s.missingSequenceNumbers, r.place s.latestReceivedSequenceNumber n ∉ r.accepted

instance (s : VCMJitterBuffer) (r : Received) : Decidable (Kept s r) :=
  -- The numbers on the list are tried, and not all numbers there are.
  haveI : ∀ (P : UInt16 → Prop) [DecidablePred P], Decidable (∀ n ∈ s.missingSequenceNumbers, P n) :=
    fun P _ => List.decidableBAll P _
  decidable_of_iff
    ((s.lastDecodedState.inInitialState = false →
        ∀ n ∈ s.missingSequenceNumbers, isNewerSequenceNumber n s.lastDecodedState.sequenceNum = true) ∧
      (∀ n ∈ s.missingSequenceNumbers, isNewerSequenceNumber s.latestReceivedSequenceNumber n = true) ∧
      ∀ n ∈ s.missingSequenceNumbers, r.place s.latestReceivedSequenceNumber n ∉ r.accepted)
    ⟨fun h => ⟨h.1, h.2.1, h.2.2⟩, fun h => ⟨h.decoded, h.latest, h.accepted⟩⟩

/-- What holds of the list when `UpdateNackList` returns true. -/
def NackUpdate.WithinLimits (u : NackUpdate) : Prop :=
  u.result = true → u.missingSequenceNumbers.length ≤ u.maxNackListSize ∧
    ∀ n ∈ u.missingSequenceNumbers, isNewerSequenceNumber u.sequenceNumber n = true →
      behind u.sequenceNumber n ≤ u.maxPacketAgeToNack

namespace VCMJitterBuffer

variable (trees : Trees) (s : VCMJitterBuffer)

/-! ## The steps that keep it -/

/-- A number that is newer than the latest one is newer than all on the list: they are within half of the range. -/
def InRange (number : UInt16) : Prop :=
  isNewerSequenceNumber number s.latestReceivedSequenceNumber = true →
    ∀ n ∈ s.missingSequenceNumbers, isNewerSequenceNumber number n = true

instance (number : UInt16) : Decidable (s.InRange number) :=
  haveI := List.decidableBAll (fun n => isNewerSequenceNumber number n = true) s.missingSequenceNumbers
  inferInstanceAs (Decidable (_ → _))

/-- `InsertPacket` drops an empty frame, and numbers between the latest one and the packet have been added to the list,
or another one on it is at or before the last one of the frame. -/
def DropsOverMissing (number : UInt16) (bufferState : VCMFrameBufferEnum) (frame : BufferedFrame) : Prop :=
  bufferState = .incomplete ∧ frame.state = .stateEmpty ∧
    (s.lastDecodedState.updateEmptyFrame frame.toVCMFrameBuffer).2 = true ∧
    ((s.firstPacketSinceReset = false ∧ s.nackMode = .kNack ∧
        isNewerSequenceNumber number (s.skipDecoded.latestReceivedSequenceNumber + 1) = true) ∨
      ∃ n ∈ s.missingSequenceNumbers, n ≠ number ∧ isNewerSequenceNumber n (wrap16 frame.highSeqNum) = false)

instance (number : UInt16) (bufferState : VCMFrameBufferEnum) (frame : BufferedFrame) :
    Decidable (s.DropsOverMissing number bufferState frame) :=
  haveI := List.decidableBEx (fun n => n ≠ number ∧ isNewerSequenceNumber n (wrap16 frame.highSeqNum) = false)
    s.missingSequenceNumbers
  inferInstanceAs (Decidable (_ ∧ _))

/-- What is asked of a packet that is not old. -/
structure LegalPacket (number : UInt16) (bufferState : VCMFrameBufferEnum) (frame : BufferedFrame) : Prop where
  decoded : s.lastDecodedState.inInitialState = false → s.InRange s.lastDecodedState.sequenceNum ∧
    (isNewerSequenceNumber number s.skipDecoded.latestReceivedSequenceNumber = true →
      isNewerSequenceNumber number s.lastDecodedState.sequenceNum = true)
  first : s.firstPacketSinceReset = true → bufferState.positive = true → ∀ n ∈ s.missingSequenceNumbers,
    isNewerSequenceNumber number n = true ∧ behind number n ≤ s.maxPacketAgeToNack
  notDropped : s.lastDecodedState.inInitialState = false → ¬ s.DropsOverMissing number bufferState frame

instance (number : UInt16) (bufferState : VCMFrameBufferEnum) (frame : BufferedFrame) :
    Decidable (s.LegalPacket number bufferState frame) :=
  haveI := List.decidableBAll
    (fun n => isNewerSequenceNumber number n = true ∧ behind number n ≤ s.maxPacketAgeToNack) s.missingSequenceNumbers
  decidable_of_iff
    ((s.lastDecodedState.inInitialState = false → s.InRange s.lastDecodedState.sequenceNum ∧
        (isNewerSequenceNumber number s.skipDecoded.latestReceivedSequenceNumber = true →
          isNewerSequenceNumber number s.lastDecodedState.sequenceNum = true)) ∧
      (s.firstPacketSinceReset = true → bufferState.positive = true → ∀ n ∈ s.missingSequenceNumbers,
        isNewerSequenceNumber number n = true ∧ behind number n ≤ s.maxPacketAgeToNack) ∧
      (s.lastDecodedState.inInitialState = false → ¬ s.DropsOverMissing number bufferState frame))
    ⟨fun h => ⟨h.1, h.2.1, h.2.2⟩, fun h => ⟨h.decoded, h.first, h.notDropped⟩⟩

/-- What is asked of a call. -/
def Legal : Call → Prop
  | .insertPacket packet _ bufferState frame =>
    if s.lastDecodedState.isOld packet.timestamp then s.InRange packet.seqNum
    else s.LegalPacket packet.seqNum bufferState frame
  | .extractAndSetDecode _ | .cleanUpOldOrEmptyFrames =>
    ∀ frame ∈ s.decodableFrames ++ s.incompleteFrames, s.InRange (wrap16 frame.highSeqNum)
  | .setNackSettings maxNackListSize maxPacketAgeToNack _ =>
    s.missingSequenceNumbers.length ≤ maxNackListSize ∧ maxPacketAgeToNack < 32767 ∧
      ∀ n ∈ s.missingSequenceNumbers, behind s.latestReceivedSequenceNumber n ≤ maxPacketAgeToNack
  | _ => True

instance : (c : Call) → Decidable (s.Legal c)
  | .insertPacket packet _ bufferState frame =>
    inferInstanceAs (Decidable (if s.lastDecodedState.isOld packet.timestamp then s.InRange packet.seqNum
      else s.LegalPacket packet.seqNum bufferState frame))
  | .extractAndSetDecode _ | .cleanUpOldOrEmptyFrames =>
    inferInstanceAs (Decidable (∀ frame ∈ s.decodableFrames ++ s.incompleteFrames, s.InRange (wrap16 frame.highSeqNum)))
  | .setNackSettings _ maxPacketAgeToNack _ =>
    haveI := List.decidableBAll (fun n => behind s.latestReceivedSequenceNumber n ≤ maxPacketAgeToNack)
      s.missingSequenceNumbers
    inferInstanceAs (Decidable (_ ∧ _ ∧ _))
  | .getNackList | .setNackMode _ | .setDecodeErrorMode _ | .start | .stop | .flush => .isTrue trivial

/-- What carries `Kept`. -/
structure Tracks (s : VCMJitterBuffer) (r : Received) : Prop where
  listed : Listed s.latestReceivedSequenceNumber s.maxPacketAgeToNack s.missingSequenceNumbers
  age : s.maxPacketAgeToNack < 32767
  size : s.missingSequenceNumbers.length ≤ s.maxNackListSize
  mode : s.nackMode = .kNoNack → s.missingSequenceNumbers = []
  decoded : s.lastDecodedState.inInitialState = false →
    ∀ n ∈ s.missingSequenceNumbers, isNewerSequenceNumber n s.lastDecodedState.sequenceNum = true
  fresh : ∀ n ∈ s.missingSequenceNumbers, r.place s.latestReceivedSequenceNumber n ∉ r.accepted
  accepted_le : ∀ m ∈ r.accepted, m ≤ r.newest

end VCMJitterBuffer

section Steps
variable {trees : Trees} {s s' : VCMJitterBuffer} {r : Received}

namespace VCMJitterBuffer

theorem state_of_not_initial {state state' : VCMDecodingState} (h : state' = state ∨ state'.inInitialState = true)
    (hinitial : state'.inInitialState = false) : state' = state := by
  rcases h with hsame | hreset
  · exact hsame
  · rw [hreset] at hinitial
    exact absurd hinitial.symm Bool.false_ne_true

theorem Tracks.kept (h : Tracks s r) : Kept s r :=
  ⟨h.decoded, fun _ hn => h.listed.newer (Nat.lt_trans h.age (by omega)) hn, h.fresh⟩

/-- A state whose list is empty. -/
theorem Tracks.of_nil (hnil : s.missingSequenceNumbers = []) (hage : s.maxPacketAgeToNack < 32767)
    (haccepted : ∀ m ∈ r.accepted, m ≤ r.newest) : Tracks s r where
  listed := by
    rw [hnil]
    exact ⟨List.Pairwise.nil, List.forall_mem_nil _⟩
  age := hage
  size := by rw [hnil]; exact Nat.zero_le _
  mode := fun _ => hnil
  decoded := by
    rw [hnil]
    exact fun _ => List.forall_mem_nil _
  fresh := by
    rw [hnil]
    exact List.forall_mem_nil _
  accepted_le := haccepted

theorem Tracks.shrinks (h : Tracks s r) (hs : Shrinks s s') : Tracks s' r where
  listed := by
    rw [hs.latest, hs.age]
    exact h.listed.sublist hs.missing
  age := hs.age ▸ h.age
  size := by
    rw [hs.size]
    exact Nat.le_trans hs.missing.length_le h.size
  mode := by
    intro hmode
    have hnil := h.mode (hs.mode ▸ hmode)
    exact List.sublist_nil.1 (hnil ▸ hs.missing)
  decoded := by
    intro hinitial n hn
    have hsame := state_of_not_initial hs.decoded hinitial
    rw [hsame] at hinitial ⊢
    exact h.decoded hinitial n (hs.missing.subset hn)
  fresh := by
    intro n hn
    rw [hs.latest]
    exact h.fresh n (hs.missing.subset hn)
  accepted_le := h.accepted_le

/-- **Something is decoded**, and what is not newer is dropped. -/
theorem Tracks.decode (h : Tracks s r) (state : VCMDecodingState)
    (hrange : state.inInitialState = false → s.InRange state.sequenceNum ∨
      ∀ n ∈ s.missingSequenceNumbers, isNewerSequenceNumber n state.sequenceNum = true) :
    Tracks ({ s with lastDecodedState := state }.dropPacketsFromNackList trees state.sequenceNum) r := by
  have hsub : (s.missingSequenceNumbers.drop
    (trees.numbers.upperBound sequenceNumberLessThan state.sequenceNum s.missingSequenceNumbers)).Sublist
      s.missingSequenceNumbers := List.drop_sublist _ _
  constructor
  case listed => exact h.listed.sublist hsub
  case age => exact h.age
  case size => exact Nat.le_trans hsub.length_le h.size
  case mode => exact fun hmode => List.sublist_nil.1 (h.mode hmode ▸ hsub)
  case decoded =>
    intro hinitial n hn
    rcases hrange hinitial with hrange | hnewer
    · exact h.listed.upperBound_newer (Nat.lt_trans h.age (by omega)) hrange hn
    · exact hnewer n (hsub.subset hn)
  case fresh => exact fun n hn => h.fresh n (hsub.subset hn)
  case accepted_le => exact h.accepted_le

/-! ## `UpdateNackList` -/

theorem skipDecoded_same (s : VCMJitterBuffer) : s.skipDecoded.lastDecodedState = s.lastDecodedState ∧
    s.skipDecoded.missingSequenceNumbers = s.missingSequenceNumbers ∧ s.skipDecoded.nackMode = s.nackMode := by
  unfold VCMJitterBuffer.skipDecoded
  split <;> exact ⟨rfl, rfl, rfl⟩

/-- What has been decoded is not newer than the latest number then. -/
theorem Tracks.skipDecoded (h : Tracks s r)
    (hrange : s.lastDecodedState.inInitialState = false → s.InRange s.lastDecodedState.sequenceNum) :
    (s.skipDecoded.latestReceivedSequenceNumber = s.latestReceivedSequenceNumber ∨
        isNewerSequenceNumber s.skipDecoded.latestReceivedSequenceNumber s.latestReceivedSequenceNumber = true) ∧
      Tracks s.skipDecoded (r.advance s.latestReceivedSequenceNumber s.skipDecoded.latestReceivedSequenceNumber) := by
  unfold VCMJitterBuffer.skipDecoded
  by_cases hinitial : s.lastDecodedState.inInitialState = true
  · rw [if_pos hinitial, Received.advance_self]
    exact ⟨Or.inl rfl, h⟩
  rw [if_neg hinitial]
  rw [Bool.not_eq_true] at hinitial
  dsimp only
  unfold latestSequenceNumber
  by_cases holder : isNewerSequenceNumber s.latestReceivedSequenceNumber s.lastDecodedState.sequenceNum = true
  · rw [if_pos holder, Received.advance_self]
    exact ⟨Or.inl rfl, h⟩
  rw [if_neg holder]
  rw [Bool.not_eq_true] at holder
  by_cases hnewer : isNewerSequenceNumber s.lastDecodedState.sequenceNum s.latestReceivedSequenceNumber = true
  · refine ⟨Or.inr hnewer, ?_⟩
    have hnil : s.missingSequenceNumbers = [] := by
      rw [List.eq_nil_iff_forall_not_mem]
      intro n hn
      have hbefore := not_newer_both (hrange hinitial hnewer n hn)
      rw [h.decoded hinitial n hn] at hbefore
      exact absurd hbefore.symm Bool.false_ne_true
    refine Tracks.of_nil hnil h.age ?_
    intro m hm
    have hle := h.accepted_le m hm
    show m ≤ r.newest + behind _ _
    omega
  · rw [Bool.not_eq_true] at hnewer
    have hsame := eq_of_not_newer hnewer holder
    rw [hsame, Received.advance_self]
    exact ⟨Or.inl rfl, h⟩

variable (trees) in
/-- A number that is not newer than the latest one is taken off the list. -/
theorem Tracks.erase (h : Tracks s r) {number : UInt16}
    (hnumber : isNewerSequenceNumber number s.latestReceivedSequenceNumber = false) :
    Tracks { s with missingSequenceNumbers :=
        trees.numbers.erase sequenceNumberLessThan number s.missingSequenceNumbers }
      (r.accept s.latestReceivedSequenceNumber number) := by
  have hsub : (trees.numbers.erase sequenceNumberLessThan number s.missingSequenceNumbers).Sublist
      s.missingSequenceNumbers := Search.erase_sublist
  have hgone : number ∉ trees.numbers.erase sequenceNumberLessThan number s.missingSequenceNumbers :=
    h.listed.not_mem_erase (Nat.lt_trans h.age (by omega)) hnumber
  constructor
  case listed => exact h.listed.sublist hsub
  case age => exact h.age
  case size => exact Nat.le_trans hsub.length_le h.size
  case mode => exact fun hmode => List.sublist_nil.1 (h.mode hmode ▸ hsub)
  case decoded => exact fun hinitial n hn => h.decoded hinitial n (hsub.subset hn)
  case fresh =>
    intro n hn hmem
    rcases List.mem_cons.1 hmem with hplace | hmem
    · apply hgone
      have hsame : behind s.latestReceivedSequenceNumber n = behind s.latestReceivedSequenceNumber number := by
        have heq : r.newest - (behind s.latestReceivedSequenceNumber n : Int) =
          r.newest - behind s.latestReceivedSequenceNumber number := hplace
        omega
      have hnumbers : n = number := by
        have h1 := n.toNat_lt
        have h2 := number.toNat_lt
        have h3 := s.latestReceivedSequenceNumber.toNat_lt
        rw [behind, behind, UInt16.toNat_sub, UInt16.toNat_sub] at hsame
        apply UInt16.toNat_inj.1
        omega
      exact hnumbers ▸ hn
    · exact h.fresh n (hsub.subset hn) hmem
  case accepted_le =>
    intro m hm
    rcases List.mem_cons.1 hm with rfl | hm
    · show r.newest - (behind _ _ : Int) ≤ r.newest
      omega
    · exact h.accepted_le m hm

/-- The numbers between the latest one and a new one are behind what has been decoded, as the new one is. -/
theorem newer_than_decoded {latest number decoded n : UInt16} (hbefore : isNewerSequenceNumber decoded latest = false)
    (hafter : isNewerSequenceNumber number decoded = true) (hgap : behind number latest ≤ 32768)
    (hn : 0 < behind number n ∧ behind number n ≤ behind number latest - 1) :
    isNewerSequenceNumber n decoded = true := by
  have hle := behind_of_not_newer hbefore
  obtain ⟨h0, h1⟩ := behind_of_newer hafter
  have hsum : behind number decoded = behind number latest + behind latest decoded := by
    by_cases haround : behind number latest + behind latest decoded < 65536
    · exact behind_trans haround
    · have hfull : behind number latest = 32768 ∧ behind latest decoded = 32768 := by omega
      have h2 := number.toNat_lt
      have h3 := latest.toNat_lt
      have h4 := decoded.toNat_lt
      unfold behind at *
      rw [UInt16.toNat_sub] at *
      rw [UInt16.toNat_sub] at *
      rw [UInt16.toNat_sub] at *
      omega
  exact (@newer_iff_behind number n decoded (by omega) (by omega)).2 (by omega)

/-- When the oldest number is not too old, none is. -/
theorem young_of_missingTooOld {number : UInt16}
    (hsorted : s.missingSequenceNumbers.Pairwise fun a b => behind number b < behind number a)
    (hyoung : s.missingTooOldPacket number = false) :
    ∀ n ∈ s.missingSequenceNumbers, behind number n ≤ s.maxPacketAgeToNack := by
  intro n hn
  unfold missingTooOldPacket at hyoung
  cases hlist : s.missingSequenceNumbers with
  | nil =>
    rw [hlist] at hn
    cases hn
  | cons oldest rest =>
    rw [hlist] at hyoung hsorted hn
    dsimp only at hyoung
    rw [decide_eq_false_iff_not, Nat.not_lt] at hyoung
    have hoverall : behind number n ≤ behind number oldest := by
      rcases List.mem_cons.1 hn with rfl | hn
      · exact Nat.le_refl _
      · exact Nat.le_of_lt (List.rel_of_pairwise_cons hsorted hn)
    exact Nat.le_trans hoverall hyoung

/-- A number ahead: the numbers in between are put on the list, and it is made small and young enough. -/
theorem Tracks.push (h : Tracks s r) (hmode : s.nackMode ≠ .kNoNack) {number : UInt16}
    (hnumber : isNewerSequenceNumber number s.latestReceivedSequenceNumber = true)
    (hdecoded : s.lastDecodedState.inInitialState = false →
      isNewerSequenceNumber s.lastDecodedState.sequenceNum s.latestReceivedSequenceNumber = false ∧
        isNewerSequenceNumber number s.lastDecodedState.sequenceNum = true)
    (hs : Shrinks { s with missingSequenceNumbers :=
      s.missingSequenceNumbers ++ upTo number (behind number s.latestReceivedSequenceNumber - 1) } s')
    (hsmall : s'.tooLargeNackList = false) (hyoung : s'.missingTooOldPacket number = false) :
    Tracks { s' with latestReceivedSequenceNumber := number } (r.next s.latestReceivedSequenceNumber number number) ∧
      ∀ n ∈ s'.missingSequenceNumbers, behind number n ≤ s'.maxPacketAgeToNack := by
  obtain ⟨hgap0, hgap1⟩ := behind_of_newer hnumber
  obtain ⟨hsorted, hbehind⟩ := h.listed.append_upTo h.age hnumber
  have hage : s'.maxPacketAgeToNack = s.maxPacketAgeToNack := hs.age
  have hyoungAll := young_of_missingTooOld (hsorted.sublist hs.missing) hyoung
  refine ⟨?_, hyoungAll⟩
  constructor
  case listed =>
    exact ⟨hsorted.sublist hs.missing, fun n hn => ⟨hbehind n (hs.missing.subset hn), hyoungAll n hn⟩⟩
  case age => exact hage ▸ h.age
  case size =>
    rw [tooLargeNackList, decide_eq_false_iff_not, Nat.not_lt] at hsmall
    exact hsmall
  case mode => exact fun hno => absurd (hs.mode ▸ hno) hmode
  case decoded =>
    intro hinitial n hn
    have hsame := state_of_not_initial hs.decoded hinitial
    dsimp only at hinitial hsame ⊢
    rw [hsame] at hinitial ⊢
    rcases List.mem_append.1 (hs.missing.subset hn) with hn | hn
    · exact h.decoded hinitial n hn
    · obtain ⟨hbefore, hafter⟩ := hdecoded hinitial
      exact newer_than_decoded hbefore hafter hgap1 (mem_upTo (by omega) hn)
  case fresh =>
    intro n hn hmem
    have hbefore := Received.mem_next (hbehind n (hs.missing.subset hn)) hmem
    rcases List.mem_append.1 (hs.missing.subset hn) with hn | hn
    · have hn' := h.listed.near n hn
      have hage' := h.age
      apply h.fresh n hn
      rw [← @Received.place_advance r s.latestReceivedSequenceNumber number n (by omega)]
      exact hbefore
    · have hn' := mem_upTo (show behind number s.latestReceivedSequenceNumber - 1 < 65536 by omega) hn
      have hle : r.newest + (behind number s.latestReceivedSequenceNumber : Int) - (behind number n : Int) ≤
          r.newest := h.accepted_le _ hbefore
      omega
  case accepted_le => exact Received.next_le h.accepted_le _ _ _

/-- What a call of `UpdateNackList` leaves. -/
structure Updates (trees : Trees) (s : VCMJitterBuffer) (r : Received) (number : UInt16) (s' : VCMJitterBuffer)
    (result : Bool) : Prop where
  tracks : Tracks
    { s' with latestReceivedSequenceNumber := latestSequenceNumber s'.latestReceivedSequenceNumber number }
    (r.next s.latestReceivedSequenceNumber (latestSequenceNumber s'.latestReceivedSequenceNumber number) number)
  limits : NackUpdate.WithinLimits
    ⟨number, result, s'.missingSequenceNumbers, s'.maxNackListSize, s'.maxPacketAgeToNack⟩
  decoded : s'.lastDecodedState = s.lastDecodedState ∨ s'.lastDecodedState.inInitialState = true
  missing : ∀ n ∈ s'.missingSequenceNumbers, n ∈ s.missingSequenceNumbers ∧ n ≠ number ∨
    s.nackMode = .kNack ∧ isNewerSequenceNumber number (s.skipDecoded.latestReceivedSequenceNumber + 1) = true

/-- The loop of `UpdateNackList`. -/
theorem Tracks.pushMissing (h : Tracks s r) {number : UInt16}
    (hnumber : isNewerSequenceNumber number s.latestReceivedSequenceNumber = true) :
    VCMJitterBuffer.pushMissing trees.numbers number 65536 (s.latestReceivedSequenceNumber + 1)
        s.missingSequenceNumbers =
      some (s.missingSequenceNumbers ++ upTo number (behind number s.latestReceivedSequenceNumber - 1)) := by
  obtain ⟨hgap0, hgap1⟩ := behind_of_newer hnumber
  have hage := h.age
  refine pushMissing_eq (behind_next hgap0) (by omega) (by omega) ?_
  intro last hlast
  have hnear := h.listed.near last (List.mem_of_getLast? hlast)
  have hone : behind (s.latestReceivedSequenceNumber + 1) s.latestReceivedSequenceNumber = 1 := by
    have h1 := s.latestReceivedSequenceNumber.toNat_lt
    have h2 : (1 : UInt16).toNat = 1 := rfl
    rw [behind, UInt16.toNat_sub, UInt16.toNat_add, h2]
    omega
  have hbehind : behind (s.latestReceivedSequenceNumber + 1) last =
      1 + behind s.latestReceivedSequenceNumber last := by
    rw [@behind_trans s.latestReceivedSequenceNumber _ last (by omega), hone]
  refine (@newer_iff_behind (s.latestReceivedSequenceNumber + 1) _ last ?_ ?_).2 ?_
  all_goals rw [hbehind, behind_self]; omega

variable (trees) in
theorem Tracks.update (h : Tracks s r) {number : UInt16}
    (hlegal : s.lastDecodedState.inInitialState = false → s.InRange s.lastDecodedState.sequenceNum ∧
      (isNewerSequenceNumber number s.skipDecoded.latestReceivedSequenceNumber = true →
        isNewerSequenceNumber number s.lastDecodedState.sequenceNum = true)) :
    ∃ s' result, s.updateNackList trees number = some (s', result) ∧ Updates trees s r number s' result := by
  unfold updateNackList
  by_cases hmode : s.nackMode = .kNoNack
  · rw [if_pos hmode]
    have hnil := h.mode hmode
    refine ⟨s, true, rfl, ?_, ?_, Or.inl rfl, ?_⟩
    · exact Tracks.of_nil hnil h.age (Received.next_le h.accepted_le _ _ _)
    · rintro -
      dsimp only
      rw [hnil]
      exact ⟨Nat.zero_le _, List.forall_mem_nil _⟩
    · rw [hnil]
      exact List.forall_mem_nil _
  rw [if_neg hmode]
  obtain ⟨hahead, ht⟩ := h.skipDecoded fun hinitial => (hlegal hinitial).1
  obtain ⟨hstate, hmissing, hmodes⟩ := skipDecoded_same s
  have hage : s.skipDecoded.maxPacketAgeToNack < 32768 := Nat.lt_trans ht.age (by omega)
  have hbefore : s.lastDecodedState.inInitialState = false →
      isNewerSequenceNumber s.lastDecodedState.sequenceNum s.skipDecoded.latestReceivedSequenceNumber = false := by
    intro hinitial
    unfold VCMJitterBuffer.skipDecoded
    rw [if_neg (by simp [hinitial])]
    exact not_newer_latest _ _
  dsimp only
  by_cases hnewer : isNewerSequenceNumber number s.skipDecoded.latestReceivedSequenceNumber = true
  · rw [if_pos hnewer]
    rw [ht.pushMissing hnewer, Option.bind_some]
    obtain ⟨s', found, hlimit, hs, hsmall, hyoung⟩ := limitNackList_spec trees { s.skipDecoded with
      missingSequenceNumbers := s.skipDecoded.missingSequenceNumbers ++
        upTo number (behind number s.skipDecoded.latestReceivedSequenceNumber - 1) } number
    have hlatest : latestSequenceNumber s'.latestReceivedSequenceNumber number = number := by
      rw [hs.latest]
      exact latest_of_newer hnewer
    obtain ⟨htracks, hyoungAll⟩ := ht.push (hmodes ▸ hmode) hnewer (fun hinitial => by
      rw [hstate] at hinitial ⊢
      exact ⟨hbefore hinitial, (hlegal hinitial).2 hnewer⟩) hs hsmall hyoung
    refine ⟨s', found, hlimit, ?_, fun _ => ⟨htracks.size, fun n hn _ => hyoungAll n hn⟩, hstate ▸ hs.decoded, ?_⟩
    · unfold Received.next
      rw [hlatest, ← @Received.advance_advance r _ s.skipDecoded.latestReceivedSequenceNumber]
      · exact htracks
      · exact behind_newer_newer hahead hnewer
    · intro n hn
      rcases ht.listed.mem_append_upTo hage hnewer (hs.missing.subset hn) with hlisted | hgap
      · exact Or.inl (hmissing ▸ hlisted)
      · have hkNack : s.nackMode = .kNack := by
          cases hwhich : s.nackMode with
          | kNack => rfl
          | kNoNack => exact absurd hwhich hmode
        exact Or.inr ⟨hkNack, hgap⟩
  · rw [if_neg hnewer]
    rw [Bool.not_eq_true] at hnewer
    have htracks := ht.erase trees hnewer
    refine ⟨_, true, rfl, ?_, ?_, Or.inl hstate, ?_⟩
    · dsimp only
      rw [latest_of_not_newer hnewer]
      exact htracks
    · exact fun _ => ⟨htracks.size, fun n hn hnumber =>
        ht.listed.near_of_newer hage hnewer (Search.erase_sublist.subset hn) hnumber⟩
    · intro n hn
      left
      refine ⟨hmissing ▸ Search.erase_sublist.subset hn, ?_⟩
      rintro rfl
      exact ht.listed.not_mem_erase hage hnewer hn

/-! ## Where a frame goes -/

theorem updateEmptyFrame_spec (state : VCMDecodingState) (frame : VCMFrameBuffer) :
    (state.updateEmptyFrame frame).1.inInitialState = state.inInitialState ∧
      ((state.updateEmptyFrame frame).1.sequenceNum = state.sequenceNum ∨
        (state.updateEmptyFrame frame).1.sequenceNum = wrap16 frame.highSeqNum) := by
  unfold VCMDecodingState.updateEmptyFrame
  dsimp only
  split
  · exact ⟨rfl, Or.inl rfl⟩
  · split
    · exact ⟨rfl, Or.inr rfl⟩
    · exact ⟨rfl, Or.inl rfl⟩

/-- The lists of frames change, or an empty frame is dropped. -/
theorem placeFrame_cases (trees : Trees) (s : VCMJitterBuffer) (list : Option ListName)
    (bufferState : VCMFrameBufferEnum) (frame : BufferedFrame) :
    (∃ incompleteFrames decodableFrames,
      s.placeFrame trees list bufferState frame = { s with incompleteFrames, decodableFrames }) ∨
      bufferState = .incomplete ∧ frame.state = .stateEmpty ∧
        (s.lastDecodedState.updateEmptyFrame frame.toVCMFrameBuffer).2 = true ∧
        s.placeFrame trees list bufferState frame =
          { s with lastDecodedState := (s.lastDecodedState.updateEmptyFrame frame.toVCMFrameBuffer).1 } := by
  have hcontinuous : ∃ incompleteFrames decodableFrames,
      (if s.isContinuous frame then (s.insertDecodable trees frame).findAndInsertContinuousFrames trees frame
        else s.insertIncomplete trees frame) = { s with incompleteFrames, decodableFrames } := by
    split <;> exact ⟨_, _, rfl⟩
  cases bufferState with
  | completeSession | decodableSession => exact Or.inl hcontinuous
  | noError | outOfBoundsPacket | duplicatePacket =>
    left
    cases list with
    | none => exact ⟨_, _, rfl⟩
    | some name => cases name <;> exact ⟨_, _, rfl⟩
  | incomplete =>
    by_cases hdropped : (frame.state = .stateEmpty && (s.lastDecodedState.updateEmptyFrame
      frame.toVCMFrameBuffer).2) = true
    · have hparts := hdropped
      rw [Bool.and_eq_true, decide_eq_true_eq] at hparts
      exact Or.inr ⟨rfl, hparts.1, hparts.2, if_pos hdropped⟩
    · exact Or.inl ⟨_, _, if_neg hdropped⟩
  | _ => exact Or.inl ⟨_, _, rfl⟩

variable (trees) in
theorem Tracks.placeFrame (h : Tracks s r) (list : Option ListName) (bufferState : VCMFrameBufferEnum)
    (frame : BufferedFrame)
    (hdropped : s.lastDecodedState.inInitialState = false → bufferState = .incomplete → frame.state = .stateEmpty →
      (s.lastDecodedState.updateEmptyFrame frame.toVCMFrameBuffer).2 = true →
        ∀ n ∈ s.missingSequenceNumbers, isNewerSequenceNumber n (wrap16 frame.highSeqNum) = true) :
    Tracks (s.placeFrame trees list bufferState frame) r ∧
      (s.placeFrame trees list bufferState frame).latestReceivedSequenceNumber = s.latestReceivedSequenceNumber := by
  rcases placeFrame_cases trees s list bufferState frame with
    ⟨incompleteFrames, decodableFrames, hplaced⟩ | ⟨hincomplete, hempty, hgone, hplaced⟩
  · rw [hplaced]
    exact ⟨h.shrinks (Shrinks.same rfl (Or.inl rfl) rfl rfl rfl rfl rfl), rfl⟩
  · rw [hplaced]
    refine ⟨⟨h.listed, h.age, h.size, h.mode, ?_, h.fresh, h.accepted_le⟩, rfl⟩
    intro hinitial n hn
    obtain ⟨hsame, hnumber⟩ := updateEmptyFrame_spec s.lastDecodedState frame.toVCMFrameBuffer
    dsimp only at hinitial ⊢
    rw [hsame] at hinitial
    rcases hnumber with hnumber | hnumber
    · rw [hnumber]
      exact h.decoded hinitial n hn
    · rw [hnumber]
      exact hdropped hinitial hincomplete hempty hgone n hn

/-! ## A packet -/

theorem getFrame_shrinks (timestamp : UInt32) (emptyFrame : Bool) :
    Shrinks s (s.getFrame trees timestamp emptyFrame).1 := by
  have hsame : ∀ incompleteFrames decodableFrames : FrameList,
      Shrinks s { s with incompleteFrames, decodableFrames } :=
    fun _ _ => Shrinks.same rfl (Or.inl rfl) rfl rfl rfl rfl rfl
  unfold VCMJitterBuffer.getFrame
  cases FrameList.popFrame trees.frames timestamp s.incompleteFrames with
  | some found => exact hsame _ _
  | none =>
    cases FrameList.popFrame trees.frames timestamp s.decodableFrames with
    | some found => exact hsame _ _
    | none =>
      dsimp only
      split
      · exact Shrinks.refl s
      · split <;> exact recycle_shrinks

theorem LegalPacket.shrinks {number : UInt16} {bufferState : VCMFrameBufferEnum} {frame : BufferedFrame}
    (h : s.LegalPacket number bufferState frame) (hs : Shrinks s s') : s'.LegalPacket number bufferState frame := by
  have hstate := state_of_not_initial hs.decoded
  have hskip : s'.lastDecodedState = s.lastDecodedState →
      s'.skipDecoded.latestReceivedSequenceNumber = s.skipDecoded.latestReceivedSequenceNumber := by
    intro hsame
    unfold VCMJitterBuffer.skipDecoded
    rw [hsame, hs.latest]
    split
    · exact hs.latest
    · rfl
  constructor
  case decoded =>
    intro hinitial
    have hsame := hstate hinitial
    rw [hsame] at hinitial ⊢
    rw [hskip hsame]
    obtain ⟨hrange, hnumber⟩ := h.decoded hinitial
    refine ⟨?_, hnumber⟩
    intro hnewer n hn
    rw [hs.latest] at hnewer
    exact hrange hnewer n (hs.missing.subset hn)
  case first =>
    intro hfirst hpositive n hn
    rw [hs.age]
    exact h.first (hs.first ▸ hfirst) hpositive n (hs.missing.subset hn)
  case notDropped =>
    intro hinitial hdrops
    have hsame := hstate hinitial
    rw [hsame] at hinitial
    apply h.notDropped hinitial
    obtain ⟨hincomplete, hempty, hgone, hover⟩ := hdrops
    rw [hsame] at hgone
    rw [hskip hsame, hs.first, hs.mode] at hover
    refine ⟨hincomplete, hempty, hgone, ?_⟩
    rcases hover with hgap | ⟨n, hn, hrest⟩
    · exact Or.inl hgap
    · exact Or.inr ⟨n, hs.missing.subset hn, hrest⟩

/-- The latest number is set anew. -/
theorem Tracks.first (h : Tracks s r) {number : UInt16} (hnear : ∀ n ∈ s.missingSequenceNumbers,
      isNewerSequenceNumber number n = true ∧ behind number n ≤ s.maxPacketAgeToNack) :
    Tracks { s with latestReceivedSequenceNumber := number, firstPacketSinceReset := false }
      (r.next s.latestReceivedSequenceNumber number number) := by
  have hage := h.age
  refine ⟨h.listed.again (by omega) hnear, h.age, h.size, h.mode, h.decoded, ?_, Received.next_le h.accepted_le _ _ _⟩
  intro n hn hmem
  obtain ⟨hnewer0, hnewer1⟩ := behind_of_newer (hnear n hn).1
  have hlisted := h.listed.near n hn
  have hbefore := Received.mem_next hnewer0 hmem
  by_cases hahead : behind number s.latestReceivedSequenceNumber + behind s.latestReceivedSequenceNumber n < 65536
  · apply h.fresh n hn
    rw [← @Received.place_advance r s.latestReceivedSequenceNumber number n hahead]
    exact hbefore
  · -- The numbers go around, so `n` is ahead of all that has been accepted.
    have hle : r.newest + (behind number s.latestReceivedSequenceNumber : Int) - (behind number n : Int) ≤
        r.newest := h.accepted_le _ hbefore
    omega

/-- What a call returns is kept, and within the limits. -/
structure Good (s : VCMJitterBuffer) (r : Received) (o : Outcome) : Prop where
  tracks : Tracks o.buffer (o.received s r)
  limits : ∀ u, o.update = some u → u.WithinLimits

/-- An empty frame that is dropped behind the call of `UpdateNackList` is before all that is missing. -/
theorem Updates.notDropped {number : UInt16} {result : Bool} {bufferState : VCMFrameBufferEnum} {frame : BufferedFrame}
    (h : Updates trees s r number s' result) (hlegal : s.LegalPacket number bufferState frame)
    (hfirst : s.firstPacketSinceReset = false) {flush : Bool}
    (hinitial : s'.lastDecodedState.inInitialState = false)
    (hincomplete : (if flush then VCMFrameBufferEnum.flushIndicator else bufferState) = .incomplete)
    (hempty : frame.state = .stateEmpty)
    (hgone : (s'.lastDecodedState.updateEmptyFrame frame.toVCMFrameBuffer).2 = true) :
    ∀ n ∈ s'.missingSequenceNumbers, isNewerSequenceNumber n (wrap16 frame.highSeqNum) = true := by
  have hsame := state_of_not_initial h.decoded hinitial
  have hstate : bufferState = .incomplete := by
    split at hincomplete
    · cases hincomplete
    · exact hincomplete
  rw [hsame] at hinitial hgone
  intro n hn
  by_contra holder
  rw [Bool.not_eq_true] at holder
  apply hlegal.notDropped hinitial
  refine ⟨hstate, hempty, hgone, ?_⟩
  rcases h.missing n hn with ⟨hlisted, hother⟩ | hgap
  · exact Or.inr ⟨n, hlisted, hother, holder⟩
  · exact Or.inl ⟨hfirst, hgap⟩

variable (trees) in
/-- From the insertion into the frame on. -/
theorem Tracks.insertIntoFrame (h : Tracks s r) {packet : ReceivedPacket} {bufferState : VCMFrameBufferEnum}
    {frame : BufferedFrame} (hlegal : s.LegalPacket packet.seqNum bufferState frame) (list : Option ListName) :
    ∃ o, s.insertIntoFrame trees packet list bufferState frame = some o ∧ Good s r o := by
  unfold VCMJitterBuffer.insertIntoFrame
  by_cases hpositive : bufferState.positive = true
  · rw [if_pos hpositive]
    by_cases hfirst : s.firstPacketSinceReset = true
    · rw [if_pos hfirst]
      have hnear := hlegal.first hfirst hpositive
      refine ⟨_, rfl, ?_, fun u hu => by cases hu⟩
      obtain ⟨hplaced, hlatest⟩ := (h.first hnear).placeFrame trees list bufferState frame
        fun hinitial hincomplete hempty hgone n hn => by
          by_contra holder
          rw [Bool.not_eq_true] at holder
          have hother : n ≠ packet.seqNum := by
            rintro rfl
            exact absurd (behind_of_newer (hnear _ hn).1).1 (by rw [behind_self]; exact Nat.lt_irrefl 0)
          exact hlegal.notDropped hinitial ⟨hincomplete, hempty, hgone, Or.inr ⟨n, hn, hother, holder⟩⟩
      unfold Outcome.received
      dsimp only
      rw [hlatest]
      exact hplaced
    · rw [if_neg hfirst]
      obtain ⟨s₁, result, hupdate, hs₁⟩ := h.update trees hlegal.decoded
      rw [hupdate, Option.map_some]
      refine ⟨_, rfl, ?_, ?_⟩
      · obtain ⟨hplaced, hlatest⟩ := hs₁.tracks.placeFrame trees list
          (if !result && packet.frameType ≠ .videoFrameKey then .flushIndicator else bufferState) frame
          (hs₁.notDropped hlegal (Bool.not_eq_true _ ▸ hfirst))
        unfold Outcome.received
        dsimp only at hplaced hlatest ⊢
        rw [hlatest]
        exact hplaced
      · rintro u hu
        cases hu
        exact hs₁.limits
  · rw [if_neg hpositive]
    refine ⟨_, rfl, ?_, fun u hu => by cases hu⟩
    refine (h.placeFrame trees list bufferState frame ?_).1
    intro _ hincomplete
    rw [hincomplete] at hpositive
    exact absurd rfl hpositive

/-- The number is the packet's or what it has been. -/
theorem Tracks.decodeOld (h : Tracks s r) {packet : ReceivedPacket} (hrange : s.InRange packet.seqNum) :
    Tracks ({ s with lastDecodedState := s.lastDecodedState.updateOldPacket packet }.dropPacketsFromNackList
        trees (s.lastDecodedState.updateOldPacket packet).sequenceNum) r := by
  refine h.decode _ ?_
  intro hinitial
  have hstill : s.lastDecodedState.inInitialState = false := by
    rw [← hinitial]
    unfold VCMDecodingState.updateOldPacket
    split <;> rfl
  have hkept := h.decoded hstill
  unfold VCMDecodingState.updateOldPacket
  split
  · dsimp only
    unfold latestSequenceNumber
    split
    · exact Or.inl hrange
    · exact Or.inr hkept
  · exact Or.inr hkept

theorem Tracks.insertOldPacket (h : Tracks s r) {packet : ReceivedPacket} (hrange : s.InRange packet.seqNum) :
    Tracks (s.insertOldPacket trees packet) r := by
  obtain ⟨counted, hcounted⟩ : ∃ n, (if packet.data.length > 0 then
      { s with numConsecutiveOldPackets := s.numConsecutiveOldPackets + 1 } else s) =
        { s with numConsecutiveOldPackets := n } := by
    split <;> exact ⟨_, rfl⟩
  unfold VCMJitterBuffer.insertOldPacket
  rw [hcounted]
  have hdropped := @Tracks.decodeOld trees { s with numConsecutiveOldPackets := counted } r
    (h.shrinks (Shrinks.same rfl (Or.inl rfl) rfl rfl rfl rfl rfl)) packet hrange
  dsimp only at hdropped ⊢
  split
  · exact Tracks.of_nil rfl hdropped.age h.accepted_le
  · exact hdropped.shrinks (Shrinks.same rfl (Or.inl rfl) rfl rfl rfl rfl rfl)

theorem Tracks.insertPacket (h : Tracks s r) {packet : ReceivedPacket} {emptyFrame : Bool}
    {bufferState : VCMFrameBufferEnum} {frame : BufferedFrame}
    (hlegal : if s.lastDecodedState.isOld packet.timestamp then s.InRange packet.seqNum
      else s.LegalPacket packet.seqNum bufferState frame) :
    ∃ o, s.insertPacket trees packet emptyFrame bufferState frame = some o ∧ Good s r o := by
  unfold VCMJitterBuffer.insertPacket
  by_cases hold : s.lastDecodedState.isOld packet.timestamp = true
  · rw [if_pos hold] at hlegal ⊢
    exact ⟨_, rfl, h.insertOldPacket hlegal, fun u hu => by cases hu⟩
  · rw [if_neg hold] at hlegal ⊢
    have hcounted : Shrinks s { s with numConsecutiveOldPackets := 0 } :=
      Shrinks.same rfl (Or.inl rfl) rfl rfl rfl rfl rfl
    have hs : Shrinks s ({ s with numConsecutiveOldPackets := 0 }.getFrame trees packet.timestamp emptyFrame).1 :=
      hcounted.trans (getFrame_shrinks _ _)
    generalize { s with numConsecutiveOldPackets := 0 }.getFrame trees packet.timestamp emptyFrame = got at hs
    obtain ⟨s₁, list⟩ := got
    cases list with
    | none => exact ⟨_, rfl, h.shrinks hs, fun u hu => by cases hu⟩
    | some list =>
      obtain ⟨o, ho, hgood⟩ := (h.shrinks hs).insertIntoFrame trees (hlegal.shrinks hs) list
      refine ⟨o, ho, ?_, hgood.limits⟩
      have htracks := hgood.tracks
      unfold Outcome.received at htracks ⊢
      rw [hs.latest] at htracks
      exact htracks

/-! ## The other calls -/

theorem cleanUp_state (state : VCMDecodingState) (l : FrameList) :
    (FrameList.cleanUpOldOrEmptyFrames state l).1.inInitialState = state.inInitialState ∧
      ((FrameList.cleanUpOldOrEmptyFrames state l).1.sequenceNum = state.sequenceNum ∨
        ∃ frame ∈ l, (FrameList.cleanUpOldOrEmptyFrames state l).1.sequenceNum = wrap16 frame.highSeqNum) := by
  induction l generalizing state with
  | nil => exact ⟨rfl, Or.inl rfl⟩
  | cons oldest rest ih =>
    unfold FrameList.cleanUpOldOrEmptyFrames
    obtain ⟨updated, removeFrame, hupdated, hinitial, hnumber⟩ : ∃ updated removeFrame,
        (if oldest.state = .stateEmpty ∧ rest ≠ [] then state.updateEmptyFrame oldest.toVCMFrameBuffer
          else (state, state.isOld oldest.timeStamp)) = (updated, removeFrame) ∧
          updated.inInitialState = state.inInitialState ∧
          (updated.sequenceNum = state.sequenceNum ∨ updated.sequenceNum = wrap16 oldest.highSeqNum) := by
      split
      · obtain ⟨hinitial, hnumber⟩ := updateEmptyFrame_spec state oldest.toVCMFrameBuffer
        exact ⟨_, _, rfl, hinitial, hnumber⟩
      · exact ⟨_, _, rfl, rfl, Or.inl rfl⟩
    rw [hupdated]
    dsimp only
    have hfirst : updated.sequenceNum = state.sequenceNum ∨
        ∃ frame ∈ oldest :: rest, updated.sequenceNum = wrap16 frame.highSeqNum := by
      rcases hnumber with hnumber | hnumber
      · exact Or.inl hnumber
      · exact Or.inr ⟨oldest, List.mem_cons_self, hnumber⟩
    split
    · obtain ⟨hrest, hrestNumber⟩ := ih updated
      refine ⟨hrest.trans hinitial, ?_⟩
      rcases hrestNumber with hrestNumber | ⟨frame, hframe, hrestNumber⟩
      · rw [hrestNumber]
        exact hfirst
      · exact Or.inr ⟨frame, List.mem_cons_of_mem _ hframe, hrestNumber⟩
    · exact ⟨hinitial, hfirst⟩

theorem Tracks.cleanUpOldOrEmptyFrames (h : Tracks s r)
    (hrange : ∀ frame ∈ s.decodableFrames ++ s.incompleteFrames, s.InRange (wrap16 frame.highSeqNum)) :
    Tracks (s.cleanUpOldOrEmptyFrames trees) r := by
  unfold VCMJitterBuffer.cleanUpOldOrEmptyFrames
  obtain ⟨hinitial₁, hnumber₁⟩ := cleanUp_state s.lastDecodedState s.decodableFrames
  generalize FrameList.cleanUpOldOrEmptyFrames s.lastDecodedState s.decodableFrames = first at *
  obtain ⟨state₁, decodable⟩ := first
  obtain ⟨hinitial₂, hnumber₂⟩ := cleanUp_state state₁ s.incompleteFrames
  dsimp only at *
  generalize FrameList.cleanUpOldOrEmptyFrames state₁ s.incompleteFrames = second at *
  obtain ⟨state₂, incomplete⟩ := second
  dsimp only at *
  have hnumber : state₂.sequenceNum = s.lastDecodedState.sequenceNum ∨
      ∃ frame ∈ s.decodableFrames ++ s.incompleteFrames, state₂.sequenceNum = wrap16 frame.highSeqNum := by
    rcases hnumber₂ with hsame | ⟨frame, hframe, heq⟩
    · rcases hnumber₁ with hsame' | ⟨frame, hframe, heq⟩
      · exact Or.inl (hsame.trans hsame')
      · exact Or.inr ⟨frame, List.mem_append_left _ hframe, hsame.trans heq⟩
    · exact Or.inr ⟨frame, List.mem_append_right _ hframe, heq⟩
  have hlists : Tracks { s with decodableFrames := decodable, incompleteFrames := incomplete } r :=
    h.shrinks (Shrinks.same rfl (Or.inl rfl) rfl rfl rfl rfl rfl)
  split
  · rename_i hinitial
    exact h.shrinks (Shrinks.same rfl (Or.inr hinitial) rfl rfl rfl rfl rfl)
  · refine hlists.decode state₂ ?_
    intro hinitial
    rcases hnumber with hsame | ⟨frame, hframe, heq⟩
    · right
      rw [hsame]
      exact h.decoded (by rw [← hinitial₁, ← hinitial₂, hinitial])
    · left
      rw [heq]
      exact hrange frame hframe

theorem FrameList_popFrame_mem {timestamp : UInt32} {l rest : FrameList} {frame : BufferedFrame}
    (h : FrameList.popFrame trees.frames timestamp l = some (frame, rest)) : frame ∈ l := by
  unfold FrameList.popFrame at h
  dsimp only at h
  split at h
  · cases h
  · rename_i found hfound
    split at h
    · cases h
    · cases h
      exact List.mem_of_getElem? hfound

theorem clearUntil_sequenceNum (frameIndex : UInt16) (fuel : Nat) (state : VCMDecodingState) :
    (VCMDecodingState.clearUntil frameIndex fuel state).sequenceNum = state.sequenceNum := by
  induction fuel generalizing state with
  | zero => rfl
  | succ fuel ih =>
    unfold VCMDecodingState.clearUntil
    split
    · rfl
    · exact ih _

theorem setState_sequenceNum (state : VCMDecodingState) (frame : VCMFrameBuffer) :
    (state.setState frame).sequenceNum = wrap16 frame.highSeqNum := by
  unfold VCMDecodingState.setState VCMDecodingState.trackDecoded
  dsimp only
  split
  · dsimp only
    split
    · rfl
    · split
      · rfl
      · split
        · exact clearUntil_sequenceNum _ _ _
        · rfl
  · rfl

theorem Tracks.setDecoded (h : Tracks s r) {frame : BufferedFrame} (hrange : s.InRange (wrap16 frame.highSeqNum)) :
    Tracks (s.setDecoded trees frame) r := by
  refine h.decode (s.lastDecodedState.setState frame.toVCMFrameBuffer) ?_
  rw [setState_sequenceNum]
  exact fun _ => Or.inl hrange

theorem Tracks.extractAndSetDecode (h : Tracks s r) (timestamp : UInt32)
    (hrange : ∀ frame ∈ s.decodableFrames ++ s.incompleteFrames, s.InRange (wrap16 frame.highSeqNum)) :
    Tracks (s.extractAndSetDecode trees timestamp) r := by
  unfold VCMJitterBuffer.extractAndSetDecode
  split
  · unfold VCMJitterBuffer.popFrame
    cases hdecodable : FrameList.popFrame trees.frames timestamp s.decodableFrames with
    | some found =>
      have hmem := List.mem_append_left s.incompleteFrames (FrameList_popFrame_mem hdecodable)
      have hpopped : Tracks { s with decodableFrames := found.2 } r :=
        h.shrinks (Shrinks.same rfl (Or.inl rfl) rfl rfl rfl rfl rfl)
      exact hpopped.setDecoded (hrange found.1 hmem)
    | none =>
      cases hincomplete : FrameList.popFrame trees.frames timestamp s.incompleteFrames with
      | some found =>
        have hmem := List.mem_append_right s.decodableFrames (FrameList_popFrame_mem hincomplete)
        have hpopped : Tracks { s with incompleteFrames := found.2 } r :=
          h.shrinks (Shrinks.same rfl (Or.inl rfl) rfl rfl rfl rfl rfl)
        exact hpopped.setDecoded (hrange found.1 hmem)
      | none => exact h
  · exact h

theorem skipToKeyFrame_shrinks : Shrinks s (s.skipToKeyFrame trees).1 := by
  unfold skipToKeyFrame
  split
  · split
    · exact Shrinks.refl s
    · refine Shrinks.trans ?_ (Shrinks.drop trees { s with lastDecodedState := s.lastDecodedState.reset } _)
      exact Shrinks.same rfl (Or.inr rfl) rfl rfl rfl rfl rfl
  · exact Shrinks.refl s

theorem getNackList_shrinks : ∃ answer, s.getNackList trees = some answer ∧ Shrinks s answer.1 := by
  unfold getNackList
  split
  · exact ⟨_, rfl, Shrinks.refl s⟩
  · dsimp only
    obtain ⟨recycled, started, hrecycled, hs⟩ : ∃ recycled started,
        (if s.lastDecodedState.inInitialState && !(s.nextFrame.any fun frame =>
            frame.frameType = .videoFrameKey && frame.haveFirstPacket) then s.recycleFramesUntilKeyFrame trees
          else (s, true)) = (recycled, started) ∧ Shrinks s recycled := by
      split
      · exact ⟨_, _, rfl, recycle_shrinks⟩
      · exact ⟨_, _, rfl, Shrinks.refl s⟩
    rw [hrecycled]
    dsimp only
    split
    · exact ⟨_, rfl, hs⟩
    · obtain ⟨handled, found, hhandled, hs'⟩ : ∃ handled found,
          (if recycled.tooLargeNackList then recycled.handleTooLargeNackList trees else some (recycled, true)) =
            some (handled, found) ∧ Shrinks recycled handled := by
        split
        · obtain ⟨⟨handled, found⟩, hloop⟩ := Option.isSome_iff_exists.1 (@handleTooLargeNackList_isSome trees recycled)
          exact ⟨handled, found, hloop, (recycleWhile_spec tooLarge_tests hloop).1⟩
        · exact ⟨_, _, rfl, Shrinks.refl _⟩
      rw [hhandled, Option.map_some]
      refine ⟨_, rfl, ?_⟩
      dsimp only
      split <;> exact (hs.trans hs').trans skipToKeyFrame_shrinks

theorem Tracks.setNackSettings (h : Tracks s r) {maxNackListSize maxPacketAgeToNack : Nat} {maxIncompleteTimeMs : Int}
    (hlegal : s.Legal (.setNackSettings maxNackListSize maxPacketAgeToNack maxIncompleteTimeMs)) :
    Tracks (s.setNackSettings maxNackListSize maxPacketAgeToNack maxIncompleteTimeMs) r := by
  obtain ⟨hsize, hage, hyoung⟩ := hlegal
  refine ⟨⟨h.listed.sorted, ?_⟩, hage, hsize, h.mode, h.decoded, h.fresh, h.accepted_le⟩
  exact fun n hn => ⟨(h.listed.near n hn).1, hyoung n hn⟩

theorem Tracks.setNackMode (h : Tracks s r) (mode : VCMNackMode) : Tracks (s.setNackMode mode) r := by
  unfold VCMJitterBuffer.setNackMode
  split
  · exact Tracks.of_nil rfl h.age h.accepted_le
  · rename_i hmode
    exact ⟨h.listed, h.age, h.size, fun hno => absurd hno hmode, h.decoded, h.fresh, h.accepted_le⟩

theorem Tracks.start (h : Tracks s r) : Tracks s.start r := by
  refine ⟨h.listed, h.age, h.size, h.mode, ?_, h.fresh, h.accepted_le⟩
  exact fun hinitial => absurd hinitial.symm Bool.false_ne_true

/-- **Every call** keeps it. -/
theorem Tracks.call (h : Tracks s r) {c : Call} (hlegal : s.Legal c) :
    ∃ o, s.call trees c = some o ∧ Good s r o := by
  cases c with
  | insertPacket packet emptyFrame bufferState frame => exact h.insertPacket hlegal
  | extractAndSetDecode timestamp => exact ⟨_, rfl, h.extractAndSetDecode timestamp hlegal, fun u hu => by cases hu⟩
  | cleanUpOldOrEmptyFrames => exact ⟨_, rfl, h.cleanUpOldOrEmptyFrames hlegal, fun u hu => by cases hu⟩
  | getNackList =>
    obtain ⟨answer, hanswer, hs⟩ := @getNackList_shrinks trees s
    refine ⟨{ buffer := answer.1 }, ?_, h.shrinks hs, fun u hu => by cases hu⟩
    rw [VCMJitterBuffer.call, hanswer]
    rfl
  | setNackMode mode => exact ⟨_, rfl, h.setNackMode mode, fun u hu => by cases hu⟩
  | setNackSettings maxNackListSize maxPacketAgeToNack maxIncompleteTimeMs =>
    exact ⟨_, rfl, h.setNackSettings hlegal, fun u hu => by cases hu⟩
  | setDecodeErrorMode errorMode =>
    exact ⟨_, rfl, h.shrinks (Shrinks.same rfl (Or.inl rfl) rfl rfl rfl rfl rfl), fun u hu => by cases hu⟩
  | start => exact ⟨_, rfl, h.start, fun u hu => by cases hu⟩
  | stop =>
    exact ⟨_, rfl, h.shrinks (Shrinks.same rfl (Or.inr rfl) rfl rfl rfl rfl rfl), fun u hu => by cases hu⟩
  | flush => exact ⟨_, rfl, Tracks.of_nil rfl h.age h.accepted_le, fun u hu => by cases hu⟩

end VCMJitterBuffer

end Steps

/-! ## Runs -/

/-- The buffer, unless a call has not returned, and what has been received. -/
def created (latest : UInt16) : Option VCMJitterBuffer × Received :=
  (some { latestReceivedSequenceNumber := latest }, {})

def nackStep (trees : Trees) (p : Option VCMJitterBuffer × Received) (c : Call) :
    (Option VCMJitterBuffer × Received) × Option NackUpdate :=
  match p.1 with
  | none => (p, none)
  | some s =>
    match s.call trees c with
    | none => ((none, p.2), none)
    | some o => ((some o.buffer, o.received s p.2), o.update)

def LegalCall (p : Option VCMJitterBuffer × Received) (c : Call) : Prop := ∀ s ∈ p.1, s.Legal c

instance (p : Option VCMJitterBuffer × Received) (c : Call) : Decidable (LegalCall p c) :=
  inferInstanceAs (Decidable (∀ s ∈ p.1, s.Legal c))

/-- The calls have returned, and the list is kept. -/
def KeptBy (p : Option VCMJitterBuffer × Received) : Prop := ∃ s ∈ p.1, Kept s p.2

instance (p : Option VCMJitterBuffer × Received) : Decidable (KeptBy p) :=
  inferInstanceAs (Decidable (∃ s ∈ p.1, Kept s p.2))

def TrackedBy (p : Option VCMJitterBuffer × Received) : Prop := ∃ s ∈ p.1, s.Tracks p.2

/-- **A legal call** returns, and what it updates is within the limits. -/
theorem TrackedBy.step {trees : Trees} {p : Option VCMJitterBuffer × Received} {c : Call} (h : TrackedBy p)
    (hlegal : LegalCall p c) :
    TrackedBy (nackStep trees p c).1 ∧ ∀ u ∈ (nackStep trees p c).2, u.WithinLimits := by
  obtain ⟨buffer, r⟩ := p
  obtain ⟨s, hs, htracks⟩ := h
  obtain rfl := Option.mem_def.1 hs
  obtain ⟨o, ho, hgood⟩ := @VCMJitterBuffer.Tracks.call trees s r htracks c (hlegal s hs)
  unfold nackStep
  dsimp only
  rw [ho]
  exact ⟨⟨o.buffer, rfl, hgood.tracks⟩, hgood.limits⟩

def linearTrees : Trees := ⟨Search.linear BufferedFrame, Search.linear UInt16⟩

/-- A packet of one byte or none arrives, and its frame has the numbers from `low` to `high` then. -/
def arrival (seqNum : UInt16) (timestamp : UInt32) (frameType : FrameType) (bufferState : VCMFrameBufferEnum)
    (state : VCMFrameBufferStateEnum) (low high : Int) : Call :=
  .insertPacket
    { timestamp, seqNum, frameType
      data := if state = .stateEmpty then [] else [0]
      markerBit := false
      codec := .vp8
      isFirstPacket := state = .stateComplete }
    true bufferState
    { state
      frameType := if state = .stateEmpty then .videoFrameDelta else frameType
      timeStamp := timestamp
      lowSeqNum := low
      highSeqNum := high
      pictureId := kNoPictureId
      temporalId := kNoTemporalIdx
      tl0PicId := kNoTl0PicIdx
      layerSync := false
      flexibleMode := false
      pDiff := []
      haveFirstPacket := state = .stateComplete }

/-- The key frame 100 is decoded. -/
def decodedKeyFrame : List Call :=
  [.start, .setNackMode .kNack, .setNackSettings 250 450 0,
    arrival 100 1000 .videoFrameKey .completeSession .stateComplete 100 100, .extractAndSetDecode 1000]

/-- A delta frame, the packets 101 and 102 of which come behind 103. -/
def lateDelta : List Call :=
  [arrival 103 2000 .videoFrameDelta .incomplete .stateIncomplete 103 103,
    arrival 101 2000 .videoFrameDelta .incomplete .stateIncomplete 101 103, .getNackList,
    arrival 102 2000 .videoFrameDelta .completeSession .stateComplete 101 103, .extractAndSetDecode 2000]

end WebRtc.Jitter
