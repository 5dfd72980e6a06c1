import WebRtc.Lib.Machine
import WebRtc.Lib.Runs

/-!
# The packet loss statistics (`packet_loss_stats.cc`)

| here | there |
| --- | --- |
| `kBufferSize`     | the constant of this name (packet_loss_stats.cc:19) |
| `setInsert`       | `std::set<uint16_t>::insert`; a set is the ascending list of its members |
| `LossCounts`      | the three historic counts, and the three results of `ComputeLossCounts` |
| `PacketLossStats` | its fields (packet_loss_stats.h:45) |
| `addLostPacket`   | `AddLostPacket` (:29-44) |
| `countLoop`, `computeLossCounts` | `ComputeLossCounts` (:64-101) with its loop |
| `removeRun`, `pruneBuffer` | `PruneBuffer` (:103-135) with its loop |

The packets lost before a wrap of the sequence numbers and those lost after it are kept in two sets.
`pruneBuffer` has no result where the code would read behind the end of a set or would not come to an
end; it has one for every input (`addLostPacket_spec`).
-/

namespace WebRtc.Rtp

abbrev kBufferSize : Nat := 100

def setInsert (x : Nat) : List Nat → List Nat
  | [] => [x]
  | y :: ys => if x < y then x :: y :: ys else if x = y then y :: ys else y :: setInsert x ys

structure LossCounts where
  single : Nat
  multipleEvents : Nat
  multiplePackets : Nat
deriving DecidableEq, Repr

/-- A run that has ended. -/
def LossCounts.close (c : LossCounts) (sequentialCount : Nat) : LossCounts :=
  if sequentialCount = 1 then { c with single := c.single + 1 }
  else { c with multipleEvents := c.multipleEvents + 1, multiplePackets := c.multiplePackets + sequentialCount }

structure PacketLossStats where
  buffer : List Nat := []
  wrapped : List Nat := []
  historic : LossCounts := ⟨0, 0, 0⟩
deriving DecidableEq, Repr

namespace PacketLossStats

def countLoop : List Nat → (lastNum sequentialCount : Nat) → LossCounts → LossCounts
  | [], _, n, c => if n ≥ 1 then c.close n else c
  | x :: xs, last, n, c =>
    if n > 0 ∧ x ≠ (last + 1) % 65536 then countLoop xs x 1 (c.close n) else countLoop xs x (n + 1) c

def computeLossCounts (s : PacketLossStats) : LossCounts :=
  if s.buffer = [] then s.historic else countLoop (s.buffer ++ s.wrapped) 0 0 s.historic

/-- The iterator is always at the first packet of the buffer. -/
def removeRun : Nat → (buffer wrapped : List Nat) → (lastRemoved removeCount : Nat) → Option (List Nat × List Nat × Nat)
  | 0, _, _, _, _ => none
  | fuel + 1, buffer, wrapped, last, n =>
    if n = 0 ∨ buffer.head? = some ((last + 1) % 65536) then
      match buffer with
      | [] => none
      | [x] => removeRun fuel wrapped [] x (n + 1)
      | x :: y :: rest => removeRun fuel (y :: rest) wrapped x (n + 1)
    else some (buffer, wrapped, n)

/-- The wrapped buffer is beyond the threshold. -/
def beyond (wrapped : List Nat) : Bool := wrapped.getLast?.any (· > 0x4000)

def pruneBuffer : Nat → PacketLossStats → Option PacketLossStats
  | 0, _ => none
  | fuel + 1, s =>
    match removeRun (s.buffer.length + s.wrapped.length + 1) s.buffer s.wrapped 0 0 with
    | none => none
    | some (buffer, wrapped, n) =>
      let h := s.historic
      let historic := if n > 1 then ⟨h.single, h.multipleEvents + 1, h.multiplePackets + n⟩
        else { h with single := h.single + 1 }
      if beyond wrapped then pruneBuffer fuel ⟨buffer, wrapped, historic⟩ else some ⟨buffer, wrapped, historic⟩

/-- The buffer contains large numbers and this is a small number. -/
def wraps (s : PacketLossStats) (sequenceNumber : Nat) : Bool :=
  s.buffer.getLast?.any fun (last : Nat) => (last : Int) - (sequenceNumber : Int) > 0x8000

def insert (s : PacketLossStats) (sequenceNumber : Nat) : PacketLossStats :=
  if s.wraps sequenceNumber then { s with wrapped := setInsert sequenceNumber s.wrapped }
  else { s with buffer := setInsert sequenceNumber s.buffer }

def addLostPacket (s : PacketLossStats) (sequenceNumber : Nat) : Option PacketLossStats :=
  let t := s.insert sequenceNumber
  if t.wrapped.length + t.buffer.length > kBufferSize ∨ beyond t.wrapped then
    t.pruneBuffer (t.buffer.length + t.wrapped.length)
  else some t

/-! ## Every call comes to an end -/

/-- There are packets after a wrap only behind packets before it. -/
def Backed (s : PacketLossStats) : Prop := s.buffer = [] → s.wrapped = []

/-- A run `gone` cut off two sets, which are swapped when the first one is empty. -/
def Cut (buffer wrapped gone buffer' wrapped' : List Nat) : Prop :=
  (buffer = gone ++ buffer' ∧ wrapped' = wrapped ∧ (buffer' = [] → wrapped = [])) ∨
    ∃ more, gone = buffer ++ more ∧ wrapped = more ++ buffer' ∧ wrapped' = []

theorem Cut.backed {buffer wrapped gone buffer' wrapped' : List Nat} (h : Cut buffer wrapped gone buffer' wrapped') :
    buffer' = [] → wrapped' = [] := by
  intro hnil
  rcases h with ⟨-, rfl, h⟩ | ⟨more, -, -, rfl⟩
  · exact h hnil
  · rfl

theorem Cut.append_eq {buffer wrapped gone buffer' wrapped' : List Nat} (h : Cut buffer wrapped gone buffer' wrapped') :
    buffer ++ wrapped = gone ++ (buffer' ++ wrapped') := by
  rcases h with ⟨rfl, rfl, -⟩ | ⟨more, rfl, rfl, rfl⟩
  · rw [List.append_assoc]
  · rw [List.append_nil, List.append_assoc]

theorem Cut.cons {buffer wrapped gone buffer' wrapped' : List Nat}
    (h : Cut buffer wrapped gone buffer' wrapped') (x : Nat) :
    Cut (x :: buffer) wrapped (x :: gone) buffer' wrapped' := by
  rcases h with ⟨hb, rfl, hnil⟩ | ⟨more, rfl, hw, rfl⟩
  · exact .inl ⟨by rw [hb, List.cons_append], rfl, hnil⟩
  · exact .inr ⟨more, rfl, hw, rfl⟩

/-- The last packet of the first set goes, and the sets are swapped. -/
theorem Cut.swapped {wrapped gone buffer' wrapped' : List Nat} (h : Cut wrapped [] gone buffer' wrapped') (x : Nat) :
    Cut [x] wrapped (x :: gone) buffer' wrapped' := by
  rcases h with ⟨hw, rfl, -⟩ | ⟨more, hgone, hw, rfl⟩
  · exact .inr ⟨gone, rfl, hw, rfl⟩
  · obtain ⟨rfl, rfl⟩ := List.append_eq_nil_iff.1 hw.symm
    exact .inr ⟨gone, rfl, by rw [hgone, List.append_nil, List.append_nil], rfl⟩

/-- What follows a packet in a run. -/
def Next (x y : Nat) : Prop := y = (x + 1) % 65536

/-- Inside a run the loop removes what is left of it. -/
theorem removeRun_spec {fuel : Nat} {buffer wrapped : List Nat} (last : Nat) {n : Nat}
    (hfuel : buffer.length + wrapped.length < fuel)
    (hn : 0 < n) (hbacked : buffer = [] → wrapped = []) :
    ∃ gone buffer' wrapped', removeRun fuel buffer wrapped last n = some (buffer', wrapped', n + gone.length) ∧
      Cut buffer wrapped gone buffer' wrapped' ∧ (last :: gone).IsChain Next ∧
      ∀ x ∈ (last :: gone).getLast?, ∀ y ∈ buffer'.head?, ¬ Next x y := by
  induction fuel generalizing buffer wrapped last n with
  | zero => omega
  | succ fuel ih =>
    unfold removeRun
    by_cases hnext : buffer.head? = some ((last + 1) % 65536)
    · rw [if_pos (.inr hnext)]
      match buffer with
      | [] => cases hnext
      | [x] =>
        have hx : Next last x := Option.some.inj hnext
        simp only [List.length_cons, List.length_nil] at hfuel
        obtain ⟨gone, buffer', wrapped', heq, hcut, hchain, hstop⟩ :=
          ih x (show wrapped.length + [].length < fuel by simp only [List.length_nil]; omega)
            (show 0 < n + 1 by omega) (fun _ => rfl)
        refine ⟨x :: gone, buffer', wrapped', ?_, ?_, ?_, ?_⟩
        · dsimp only
          rw [heq, List.length_cons, show n + 1 + gone.length = n + (gone.length + 1) by omega]
        · exact hcut.swapped x
        · exact List.isChain_cons_cons.2 ⟨hx, hchain⟩
        · rw [List.getLast?_cons_cons]
          exact hstop
      | x :: y :: rest =>
        have hx : Next last x := Option.some.inj hnext
        simp only [List.length_cons] at hfuel
        obtain ⟨gone, buffer', wrapped', heq, hcut, hchain, hstop⟩ :=
          ih x (show (y :: rest).length + wrapped.length <
            fuel by simp only [List.length_cons]; omega) (show 0 < n + 1 by omega)
            (fun h => by cases h)
        refine ⟨x :: gone, buffer', wrapped', ?_, ?_, ?_, ?_⟩
        · dsimp only
          rw [heq, List.length_cons, show n + 1 + gone.length = n + (gone.length + 1) by omega]
        · exact hcut.cons x
        · exact List.isChain_cons_cons.2 ⟨hx, hchain⟩
        · rw [List.getLast?_cons_cons]
          exact hstop
    · rw [if_neg (by simp only [hnext, or_false]; omega)]
      refine ⟨[], buffer, wrapped, rfl, .inl ⟨rfl, rfl, hbacked⟩, List.isChain_singleton last, ?_⟩
      intro x hx y hy hxy
      rw [List.getLast?_singleton, Option.mem_def, Option.some.injEq] at hx
      subst hx
      rw [Next] at hxy
      exact hnext (hxy ▸ hy)

/-- From packets on, the loop removes the first run of them. -/
theorem removeRun_first {buffer : List Nat} (wrapped : List Nat) (hbuffer : buffer ≠ []) :
    ∃ gone buffer' wrapped', removeRun (buffer.length + wrapped.length + 1) buffer wrapped 0 0 =
        some (buffer', wrapped', gone.length) ∧
      gone ≠ [] ∧ Cut buffer wrapped gone buffer' wrapped' ∧ gone.IsChain Next ∧
      ∀ x ∈ gone.getLast?, ∀ y ∈ buffer'.head?, ¬ Next x y := by
  unfold removeRun
  rw [if_pos (.inl rfl)]
  match buffer with
  | [] => exact absurd rfl hbuffer
  | [x] =>
    obtain ⟨gone, buffer', wrapped', heq, hcut, hchain, hstop⟩ :=
      removeRun_spec x (show wrapped.length + [].length < [x].length + wrapped.length by
        simp only [List.length_cons, List.length_nil]; omega) (show 0 < 1 by omega) (fun _ => rfl)
    refine ⟨x :: gone, buffer', wrapped', ?_, by simp, ?_, hchain, hstop⟩
    · dsimp only
      rw [heq, List.length_cons, Nat.add_comm 1]
    · exact hcut.swapped x
  | x :: y :: rest =>
    obtain ⟨gone, buffer', wrapped', heq, hcut, hchain, hstop⟩ :=
      removeRun_spec x (show (y :: rest).length + wrapped.length < (x :: y :: rest).length + wrapped.length by
        simp only [List.length_cons]; omega) (show 0 < 1 by omega) (fun h => by cases h)
    refine ⟨x :: gone, buffer', wrapped', ?_, by simp, ?_, hchain, hstop⟩
    · dsimp only
      rw [heq, List.length_cons, Nat.add_comm 1]
    · exact hcut.cons x

theorem beyond_nil : beyond [] = false := rfl

/-- What one pass of the function does, before it looks at the threshold. -/
theorem pruneBuffer_step (fuel : Nat) {s : PacketLossStats} (hbuffer : s.buffer ≠ []) :
    ∃ gone buffer wrapped, gone ≠ [] ∧ Cut s.buffer s.wrapped gone buffer wrapped ∧ gone.IsChain Next ∧
      (∀ x ∈ gone.getLast?, ∀ y ∈ buffer.head?, ¬ Next x y) ∧
      s.pruneBuffer (fuel + 1) =
        if beyond wrapped then pruneBuffer fuel ⟨buffer, wrapped, s.historic.close gone.length⟩
        else some ⟨buffer, wrapped, s.historic.close gone.length⟩ := by
  obtain ⟨gone, buffer, wrapped, heq, hgone, hcut, hchain, hstop⟩ := removeRun_first s.wrapped hbuffer
  refine ⟨gone, buffer, wrapped, hgone, hcut, hchain, hstop, ?_⟩
  have hpos : 0 < gone.length := List.length_pos_iff.2 hgone
  have hclose : (if gone.length > 1 then (⟨s.historic.single, s.historic.multipleEvents + 1,
      s.historic.multiplePackets + gone.length⟩ : LossCounts)
        else { s.historic with single := s.historic.single + 1 }) =
      s.historic.close gone.length := by
    unfold LossCounts.close
    by_cases hone : gone.length = 1
    · rw [if_neg (by omega), if_pos hone]
    · rw [if_pos (by omega), if_neg hone]
  simp only [pruneBuffer, heq, hclose]

/-- **The function comes to an end and reads no set behind its end.** -/
theorem pruneBuffer_spec {fuel : Nat} {s : PacketLossStats} (hbuffer : s.buffer ≠ [])
    (hfuel : s.buffer.length + s.wrapped.length ≤ fuel) : ∃ t, s.pruneBuffer fuel = some t ∧ t.Backed := by
  induction fuel generalizing s with
  | zero =>
    have hpos := List.length_pos_iff.2 hbuffer
    omega
  | succ fuel ih =>
    obtain ⟨gone, buffer, wrapped, hgone, hcut, -, -, heq⟩ := pruneBuffer_step fuel hbuffer
    rw [heq]
    split
    · next hbeyond =>
      have hne : buffer ≠ [] := by
        intro hnil
        rw [hcut.backed hnil, beyond_nil] at hbeyond
        cases hbeyond
      have hlen := congrArg List.length hcut.append_eq
      have hpos := List.length_pos_iff.2 hgone
      simp only [List.length_append] at hlen
      exact ih (s := ⟨buffer, wrapped, _⟩) hne (by dsimp only; omega)
    · exact ⟨_, rfl, hcut.backed⟩

theorem setInsert_ne_nil (x : Nat) (l : List Nat) : setInsert x l ≠ [] := by
  cases l with
  | nil => simp [setInsert]
  | cons y ys =>
    unfold setInsert
    split
    · simp
    · split
      · simp
      · simp

theorem insert_buffer_ne_nil (s : PacketLossStats) (seq : Nat) : (s.insert seq).buffer ≠ [] := by
  unfold insert
  split
  · next hwraps =>
    intro hnil
    rw [wraps, show s.buffer = [] from hnil] at hwraps
    cases hwraps
  · exact setInsert_ne_nil seq s.buffer

/-- **Adding a packet has a result.** -/
theorem addLostPacket_spec (s : PacketLossStats) (seq : Nat) : ∃ t, s.addLostPacket seq = some t ∧ t.Backed := by
  have hne := insert_buffer_ne_nil s seq
  unfold addLostPacket
  dsimp only
  split
  · exact pruneBuffer_spec hne (Nat.le_refl _)
  · exact ⟨_, rfl, fun hnil => absurd hnil hne⟩

/-- The statistics with what a call returns, if it does. -/
def lossStep (s : PacketLossStats) (seq : Nat) : PacketLossStats × Option PacketLossStats :=
  match s.addLostPacket seq with
  | some t => (t, some t)
  | none => (s, none)

end PacketLossStats

end WebRtc.Rtp
