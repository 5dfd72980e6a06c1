import Mathlib.Data.Prod.Lex
import WebRtc.Lib.Machine
import WebRtc.Pacing.PacketQueue

/-!
# The order in which packets are sent

`sendKey` is the order that the comments of `Comparator` promise. The test for retransmissions is only made one way
round, so that `comparator` can put each of two packets after the other: a retransmission and a packet that is none
and is older (`Overtakes`). Of packets without such a pair it is a strict weak ordering, and then the heap gives them
back in that order.
-/

namespace WebRtc.Pacing

/-- Smaller is sent earlier. -/
def sendKey (packet : Packet) : Int ×ₗ Bool ×ₗ Int ×ₗ Nat :=
  toLex (packet.priority.toInt, toLex (!packet.retransmission, toLex (packet.captureTimeMs, packet.enqueueOrder.toNat)))

/-- A retransmission that is captured, or else enqueued, later than a packet that is none. -/
def Overtakes (first second : Packet) : Prop :=
  first.priority = second.priority ∧ first.retransmission = true ∧ second.retransmission = false ∧
    (second.captureTimeMs < first.captureTimeMs ∨
      second.captureTimeMs = first.captureTimeMs ∧ second.enqueueOrder < first.enqueueOrder)

/-- No two of the packets are put after each other. -/
def Settled (packets : List Packet) : Prop := ∀ first ∈ packets, ∀ second ∈ packets, ¬ Overtakes first second

section Comparator
variable {first second : Packet} {packets : List Packet}

theorem Priority.toInt_inj {p q : Priority} (h : p.toInt = q.toInt) : p = q := by
  cases p <;> cases q <;> first | rfl | cases h

theorem sendKey_lt_iff : sendKey first < sendKey second ↔ first.priority.toInt < second.priority.toInt ∨
    first.priority = second.priority ∧ (first.retransmission = true ∧ second.retransmission = false ∨
      first.retransmission = second.retransmission ∧ (first.captureTimeMs < second.captureTimeMs ∨
        first.captureTimeMs = second.captureTimeMs ∧ first.enqueueOrder < second.enqueueOrder)) := by
  unfold sendKey
  rw [Prod.Lex.toLex_lt_toLex, Prod.Lex.toLex_lt_toLex, Prod.Lex.toLex_lt_toLex]
  have hpriority : first.priority.toInt = second.priority.toInt ↔ first.priority = second.priority :=
    ⟨Priority.toInt_inj, congrArg Priority.toInt⟩
  rw [hpriority, ← UInt64.lt_iff_toNat_lt]
  cases first.retransmission <;> cases second.retransmission <;> simp

/-- What the comparison comes to. -/
theorem comparator_iff : comparator first second = true ↔ sendKey second < sendKey first ∨ Overtakes first second := by
  rw [sendKey_lt_iff]
  unfold comparator Overtakes
  by_cases hpriority : first.priority = second.priority
  · by_cases hcapture : first.captureTimeMs = second.captureTimeMs
    · cases hf : first.retransmission <;> cases hs : second.retransmission <;> simp [hpriority, hcapture]
    · cases hf : first.retransmission <;> cases hs : second.retransmission <;>
        simp [hpriority, hcapture, Ne.symm hcapture]
  · simp [hpriority, Ne.symm hpriority]

theorem settled_cons {packet : Packet} (h : Settled packets)
    (hnew : ∀ other ∈ packets, ¬ Overtakes packet other ∧ ¬ Overtakes other packet) : Settled (packet :: packets) := by
  intro first hfirst second hsecond
  rcases List.mem_cons.1 hfirst with hf | hf
  · rw [hf]
    rcases List.mem_cons.1 hsecond with hs | hs
    · rw [hs]
      rintro ⟨-, hretransmission, hnot, -⟩
      rw [hretransmission] at hnot
      cases hnot
    · exact (hnew second hs).1
  · rcases List.mem_cons.1 hsecond with hs | hs
    · rw [hs]
      exact (hnew first hf).2
    · exact h first hf second hs

theorem settled_of_subset {packets' : List Packet} (h : Settled packets)
    (hsub : packets' ⊆ packets) : Settled packets' :=
  fun first hfirst second hsecond => h first (hsub hfirst) second (hsub hsecond)

/-- **When the comparison is an order.** -/
theorem strictWeak_iff : PriorityQueue.StrictWeak comparator packets ↔ Settled packets := by
  constructor
  · intro h first hfirst second hsecond hover
    -- The retransmission is before the other by its key, too.
    have hkey : sendKey first < sendKey second := sendKey_lt_iff.2 (Or.inr ⟨hover.1, Or.inl ⟨hover.2.1, hover.2.2.1⟩⟩)
    have hafter := comparator_iff.2 (Or.inr hover)
    have hbefore := comparator_iff.2 (Or.inl hkey)
    exact h.irrefl first hfirst (h.trans first hfirst second hsecond first hfirst hafter hbefore)
  · intro h
    have hiff : ∀ first ∈ packets, ∀ second ∈ packets, (comparator first second ↔ sendKey second < sendKey first) := by
      intro first hfirst second hsecond
      rw [comparator_iff]
      exact or_iff_left (h first hfirst second hsecond)
    refine ⟨?_, ?_, ?_⟩
    · intro a ha
      rw [hiff a ha a ha]
      exact lt_irrefl _
    · intro a ha b hb c hc
      rw [hiff a ha b hb, hiff b hb c hc, hiff a ha c hc]
      exact fun hab hbc => hbc.trans hab
    · intro a ha b hb c hc
      rw [hiff a ha b hb, hiff b hb a ha, hiff b hb c hc, hiff c hc b hb, hiff a ha c hc, hiff c hc a ha]
      simp only [not_lt]
      exact fun hab hba hbc hcb => ⟨hab.trans hbc, hcb.trans hba⟩

end Comparator

/-! ## Runs -/

inductive QueueCall
  | push (packet : Packet)
  | beginPop
  | cancelPop (packet : Packet)
  | finalizePop (packet : Packet)

/-- The queue after the call, and what `BeginPop` returns. A call that has no result leaves the queue alone. -/
def PacketQueue.call (heap : PriorityQueue Packet) (q : PacketQueue) : QueueCall → PacketQueue × Option Packet
  | .push packet => ((q.push heap packet).getD q, none)
  | .beginPop =>
    match q.beginPop heap with
    | some (packet, q') => (q', some packet)
    | none => (q, none)
  | .cancelPop packet => (q.cancelPop heap packet, none)
  | .finalizePop packet => ((q.finalizePop packet).getD q, none)

/-- What is put into the heap does not overtake, and is not overtaken by, what is in it. -/
def SettledCall (q : PacketQueue) : QueueCall → Prop
  | .push packet | .cancelPop packet => ∀ other ∈ q.prioQueue, ¬ Overtakes packet other ∧ ¬ Overtakes other packet
  | _ => True

/-- The packet that is returned is in the heap, and none there is to be sent earlier. -/
def ReturnsFirst (heap : PriorityQueue Packet) (q : PacketQueue) (queueCall : QueueCall) : Prop :=
  ∀ packet, (q.call heap queueCall).2 = some packet →
    packet ∈ q.prioQueue ∧ ∀ other ∈ q.prioQueue, sendKey packet ≤ sendKey other

section Runs
variable {heap : PriorityQueue Packet} {Heap : List Packet → Prop} {q : PacketQueue}

structure HeapOrdered (Heap : List Packet → Prop) (q : PacketQueue) : Prop where
  heap : Heap q.prioQueue
  settled : Settled q.prioQueue

theorem HeapOrdered.pushed (h : HeapOrdered Heap q) (horders : heap.Orders comparator Heap) {packet : Packet}
    (hnew : ∀ other ∈ q.prioQueue, ¬ Overtakes packet other ∧ ¬ Overtakes other packet) :
    Heap (heap.push q.prioQueue packet) ∧ Settled (heap.push q.prioQueue packet) := by
  have hsettled := settled_cons h.settled hnew
  exact ⟨horders.push _ _ (strictWeak_iff.2 hsettled) h.heap, settled_of_subset hsettled (heap.push_perm _ _).subset⟩

theorem prioQueue_push (heap : PriorityQueue Packet) (q : PacketQueue) (packet : Packet) :
    ((q.push heap packet).getD q).prioQueue = q.prioQueue ∨
    ((q.push heap packet).getD q).prioQueue = heap.push q.prioQueue packet := by
  unfold PacketQueue.push PacketQueue.updateQueueTime
  dsimp only
  split
  · exact Or.inl rfl
  · split
    · exact Or.inr rfl
    · exact Or.inl rfl

theorem prioQueue_finalizePop (q : PacketQueue) (packet : Packet) :
    ((q.finalizePop packet).getD q).prioQueue = q.prioQueue := by
  unfold PacketQueue.finalizePop
  cases removeFromDupeSet q.dupeMap packet with
  | none => rfl
  | some dupeMap =>
    simp only [Option.bind_eq_bind, Option.bind_some]
    split
    · rfl
    · split <;> rfl

/-- **One call.** -/
theorem HeapOrdered.call (h : HeapOrdered Heap q) (horders : heap.Orders comparator Heap) (queueCall : QueueCall)
    (hsettled : SettledCall q queueCall) :
    HeapOrdered Heap (q.call heap queueCall).1 ∧ ReturnsFirst heap q queueCall := by
  cases queueCall with
  | push packet =>
    obtain ⟨hheap, hset⟩ := h.pushed horders hsettled
    refine ⟨?_, fun packet hnone => by cases hnone⟩
    rcases prioQueue_push heap q packet with heq | heq
    · exact ⟨heq ▸ h.heap, heq ▸ h.settled⟩
    · exact ⟨heq ▸ hheap, heq ▸ hset⟩
  | beginPop =>
    unfold ReturnsFirst PacketQueue.call PacketQueue.beginPop
    cases htop : heap.top q.prioQueue with
    | none => exact ⟨h, fun packet hnone => by cases hnone⟩
    | some packet =>
      have hweak := strictWeak_iff.2 h.settled
      have hrest : heap.pop q.prioQueue ⊆ q.prioQueue :=
        fun other hother => (heap.pop_perm _ _ htop).subset (List.mem_cons_of_mem packet hother)
      refine ⟨⟨horders.pop _ hweak h.heap, settled_of_subset h.settled hrest⟩, ?_⟩
      rintro other hother
      obtain rfl := Option.some.inj hother
      refine ⟨heap.top_mem htop, fun other hmem => ?_⟩
      have hnot := horders.top _ _ hweak h.heap htop other hmem
      rw [comparator_iff] at hnot
      exact not_lt.1 fun hlt => hnot (Or.inl hlt)
  | cancelPop packet =>
    obtain ⟨hheap, hset⟩ := h.pushed horders hsettled
    exact ⟨⟨hheap, hset⟩, fun packet hnone => by cases hnone⟩
  | finalizePop packet =>
    have heq := prioQueue_finalizePop q packet
    exact ⟨⟨heq ▸ h.heap, heq ▸ h.settled⟩, fun packet hnone => by cases hnone⟩

/-- `Comparator` is a strict weak ordering of packets exactly when none of them overtakes another, and in every run
in which none that is put into the heap does, `BeginPop` returns the packet that is to be sent first. -/
theorem sendOrder_exact (packets : List Packet) (heap : PriorityQueue Packet) (Heap : List Packet → Prop)
    (horders : heap.Orders comparator Heap) (nowMs : Int) (calls : List QueueCall) :
    (PriorityQueue.StrictWeak comparator packets ↔ Settled packets) ∧
      (Machine.Meets (PacketQueue.call heap) SettledCall (PacketQueue.create nowMs) calls →
        Machine.Meets (PacketQueue.call heap) (ReturnsFirst heap) (PacketQueue.create nowMs) calls) := by
  refine ⟨strictWeak_iff, fun hcalls => ?_⟩
  have hstart : HeapOrdered Heap (PacketQueue.create nowMs) := ⟨horders.nil, fun first hfirst => by cases hfirst⟩
  exact Machine.meets_of_inv (fun q queueCall h hsettled => h.call horders queueCall hsettled) hstart hcalls

def audioPacket : Packet where
  priority := .high
  ssrc := 1
  sequenceNumber := 7
  captureTimeMs := 10
  enqueueTimeMs := 30
  bytes := 100
  retransmission := false
  enqueueOrder := 1

def videoPacket : Packet where
  priority := .normal
  ssrc := 2
  sequenceNumber := 9
  captureTimeMs := 5
  enqueueTimeMs := 30
  bytes := 1000
  retransmission := false
  enqueueOrder := 0

/-- A video packet that is sent again. -/
def resentPacket : Packet where
  priority := .high
  ssrc := 2
  sequenceNumber := 8
  captureTimeMs := 20
  enqueueTimeMs := 31
  bytes := 1000
  retransmission := true
  enqueueOrder := 2

theorem sendOrder_exact_two : Machine.Meets (PacketQueue.call (PriorityQueue.ofLess comparator))
    (ReturnsFirst (PriorityQueue.ofLess comparator)) (PacketQueue.create 0)
    [.push videoPacket, .push audioPacket, .beginPop] := by
  have hpush : (PacketQueue.create 0).call (PriorityQueue.ofLess comparator) (.push videoPacket) =
      ({ PacketQueue.create 0 with
        packetList := [videoPacket], prioQueue := [videoPacket], bytes := 1000, timeLastUpdated := 30,
        dupeMap := Function.update (fun _ => none) 2 (some {9}) }, none) := rfl
  refine (sendOrder_exact [] (PriorityQueue.ofLess comparator) _ PriorityQueue.ofLess_orders 0 _).2 ?_
  refine ⟨fun other hother => absurd hother List.not_mem_nil, ?_, trivial, trivial⟩
  rw [hpush]
  simp [SettledCall, Overtakes, videoPacket, audioPacket]

/-- Each of the two packets is put after the other. -/
theorem not_sendOrder_resent : ¬ PriorityQueue.StrictWeak comparator [resentPacket, audioPacket] := by
  intro h
  refine h.irrefl resentPacket (by simp) (h.trans resentPacket (by simp) audioPacket
    (by simp) resentPacket (by simp) ?_ ?_)
  · decide
  · decide

end Runs

end WebRtc.Pacing
