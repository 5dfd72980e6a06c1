import Mathlib.Data.List.Chain
import WebRtc.Estimator.Unwrapper

/-!
# Every arrival is fed back

In the map, consecutive numbers are less than half of the numbers apart: a packet that arrives is that
near to the one before it, and only a beginning of the map is ever culled (`Close`). So the builder
takes each number for what it is or refuses it, and never refuses the first (`addPackets_spec`); each
message carries at least one packet, and the loop of `Process` comes to the end of the map
(`sendFeedback_spec`). `Inv` adds what the start of the window has to do with the packets that arrived
since the last call of `Process`.
-/

namespace WebRtc.Estimator

open Feedback

/-! ## The map -/

/-- One entry after another, not far away. -/
def Close (first second : Int × Int) : Prop := first.1 < second.1 ∧ second.1 ≤ first.1 + 32767

variable {entries : List (Int × Int)}

theorem close_sorted (h : entries.IsChain Close) : entries.Pairwise fun first second => first.1 < second.1 := by
  have hlt : entries.IsChain fun first second => first.1 < second.1 := h.imp fun _ _ hclose => hclose.1
  have hkeys : (entries.map Prod.fst).IsChain (· < ·) := List.isChain_map_of_isChain Prod.fst (fun _ _ hlt => hlt) hlt
  exact List.pairwise_map.mp (List.isChain_iff_pairwise.mp hkeys)

theorem mem_insertArrival {seq : Int} (arrivalTime : Int) (hnew : ∀ entry ∈ entries, entry.1 ≠ seq)
    (entry : Int × Int) :
    entry ∈ insertArrival seq arrivalTime entries ↔ entry = (seq, arrivalTime) ∨ entry ∈ entries := by
  induction entries with
  | nil => simp [insertArrival]
  | cons head rest ih =>
    have hhead := hnew head List.mem_cons_self
    have hrest := ih fun e he => hnew e (List.mem_cons_of_mem _ he)
    rw [insertArrival]
    split
    · rw [List.mem_cons, hrest, List.mem_cons]
      exact or_left_comm
    · simp

theorem insertArrival_append (seq arrivalTime : Int) {before : List (Int × Int)} (h : ∀ entry ∈ before, entry.1 < seq) :
    insertArrival seq arrivalTime (before ++ entries) = before ++ insertArrival seq arrivalTime entries := by
  induction before with
  | nil => rfl
  | cons head before ih =>
    rw [List.cons_append, insertArrival, if_pos (h head List.mem_cons_self), ih fun e he =>
      h e (List.mem_cons_of_mem _ he)]
    rfl

/-- A number near to one of the map comes between its neighbours, or next to one end of the map. -/
theorem insertArrival_close {seq : Int} (arrivalTime : Int) (h : entries.IsChain Close)
    (hnew : ∀ entry ∈ entries, entry.1 ≠ seq)
    (hnear : ∃ entry ∈ entries, (seq - entry.1).natAbs ≤ 32767) :
    (insertArrival seq arrivalTime entries).IsChain Close := by
  induction entries with
  | nil =>
    obtain ⟨_, hmem, _⟩ := hnear
    cases hmem
  | cons head rest ih =>
    have hhead := hnew head List.mem_cons_self
    have hsorted := List.pairwise_cons.mp (close_sorted h)
    obtain ⟨near, hmem, hdist⟩ := hnear
    rw [insertArrival]
    split
    · rename_i hlt
      cases rest with
      | nil =>
        rcases List.mem_cons.mp hmem with rfl | hnone
        · refine List.isChain_cons_cons.mpr ⟨⟨hlt, ?_⟩, List.IsChain.singleton _⟩
          dsimp only
          omega
        · cases hnone
      | cons next rest =>
        obtain ⟨⟨hlow, hhigh⟩, htail⟩ := List.isChain_cons_cons.mp h
        have hnext := hnew next (List.mem_cons_of_mem _ List.mem_cons_self)
        by_cases hgt : next.1 < seq
        · have hkeep := ih htail (fun e he => hnew e (List.mem_cons_of_mem _ he)) ?_
          · rw [insertArrival, if_pos hgt] at hkeep ⊢
            exact List.isChain_cons_cons.mpr ⟨⟨hlow, hhigh⟩, hkeep⟩
          · rcases List.mem_cons.mp hmem with rfl | hlater
            · exact ⟨next, List.mem_cons_self, by omega⟩
            · exact ⟨near, hlater, hdist⟩
        · rw [insertArrival, if_neg hgt, if_neg hnext]
          have hbefore : Close head (seq, arrivalTime) := ⟨hlt, by dsimp only; omega⟩
          have hafter : Close (seq, arrivalTime) next := ⟨by dsimp only; omega, by dsimp only; omega⟩
          exact List.isChain_cons_cons.mpr ⟨hbefore, List.isChain_cons_cons.mpr ⟨hafter, htail⟩⟩
    · refine List.isChain_cons_cons.mpr ⟨⟨?_, ?_⟩, h⟩
      · dsimp only
        omega
      · dsimp only
        rcases List.mem_cons.mp hmem with rfl | hlater
        · omega
        · have := hsorted.1 near hlater
          omega

/-! ## One message -/

/-- The number and the time that a message whose first packet is `start` should say of an entry. -/
def reportOf (start : Int) (entry : Int × Int) : Int × Int := (entry.1 - start + (u16 start).toNat, entry.2 * 1000)

/-- The message says of the packet that it was received, at this time but for half a tick. -/
def Contains (message : Builder) (entry : Int × Int) : Prop :=
  ∃ got ∈ message.readBack, u16 got.1 = u16 entry.1 ∧ (got.2 - entry.2 * 1000).natAbs ≤ 125

theorem u16_reportOf (start : Int) (entry : Int × Int) : u16 (reportOf start entry).1 = u16 entry.1 := by
  have h := toNat_u16 start
  have h1 := toNat_u16 (reportOf start entry).1
  have h2 := toNat_u16 entry.1
  apply UInt16.toNat_inj.1
  unfold reportOf at h1 ⊢
  dsimp only at h1 ⊢
  omega

theorem packetOf_reportOf (start : Int) (entry : Int × Int) :
    packetOf (reportOf start entry) = (u16 entry.1, entry.2 * 1000) := by
  rw [packetOf, u16_reportOf]
  rfl

theorem contains_of_matches {message : Builder} {start : Int} {taken : List (Int × Int)}
    (h : List.Forall₂ Matches message.readBack (taken.map (reportOf start))) :
    ∀ entry ∈ taken, Contains message entry := by
  intro entry hentry
  obtain ⟨k, hk, rfl⟩ := List.mem_iff_getElem.mp hentry
  have hlen := h.length_eq
  rw [List.length_map] at hlen
  have hmatch := List.forall₂_iff_get.mp h |>.2 k (by omega) (by simpa using hk)
  simp only [List.get_eq_getElem, List.getElem_map] at hmatch
  obtain ⟨hnumber, hnear⟩ := hmatch
  refine ⟨message.readBack[k], List.getElem_mem _, ?_, hnear⟩
  rw [hnumber, u16_reportOf]

/-- The time of the first packet always fits. -/
theorem timeFits_first (sender media : UInt32) (feedbackSeq : UInt8) (base : UInt16) {ref : Int} (href : 0 ≤ ref) :
    (withBase sender media feedbackSeq base ref).TimeFits ref := by
  have hdiv := Int.tmod_add_tdiv_mul ref 64000
  have hpos := Int.tmod_nonneg 64000 href
  have hlt := Int.tmod_lt_of_pos ref (show (0 : Int) < 64000 by decide)
  have hticks : (withBase sender media feedbackSeq base ref).ticks ref = (ref.tmod 64000 + 125).tdiv 250 := by
    unfold Builder.ticks withBase
    dsimp only
    rw [if_neg (by omega)]
    congr 1
    omega
  have hq := Int.tmod_add_tdiv_mul (ref.tmod 64000 + 125) 250
  have hqpos := Int.tmod_nonneg 250 (show 0 ≤ ref.tmod 64000 + 125 by omega)
  have hqlt := Int.tmod_lt_of_pos (ref.tmod 64000 + 125) (show (0 : Int) < 250 by decide)
  show CInt.i16 _ = _
  rw [hticks]
  exact CInt.i16_id (by omega) (by omega)

/-- What is left of the entries after a message: it starts with the packet that was refused. -/
def nextStart : List (Int × Int) → Int
  | [] => -1
  | entry :: _ => entry.1

/-- **A message takes packets from the front**, at least one, and says of them when they arrived. -/
theorem addPackets_spec {start : Int} {done todo : List (Int × Int)} {message : Builder}
    (hclose : (done ++ todo).IsChain Close) (hstart : ∀ entry, (done ++ todo).head? = some entry → entry.1 = start)
    (htold : Told message (done.map (reportOf start))) (hbase : message.baseSeq = (u16 start).toNat)
    (hlast : ∀ entry, done.getLast? = some entry → message.lastSeq = (reportOf start entry).1)
    (hfits : done = [] → ∀ entry, todo.head? = some entry → message.TimeFits (entry.2 * 1000)) :
    ∃ message' taken left, addPackets start message todo = some (message', nextStart left) ∧ todo = taken ++ left ∧
      (done = [] → todo ≠ [] → taken ≠ []) ∧ ∀ entry ∈ done ++ taken, Contains message' entry := by
  induction todo generalizing done message with
  | nil =>
    refine ⟨message, [], [], rfl, rfl, fun _ h => absurd rfl h, ?_⟩
    rw [List.append_nil]
    exact contains_of_matches htold.readBack
  | cons entry rest ih =>
    have hstep := told_step htold (reportOf start entry) ?_ ?_
    rw [packetOf_reportOf] at hstep
    · cases hstep with
      | accepted result base last told =>
        have hsplit : done ++ entry :: rest = done ++ [entry] ++ rest :=
          by rw [List.append_assoc, List.singleton_append]
        rw [hsplit] at hclose hstart
        obtain ⟨message', taken, left, hadd, hrest, _, hcontains⟩ :=
          ih hclose hstart (by rw [List.map_append]; exact told)
          (base.trans hbase) (fun e he => by rw [List.getLast?_concat] at he; cases he; exact last)
          (fun hnil => by simp at hnil)
        refine ⟨message', entry :: taken, left, ?_, ?_, fun _ _ => List.cons_ne_nil _ _, ?_⟩
        · rw [addPackets, if_pos result, hadd]
        · rw [hrest, List.cons_append]
        · rw [List.append_assoc, List.singleton_append] at hcontains
          exact hcontains
      | refused result later same =>
        have hdone : done ≠ [] := by
          intro hnil
          have hsome := later (hfits hnil entry rfl)
          rw [hnil] at hsome
          exact hsome rfl
        have hother : ¬ start = entry.1 := by
          obtain ⟨first, before, rfl⟩ := List.exists_cons_of_ne_nil hdone
          have hsorted := (List.pairwise_cons.mp (close_sorted hclose)).1 entry (by simp)
          have := hstart first rfl
          omega
        refine ⟨(message.withReceivedPacket (u16 entry.1, entry.2 * 1000)).1, [], entry :: rest, ?_,
          rfl, fun h => absurd h hdone, ?_⟩
        · rw [addPackets, result, if_neg Bool.false_ne_true, if_neg hother]
          rfl
        · rw [List.append_nil]
          exact contains_of_matches same
    · intro hnil
      have hdone : done = [] := List.map_eq_nil_iff.mp hnil
      have := hstart entry (by rw [hdone]; rfl)
      rw [hbase]
      show entry.1 - start + ((u16 start).toNat : Int) = (u16 start).toNat
      omega
    · intro hsome
      have hdone : done ≠ [] := fun hnil => hsome (by rw [hnil]; rfl)
      have hend := List.getLast?_eq_some_getLast hdone
      have hlastSeq := hlast _ hend
      have hmiddle : Close (done.getLast hdone) entry := by
        have hchain := List.isChain_append.mp hclose
        exact hchain.2.2 _ hend entry rfl
      obtain ⟨hlow, hhigh⟩ := hmiddle
      unfold reportOf at hlastSeq ⊢
      dsimp only at hlastSeq ⊢
      omega

/-! ## All messages -/

namespace RemoteEstimatorProxy

/-- The window starts with an entry of the map; no entry is before 0. -/
structure Ready (s : RemoteEstimatorProxy) (before rest : List (Int × Int)) : Prop where
  close : s.packetArrivalTimes.IsChain Close
  nonneg : ∀ entry ∈ s.packetArrivalTimes, 0 ≤ entry.1 ∧ 0 ≤ entry.2
  split : s.packetArrivalTimes = before ++ rest
  start : s.windowStartSeq = nextStart rest

theorem buildFeedbackPacket_end {s : RemoteEstimatorProxy} {before : List (Int × Int)} (h : s.Ready before []) :
    s.buildFeedbackPacket = some (none, s) := by
  have hend : s.windowStartSeq = -1 := h.start
  rw [buildFeedbackPacket, if_pos hend]

theorem buildFeedbackPacket_spec {s : RemoteEstimatorProxy} {before rest : List (Int × Int)} {entry : Int × Int}
    (h : s.Ready before (entry :: rest)) :
    ∃ message taken left, s.buildFeedbackPacket =
        some (some message, { s with feedbackSequence := s.feedbackSequence + 1, windowStartSeq := nextStart left }) ∧
      entry :: rest = taken ++ left ∧ taken ≠ [] ∧ ∀ e ∈ taken, Contains message e := by
  have hmem : entry ∈ s.packetArrivalTimes := by
    rw [h.split]
    exact List.mem_append_right _ List.mem_cons_self
  have hstart : s.windowStartSeq = entry.1 := h.start
  obtain ⟨hseq, htime⟩ := h.nonneg entry hmem
  -- The entry stands in one place of the map only.
  have hbefore : ∀ e ∈ before, e.1 < entry.1 := by
    have hsorted := close_sorted h.close
    rw [h.split, List.pairwise_append] at hsorted
    exact fun e he => hsorted.2.2 e he entry List.mem_cons_self
  have hdropRest : s.packetArrivalTimes.dropWhile (fun e => e.1 ≠ entry.1) = entry :: rest := by
    rw [h.split, List.dropWhile_append_of_pos, List.dropWhile_cons_of_neg (by simp)]
    intro e he
    have := hbefore e he
    simp
    omega
  have hclose : ([] ++ entry :: rest).IsChain Close := by
    have hchain := h.close
    rw [h.split] at hchain
    exact (List.isChain_append.mp hchain).2.1
  have hfirst : ∀ e, ([] ++ entry :: rest).head? = some e → e.1 = entry.1 := by
    intro e he
    cases he
    rfl
  obtain ⟨message, taken, left, hadd, hrest, hsome, hcontains⟩ := addPackets_spec hclose hfirst
    (told_withBase 0 s.mediaSsrc s.feedbackSequence (u16 entry.1) (entry.2 * 1000)) rfl
    (fun e he => by cases he)
    (fun _ e he => by cases he; exact timeFits_first 0 s.mediaSsrc s.feedbackSequence (u16 entry.1) (by omega))
  refine ⟨message, taken, left, ?_, hrest, hsome rfl (List.cons_ne_nil _ _), hcontains⟩
  have hsentinel : ¬ s.windowStartSeq = -1 := by omega
  have hcheck : ¬ entry.2 * 1000 = -1 := by omega
  rw [buildFeedbackPacket, if_neg hsentinel, hstart, hdropRest]
  dsimp only
  rw [if_neg hcheck, hadd, Option.map_some]

/-- **`Process` comes to the end of the map**: as many rounds as there are packets left, and one more,
are enough. -/
theorem sendFeedback_spec {fuel : Nat} {s : RemoteEstimatorProxy} {before rest : List (Int × Int)}
    (h : s.Ready before rest)
    (hfuel : rest.length < fuel) :
    ∃ sent feedbackSequence, sendFeedback fuel s =
        some (sent, { s with feedbackSequence := feedbackSequence, windowStartSeq := -1 }) ∧
      ∀ entry ∈ rest, ∃ message ∈ sent, Contains message entry := by
  induction fuel generalizing s before rest with
  | zero => cases hfuel
  | succ fuel ih =>
    cases rest with
    | nil =>
      refine ⟨[], s.feedbackSequence, ?_, fun entry hentry => by cases hentry⟩
      have hend : s.windowStartSeq = -1 := h.start
      rw [sendFeedback, buildFeedbackPacket_end h, ← hend]
    | cons entry rest =>
      obtain ⟨message, taken, left, hbuild, hsplit, hsome, hcontains⟩ := buildFeedbackPacket_spec h
      have hshorter : left.length < (entry :: rest).length := by
        rw [hsplit, List.length_append]
        have := List.length_pos_of_ne_nil hsome
        omega
      have hready : Ready { s with feedbackSequence := s.feedbackSequence + 1, windowStartSeq := nextStart left }
          (before ++ taken) left :=
        ⟨h.close, h.nonneg, by rw [List.append_assoc, ← hsplit]; exact h.split, rfl⟩
      obtain ⟨sent, feedbackSequence, hsend, hall⟩ := ih hready (by omega)
      refine ⟨message :: sent, feedbackSequence, ?_, ?_⟩
      · rw [sendFeedback, hbuild]
        dsimp only
        rw [hsend, Option.map_some]
      · intro e he
        rw [hsplit] at he
        rcases List.mem_append.mp he with htaken | hleft
        · exact ⟨message, List.mem_cons_self, hcontains e htaken⟩
        · obtain ⟨later, hlater, hsays⟩ := hall e hleft
          exact ⟨later, List.mem_cons_of_mem _ hlater, hsays⟩

end RemoteEstimatorProxy

/-! ## A packet arrives -/

/-- **A packet with a new number** comes into the map, from which only a beginning is culled, when a
window begins. -/
structure Arrived (p q : RemoteEstimatorProxy) (entry : Int × Int) : Prop where
  unwrapper : q.unwrapper.lastSeq = entry.1
  close : q.packetArrivalTimes.IsChain Close
  present : entry ∈ q.packetArrivalTimes
  old : ∀ e ∈ q.packetArrivalTimes, e = entry ∨ e ∈ p.packetArrivalTimes
  begins : p.windowStartSeq = -1 → q.windowStartSeq = entry.1
  goesOn : p.windowStartSeq ≠ -1 → q.windowStartSeq = min entry.1 p.windowStartSeq ∧
    ∀ e ∈ p.packetArrivalTimes, e ∈ q.packetArrivalTimes

theorem insertArrival_chain {seq : Int} (arrivalTime : Int) (h : entries.IsChain Close)
    (hnew : ∀ entry ∈ entries, entry.1 ≠ seq)
    (hnear : entries = [] ∨ ∃ entry ∈ entries, (seq - entry.1).natAbs ≤ 32767) :
    (insertArrival seq arrivalTime entries).IsChain Close := by
  rcases hnear with rfl | hnear
  · exact List.IsChain.singleton _
  · exact insertArrival_close arrivalTime h hnew hnear

theorem onPacketArrival_spec {p : RemoteEstimatorProxy} {seq : Int} (arrivalTime : Int)
    (hclose : p.packetArrivalTimes.IsChain Close)
    (hunwrap : p.unwrapper.unwrapWithoutUpdate (u16 seq) = seq) (hnew : ∀ entry ∈ p.packetArrivalTimes, entry.1 ≠ seq)
    (hnear : p.packetArrivalTimes = [] ∨ ∃ entry ∈ p.packetArrivalTimes, (seq - entry.1).natAbs ≤ 32767) :
    ∃ q, p.onPacketArrival (u16 seq) arrivalTime = some q ∧ Arrived p q (seq, arrivalTime) := by
  have hnone {l : List (Int × Int)} (hl : ∀ entry ∈ l, entry.1 ≠ seq) : (l.any fun entry => entry.1 = seq) = false := by
    rw [List.any_eq_false]
    intro entry hentry
    simpa using hl entry hentry
  have hinsert := insertArrival_chain arrivalTime hclose hnew hnear
  simp only [RemoteEstimatorProxy.onPacketArrival, SequenceNumberUnwrapper.unwrap, hunwrap]
  by_cases hidle : p.windowStartSeq = -1
  · rw [if_pos hidle]
    dsimp only
    generalize hcull : (fun entry : Int × Int => decide (entry.1 < seq ∧
      arrivalTime - entry.2 ≥ kBackWindowMs)) = culled
    have hsplit : p.packetArrivalTimes.takeWhile culled ++ p.packetArrivalTimes.dropWhile culled =
        p.packetArrivalTimes :=
      List.takeWhile_append_dropWhile
    have hlow : ∀ entry ∈ p.packetArrivalTimes.takeWhile culled, entry.1 < seq := by
      intro entry hentry
      have htrue := List.mem_takeWhile_imp hentry
      rw [← hcull, decide_eq_true_eq] at htrue
      exact htrue.1
    have hnewLeft : ∀ entry ∈ p.packetArrivalTimes.dropWhile culled, entry.1 ≠ seq := by
      intro entry hentry
      exact hnew entry (hsplit ▸ List.mem_append_right _ hentry)
    rw [hnone hnewLeft, if_neg Bool.false_ne_true]
    refine ⟨_, rfl, ⟨rfl, ?_, ?_, ?_, fun _ => rfl, fun hne => absurd hidle hne⟩⟩
    · rw [← hsplit, insertArrival_append _ _ hlow] at hinsert
      exact (List.isChain_append.mp hinsert).2.1
    · exact (mem_insertArrival arrivalTime hnewLeft _).mpr (Or.inl rfl)
    · intro e he
      refine ((mem_insertArrival arrivalTime hnewLeft e).mp he).imp id fun hin => ?_
      rw [← hsplit]
      exact List.mem_append_right _ hin
  · rw [if_neg hidle]
    have hold (e : Int × Int) := mem_insertArrival arrivalTime hnew e
    have hpresent : (seq, arrivalTime) ∈ insertArrival seq arrivalTime p.packetArrivalTimes := (hold _).mpr (Or.inl rfl)
    have hkeep : ∀ e ∈ p.packetArrivalTimes, e ∈ insertArrival seq arrivalTime p.packetArrivalTimes :=
      fun e he => (hold e).mpr (Or.inr he)
    by_cases hbefore : seq < p.windowStartSeq
    · rw [if_pos hbefore]
      dsimp only
      rw [hnone hnew, if_neg Bool.false_ne_true]
      exact ⟨_, rfl, rfl, hinsert, hpresent, fun e he => (hold e).mp he, fun h => absurd h hidle,
        fun _ => ⟨(min_eq_left (Int.le_of_lt hbefore)).symm, hkeep⟩⟩
    · rw [if_neg hbefore]
      dsimp only
      rw [hnone hnew, if_neg Bool.false_ne_true]
      exact ⟨_, rfl, rfl, hinsert, hpresent, fun e he => (hold e).mp he, fun h => absurd h hidle,
        fun _ => ⟨(min_eq_right (Int.not_lt.mp hbefore)).symm, hkeep⟩⟩

/-! ## Runs -/

/-- The proxy, the packets that arrived so far (the last first), and those since the last call of
`Process`, all with their full numbers. -/
structure System where
  proxy : RemoteEstimatorProxy
  arrived : List (Int × Int)
  unreported : List (Int × Int)

inductive Action where
  /-- A packet arrives, with this number in full, by `IncomingPacket` or, without an SSRC, by
  `IncomingPacketFeedbackVector`. -/
  | arrival (ssrc : Option UInt32) (number arrivalTimeMs : Int)
  | process (nowMs : Int)

namespace System

def start : System := ⟨.create, [], []⟩

def arrive (s : System) (number arrivalTimeMs : Int) : Option UInt32 → Option RemoteEstimatorProxy
  | none => s.proxy.incomingPacketFeedbackVector [(u16 number, arrivalTimeMs)]
  | some ssrc => s.proxy.incomingPacket arrivalTimeMs ssrc (some (u16 number))

def step (s : System) : Action → System × Option (List Builder)
  | .arrival ssrc number arrivalTimeMs =>
    match s.arrive number arrivalTimeMs ssrc with
    | none => (s, none)
    | some proxy => (⟨proxy, (number, arrivalTimeMs) :: s.arrived, (number, arrivalTimeMs) :: s.unreported⟩, some [])
  | .process nowMs =>
    match s.proxy.process nowMs with
    | none => (s, none)
    | some (sent, proxy) => (⟨proxy, s.arrived, []⟩, some sent)

/-- The first number is one of 16 bits; every other number is new, near to the one before it and not
before the first. -/
def Allowed (s : System) : Action → Prop
  | .arrival _ number arrivalTimeMs =>
    0 ≤ arrivalTimeMs ∧
      match s.arrived with
      | [] => 0 ≤ number ∧ number ≤ 65535
      | last :: _ => (number - last.1).natAbs ≤ 32767 ∧ (∀ first, s.arrived.getLast? = some first → first.1 ≤ number) ∧
        ∀ entry ∈ s.arrived, entry.1 ≠ number
  | .process nowMs => s.proxy.timeUntilNextProcess nowMs = 0

/-- No check fails, and `Process` comes to an end and feeds back what arrived since it was called last. -/
def Fed (s : System) (a : Action) : Prop :=
  ∃ sent, (s.step a).2 = some sent ∧
    match a with
    | .arrival _ _ _ => True
    | .process _ => ∀ entry ∈ s.unreported, ∃ message ∈ sent, Contains message entry

structure Inv (s : System) : Prop where
  close : s.proxy.packetArrivalTimes.IsChain Close
  kept : ∀ entry ∈ s.proxy.packetArrivalTimes, entry ∈ s.arrived
  nonneg : ∀ entry ∈ s.arrived, 0 ≤ entry.1 ∧ 0 ≤ entry.2
  none : s.arrived = [] → s.proxy.unwrapper.lastSeq = -1
  last : ∀ entry, s.arrived.head? = some entry → s.proxy.unwrapper.lastSeq = entry.1 ∧
    entry ∈ s.proxy.packetArrivalTimes
  idle : s.unreported = [] → s.proxy.windowStartSeq = -1
  window : s.unreported ≠ [] → ∃ entry ∈ s.proxy.packetArrivalTimes, entry.1 = s.proxy.windowStartSeq
  waiting : ∀ entry ∈ s.unreported, entry ∈ s.proxy.packetArrivalTimes ∧ s.proxy.windowStartSeq ≤ entry.1

theorem start_inv : start.Inv where
  close := List.IsChain.nil
  kept _ h := nomatch h
  nonneg _ h := nomatch h
  none _ := rfl
  last _ h := nomatch h
  idle _ := rfl
  window h := absurd rfl h
  waiting _ h := nomatch h

variable {s : System}

theorem process_fed (h : s.Inv) {nowMs : Int} (ha : s.Allowed (.process nowMs)) :
    (s.step (.process nowMs)).1.Inv ∧ s.Fed (.process nowMs) := by
  have helapsed : ¬ s.proxy.timeUntilNextProcess nowMs > 0 := by
    rw [show s.proxy.timeUntilNextProcess nowMs = 0 from ha]
    decide
  -- The part of the map that is sent has all that wait.
  obtain ⟨before, rest, hready, hall⟩ : ∃ before rest,
      RemoteEstimatorProxy.Ready { s.proxy with lastProcessTimeMs := nowMs } before rest ∧
        ∀ entry ∈ s.unreported, entry ∈ rest := by
    have hnonneg : ∀ entry ∈ s.proxy.packetArrivalTimes, 0 ≤ entry.1 ∧ 0 ≤ entry.2 :=
      fun e he => h.nonneg e (h.kept e he)
    by_cases hnil : s.unreported = []
    · refine ⟨s.proxy.packetArrivalTimes, [], ⟨h.close, hnonneg, (List.append_nil _).symm, h.idle hnil⟩, ?_⟩
      intro entry hentry
      rw [hnil] at hentry
      cases hentry
    · obtain ⟨entry, hmem, hstart⟩ := h.window hnil
      obtain ⟨before, after, hsplit⟩ := List.append_of_mem hmem
      refine ⟨before, entry :: after, ⟨h.close, hnonneg, hsplit, hstart.symm⟩, ?_⟩
      intro e he
      obtain ⟨hin, hle⟩ := h.waiting e he
      have hsorted := close_sorted h.close
      rw [hsplit, List.pairwise_append] at hsorted
      rw [hsplit] at hin
      rcases List.mem_append.mp hin with hbefore | hlater
      · have := hsorted.2.2 e hbefore entry List.mem_cons_self
        omega
      · exact hlater
  have hshort : rest.length < s.proxy.packetArrivalTimes.length + 2 := by
    have hsplit : s.proxy.packetArrivalTimes = before ++ rest := hready.split
    rw [hsplit, List.length_append]
    omega
  obtain ⟨sent, feedbackSequence, hsend, hcontains⟩ := RemoteEstimatorProxy.sendFeedback_spec hready hshort
  have hprocess : s.proxy.process nowMs = some (sent,
      { s.proxy with lastProcessTimeMs := nowMs, feedbackSequence := feedbackSequence, windowStartSeq := -1 }) := by
    rw [RemoteEstimatorProxy.process, if_neg helapsed]
    exact hsend
  constructor
  · simp only [step, hprocess]
    exact ⟨h.close, h.kept, h.nonneg, h.none, h.last, fun _ => rfl, fun hne => absurd rfl hne, fun _ he => nomatch he⟩
  · refine ⟨sent, by simp only [step, hprocess], ?_⟩
    exact fun entry hentry => hcontains entry (hall entry hentry)

/-- What `Allowed` says, with the number in the unwrapper. -/
theorem arrival_ready (h : s.Inv) {ssrc : Option UInt32} {number arrivalTimeMs : Int}
    (ha : s.Allowed (.arrival ssrc number arrivalTimeMs)) :
    0 ≤ number ∧ s.proxy.unwrapper.unwrapWithoutUpdate (u16 number) = number ∧ (∀ entry ∈ s.arrived, entry.1 ≠ number) ∧
      (s.proxy.packetArrivalTimes = [] ∨ ∃ entry ∈ s.proxy.packetArrivalTimes, (number - entry.1).natAbs ≤ 32767) := by
  obtain ⟨_, hnumber⟩ := ha
  generalize harrived : s.arrived = arrived at hnumber
  have hunwrapper {n : Int} (hn : s.proxy.unwrapper.lastSeq = n) : s.proxy.unwrapper = ⟨n⟩ := by
    rw [← hn]
  cases arrived with
  | nil =>
    obtain ⟨h0, h1⟩ := hnumber
    refine ⟨h0, ?_, fun e he => (List.not_mem_nil he).elim, Or.inl ?_⟩
    · rw [hunwrapper (h.none harrived)]
      exact SequenceNumberUnwrapper.unwrap_first h0 h1
    · apply List.eq_nil_iff_forall_not_mem.mpr
      intro e he
      have hin := h.kept e he
      rw [harrived] at hin
      cases hin
  | cons last before =>
    obtain ⟨hnear, hfirst, hnew⟩ := hnumber
    obtain ⟨hlastSeq, hmem⟩ := h.last last (by rw [harrived]; rfl)
    have hend := List.getLast?_eq_some_getLast (List.cons_ne_nil last before)
    have h0 : 0 ≤ number := by
      have hle := hfirst _ hend
      have hin : (last :: before).getLast (List.cons_ne_nil last before) ∈ s.arrived := by
        rw [harrived]
        exact List.getLast_mem _
      have := (h.nonneg _ hin).1
      omega
    have hlast0 : 0 ≤ last.1 := (h.nonneg last (h.kept last hmem)).1
    refine ⟨h0, ?_, hnew, Or.inr ⟨last, hmem, hnear⟩⟩
    rw [hunwrapper hlastSeq]
    exact SequenceNumberUnwrapper.unwrap_near hlast0 h0 hnear

theorem arrival_fed (h : s.Inv) {ssrc : Option UInt32} {number arrivalTimeMs : Int}
    (ha : s.Allowed (.arrival ssrc number arrivalTimeMs)) :
    (s.step (.arrival ssrc number arrivalTimeMs)).1.Inv ∧ s.Fed (.arrival ssrc number arrivalTimeMs) := by
  obtain ⟨h0, hunwrap, hnew, hnear⟩ := arrival_ready h ha
  have hnewKept : ∀ entry ∈ s.proxy.packetArrivalTimes, entry.1 ≠ number := fun e he => hnew e (h.kept e he)
  obtain ⟨proxy, hproxy, harrived⟩ : ∃ proxy, s.arrive number arrivalTimeMs ssrc = some proxy ∧
      Arrived s.proxy proxy (number, arrivalTimeMs) := by
    cases ssrc with
    | none =>
      obtain ⟨q, hq, harrived⟩ := onPacketArrival_spec arrivalTimeMs h.close hunwrap hnewKept hnear
      refine ⟨q, ?_, harrived⟩
      simp only [arrive, RemoteEstimatorProxy.incomingPacketFeedbackVector, List.foldlM_cons,
        List.foldlM_nil, hq, Option.bind_eq_bind,
        Option.bind_some, Option.pure_def]
    | some ssrc =>
      obtain ⟨q, hq, harrived⟩ :=
        onPacketArrival_spec (p := { s.proxy with mediaSsrc := ssrc }) arrivalTimeMs h.close hunwrap hnewKept hnear
      exact ⟨q, hq, ⟨harrived.unwrapper, harrived.close, harrived.present, harrived.old,
        harrived.begins, harrived.goesOn⟩⟩
  have hstep : s.step (.arrival ssrc number arrivalTimeMs) =
      (⟨proxy, (number, arrivalTimeMs) :: s.arrived, (number, arrivalTimeMs) :: s.unreported⟩, some []) := by
    simp only [step, hproxy]
  refine ⟨?_, [], by rw [hstep], trivial⟩
  rw [hstep]
  have hfresh : s.proxy.windowStartSeq = -1 → s.unreported = [] := by
    intro hidle
    by_contra hne
    obtain ⟨entry, hmem, hstart⟩ := h.window hne
    have := (h.nonneg entry (h.kept entry hmem)).1
    omega
  constructor
  · exact harrived.close
  · intro e he
    rcases harrived.old e he with rfl | hold
    · exact List.mem_cons_self
    · exact List.mem_cons_of_mem _ (h.kept e hold)
  · intro e he
    rcases List.mem_cons.mp he with rfl | hold
    · exact ⟨h0, ha.1⟩
    · exact h.nonneg e hold
  · exact fun hnil => absurd hnil (List.cons_ne_nil _ _)
  · intro e he
    cases he
    exact ⟨harrived.unwrapper, harrived.present⟩
  · exact fun hnil => absurd hnil (List.cons_ne_nil _ _)
  · intro _
    by_cases hidle : s.proxy.windowStartSeq = -1
    · exact ⟨_, harrived.present, (harrived.begins hidle).symm⟩
    · obtain ⟨hmin, hkeep⟩ := harrived.goesOn hidle
      dsimp only at hmin ⊢
      by_cases hbefore : number ≤ s.proxy.windowStartSeq
      · exact ⟨_, harrived.present, by rw [hmin, min_eq_left hbefore]⟩
      · have hne : s.unreported ≠ [] := fun hnil => hidle (h.idle hnil)
        obtain ⟨entry, hmem, hstart⟩ := h.window hne
        exact ⟨entry, hkeep entry hmem, by rw [hmin, min_eq_right (by omega), hstart]⟩
  · intro e he
    by_cases hidle : s.proxy.windowStartSeq = -1
    · rw [hfresh hidle] at he
      rcases List.mem_cons.mp he with rfl | hnone
      · exact ⟨harrived.present, le_of_eq (harrived.begins hidle)⟩
      · cases hnone
    · obtain ⟨hmin, hkeep⟩ := harrived.goesOn hidle
      dsimp only at hmin ⊢
      rcases List.mem_cons.mp he with rfl | hold
      · exact ⟨harrived.present, by rw [hmin]; exact min_le_left _ _⟩
      · obtain ⟨hmem, hle⟩ := h.waiting e hold
        exact ⟨hkeep e hmem, by rw [hmin]; exact le_trans (min_le_right _ _) hle⟩

/-- **Every arrival is fed back**, in every run. -/
theorem arrivals_fed_back {actions : List Action} (h : Machine.Meets step Allowed start actions) :
    Machine.Meets step Fed start actions := by
  refine Machine.meets_of_inv (P := Inv) (fun s a hs ha => ?_) start_inv h
  cases a with
  | arrival ssrc number arrivalTimeMs => exact arrival_fed hs ha
  | process nowMs => exact process_fed hs ha

/-- Three packets around a wrap, not in order, and after they were fed back a fourth that fills the gap. -/
theorem arrivals_fed_back_wrap : Machine.Meets step Fed start
    [.arrival (some 7) 65535 100, .arrival (some 7) 65538 130, .arrival none 65536 120, .process 200,
      .arrival (some 7) 65537 210,
      .process 400] := by
  have hallowed : Machine.Meets step Allowed start
      [.arrival (some 7) 65535 100, .arrival (some 7) 65538 130, .arrival none 65536 120,
        .process 200, .arrival (some 7) 65537 210,
        .process 400] := by
    refine ⟨⟨by decide, by decide, by decide⟩, ⟨by decide, by decide, ?_, by decide⟩,
      ⟨by decide, by decide, ?_, by decide⟩, rfl,
      ⟨by decide, by decide, ?_, by decide⟩, rfl, trivial⟩ <;>
    · intro first hfirst
      cases hfirst
      decide
  exact arrivals_fed_back hallowed

end System

end WebRtc.Estimator
