import WebRtc.Common.Shifts
import WebRtc.NetEq.PacketBuffer

/-!
# Timestamps that are moved by a constant

| here | there |
| --- | --- |
| `nextHigherTimestamp` | `packet_buffer.cc:158-175` |

The list is kept in wrap-around order, and `DiscardOldPackets` compares with wrap-around. `NextHigherTimestamp`
compares plain numbers, so what it finds depends on where the numbers wrap. `commutes_iff`: moving all timestamps
moves the results exactly when the plain comparison tells the packets apart as the wrap-around comparison does,
before and after, and no packet is discarded for its distance of half the range from the horizon.
-/

namespace WebRtc.NetEq

open Rtp

/-! ## Searches -/

section Lists
variable {α κ : Type} {key : α → κ}

/-- Two searches by key find the same key when the second finds nothing sooner and takes what the first does. -/
theorem find?_key_eq_iff (first second : κ → Bool) (l : List α) :
    (l.find? fun a => second (key a)).map key = (l.find? fun a => first (key a)).map key ↔
      (∀ a ∈ l.takeWhile fun a => !first (key a), second (key a) = false) ∧
        ∀ a ∈ (l.dropWhile fun a => !first (key a)).head?, second (key a) = true := by
  induction l with
  | nil => simp
  | cons a l ih =>
    by_cases hfirst : first (key a) = true
    · by_cases hsecond : second (key a) = true
      · simp [hfirst, hsecond]
      · -- What is found further on has another key.
        have hother : (l.find? fun b => second (key b)).map key ≠ some (key a) := by
          intro h
          obtain ⟨b, hb, heq⟩ := Option.map_eq_some_iff.1 h
          have hb' := List.find?_some hb
          rw [heq] at hb'
          exact hsecond hb'
        simp [hfirst, hsecond, hother]
    · by_cases hsecond : second (key a) = true
      · have hother : (l.find? fun b => first (key b)).map key ≠ some (key a) := by
          intro h
          obtain ⟨b, hb, heq⟩ := Option.map_eq_some_iff.1 h
          have hb' := List.find?_some hb
          rw [heq] at hb'
          exact hfirst hb'
        simp [hfirst, hsecond, Ne.symm hother]
      · rw [Bool.not_eq_true] at hfirst hsecond
        simpa [hfirst, hsecond] using ih

theorem dropWhile_congr {drop drop' : α → Bool} {l : List α} (h : ∀ a ∈ l, drop' a = drop a) :
    l.dropWhile drop' = l.dropWhile drop := by
  induction l with
  | nil => rfl
  | cons a l ih =>
    obtain ⟨ha, hl⟩ := List.forall_mem_cons.1 h
    rw [List.dropWhile_cons, List.dropWhile_cons, ha, ih hl]

/-- Two ways to drop elements that differ only for those with `odd`, all of which they treat alike. -/
theorem dropWhile_eq_iff {drop drop' odd : α → Bool} {l : List α} (hagree : ∀ a ∈ l, odd a = false → drop' a = drop a)
    (halike : ∀ a ∈ l, ∀ b ∈ l, odd a = true → odd b = true → drop a = drop b ∧ drop' a = drop' b) :
    l.dropWhile drop' = l.dropWhile drop ↔
      ∀ a ∈ (l.dropWhile fun a => drop a && !odd a).head?, odd a = true → drop' a = drop a := by
  induction l with
  | nil => simp
  | cons a l ih =>
    have hagree' : ∀ b ∈ l, odd b = false → drop' b = drop b := fun b hb => hagree b (List.mem_cons_of_mem a hb)
    by_cases hodd : odd a = true
    · have hhead : ((a :: l).dropWhile fun a => drop a && !odd a).head? = some a := by simp [hodd]
      simp only [hhead, Option.mem_def, Option.some.injEq, forall_eq', hodd, forall_const]
      constructor
      · intro h
        by_contra hne
        have hlength := congrArg List.length h
        have hle := (List.dropWhile_sublist drop (l := l)).length_le
        have hle' := (List.dropWhile_sublist drop' (l := l)).length_le
        cases hd : drop a <;> cases hd' : drop' a <;> simp [hd, hd'] at hne hlength <;> omega
      · -- The others with `odd` are treated alike too.
        intro h
        have hall : ∀ b ∈ l, drop' b = drop b := by
          intro b hb
          by_cases hb' : odd b = true
          · obtain ⟨h1, h2⟩ := halike a List.mem_cons_self b (List.mem_cons_of_mem a hb) hodd hb'
            rw [← h1, ← h2, h]
          · exact hagree' b hb (Bool.not_eq_true _ ▸ hb')
        rw [List.dropWhile_cons, List.dropWhile_cons, h, dropWhile_congr hall]
    · rw [Bool.not_eq_true] at hodd
      have hsame := hagree a List.mem_cons_self hodd
      have hrest := ih hagree' fun b hb d hd => halike b (List.mem_cons_of_mem a hb) d (List.mem_cons_of_mem a hd)
      cases hd : drop a
      · simp [hd, hodd, hsame]
      · simpa [hd, hodd, hsame] using hrest

end Lists

/-! ## The buffer -/

def Packet.shift (c : UInt32) (p : Packet) : Packet :=
  { p with header := { p.header with timestamp := p.header.timestamp + c } }

@[simp] theorem Packet.timestamp_shift (c : UInt32) (p : Packet) : (p.shift c).timestamp = p.timestamp + c := rfl

@[simp] theorem Packet.payload_shift (c : UInt32) (p : Packet) : (p.shift c).payload = p.payload := rfl

/-- The return code of `NextHigherTimestamp`, with the timestamp when there is one. -/
inductive NextHigher where
  | bufferEmpty
  | notFound
  | ok (nextTimestamp : UInt32)
deriving DecidableEq, Repr

def NextHigher.shift (c : UInt32) : NextHigher → NextHigher
  | .bufferEmpty => .bufferEmpty
  | .notFound => .notFound
  | .ok nextTimestamp => .ok (nextTimestamp + c)

/-- What a search for a packet in the buffer comes to. -/
def NextHigher.ofSearch (buffer : List Packet) (found : Option UInt32) : NextHigher :=
  if buffer = [] then .bufferEmpty else
    match found with
    | some nextTimestamp => .ok nextTimestamp
    | none => .notFound

/-- `timestamp` is not older than `query`: it is less than half of the range ahead. -/
def notOlder (query timestamp : UInt32) : Bool := decide ((timestamp - query).toNat < 0x80000000)

namespace PacketBuffer

variable (s : PacketBuffer)

def nextHigherTimestamp (timestamp : UInt32) : NextHigher :=
  .ofSearch s.buffer ((s.buffer.find? fun p => decide (p.timestamp ≥ timestamp)).map Packet.timestamp)

/-- The first packet that is not older than the query in wrap-around order. -/
def firstNotOlder (query : UInt32) : NextHigher :=
  .ofSearch s.buffer ((s.buffer.find? fun p => notOlder query p.timestamp).map Packet.timestamp)

def shift (c : UInt32) : PacketBuffer := { s with buffer := s.buffer.map (Packet.shift c) }

/-- The packet is discarded. -/
def goes (timestampLimit horizonSamples : UInt32) (p : Packet) : Bool :=
  decide (timestampLimit ≠ p.timestamp) && isObsoleteTimestamp p.timestamp timestampLimit horizonSamples

/-- The packet is as far from the horizon as it can be: half of the range. -/
def tied (timestampLimit horizonSamples : UInt32) (p : Packet) : Bool :=
  decide (horizonSamples ≠ 0) && decide (p.timestamp - (timestampLimit - horizonSamples) = 0x80000000)

/-- The packets have a payload, and they and the query lie within half of the range. -/
structure Content (query : UInt32) : Prop where
  payloads : ∀ p ∈ s.buffer, p.payload.isNone = false
  span : ∃ base : UInt32, (query - base).toNat < 0x80000000 ∧ ∀ p ∈ s.buffer, (p.timestamp - base).toNat < 0x80000000

/-- **What moving all timestamps by `c` does**: it moves the results, and the search finds the right packet. -/
structure Commutes (query horizonSamples c : UInt32) : Prop where
  higher : (s.shift c).nextHigherTimestamp (query + c) = (s.nextHigherTimestamp query).shift c
  discards : (s.shift c).discardOldPackets (query + c) horizonSamples =
    (s.discardOldPackets query horizonSamples).map (·.shift c)
  first : s.nextHigherTimestamp query = s.firstNotOlder query

/-- As plain numbers the packets before the first one that is not older are below the query, and this one is not. -/
def ToldApart (query : UInt32) : Prop :=
  (∀ p ∈ s.buffer.takeWhile fun p => !notOlder query p.timestamp, p.timestamp < query) ∧
    ∀ p ∈ (s.buffer.dropWhile fun p => !notOlder query p.timestamp).head?, query ≤ p.timestamp

/-- If it depends on the plain numbers whether a packet is discarded, `c` moves it into the same half of them. -/
def HorizonKept (query horizonSamples c : UInt32) : Prop :=
  ∀ p ∈ (s.buffer.dropWhile fun p => goes query horizonSamples p && !tied query horizonSamples p).head?,
    isNewerTimestamp query p.timestamp = true → tied query horizonSamples p = true →
      (0x80000000 ≤ (p.timestamp + c).toNat ↔ 0x80000000 ≤ p.timestamp.toNat)

variable {s} {query horizonSamples c : UInt32}

/-! ## The search -/

theorem ofSearch_map (f : Packet → Packet) (buffer : List Packet) (found : Option UInt32) :
    NextHigher.ofSearch (buffer.map f) found = NextHigher.ofSearch buffer found := by
  simp [NextHigher.ofSearch]

theorem ofSearch_shift (buffer : List Packet) (found : Option UInt32) :
    NextHigher.ofSearch buffer (found.map (· + c)) = (NextHigher.ofSearch buffer found).shift c := by
  unfold NextHigher.ofSearch
  split
  · rfl
  · cases found <;> rfl

/-- The right packet moves with the others. -/
theorem firstNotOlder_shift : (s.shift c).firstNotOlder (query + c) = (s.firstNotOlder query).shift c := by
  have hmoved : ((s.shift c).buffer.find? fun p => notOlder (query + c) p.timestamp).map Packet.timestamp =
      ((s.buffer.find? fun p => notOlder query p.timestamp).map Packet.timestamp).map (· + c) := by
    simp only [shift, List.find?_map, Option.map_map]
    congr 1
    · congr 1
      funext p
      simp [notOlder]
  rw [firstNotOlder, hmoved, ofSearch_shift, firstNotOlder, shift, ofSearch_map]

theorem ofSearch_inj {buffer : List Packet} (hne : buffer ≠ []) {found found' : Option UInt32} :
    NextHigher.ofSearch buffer found = NextHigher.ofSearch buffer found' ↔ found = found' := by
  cases found <;> cases found' <;> simp [NextHigher.ofSearch, hne]

theorem nextHigher_right : s.nextHigherTimestamp query = s.firstNotOlder query ↔ s.ToldApart query := by
  by_cases hne : s.buffer = []
  · simp [nextHigherTimestamp, firstNotOlder, ToldApart, hne, NextHigher.ofSearch]
  · rw [nextHigherTimestamp, firstNotOlder, ofSearch_inj hne,
      @find?_key_eq_iff Packet UInt32 Packet.timestamp (notOlder query)
        (fun t => decide (t ≥ query)) s.buffer, ToldApart]
    simp

/-! ## What is discarded -/

theorem discardOld_eq {buffer : List Packet} (hpayloads : ∀ p ∈ buffer, p.payload.isNone = false) :
    discardOld query horizonSamples buffer = some (buffer.dropWhile (goes query horizonSamples)) := by
  induction buffer with
  | nil => rfl
  | cons p rest ih =>
    obtain ⟨hp, hrest⟩ := List.forall_mem_cons.1 hpayloads
    simp only [discardOld, hp, Bool.false_eq_true, if_false, ih hrest, List.dropWhile_cons, goes, Bool.and_eq_true,
      decide_eq_true_eq]
    split <;> rfl

theorem tied_timestamp {p : Packet} (h : tied query horizonSamples p = true) :
    p.timestamp = query - horizonSamples + 0x80000000 := by
  simp only [tied, Bool.and_eq_true, decide_eq_true_eq] at h
  rw [← h.2]
  exact (UInt32.sub_add_cancel _ _).symm.trans (UInt32.add_comm _ _)

theorem tied_shift {p : Packet} : tied (query + c) horizonSamples (p.shift c) = tied query horizonSamples p := by
  have hlimit : query + c - horizonSamples = query - horizonSamples + c := shift_comm_sub32 query horizonSamples c
  simp [tied, hlimit]

/-- But for a packet that is tied, moving all timestamps does not change whether it goes. -/
theorem goes_shift {p : Packet} (hhalf : query - p.timestamp ≠ 0x80000000)
    (htied : tied query horizonSamples p = false) :
    goes (query + c) horizonSamples (p.shift c) = goes query horizonSamples p := by
  simp only [tied, Bool.and_eq_false_iff, decide_eq_false_iff_not, not_not] at htied
  simp only [goes, isObsoleteTimestamp, Packet.timestamp_shift, shift_comm_sub32, isNewerTimestamp_shift hhalf, ne_eq,
    shift_inj32]
  rcases htied with hzero | hne
  · simp [hzero]
  · rw [isNewerTimestamp_shift hne]

/-- A tied one goes when it is older, in the upper half of the plain numbers. -/
theorem goes_tied {p : Packet} (htied : tied query horizonSamples p = true) :
    goes query horizonSamples p = true ↔ isNewerTimestamp query p.timestamp = true ∧
      0x80000000 ≤ p.timestamp.toNat := by
  simp only [tied, Bool.and_eq_true, decide_eq_true_eq] at htied
  have hne : isNewerTimestamp query p.timestamp = true → query ≠ p.timestamp := by
    rintro h rfl
    simp [isNewerTimestamp] at h
  simp only [goes, isObsoleteTimestamp, isNewerTimestamp_half htied.2, htied.1, Bool.and_eq_true, Bool.or_eq_true,
    decide_eq_true_eq, false_or]
  exact ⟨fun h => h.2, fun h => ⟨hne h.1, h⟩⟩

theorem shift_packet_inj {p q : Packet} : p.shift c = q.shift c ↔ p = q := by
  constructor
  · intro h
    obtain ⟨⟨_, _, _, _, _, _, _, _, _, _⟩, _, _, _, _, _⟩ := p
    obtain ⟨⟨_, _, _, _, _, _, _, _, _, _⟩, _, _, _, _, _⟩ := q
    simpa [Packet.shift] using h
  · rintro rfl
    rfl

theorem half_apart {p : Packet} (hcontent : s.Content query) (hp : p ∈ s.buffer) :
    query - p.timestamp ≠ 0x80000000 := by
  obtain ⟨base, hquery, hspan⟩ := hcontent.span
  have hp := hspan p hp
  have h1 := query.toNat_lt
  have h2 := p.timestamp.toNat_lt
  have h3 := base.toNat_lt
  have hhalf : (0x80000000 : UInt32).toNat = 0x80000000 := rfl
  intro h
  have hsub := congrArg UInt32.toNat h
  rw [UInt32.toNat_sub] at hquery hp hsub
  omega

/-- **What is discarded moves with the others** exactly when no tied packet is moved between the halves. -/
theorem discards_iff (hcontent : s.Content query) :
    (s.shift c).discardOldPackets (query + c) horizonSamples =
      (s.discardOldPackets query horizonSamples).map (·.shift c) ↔ s.HorizonKept query horizonSamples c := by
  have hpayloads : ∀ p ∈ (s.shift c).buffer, p.payload.isNone = false := by
    intro p hp
    obtain ⟨q, hq, rfl⟩ := List.mem_map.1 hp
    exact hcontent.payloads q hq
  have hinj : Function.Injective (List.map (Packet.shift c)) := List.map_injective_iff.2 fun _ _ => shift_packet_inj.1
  have hmoved : (s.shift c).discardOldPackets (query + c) horizonSamples = some { s with
      buffer := (s.buffer.dropWhile fun p => goes (query + c) horizonSamples (p.shift c)).map (Packet.shift c) } := by
    rw [discardOldPackets, discardOld_eq hpayloads, shift, List.dropWhile_map]
    rfl
  have hthere : s.discardOldPackets query horizonSamples =
      some { s with buffer := s.buffer.dropWhile (goes query horizonSamples) } := by
    rw [discardOldPackets, discardOld_eq hcontent.payloads]
    rfl
  rw [hmoved, hthere, Option.map_some, Option.some.injEq, shift, PacketBuffer.mk.injEq, eq_self_iff_true, true_and,
    hinj.eq_iff, @dropWhile_eq_iff Packet (goes query horizonSamples)
      (fun p => goes (query + c) horizonSamples (p.shift c)) (tied query horizonSamples)]
  · refine forall₂_congr fun p hp => ?_
    have hmem : p ∈ s.buffer := (List.dropWhile_suffix _).subset (List.mem_of_mem_head? hp)
    have hnewer := isNewerTimestamp_shift (half_apart hcontent hmem) c
    by_cases htied : tied query horizonSamples p = true
    · have htied' : tied (query + c) horizonSamples (p.shift c) = true := by rw [tied_shift, htied]
      have hgoes : goes (query + c) horizonSamples (p.shift c) = goes query horizonSamples p ↔
          (isNewerTimestamp query p.timestamp = true →
            (0x80000000 ≤ (p.timestamp + c).toNat ↔ 0x80000000 ≤ p.timestamp.toNat)) := by
        rw [Bool.eq_iff_iff, goes_tied htied, goes_tied htied', Packet.timestamp_shift, hnewer]
        by_cases holder : isNewerTimestamp query p.timestamp = true <;> simp [holder]
      simp [htied, hgoes]
    · simp [htied]
  · exact fun p hp htied => goes_shift (half_apart hcontent hp) htied
  · intro p hp q hq hp' hq'
    have hsame : p.timestamp = q.timestamp := by rw [tied_timestamp hp', tied_timestamp hq']
    simp [goes, hsame]

/-- **Moving all timestamps moves the results** under exactly these conditions. -/
theorem commutes_iff (s : PacketBuffer) (query horizonSamples c : UInt32) (hcontent : s.Content query) :
    s.Commutes query horizonSamples c ↔
      s.ToldApart query ∧ (s.shift c).ToldApart (query + c) ∧ s.HorizonKept query horizonSamples c := by
  rw [← nextHigher_right, ← nextHigher_right, ← discards_iff hcontent, firstNotOlder_shift]
  constructor
  · rintro ⟨hhigher, hdiscards, hfirst⟩
    exact ⟨hfirst, by rw [hhigher, hfirst], hdiscards⟩
  · rintro ⟨hfirst, hmoved, hdiscards⟩
    exact ⟨by rw [hmoved, hfirst], hdiscards, hfirst⟩

/-- A buffer with packets at these timestamps. -/
def bufferAt (timestamps : List UInt32) : PacketBuffer where
  maxNumberOfPackets := 8
  buffer := timestamps.map fun timestamp =>
    { header := { RTPHeader.empty with timestamp }
      payload := some [0]
      payloadLength := 1
      primary := true
      waitingTime := 0
      syncPacket := false }

theorem bufferAt_content {timestamps : List UInt32} {query : UInt32} (base : UInt32)
    (hquery : (query - base).toNat < 0x80000000)
    (hspan : ∀ t ∈ timestamps, (t - base).toNat < 0x80000000) : (bufferAt timestamps).Content query := by
  constructor
  · simp [bufferAt]
  · refine ⟨base, hquery, ?_⟩
    simpa [bufferAt, Packet.timestamp] using hspan

/-- The query lies between two packets, and nothing wraps. -/
theorem commutes_between : (bufferAt [10, 20]).Commutes 15 160 5 :=
  (commutes_iff (bufferAt [10, 20]) 15 160 5 (bufferAt_content 0 (by decide) (by simp))).2
    ⟨by unfold ToldApart; decide, by unfold ToldApart; decide, by unfold HorizonKept; decide⟩

/-- The older packet is above the query as a plain number. -/
theorem not_commutes_straddling : ¬ ∀ (s : PacketBuffer) (query horizonSamples c : UInt32), s.Content query →
    s.Commutes query horizonSamples c := by
  intro h
  have hfirst := (h (bufferAt [0xFFFFFFF0, 16]) 0 0 0 (bufferAt_content 0xFFFFFFF0 (by decide) (by simp))).first
  exact absurd hfirst (by decide)

end PacketBuffer

end WebRtc.NetEq
