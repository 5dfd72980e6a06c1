import WebRtc.H264.Received

/-!
# The packets of a list of units

`Sends p queue out`: `NextPacket` makes `out` of the packets that are queued. The fragments of a unit are of
nearly one size, and there are two of them at least; the units of one STAP-A packet are a prefix of those that
are left.
-/

namespace WebRtc.H264

open CInt Bytes Vp8 RtpPacketizerH264

/-- The units as fragments of a payload from `offset` on. -/
def fragmentsFrom : Nat → List Nalu → List (Nat × Nat)
  | _, [] => []
  | offset, n :: ns => (offset, n.bytes.length) :: fragmentsFrom (offset + n.bytes.length) ns

/-- The units one after the other. -/
def packetizer (maxPayloadLen : Nat) (nalus : List Nalu) : RtpPacketizerH264 where
  payloadData := nalus.flatMap Nalu.bytes
  maxPayloadLen
  fragmentation :=
    { fragmentationOffset := (fragmentsFrom 0 nalus).map Prod.fst
      fragmentationLength := (fragmentsFrom 0 nalus).map Prod.snd }

variable {p : RtpPacketizerH264}

/-! ## The queue -/

def Sends (p : RtpPacketizerH264) (queue : List Packet) (out : List (List UInt8)) : Prop :=
  ∀ rounds, queue.length ≤ rounds → p.sendAll rounds queue = out

theorem sends_nil : Sends p [] [] := by
  intro rounds _
  cases rounds <;> rfl

theorem Sends.next {queue rest : List Packet} {out : List (List UInt8)} {bytes : List UInt8} (h : Sends p rest out)
    (hnext : p.nextPacket queue = some (bytes, rest)) (hless : rest.length < queue.length) :
    Sends p queue (bytes :: out) := by
  intro rounds hrounds
  cases rounds with
  | zero => omega
  | succ rounds =>
    rw [sendAll, hnext]
    exact congrArg (bytes :: ·) (h rounds (by omega))

theorem dataOf_at {offset : Nat} {bytes : List UInt8} (h : At p.payloadData offset bytes) (packet : Packet)
    (hoffset : packet.offset = offset) (hsize : packet.size = bytes.length) : p.dataOf packet = bytes := by
  rw [dataOf, hoffset, hsize]
  obtain ⟨rest, hrest⟩ := h
  rw [← hrest, List.take_left]

/-! ## Fragments -/

/-- A packet of one fragment, which is not all of its unit. -/
theorem Sends.fragment {queue : List Packet} {out : List (List UInt8)} {packet : Packet} {chunk : List UInt8}
    (h : Sends p queue out) (hdata : p.dataOf packet = chunk)
    (hpart : (packet.firstFragment && packet.lastFragment) = false) (hkind : packet.aggregated = false) :
    Sends p (packet :: queue) (fuPacket packet.header packet.firstFragment packet.lastFragment chunk :: out) := by
  refine h.next ?_ (Nat.lt_succ_self _)
  rw [nextPacket, hpart, hkind, nextFragmentPacket, hdata]
  rfl

theorem fragmentLoop_end (fragmentOffset avgSize : Nat) (header : UInt8) (rounds offset : Nat) :
    fragmentLoop fragmentOffset avgSize header rounds offset 0 = [] := by
  cases rounds <;> rfl

/-- The rounds of `PacketizeFuA`. -/
theorem fragmentLoop_sends {fragmentOffset avgSize : Nat} {header : UInt8} (havg : 0 < avgSize) (rounds : Nat)
    {offset : Nat} {body : List UInt8} (hbody : At p.payloadData offset body) (hne : body ≠ [])
    (hrounds : body.length ≤ rounds) (hoffset : fragmentOffset < offset)
    (hcut : offset = fragmentOffset + 1 → avgSize < body.length) :
    ∃ chunks, chunks.flatten = body ∧ (∀ c ∈ chunks, c ≠ [] ∧ c.length ≤ avgSize) ∧
      (avgSize < body.length → 2 ≤ chunks.length) ∧
      ∀ queue out, Sends p queue out →
        Sends p (fragmentLoop fragmentOffset avgSize header rounds offset body.length ++ queue)
          (fuPackets header (decide (offset = fragmentOffset + 1)) chunks ++ out) := by
  induction rounds generalizing offset body with
  | zero => exact absurd (List.eq_nil_of_length_eq_zero (Nat.le_zero.1 hrounds)) hne
  | succ rounds ih =>
    have hpos := List.length_pos_iff.2 hne
    have hfirst : decide (offset - kNalHeaderSize = fragmentOffset) = decide (offset = fragmentOffset + 1) := by
      rw [kNalHeaderSize, decide_eq_decide]
      omega
    rw [fragmentLoop, if_pos hpos]
    by_cases hmore : avgSize < body.length
    · have hdrop : (body.drop avgSize).length = body.length - avgSize := List.length_drop
      have htake : (body.take avgSize).length = avgSize := by
        rw [List.length_take]
        omega
      have hsplit : At p.payloadData offset (body.take avgSize ++ body.drop avgSize) := by
        rwa [List.take_append_drop]
      obtain ⟨hhere, hthere⟩ := at_append.1 hsplit
      rw [htake] at hthere
      have hrest : body.drop avgSize ≠ [] := by
        intro h0
        rw [h0, List.length_nil] at hdrop
        omega
      obtain ⟨chunks, hflatten, hsizes, -, hsends⟩ := ih hthere hrest (by omega) (by omega) (by omega)
      have hchunks : chunks ≠ [] := by
        rintro rfl
        exact hrest hflatten.symm
      refine ⟨body.take avgSize :: chunks, ?_, ?_, ?_, fun queue out h => ?_⟩
      · rw [List.flatten_cons, hflatten, List.take_append_drop]
      · rw [List.forall_mem_cons]
        refine ⟨⟨fun h0 => ?_, Nat.le_of_eq htake⟩, hsizes⟩
        rw [h0, List.length_nil] at htake
        omega
      · intro _
        have hlen := List.length_pos_iff.2 hchunks
        rw [List.length_cons]
        omega
      · obtain ⟨next, chunks, rfl⟩ := List.exists_cons_of_ne_nil hchunks
        have hlater : decide (offset + avgSize = fragmentOffset + 1) = false := by
          rw [decide_eq_false_iff_not]
          omega
        have hqueue := hsends queue out h
        rw [hlater, hdrop] at hqueue
        have hlast : decide (body.length = avgSize) = false := by
          rw [decide_eq_false_iff_not]
          omega
        rw [if_neg (by omega), hfirst]
        dsimp only
        rw [hlast]
        exact hqueue.fragment (dataOf_at hhere _ rfl htake.symm) (Bool.and_false _) rfl
    · have hsize : (if body.length < avgSize then body.length else avgSize) = body.length := by
        split <;> omega
      have hlater : decide (offset = fragmentOffset + 1) = false := by
        rw [decide_eq_false_iff_not]
        exact fun h0 => hmore (hcut h0)
      refine ⟨[body], List.flatten_singleton, ?_, fun h0 => absurd h0 hmore, fun queue out h => ?_⟩
      · rw [List.forall_mem_singleton]
        exact ⟨hne, Nat.not_lt.1 hmore⟩
      · rw [hsize, hfirst, hlater]
        dsimp only
        rw [Nat.sub_self, fragmentLoop_end, decide_eq_true rfl]
        exact h.fragment (dataOf_at hbody _ rfl rfl) (Bool.false_and _) rfl

/-- The size of the fragments. -/
theorem avgSize_spec {length available : Nat} (havailable : 0 < available) (hlong : available < length) :
    0 < (length + (length + (available - 1)) / available - 1) / ((length + (available - 1)) / available) ∧
    (length + (length + (available - 1)) / available - 1) / ((length + (available - 1)) / available) ≤ available ∧
    (length + (length + (available - 1)) / available - 1) / ((length + (available - 1)) / available) < length := by
  have hceil : length ≤ available * ((length + (available - 1)) / available) := by
    have hmod := Nat.div_add_mod (length + (available - 1)) available
    have hlt := Nat.mod_lt (length + (available - 1)) havailable
    omega
  generalize (length + (available - 1)) / available = fragments at hceil ⊢
  have htwo : 2 ≤ fragments := by
    by_contra hfew
    have hone : fragments ≤ 1 := by omega
    have hle := Nat.mul_le_mul_left available hone
    omega
  refine ⟨Nat.div_pos (by omega) (by omega), Nat.le_of_lt_succ ?_, ?_⟩
  · rw [Nat.div_lt_iff_lt_mul (by omega), Nat.succ_mul]
    omega
  · rw [Nat.div_lt_iff_lt_mul (by omega)]
    have hpair : length * fragments = length * (fragments - 1) + length := by
      rw [← Nat.mul_succ, Nat.succ_eq_add_one, Nat.sub_add_cancel (by omega)]
    have hge : 2 * (fragments - 1) ≤ length * (fragments - 1) := Nat.mul_le_mul_right _ (by omega)
    omega

/-- A unit that does not fit. -/
theorem packetizeFuA_sends {n : Nalu} {offset : Nat} (hmin : 3 ≤ p.maxPayloadLen) (hmax : p.maxPayloadLen < 2 ^ 64)
    (hn : At p.payloadData offset n.bytes) (hlong : p.maxPayloadLen < n.bytes.length) :
    ∃ chunks, chunks.flatten = n.body ∧ (∀ c ∈ chunks, c ≠ [] ∧ c.length + kFuAHeaderSize ≤ p.maxPayloadLen) ∧
      2 ≤ chunks.length ∧ ∀ queue out, Sends p queue out →
        Sends p (p.packetizeFuA offset n.bytes.length ++ queue) (fuPackets n.header true chunks ++ out) := by
  obtain ⟨hheader, hbody⟩ := at_cons.1 hn
  rw [n.bytes_length] at hlong
  have hroom : szSub p.maxPayloadLen kFuAHeaderSize = p.maxPayloadLen - 2 :=
    szSub_eq (by rw [kFuAHeaderSize]; omega) hmax
  obtain ⟨hpos, hle, hless⟩ := @avgSize_spec n.body.length (p.maxPayloadLen - 2)
      (by omega) (by omega)
  have hpacketize : p.packetizeFuA offset n.bytes.length = fragmentLoop offset
      ((n.body.length + (n.body.length + (p.maxPayloadLen - 2 - 1)) / (p.maxPayloadLen - 2) - 1) /
        ((n.body.length + (p.maxPayloadLen - 2 - 1)) / (p.maxPayloadLen - 2)))
      n.header n.body.length (offset + 1) n.body.length := by
    rw [packetizeFuA, hroom, hheader.byte]
    rfl
  obtain ⟨chunks, hflatten, hsizes, hcut, hsends⟩ :=
    @fragmentLoop_sends p offset _ n.header hpos n.body.length _ _ hbody
    n.hasBody (Nat.le_refl _) (Nat.lt_succ_self offset) fun _ => hless
  refine ⟨chunks, hflatten, fun c hc => ?_, hcut hless, fun queue out h => ?_⟩
  · obtain ⟨hne, hsize⟩ := hsizes c hc
    refine ⟨hne, ?_⟩
    rw [kFuAHeaderSize]
    omega
  · have hqueue := hsends queue out h
    rw [decide_eq_true rfl] at hqueue
    rw [hpacketize]
    exact hqueue

/-! ## Units of one packet -/

/-- The packets that `PacketizeStapA` queues for units. -/
def unitPackets : Bool → Nat → List Nalu → List Packet
  | _, _, [] => []
  | first, offset, n :: ns =>
    { offset, size := n.bytes.length, firstFragment := first, lastFragment := false, aggregated := true,
      header := n.header } ::
      unitPackets false (offset + n.bytes.length) ns

/-- The units that still fit after the first one: `headers` counts what comes with the next one. -/
theorem aggregateLoop_spec (left k headers : Nat) {offset : Nat} {ns : List Nalu} (hk : k ≠ 0)
    (hns : At p.payloadData offset (ns.flatMap Nalu.bytes)) :
    ∃ group rest, ns = group ++ rest ∧
      p.aggregateLoop left k headers (fragmentsFrom offset ns) =
        (unitPackets false offset group, fragmentsFrom (offset + (group.flatMap Nalu.bytes).length) rest) ∧
      (group ≠ [] → (group.flatMap stapUnit).length + headers ≤ left + 2) := by
  induction ns generalizing left k headers offset with
  | nil => exact ⟨[], [], rfl, rfl, fun h => absurd rfl h⟩
  | cons n ns ih =>
    rw [fragmentsFrom, aggregateLoop]
    rw [List.flatMap_cons] at hns
    obtain ⟨hhere, hthere⟩ := at_append.1 hns
    obtain ⟨hheader, -⟩ := at_cons.1 hhere
    by_cases hfits : left ≥ n.bytes.length + headers
    · obtain ⟨group, rest, hsplit, hloop, hsize⟩ := ih (left - n.bytes.length - headers) (k + 1) kLengthFieldSize
        (Nat.succ_ne_zero k) hthere
      refine ⟨n :: group, rest, by rw [hsplit]; rfl, ?_, fun _ => ?_⟩
      · rw [if_pos hfits, if_neg hk, hloop, hheader.byte, decide_eq_false hk, List.flatMap_cons, List.length_append,
          Nat.add_assoc]
        rfl
      · rw [List.flatMap_cons, List.length_append, stapUnit_length]
        by_cases hgroup : group = []
        · rw [hgroup, List.flatMap_nil, List.length_nil]
          omega
        · have hmore := hsize hgroup
          rw [kLengthFieldSize] at hmore
          omega
    · rw [if_neg hfits]
      exact ⟨[], n :: ns, rfl, rfl, fun h => absurd rfl h⟩

theorem markLast_cons {packet : Packet} {packets : List Packet} (h : packets ≠ []) :
    markLast (packet :: packets) = packet :: markLast packets := by
  cases packets with
  | nil => exact absurd rfl h
  | cons next packets => rfl

/-- The units of a packet are written until the last one. -/
theorem aggregatedUnits_spec {n : Nalu} {ns : List Nalu} (first : Bool) {offset : Nat} (queue : List Packet)
    (hns : At p.payloadData offset ((n :: ns).flatMap Nalu.bytes)) :
    p.aggregatedUnits (markLast (unitPackets first offset (n :: ns)) ++ queue) =
        ((n :: ns).flatMap stapUnit, queue) := by
  induction ns generalizing n first offset with
  | nil =>
    rw [List.flatMap_singleton] at hns
    rw [unitPackets, unitPackets, markLast, List.singleton_append, aggregatedUnits, if_pos rfl, if_pos rfl,
      dataOf_at hns _ rfl rfl, List.flatMap_singleton, stapUnit]
  | cons m ns ih =>
    rw [List.flatMap_cons] at hns
    obtain ⟨hhere, hthere⟩ := at_append.1 hns
    have hrest := ih false hthere
    rw [unitPackets, markLast_cons (by simp [unitPackets]), List.cons_append, aggregatedUnits, if_pos rfl,
      if_neg Bool.false_ne_true, hrest, dataOf_at hhere _ rfl rfl]
    rfl

/-- The packets of several units are one packet. -/
theorem Sends.aggregate {n m : Nalu} {group : List Nalu} {offset : Nat} {queue : List Packet} {out : List (List UInt8)}
    (h : Sends p queue out) (hgroup : At p.payloadData offset ((n :: m :: group).flatMap Nalu.bytes)) :
    Sends p (markLast (unitPackets true offset (n :: m :: group)) ++ queue) (stapPacket n (m :: group) :: out) := by
  have hunits := aggregatedUnits_spec true queue hgroup
  refine h.next ?_ ?_
  · rw [unitPackets, markLast_cons (by simp [unitPackets]), List.cons_append] at hunits ⊢
    rw [nextPacket, nextAggregatePacket, hunits]
    rfl
  · rw [List.length_append]
    have hpos : 0 < (markLast (unitPackets true offset (n :: m :: group))).length := by simp [unitPackets, markLast]
    omega

/-- One unit is a packet of its own, and more of them are a packet together. -/
theorem packetizeStapA_sends {n : Nalu} {ns : List Nalu} {offset : Nat} (hfits : n.bytes.length ≤ p.maxPayloadLen)
    (hns : At p.payloadData offset ((n :: ns).flatMap Nalu.bytes)) :
    ∃ group rest packets bytes, ns = group ++ rest ∧
      p.packetizeStapA (fragmentsFrom offset (n :: ns)) =
        (packets, fragmentsFrom (offset + ((n :: group).flatMap Nalu.bytes).length) rest) ∧
      (∀ queue out, Sends p queue out → Sends p (packets ++ queue) (bytes :: out)) ∧
      (group = [] ∧ bytes = n.bytes ∨
        group ≠ [] ∧ bytes = stapPacket n group ∧ (stapPacket n group).length ≤ p.maxPayloadLen) := by
  have hns' := hns
  rw [List.flatMap_cons] at hns'
  obtain ⟨hhere, hthere⟩ := at_append.1 hns'
  obtain ⟨hheader, -⟩ := at_cons.1 hhere
  obtain ⟨group, rest, hsplit, hloop, hsize⟩ :=
    aggregateLoop_spec (p := p) (p.maxPayloadLen - n.bytes.length - 0) (0 + 1)
    (kLengthFieldSize + (kNalHeaderSize + kLengthFieldSize)) (Nat.succ_ne_zero 0) hthere
  have hpacketize : p.packetizeStapA (fragmentsFrom offset (n :: ns)) =
      (markLast (unitPackets true offset (n :: group)),
        fragmentsFrom (offset + ((n :: group).flatMap Nalu.bytes).length) rest) := by
    rw [packetizeStapA, fragmentsFrom, aggregateLoop,
      if_pos (show p.maxPayloadLen ≥ n.bytes.length + 0 from hfits), if_pos rfl, hloop, hheader.byte,
      List.flatMap_cons,
      List.length_append, Nat.add_assoc]
    rfl
  cases group with
  | nil =>
    refine ⟨[], rest, _, n.bytes, hsplit, hpacketize, fun queue out h => ?_, .inl ⟨rfl, rfl⟩⟩
    refine h.next ?_ (Nat.lt_succ_self _)
    exact congrArg (fun bytes => some (bytes, queue)) (dataOf_at hhere _ rfl rfl)
  | cons m group =>
    refine ⟨m :: group, rest, _, stapPacket n (m :: group), hsplit, hpacketize, fun queue out h => ?_,
      .inr ⟨List.cons_ne_nil m group, rfl, ?_⟩⟩
    · have hgroup : At p.payloadData offset ((n :: m :: group).flatMap Nalu.bytes) := by
        rw [hsplit, ← List.cons_append, List.flatMap_append] at hns
        exact (at_append.1 hns).1
      exact h.aggregate hgroup
    · have hroom := hsize (List.cons_ne_nil m group)
      have hpos := flatMap_stapUnit_length (m :: group)
      rw [kLengthFieldSize, kNalHeaderSize] at hroom
      rw [List.length_cons] at hpos
      rw [stapPacket, List.length_cons, List.flatMap_cons, List.length_append, stapUnit_length]
      omega

/-! ## All packets -/

/-- The packets of `GeneratePackets` carry the units. -/
theorem generatePackets_carries (hmin : 3 ≤ p.maxPayloadLen) (hmax : p.maxPayloadLen < 2 ^ 64) (rounds : Nat)
    {offset : Nat} {ns : List Nalu} (hns : At p.payloadData offset (ns.flatMap Nalu.bytes))
    (hrounds : ns.length ≤ rounds) :
    ∃ out, Carries p.maxPayloadLen ns out ∧ Sends p (p.generatePackets rounds (fragmentsFrom offset ns)) out := by
  induction rounds generalizing offset ns with
  | zero =>
    rw [List.eq_nil_of_length_eq_zero (Nat.le_zero.1 hrounds)]
    exact ⟨[], .nil, sends_nil⟩
  | succ rounds ih =>
    cases ns with
    | nil => exact ⟨[], .nil, sends_nil⟩
    | cons n ns =>
      have hns' := hns
      rw [List.flatMap_cons] at hns'
      obtain ⟨hhere, hthere⟩ := at_append.1 hns'
      rw [List.length_cons] at hrounds
      rw [fragmentsFrom, generatePackets]
      by_cases hlong : n.bytes.length > p.maxPayloadLen
      · rw [if_pos hlong]
        obtain ⟨chunks, hbody, hfits, hcut, hsends⟩ := packetizeFuA_sends hmin hmax hhere hlong
        obtain ⟨out, hcarries, hqueue⟩ := ih hthere (by omega)
        exact ⟨_, .fragments hcut hbody hfits hcarries, hsends _ _ hqueue⟩
      · rw [if_neg hlong]
        obtain ⟨group, rest, packets, bytes, hsplit, hpacketize, hsends, hbytes⟩ :=
          packetizeStapA_sends (Nat.not_lt.1 hlong) hns
        have hthere' : At p.payloadData (offset + ((n :: group).flatMap Nalu.bytes).length)
            (rest.flatMap Nalu.bytes) := by
          rw [hsplit, ← List.cons_append, List.flatMap_append] at hns
          exact (at_append.1 hns).2
        have hless : rest.length ≤ rounds := by
          have hlen := congrArg List.length hsplit
          rw [List.length_append] at hlen
          omega
        obtain ⟨out, hcarries, hqueue⟩ := ih hthere' hless
        rw [fragmentsFrom] at hpacketize
        rw [hpacketize]
        refine ⟨bytes :: out, ?_, hsends _ _ hqueue⟩
        rw [hsplit]
        rcases hbytes with ⟨rfl, rfl⟩ | ⟨hgroup, rfl, hroom⟩
        · exact .single (Nat.not_lt.1 hlong) hcarries
        · obtain ⟨m, group, rfl⟩ := List.exists_cons_of_ne_nil hgroup
          exact .aggregate hroom hcarries

theorem fragmentsFrom_length (offset : Nat) (ns : List Nalu) : (fragmentsFrom offset ns).length = ns.length := by
  induction ns generalizing offset with
  | nil => rfl
  | cons n ns ih => rw [fragmentsFrom, List.length_cons, ih, List.length_cons]

theorem packetizer_fragments (maxPayloadLen : Nat) (nalus : List Nalu) :
    (packetizer maxPayloadLen nalus).fragmentation.fragmentationOffset.zip
      (packetizer maxPayloadLen nalus).fragmentation.fragmentationLength = fragmentsFrom 0 nalus := by
  change List.zip ((fragmentsFrom 0 nalus).map Prod.fst) ((fragmentsFrom 0 nalus).map Prod.snd) = _
  rw [List.zip_map', List.map_id'']
  exact fun _ => rfl

/-- **The packets of a list of units.** -/
theorem packetize_carries (nalus : List Nalu) {maxPayloadLen : Nat} (hmin : 3 ≤ maxPayloadLen)
    (hmax : maxPayloadLen < 2 ^ 64) : Carries maxPayloadLen nalus (packetizer maxPayloadLen nalus).packetize := by
  have hall : At (packetizer maxPayloadLen nalus).payloadData 0 (nalus.flatMap Nalu.bytes) := List.prefix_rfl
  obtain ⟨out, hcarries, hsends⟩ := generatePackets_carries (p := packetizer maxPayloadLen nalus) hmin hmax nalus.length
    hall (Nat.le_refl _)
  have hpackets : (packetizer maxPayloadLen nalus).packets =
      (packetizer maxPayloadLen nalus).generatePackets nalus.length (fragmentsFrom 0 nalus) := by
    rw [RtpPacketizerH264.packets, packetizer_fragments, fragmentsFrom_length]
  rw [packetize, hpackets, hsends _ (Nat.le_refl _)]
  exact hcarries

variable (sps : List UInt8 → Option (UInt16 × UInt16))

/-- **Round trip.** -/
theorem packetize_roundTrip (nalus : List Nalu) {maxPayloadLen : Nat} (hmin : 3 ≤ maxPayloadLen)
    (hmax : maxPayloadLen ≤ 65542) : Carries maxPayloadLen nalus (packetizer maxPayloadLen nalus).packetize ∧
      (∀ p ∈ (packetizer maxPayloadLen nalus).packetize, p.length ≤ maxPayloadLen ∧ (parse sps p).isSome) ∧
      depacketize sps none (packetizer maxPayloadLen nalus).packetize = some (nalus.map Nalu.bytes) := by
  have hcarries := packetize_carries nalus hmin (Nat.lt_of_le_of_lt hmax (by decide))
  exact ⟨hcarries, hcarries.packet_spec hmax, hcarries.depacketize hmax⟩

/-- Units of 65536, 2 and 13 bytes. -/
def longUnit : Nalu where
  header := 1
  body := 0 :: List.replicate 65534 0
  hasBody := List.cons_ne_nil _ _
  notStapA := by decide
  notFuA := by decide

def shortUnit : Nalu where
  header := 1
  body := [0]
  hasBody := List.cons_ne_nil _ _
  notStapA := by decide
  notFuA := by decide

def middleUnit : Nalu where
  header := 0x65
  body := [1, 2, 3, 4, 5, 6, 7, 8, 9, 10, 11, 12]
  hasBody := List.cons_ne_nil _ _
  notStapA := by decide
  notFuA := by decide

/-- Two units in one packet, and one in two packets. -/
theorem packetize_roundTrip_three :
    ((packetizer 9 [shortUnit, shortUnit, middleUnit]).packetize.map List.length = [9, 8, 8]) ∧
      depacketize (fun _ => none) none (packetizer 9 [shortUnit, shortUnit, middleUnit]).packetize =
        some [shortUnit.bytes, shortUnit.bytes, middleUnit.bytes] :=
  ⟨by decide, (packetize_roundTrip (fun _ => none) [shortUnit, shortUnit, middleUnit] (by decide) (by decide)).2.2⟩

/-- Both units of a pair go into one packet when there is room for them. -/
theorem packetize_pair (n m : Nalu) {maxPayloadLen : Nat}
    (hfits : n.bytes.length + m.bytes.length + 5 ≤ maxPayloadLen) :
    (packetizer maxPayloadLen [n, m]).packetize = [stapPacket n [m]] := by
  generalize hp : packetizer maxPayloadLen [n, m] = p
  have hmax : p.maxPayloadLen = maxPayloadLen := by rw [← hp]; rfl
  have hall : At p.payloadData 0 ([n, m].flatMap Nalu.bytes) := by
    rw [← hp]
    exact List.prefix_rfl
  have hall' := hall
  rw [List.flatMap_cons, List.flatMap_singleton] at hall'
  obtain ⟨hn, hm⟩ := at_append.1 hall'
  obtain ⟨hnheader, -⟩ := at_cons.1 hn
  obtain ⟨hmheader, -⟩ := at_cons.1 hm
  have hpackets : p.packets = markLast (unitPackets true 0 [n, m]) ++ [] := by
    have hfirst : p.maxPayloadLen ≥ n.bytes.length + 0 := by omega
    have hsecond : p.maxPayloadLen - n.bytes.length - 0 ≥
        m.bytes.length + (kLengthFieldSize + (kNalHeaderSize + kLengthFieldSize)) := by
      rw [kLengthFieldSize, kNalHeaderSize]
      omega
    have hloop : p.aggregateLoop p.maxPayloadLen 0 0 (fragmentsFrom 0 [n, m]) = (unitPackets true 0 [n, m], []) := by
      rw [fragmentsFrom, fragmentsFrom, fragmentsFrom, aggregateLoop, if_pos hfirst, if_pos rfl, aggregateLoop,
        if_pos hsecond, aggregateLoop, hnheader.byte, hmheader.byte]
      rfl
    have hgenerate : p.packets = p.generatePackets 2 (fragmentsFrom 0 [n, m]) := by
      rw [RtpPacketizerH264.packets, ← hp, packetizer_fragments]
      rfl
    rw [hgenerate, fragmentsFrom, generatePackets, if_neg (by omega), packetizeStapA, ← fragmentsFrom, hloop]
    rfl
  have hsends := (sends_nil (p := p)).aggregate hall
  rw [packetize, hpackets]
  exact hsends _ (Nat.le_refl _)

theorem parse_stap {bytes : List UInt8} {parsed : ParsedPayload} (h : parse sps bytes = some parsed)
    (hstap : byteAt bytes 0 &&& kTypeMask = kStapA) : parsed.packetizationType = .stapA ∧ parsed.payload = bytes := by
  have hfua : byteAt bytes 0 &&& kTypeMask ≠ kFuA := by
    rw [hstap]
    decide
  rw [parse] at h
  split at h
  · cases h
  · rw [parseSingleNalu] at h
    simp only [hstap, Option.bind_eq_bind, Option.bind_eq_some_iff, decide_true, if_true] at h
    obtain ⟨-, -, -, -, h⟩ := h
    cases h
    exact ⟨rfl, rfl⟩

/-- A unit of a packet of several whose length is written as 0 is lost. -/
theorem depacketize_zero {header : UInt8} {rest : List UInt8} {units : List (List UInt8)}
    (hstap : header &&& kTypeMask = kStapA) (h : depacketize sps none [header :: 0 :: 0 :: rest] = some units) :
    units.head? = some [] := by
  have hzero : ¬ read16 0 0 > rest.length := by
    rw [show read16 0 0 = 0 from rfl]
    omega
  rw [depacketize] at h
  simp only [Option.bind_eq_bind, Option.bind_eq_some_iff] at h
  obtain ⟨parsed, hparsed, h⟩ := h
  obtain ⟨htype, hpayload⟩ := parse_stap sps hparsed hstap
  rw [htype, hpayload] at h
  simp only [Option.bind_eq_some_iff, kNalHeaderSize, List.drop_succ_cons, List.drop_zero] at h
  obtain ⟨split, hsplit, h⟩ := h
  rw [stapUnits, if_neg hzero] at hsplit
  obtain ⟨others, -, rfl⟩ := Option.map_eq_some_iff.1 hsplit
  obtain ⟨more, -, rfl⟩ := Option.map_eq_some_iff.1 h
  rfl

/-- The length of the first unit is written as 0. -/
theorem stapPacket_long {n : Nalu} (others : List Nalu) (h : n.bytes.length = 65536) :
    stapPacket n others = ((n.header &&& (kFBit ||| kNriMask)) ||| kStapA) :: 0 :: 0 ::
      (n.bytes ++ others.flatMap stapUnit) := by
  rw [stapPacket, List.flatMap_cons, stapUnit, h]
  rfl

theorem longUnit_length : longUnit.bytes.length = 65536 := by
  have hbody : longUnit.body = 0 :: List.replicate 65534 0 := rfl
  rw [Nalu.bytes_length, hbody, List.length_cons, List.length_replicate]

theorem not_roundTrip_long : ¬ ∀ (nalus : List Nalu) (maxPayloadLen : Nat), 3 ≤ maxPayloadLen →
    depacketize (fun _ => none) none (packetizer maxPayloadLen nalus).packetize = some (nalus.map Nalu.bytes) := by
  intro h
  have hall := h [longUnit, shortUnit] 65543 (by decide)
  have hshort : shortUnit.bytes.length = 2 := rfl
  rw [packetize_pair longUnit shortUnit (by rw [longUnit_length, hshort])] at hall
  rw [stapPacket_long [shortUnit] longUnit_length] at hall
  have hhead := depacketize_zero _ (indicator_type longUnit.header).2 hall
  exact absurd (Option.some.inj hhead) (List.cons_ne_nil _ _)

end WebRtc.H264
