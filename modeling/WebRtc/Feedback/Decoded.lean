import WebRtc.Feedback.RoundTrip

/-!
# What a message says while it is built

A reader goes through the statuses from the base on and gives each packet that was received the next of
the times that the deltas stand for. `Told` is kept by every call with a number ahead of the last,
accepted or not (`told_step`): what is read are the reports that were accepted. A call that is refused
may leave statuses behind, for packets that were not received, up to one more than the count has room
for; these say nothing.
-/

namespace WebRtc.Feedback

open CInt Builder

/-- The packets with the times that are read for them, from the number `seq` on. -/
def decoded : Int → List StatusSymbol → List Int → List (Int × Int)
  | _, [], _ => []
  | seq, symbol :: rest, times =>
    if symbol = .notReceived then decoded (seq + 1) rest times
    else
      match times with
      | [] => []
      | time :: times => (seq, time) :: decoded (seq + 1) rest times

/-- What the message says. -/
def Builder.readBack (s : Builder) : List (Int × Int) :=
  decoded s.baseSeq s.encoder.symbols (arrivals (s.baseTime * 64000) s.receiveDeltas)

theorem decoded_append (seq : Int) (symbols more : List StatusSymbol) (times later : List Int)
    (h : symbols.countP (· ≠ .notReceived) = times.length) :
    decoded seq (symbols ++ more) (times ++ later) = decoded seq symbols times ++ decoded
        (seq + symbols.length) more later := by
  induction symbols generalizing seq times with
  | nil =>
    have hnil : times = [] := List.eq_nil_of_length_eq_zero h.symm
    simp [hnil, decoded]
  | cons symbol rest ih =>
    have hnext : seq + ((symbol :: rest).length : Int) = seq + 1 + (rest.length : Int) := by
      rw [List.length_cons]
      omega
    by_cases hmissing : symbol = .notReceived
    · have hcount : rest.countP (· ≠ .notReceived) = times.length := by
        rw [← h, List.countP_cons_of_neg (by simp [hmissing])]
      simp only [List.cons_append, decoded, hmissing, if_true]
      rw [ih _ _ hcount, ← hnext, hmissing]
    · rw [List.countP_cons_of_pos (by simp [hmissing])] at h
      cases times with
      | nil => simp at h
      | cons time times =>
        have hcount : rest.countP (· ≠ .notReceived) = times.length := Nat.succ.inj h
        simp only [List.cons_append, decoded, hmissing, if_false]
        rw [ih _ _ hcount, hnext]

theorem decoded_missing (seq : Int) (n : Nat) (times : List Int) :
    decoded seq (List.replicate n .notReceived) times = [] := by
  induction n generalizing seq with
  | zero => rfl
  | succ n ih =>
    simp only [List.replicate_succ, decoded, if_true]
    exact ih _

theorem arrivals_length (time : Int) (deltas : List Int) : (arrivals time deltas).length = deltas.length := by
  induction deltas generalizing time with
  | nil => rfl
  | cons delta deltas ih => rw [arrivals, List.length_cons, List.length_cons, ih]

/-! ## Numbers and symbols -/

/-- A number ahead by less than half of the numbers is taken for what it is, or for one to be refused. -/
theorem unwrap_ahead {s : Builder} {n : Int} (hbase : 0 ≤ s.baseSeq ∧ s.baseSeq ≤ 65535)
    (hlast : s.baseSeq ≤ s.lastSeq ∧ s.lastSeq ≤ s.baseSeq + 65535) (hnew : s.lastSeq < n)
    (hnear : n ≤ s.lastSeq + 32767) :
    s.unwrap (u16 n) = n ∨ s.unwrap (u16 n) ≠ s.baseSeq ∧ s.unwrap (u16 n) ≤ s.lastSeq := by
  have hu := toNat_u16 n
  have htn := toNat_lastSeq s
  have hnewer : isNewerSequenceNumber (u16 n) (UInt16.ofNat (s.lastSeq % 65536).toNat) = true := by
    rw [isNewer_iff]
    omega
  unfold unwrap
  dsimp only
  rw [if_pos hnewer]
  split <;> omega

/-- As many as there is room for. -/
theorem addMissing_result (n : Nat) {s : Builder} (h : s.Ready) (hlast : s.lastSeq ≤ s.baseSeq + 65535) :
    ∃ k f, k ≤ n ∧ addMissing n s = ({ s with encoder := f, lastSeq := s.lastSeq + (k : Int) },
      decide (k = n)) ∧ Encoded f ∧
      f.symbols = s.encoder.symbols ++ List.replicate k .notReceived ∧ s.lastSeq + (k : Int) ≤ s.baseSeq + 65535 ∧
      (k < n → s.lastSeq + (k : Int) = s.baseSeq + 65535) := by
  rcases Nat.lt_or_ge (s.baseSeq + 65535 - s.lastSeq).toNat n with hlong | hfits
  · obtain ⟨m, hm⟩ : ∃ m, n = (s.baseSeq + 65535 - s.lastSeq).toNat + (m + 1) :=
      ⟨n - (s.baseSeq + 65535 - s.lastSeq).toNat - 1, by omega⟩
    have hends : s.lastSeq + ((s.baseSeq + 65535 - s.lastSeq).toNat : Int) = s.baseSeq + 65535 := by omega
    obtain ⟨f, hf, henc, hsyms⟩ := addMissing_adds (s.baseSeq + 65535 - s.lastSeq).toNat h (by omega)
    have hstuck : addMissing (m + 1)
        { s with encoder := f, lastSeq := s.lastSeq + ((s.baseSeq + 65535 - s.lastSeq).toNat : Int) } =
        ({ s with encoder := f, lastSeq := s.lastSeq + ((s.baseSeq + 65535 - s.lastSeq).toNat : Int) }, false) := by
      have hfail : Builder.encode
          { s with encoder := f, lastSeq := s.lastSeq + ((s.baseSeq + 65535 - s.lastSeq).toNat : Int) } .notReceived =
            ({ s with encoder := f, lastSeq := s.lastSeq + ((s.baseSeq + 65535 - s.lastSeq).toNat : Int) }, false) :=
        if_pos (by dsimp only; omega)
      rw [addMissing, hfail]
      rfl
    refine ⟨_, f, Nat.le_of_lt hlong, ?_, henc, hsyms, by omega, fun _ => hends⟩
    have hne : ¬ (s.baseSeq + 65535 - s.lastSeq).toNat = n := by omega
    rw [hm, addMissing_add, hf, if_pos rfl, hstuck, ← hm, decide_eq_false hne]
  · obtain ⟨f, hf, henc, hsyms⟩ := addMissing_adds n h (by omega)
    exact ⟨n, f, Nat.le_refl n, by rw [hf, decide_eq_true rfl], henc, hsyms, by omega, fun h =>
      absurd h (Nat.lt_irrefl n)⟩

/-- A symbol is added behind all the missing ones, or some of these are added and no symbol. -/
inductive SymbolAdded (s : Builder) (symbol : StatusSymbol) (seq : Int) (r : Builder × Bool) : Prop where
  | added (f : Encoder) (result : r = ({ s with encoder := f, lastSeq := seq }, true)) (encoded : Encoded f)
      (symbols : f.symbols = s.encoder.symbols ++ List.replicate (seq - 1 - s.lastSeq).toNat .notReceived ++ [symbol])
      (limit : seq ≤ s.baseSeq + 65535)
  | full (k : Nat) (f : Encoder) (result : r = ({ s with encoder := f, lastSeq := s.lastSeq + (k : Int) }, false))
      (symbols : f.symbols = s.encoder.symbols ++ List.replicate k .notReceived) (few : k ≤ (seq - 1 - s.lastSeq).toNat)
      (limit : s.lastSeq + k = s.baseSeq + 65535)

theorem addSymbol_cases {s : Builder} (h : s.Ready) (hlast : s.lastSeq ≤ s.baseSeq + 65535)
    (symbol : StatusSymbol) {seq : Int}
    (hseq : s.lastSeq ≤ seq) : SymbolAdded s symbol seq (s.addSymbol symbol seq) := by
  have horder := h.order
  have hcount := h.count
  obtain ⟨k, f, hk, hf, henc, hsyms, hlimit, hend⟩ := addMissing_result (seq - 1 - s.lastSeq).toNat h hlast
  by_cases hall : k = (seq - 1 - s.lastSeq).toNat
  · rw [decide_eq_true hall] at hf
    have hlen : f.symbols.length = s.encoder.symbols.length + k := by
      rw [hsyms, List.length_append, List.length_replicate]
    by_cases hroom : s.lastSeq + (k : Int) - s.baseSeq + 1 ≤ 0xFFFF
    · have hready : Ready { s with encoder := f, lastSeq := s.lastSeq + (k : Int) } := by
        refine ⟨henc, ?_, ?_⟩ <;> dsimp only <;> omega
      obtain ⟨g, hg, hadds⟩ := encode_adds hready hroom symbol
      refine .added g ?_ hadds.encoded ?_ (by omega)
      · rw [addSymbol, hf]
        dsimp only at hg ⊢
        rw [if_pos rfl, hg]
        rfl
      · rw [hadds.symbols, hsyms, hall]
    · have hfail : Builder.encode { s with encoder := f, lastSeq := s.lastSeq + (k : Int) } symbol =
          ({ s with encoder := f, lastSeq := s.lastSeq + (k : Int) }, false) := if_pos (by dsimp only; omega)
      refine .full k f ?_ hsyms hk (by omega)
      rw [addSymbol, hf]
      dsimp only
      rw [if_pos rfl, hfail]
      rfl
  · rw [decide_eq_false hall] at hf
    refine .full k f ?_ hsyms hk (hend (Nat.lt_of_le_of_ne hk hall))
    rw [addSymbol, hf]
    rfl

/-! ## The reports that are read -/

/-- The same number, and a time within half a tick. -/
def Matches (got report : Int × Int) : Prop := got.1 = report.1 ∧ Near got.2 report

structure Told (s : Builder) (reports : List (Int × Int)) : Prop where
  encoded : Encoded s.encoder
  base : 0 ≤ s.baseSeq ∧ s.baseSeq ≤ 65535
  last : s.baseSeq ≤ s.lastSeq ∧ s.lastSeq ≤ s.baseSeq + 65535
  fresh : reports = [] → s.encoder.symbols = [] ∧ s.lastSeq = s.baseSeq
  count : reports ≠ [] → (s.encoder.symbols.length : Int) = s.lastSeq - s.baseSeq + 1
  received : s.encoder.symbols.countP (· ≠ .notReceived) = s.receiveDeltas.length
  timestamp : s.lastTimestamp = s.baseTime * 64000 + s.receiveDeltas.sum * 250
  readBack : List.Forall₂ Matches s.readBack reports

theorem told_withBase (sender media : UInt32) (feedbackSeq : UInt8) (base : UInt16) (ref : Int) :
    Told (withBase sender media feedbackSeq base ref) [] where
  encoded := (books_withBase sender media feedbackSeq base ref).encoded
  base := ⟨Int.natCast_nonneg _, by
    have h := base.toNat_lt
    show (base.toNat : Int) ≤ 65535
    omega⟩
  last := ⟨Int.le_refl _, by
    show (base.toNat : Int) ≤ base.toNat + 65535
    omega⟩
  fresh _ := ⟨rfl, rfl⟩
  count h := absurd rfl h
  received := rfl
  timestamp := (Int.add_zero _).symm
  readBack := .nil

variable {s : Builder} {reports : List (Int × Int)}

theorem Told.ready (h : Told s reports) : s.Ready := by
  refine ⟨h.encoded, h.last.1, ?_⟩
  by_cases hnil : reports = []
  · rw [(h.fresh hnil).1, (h.fresh hnil).2, List.length_nil]
    omega
  · exact Int.le_of_eq (h.count hnil)

/-- Statuses of packets that were not received add nothing. -/
theorem Told.readBack_missing (h : Told s reports) {t : Builder} {k : Nat}
    (hbase : t.baseSeq = s.baseSeq) (htime : t.baseTime = s.baseTime)
    (hdeltas : t.receiveDeltas = s.receiveDeltas)
    (hsyms : t.encoder.symbols = s.encoder.symbols ++ List.replicate k .notReceived) :
    List.Forall₂ Matches t.readBack reports := by
  have hcount : s.encoder.symbols.countP (· ≠ .notReceived) =
      (arrivals (s.baseTime * 64000) s.receiveDeltas).length := by
    rw [arrivals_length]
    exact h.received
  have hread : t.readBack = s.readBack := by
    have happ := decoded_append s.baseSeq s.encoder.symbols (List.replicate k .notReceived)
      (arrivals (s.baseTime * 64000) s.receiveDeltas) [] hcount
    rw [List.append_nil, decoded_missing, List.append_nil] at happ
    rw [Builder.readBack, hbase, htime, hdeltas, hsyms, happ]
    rfl
  rw [hread]
  exact h.readBack

/-- A report that was accepted is what is read last. -/
theorem Told.readBack_added (h : Told s reports) {report : Int × Int} {f : Encoder}
    (hbegin : (s.encoder.symbols.length : Int) + (report.1 - 1 - s.lastSeq).toNat = report.1 - s.baseSeq)
    (hsyms : f.symbols = s.encoder.symbols ++ List.replicate (report.1 - 1 - s.lastSeq).toNat .notReceived ++
      [symbolOf (s.ticks report.2)]) :
    decoded s.baseSeq f.symbols (arrivals (s.baseTime * 64000) (s.receiveDeltas ++ [s.ticks report.2])) =
      s.readBack ++ [(report.1, s.lastTimestamp + s.ticks report.2 * 250)] := by
  have hcount : s.encoder.symbols.countP (· ≠ .notReceived) =
      (arrivals (s.baseTime * 64000) s.receiveDeltas).length := by
    rw [arrivals_length]
    exact h.received
  have hplace : s.baseSeq + (s.encoder.symbols.length : Int) + (report.1 - 1 - s.lastSeq).toNat = report.1 := by omega
  have hmore := decoded_append (s.baseSeq + (s.encoder.symbols.length : Int))
    (List.replicate (report.1 - 1 - s.lastSeq).toNat .notReceived) [symbolOf (s.ticks report.2)] []
    [s.lastTimestamp + s.ticks report.2 * 250] (by rw [List.countP_replicate]; rfl)
  have hone : decoded report.1 [symbolOf (s.ticks report.2)] [s.lastTimestamp + s.ticks report.2 * 250] =
      [(report.1, s.lastTimestamp + s.ticks report.2 * 250)] := by
    simp [decoded, symbolOf_ne]
  rw [List.nil_append, decoded_missing, List.nil_append, List.length_replicate, hplace, hone] at hmore
  rw [hsyms, arrivals_snoc, ← h.timestamp, List.append_assoc, decoded_append _ _ _ _ _ hcount, hmore]
  rfl

/-- The call for the next packet. -/
inductive CallTold (s : Builder) (reports : List (Int × Int)) (report : Int × Int) (r : Builder × Bool) : Prop where
  | accepted (result : r.2 = true) (base : r.1.baseSeq = s.baseSeq) (last : r.1.lastSeq = report.1)
      (told : Told r.1 (reports ++ [report]))
  | refused (result : r.2 = false) (later : s.TimeFits report.2 → reports ≠ [])
      (same : List.Forall₂ Matches r.1.readBack reports)

/-- **Step lemma.** -/
theorem told_step (h : Told s reports) (report : Int × Int) (hfirst : reports = [] → report.1 = s.baseSeq)
    (hnext : reports ≠ [] → s.lastSeq < report.1 ∧ report.1 ≤ s.lastSeq + 32767) :
    CallTold s reports report (s.withReceivedPacket (packetOf report)) := by
  have hunwrap : s.unwrap (u16 report.1) = report.1 ∨ reports ≠ [] ∧ s.unwrap (u16 report.1) ≠ s.baseSeq ∧
      s.unwrap (u16 report.1) ≤ s.lastSeq := by
    by_cases hnil : reports = []
    · have hu := toNat_u16 report.1
      have hbase := h.base
      have hlast := (h.fresh hnil).2
      have hself := @unwrap_base s (u16 report.1) (by have := hfirst hnil; omega)
      have := hfirst hnil
      left
      omega
    · obtain ⟨hnew, hnear⟩ := hnext hnil
      exact (unwrap_ahead h.base h.last hnew hnear).imp id fun hlate => ⟨hnil, hlate⟩
  unfold withReceivedPacket packetOf
  dsimp only
  rcases hunwrap with hsame | ⟨hnil, hlate⟩
  swap
  · rw [if_pos hlate]
    exact .refused rfl (fun _ => hnil) h.readBack
  have hseq : s.lastSeq ≤ report.1 := by
    by_cases hnil : reports = []
    · rw [hfirst hnil, (h.fresh hnil).2]
    · exact Int.le_of_lt (hnext hnil).1
  have hnotLate : ¬ (report.1 ≠ s.baseSeq ∧ report.1 ≤ s.lastSeq) := by
    rintro ⟨hne, hle⟩
    by_cases hnil : reports = []
    · exact hne (hfirst hnil)
    · have := (hnext hnil).1
      omega
  rw [hsame, if_neg hnotLate]
  by_cases htime : s.TimeFits report.2
  swap
  · rw [if_pos (show i16 (s.ticks report.2) ≠ s.ticks report.2 from htime)]
    exact .refused rfl (fun hfits => absurd hfits htime) h.readBack
  have hdelta : i16 (s.ticks report.2) = s.ticks report.2 := htime
  rw [if_neg (fun hne => hne hdelta), hdelta]
  cases addSymbol_cases h.ready h.last.2 (symbolOf (s.ticks report.2)) hseq with
  | added f result encoded symbols limit =>
    rw [result, if_pos rfl]
    have hbegin : (s.encoder.symbols.length : Int) + (report.1 - 1 - s.lastSeq).toNat = report.1 - s.baseSeq := by
      by_cases hnil : reports = []
      · obtain ⟨hsyms, hlast⟩ := h.fresh hnil
        have := hfirst hnil
        rw [hsyms, List.length_nil]
        omega
      · have := h.count hnil
        have := (hnext hnil).1
        omega
    refine .accepted rfl rfl rfl ⟨encoded, h.base, ⟨h.last.1.trans hseq, limit⟩, ?_, ?_, ?_, ?_, ?_⟩
    · intro hnil
      simp at hnil
    · intro _
      have hlen : f.symbols.length = s.encoder.symbols.length + (report.1 - 1 - s.lastSeq).toNat + 1 := by
        rw [symbols, List.length_append, List.length_append, List.length_replicate, List.length_singleton]
      show (f.symbols.length : Int) = report.1 - s.baseSeq + 1
      omega
    · have hone : [symbolOf (s.ticks report.2)].countP (· ≠ .notReceived) = 1 := by
        rw [List.countP_singleton, if_pos (decide_eq_true (symbolOf_ne _))]
      show f.symbols.countP _ = (s.receiveDeltas ++ [s.ticks report.2]).length
      rw [symbols, List.countP_append, List.countP_append, h.received, hone, List.length_append, List.length_singleton,
        List.countP_replicate]
      rfl
    · show s.lastTimestamp + s.ticks report.2 * 250 = s.baseTime * 64000 +
        (s.receiveDeltas ++ [s.ticks report.2]).sum * 250
      rw [List.sum_append, List.sum_singleton, h.timestamp]
      omega
    · show List.Forall₂ Matches (decoded s.baseSeq f.symbols (arrivals (s.baseTime * 64000)
        (s.receiveDeltas ++ [s.ticks report.2])))
        (reports ++ [report])
      rw [h.readBack_added hbegin symbols]
      exact List.rel_append h.readBack (.cons ⟨rfl, ticks_near s report.2⟩ .nil)
  | full k f result symbols few limit =>
    rw [result]
    refine .refused rfl ?_ (h.readBack_missing rfl rfl rfl symbols)
    rintro - hnil
    have := hfirst hnil
    have := (h.fresh hnil).2
    omega

end WebRtc.Feedback
