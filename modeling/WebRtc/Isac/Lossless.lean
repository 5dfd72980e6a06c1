import WebRtc.Isac.Decoder

/-!
# Arithmetic coding is lossless

Decoders with the same tables, in calls of any length and of either kind, find the symbols that were encoded.
-/

namespace WebRtc.Isac

open RangeCoder

/-- A table and an initial search index inside it. -/
structure OneStepTable where
  cdf : Cdf
  initIndex : ℕ
  inside : initIndex < cdf.entries.length

/-- A table of `2 ^ k - 1` entries. -/
structure BisectTable where
  cdf : Cdf
  k : ℕ
  size : cdf.entries.length + 1 = 2 ^ k

inductive DecCall
  | oneStep (tables : List OneStepTable)
  | bisect (tables : List BisectTable)

namespace DecCall

def cdfs : DecCall → List Cdf
  | oneStep tables => tables.map OneStepTable.cdf
  | bisect tables => tables.map BisectTable.cdf

def run : DecCall → Bitstr → Except Failure (List ℤ × Bitstr × ℤ)
  | oneStep tables, s => decHistOneStepMulti s (tables.map fun table => (table.cdf.entries, table.initIndex))
  | bisect tables, s => decHistBisectMulti s (tables.map fun table => (table.cdf.entries, 2 ^ table.k))

end DecCall

/-- The data of all calls, and what each of them returns. -/
def decodeCalls : Bitstr → List DecCall → Except Failure (List ℤ × List ℤ)
  | _, [] => .ok ([], [])
  | s, call :: calls => do
    let (data, s, length) ← call.run s
    let (more, lengths) ← decodeCalls s calls
    return (data ++ more, length :: lengths)

def symbols (l : List Coded) : List ℤ := l.map fun c => (c.data : ℤ)

section Calls

variable {mem : ℕ → UInt8} {r : Range} {s : Bitstr}

theorem contains_of_step (hr : Ready r) {c : Coded} (h : (step r c).Contains mem) : r.Contains mem := by
  obtain ⟨hlo, hhi⟩ := interval_bounds hr c
  exact contains_of_narrow (contains_of_renormalize h) (by omega) hhi

theorem contains_of_steps (hr : Ready r) {l : List Coded} (h : (steps r l).Contains mem) : r.Contains mem := by
  induction l generalizing r with
  | nil => exact h
  | cons c l ih => exact contains_of_step hr (ih (hr.step c) h)

theorem ok_bind {α β : Type} (a : α) (f : α → Except Failure β) : (Except.ok a >>= f) = f a := rfl

theorem oneStepSymbols_cons {cdf : List ℕ} {initIndex wLower wUpper : ℕ} {rest : List (List ℕ × ℕ)}
    {data : ℤ} {l : List ℤ}
    {s₁ s' : Bitstr} (hsearch : oneStep s cdf initIndex = .ok (data, wLower, wUpper))
    (htake : takeInterval s wLower wUpper = .ok s₁)
    (hrest : oneStepSymbols s₁ rest = .ok (l, s')) : oneStepSymbols s ((cdf, initIndex) :: rest) =
    .ok (data :: l, s') := by
  rw [oneStepSymbols, hsearch, ok_bind]
  dsimp only
  rw [htake, ok_bind, hrest, ok_bind]
  rfl

theorem bisectSymbols_cons {cdf : List ℕ} {cdfSize w wLower wUpper : ℕ} {rest : List (List ℕ × ℕ)}
    {data : ℤ} {l : List ℤ}
    {s₁ s' : Bitstr} (hsearch : bisect s cdf cdfSize w = .ok (data, wLower, wUpper))
    (htake : takeInterval s wLower wUpper = .ok s₁)
    (hne : s₁.wUpper ≠ 0) (hrest : bisectSymbols s₁ (wrap32 (wLower + 1)) rest = .ok (l, s')) :
    bisectSymbols s w ((cdf, cdfSize) :: rest) = .ok (data :: l, s') := by
  rw [bisectSymbols, hsearch, ok_bind]
  dsimp only
  rw [htake, ok_bind, if_neg hne, hrest, ok_bind]
  rfl

theorem oneStepSymbols_ok (h : Follows mem r s) (hr : Ready r) {tables : List OneStepTable} {l : List Coded}
    (hcdf : tables.map OneStepTable.cdf = l.map Coded.cdf) (hmem : (steps r l).Contains mem) :
    ∃ s', oneStepSymbols s (tables.map fun table => (table.cdf.entries, table.initIndex)) = .ok (symbols l, s') ∧
      Follows mem (steps r l) s' := by
  induction tables generalizing r s l with
  | nil =>
    obtain rfl := List.map_eq_nil_iff.1 hcdf.symm
    exact ⟨s, rfl, h⟩
  | cons table tables ih =>
    obtain ⟨c, l, rfl, hc, hl⟩ := List.map_eq_cons_iff.1 hcdf.symm
    have hstep := contains_of_steps (hr.step c) hmem
    have hfound := h.found hr hstep
    have hw : s.wUpper < 4294967296 := h.width ▸ hr.width
    obtain ⟨s₁, hs₁, hnext⟩ := h.take hr hstep
    obtain ⟨s', hs', hfollows⟩ := ih hnext (hr.step c) hl.symm hmem
    have hsearch := hfound.oneStep hw (i := table.initIndex) (by rw [hc]; exact table.inside)
    rw [hc] at hsearch
    rw [List.map_cons]
    exact ⟨s', oneStepSymbols_cons hsearch hs₁ hs', hfollows⟩

theorem bisectSymbols_ok (h : Follows mem r s) (hr : Ready r) {tables : List BisectTable} {l : List Coded} (wLower : ℕ)
    (hcdf : tables.map BisectTable.cdf = l.map Coded.cdf) (hmem : (steps r l).Contains mem) :
    ∃ s', bisectSymbols s wLower (tables.map fun table => (table.cdf.entries, 2 ^ table.k)) = .ok (symbols l, s') ∧
      Follows mem (steps r l) s' := by
  induction tables generalizing r s l wLower with
  | nil =>
    obtain rfl := List.map_eq_nil_iff.1 hcdf.symm
    exact ⟨s, rfl, h⟩
  | cons table tables ih =>
    obtain ⟨c, l, rfl, hc, hl⟩ := List.map_eq_cons_iff.1 hcdf.symm
    have hstep := contains_of_steps (hr.step c) hmem
    have hfound := h.found hr hstep
    have hw : s.wUpper < 4294967296 := h.width ▸ hr.width
    obtain ⟨s₁, hs₁, hnext⟩ := h.take hr hstep
    obtain ⟨s', hs', hfollows⟩ := ih hnext (hr.step c) (wrap32 (scaled s.wUpper c.lo + 1)) hl.symm hmem
    have hsearch := hfound.bisect hw (k := table.k) (by rw [hc]; exact table.size) wLower
    have hne : s₁.wUpper ≠ 0 := by
      rw [hnext.width]
      have := (hr.step c).least
      omega
    rw [hc] at hsearch
    rw [List.map_cons]
    exact ⟨s', bisectSymbols_cons hsearch hs₁ hne hs', hfollows⟩

/-- One call. What it returns tells how many bytes the encoder has written, if it was the last one. -/
theorem run_ok (h : Follows mem r (startDec s)) (hr : Ready r) (call : DecCall) {l : List Coded}
    (hcdf : call.cdfs = l.map Coded.cdf) (hmem : (steps r l).Contains mem) :
    ∃ s', call.run s = .ok (symbols l, s', streamLength s') ∧ Follows mem (steps r l) s' := by
  have hne : s.wUpper ≠ 0 := by
    have hw : s.wUpper = r.width := by
      rw [← h.width, startDec]
      split <;> rfl
    have := hr.least
    omega
  cases call with
  | oneStep tables =>
    obtain ⟨s', hs', hfollows⟩ := oneStepSymbols_ok h hr hcdf hmem
    refine ⟨s', ?_, hfollows⟩
    rw [DecCall.run, decHistOneStepMulti, if_neg hne, hs', ok_bind]
    rfl
  | bisect tables =>
    obtain ⟨s', hs', hfollows⟩ := bisectSymbols_ok h hr 0 hcdf hmem
    refine ⟨s', ?_, hfollows⟩
    rw [DecCall.run, decHistBisectMulti, if_neg hne, hs', ok_bind]
    rfl

/-- Only the first call reads the first word. -/
theorem Follows.startDec (h : Follows mem r s) (hr : Ready r) : Follows mem r (startDec s) := by
  have hne : s.streamIndex ≠ 0 := by
    have hd := h.digits
    have := hr.digits
    omega
  rw [Isac.startDec, if_neg hne]
  exact h

theorem decodeCalls_ok (h : Follows mem r (startDec s)) (hr : Ready r) (calls : List DecCall) {l : List Coded}
    (hcdf : calls.flatMap DecCall.cdfs = l.map Coded.cdf) (hmem : (steps r l).Contains mem) :
    ∃ lengths, decodeCalls s calls = .ok (symbols l, lengths) ∧
      (calls ≠ [] → lengths.getLast? = some ((steps r l).digits - if 0x01FFFFFF <
          (steps r l).width then 3 else 2 : ℤ)) := by
  induction calls generalizing r s l with
  | nil =>
    obtain rfl := List.map_eq_nil_iff.1 hcdf.symm
    exact ⟨[], rfl, fun hne => absurd rfl hne⟩
  | cons call calls ih =>
    obtain ⟨l₁, l₂, rfl, hl₁, hl₂⟩ := List.map_eq_append_iff.1 hcdf.symm
    have hsteps : steps r (l₁ ++ l₂) = steps (steps r l₁) l₂ := List.foldl_append
    rw [hsteps] at hmem ⊢
    have hready := hr.steps l₁
    obtain ⟨s', hs', hfollows⟩ := run_ok h hr call hl₁.symm (contains_of_steps hready hmem)
    obtain ⟨lengths, hrest, hlast⟩ := ih (hfollows.startDec hready) hready hl₂.symm hmem
    refine ⟨streamLength s' :: lengths, ?_, ?_⟩
    · rw [decodeCalls, hs', ok_bind]
      dsimp only
      rw [hrest, ok_bind]
      unfold symbols
      rw [List.map_append]
      rfl
    · rintro -
      by_cases hend : calls = []
      · subst hend
        obtain rfl := List.map_eq_nil_iff.1 hl₂
        obtain rfl : [] = lengths := by
          simp only [decodeCalls, Except.ok.injEq, Prod.mk.injEq] at hrest
          exact hrest.2
        have hd := hfollows.digits
        rw [List.getLast?_singleton, streamLength, hfollows.width]
        change some _ = some (((steps r l₁).digits : ℤ) - if 0x01FFFFFF < (steps r l₁).width then 3 else 2)
        congr 1
        split_ifs <;> omega
      · rw [List.getLast?_cons, hlast hend, Option.getD_some]

theorem start_follows (mem : ℕ → UInt8) : Follows mem startRange (startDec (start mem)) := by
  refine ⟨rfl, rfl, rfl, ?_⟩
  change number mem 4 = 0 + ((mem 0).toNat * 16777216 + (mem 1).toNat * 65536 + (mem 2).toNat * 256 + (mem 3).toNat)
  rw [number_succ, number_succ, number_succ, number_succ, number_zero]
  omega

end Calls

/-- The symbols are encoded in any number of calls, with a wide interval after each of them, and no
carry runs out of the stream. The bytes that are written, whatever follows them, are decoded to the same
symbols in any number of calls, the last of which returns how many bytes there are. -/
theorem lossless (stream : ℕ → UInt8) (enc : List (List Coded)) (dec : List DecCall)
    (hcdf : dec.flatMap DecCall.cdfs = enc.flatten.map Coded.cdf) :
    (∀ l, l <+: enc.flatten → ∃ s, encHistMulti (start stream) (l.map Coded.pair) = some s ∧ 16777216 ≤ s.wUpper) ∧
      ∃ s bytes n, encodeCalls (start stream) (enc.map (List.map Coded.pair)) = some s ∧
        encTerminate s = some (bytes, n) ∧
        ∀ mem : ℕ → UInt8, (∀ i < n, mem i = bytes i) →
          ∃ lengths, decodeCalls (start mem) dec = .ok (symbols enc.flatten, lengths) ∧
            (dec ≠ [] → lengths.getLast? = some (n : ℤ)) := by
  constructor
  · intro l _
    obtain ⟨s, hs, hwrites⟩ := encHistMulti_some (start_writes stream) startRange_ready l
    refine ⟨s, hs, ?_⟩
    rw [hwrites.width]
    exact (startRange_ready.steps l).least
  · obtain ⟨s, hs, hwrites⟩ := encHistMulti_some (start_writes stream) startRange_ready enc.flatten
    obtain ⟨bytes, n, hend, hn, hcontains⟩ := encTerminate_some hwrites (startRange_ready.steps _)
    refine ⟨s, bytes, n, ?_, hend, ?_⟩
    · rw [encodeCalls_eq, ← List.map_flatten]
      exact hs
    · intro mem hmem
      obtain ⟨lengths, hdec, hlast⟩ := decodeCalls_ok (start_follows mem) startRange_ready dec hcdf (hcontains mem hmem)
      refine ⟨lengths, hdec, fun hne => ?_⟩
      rw [hlast hne, hn]

/-- Three symbols of a table with two, in two calls each; the decoder searches from the end and by bisection. -/
theorem lossless_three :
    let cdf : Cdf := ⟨[0, 30000, 65535], rfl, by decide, rfl⟩
    let first : Coded := ⟨cdf, 0, by decide⟩
    let second : Coded := ⟨cdf, 1, by decide⟩
    ∃ s bytes n, encodeCalls (start fun _ => 0) ([[first], [second, first]].map (List.map Coded.pair)) = some s ∧
      encTerminate s = some (bytes, n) ∧
      ∃ lengths, decodeCalls (start bytes) [.oneStep [⟨cdf, 2, by decide⟩], .bisect [⟨cdf, 2, rfl⟩, ⟨cdf, 2, rfl⟩]] =
        .ok ([0, 1, 0], lengths) ∧ lengths.getLast? = some (n : ℤ) := by
  intro cdf first second
  obtain ⟨s, bytes, n, hs, hend, hdec⟩ := (lossless (fun _ => 0) [[first], [second, first]]
    [.oneStep [⟨cdf, 2, by decide⟩], .bisect [⟨cdf, 2, rfl⟩, ⟨cdf, 2, rfl⟩]] rfl).2
  obtain ⟨lengths, hdata, hlast⟩ := hdec bytes fun _ _ => rfl
  exact ⟨s, bytes, n, hs, hend, lengths, hdata, hlast (List.cons_ne_nil _ _)⟩

end WebRtc.Isac
