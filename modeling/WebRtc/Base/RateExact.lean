import Mathlib.Algebra.BigOperators.Group.List.Basic
import Mathlib.Algebra.GroupWithZero.Nat
import Mathlib.Algebra.Order.Group.Nat
import Mathlib.Data.List.Induction
import WebRtc.Base.RateTracker

/-!
# The rate tracker counts the right buckets (`webrtc/base/ratetracker.cc`)

Bucket number `k` covers the times from `init + k * B` on. The ring holds the buckets `K`, `K - 1` and so
on, back from the current one (`Tracks`), whatever the index of the current one is: after a long silence
`AddSamples` moves the start time on and leaves the index where it is, and then all of them are empty.
-/

namespace WebRtc.Base

open Circular

/-! ## What has been added -/

def added (calls : List RateTracker.Call) : List (Nat × Nat) := calls.filterMap fun
  | .addSamples currentTime sampleCount => some (currentTime, sampleCount)
  | .computeRateForInterval _ _ => none

/-- The samples that were added from the time `lo` on and before `hi`. -/
def samplesIn (events : List (Nat × Nat)) (lo hi : Nat) : Nat :=
  (events.map fun e => if lo ≤ e.1 ∧ e.1 < hi then e.2 else 0).sum

def samplesFrom (events : List (Nat × Nat)) (lo : Nat) : Nat := (events.map fun e => if lo ≤ e.1 then e.2 else 0).sum

section
variable {events : List (Nat × Nat)} {lo hi : Nat}

theorem samplesFrom_eq (h : lo ≤ hi) : samplesFrom events lo = samplesIn events lo hi + samplesFrom events hi := by
  induction events with
  | nil => rfl
  | cons e rest ih =>
    simp only [samplesFrom, samplesIn, List.map_cons, List.sum_cons] at ih ⊢
    rw [ih]
    split_ifs <;> omega

theorem samplesIn_append (e : Nat × Nat) :
    samplesIn (events ++ [e]) lo hi = samplesIn events lo hi + if lo ≤ e.1 ∧ e.1 < hi then e.2 else 0 := by
  simp [samplesIn]

theorem samplesIn_of_before (h : ∀ e ∈ events, e.1 < lo) : samplesIn events lo hi = 0 := by
  apply List.sum_eq_zero
  simp only [List.mem_map, forall_exists_index, and_imp]
  rintro _ e he rfl
  simp [Nat.not_le.2 (h e he)]

theorem samplesFrom_of_before (h : ∀ e ∈ events, e.1 < lo) : samplesFrom events lo = 0 := by
  apply List.sum_eq_zero
  simp only [List.mem_map, forall_exists_index, and_imp]
  rintro _ e he rfl
  simp [Nat.not_le.2 (h e he)]

end

/-- `q` is a whole number nearest to `a / b`. -/
def Nearest (a b q : Nat) : Prop := 2 * (b * q) ≤ 2 * a + b ∧ 2 * a ≤ 2 * (b * q) + b

theorem nearest_div {b : Nat} (hb : 0 < b) (a : Nat) : Nearest a b ((a + b / 2) / b) := by
  have hdiv := Nat.div_add_mod (a + b / 2) b
  have hmod := Nat.mod_lt (a + b / 2) hb
  constructor <;> omega

namespace RateTracker

/-! ## What the ring holds -/

/-- The samples of bucket number `k`. -/
def bucketTotal (B init : Nat) (events : List (Nat × Nat)) (k : Nat) : Nat :=
  samplesIn events (init + k * B) (init + (k + 1) * B)

structure Tracks (B n : Nat) (events : List (Nat × Nat)) (K : Nat) (s : RateTracker) : Prop where
  width : s.bucketMilliseconds = B
  count : s.bucketCount = n
  slots : s.sampleBuckets.length = n + 1
  start : s.bucketStartTimeMilliseconds = s.initializationTimeMilliseconds + K * B
  current : s.currentBucket < n + 1
  held : ∀ j < n + 1, j ≤ K → s.bucket (back (n + 1) s.currentBucket j) =
    some (bucketTotal B s.initializationTimeMilliseconds events (K - j))
  /-- Until the ring has gone round the index is the number. -/
  aligned : K ≤ n → s.currentBucket = K
  within : ∀ e ∈ events, s.initializationTimeMilliseconds ≤ e.1 ∧ e.1 < s.initializationTimeMilliseconds + (K + 1) * B

variable {B n K : Nat} {events : List (Nat × Nat)} {s : RateTracker}

theorem nextBucketIndex_eq (hcount : s.bucketCount = n) {i : Nat} (hi : i < n + 1) :
    s.nextBucketIndex i = next (n + 1) i := by
  rw [nextBucketIndex, hcount, next]
  split
  · next h => exact Nat.mod_eq_of_lt h
  · next h => rw [show i + 1 = n + 1 by omega, Nat.mod_self]

theorem bucket_set {buckets : List (Option Nat)} {i : Nat} (hi : i < buckets.length) (v : Option Nat) (j : Nat) :
    ((buckets.set i v)[j]?).join = if j = i then v else (buckets[j]?).join := by
  by_cases hj : j = i
  · subst hj
    simp [hi]
  · simp [hj, Ne.symm hj]

/-- The next bucket begins, empty. -/
theorem Tracks.next_bucket (h : Tracks B n events K s) :
    Tracks B n events (K + 1) { s with
      bucketStartTimeMilliseconds := s.bucketStartTimeMilliseconds + s.bucketMilliseconds
      currentBucket := s.nextBucketIndex s.currentBucket
      sampleBuckets := s.sampleBuckets.set (s.nextBucketIndex s.currentBucket) (some 0) } where
  width := h.width
  count := h.count
  slots := by simpa using h.slots
  start := by simp only [h.start, h.width, Nat.add_mul, Nat.one_mul, Nat.add_assoc]
  current := by
    rw [nextBucketIndex_eq h.count h.current]
    exact next_lt _ (Nat.succ_pos n)
  held := by
    intro j hj hle
    have hlt : next (n + 1) s.currentBucket < s.sampleBuckets.length := by
      rw [h.slots]
      exact next_lt _ (Nat.succ_pos n)
    simp only [nextBucketIndex_eq h.count h.current, bucket, bucket_set hlt]
    cases j with
    | zero =>
      rw [back_next_zero h.current, if_pos rfl]
      exact congrArg some (samplesIn_of_before fun e he => (h.within e he).2).symm
    | succ j =>
      rw [back_next_succ h.current hj, if_neg (back_ne_next h.current hj), Nat.add_sub_add_right]
      exact h.held j (by omega) (by omega)
  aligned := by
    intro hle
    have hK := h.aligned (by omega)
    simp only [nextBucketIndex_eq h.count h.current, next]
    rw [if_pos (by omega), hK]
  within := by
    intro e he
    have := h.within e he
    exact ⟨this.1, Nat.lt_of_lt_of_le this.2 (Nat.add_le_add_left (Nat.mul_le_mul_right B (by omega)) _)⟩

/-- After a silence that has emptied the whole ring the start moves on by any number of buckets. -/
theorem Tracks.skip (h : Tracks B n events K s)
    (hsilent : ∀ e ∈ events, e.1 < s.initializationTimeMilliseconds + (K - n) * B) (hK : n < K) (d : Nat) :
    Tracks B n events (K + d) { s with
      bucketStartTimeMilliseconds := s.bucketStartTimeMilliseconds + B * d } where
  width := h.width
  count := h.count
  slots := h.slots
  start := by simp only [h.start, Nat.add_mul, Nat.mul_comm B d, Nat.add_assoc]
  current := h.current
  held := by
    have hempty : ∀ k, K - n ≤ k → bucketTotal B s.initializationTimeMilliseconds events k = 0 := by
      intro k hk
      refine samplesIn_of_before fun e he => Nat.lt_of_lt_of_le (hsilent e he) ?_
      exact Nat.add_le_add_left (Nat.mul_le_mul_right B hk) _
    intro j hj _
    have hheld := h.held j hj (by omega)
    rw [hempty (K - j) (by omega)] at hheld
    simp only [hempty (K + d - j) (by omega)]
    exact hheld
  aligned := by omega
  within := by
    intro e he
    have := h.within e he
    exact ⟨this.1, Nat.lt_of_lt_of_le this.2 (Nat.add_le_add_left (Nat.mul_le_mul_right B (by omega)) _)⟩

/-- Samples go to the current bucket. -/
theorem Tracks.add (h : Tracks B n events K s) {now : Nat} (hnow : s.bucketStartTimeMilliseconds ≤ now)
    (hend : now < s.bucketStartTimeMilliseconds + B) (sampleCount total : Nat) :
    Tracks B n (events ++ [(now, sampleCount)]) K { s with
      sampleBuckets := s.sampleBuckets.set s.currentBucket
        (some (bucketTotal B s.initializationTimeMilliseconds events K + sampleCount))
      totalSampleCount := total } where
  width := h.width
  count := h.count
  slots := by simpa using h.slots
  start := h.start
  current := h.current
  held := by
    intro j hj hle
    have hcurrent : s.currentBucket < s.sampleBuckets.length := by rw [h.slots]; exact h.current
    simp only [bucket, bucket_set hcurrent, bucketTotal, samplesIn_append]
    rw [h.start] at hnow hend
    cases j with
    | zero =>
      rw [back_of_le h.current (Nat.zero_le _)]
      have hin : s.initializationTimeMilliseconds + K * B ≤ now ∧
          now < s.initializationTimeMilliseconds + (K + 1) * B := by
        rw [Nat.add_mul]
        omega
      simp [hin]
    | succ j =>
      have hother : back (n + 1) s.currentBucket (j + 1) ≠ s.currentBucket := by
        rcases Nat.lt_or_ge s.currentBucket (j + 1) with hlt | hge
        · rw [back_of_lt hlt hj]
          omega
        · rw [back_of_le h.current hge]
          omega
      have hlate : ¬now < s.initializationTimeMilliseconds + (K - (j + 1) + 1) * B := by
        have := Nat.mul_le_mul_right B (show K - (j + 1) + 1 ≤ K by omega)
        omega
      simp only [hother, if_false, hlate, and_false, Nat.add_zero]
      exact h.held (j + 1) hj hle
  aligned := h.aligned
  within := by
    intro e he
    rcases List.mem_append.1 he with he | he
    · exact h.within e he
    · rw [List.mem_singleton] at he
      subst he
      rw [h.start] at hnow hend
      constructor
      · exact Nat.le_trans (Nat.le_add_right _ _) hnow
      · rw [Nat.add_mul, Nat.one_mul, ← Nat.add_assoc]
        exact hend

/-! ## Adding samples -/

theorem add32_cases (a b : Nat) : add32 a b = .error .overflow ∨ add32 a b = .ok (a + b) := by
  unfold add32
  split <;> simp

theorem mul32_cases (a b : Nat) : mul32 a b = .error .overflow ∨ mul32 a b = .ok (a * b) := by
  unfold mul32
  split <;> simp

theorem sub32_ok {a b : Nat} (h : b ≤ a) : sub32 a b = .ok (a - b) := if_pos h

theorem ok_bind {α β : Type} (a : α) (f : α → Except Fault β) : (Except.ok a >>= f) = f a := rfl
theorem error_bind {α β : Type} (e : Fault) (f : α → Except Fault β) : (Except.error e >>= f) = .error e := rfl

theorem advance_spec {now rounds : Nat} (h : Tracks B n events K s) (hnow : s.bucketStartTimeMilliseconds ≤ now) :
    advance now rounds s = .error .overflow ∨
      ∃ s' skipped, advance now rounds s = .ok s' ∧ Tracks B n events (K + skipped) s' ∧
        s'.bucketStartTimeMilliseconds ≤ now ∧
        s'.initializationTimeMilliseconds = s.initializationTimeMilliseconds ∧
        (skipped = rounds ∨ now < s'.bucketStartTimeMilliseconds + B) := by
  induction rounds generalizing s K with
  | zero => exact .inr ⟨s, 0, rfl, h, hnow, rfl, .inl rfl⟩
  | succ rounds ih =>
    rcases add32_cases s.bucketStartTimeMilliseconds s.bucketMilliseconds with hover | hend
    · exact .inl (by simp only [advance, hover, error_bind])
    · simp only [advance, hend, ok_bind]
      split
      · next hle =>
        rcases ih h.next_bucket hle with hover | ⟨s', skipped, hok, htracks, hstart, hinit, hlast⟩
        · exact .inl hover
        · refine .inr ⟨s', skipped + 1, hok, ?_, hstart, hinit, by omega⟩
          rwa [show K + (skipped + 1) = K + 1 + skipped by omega]
      · next hlt => exact .inr ⟨s, 0, rfl, h, hnow, rfl, .inr (by rw [h.width] at hlt; omega)⟩

/-- The jump at the end moves the start on only when every bucket has been emptied. -/
theorem Tracks.jump {now skipped : Nat} {s' : RateTracker} (hB : 0 < B) (h : Tracks B n events K s)
    (h' : Tracks B n events (K + skipped) s')
    (hinit : s'.initializationTimeMilliseconds = s.initializationTimeMilliseconds)
    (hlast : skipped = n + 1 ∨ now < s'.bucketStartTimeMilliseconds + B) :
    Tracks B n events (K + skipped + (now - s'.bucketStartTimeMilliseconds) / B) { s' with
      bucketStartTimeMilliseconds := s'.bucketStartTimeMilliseconds +
        B * ((now - s'.bucketStartTimeMilliseconds) / B) } := by
  rcases hlast with hall | hnear
  · refine h'.skip (fun e he => ?_) (by omega) _
    rw [hinit, show K + skipped - n = K + 1 by omega]
    exact (h.within e he).2
  · rw [Nat.div_eq_of_lt (by omega)]
    exact h'

theorem addSamples_tracks {now sampleCount : Nat} (hB : 0 < B)
    (h : Tracks B n events K (s.ensureInitialized now))
    (hnow : (s.ensureInitialized now).bucketStartTimeMilliseconds ≤ now) :
    s.addSamples now sampleCount = .error .overflow ∨
      ∃ s' K', s.addSamples now sampleCount = .ok s' ∧ Tracks B n (events ++ [(now, sampleCount)]) K' s' ∧
        s'.initializationTimeMilliseconds = (s.ensureInitialized now).initializationTimeMilliseconds ∧
        s'.bucketStartTimeMilliseconds ≤ now := by
  have hrounds : s.bucketCount = n := by
    rw [← h.count, ensureInitialized]
    split <;> rfl
  rcases @advance_spec _ _ _ _ _ _ (s.bucketCount + 1) h hnow with hover | ⟨t, skipped, hok, ht, hstart, hinit, hlast⟩
  · exact .inl (by simp only [addSamples, hover, error_bind])
  · rw [hrounds] at hlast
    have hjump := h.jump hB ht hinit hlast
    have hread := hjump.held 0 (Nat.succ_pos n) (Nat.zero_le _)
    rw [back_of_le hjump.current (Nat.zero_le _)] at hread
    obtain rfl := ht.width
    have hbehind := Nat.div_add_mod (now - t.bucketStartTimeMilliseconds) t.bucketMilliseconds
    have hmod := Nat.mod_lt (now - t.bucketStartTimeMilliseconds) hB
    have hcount : t.readBucket t.currentBucket = .ok (bucketTotal t.bucketMilliseconds t.initializationTimeMilliseconds
        events (K + skipped + (now - t.bucketStartTimeMilliseconds) / t.bucketMilliseconds)) := by
      simp only [bucket, Nat.sub_zero] at hread
      simp only [readBucket, bucket, hread]
    simp only [addSamples, hok, ok_bind, sub32_ok hstart]
    rcases mul32_cases t.bucketMilliseconds ((now - t.bucketStartTimeMilliseconds) / t.bucketMilliseconds) with
      hover | hmul
    · exact .inl (by rw [hover, error_bind])
    · rw [hmul, ok_bind]
      rcases add32_cases t.bucketStartTimeMilliseconds
        (t.bucketMilliseconds * ((now - t.bucketStartTimeMilliseconds) / t.bucketMilliseconds)) with hover | hadd
      · exact .inl (by rw [hover, error_bind])
      · rw [hadd, ok_bind, hcount, ok_bind]
        have hadded := @Tracks.add _ _ _ _ _ hjump now (by simp only; omega) (by simp only; omega) sampleCount
          (t.totalSampleCount + sampleCount)
        exact .inr ⟨_, _, rfl, hadded, hinit, by simp only; omega⟩

/-! ## The rate -/

/-- The last `m` buckets, read from the oldest of them on. -/
theorem sumBuckets_spec {fuel m i total : Nat} (h : Tracks B n events K s) (hm : m ≤ n)
    (hK : m ≤ K + 1) (hfuel : m < fuel)
    (hi : i = (s.currentBucket + (n + 2 - m)) % (n + 1)) :
    s.sumBuckets fuel i total =
      .ok (total + samplesFrom events (s.initializationTimeMilliseconds + (K + 1 - m) * B)) := by
  have hnext : s.nextBucketIndex s.currentBucket = next (n + 1) s.currentBucket := nextBucketIndex_eq h.count h.current
  induction m generalizing fuel i total with
  | zero =>
    obtain ⟨fuel, rfl⟩ : ∃ f, fuel = f + 1 := ⟨fuel - 1, by omega⟩
    have hend : i = s.nextBucketIndex s.currentBucket := by
      rw [hi, nextBucketIndex, h.count, show s.currentBucket + (n + 2 - 0) = s.currentBucket + 1 + (n + 1) by omega,
        Nat.add_mod_right]
    rw [sumBuckets, if_pos hend, samplesFrom_of_before fun e he => by simpa using (h.within e he).2, Nat.add_zero]
  | succ m ih =>
    obtain ⟨fuel, rfl⟩ : ∃ f, fuel = f + 1 := ⟨fuel - 1, by omega⟩
    have hback : i = back (n + 1) s.currentBucket m := by rw [hi, back, show n + 2 - (m + 1) = n + 1 - m by omega]
    have hother : i ≠ s.nextBucketIndex s.currentBucket := by
      rw [hnext, hback]
      exact back_ne_next h.current (by omega)
    have hread : s.readBucket i = .ok (bucketTotal B s.initializationTimeMilliseconds events (K - m)) := by
      rw [readBucket, hback, h.held m (by omega) (by omega)]
    have hstep : s.nextBucketIndex i = (s.currentBucket + (n + 2 - m)) % (n + 1) := by
      rw [nextBucketIndex, h.count, hi, Nat.mod_add_mod, Nat.add_assoc, show n + 2 - (m + 1) + 1 = n + 2 - m by omega]
    rw [sumBuckets, if_neg hother, hread, ok_bind, ih (by omega) (by omega) (by omega) hstep,
      @samplesFrom_eq _ (s.initializationTimeMilliseconds + (K + 1 - (m + 1)) * B)
        (s.initializationTimeMilliseconds + (K + 1 - m) * B)
        (Nat.add_le_add_left (Nat.mul_le_mul_right B (by omega)) _), Nat.add_assoc, bucketTotal,
      show K + 1 - (m + 1) = K - m by omega, show K - m + 1 = K + 1 - m by omega]

/-- The buckets from number `K - j` on, the first of them in part. -/
theorem computeTotal_spec {j ms available : Nat} (h : Tracks B n events K s) (hj : j ≤ n) (hK : j ≤ K) (hms : ms ≤ B)
    (havailable : available ≠ 0) :
    s.computeTotal (n - j) ms available =
      .ok (some ((bucketTotal B s.initializationTimeMilliseconds events (K - j) * (B - ms) + B / 2) / B +
        samplesFrom events (s.initializationTimeMilliseconds + (K + 1 - j) * B), available)) := by
  have hfirst : s.nextBucketIndex (s.currentBucket + (n - j)) = back (n + 1) s.currentBucket j := by
    rw [nextBucketIndex, h.count, back, show s.currentBucket + (n - j) + 1 = s.currentBucket + (n + 1 - j) by omega]
  have hread : s.readBucket (back (n + 1) s.currentBucket j) =
      .ok (bucketTotal B s.initializationTimeMilliseconds events (K - j)) := by
    rw [readBucket, h.held j (by omega) hK]
  have hrest : s.nextBucketIndex (back (n + 1) s.currentBucket j) = (s.currentBucket + (n + 2 - j)) % (n + 1) := by
    rw [nextBucketIndex, h.count, back, Nat.mod_add_mod, Nat.add_assoc, show n + 1 - j + 1 = n + 2 - j by omega]
  have hok : ¬(s.bucketCount < n - j ∨ available = 0) := by
    rw [h.count]
    omega
  simp only [computeTotal, hok, if_false, hfirst, hread, ok_bind, h.width, sub32_ok hms]
  rw [sumBuckets_spec h hj (by omega) (by rw [h.count]; omega) hrest]
  rfl

/-- The time from which on the samples count. -/
def intervalStart (B n init now interval : Nat) : Nat := max init (now - min interval (n * B))

/-- The number of the bucket that holds a time. -/
def bucketOf (B init time : Nat) : Nat := (time - init) / B

/-- What the tracker is to return at `now`, when `events` have been added and the first of them at `init`. -/
structure Exact (B n : Nat) (events : List (Nat × Nat)) (init now interval : Nat) (r : Option (Nat × Nat)) : Prop where
  /-- The part of the first bucket, to the nearest number, and all samples behind that bucket. -/
  total : ∀ total len, r = some (total, len) →
    let start := intervalStart B n init now interval
    let k := bucketOf B init start
    len = now - start ∧ ∃ q, Nearest (bucketTotal B init events k * (init + (k + 1) * B - start)) B q ∧
      total = q + samplesFrom events (init + (k + 1) * B)
  silent : (∀ e ∈ events, e.1 < init + bucketOf B init (intervalStart B n init now interval) * B) → r = none
  /-- There is no other reason for a zero, but for samples added at the time that the code takes for no time at all. -/
  zero : r = none → intervalStart B n init now interval = now ∨
    (∀ e ∈ events, e.1 < init + bucketOf B init (intervalStart B n init now interval) * B) ∨
    ∃ e ∈ events, notStarted ≤ e.1

theorem Tracks.exact {now interval k ms len : Nat} (h : Tracks B n events K s) (hB : 0 < B)
    (htouched : ∃ e ∈ events, s.bucketStartTimeMilliseconds ≤ e.1) (hk : k ≤ K) (hms : ms < B)
    (hstart : intervalStart B n s.initializationTimeMilliseconds now interval =
      s.initializationTimeMilliseconds + k * B + ms)
    (hlen : len = now - intervalStart B n s.initializationTimeMilliseconds now interval) :
    Exact B n events s.initializationTimeMilliseconds now interval
      (some ((bucketTotal B s.initializationTimeMilliseconds events k * (B - ms) + B / 2) / B +
        samplesFrom events (s.initializationTimeMilliseconds + (k + 1) * B), len)) := by
  have hbucket : bucketOf B s.initializationTimeMilliseconds (intervalStart B n s.initializationTimeMilliseconds now
      interval) = k := by
    rw [bucketOf, hstart, Nat.add_assoc, Nat.add_sub_cancel_left, Nat.add_comm, Nat.add_mul_div_right _ _ hB,
      Nat.div_eq_of_lt hms, Nat.zero_add]
  constructor
  · intro total len' hr
    cases hr
    simp only [hbucket]
    have hshare : s.initializationTimeMilliseconds + (k + 1) * B - intervalStart B n s.initializationTimeMilliseconds
        now interval = B - ms := by
      rw [hstart, Nat.add_mul]
      omega
    rw [hshare]
    exact ⟨hlen, _, nearest_div hB _, rfl⟩
  · intro hsilent
    obtain ⟨e, he, hlate⟩ := htouched
    have hearly := hsilent e he
    have hle := Nat.mul_le_mul_right B hk
    rw [hbucket] at hearly
    rw [h.start] at hlate
    omega
  · intro hr
    cases hr

theorem computeRate_tracks {now interval : Nat} (h : Tracks B n events K s) (hB : 0 < B)
    (hnow : s.bucketStartTimeMilliseconds ≤ now) (htouched : ∃ e ∈ events, s.bucketStartTimeMilliseconds ≤ e.1) :
    s.computeRateForInterval now interval = .error .overflow ∨
      ∃ r, s.computeRateForInterval now interval = .ok r ∧
        Exact B n events s.initializationTimeMilliseconds now interval r := by
  have hstart := h.start
  by_cases hsentinel : s.bucketStartTimeMilliseconds = notStarted
  · refine .inr ⟨none, by rw [computeRateForInterval, if_pos hsentinel], by simp, fun _ => rfl, fun _ => ?_⟩
    exact .inr (.inr (hsentinel ▸ htouched))
  · rw [computeRateForInterval, if_neg hsentinel]
    rcases mul32_cases s.bucketMilliseconds s.bucketCount with hover | hmul
    · exact .inl (by rw [hover, error_bind])
    rw [hmul, ok_bind, h.width, h.count, Nat.mul_comm B n]
    rcases add32_cases s.initializationTimeMilliseconds (min interval (n * B)) with hover | hadd
    · exact .inl (by simp only [hover, error_bind])
    simp only [hadd, ok_bind]
    split
    · next hlate =>
      rw [sub32_ok hnow, ok_bind]
      rcases add32_cases (now - s.bucketStartTimeMilliseconds) (n * B) with hover | hsum
      · exact .inl (by rw [hover, error_bind])
      rw [hsum, ok_bind, sub32_ok (by omega), ok_bind]
      -- the number of the bucket in which the interval starts is the one the ring index comes to
      generalize hskip : now - s.bucketStartTimeMilliseconds + n * B - min interval (n * B) = timeToSkip
      generalize hD : now - min interval (n * B) - s.initializationTimeMilliseconds = D
      have hbegin : intervalStart B n s.initializationTimeMilliseconds now interval =
          s.initializationTimeMilliseconds + D := by
        rw [intervalStart]
        omega
      have hsame : timeToSkip + K * B = D + n * B := by omega
      have hdiv : timeToSkip / B + K = D / B + n := by
        rw [← Nat.add_mul_div_right _ _ hB, ← Nat.add_mul_div_right _ _ hB, hsame]
      have hmod : timeToSkip % B = D % B := by
        rw [← Nat.add_mul_mod_self_right timeToSkip K B, hsame, Nat.add_mul_mod_self_right]
      have hsplit := Nat.div_add_mod D B
      rw [Nat.mul_comm] at hsplit
      generalize hk : D / B = k at hdiv hsplit
      generalize timeToSkip / B = skip at hdiv ⊢
      by_cases hzero : min interval (n * B) = 0
      · refine .inr ⟨none, by simp [computeTotal, hzero], by simp, fun _ => rfl, fun _ => .inl ?_⟩
        omega
      by_cases hfar : n < skip
      · refine .inr ⟨none, by simp [computeTotal, h.count, hfar], by simp, fun _ => rfl, fun _ => .inr (.inl ?_)⟩
        intro e he
        have hwithin := (h.within e he).2
        have hle := Nat.mul_le_mul_right B (show K + 1 ≤ k by omega)
        rw [bucketOf, hbegin, Nat.add_sub_cancel_left, hk]
        omega
      · have hj : skip = n - (K - k) := by omega
        have hkK : k ≤ K := by omega
        refine .inr ⟨_, by rw [hj, computeTotal_spec h (by omega) (by omega) (Nat.mod_lt _ hB).le hzero], ?_⟩
        rw [hmod, show K - (K - k) = k by omega, show K + 1 - (K - k) = k + 1 by omega]
        exact h.exact hB htouched hkK (Nat.mod_lt _ hB) (by omega) (by omega)
    · next hearly =>
      have hK : K ≤ n := by
        refine Nat.le_of_mul_le_mul_right (c := B) ?_ hB
        omega
      have hbegin : intervalStart B n s.initializationTimeMilliseconds now interval =
          s.initializationTimeMilliseconds := by
        rw [intervalStart]
        omega
      rw [h.aligned hK, sub32_ok hK, ok_bind, sub32_ok (by omega), ok_bind]
      by_cases hzero : now - s.initializationTimeMilliseconds = 0
      · refine .inr ⟨none, by simp [computeTotal, hzero], by simp, fun _ => rfl, fun _ => .inl ?_⟩
        omega
      · refine .inr ⟨_, computeTotal_spec h hK (Nat.le_refl K) (Nat.zero_le B) hzero, ?_⟩
        rw [Nat.sub_self, show K + 1 - K = 0 + 1 by omega]
        exact h.exact hB htouched (Nat.zero_le K) hB (by rw [hbegin]; simp) (by rw [hbegin])

/-! ## The size of the counts -/

/-- All samples that were added. -/
def samples (events : List (Nat × Nat)) : Nat := (events.map Prod.snd).sum

theorem samplesFrom_le (events : List (Nat × Nat)) (lo : Nat) : samplesFrom events lo ≤ samples events := by
  induction events with
  | nil => exact Nat.le_refl _
  | cons e rest ih =>
    simp only [samplesFrom, samples, List.map_cons, List.sum_cons] at ih ⊢
    split <;> omega

/-- **What `size_t` has to hold**: the total is at most the number of the samples, and the product of which the first
bucket's share is taken at most that number times the length of a bucket. -/
theorem Exact.total_le {init now interval total len : Nat} (hB : 0 < B)
    (h : Exact B n events init now interval (some (total, len))) :
    let start := intervalStart B n init now interval
    let k := bucketOf B init start
    total ≤ samples events ∧ bucketTotal B init events k * (init + (k + 1) * B - start) ≤ samples events * B := by
  obtain ⟨-, q, hnearest, htotal⟩ := h.total total len rfl
  dsimp only at *
  have hinit : init ≤ intervalStart B n init now interval := Nat.le_max_left _ _
  generalize intervalStart B n init now interval = start at *
  have hlate : init + bucketOf B init start * B ≤ start := by
    have hdiv := Nat.div_mul_le_self (start - init) B
    rw [bucketOf]
    omega
  generalize bucketOf B init start = k at *
  have hsplit := @samplesFrom_eq events (init + k * B) (init + (k + 1) * B)
    (Nat.add_le_add_left (Nat.mul_le_mul_right B (Nat.le_succ k)) _)
  have hall := samplesFrom_le events (init + k * B)
  have hfirst : samplesIn events (init + k * B) (init + (k + 1) * B) = bucketTotal B init events k := rfl
  rw [hfirst] at hsplit
  have hshare : init + (k + 1) * B - start ≤ B := by
    rw [Nat.add_mul, Nat.one_mul]
    omega
  have hproduct := Nat.mul_le_mul_left (bucketTotal B init events k) hshare
  have hq : q ≤ bucketTotal B init events k := by
    have hle := hnearest.1
    refine Nat.lt_succ_iff.1 (Nat.lt_of_mul_lt_mul_left (a := B) ?_)
    rw [Nat.mul_succ, Nat.mul_comm B (bucketTotal B init events k)]
    omega
  exact ⟨by omega, Nat.le_trans hproduct (Nat.mul_le_mul_right B (by omega))⟩

/-! ## Runs -/

/-- After `calls` there have been no samples, or the ring holds what has been added. -/
def Counted (B n : Nat) (calls : List Call) (s : RateTracker) : Prop :=
  (added calls = [] ∧ s = new B n) ∨
    ∃ K first rest, added calls = first :: rest ∧ s.initializationTimeMilliseconds = first.1 ∧
      Tracks B n (added calls) K s ∧ ∃ e ∈ added calls, s.bucketStartTimeMilliseconds ≤ e.1

theorem added_time {calls : List Call} {e : Nat × Nat} (he : e ∈ added calls) : ∃ c ∈ calls, c.time = e.1 := by
  obtain ⟨c, hc, hadd⟩ := List.mem_filterMap.1 he
  cases c with
  | addSamples currentTime sampleCount =>
    cases hadd
    exact ⟨_, hc, rfl⟩
  | computeRateForInterval currentTime interval => cases hadd

/-- The first samples. -/
theorem tracks_first (B n now : Nat) :
    Tracks B n [] 0 ((new B n).ensureInitialized now) ∧
      ((new B n).ensureInitialized now).bucketStartTimeMilliseconds = now ∧
      ((new B n).ensureInitialized now).initializationTimeMilliseconds = now := by
  refine ⟨⟨rfl, rfl, by simp [ensureInitialized, new], by simp [ensureInitialized, new], Nat.succ_pos n, ?_,
    fun _ => rfl, by simp⟩, rfl, rfl⟩
  intro j _ hle
  obtain rfl := Nat.le_zero.1 hle
  simp [ensureInitialized, new, bucket, bucketTotal, samplesIn, back]

/-- A start time that reads as none at all is too late for another call to add samples. -/
theorem addSamples_late {now sampleCount : Nat} (hB : 0 < s.bucketMilliseconds)
    (hs : s.bucketStartTimeMilliseconds = notStarted) (hnow : notStarted ≤ now) :
    s.addSamples now sampleCount = .error .overflow := by
  have hover : add32 now s.bucketMilliseconds = .error .overflow := by
    rw [add32, if_neg]
    simp only [notStarted] at hnow
    omega
  simp only [addSamples, ensureInitialized, hs, if_true, advance, hover, error_bind]

theorem step_counted {calls : List Call} {call : Call} (hB : 0 < B) (h : Counted B n calls s)
    (hlater : ∀ c ∈ calls, c.time ≤ call.time) :
    s.step call = .error .overflow ∨ ∃ s', s.step call = .ok s' ∧ Counted B n (calls ++ [call]) s' := by
  cases call with
  | addSamples now sampleCount =>
    have hadded : added (calls ++ [.addSamples now sampleCount]) = added calls ++ [(now, sampleCount)] := by
      simp [added]
    rcases h with ⟨hnone, rfl⟩ | ⟨K, first, rest, hfirst, hinit, htracks, e, he, hstart⟩
    · obtain ⟨htracks, hstart, hinit⟩ := tracks_first B n now
      rcases @addSamples_tracks _ _ _ _ _ _ sampleCount hB htracks hstart.le with
        hover | ⟨s', K', hok, htracks', hinit', hstart'⟩
      · exact .inl hover
      · refine .inr ⟨s', hok, .inr ⟨K', (now, sampleCount), [], by simp [hadded, hnone], by rw [hinit', hinit], ?_,
          (now, sampleCount), by simp [hadded], hstart'⟩⟩
        rwa [hadded, hnone]
    · obtain ⟨c, hc, hctime⟩ := added_time he
      have hnow : s.bucketStartTimeMilliseconds ≤ now := by
        have := hlater c hc
        simp only [Call.time] at this hctime
        omega
      by_cases hsentinel : s.bucketStartTimeMilliseconds = notStarted
      · exact .inl (addSamples_late (by rw [htracks.width]; exact hB) hsentinel (hsentinel ▸ hnow))
      · have hsame : s.ensureInitialized now = s := if_neg hsentinel
        rcases @addSamples_tracks _ _ _ _ _ _ sampleCount hB (by rwa [hsame]) (by rwa [hsame]) with
          hover | ⟨s', K', hok, htracks', hinit', hstart'⟩
        · exact .inl hover
        · refine .inr ⟨s', hok, .inr ⟨K', first, rest ++ [(now, sampleCount)], by simp [hadded, hfirst],
            by rw [hinit', hsame, hinit], ?_, (now, sampleCount), by simp [hadded], hstart'⟩⟩
          rwa [hadded]
  | computeRateForInterval now interval =>
    have hadded : added (calls ++ [.computeRateForInterval now interval]) = added calls := by simp [added]
    have hkeep : Counted B n (calls ++ [.computeRateForInterval now interval]) s := by rwa [Counted, hadded]
    rcases h with ⟨-, rfl⟩ | ⟨K, first, rest, -, -, htracks, e, he, hstart⟩
    · exact .inr ⟨_, rfl, hkeep⟩
    · obtain ⟨c, hc, hctime⟩ := added_time he
      have hnow : s.bucketStartTimeMilliseconds ≤ now := by
        have := hlater c hc
        simp only [Call.time] at this hctime
        omega
      rcases @computeRate_tracks _ _ _ _ _ _ interval htracks hB hnow ⟨e, he, hstart⟩ with hover | ⟨r, hok, -⟩
      · exact .inl (by rw [step, hover]; rfl)
      · exact .inr ⟨s, by rw [step, hok]; rfl, hkeep⟩

theorem run_append (calls : List Call) (call : Call) :
    s.run (calls ++ [call]) = s.run calls >>= fun t => t.step call := by
  simp [run, List.foldlM_append]

theorem run_counted (hB : 0 < B) {calls : List Call} (htimes : calls.Pairwise fun c d => c.time ≤ d.time) :
    (new B n).run calls = .error .overflow ∨ ∃ s, (new B n).run calls = .ok s ∧ Counted B n calls s := by
  induction calls using List.reverseRecOn with
  | nil => exact .inr ⟨_, rfl, .inl ⟨rfl, rfl⟩⟩
  | append_singleton calls call ih =>
    obtain ⟨hbefore, -, hlater⟩ := List.pairwise_append.1 htimes
    rw [run_append]
    rcases ih hbefore with hover | ⟨s, hok, hcounted⟩
    · exact .inl (by rw [hover, error_bind])
    · rw [hok, ok_bind]
      exact step_counted hB hcounted fun c hc => hlater c hc call (by simp)

/-- Every rate that a run asks for, if no 32-bit number wraps on the way. -/
theorem rateTracker_exact {B n : Nat} (hB : 0 < B) {before : List Call} {now interval : Nat}
    (htimes : (before ++ [Call.computeRateForInterval now interval]).Pairwise fun c d => c.time ≤ d.time)
    (hfits : (new B n).run (before ++ [.computeRateForInterval now interval]) ≠ .error .overflow) :
    ∃ s r, (new B n).run before = .ok s ∧ s.computeRateForInterval now interval = .ok r ∧
      (added before = [] → r = none) ∧
      ∀ init sampleCount rest, added before = (init, sampleCount) :: rest →
        Exact B n (added before) init now interval r := by
  obtain ⟨hbefore, -, hlater⟩ := List.pairwise_append.1 htimes
  rw [run_append] at hfits
  rcases run_counted (n := n) hB hbefore with hover | ⟨s, hok, hcounted⟩
  · rw [hover, error_bind] at hfits
    exact absurd rfl hfits
  · rw [hok, ok_bind] at hfits
    rcases hcounted with ⟨hnone, rfl⟩ | ⟨K, first, rest, hfirst, hinit, htracks, e, he, hstart⟩
    · refine ⟨_, none, hok, rfl, fun _ => rfl, fun init sampleCount rest h => ?_⟩
      rw [hnone] at h
      cases h
    · obtain ⟨c, hc, hctime⟩ := added_time he
      have hnow : s.bucketStartTimeMilliseconds ≤ now := by
        have := hlater c hc _ (List.mem_singleton_self _)
        simp only [Call.time] at this hctime
        omega
      rcases @computeRate_tracks _ _ _ _ _ _ interval htracks hB hnow ⟨e, he, hstart⟩ with hover | ⟨r, hr, hexact⟩
      · rw [step, hover] at hfits
        exact absurd rfl hfits
      · refine ⟨s, r, hok, hr, fun h => ?_, fun init sampleCount rest' h => ?_⟩
        · rw [hfirst] at h
          cases h
        · rw [hfirst, List.cons.injEq] at h
          rw [hinit, h.1] at hexact
          exact hexact

theorem rateTracker_exact_two :
    ∃ s, (new 100 2).run [.addSamples 1000 5, .addSamples 1150 7] = .ok s ∧
      ∃ r, s.computeRateForInterval 1230 200 = .ok r ∧ Exact 100 2 [(1000, 5), (1150, 7)] 1000 1230 200 r := by
  obtain ⟨s, r, hrun, hr, -, hexact⟩ := @rateTracker_exact 100 2 (by decide)
    [.addSamples 1000 5, .addSamples 1150 7] 1230 200 (by decide) (by decide)
  exact ⟨s, hrun, r, hr, hexact 1000 5 _ rfl⟩

-- Buckets of 100 ms: of the first one the last 70 ms count, of the others all.
example : ((new 100 2).run [.addSamples 1000 5, .addSamples 1150 7] >>= fun s => s.computeRateForInterval 1230 200) =
    .ok (some (11, 200)) := by decide

end RateTracker
end WebRtc.Base
