import WebRtc.Wav.WaveIO

/-!
# Which WAV files open as they should (`WaveIO.cpp`)

The constructor is right about a file (`Settles`) when, whatever `m_head` held before, it ends, puts at most
32 bytes into `tmp`, and a status of 0 leaves the file at the `data` chunk that the chunk lengths lead to
(`Reaches`). It follows them by a walk of its own (`Walks`): it starts at byte 36 also when the format chunk is
shorter, takes a negative length for 0, and lays what is left of the file over the header before when that is less
than a header.
-/

namespace WebRtc.Wav

open Bytes Opening

/-! ## Chunks of a file -/

section
variable (file : List UInt8)

def headerAt (p i : Nat) : UInt8 := byteAt file (p + i)
def lengthAt (p : Nat) : Int := lengthOf (headerAt file p)

/-- The length of the format chunk. -/
def fmtSizeOf : Nat := (le32At file 16).toNat

/-- From the chunk at `p` the chunk lengths lead to a first `data` chunk, at `d`. -/
inductive Reaches : Nat → Nat → Prop
  | found {p : Nat} (hroom : p + 8 ≤ file.length) (hdata : idOf (headerAt file p) = dataID) : Reaches p p
  | follow {p d : Nat} (hroom : p + 8 ≤ file.length) (hother : idOf (headerAt file p) ≠ dataID)
      (hlength : 0 ≤ lengthAt file p) (h : Reaches (p + 8 + (lengthAt file p).toNat) d) : Reaches p d

/-- A header after the bytes of the file from `r` on have been laid over it. -/
def laid (r : Nat) (header : Nat → UInt8) (i : Nat) :
    UInt8 := if r + i < file.length then byteAt file (r + i) else header i

/-- The same walk where a negative length counts as 0, and the last bytes of the file may make a header. -/
inductive Walks : Nat → Nat → Prop
  | found {p : Nat} (hroom : p + 8 ≤ file.length) (hdata : idOf (headerAt file p) = dataID) : Walks p p
  | follow {p d : Nat} (hroom : p + 8 ≤ file.length) (hother : idOf (headerAt file p) ≠ dataID)
      (h : Walks (p + 8 + (lengthAt file p).toNat) d) : Walks p d
  | torn {p d : Nat} (hroom : p + 8 ≤ file.length) (hother : idOf (headerAt file p) ≠ dataID)
      (hshort : file.length < p + 8 + (lengthAt file p).toNat + 8) (hend : d + 8 = file.length)
      (hdata : idOf (laid file (p + 8 + (lengthAt file p).toNat) (headerAt file p)) = dataID)
      (hlength : lengthOf (laid file (p + 8 + (lengthAt file p).toNat) (headerAt file p)) = lengthAt file d) : Walks p d

/-- The first bytes of the file already differ from those of a WAV file. -/
def Refused : Prop := ∃ p ∈ magic, p.1 < file.length ∧ byteAt file p.1 ≠ p.2

def Settles : Prop :=
  ∀ initial, ∃ fuel mFileStatus position head,
    openForReading initial (some file) fuel = .opened mFileStatus position head ∧
    (mFileStatus = 0 → ∃ d, Reaches file (20 + fmtSizeOf file) d ∧ position = d + 8 ∧
      lengthOf (fun i => head (36 + i)) = lengthAt file d)

end

variable {file : List UInt8} {p d : Nat}

theorem Reaches.room (h : Reaches file p d) : p ≤ d ∧ d + 8 ≤ file.length := by
  induction h with
  | found hroom _ => exact ⟨Nat.le_refl _, hroom⟩
  | follow _ _ _ _ ih => exact ⟨by omega, ih.2⟩

theorem Reaches.data (h : Reaches file p d) : idOf (headerAt file d) = dataID := by
  induction h with
  | found _ hdata => exact hdata
  | follow _ _ _ _ ih => exact ih

theorem Reaches.walks (h : Reaches file p d) : Walks file p d := by
  induction h with
  | found hroom hdata => exact .found hroom hdata
  | follow hroom hother _ _ ih => exact .follow hroom hother ih

/-! ## Reading from the file -/

/-- The first `k` bytes of `m_head` have been read, as far as the file goes. -/
structure Aligned (file : List UInt8) (initial : Memory) (k : Nat) (s : Opening) : Prop where
  position : s.position = min k file.length
  head : ∀ a, s.head a = if a < k ∧ a < file.length then byteAt file a else initial a

theorem fread_data (file : List UInt8) (position n : Nat) {i : Nat} (hi : i < ((file.drop position).take n).length) :
    ((file.drop position).take n).getD i 0 = byteAt file (position + i) := by
  rw [List.length_take] at hi
  have htake : byteAt ((file.drop position).take n) i = byteAt (file.drop position) i := byteAt_take (by omega)
  rw [← byteAt_drop, ← htake]
  rfl

theorem Aligned.fread {initial : Memory} {k : Nat} {s : Opening} (h : Aligned file initial k s) (n : Nat) :
    Aligned file initial (k + n) (s.fread file k n) where
  position := by
    simp only [Opening.fread, h.position, List.length_take, List.length_drop]
    omega
  head := by
    intro a
    have hlength : ((file.drop s.position).take n).length = min n (file.length - s.position) := by simp
    have hpos := h.position
    simp only [Opening.fread, Memory.memcpy]
    by_cases hin : k ≤ a ∧ a < k + ((file.drop s.position).take n).length
    · have hplace : s.position + (a - k) = a := by omega
      rw [if_pos hin, fread_data _ _ _ (by omega), hplace, if_pos (by omega)]
    · rw [if_neg hin, h.head]
      by_cases hk : a < k ∧ a < file.length
      · rw [if_pos hk, if_pos (by omega)]
      · rw [if_neg hk, if_neg (by omega)]

theorem skip_eq (file : List UInt8) (n position : Nat) (h : position ≤ file.length) :
    skip file n position = min (position + n) file.length := by
  induction n generalizing position with
  | zero =>
    rw [skip]
    omega
  | succ n ih =>
    have hlength : ((file.drop position).take 1).length = min 1 (file.length - position) := by simp
    rw [skip, ih _ (by omega), hlength]
    omega

/-- Two reads make one header, or a part of one. -/
theorem readChunkHeader_spec {s : Opening} (h : s.position ≤ file.length) :
    (readChunkHeader file s).position = min (s.position + 8) file.length ∧
      ∀ i < 8, (readChunkHeader file s).header i = laid file s.position s.header i := by
  have hfirst : ((file.drop s.position).take 4).length = min 4 (file.length - s.position) := by simp
  have hsecond : ((file.drop (s.position + ((file.drop s.position).take 4).length)).take 4).length =
      min 4 (file.length - (s.position + ((file.drop s.position).take 4).length)) := by simp
  refine ⟨?_, fun i hi => ?_⟩
  · simp only [readChunkHeader, Opening.fread]
    omega
  · simp only [readChunkHeader, Opening.fread, Opening.header, Memory.memcpy, laid]
    by_cases hlow : i < 4
    · rw [if_neg (by omega)]
      by_cases hin : 36 ≤ 36 + i ∧ 36 + i < 36 + ((file.drop s.position).take 4).length
      · rw [if_pos hin, Nat.add_sub_cancel_left, fread_data _ _ _ (by omega), if_pos (by omega)]
      · rw [if_neg hin, if_neg (by omega)]
    · by_cases hin : 40 ≤ 36 + i ∧ 36 + i < 40 + ((file.drop (s.position +
          ((file.drop s.position).take 4).length)).take 4).length
      · have hplace : s.position + ((file.drop s.position).take 4).length + (36 + i - 40) = s.position + i := by omega
        rw [if_pos hin, fread_data _ _ _ (by omega), hplace, if_pos (by omega)]
      · rw [if_neg hin, if_neg (by omega), if_neg (by omega)]

theorem readChunkHeader_at (s : Opening) {q : Nat} (h : q ≤ file.length) :
    (readChunkHeader file { s with position := q }).position = min (q + 8) file.length ∧
      ∀ i < 8, (readChunkHeader file { s with position := q }).header i = laid file q s.header i :=
  @readChunkHeader_spec file { s with position := q } h

theorem idOf_congr {h h' : Nat → UInt8} (heq : ∀ i < 8, h i = h' i) : idOf h = idOf h' := by
  simp only [idOf, heq 0 (by decide), heq 1 (by decide), heq 2 (by decide), heq 3 (by decide)]

theorem lengthOf_congr {h h' : Nat → UInt8} (heq : ∀ i < 8, h i = h' i) : lengthOf h = lengthOf h' := by
  simp only [lengthOf, heq 4 (by decide), heq 5 (by decide), heq 6 (by decide), heq 7 (by decide)]

/-! ## The walk of `Scan2Data` -/

/-- The header of the chunk at `q` has just been read. -/
structure HeaderRead (file : List UInt8) (q : Nat) (s : Opening) : Prop where
  position : s.position = q + 8
  room : q + 8 ≤ file.length
  header : ∀ i < 8, s.header i = headerAt file q i

theorem HeaderRead.length {s : Opening} (h : HeaderRead file p s) : lengthOf s.header = lengthAt file p :=
  lengthOf_congr h.header

theorem headerRead {s : Opening} (hp : s.position = p) (h : p + 8 ≤ file.length) :
    HeaderRead file p (readChunkHeader file s) := by
  subst hp
  obtain ⟨hpos, hheader⟩ := @readChunkHeader_spec file s (by omega)
  refine ⟨by omega, h, fun i hi => ?_⟩
  rw [hheader i hi, laid, if_pos (by omega), headerAt]

/-- The recursion after one header that is not the one of the data. -/
theorem scan2Data_succ {s : Opening} {fuel : Nat} (h : idOf s.header ≠ dataID) (hpos : s.position ≤ file.length) :
    scan2Data file 0 (fuel + 1) s = scan2Data file 0 fuel (readChunkHeader file
      { s with position := min (s.position + (lengthOf s.header).toNat) file.length }) := by
  rw [scan2Data, if_neg (by decide), if_neg h, skip_eq _ _ _ hpos]

theorem scan2Data_data {s : Opening} {fuel : Nat} (h : idOf s.header = dataID) :
    scan2Data file 0 (fuel + 1) s = some s := by
  rw [scan2Data, if_neg (by decide), if_pos h]

/-- At the end of the file nothing is read any more: it ends at once or never. -/
theorem scan2Data_end {s s' : Opening} {fuel : Nat} (hpos : s.position = file.length)
    (h : scan2Data file 0 fuel s = some s') : s' = s ∧ idOf s.header = dataID := by
  induction fuel generalizing s with
  | zero => cases h
  | succ fuel ih =>
    by_cases hdata : idOf s.header = dataID
    · rw [scan2Data_data hdata] at h
      cases h
      exact ⟨rfl, hdata⟩
    · rw [scan2Data_succ hdata hpos.le] at h
      obtain ⟨hnext, hheader⟩ := @readChunkHeader_at file s (min (s.position + (lengthOf s.header).toNat) file.length)
        (Nat.min_le_right _ _)
      have hstill : min (min (s.position + (lengthOf s.header).toNat) file.length + 8) file.length = file.length := by
        rw [hpos, Nat.min_eq_right (Nat.le_add_right _ _), Nat.min_eq_right (Nat.le_add_right _ _)]
      obtain ⟨-, hid⟩ := ih (hnext.trans hstill) h
      have hsame : idOf s.header = dataID := by
        rw [← hid]
        refine idOf_congr fun i hi => ?_
        have hbehind : ¬min (s.position + (lengthOf s.header).toNat) file.length + i < file.length := by
          rw [hpos, Nat.min_eq_right (Nat.le_add_right _ _)]
          exact Nat.not_lt.2 (Nat.le_add_right _ _)
        rw [hheader i hi, laid, if_neg hbehind]
      exact absurd hsame hdata

/-- The header that is read when the file ends within it. -/
theorem HeaderRead.torn {s : Opening} (h : HeaderRead file p s)
    (hshort : file.length < p + 8 + (lengthAt file p).toNat + 8) {next : Opening}
    (hnext : next = readChunkHeader file
      { s with position := min (s.position + (lengthOf s.header).toNat) file.length }) :
    next.position = file.length ∧
      ∀ i < 8, next.header i = laid file (p + 8 + (lengthAt file p).toNat) (headerAt file p) i := by
  obtain ⟨hpos, hheader⟩ := @readChunkHeader_at file s (min (s.position + (lengthOf s.header).toNat) file.length)
    (Nat.min_le_right _ _)
  rw [← hnext, h.position, h.length] at hpos hheader
  generalize (lengthAt file p).toNat = length at hshort hpos hheader
  refine ⟨by omega, fun i hi => ?_⟩
  rw [hheader i hi, laid, laid]
  by_cases hin : p + 8 + length + i < file.length
  · have hplace : min (p + 8 + length) file.length = p + 8 + length := by omega
    rw [hplace]
    simp only [hin, if_true]
  · rw [if_neg hin, if_neg (by omega)]
    exact h.header i hi

/-- A walk that comes to its end is one of the file. -/
theorem walks_of_scan {s s' : Opening} {fuel : Nat} (h : HeaderRead file p s)
    (hscan : scan2Data file 0 fuel s = some s') (hpos : s'.position = d + 8)
    (hlength : lengthOf s'.header = lengthAt file d) : Walks file p d := by
  induction fuel generalizing s p with
  | zero => cases hscan
  | succ fuel ih =>
    by_cases hdata : idOf s.header = dataID
    · rw [scan2Data_data hdata] at hscan
      cases hscan
      rw [idOf_congr h.header] at hdata
      rw [h.position, Nat.add_right_cancel_iff] at hpos
      subst hpos
      exact .found h.room hdata
    · rw [scan2Data_succ hdata (by rw [h.position]; exact h.room), h.position, h.length] at hscan
      rw [idOf_congr h.header] at hdata
      by_cases hroom : p + 8 + (lengthAt file p).toNat + 8 ≤ file.length
      · rw [Nat.min_eq_left (by omega)] at hscan
        exact .follow h.room hdata (ih (headerRead rfl hroom) hscan)
      · obtain ⟨hend, hheader⟩ := h.torn (Nat.not_le.1 hroom) rfl
        rw [h.position, h.length] at hend hheader
        obtain ⟨rfl, hid⟩ := scan2Data_end hend hscan
        rw [idOf_congr hheader] at hid
        rw [lengthOf_congr hheader] at hlength
        exact .torn h.room hdata (Nat.not_le.1 hroom) (by omega) hid hlength

theorem Walks.room (h : Walks file p d) : p + 8 ≤ file.length := by
  cases h <;> assumption

theorem scan_of_walks {s : Opening} (h : HeaderRead file p s) (hwalk : Walks file p d) :
    ∃ fuel s', scan2Data file 0 fuel s = some s' ∧ s'.position = d + 8 ∧ lengthOf s'.header = lengthAt file d := by
  induction hwalk generalizing s with
  | found hroom hdata =>
    rw [← idOf_congr h.header] at hdata
    exact ⟨1, s, scan2Data_data hdata, h.position, h.length⟩
  | @follow p d hroom hother hwalk ih =>
    rw [← idOf_congr h.header] at hother
    have hnext := @headerRead file _ { s with position := p + 8 + (lengthAt file p).toNat } rfl hwalk.room
    obtain ⟨fuel, s', hscan, hend⟩ := ih hnext
    refine ⟨fuel + 1, s', ?_, hend⟩
    have hroom' := hwalk.room
    rw [scan2Data_succ hother (by rw [h.position]; exact h.room), h.position, h.length, Nat.min_eq_left (by omega)]
    exact hscan
  | @torn p d hroom hother hshort hend hdata hlength =>
    rw [← idOf_congr h.header] at hother
    obtain ⟨hpos, hheader⟩ := h.torn hshort rfl
    rw [← idOf_congr hheader] at hdata
    rw [← lengthOf_congr hheader] at hlength
    exact ⟨2, _, by rw [scan2Data_succ hother (by rw [h.position]; exact h.room), scan2Data_data hdata],
      by rw [hpos, hend], hlength⟩

/-! ## The constructor -/

/-- What the constructor does after the fields of the format chunk. -/
def openData (file : List UInt8) (fuel : Nat) (s : Opening) : Opened :=
  let stored := if 16 < s.fmtSize then min (s.fmtSize - 16) (file.length - s.position) else 0
  if 32 < stored then .overrun stored
  else
    match scan2Data file 0 fuel (readChunkHeader file { s with position := s.position + stored }) with
    | none => .endless
    | some s => .opened 0 s.position s.head

theorem openForReading_eq (initial : Memory) (file : List UInt8) :
    ∃ riff fmt, Aligned file initial 16 riff ∧ Aligned file initial 36 fmt ∧ ∀ fuel,
      openForReading initial (some file) fuel =
        if recognised riff.head then openData file fuel fmt else .opened (-1) riff.position riff.head := by
  have hstart : Aligned file initial 0 (Opening.mk initial 0) := ⟨(Nat.zero_min _).symm, fun a => by simp⟩
  have hriff := ((hstart.fread 4).fread 4).fread 8
  have hfmt := ((((((hriff.fread 4).fread 2).fread 2).fread 4).fread 4).fread 2).fread 2
  exact ⟨_, _, hriff, hfmt, fun fuel => rfl⟩

theorem not_recognised {initial : Memory} {riff : Opening} (h : Aligned file initial 16 riff)
    (hrefused : Refused file) :
    recognised riff.head = false := by
  obtain ⟨p, hp, hlt, hne⟩ := hrefused
  have hp16 : ∀ p ∈ magic, p.1 < 16 := by decide
  have hbyte : riff.head p.1 ≠ p.2 := by rwa [h.head, if_pos ⟨hp16 p hp, hlt⟩]
  rw [recognised, List.all_eq_false]
  exact ⟨p, hp, by simpa using hbyte⟩

theorem recognised_of_magic {initial : Memory} {riff : Opening} (h : Aligned file initial 16 riff)
    (hfile : ¬Refused file) (hmagic : ∀ p ∈ magic, initial p.1 = p.2) : recognised riff.head = true := by
  rw [recognised, List.all_eq_true]
  intro p hp
  rw [beq_iff_eq, h.head]
  split
  · next hin =>
    by_contra hne
    exact hfile ⟨p, hp, hin.2, hne⟩
  · exact hmagic p hp

theorem Aligned.fmtSize {initial : Memory} {fmt : Opening} (h : Aligned file initial 36 fmt)
    (hlength : 20 ≤ file.length) :
    fmt.fmtSize = fmtSizeOf file := by
  have hbyte : ∀ a < 20, fmt.head a = byteAt file a := fun a ha => by rw [h.head, if_pos (by omega)]
  rw [Opening.fmtSize, fmtSizeOf, le32At, hbyte 16 (by decide), hbyte 17 (by decide), hbyte 18 (by decide),
    hbyte 19 (by decide)]

/-- The header behind the format chunk, when the file is long enough. -/
theorem Aligned.firstHeader {initial : Memory} {fmt : Opening} (h : Aligned file initial 36 fmt)
    (hroom : 36 + (fmtSizeOf file - 16) + 8 ≤ file.length) (hsize : fmtSizeOf file ≤ 48) :
    ∃ s, HeaderRead file (36 + (fmtSizeOf file - 16)) s ∧ ∀ fuel, openData file fuel fmt =
      match scan2Data file 0 fuel s with
      | none => .endless
      | some s => .opened 0 s.position s.head := by
  have hpos : fmt.position = 36 := by
    rw [h.position]
    omega
  have hstored : (if 16 < fmt.fmtSize then min (fmt.fmtSize - 16) (file.length - fmt.position) else 0) =
      fmtSizeOf file - 16 := by
    rw [h.fmtSize (by omega), hpos]
    split <;> omega
  refine ⟨_, headerRead (s := { fmt with position := fmt.position + (fmtSizeOf file - 16) })
    (by simp only; omega) hroom,
    fun fuel => ?_⟩
  rw [openData, hstored, if_neg (by omega)]

theorem settles_of_refused (h : Refused file) : Settles file := by
  intro initial
  obtain ⟨riff, fmt, hriff, -, heq⟩ := openForReading_eq initial file
  refine ⟨0, -1, riff.position, riff.head, ?_, fun h => by cases h⟩
  rw [heq, not_recognised hriff h]
  rfl

theorem settles_of_walks (hsize : fmtSizeOf file ≤ 48) (hreach : Reaches file (20 + fmtSizeOf file) d)
    (hwalk : Walks file (36 + (fmtSizeOf file - 16)) d) : Settles file := by
  intro initial
  obtain ⟨riff, fmt, hriff, hfmt, heq⟩ := openForReading_eq initial file
  cases hrec : recognised riff.head with
  | false =>
    refine ⟨0, -1, riff.position, riff.head, ?_, fun h => by cases h⟩
    rw [heq, hrec]
    rfl
  | true =>
    have hroom := hwalk.room
    obtain ⟨s, hs, hopen⟩ := hfmt.firstHeader hroom hsize
    obtain ⟨fuel, s', hscan, hpos, hlength⟩ := scan_of_walks hs hwalk
    refine ⟨fuel, 0, s'.position, s'.head, ?_, fun _ => ⟨d, hreach, hpos, hlength⟩⟩
    rw [heq, hrec, if_pos rfl, hopen, hscan]

/-! ## No other file -/

/-- What an object of the same place may have left: the letters of a WAV file, and a data chunk. -/
def stale (last : UInt8) : Memory := fun a =>
  if a = 43 then last else ((magic ++ [(36, 0x64), (37, 0x61), (38, 0x74), (39, 0x61)]).lookup a).getD 0

theorem stale_magic (last : UInt8) : ∀ p ∈ magic, stale last p.1 = p.2 := by
  intro p hp
  have hother : ∀ p ∈ magic, p.1 ≠ 43 := by decide
  rw [stale, if_neg (hother p hp)]
  revert p
  decide

theorem openData_opened {fuel : Nat} {fmt : Opening} {status : Int} {position : Nat} {head : Memory}
    (h : openData file fuel fmt = .opened status position head) :
    ∃ stored s, stored = (if 16 < fmt.fmtSize then min (fmt.fmtSize - 16) (file.length - fmt.position) else 0) ∧
      stored ≤ 32 ∧ scan2Data file 0 fuel (readChunkHeader file
        { fmt with position := fmt.position + stored }) = some s ∧
      status = 0 ∧ position = s.position ∧ head = s.head := by
  simp only [openData] at h
  generalize hstored : (if 16 < fmt.fmtSize then min (fmt.fmtSize - 16) (file.length - fmt.position)
    else 0) = stored at h
  by_cases hover : 32 < stored
  · rw [if_pos hover] at h
    cases h
  · rw [if_neg hover] at h
    split at h
    · cases h
    · next s hscan =>
      cases h
      exact ⟨stored, s, rfl, Nat.not_lt.1 hover, hscan, rfl, rfl, rfl⟩

/-- The reads of a file that settles, for one kind of stale memory. -/
theorem Settles.opened (h : Settles file) (hfile : ¬Refused file) (last : UInt8) :
    ∃ fuel fmt stored s d, Aligned file (stale last) 36 fmt ∧ Reaches file (20 + fmtSizeOf file) d ∧ stored ≤ 32 ∧
      stored = (if 16 < fmtSizeOf file then min (fmtSizeOf file - 16) (file.length - fmt.position) else 0) ∧
      scan2Data file 0 fuel (readChunkHeader file { fmt with position := fmt.position + stored }) = some s ∧
      s.position = d + 8 ∧ lengthOf s.header = lengthAt file d := by
  obtain ⟨riff, fmt, hriff, hfmt, heq⟩ := openForReading_eq (stale last) file
  obtain ⟨fuel, status, position, head, hopened, hright⟩ := h (stale last)
  rw [heq, recognised_of_magic hriff hfile (stale_magic last), if_pos rfl] at hopened
  obtain ⟨stored, s, hstored, hle, hscan, rfl, rfl, rfl⟩ := openData_opened hopened
  obtain ⟨d, hreach, hpos, hlength⟩ := hright rfl
  have hroom := hreach.room
  rw [hfmt.fmtSize (by omega)] at hstored
  exact ⟨fuel, fmt, stored, s, d, hfmt, hreach, hle, hstored, hscan, hpos, hlength⟩

theorem Settles.room (h : Settles file) (hfile : ¬Refused file) : 36 + (fmtSizeOf file - 16) + 8 ≤ file.length := by
  by_contra hshort
  rw [Nat.not_le] at hshort
  -- the last byte of the length is not read, and so it is not the one of the file
  have hlast : ∀ last, lengthOf (fun i => if i = 7 then last else
      laid file (min (36 + (fmtSizeOf file - 16)) file.length) (fun i => stale 0 (36 + i)) i) =
        lengthAt file (file.length - 8) := by
    intro last
    obtain ⟨fuel, fmt, stored, s, d, hfmt, hreach, hle, hstored, hscan, hpos, hlength⟩ := h.opened hfile last
    have hfmtPos := hfmt.position
    have hplace : fmt.position + stored = min (36 + (fmtSizeOf file - 16)) file.length := by
      clear hlength
      split at hstored <;> omega
    rw [hplace] at hscan
    obtain ⟨hend, hheader⟩ := @readChunkHeader_at file fmt (min (36 + (fmtSizeOf file - 16)) file.length)
      (Nat.min_le_right _ _)
    generalize readChunkHeader file { fmt with
      position := min (36 + (fmtSizeOf file - 16)) file.length } = read at hscan hend hheader
    have hstop (a n : Nat) (h : n < a + 8) : min (min a n + 8) n = n := by omega
    obtain ⟨rfl, -⟩ := scan2Data_end (hend.trans (hstop _ _ hshort)) hscan
    have hd : d = file.length - 8 := by
      clear hlength
      omega
    rw [← hd, ← hlength]
    clear hlength
    refine lengthOf_congr fun i hi => ?_
    have hunread : fmt.head (36 + i) = stale last (36 + i) := by rw [hfmt.head, if_neg (by omega)]
    rw [hheader i hi]
    by_cases hseven : i = 7
    · subst hseven
      rw [if_pos rfl, laid, if_neg (by omega), Opening.header, hunread]
      rfl
    · rw [if_neg hseven, laid, laid]
      simp only [Opening.header, hunread, stale, show ¬36 + i = 43 by omega, if_false]
  generalize laid file (min (36 + (fmtSizeOf file - 16)) file.length) (fun i => stale 0 (36 + i)) = tail at hlast
  have hsame := (hlast 0).trans (hlast 1).symm
  simp only [lengthOf, show ¬4 = 7 by decide, show ¬5 = 7 by decide, show ¬6 = 7 by decide, if_false, if_true] at hsame
  have hword := congrArg Int32.toUInt32 (Int32.toInt_inj.1 hsame)
  rw [UInt32.toUInt32_toInt32, UInt32.toUInt32_toInt32] at hword
  have hnat := congrArg UInt32.toNat hword
  simp only [readLE32, read16, UInt32.toNat_ofNat'] at hnat
  have hzero : (0 : UInt8).toNat = 0 := rfl
  have hone : (1 : UInt8).toNat = 1 := rfl
  rw [hzero, hone] at hnat
  have := (tail 4).toNat_lt
  have := (tail 5).toNat_lt
  have := (tail 6).toNat_lt
  omega

/-- A file that settles has a short enough format chunk, and both walks lead to its data. -/
theorem Settles.walks (h : Settles file) (hfile : ¬Refused file) :
    fmtSizeOf file ≤ 48 ∧ ∃ d, Reaches file (20 + fmtSizeOf file) d ∧ Walks file (36 + (fmtSizeOf file - 16)) d := by
  have hroom := h.room hfile
  obtain ⟨fuel, fmt, stored, s, d, hfmt, hreach, hle, hstored, hscan, hpos, hlength⟩ := h.opened hfile 0
  have hfmtPos := hfmt.position
  have hplace : stored = fmtSizeOf file - 16 := by
    clear hlength
    split at hstored <;> omega
  have hread := headerRead (s := { fmt with position := fmt.position + stored }) (p := 36 + (fmtSizeOf file - 16))
    (by simp only; omega) hroom
  exact ⟨by omega, d, hreach, walks_of_scan hread hscan hpos hlength⟩

/-- The files that the constructor opens as it should. -/
theorem waveFile_settles_iff (file : List UInt8) :
    Settles file ↔ Refused file ∨
      (fmtSizeOf file ≤ 48 ∧ ∃ d, Reaches file (20 + fmtSizeOf file) d ∧ (fmtSizeOf file < 16 → Walks file 36 d)) := by
  constructor
  · intro h
    by_cases hfile : Refused file
    · exact .inl hfile
    · obtain ⟨hsize, d, hreach, hwalk⟩ := h.walks hfile
      refine .inr ⟨hsize, d, hreach, fun hlt => ?_⟩
      rwa [show fmtSizeOf file - 16 = 0 by omega] at hwalk
  · rintro (hfile | ⟨hsize, d, hreach, hwalk⟩)
    · exact settles_of_refused hfile
    · refine settles_of_walks hsize hreach ?_
      rcases Nat.lt_or_ge (fmtSizeOf file) 16 with hlt | hge
      · rw [show fmtSizeOf file - 16 = 0 by omega]
        exact hwalk hlt
      · rw [show 36 + (fmtSizeOf file - 16) = 20 + fmtSizeOf file by omega]
        exact hreach.walks

/-- A file with an empty `LIST` chunk and no data. -/
def withoutData : List UInt8 :=
  [0x52, 0x49, 0x46, 0x46, 36, 0, 0, 0, 0x57, 0x41, 0x56, 0x45, 0x66, 0x6d, 0x74, 0x20, 16, 0, 0, 0, 1, 0, 1, 0,
    0x40, 0x1f, 0, 0, 0x80, 0x3e, 0, 0, 2, 0, 16, 0, 0x4c, 0x49, 0x53, 0x54, 0, 0, 0, 0]

theorem withoutData_unsettled : ¬Settles withoutData := by
  intro h
  have hfile : ¬Refused withoutData := by
    rintro ⟨p, hp, hlt, hne⟩
    have hmagic : ∀ p ∈ magic, byteAt withoutData p.1 = p.2 := by decide
    exact hne (hmagic p hp)
  obtain ⟨-, d, hreach, -⟩ := h.walks hfile
  cases hreach with
  | found _ hdata =>
    revert hdata
    decide
  | follow _ _ _ hnext =>
    have hroom := hnext.room.1
    have hend := hnext.room.2
    have hlength : (lengthAt withoutData (20 + fmtSizeOf withoutData)).toNat = 0 := by decide
    have hsize : fmtSizeOf withoutData = 16 := by decide
    have hfile : withoutData.length = 44 := rfl
    omega

end WebRtc.Wav
