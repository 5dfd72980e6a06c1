import Mathlib.Data.List.TakeWhile
import WebRtc.Lib.Machine
import WebRtc.Rtp.Extensions

/-!
# Registering header extensions

| here | there |
| --- | --- |
| `register`, `setActive`, `deregister` | `Register` (rtp_header_extension.cc:45), `SetActive` (:69), `Deregister` (:80) |
| `getTotalLengthInBytes` | `GetTotalLengthInBytes` (:131) |
| `walk`                  | `t = First(); t = Next(t)`, the loop of `BuildRTPHeaderExtension` (rtp_sender.cc:1242) |

`Next` finds its place again by the type. `Register` refuses an id that has another type, but not a type
that has another id.
-/

namespace WebRtc.Rtp

open Bytes

namespace RtpHeaderExtensionMap

variable (m : RtpHeaderExtensionMap)

/-! ## The operations -/

/-- No extension is registered. -/
def empty : RtpHeaderExtensionMap := ⟨[], List.Pairwise.nil, by simp⟩

/-- A new entry, in its place. -/
def insert (e : HeaderExtension) (h : 1 ≤ e.id ∧ e.id ≤ 14) : RtpHeaderExtensionMap where
  entries := m.entries.filter (fun a => a.id < e.id) ++ e :: m.entries.filter fun a => e.id < a.id
  sorted := by
    rw [List.pairwise_append, List.pairwise_cons]
    refine ⟨m.sorted.filter _, ⟨fun a ha => by simpa using (List.mem_filter.1 ha).2,
      m.sorted.filter _⟩, fun a ha b hb => ?_⟩
    have ha : a.id < e.id := by simpa using (List.mem_filter.1 ha).2
    rcases List.mem_cons.1 hb with rfl | hb
    · exact ha
    · have hb : e.id < b.id := by simpa using (List.mem_filter.1 hb).2
      exact UInt8.lt_trans ha hb
  range := by
    intro a ha
    rcases List.mem_append.1 ha with ha | ha
    · exact m.range a (List.mem_of_mem_filter ha)
    · rcases List.mem_cons.1 ha with rfl | ha
      · exact h
      · exact m.range a (List.mem_of_mem_filter ha)

/-- `active` of the entry with this id. -/
def assign (id : UInt8) (active : Bool) : RtpHeaderExtensionMap where
  entries := m.entries.map fun a => if a.id = id then { a with active := active } else a
  sorted := by
    rw [List.pairwise_map]
    refine m.sorted.imp fun {a b} hlt => ?_
    split <;> split <;> exact hlt
  range := by
    intro a ha
    obtain ⟨b, hb, rfl⟩ := List.mem_map.1 ha
    split <;> exact m.range b hb

def erase (id : UInt8) : RtpHeaderExtensionMap where
  entries := m.entries.filter fun a => a.id ≠ id
  sorted := m.sorted.filter _
  range := fun a ha => m.range a (List.mem_of_mem_filter ha)

/-- The new map, if the call returns 0. -/
def register (type : RTPExtensionType) (id : UInt8) (active : Bool) : Option RtpHeaderExtensionMap :=
  if h : id < 1 ∨ id > 14 then none
  else
    match m.getType id with
    | some registered =>
      -- Registered with the same id but a different type, or with this id already.
      if registered ≠ type then none else some (m.assign id active)
    | none => some (m.insert ⟨id, type, active⟩ ⟨UInt8.not_lt.1 fun hlt => h (Or.inl hlt),
        UInt8.not_lt.1 fun hlt => h (Or.inr hlt)⟩)

/-- The first entry of the type is the one that is changed. -/
def setActive (type : RTPExtensionType) (active : Bool) : Option RtpHeaderExtensionMap :=
  (m.getId type).map fun id => m.assign id active

def deregister (type : RTPExtensionType) : RtpHeaderExtensionMap :=
  match m.getId type with
  | none => m
  | some id => m.erase id

def getTotalLengthInBytes : Nat :=
  let length := (m.activeEntries.map fun e => e.type.length).sum
  RTPSender.word32Align (if length > 0 then length + 4 else length)

/-- The type after `k` steps. -/
def walk : Nat → RTPExtensionType
  | 0 => m.first
  | k + 1 => m.next (walk k)

/-- What the loop does with a map: it takes every extension in use once, in order, and what is laid out has
the length that was asked for. -/
structure WalkOnce (m : RtpHeaderExtensionMap) : Prop where
  ends : m.walk m.size = .none
  visits : ∀ (k : Nat) (h : k < m.activeEntries.length), m.walk k = m.activeEntries[k].type
  goesOn : ∀ k < m.size, m.walk k ≠ .none
  laidOut : ∀ s : RTPSender, s.rtpHeaderExtensionMap = m →
    ∃ bytes, s.buildRTPHeaderExtension = some bytes ∧ bytes.length = m.getTotalLengthInBytes

end RtpHeaderExtensionMap

/-- The calls that change a map. -/
inductive ExtensionCall where
  | register (type : RTPExtensionType) (id : UInt8)
  | registerInactive (type : RTPExtensionType) (id : UInt8)
  | setActive (type : RTPExtensionType) (active : Bool)
  | deregister (type : RTPExtensionType)
deriving DecidableEq, Repr

namespace ExtensionCall

/-- The new map, if the call is successful. -/
def apply (m : RtpHeaderExtensionMap) : ExtensionCall → Option RtpHeaderExtensionMap
  | .register type id => m.register type id true
  | .registerInactive type id => m.register type id false
  | .setActive type active => m.setActive type active
  | .deregister type => some (m.deregister type)

/-- A call, and whether it is successful; if not, nothing changes. -/
def step (m : RtpHeaderExtensionMap) (call : ExtensionCall) : RtpHeaderExtensionMap × Bool :=
  match call.apply m with
  | some m' => (m', true)
  | none => (m, false)

/-- A type that is registered has no other id, and `kRtpExtensionNone`, for which there is an assertion, is not
registered at all. -/
def OneId (m : RtpHeaderExtensionMap) : ExtensionCall → Prop
  | .register type id | .registerInactive type id => type ≠ .none ∧ ∀ e ∈ m.entries, e.type = type → e.id = id
  | _ => True

instance decidableOneId (m : RtpHeaderExtensionMap) : (call : ExtensionCall) → Decidable (OneId m call)
  | .register type id | .registerInactive type id =>
    inferInstanceAs (Decidable (type ≠ .none ∧ ∀ e ∈ m.entries, e.type = type → e.id = id))
  | .setActive _ _ | .deregister _ => inferInstanceAs (Decidable True)

end ExtensionCall

/-! ## One id for a type -/

namespace RtpHeaderExtensionMap

variable {m : RtpHeaderExtensionMap}

theorem getType_none {id : UInt8} (h : m.getType id = none) : ∀ e ∈ m.entries, e.id ≠ id := by
  rw [getType, Option.map_eq_none_iff, List.find?_eq_none] at h
  exact fun e he => by simpa using h e he

/-- Two entries with one type are the same. -/
theorem Proper.type_inj (hm : m.Proper) {a b : HeaderExtension} (ha : a ∈ m.entries) (hb : b ∈ m.entries)
    (h : a.type = b.type) : a = b := by
  have hfind := find?_of_pairwise hm.distinct ha
  rw [h, find?_of_pairwise hm.distinct hb] at hfind
  exact (Option.some.inj hfind).symm

theorem Proper.empty : Proper empty := ⟨List.Pairwise.nil, by simp [RtpHeaderExtensionMap.empty]⟩

theorem Proper.assign (hm : m.Proper) (id : UInt8) (active : Bool) : (m.assign id active).Proper := by
  constructor
  · show List.Pairwise _ (List.map _ _)
    rw [List.pairwise_map]
    refine hm.distinct.imp fun {a b} hne => ?_
    split <;> split <;> exact hne
  · intro e he
    obtain ⟨b, hb, rfl⟩ := List.mem_map.1 he
    split <;> exact hm.known b hb

theorem Proper.erase (hm : m.Proper) (id : UInt8) : (m.erase id).Proper :=
  ⟨hm.distinct.filter _, fun e he => hm.known e (List.mem_of_mem_filter he)⟩

theorem Proper.insert (hm : m.Proper) {e : HeaderExtension} (h : 1 ≤ e.id ∧ e.id ≤ 14) (hknown : e.type ≠ .none)
    (hnew : ∀ a ∈ m.entries, a.type ≠ e.type) : (m.insert e h).Proper := by
  constructor
  · show List.Pairwise _ (List.filter _ _ ++ e :: List.filter _ _)
    rw [List.pairwise_append, List.pairwise_cons]
    refine ⟨hm.distinct.filter _,
      ⟨fun b hb => (hnew b (List.mem_of_mem_filter hb)).symm, hm.distinct.filter _⟩, fun a ha b hb => ?_⟩
    rcases List.mem_cons.1 hb with rfl | hb
    · exact hnew a (List.mem_of_mem_filter ha)
    · obtain ⟨ha, halt⟩ := List.mem_filter.1 ha
      obtain ⟨hb, hblt⟩ := List.mem_filter.1 hb
      intro htype
      -- They stand on the two sides of the new one.
      have heq := hm.type_inj ha hb htype
      rw [decide_eq_true_eq] at halt hblt
      rw [heq] at halt
      exact UInt8.lt_irrefl _ (UInt8.lt_trans halt hblt)
  · intro a ha
    rcases List.mem_append.1 ha with ha | ha
    · exact hm.known a (List.mem_of_mem_filter ha)
    · rcases List.mem_cons.1 ha with rfl | ha
      · exact hknown
      · exact hm.known a (List.mem_of_mem_filter ha)

theorem Proper.register (hm : m.Proper) {type : RTPExtensionType} {id : UInt8} {active : Bool}
    (hone : type ≠ .none ∧ ∀ e ∈ m.entries, e.type = type → e.id = id) {m' : RtpHeaderExtensionMap}
    (h : m.register type id active = some m') : m'.Proper := by
  unfold RtpHeaderExtensionMap.register at h
  split at h
  · cases h
  · cases ht : m.getType id with
    | some registered =>
      rw [ht] at h
      dsimp only at h
      split at h
      · cases h
      · rw [← Option.some.inj h]
        exact hm.assign id active
    | none =>
      simp only [ht] at h
      rw [← Option.some.inj h]
      exact hm.insert _ hone.1 fun a ha htype => getType_none ht a ha (hone.2 a ha htype)

end RtpHeaderExtensionMap

namespace ExtensionCall

/-- A step that gives no type a second id keeps every type registered once. -/
theorem step_proper {m : RtpHeaderExtensionMap} (hm : m.Proper) {call : ExtensionCall}
    (h : (call.step m).2 = true → OneId m call) : (call.step m).1.Proper := by
  unfold step at h ⊢
  cases happly : call.apply m with
  | none => exact hm
  | some m' =>
    rw [happly] at h
    show m'.Proper
    have hone := h rfl
    cases call with
    | register type id => exact hm.register hone happly
    | registerInactive type id => exact hm.register hone happly
    | setActive type active =>
      obtain ⟨id, -, rfl⟩ := Option.map_eq_some_iff.1 happly
      exact hm.assign id active
    | deregister type =>
      rw [← Option.some.inj happly, RtpHeaderExtensionMap.deregister]
      split
      · exact hm
      · exact hm.erase _

end ExtensionCall

/-! ## The walk -/

namespace RtpHeaderExtensionMap

variable {m : RtpHeaderExtensionMap}

/-- The type of the first of these extensions. -/
def headType (l : List HeaderExtension) : RTPExtensionType := (l.head?.map HeaderExtension.type).getD .none

theorem firstOf_eq (l : List HeaderExtension) : firstOf l = headType (l.filter HeaderExtension.active) := by
  rw [firstOf, headType, List.head?_filter]

theorem next_none (hm : m.Proper) : m.next .none = .none := by
  have hdrop : m.entries.dropWhile (fun e => decide (e.type ≠ .none)) = [] :=
    List.dropWhile_eq_nil_iff.2 fun e he => by simpa using hm.known e he
  rw [next, hdrop]

/-- After `k` steps the walk is at the extension in use number `k`, or at the end. -/
theorem walk_eq (hm : m.Proper) (k : Nat) : m.walk k = headType (m.activeEntries.drop k) := by
  induction k with
  | zero => exact firstOf_eq m.entries
  | succ k ih =>
    rw [walk, ih]
    cases hdrop : m.activeEntries.drop k with
    | nil =>
      have hmore : m.activeEntries.drop (k + 1) = [] := by rw [← List.drop_drop, hdrop, List.drop_nil]
      rw [hmore]
      exact next_none hm
    | cons e rest =>
      have hmore : m.activeEntries.drop (k + 1) = rest := by rw [← List.drop_drop, hdrop, List.drop_one, List.tail_cons]
      have hsplit : m.entries.filter HeaderExtension.active = m.activeEntries.take k ++ e :: rest := by
        rw [← hdrop]
        exact (List.take_append_drop k m.activeEntries).symm
      obtain ⟨pre, post, hpre, -, hpost⟩ := List.filter_eq_append_iff.1 hsplit
      obtain ⟨mid, post', rfl, -, hactive, hrest⟩ := List.filter_eq_cons_iff.1 hpost
      rw [← List.append_assoc] at hpre
      rw [hmore, ← hrest, ← firstOf_eq]
      exact next_eq hpre hm hactive

theorem Proper.walkOnce (hm : m.Proper) : m.WalkOnce := by
  have hvisits : ∀ (k : Nat) (h : k < m.activeEntries.length), m.walk k = m.activeEntries[k].type := by
    intro k h
    rw [walk_eq hm, headType, List.head?_drop, List.getElem?_eq_getElem h]
    rfl
  refine ⟨?_, hvisits, fun k hk => ?_, ?_⟩
  · rw [walk_eq hm, size, List.drop_length]
    rfl
  · rw [hvisits k hk]
    exact hm.known _ (mem_active (List.getElem_mem hk))
  · rintro s rfl
    refine ⟨_, buildRTPHeaderExtension_eq hm, ?_⟩
    rw [getTotalLengthInBytes, ← elements_length hm s.values_sized, blockOf]
    by_cases hnone : s.rtpHeaderExtensionMap.activeEntries = []
    · have hempty : elements s.rtpHeaderExtensionMap s.values = [] := by rw [elements, hnone, List.flatMap_nil]
      rw [if_pos hnone, hempty]
      rfl
    · have hpos : (elements s.rtpHeaderExtensionMap s.values).length > 0 := by
        obtain ⟨e, rest, he⟩ := List.exists_cons_of_ne_nil hnone
        rw [elements, he, List.flatMap_cons, element, List.cons_append, List.length_cons]
        exact Nat.succ_pos _
      rw [if_neg hnone, if_pos hpos]
      show (ExtensionBlock.bytes _).length = _
      have hword : ∀ n, RTPSender.word32Align (n + 4) = 4 + RTPSender.word32Align n := by
        intro n
        unfold RTPSender.word32Align
        split <;> split <;> omega
      simp only [ExtensionBlock.bytes, List.length_append, be16_length, blockData_length, hword]

end RtpHeaderExtensionMap

/-- **The walk takes every extension in use once**, in every map that calls lead to none of which gives a type a
second id. -/
theorem walkOnce_of_run {calls : List ExtensionCall}
    (h : Machine.Meets ExtensionCall.step (fun m call => (call.step m).2 = true → call.OneId m) .empty calls) :
    Machine.Always ExtensionCall.step RtpHeaderExtensionMap.WalkOnce .empty calls := by
  have hproper : Machine.Always ExtensionCall.step RtpHeaderExtensionMap.Proper .empty calls :=
    Machine.always_of_meets (P := RtpHeaderExtensionMap.Proper)
      (fun m call hm hone => ExtensionCall.step_proper hm hone) RtpHeaderExtensionMap.Proper.empty h
  exact hproper.mono fun m hm => hm.walkOnce

/-- An extension of each kind comes and goes. -/
theorem walkOnce_of_run_some : Machine.Always ExtensionCall.step RtpHeaderExtensionMap.WalkOnce .empty
    [.register .audioLevel 3, .registerInactive .videoRotation 1, .setActive .videoRotation true,
      .deregister .audioLevel, .register .audioLevel 14] :=
  walkOnce_of_run (by simp only [Machine.Meets]; decide)

/-- A type with two ids: the walk never comes to the end. -/
theorem walkOnce_not : ¬ ∀ calls : List ExtensionCall,
    (∀ ok ∈ Machine.trace ExtensionCall.step .empty calls, ok = true) →
    RtpHeaderExtensionMap.WalkOnce (Machine.run ExtensionCall.step .empty calls) := by
  intro h
  have hends := (h [.register .audioLevel 1, .register .audioLevel 5] (by decide)).ends
  exact absurd hends (by decide)

end WebRtc.Rtp
