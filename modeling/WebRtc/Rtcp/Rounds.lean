import WebRtc.Rtcp.Parser

/-!
# What one round of the parser can do

Inside a block a round either ends the block or goes forward in it by whole words (`ItemRound`). At
the top level it reads a header; what it does then is one of five things (`TopRound`), and two of them
are not what the framing asks for: a feedback block without room for its SSRCs is not passed at all,
and one whose format has no items is passed up to its SSRCs only.
-/

namespace WebRtc.Rtcp

open Bytes
open WebRtc.Rtcp.Parser

variable {buf : List UInt8} {F : Type} {s : Parser F}

/-- The parser stands between words, and in a block of the buffer unless it is at the top level. -/
structure Parser.Inv (buf : List UInt8) (s : Parser F) : Prop where
  ptr : s.ptr ≤ buf.length
  ptrWord : s.ptr % 4 = 0
  endWord : s.blockEnd % 4 = 0
  inBlock : s.state ≠ .topLevel → s.ptr ≤ s.blockEnd
  inBuffer : s.state ≠ .topLevel → s.blockEnd ≤ buf.length

/-! ## Items -/

/-- Where a parser may go without reading anything. -/
def rank : ParseState → Nat
  | .topLevel => 0
  | .xrDlrrItem => 2
  | _ => 1

/-- A round inside a block. `ok` is false if the pointer has left the block on the way. -/
structure ItemRound (ok : Bool) (s : Parser F) (r : Parser F × Bool) : Prop where
  blockEnd : r.1.blockEnd = s.blockEnd
  valid : r.1.validPacket = s.validPacket
  forward : s.ptr ≤ r.1.ptr
  inBlock : r.1.ptr ≤ s.blockEnd
  word : r.1.ptr % 4 = 0
  closed : r.1.state = .topLevel → r.1.ptr = s.blockEnd
  progress : s.ptr + 4 ≤ r.1.ptr ∨ rank r.1.state < rank s.state
  reported : r.2 = true → r.1.packet.isSome = true
  steady : r.1.steady = (s.steady && ok)

theorem moveTo_steady {p : Nat} (h : s.ptr ≤ p) (hp : p ≤ buf.length) : (s.moveTo buf p).steady = s.steady := by
  simp [moveTo, h, hp]

/-- What an item parser passes on: the block, and how far it has come. -/
structure Inside (ok : Bool) (s t : Parser F) : Prop where
  blockEnd : t.blockEnd = s.blockEnd
  valid : t.validPacket = s.validPacket
  forward : s.ptr ≤ t.ptr
  inBlock : t.ptr ≤ s.blockEnd
  steady : t.steady = (s.steady && ok)

section Items
variable (h : s.Inv buf) (hs : s.state ≠ .topLevel)
include h hs

theorem inside_self : Inside true s s := ⟨rfl, rfl, Nat.le_refl _, h.inBlock hs, (Bool.and_true _).symm⟩

theorem move_steady {k : Nat} (hk : k ≤ s.length) : (s.moveTo buf (s.ptr + k)).steady = s.steady := by
  have h1 := h.inBlock hs
  have h2 := h.inBuffer hs
  unfold Parser.length at hk
  exact moveTo_steady (Nat.le_add_right _ _) (by omega)

theorem inside_move {k : Nat} (hk : k ≤ s.length) : Inside true s (s.moveTo buf (s.ptr + k)) := by
  have h1 := h.inBlock hs
  refine ⟨rfl, rfl, Nat.le_add_right _ _, ?_, ?_⟩
  · unfold Parser.length at hk
    simp only [moveTo]
    omega
  · rw [move_steady h hs hk, Bool.and_true]

theorem itemRound_end {ok : Bool} {t : Parser F} (ht : Inside ok s t) : ItemRound ok s (t.endItem buf, false) where
  blockEnd := ht.blockEnd
  valid := ht.valid
  forward := by
    have := h.inBlock hs
    simp only [endItem, endCurrentBlock, moveTo, ht.blockEnd]
    exact this
  inBlock := Nat.le_of_eq ht.blockEnd
  word := by
    simp only [endItem, endCurrentBlock, moveTo, ht.blockEnd]
    exact h.endWord
  closed _ := ht.blockEnd
  progress := Or.inr (by cases hst : s.state <;> simp_all [rank, endItem])
  reported h := nomatch h
  steady := by
    have hle : t.ptr ≤ t.blockEnd := ht.blockEnd ▸ ht.inBlock
    have hbuf : t.blockEnd ≤ buf.length := ht.blockEnd ▸ h.inBuffer hs
    rw [← ht.steady]
    exact moveTo_steady hle hbuf

/-- A round that goes some words on and stays inside. -/
theorem itemRound_stay {k : Nat} (hk : k % 4 = 0) (h4 : 4 ≤ k) (hlen : k ≤ s.length) {t : Parser F} {b : Bool}
    (hptr : t.ptr = s.ptr + k) (hend : t.blockEnd = s.blockEnd) (hvalid : t.validPacket = s.validPacket)
    (hsteady : t.steady = (s.moveTo buf (s.ptr + k)).steady) (hstate : t.state ≠ .topLevel)
    (hrep : b = true → t.packet.isSome = true) : ItemRound true s (t, b) := by
  have hin := inside_move h hs hlen
  have hin' : s.ptr + k ≤ s.blockEnd := hin.inBlock
  have hword := h.ptrWord
  constructor <;> dsimp only
  · exact hend
  · exact hvalid
  · omega
  · omega
  · omega
  · exact fun hc => absurd hc hstate
  · exact Or.inl (by omega)
  · exact hrep
  · rw [hsteady, hin.steady]

/-- Going on twice is going on once. -/
theorem moveTo_moveTo_steady {j k : Nat} (hk : j + k ≤ s.length) :
    ((s.moveTo buf (s.ptr + j)).moveTo buf (s.ptr + j + k)).steady = (s.moveTo buf (s.ptr + (j + k))).steady := by
  have hle : s.ptr + (j + k) ≤ s.blockEnd := (inside_move h hs hk).inBlock
  have hbuf := h.inBuffer hs
  rw [move_steady h hs hk, ← move_steady h hs (k := j) (by omega)]
  exact moveTo_steady (Nat.le_add_right _ _) (by omega)

theorem parseItem_round {need : Nat} (hn : need % 4 = 0) (h4 : 4 ≤ need) (item : Packet F) :
    ItemRound true s (s.parseItem buf need item) := by
  unfold parseItem
  split
  · exact itemRound_end h hs (inside_self h hs)
  · exact itemRound_stay h hs hn h4 (by omega) rfl rfl rfl rfl hs fun _ => rfl

theorem parseCountedItem_round {need : Nat} (hn : need % 4 = 0) (h4 : 4 ≤ need) (item : Packet F) :
    ItemRound true s (s.parseCountedItem buf need item) := by
  unfold parseCountedItem
  split
  · exact itemRound_end h hs (inside_self h hs)
  · exact itemRound_stay h hs hn h4 (by omega) rfl rfl rfl rfl hs fun _ => rfl

theorem parseBYEItem_round : ItemRound true s (s.parseBYEItem buf) := by
  unfold parseBYEItem
  split
  · exact itemRound_end h hs (inside_self h hs)
  · rename_i hn
    dsimp only
    split
    · refine itemRound_stay h hs (k := 4 + (s.numberOfBlocks - 1) * 4) (by omega) (by omega) (by omega)
        (by simp only [moveTo, report]; omega) rfl rfl ?_ hs fun _ => rfl
      exact moveTo_moveTo_steady h hs (by omega)
    · exact itemRound_stay h hs (k := 4) rfl (Nat.le_refl _) (by omega) rfl rfl rfl rfl hs fun _ => rfl

theorem length_word : s.length % 4 = 0 := by
  have h1 := h.inBlock hs
  have h2 := h.ptrWord
  have h3 := h.endWord
  unfold Parser.length
  omega

theorem parseRPSIItem_round : ItemRound true s (s.parseRPSIItem buf) := by
  unfold parseRPSIItem
  split
  · exact itemRound_end h hs (inside_self h hs)
  · exact itemRound_stay h hs (length_word h hs) (by omega) (Nat.le_refl _) rfl rfl rfl rfl hs fun _ => rfl

theorem parsePsfbAppItem_round : ItemRound true s (s.parsePsfbAppItem buf) := by
  unfold parsePsfbAppItem
  split
  · exact itemRound_end h hs (inside_self h hs)
  split
  · exact itemRound_end h hs (inside_move h hs (by omega))
  split
  · exact itemRound_end h hs (inside_move h hs (by omega))
  split
  · exact itemRound_end h hs (inside_move h hs (by omega))
  split
  · exact itemRound_end h hs (inside_move h hs (by omega))
  · exact itemRound_stay h hs (k := 4) rfl (Nat.le_refl _) (by omega) rfl rfl rfl rfl (by simp) fun _ => rfl

theorem parseAPPItem_round : ItemRound true s (s.parseAPPItem buf) := by
  have hw := length_word h hs
  unfold parseAPPItem
  split
  · exact itemRound_end h hs (inside_self h hs)
  · refine itemRound_stay h hs (k := if s.length > 128 then 128 else s.length) ?_ ?_ ?_ rfl rfl rfl rfl hs fun _ => rfl
    all_goals split <;> omega

theorem parsePsfbREMBItem_round : ItemRound true s (s.parsePsfbREMBItem buf) := by
  unfold parsePsfbREMBItem
  split
  · exact itemRound_end h hs (inside_self h hs)
  · have hlen : (s.moveTo buf (s.ptr + 4)).length = s.length - 4 := Nat.sub_add_eq _ _ _
    dsimp only
    split
    · exact itemRound_end h hs (inside_move h hs (by omega))
    · have hroom : 4 + 4 * (byteAt buf s.ptr).toNat ≤ s.length := by omega
      refine itemRound_stay h hs (k := 4 + 4 * (byteAt buf s.ptr).toNat) (by omega) (by omega) hroom ?_ rfl rfl ?_ hs
        fun _ => rfl
      · simp only [report, moveTo]
        omega
      · exact moveTo_moveTo_steady h hs hroom

/-- A block inside an extended report, after its header. -/
theorem xrBlock_round {k : Nat} (hk : k % 4 = 0) (hlen : k ≤ s.length - 4) (h4 : 4 ≤ s.length) {b : Bool}
    {t : Parser F} (hptr : t.ptr = s.ptr + 4 + k) (hend : t.blockEnd = s.blockEnd)
    (hvalid : t.validPacket = s.validPacket)
    (hsteady : t.steady = ((s.moveTo buf (s.ptr + 4)).moveTo buf (s.ptr + 4 + k)).steady) (hstate : t.state ≠ .topLevel)
    (hrep : b = true → t.packet.isSome = true) : ItemRound true s (t, b) := by
  refine itemRound_stay h hs (k := 4 + k) (by omega) (by omega) (by omega) (by omega) hend hvalid ?_ hstate hrep
  rw [hsteady]
  exact moveTo_moveTo_steady h hs (by omega)

theorem parseXrItem_round : ItemRound true s (s.parseXrItem buf) := by
  unfold parseXrItem
  split
  · exact itemRound_end h hs (inside_self h hs)
  · rename_i h4
    have hlen : (s.moveTo buf (s.ptr + 4)).length = s.length - 4 := Nat.sub_add_eq _ _ _
    have hin : Inside true s (s.moveTo buf (s.ptr + 4)) := inside_move h hs (by omega)
    dsimp only
    generalize (read16At buf (s.ptr + 2)).toNat = blockLength
    split
    · unfold parseXrReceiverReferenceTimeItem
      split
      · exact itemRound_end h hs hin
      · exact xrBlock_round h hs (k := 8) rfl (by omega) (by omega) rfl rfl rfl rfl (by simp) fun _ => rfl
    split
    · unfold parseXrDlrr
      split
      · exact itemRound_end h hs hin
      · exact itemRound_stay h hs (k := 4) rfl (Nat.le_refl _) (by omega) rfl rfl rfl rfl (by simp) fun _ => rfl
    split
    · unfold parseXrVoipMetricItem
      split
      · exact itemRound_end h hs hin
      · exact xrBlock_round h hs (k := 32) rfl (by omega) (by omega) rfl rfl rfl rfl (by simp) fun _ => rfl
    · unfold parseXrUnsupportedBlockType
      split
      · exact itemRound_end h hs hin
      · exact xrBlock_round h hs (k := blockLength * 4) (by omega) (by omega) (by omega) rfl rfl rfl rfl (by simp)
          fun hf => nomatch hf

omit hs in
theorem parseXrDlrrItem_round (hst : s.state = .xrDlrrItem) : ItemRound true s (s.parseXrDlrrItem buf) := by
  have hs : s.state ≠ .topLevel := by simp [hst]
  unfold parseXrDlrrItem
  split
  · refine ⟨rfl, rfl, Nat.le_refl _, h.inBlock hs, h.ptrWord, (fun hc => nomatch hc), Or.inr ?_, (fun hf => nomatch hf),
      (Bool.and_true _).symm⟩
    show rank ParseState.xrItem < rank s.state
    rw [hst]
    decide
  split
  · exact itemRound_end h hs (inside_self h hs)
  · exact itemRound_stay h hs (k := 12) rfl (by omega) (by omega) rfl rfl rfl rfl (by simp) fun _ => rfl

end Items

/-! ## SDES chunks

A chunk is scanned on its bytes alone: it breaks off, an item that is not a CNAME runs past the end of
the block, or there is an end tag.
-/

inductive SdesScan where
  | broken
  | overrun
  | endTag (p : Nat) (cName : Option (List UInt8))

/-- Scan the items from `p` on. -/
def sdesScan (buf : List UInt8) (blockEnd : Nat) : Nat → Nat → Option (List UInt8) → SdesScan
  | 0, _, _ => .broken
  | fuel + 1, p, found =>
    if blockEnd ≤ p then .broken
    else if byteAt buf p = 0 then .endTag p found
    else if blockEnd ≤ p + 1 then .broken
    else
      let len := (byteAt buf (p + 1)).toNat
      if byteAt buf p = 1 then
        if blockEnd ≤ p + 2 + len then .broken
        else if (bytesAt buf (p + 2) len).any illegalChar then .broken
        else sdesScan buf blockEnd fuel (p + 2 + len) (some (bytesAt buf (p + 2) len))
      else if blockEnd < p + 2 + len then .overrun
      else sdesScan buf blockEnd fuel (p + 2 + len) found

/-- The next word boundary. -/
def wordUp (p : Nat) : Nat := (p + 3) / 4 * 4

/-- A chunk of the block, of those the parser looks at for one CNAME, has an item that runs past the end. -/
def sdesOverruns (buf : List UInt8) (blockEnd : Nat) : Nat → Nat → Bool
  | 0, _ => false
  | fuel + 1, p =>
    if blockEnd < p + 4 then false
    else
      match sdesScan buf blockEnd (blockEnd - (p + 4) + 1) (p + 4) none with
      | .broken => false
      | .overrun => true
      | .endTag q none => sdesOverruns buf blockEnd fuel (wordUp (q + 1))
      | .endTag _ (some _) => false

/-- `ParseSDESItem` does what the scan says. -/
structure SdesItemSpec (s : Parser F) (scan : SdesScan) (r : Parser F × Option (List UInt8)) : Prop where
  blockEnd : r.1.blockEnd = s.blockEnd
  valid : r.1.validPacket = s.validPacket
  count : r.1.numberOfBlocks = s.numberOfBlocks
  broken : scan = .broken → r.2 = none ∧ r.1.ptr = s.blockEnd ∧ r.1.state = .topLevel ∧ r.1.steady = s.steady
  overrun : scan = .overrun → r.2 = none ∧ r.1.ptr = s.blockEnd ∧ r.1.state = .topLevel ∧ r.1.steady = false
  endTag : ∀ q found, scan = .endTag q found → r.2 = found ∧ r.1.ptr = wordUp (q + 1) ∧ r.1.state = s.state ∧
    r.1.steady = s.steady ∧ s.ptr ≤ q ∧ q < s.blockEnd

theorem SdesItemSpec.of_moved {t : Parser F} {scan : SdesScan} {r : Parser F × Option (List UInt8)}
    (h : SdesItemSpec t scan r) (hend : t.blockEnd = s.blockEnd) (hvalid : t.validPacket = s.validPacket)
    (hcount : t.numberOfBlocks = s.numberOfBlocks) (hstate : t.state = s.state) (hsteady : t.steady = s.steady)
    (hptr : s.ptr ≤ t.ptr) : SdesItemSpec s scan r where
  blockEnd := h.blockEnd.trans hend
  valid := h.valid.trans hvalid
  count := h.count.trans hcount
  broken hb := by
    rw [← hend, ← hsteady]
    exact h.broken hb
  overrun ho := by
    rw [← hend]
    exact h.overrun ho
  endTag q found he := by
    obtain ⟨h1, h2, h3, h4, h5, h6⟩ := h.endTag q found he
    exact ⟨h1, h2, h3.trans hstate, h4.trans hsteady, by omega, by omega⟩

theorem sdesItemSpec_broken {t : Parser F} (hend : t.blockEnd = s.blockEnd) (hvalid : t.validPacket = s.validPacket)
    (hcount : t.numberOfBlocks = s.numberOfBlocks) (hsteady : t.steady = s.steady) (hle : t.ptr ≤ s.blockEnd)
    (hbuf : s.blockEnd ≤ buf.length) : SdesItemSpec s .broken (t.endItem buf, none) where
  blockEnd := hend
  valid := hvalid
  count := hcount
  broken _ := ⟨rfl, hend, rfl, by
    rw [← hsteady]
    exact moveTo_steady (by omega) (by omega)⟩
  overrun h := nomatch h
  endTag _ _ h := nomatch h

theorem sdesItemLoop_past (fuel octets : Nat) (found : Option (List UInt8)) (h : s.blockEnd ≤ s.ptr) :
    sdesItemLoop buf fuel s octets found = (s.endItem buf, none) := by
  cases fuel with
  | zero => rfl
  | succ fuel => rw [sdesItemLoop, if_pos h]

theorem sdesItemLoop_spec (fuel : Nat) {octets : Nat} (found : Option (List UInt8)) (hle : s.ptr ≤ s.blockEnd)
    (hbuf : s.blockEnd ≤ buf.length) (hword : s.blockEnd % 4 = 0) (hoct : octets % 4 = s.ptr % 4) :
    SdesItemSpec s (sdesScan buf s.blockEnd fuel s.ptr found) (sdesItemLoop buf fuel s octets found) := by
  induction fuel generalizing s octets found with
  | zero => exact sdesItemSpec_broken rfl rfl rfl rfl hle hbuf
  | succ fuel ih =>
    rw [sdesScan, sdesItemLoop]
    split
    · exact sdesItemSpec_broken rfl rfl rfl rfl hle hbuf
    rename_i hin
    have hone : (s.moveTo buf (s.ptr + 1)).steady = s.steady := moveTo_steady (by omega) (by omega)
    dsimp only
    split
    · -- The end tag.
      have hup : s.ptr + 1 + (4 - (octets + 1) % 4) % 4 = wordUp (s.ptr + 1) := by
        unfold wordUp
        omega
      have hto : wordUp (s.ptr + 1) ≤ s.blockEnd := by
        unfold wordUp
        omega
      refine ⟨rfl, rfl, rfl, (fun h => nomatch h), (fun h => nomatch h), ?_⟩
      rintro q fd hq
      cases hq
      refine ⟨rfl, hup, rfl, ?_, Nat.le_refl _, by omega⟩
      rw [← hone]
      refine moveTo_steady (Nat.le_add_right _ _) ?_
      have : (s.moveTo buf (s.ptr + 1)).ptr = s.ptr + 1 := rfl
      omega
    -- The tag and the length, and what the length spans.
    have hblk : (s.moveTo buf (s.ptr + 1)).blockEnd = s.blockEnd := rfl
    have hptr : (s.moveTo buf (s.ptr + 1)).ptr = s.ptr + 1 := rfl
    rw [hblk, hptr]
    split
    · rename_i hlast
      rw [sdesItemLoop_past fuel _ _ hlast]
      exact sdesItemSpec_broken rfl rfl rfl hone (by omega) hbuf
    rename_i hlast
    have htwo : ((s.moveTo buf (s.ptr + 1)).moveTo buf (s.ptr + 1 + 1)).steady = s.steady := by
      rw [← hone]
      exact moveTo_steady (Nat.le_succ _) (by omega)
    generalize ht : (s.moveTo buf (s.ptr + 1)).moveTo buf (s.ptr + 1 + 1) = t at htwo
    have htptr : t.ptr = s.ptr + 2 := by rw [← ht]; rfl
    have htend : t.blockEnd = s.blockEnd := by rw [← ht]; rfl
    have htvalid : t.validPacket = s.validPacket := by rw [← ht]; rfl
    have htcount : t.numberOfBlocks = s.numberOfBlocks := by rw [← ht]; rfl
    have htstate : t.state = s.state := by rw [← ht]; rfl
    rw [htptr, htend]
    generalize hlen : (byteAt buf (s.ptr + 1)).toNat = len
    have hnext : ∀ found, s.ptr + 2 + len ≤ s.blockEnd →
        SdesItemSpec s (sdesScan buf s.blockEnd fuel (s.ptr + 2 + len) found)
          (sdesItemLoop buf fuel (t.moveTo buf (s.ptr + 2 + len)) (octets + 2 + len) found) := by
      intro fd hfit
      have hst : (t.moveTo buf (s.ptr + 2 + len)).steady = s.steady := by
        rw [← htwo]
        exact moveTo_steady (by omega) (by omega)
      have hspec := @ih (t.moveTo buf (s.ptr + 2 + len)) (octets + 2 + len) fd
        (by simp only [moveTo, htend]; exact hfit) (by simp only [moveTo, htend]; exact hbuf)
        (by simp only [moveTo, htend]; exact hword) (by simp only [moveTo]; omega)
      have hblk' : (t.moveTo buf (s.ptr + 2 + len)).blockEnd = s.blockEnd := htend
      rw [hblk'] at hspec
      exact hspec.of_moved htend htvalid htcount htstate hst (by simp only [moveTo]; omega)
    split
    · -- A CNAME.
      split
      · exact sdesItemSpec_broken htend htvalid htcount htwo (by omega) hbuf
      split
      · exact sdesItemSpec_broken htend htvalid htcount htwo (by omega) hbuf
      · exact hnext _ (by omega)
    · split
      · -- The pointer goes past the end of the block, and is set back to it.
        rename_i hover
        rw [sdesItemLoop_past fuel _ _ (by simp only [moveTo, htend]; omega)]
        refine ⟨htend, htvalid, htcount, (fun h => nomatch h), fun _ => ⟨rfl, htend, rfl, ?_⟩, (fun _ _ h => nomatch h)⟩
        simp only [endItem, endCurrentBlock, moveTo, htend]
        simp [Nat.not_le.2 hover]
      · exact hnext found (by omega)

theorem sdesChunkLoop_round (fuel : Nat) (hfuel : s.length < fuel * 4) (h : s.Inv buf) (hs : s.state ≠ .topLevel)
    (hr : rank s.state = 1) : ItemRound (!sdesOverruns buf s.blockEnd fuel s.ptr) s (sdesChunkLoop buf fuel s) := by
  induction fuel generalizing s with
  | zero => omega
  | succ fuel ih =>
    have hin := h.inBlock hs
    have hbuf := h.inBuffer hs
    have hlen : s.length = s.blockEnd - s.ptr := rfl
    rw [sdesChunkLoop, sdesOverruns]
    by_cases h4 : s.length < 4
    · rw [if_pos h4, if_pos (by omega)]
      exact itemRound_end h hs (inside_self h hs)
    rw [if_neg h4, if_neg (by omega)]
    have hmove : Inside true s (s.moveTo buf (s.ptr + 4)) := inside_move h hs (by omega)
    have hspec := @sdesItemLoop_spec buf F (s.moveTo buf (s.ptr + 4))
      ((s.moveTo buf (s.ptr + 4)).length + 1) 0 none hmove.inBlock hbuf h.endWord
      (by have := h.ptrWord; simp only [moveTo]; omega)
    have hl : (s.moveTo buf (s.ptr + 4)).length = s.blockEnd - (s.ptr + 4) := rfl
    have hp : (s.moveTo buf (s.ptr + 4)).ptr = s.ptr + 4 := rfl
    have he : (s.moveTo buf (s.ptr + 4)).blockEnd = s.blockEnd := rfl
    rw [hl, he, hp] at hspec
    rw [parseSDESItem, hl]
    dsimp only
    generalize sdesItemLoop buf (s.blockEnd - (s.ptr + 4) + 1) (s.moveTo buf (s.ptr + 4)) 0 none = r at hspec
    generalize sdesScan buf s.blockEnd (s.blockEnd - (s.ptr + 4) + 1) (s.ptr + 4) none = scan at hspec
    have hend : r.1.blockEnd = s.blockEnd := hspec.blockEnd
    have hvalid : r.1.validPacket = s.validPacket := hspec.valid
    have hsteady : (s.moveTo buf (s.ptr + 4)).steady = s.steady := move_steady h hs (by omega)
    -- A chunk that is given up ends the block.
    have hgiven : ∀ ok, r.1.ptr = s.blockEnd → r.1.steady = (s.steady && ok) →
        ItemRound ok s (sdesChunkLoop buf fuel r.1) := by
      intro ok hptr hst
      have hclosed : sdesChunkLoop buf fuel r.1 = (r.1.endItem buf, false) := by
        cases fuel with
        | zero => rfl
        | succ fuel => rw [sdesChunkLoop, if_pos (by unfold Parser.length; omega)]
      rw [hclosed]
      exact itemRound_end h hs ⟨hend, hvalid, by omega, by omega, hst⟩
    cases scan with
    | broken =>
      obtain ⟨h1, h2, -, h4⟩ := hspec.broken rfl
      rw [h1]
      exact hgiven true h2 (by rw [h4, hsteady, Bool.and_true])
    | overrun =>
      obtain ⟨h1, h2, -, h4⟩ := hspec.overrun rfl
      rw [h1]
      exact hgiven false h2 (by rw [h4, Bool.and_false])
    | endTag q found =>
      obtain ⟨h1, h2, h3, h4, h5, h6⟩ := hspec.endTag q found rfl
      rw [hsteady] at h4
      have h3 : r.1.state = s.state := h3
      have hup : wordUp (q + 1) ≤ s.blockEnd ∧ s.ptr + 4 ≤ wordUp (q + 1) ∧ wordUp (q + 1) % 4 = 0 := by
        have hw := h.endWord
        have hq : q < s.blockEnd := h6
        have hq' : s.ptr + 4 ≤ q := h5
        unfold wordUp
        omega
      cases found with
      | some cName =>
        rw [h1]
        refine ⟨hend, hvalid, ?_, ?_, ?_, fun hc => absurd (h3 ▸ hc) hs, Or.inl ?_, fun _ => rfl, ?_⟩
        · show s.ptr ≤ r.1.ptr
          omega
        · show r.1.ptr ≤ s.blockEnd
          omega
        · show r.1.ptr % 4 = 0
          omega
        · show s.ptr + 4 ≤ r.1.ptr
          omega
        · show r.1.steady = (s.steady && true)
          rw [h4, Bool.and_true]
      | none =>
        have hinv : r.1.Inv buf := by
          refine ⟨by omega, by omega, hend ▸ h.endWord, fun _ => by omega, fun _ => by omega⟩
        have hnext := ih (s := r.1) (by unfold Parser.length; omega) hinv (h3 ▸ hs) (h3 ▸ hr)
        rw [hend, h2] at hnext
        rw [h1]
        change ItemRound _ s (sdesChunkLoop buf fuel r.1)
        refine ⟨hnext.blockEnd.trans hend, hnext.valid.trans hvalid, ?_, ?_, hnext.word, ?_,
          Or.inl ?_, hnext.reported, ?_⟩
        · have := hnext.forward
          omega
        · have := hnext.inBlock
          omega
        · intro hc
          rw [hnext.closed hc, hend]
        · have := hnext.forward
          omega
        · rw [hnext.steady, h4]

/-- The SDES block the parser is in has an item that runs past its end. -/
def Overruns (buf : List UInt8) (s : Parser F) : Prop :=
  s.state = .sdesChunk ∧ s.numberOfBlocks ≠ 0 ∧ sdesOverruns buf s.blockEnd (s.length + 1) s.ptr = true

instance (buf : List UInt8) (s : Parser F) : Decidable (Overruns buf s) :=
  inferInstanceAs (Decidable (_ ∧ _ ∧ _))

theorem parseSDESChunk_round (h : s.Inv buf) (hst : s.state = .sdesChunk) :
    ItemRound (!decide (Overruns buf s)) s (s.parseSDESChunk buf) := by
  have hs : s.state ≠ .topLevel := by simp [hst]
  unfold parseSDESChunk
  split
  · rename_i h0
    have hno : ¬ Overruns buf s := fun ho => ho.2.1 h0
    rw [decide_eq_false hno]
    exact itemRound_end h hs (inside_self h hs)
  · rename_i h0
    have hov : decide (Overruns buf s) = sdesOverruns buf s.blockEnd (s.length + 1) s.ptr := by
      simp [Overruns, hst, h0]
    have hround := sdesChunkLoop_round (s := { s with numberOfBlocks := s.numberOfBlocks - 1 }) (s.length + 1)
      (by unfold Parser.length; dsimp only; omega) ⟨h.ptr, h.ptrWord, h.endWord, h.inBlock, h.inBuffer⟩ hs
      (by simp only [hst]; rfl)
    rw [hov]
    exact ⟨hround.blockEnd, hround.valid, hround.forward, hround.inBlock, hround.word, hround.closed, hround.progress,
      hround.reported, hround.steady⟩

/-! ## Every item -/

variable (parseFrom : List UInt8 → Option F)

theorem dispatch_itemRound (h : s.Inv buf) (hs : s.state ≠ .topLevel) :
    ItemRound (!decide (Overruns buf s)) s (s.dispatch buf parseFrom) := by
  have hno : s.state ≠ .sdesChunk → (!decide (Overruns buf s)) = true := by
    intro hne
    simp [Overruns, hne]
  unfold dispatch
  split
  case h_1 hst => exact absurd hst hs
  case h_3 hst => exact parseSDESChunk_round h hst
  all_goals
    rename_i hst
    rw [hno (by simp [hst])]
  · exact parseCountedItem_round h hs rfl (by decide) _
  · exact parseBYEItem_round h hs
  · exact parseCountedItem_round h hs rfl (by decide) _
  · exact parseItem_round h hs rfl (by decide) _
  · exact parseItem_round h hs rfl (by decide) _
  · exact parseItem_round h hs rfl (by decide) _
  · exact parseItem_round h hs rfl (by decide) _
  · exact parseRPSIItem_round h hs
  · exact parseItem_round h hs rfl (by decide) _
  · exact parsePsfbAppItem_round h hs
  · exact parsePsfbREMBItem_round h hs
  · exact parseXrItem_round h hs
  · exact parseXrDlrrItem_round h hst
  · exact parseAPPItem_round h hs

/-! ## The top level -/

/-- A feedback block without room for the two SSRCs. -/
def CommonHeader.ShortFeedback (h : CommonHeader) : Prop :=
  (h.packetType = ptRTPFB ∨ h.packetType = ptPSFB) ∧ h.blockSize < 12

/-- A feedback block with more than the two SSRCs, of a format for which the parser looks at nothing else. -/
def CommonHeader.LeavesRest (h : CommonHeader) : Prop :=
  (h.packetType = ptRTPFB ∧ h.countOrFormat ∉ [1, 3, 4, 15] ∨ h.packetType = ptPSFB ∧ h.countOrFormat ∉ [2, 3, 4, 15]) ∧
    12 < h.blockSize

instance (h : CommonHeader) : Decidable h.ShortFeedback := inferInstanceAs (Decidable (_ ∧ _))
instance (h : CommonHeader) : Decidable h.LeavesRest := inferInstanceAs (Decidable (_ ∧ _))

/-- What becomes of the pointer: the call returns nothing, the block is not passed, or it is entered or
passed. -/
inductive TopMove (s : Parser F) (h : CommonHeader) (r : Parser F × Bool) : Prop where
  | stopped (returned : r.2 = true) (packet : r.1.packet = none) (state : r.1.state = .topLevel)
      (ptr : r.1.ptr = s.ptr ∨ r.1.ptr = s.blockEnd) (long : ¬ h.ShortFeedback)
  | stuck (short : h.ShortFeedback) (goesOn : r.2 = false) (state : r.1.state = .topLevel) (ptr : r.1.ptr = s.ptr)
  | moved (reported : r.2 = true → r.1.packet.isSome = true) (forward : s.ptr + 4 ≤ r.1.ptr)
      (inBlock : r.1.ptr ≤ s.blockEnd) (word : r.1.ptr % 4 = 0)
      (passed : r.1.state = .topLevel → r.1.ptr = s.blockEnd ∨ h.LeavesRest ∧ r.1.ptr = s.ptr + 12)
      (long : ¬ h.ShortFeedback)

/-- A round at the top level, on a block of the buffer. -/
structure TopRound (s : Parser F) (h : CommonHeader) (r : Parser F × Bool) : Prop where
  blockEnd : r.1.blockEnd = s.blockEnd
  valid : r.1.validPacket = s.validPacket
  steady : r.1.steady = s.steady
  move : TopMove s h r

/-- The parser is at a block of the buffer. -/
structure AtBlock (buf : List UInt8) (s : Parser F) (h : CommonHeader) : Prop where
  state : s.state = .topLevel
  packet : s.packet = none
  ptrWord : s.ptr % 4 = 0
  size : s.blockEnd = s.ptr + h.blockSize
  sizeWord : h.blockSize % 4 = 0
  fits : s.blockEnd ≤ buf.length

section Top
variable {hd : CommonHeader} (h : AtBlock buf s hd)
include h

theorem atBlock_length : s.length = hd.blockSize := by
  have := h.size
  unfold Parser.length
  omega

theorem endBlock_steady {t : Parser F} (hend : t.blockEnd = s.blockEnd) (hle : t.ptr ≤ s.blockEnd) :
    (t.endCurrentBlock buf).steady = t.steady := by
  have := h.fits
  exact moveTo_steady (by omega) (by omega)

theorem block_move_steady {k : Nat} (hk : k ≤ s.length) : (s.moveTo buf (s.ptr + k)).steady = s.steady := by
  have h1 := h.fits
  have h2 := h.size
  unfold Parser.length at hk
  exact moveTo_steady (Nat.le_add_right _ _) (by omega)

/-- Into the block, by `k` bytes. -/
theorem topRound_enter {k : Nat} (hk : k % 4 = 0) (h4 : 4 ≤ k) (hlen : k ≤ s.length) (hl : ¬ hd.ShortFeedback)
    {t : Parser F} {b : Bool} (hptr : t.ptr = s.ptr + k) (hend : t.blockEnd = s.blockEnd)
    (hvalid : t.validPacket = s.validPacket) (hsteady : t.steady = (s.moveTo buf (s.ptr + k)).steady)
    (hrep : b = true → t.packet.isSome = true)
    (hst : t.state = .topLevel → t.ptr = s.blockEnd ∨ hd.LeavesRest ∧ t.ptr = s.ptr + 12) : TopRound s hd (t, b) := by
  have hin := atBlock_length h
  have hsize := h.size
  have hword := h.ptrWord
  refine ⟨hend, hvalid, by rw [hsteady, block_move_steady h hlen], .moved hrep ?_ ?_ ?_ hst hl⟩ <;> dsimp only <;> omega

/-- Over the whole block. -/
theorem topRound_pass {t : Parser F} {b : Bool} (hptr : t.ptr = s.blockEnd) (hend : t.blockEnd = s.blockEnd)
    (hvalid : t.validPacket = s.validPacket) (hsteady : t.steady = s.steady)
    (hrep : b = true → t.packet.isSome = true) (hl : ¬ hd.ShortFeedback) : TopRound s hd (t, b) := by
  have hsize := h.size
  have hword := h.ptrWord
  have hsw := h.sizeWord
  have h4 := four_le_blockSize hd
  refine ⟨hend, hvalid, hsteady, .moved hrep ?_ ?_ ?_ (fun _ => Or.inl hptr) hl⟩ <;> dsimp only <;> omega

theorem parseSR_round (hl : ¬ hd.ShortFeedback) : TopRound s hd ((s.parseSR buf).1, true) := by
  have hin := atBlock_length h
  unfold parseSR
  split
  · exact ⟨rfl, rfl, endBlock_steady h rfl (by have := h.size; omega), .stopped rfl h.packet h.state (Or.inr rfl) hl⟩
  · rename_i h28
    dsimp only
    split
    · exact topRound_enter h (k := 28) rfl (by decide) (by omega) hl rfl rfl rfl rfl (fun _ => rfl) fun hc => nomatch hc
    · refine topRound_pass h rfl rfl rfl ?_ (fun _ => rfl) hl
      have hsize := h.size
      rw [← block_move_steady h (k := 28) (by omega)]
      exact endBlock_steady h rfl (by simp only [moveTo, report]; omega)

theorem parseRR_round (hl : ¬ hd.ShortFeedback) : TopRound s hd ((s.parseRR buf).1, true) := by
  unfold parseRR
  split
  · exact ⟨rfl, rfl, rfl, .stopped rfl h.packet h.state (Or.inl rfl) hl⟩
  · exact topRound_enter h (k := 8) rfl (by decide) (by omega) hl rfl rfl rfl rfl (fun _ => rfl) fun hc => nomatch hc

theorem parseIJ_round (hl : ¬ hd.ShortFeedback) : TopRound s hd ((s.parseIJ buf).1, true) := by
  unfold parseIJ
  split
  · exact ⟨rfl, rfl, rfl, .stopped rfl h.packet h.state (Or.inl rfl) hl⟩
  · exact topRound_enter h (k := 4) rfl (by decide) (by omega) hl rfl rfl rfl rfl (fun _ => rfl) fun hc => nomatch hc

theorem ptr_le_blockEnd : s.ptr ≤ s.blockEnd := by
  have := h.size
  omega

theorem parseSDES_round (hl : ¬ hd.ShortFeedback) : TopRound s hd (s.parseSDES buf) := by
  unfold parseSDES
  split
  · exact topRound_pass h rfl rfl rfl (endBlock_steady h rfl (ptr_le_blockEnd h)) (fun hc => nomatch hc) hl
  · exact topRound_enter h (k := 4) rfl (by decide) (by omega) hl rfl rfl rfl rfl (fun _ => rfl) fun hc => nomatch hc

theorem parseXr_round (hl : ¬ hd.ShortFeedback) : TopRound s hd (s.parseXr buf) := by
  unfold parseXr
  split
  · exact topRound_pass h rfl rfl rfl (endBlock_steady h rfl (ptr_le_blockEnd h)) (fun hc => nomatch hc) hl
  · exact topRound_enter h (k := 8) rfl (by decide) (by omega) hl rfl rfl rfl rfl (fun _ => rfl) fun hc => nomatch hc

theorem parseAPP_round (hl : ¬ hd.ShortFeedback) : TopRound s hd (s.parseAPP buf hd) := by
  unfold parseAPP
  split
  · exact topRound_pass h rfl rfl rfl (endBlock_steady h rfl (ptr_le_blockEnd h)) (fun hc => nomatch hc) hl
  · exact topRound_enter h (k := 12) rfl (by decide) (by omega) hl rfl rfl rfl rfl (fun _ => rfl) fun hc => nomatch hc

/-- The first item of a BYE packet is read at once. -/
theorem parseBYE_round (hl : ¬ hd.ShortFeedback) : TopRound s hd (s.parseBYE buf) := by
  have hlen := atBlock_length h
  have hsize := h.size
  have h4 := four_le_blockSize hd
  have hsteady : (s.moveTo buf (s.ptr + 4)).steady = s.steady := block_move_steady h (by omega)
  have hinv : Parser.Inv buf ({ s.moveTo buf (s.ptr + 4) with state := .byeItem } : Parser F) := by
    have h1 := h.fits
    have h2 := h.ptrWord
    have h3 := h.sizeWord
    constructor <;> simp only [moveTo] <;> intros <;> omega
  have hround := parseBYEItem_round hinv (by simp)
  have hforward : s.ptr + 4 ≤ (s.parseBYE buf).1.ptr := hround.forward
  exact ⟨hround.blockEnd, hround.valid,
    by rw [← hsteady, ← Bool.and_true (s.moveTo buf (s.ptr + 4)).steady]; exact hround.steady,
    .moved hround.reported hforward hround.inBlock hround.word (fun hc => Or.inl (hround.closed hc)) hl⟩

variable (parseFrom : List UInt8 → Option F)

/-- The two SSRCs are read, and the parser is inside the block or not at all. -/
theorem topRound_feedback (hl : ¬ hd.ShortFeedback) (h12 : 12 ≤ s.length) {t : Parser F} {b : Bool}
    (hptr : t.ptr = s.ptr + 12) (hend : t.blockEnd = s.blockEnd)
    (hvalid : t.validPacket = s.validPacket) (hsteady : t.steady = (s.moveTo buf (s.ptr + 12)).steady)
    (hrep : b = true → t.packet.isSome = true)
    (hst : t.state ≠ .topLevel ∨ (hd.packetType = ptRTPFB ∧ hd.countOrFormat ∉ [1, 3, 4, 15] ∨
      hd.packetType = ptPSFB ∧ hd.countOrFormat ∉ [2, 3, 4, 15])) : TopRound s hd (t, b) := by
  refine topRound_enter h (k := 12) rfl (by decide) h12 hl hptr hend hvalid hsteady hrep fun hc => ?_
  have hlen := atBlock_length h
  have hsize := h.size
  rcases hst with hst | hst
  · exact absurd hc hst
  · by_cases hlong : 12 < hd.blockSize
    · exact Or.inr ⟨⟨hst, hlong⟩, hptr⟩
    · exact Or.inl (by omega)

theorem parseFBCommon_round (hfb : hd.packetType = ptRTPFB ∨ hd.packetType = ptPSFB) :
    TopRound s hd (s.parseFBCommon buf parseFrom hd) := by
  have hlen := atBlock_length h
  have hsize := h.size
  unfold parseFBCommon
  split
  · rename_i h12
    exact ⟨rfl, rfl, rfl, .stuck ⟨hfb, by omega⟩ rfl h.state rfl⟩
  rename_i h12
  have hl : ¬ hd.ShortFeedback := fun hsh => absurd hsh.2 (by omega)
  have h12 : 12 ≤ s.length := by omega
  have hsteady : (s.moveTo buf (s.ptr + 12)).steady = s.steady := block_move_steady h h12
  dsimp only
  split
  · rename_i hrtp
    unfold parseRtpfb
    split
    · exact topRound_feedback h hl h12 rfl rfl rfl rfl (fun _ => rfl) (Or.inl (by simp))
    split
    · exact topRound_feedback h hl h12 rfl rfl rfl rfl (fun _ => rfl) (Or.inl (by simp))
    split
    · exact topRound_feedback h hl h12 rfl rfl rfl rfl (fun _ => rfl) (Or.inl (by simp))
    split
    · exact topRound_feedback h hl h12 rfl rfl rfl rfl (fun _ => rfl) (Or.inr (Or.inl ⟨hrtp, by simp_all⟩))
    split
    · -- The whole block is read, or skipped.
      have hend : ((s.moveTo buf (s.ptr + 12)).endCurrentBlock buf).steady = s.steady := by
        rw [← hsteady]
        exact endBlock_steady h rfl (by simp only [moveTo]; omega)
      split
      · exact topRound_pass h rfl rfl rfl hend (fun _ => rfl) hl
      · exact topRound_pass h rfl rfl rfl hend (fun hc => nomatch hc) hl
    · exact topRound_feedback h hl h12 rfl rfl rfl rfl (fun hc => nomatch hc) (Or.inr (Or.inl ⟨hrtp, by simp_all⟩))
  · rename_i hrtp
    have hps : hd.packetType = ptPSFB := hfb.resolve_left hrtp
    unfold parsePsfb
    split
    · exact topRound_feedback h hl h12 rfl rfl rfl rfl (fun _ => rfl) (Or.inr (Or.inr ⟨hps, by simp_all⟩))
    split
    · exact topRound_feedback h hl h12 rfl rfl rfl rfl (fun _ => rfl) (Or.inl (by simp))
    split
    · exact topRound_feedback h hl h12 rfl rfl rfl rfl (fun _ => rfl) (Or.inl (by simp))
    split
    · exact topRound_feedback h hl h12 rfl rfl rfl rfl (fun _ => rfl) (Or.inl (by simp))
    split
    · exact topRound_feedback h hl h12 rfl rfl rfl rfl (fun _ => rfl) (Or.inl (by simp))
    · exact topRound_feedback h hl h12 rfl rfl rfl rfl (fun hc => nomatch hc) (Or.inr (Or.inr ⟨hps, by simp_all⟩))

theorem topLevelBlock_round : TopRound s hd (s.topLevelBlock buf parseFrom hd) := by
  have hc : AtBlock buf ({ s with numberOfBlocks := hd.countOrFormat } : Parser F) hd :=
    ⟨h.state, h.packet, h.ptrWord, h.size, h.sizeWord, h.fits⟩
  have hnot : ∀ n, hd.packetType = n → n ≠ ptRTPFB → n ≠ ptPSFB → ¬ hd.ShortFeedback := by
    rintro n rfl h1 h2 ⟨h3 | h3, -⟩
    · exact h1 h3
    · exact h2 h3
  have hback : ∀ r : Parser F × Bool, TopRound ({ s with numberOfBlocks := hd.countOrFormat } : Parser F) hd r →
      TopRound s hd r := fun r hr => ⟨hr.blockEnd, hr.valid, hr.steady, by
    cases hr.move with
    | stopped h1 h2 h3 h4 h5 => exact .stopped h1 h2 h3 h4 h5
    | stuck h1 h2 h3 h4 => exact .stuck h1 h2 h3 h4
    | moved h1 h2 h3 h4 h5 h6 => exact .moved h1 h2 h3 h4 h5 h6⟩
  unfold topLevelBlock
  dsimp only
  split
  · exact hback _ (parseSR_round hc (hnot _ ‹_› (by decide) (by decide)))
  split
  · exact hback _ (parseRR_round hc (hnot _ ‹_› (by decide) (by decide)))
  split
  · exact hback _ (parseSDES_round hc (hnot _ ‹_› (by decide) (by decide)))
  split
  · exact hback _ (parseBYE_round hc (hnot _ ‹_› (by decide) (by decide)))
  split
  · exact hback _ (parseIJ_round hc (hnot _ ‹_› (by decide) (by decide)))
  split
  · exact parseFBCommon_round h parseFrom ‹_›
  rename_i hfb
  split
  · exact parseAPP_round h fun hsh => hfb hsh.1
  split
  · exact parseXr_round h fun hsh => hfb hsh.1
  · exact topRound_pass h rfl rfl rfl (endBlock_steady h rfl (ptr_le_blockEnd (s := s) h)) (fun hc => nomatch hc)
      fun hsh => hfb hsh.1

end Top

/-! ## Every round -/

section Every
variable (parseFrom : List UInt8 → Option F)

/-- The parser as it takes up a block. -/
def atBlock (s : Parser F) (hd : CommonHeader) : Parser F := { s.clear with blockEnd := s.ptr + hd.blockSize }

/-- **One round.** Nothing is there to read, a block is taken up, or an item of one. -/
inductive RoundCases (buf : List UInt8) (s : Parser F) (r : Parser F × Bool) : Prop where
  | finished (returned : r.2 = true) (same : r.1 = s.clear)
      (why : s.validPacket = false ∨ s.state = .topLevel ∧ headerAt buf s.ptr = none)
  | block (hd : CommonHeader) (valid : s.validPacket = true) (state : s.state = .topLevel)
      (header : headerAt buf s.ptr = some hd)
      (round : TopRound (atBlock s hd) hd r)
  | item (valid : s.validPacket = true) (inside : s.state ≠ .topLevel)
      (round : ItemRound (!decide (Overruns buf s)) s.clear r)

theorem atBlock_spec (h : s.Inv buf) (hst : s.state = .topLevel) {hd : CommonHeader}
    (hh : headerAt buf s.ptr = some hd) : AtBlock buf (atBlock s hd) hd := by
  obtain ⟨hsize, hfits⟩ := blockSize_of_parse hh
  have hptr := h.ptr
  exact ⟨hst, rfl, h.ptrWord, rfl, by omega, show s.ptr + hd.blockSize ≤ buf.length by omega⟩

theorem iterate_block (hp : s.ptr ≤ buf.length) (hv : s.validPacket = true) (hst : s.state = .topLevel)
    {hd : CommonHeader} (hh : headerAt buf s.ptr = some hd) :
    s.iterate buf parseFrom = (atBlock s hd).topLevelBlock buf parseFrom hd := by
  have hsize := (blockSize_of_parse hh).2
  have hfits : s.ptr + hd.blockSize ≤ buf.length := by omega
  have h4 := four_le_blockSize hd
  have hd' : s.clear.dispatch buf parseFrom = s.clear.iterateTopLevel buf parseFrom := by
    have : s.clear.state = .topLevel := hst
    unfold dispatch
    rw [this]
  have hptr : s.clear.ptr = s.ptr := rfl
  rw [iterate, if_pos hv, hd', iterateTopLevel, hptr, if_neg (by omega), hh]
  exact if_neg (Nat.not_lt.2 hfits)

theorem topLevelBlock_feedback {hd : CommonHeader} (hfb : hd.packetType = ptRTPFB ∨ hd.packetType = ptPSFB) :
    s.topLevelBlock buf parseFrom hd = s.parseFBCommon buf parseFrom hd := by
  have hne : ∀ n, n ≠ ptRTPFB → n ≠ ptPSFB → ¬ hd.packetType = n := by
    rintro n h1 h2 rfl
    exact hfb.elim h1 h2
  rw [topLevelBlock, if_neg (hne ptSR (by decide) (by decide)), if_neg (hne ptRR (by decide) (by decide)),
    if_neg (hne ptSDES (by decide) (by decide)), if_neg (hne ptBYE (by decide) (by decide)),
    if_neg (hne ptIJ (by decide) (by decide)), if_pos hfb]

theorem iterate_over (hst : s.state = .topLevel) (hh : headerAt buf s.ptr = none) :
    s.iterate buf parseFrom = (s.clear, true) := by
  have hd' : s.clear.dispatch buf parseFrom = s.clear.iterateTopLevel buf parseFrom := by
    have : s.clear.state = .topLevel := hst
    unfold dispatch
    rw [this]
  have hptr : s.clear.ptr = s.ptr := rfl
  rw [iterate, hd', iterateTopLevel, hptr, hh, ite_self, ite_self]

theorem iterate_cases (h : s.Inv buf) : RoundCases buf s (s.iterate buf parseFrom) := by
  by_cases hv : s.validPacket = true
  · by_cases hst : s.state = .topLevel
    · cases hh : headerAt buf s.ptr with
      | none =>
        rw [iterate_over parseFrom hst hh]
        exact .finished rfl rfl (Or.inr ⟨hst, hh⟩)
      | some hd =>
        rw [iterate_block parseFrom h.ptr hv hst hh]
        exact .block hd hv hst hh (topLevelBlock_round (atBlock_spec h hst hh) parseFrom)
    · have hc : s.clear.Inv buf := ⟨h.ptr, h.ptrWord, h.endWord, h.inBlock, h.inBuffer⟩
      rw [iterate, if_pos hv]
      exact .item hv hst (dispatch_itemRound parseFrom hc hst)
  · rw [iterate, if_neg hv]
    exact .finished rfl rfl (Or.inl (eq_false_of_ne_true hv))

theorem inv_init (reducedSize : Bool) : Parser.Inv buf (init buf reducedSize : Parser F) :=
  ⟨Nat.zero_le _, rfl, rfl, fun hs => absurd rfl hs, fun hs => absurd rfl hs⟩

theorem iterate_inv (h : s.Inv buf) : (s.iterate buf parseFrom).1.Inv buf := by
  cases iterate_cases parseFrom h with
  | finished returned same why =>
    rw [same]
    exact ⟨h.ptr, h.ptrWord, h.endWord, h.inBlock, h.inBuffer⟩
  | block hd valid state header round =>
    obtain ⟨hsize, hfits⟩ := blockSize_of_parse header
    have hw := h.ptrWord
    have hend : (s.iterate buf parseFrom).1.blockEnd = s.ptr + hd.blockSize := round.blockEnd
    cases round.move with
    | stopped returned packet state ptr long =>
      refine ⟨?_, ?_, by omega, fun hs => absurd state hs, fun hs => absurd state hs⟩
      all_goals
        simp only [atBlock, clear] at ptr
        omega
    | stuck short goesOn state ptr =>
      refine ⟨?_, ?_, by omega, fun hs => absurd state hs, fun hs => absurd state hs⟩
      all_goals
        simp only [atBlock, clear] at ptr
        omega
    | moved reported forward inBlock word passed long =>
      simp only [atBlock] at inBlock
      exact ⟨by omega, word, by omega, fun _ => by omega, fun _ => by omega⟩
  | item valid inside round =>
    have h1 : (s.iterate buf parseFrom).1.blockEnd = s.blockEnd := round.blockEnd
    have h2 : (s.iterate buf parseFrom).1.ptr ≤ s.blockEnd := round.inBlock
    have h3 := h.inBuffer inside
    have h4 := h.endWord
    exact ⟨by omega, round.word, by omega, fun _ => by omega, fun _ => by omega⟩

theorem steps_inv (reducedSize : Bool) (n : Nat) : (steps buf parseFrom reducedSize n).1.Inv buf := by
  induction n with
  | zero => exact inv_init reducedSize
  | succ n ih => exact iterate_inv parseFrom ih

/-- An invalid packet is not entered. -/
theorem steps_valid (reducedSize : Bool) (n : Nat) (hs : (steps buf parseFrom reducedSize n).1.state ≠ .topLevel) :
    (steps buf parseFrom reducedSize n).1.validPacket = true := by
  induction n with
  | zero => exact absurd rfl hs
  | succ n ih =>
    rw [steps] at hs ⊢
    cases iterate_cases parseFrom (steps_inv parseFrom reducedSize n) with
    | finished returned same why =>
      rw [same] at hs ⊢
      exact ih hs
    | block hd valid state header round => exact round.valid.trans valid
    | item valid inside round => exact round.valid.trans valid

end Every

end WebRtc.Rtcp
