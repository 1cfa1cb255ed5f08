/-
Module: MidiBridge.Proofs.Encoder.Blocks
Purpose: System Exclusive blocks, from any state of the encoder. Where a block begins, whatever was pending
  is forgotten, and from there on the packets depend on nothing but the cable and the bytes of the block.
  The block is cut after every third byte, `0xF0` being the first of them; what is left at `0xF7` goes into
  a last packet of one to three bytes. The packets are given by their index, so that their number, their
  bytes and the bytes at which they come can be read off. Outside, everything is as it was before the
  block.
Trusted boundary: human-reviewed spec
Main exports: Packet.canonical_block, Packet.blockCount, Packet.blockRest, Packet.ofBlock,
  Packet.ofBlockAt?, Packet.block_eq_ofBlock, Encoder.View.emissions_block, Encoder.View.run_block,
  Encoder.block_cut_in_threes
-/
import MidiBridge.Proofs.Encoder.WellFormed

namespace MidiBridge

namespace Packet

/-!
### Blocks are canonical

The packets of a block are among those that an encoder finds again: the first of them may stand anywhere,
and the others stand inside the block that it has begun.
-/

/-- A packet with a shape for its place may stand in front of packets that are canonical behind it. -/
theorem Canonical.cons {cable : Cable} {inBlock : Bool} {code : CodeIndex} {bytes : List UInt8}
    {ps : List Packet} (hshape : Shape inBlock code bytes)
    (hrest : Canonical cable (blockAfter inBlock code bytes) ps) :
    Canonical cable inBlock (carrying cable code bytes :: ps) := by
  have hpayload : (carrying cable code bytes).payload = bytes :=
    payload_carrying cable hshape.length_eq
  have hcode := code_carrying cable code bytes
  refine ⟨cable_carrying cable code bytes, ?_, ?_, ?_⟩
  · rw [hpayload]
    rfl
  · rw [hpayload, hcode]
    exact hshape
  · rw [hpayload, hcode]
    exact hrest

/-- The packets of a block that is open already. -/
theorem canonical_block_rest (cable : Cable) :
    ∀ data : List UInt8, (∀ b ∈ data, b < 0x80) →
      Canonical cable true (block cable (data ++ [Byte.sysExEnd]))
  | [], _ => Canonical.cons .blockEnd1 trivial
  | [a], h => Canonical.cons (.blockEnd2 a (h a (by simp))) trivial
  | [a, b], h => Canonical.cons (.blockEnd3 a b (h a (by simp)) (h b (by simp))) trivial
  | a :: b :: c :: data, h => by
      have hfirst : ∀ x ∈ [a, b, c], x < 0x80 := fun x hx => h x (List.mem_append_left data hx)
      have hdata : ∀ x ∈ data, x < 0x80 := fun x hx => h x (List.mem_append_right [a, b, c] hx)
      have hpart : Shape true .sysExStart [a, b, c] :=
        .blockPart a b c (hfirst a (by simp)) (hfirst b (by simp)) (hfirst c (by simp))
      simp only [List.cons_append]
      rw [block_of_more cable a b c (List.append_ne_nil_of_right_ne_nil data (by simp))]
      apply Canonical.cons hpart
      rw [blockAfter_data true .sysExStart hfirst]
      exact canonical_block_rest cable data hdata

/-- A block may begin anywhere, also where another one is open. -/
theorem canonical_block (cable : Cable) (inBlock : Bool) {data : List UInt8}
    (isData : ∀ b ∈ data, b < 0x80) :
    Canonical cable inBlock (block cable (Byte.sysExStart :: (data ++ [Byte.sysExEnd]))) := by
  match data, isData with
  | [], _ => exact Canonical.cons .block2 trivial
  | [a], h => exact Canonical.cons (.block3 a (h a (by simp))) trivial
  | a :: b :: data, h =>
      have hdata : ∀ x ∈ data, x < 0x80 := fun x hx => h x (List.mem_append_right [a, b] hx)
      simp only [List.cons_append]
      rw [block_of_more cable Byte.sysExStart a b
        (List.append_ne_nil_of_right_ne_nil data (by simp))]
      apply Canonical.cons (.blockStart a b (h a (by simp)) (h b (by simp)))
      exact canonical_block_rest cable data hdata

/-!
### The packets by their index

All packets but the last have three bytes. So the packet with the index `k` holds the bytes from `3 * k`
on, and the packet of the byte with the index `i` is the one with the index `i / 3`.
-/

/-- The number of packets of a block: a third of the number of its bytes, rounded up. -/
def blockCount (length : Nat) : Nat := (length + 2) / 3

/-- The number of bytes that are left for the last packet of a block. -/
def blockRest (length : Nat) : Nat := length - 3 * (blockCount length - 1)

/-- The packet with the index `k` of a block, with the code of a full packet if it is not the last and that
    of an end otherwise. -/
def ofBlock (cable : Cable) (bytes : List UInt8) (k : Nat) : Packet :=
  let code :=
    if k + 1 < blockCount bytes.length then .sysExStart
    else CodeIndex.sysExTail (blockRest bytes.length)
  carrying cable code ((bytes.drop (3 * k)).take 3)

/-- The packet that the byte with the index `i` of a block completes: every third byte completes one, and so
    does the last. -/
def ofBlockAt? (cable : Cable) (bytes : List UInt8) (i : Nat) : Option Packet :=
  if i % 3 = 2 ∨ i + 1 = bytes.length then some (ofBlock cable bytes (i / 3)) else none

/-- A packet behind the bytes of its payload that complete nothing yet. -/
def spread (p : Packet) : List (Option Packet) :=
  List.replicate (p.payload.length - 1) none ++ [some p]

theorem blockCount_add_three (length : Nat) : blockCount (length + 3) = blockCount length + 1 := by
  simp only [blockCount]
  omega

theorem blockRest_add_three {length : Nat} (h : 0 < length) :
    blockRest (length + 3) = blockRest length := by
  simp only [blockRest, blockCount]
  omega

theorem blockRest_bounds {length : Nat} (h : 0 < length) :
    1 ≤ blockRest length ∧ blockRest length ≤ 3 := by
  simp only [blockRest, blockCount]
  omega

section Short

variable (cable : Cable) (bytes : List UInt8)

theorem blockCount_short (hpos : 0 < bytes.length) (hle : bytes.length ≤ 3) :
    blockCount bytes.length = 1 := by
  simp only [blockCount]
  omega

/-- At most three bytes go into one packet. -/
theorem ofBlock_short (hpos : 0 < bytes.length) (hle : bytes.length ≤ 3) :
    ofBlock cable bytes 0 = carrying cable (CodeIndex.sysExTail bytes.length) bytes := by
  have hbytes : (bytes.drop (3 * 0)).take 3 = bytes := List.take_of_length_le hle
  simp only [ofBlock, blockRest, blockCount_short bytes hpos hle, hbytes]
  rfl

theorem map_ofBlock_short (hpos : 0 < bytes.length) (hle : bytes.length ≤ 3) :
    (List.range (blockCount bytes.length)).map (ofBlock cable bytes)
      = [carrying cable (CodeIndex.sysExTail bytes.length) bytes] := by
  rw [blockCount_short bytes hpos hle, List.range_one, List.map_singleton,
    ofBlock_short cable bytes hpos hle]

/-- That packet comes with the last of the bytes. -/
theorem map_ofBlockAt?_short (hpos : 0 < bytes.length) (hle : bytes.length ≤ 3) :
    (List.range bytes.length).map (ofBlockAt? cable bytes)
      = spread (carrying cable (CodeIndex.sysExTail bytes.length) bytes) := by
  obtain ⟨m, hm⟩ := Nat.exists_eq_add_one_of_ne_zero (Nat.ne_of_gt hpos)
  have hearlier : (List.range m).map (ofBlockAt? cable bytes) = List.replicate m none := by
    rw [List.eq_replicate_iff, List.length_map, List.length_range]
    refine ⟨rfl, List.forall_mem_map.2 ?_⟩
    intro i hi
    have hi : i < m := List.mem_range.1 hi
    have hnone : ¬ (i % 3 = 2 ∨ i + 1 = bytes.length) := by omega
    exact if_neg hnone
  have hlast : ofBlockAt? cable bytes m = some (ofBlock cable bytes (m / 3)) :=
    if_pos (Or.inr hm.symm)
  have hindex : m / 3 = 0 := Nat.div_eq_of_lt (by omega)
  have hpayload : (carrying cable (CodeIndex.sysExTail bytes.length) bytes).payload = bytes :=
    payload_carrying cable (CodeIndex.payloadLength_sysExTail hpos hle).symm
  rw [hindex, ofBlock_short cable bytes hpos hle] at hlast
  rw [spread, hpayload, hm, List.range_succ, List.map_append, hearlier, List.map_singleton, hlast, hm]
  rfl

end Short

section More

variable (cable : Cable) (a b c : UInt8) {rest : List UInt8}

theorem ofBlock_zero (h : rest ≠ []) :
    ofBlock cable (a :: b :: c :: rest) 0 = carrying cable .sysExStart [a, b, c] := by
  have hpos : 0 < rest.length := List.length_pos_iff.2 h
  have hmore : 0 + 1 < blockCount (rest.length + 3) := by
    simp only [blockCount]
    omega
  simp only [ofBlock, List.length_cons, if_pos hmore]
  rfl

theorem ofBlock_succ (h : rest ≠ []) (k : Nat) :
    ofBlock cable (a :: b :: c :: rest) (k + 1) = ofBlock cable rest k := by
  have hpos : 0 < rest.length := List.length_pos_iff.2 h
  have hdrop : (a :: b :: c :: rest).drop (3 * (k + 1)) = rest.drop (3 * k) := by
    rw [Nat.mul_add_one]
    rfl
  simp only [ofBlock, hdrop, List.length_cons, blockCount_add_three, blockRest_add_three hpos,
    Nat.add_lt_add_iff_right]

theorem ofBlockAt?_add_three (h : rest ≠ []) (i : Nat) :
    ofBlockAt? cable (a :: b :: c :: rest) (i + 3) = ofBlockAt? cable rest i := by
  have hindex : (i + 3) / 3 = i / 3 + 1 := Nat.add_div_right i (Nat.zero_lt_succ 2)
  have hlast : i + 3 + 1 = rest.length + 1 + 1 + 1 ↔ i + 1 = rest.length := by omega
  simp only [ofBlockAt?, List.length_cons, Nat.add_mod_right, hindex, hlast,
    ofBlock_succ cable a b c h]

/-- The first three bytes of a longer block, and behind them the rest. -/
theorem map_ofBlockAt?_more (h : rest ≠ []) :
    (List.range (a :: b :: c :: rest).length).map (ofBlockAt? cable (a :: b :: c :: rest))
      = none :: none :: some (carrying cable .sysExStart [a, b, c])
        :: (List.range rest.length).map (ofBlockAt? cable rest) := by
  have hpos : 0 < rest.length := List.length_pos_iff.2 h
  have hzero : ofBlockAt? cable (a :: b :: c :: rest) 0 = none := if_neg (by simp)
  have hone : ofBlockAt? cable (a :: b :: c :: rest) 1 = none := if_neg (by simp)
  have htwo : ofBlockAt? cable (a :: b :: c :: rest) 2
      = some (carrying cable .sysExStart [a, b, c]) :=
    congrArg some (ofBlock_zero cable a b c h)
  simp only [List.length_cons, List.range_succ_eq_map, List.map_cons, List.map_map,
    Function.comp_def, Nat.succ_eq_add_one, hzero, hone, htwo, ofBlockAt?_add_three cable a b c h]

end More

theorem block_eq_ofBlock (cable : Cable) (bytes : List UInt8) :
    block cable bytes = (List.range (blockCount bytes.length)).map (ofBlock cable bytes) := by
  fun_induction block cable bytes with
  | case1 => rfl
  | case2 a => exact (map_ofBlock_short cable [a] (by simp) (by simp)).symm
  | case3 a b => exact (map_ofBlock_short cable [a, b] (by simp) (by simp)).symm
  | case4 a b c => exact (map_ofBlock_short cable [a, b, c] (by simp) (by simp)).symm
  | case5 a b c rest hrest ih =>
      have hne : rest ≠ [] := hrest
      simp only [List.length_cons, blockCount_add_three, List.range_succ_eq_map, List.map_cons,
        List.map_map, Function.comp_def, Nat.succ_eq_add_one, ih, ofBlock_zero cable a b c hne,
        ofBlock_succ cable a b c hne]

/-- Written out byte by byte, each packet stands at the last of its bytes. -/
theorem flatMap_block (cable : Cable) (bytes : List UInt8) :
    (block cable bytes).flatMap spread
      = (List.range bytes.length).map (ofBlockAt? cable bytes) := by
  fun_induction block cable bytes with
  | case1 => rfl
  | case2 a =>
      rw [List.flatMap_singleton]
      exact (map_ofBlockAt?_short cable [a] (by simp) (by simp)).symm
  | case3 a b =>
      rw [List.flatMap_singleton]
      exact (map_ofBlockAt?_short cable [a, b] (by simp) (by simp)).symm
  | case4 a b c =>
      rw [List.flatMap_singleton]
      exact (map_ofBlockAt?_short cable [a, b, c] (by simp) (by simp)).symm
  | case5 a b c rest hrest ih =>
      have hpayload : (carrying cable .sysExStart [a, b, c]).payload = [a, b, c] :=
        payload_carrying cable rfl
      rw [map_ofBlockAt?_more cable a b c hrest, List.flatMap_cons, ih, spread, hpayload]
      rfl

end Packet

namespace Encoder

/-!
### Blocks from any state

The first byte of a block removes what was pending, so that the encoder can as well stand between two
packets, inside another block or not.
-/

namespace View

variable (v : View) {data : List UInt8}

theorem emissions_sysExStart (bs : List UInt8) :
    v.emissions (Byte.sysExStart :: bs)
      = ({ v with pending := [] } : View).emissions (Byte.sysExStart :: bs) := by
  simp only [emissions, step_sysExStart]

/-- Each packet of a block comes with the last of its bytes. -/
theorem emissions_block (isData : ∀ b ∈ data, b < 0x80) :
    let bytes := Byte.sysExStart :: (data ++ [Byte.sysExEnd])
    v.emissions bytes = (List.range bytes.length).map (Packet.ofBlockAt? v.cable bytes) := by
  intro bytes
  have hbetween : Between v.cable v.framing.isSysEx { v with pending := [] } := ⟨rfl, rfl, rfl⟩
  have hcanonical := Packet.canonical_block v.cable v.framing.isSysEx isData
  have hemissions := (emissions_canonical hbetween hcanonical).1
  rw [Packet.stream_block] at hemissions
  calc v.emissions bytes
    _ = ({ v with pending := [] } : View).emissions bytes := v.emissions_sysExStart _
    _ = (Packet.block v.cable bytes).flatMap Packet.spread := hemissions
    _ = (List.range bytes.length).map (Packet.ofBlockAt? v.cable bytes) :=
        Packet.flatMap_block v.cable bytes

/-- The packets of a block, and the encoder behind it. -/
theorem packets_block_run (isData : ∀ b ∈ data, b < 0x80) :
    let bytes := Byte.sysExStart :: (data ++ [Byte.sysExEnd])
    v.packets bytes = Packet.block v.cable bytes ∧
      v.run bytes = ⟨v.cable, Framing.outside v.framing.status?, []⟩ := by
  intro bytes
  have hone : [Byte.sysExStart].length ≤ 2 := Nat.le_succ 1
  have hblock := packets_block v.cable v.framing.status? (ByteClass.ofByte_of_isData isData) hone
  constructor
  · exact (packets_cons_none v.step_sysExStart _).trans hblock.1
  · rw [run_cons, step_sysExStart]
    exact hblock.2

end View

/-- A block of System Exclusive data is cut into packets in the same way from every state that an encoder
    can be in, whatever was pending and whether or not another block is open. The packets come with every
    third byte and with the last; all but the last are full, and the last holds the one to three bytes
    that are left. Their bytes are those of the block and no others. Then nothing is pending, no block is
    open, and the running status is the one from before. -/
theorem block_cut_in_threes (cable : Cable) (cs : List Command) {data : List UInt8}
    (isData : ∀ b ∈ data, b < 0x80) :
    let e := (new cable).after cs
    let bytes := Byte.sysExStart :: (data ++ [Byte.sysExEnd])
    let count := Packet.blockCount (data.length + 2)
    let rest := Packet.blockRest (data.length + 2)
    e.emissions bytes = (List.range bytes.length).map (Packet.ofBlockAt? e.cable bytes) ∧
      e.packets bytes = (List.range count).map (Packet.ofBlock e.cable bytes) ∧
      (1 ≤ rest ∧ rest ≤ 3) ∧
      Packet.stream (e.packets bytes) = bytes ∧
      (e.run bytes).pending = [] ∧
      (e.run bytes).framing = Framing.outside e.framing.status? ∧
      (e.run bytes).framing.status? = e.framing.status? := by
  intro e bytes count rest
  have hsound : e.Sound := sound_after cable cs
  have hlength : bytes.length = data.length + 2 := by simp [bytes]
  obtain ⟨hpackets, hrun⟩ := e.view.packets_block_run isData
  rw [← packets_eq hsound] at hpackets
  rw [← view_run hsound] at hrun
  have hframing : (e.run bytes).framing = Framing.outside e.framing.status? :=
    congrArg View.framing hrun
  refine ⟨?_, ?_, Packet.blockRest_bounds (Nat.succ_pos _), ?_, congrArg View.pending hrun, hframing, ?_⟩
  · rw [emissions_eq hsound]
    exact e.view.emissions_block isData
  · rw [hpackets, Packet.block_eq_ofBlock, hlength]
    rfl
  · rw [hpackets]
    exact Packet.stream_block e.cable bytes
  · rw [hframing, Framing.status?_outside]

/-- A block that begins inside another one, while two bytes of that one are pending and the cable has
    changed. -/
theorem block_cut_inside_block :
    let cs : List Command :=
      [.byte 0xC1, .byte 0xF0, .byte 0x55, .setCable (Cable.ofNibble 5)]
    let data : List UInt8 := [0x01, 0x02, 0x03, 0x04, 0x05]
    let e := (new Cable.first).after cs
    let bytes := Byte.sysExStart :: (data ++ [Byte.sysExEnd])
    (∀ b ∈ data, b < 0x80) ∧ e.framing = .sysEx (some 0xC1) ∧ e.pending = [0xF0, 0x55] ∧
      e.emissions bytes
        = [none, none, some ⟨0x54, ⟨0xF0, 0x01, 0x02⟩⟩, none, none,
            some ⟨0x54, ⟨0x03, 0x04, 0x05⟩⟩, some ⟨0x55, ⟨0xF7, 0, 0⟩⟩] ∧
      (e.run bytes).pending = [] ∧ (e.run bytes).framing = .running 0xC1 := by
  intro cs data e bytes
  have isData : ∀ b ∈ data, b < 0x80 := by simp [data]
  obtain ⟨hemissions, -, -, -, hpending, hframing, -⟩ :=
    block_cut_in_threes Cable.first cs isData
  refine ⟨isData, rfl, rfl, hemissions.trans ?_, hpending, hframing⟩
  decide

end Encoder

end MidiBridge
