/-
Module: MidiBridge.Proofs.Encoder.Invariant
Purpose: The representation invariant of the encoder and what it is good for. Whatever bytes, resets
  and cable changes an encoder has seen, the bytes it holds fit its framing. It follows that the pushes
  whose refusal goes unnoticed are never refused, that no slice of the chunk reaches past its third
  place, that a message is complete with exactly the data bytes of its layout, and that bytes are thrown
  away before the end of a block only under the two undefined status bytes.
Trusted boundary: none
Main exports: ByteClass.ofByte_eq_status_iff, Encoder.ChunkUse, Encoder.Sound.chunkUse,
  Encoder.fits_and_chunkUse_after
-/
import MidiBridge.Proofs.Encoder.View

namespace MidiBridge

/-- The status bytes proper: those of the channel messages, of the three system common messages with
    data, and the two undefined ones beside the real-time bytes. -/
theorem ByteClass.ofByte_eq_status_iff (b : UInt8) :
    ByteClass.ofByte b = .status ↔
      (0x80 ≤ b ∧ b ≤ 0xEF) ∨ (0xF1 ≤ b ∧ b ≤ 0xF3) ∨ b = 0xF9 ∨ b = 0xFD := by
  revert b
  rw [Byte.forall_iff]
  decide

theorem Layout.undefined_of_ofStatus?_eq_none {status : UInt8}
    (hclass : ByteClass.ofByte status = .status) (hnone : Layout.ofStatus? status = none) :
    status = 0xF9 ∨ status = 0xFD := by
  revert status
  rw [Byte.forall_iff]
  decide

namespace Encoder

/-- How an encoder may rely on its chunk. -/
structure ChunkUse (e : Encoder) : Prop where
  /-- The pending bytes are a slice of the three places. -/
  slice_le : e.chunk.count ≤ 3
  /-- In a block every push finds a place, and what is taken out then is a slice of the places. -/
  block_push : ∀ (resume : Option UInt8) (b : UInt8), e.framing = .sysEx resume →
    (e.chunk.push b).2 = true ∧ (e.chunk.push b).1.count ≤ 3
  /-- In a message with a layout every push finds a place and none exceeds the layout. -/
  message_push : ∀ (status : UInt8) (layout : Layout) (b : UInt8), e.framing = .running status →
    Layout.ofStatus? status = some layout →
    (e.chunk.push b).2 = true ∧ (e.chunk.push b).1.count ≤ layout.dataLength
  /-- A message that is complete holds its status and as many data bytes as its layout says. -/
  message_complete : ∀ (status : UInt8) (layout : Layout) (b : UInt8) (p : Packet),
    e.framing = .running status → Layout.ofStatus? status = some layout →
    ByteClass.ofByte b = .data → (e.step b).packet? = some p →
    (e.chunk.push b).1.count = layout.dataLength ∧ p.payload = status :: (e.pending ++ [b])
  /-- The last packet of a block has one to three bytes: those pending, unless they leave no place, and
      the closing one. -/
  block_end : ∀ b : UInt8, ByteClass.ofByte b = .sysExEnd →
    ∃ (tail : Chunk) (discard? : Option Discard), e.step b = e.finishSysEx tail discard? ∧
      tail.toList = (if e.pending.length < 3 then e.pending ++ [b] else [b]) ∧
      1 ≤ tail.count ∧ tail.count ≤ 3
  /-- The closing byte finds no place exactly after three data bytes of an undefined message. -/
  block_end_full : ∀ b : UInt8, ByteClass.ofByte b = .sysExEnd →
    ((e.chunk.push b).2 = false ↔
      (e.framing = .running 0xF9 ∨ e.framing = .running 0xFD) ∧ e.pending.length = 3)

/-- Bytes that fit fill all three places only under an undefined status. -/
theorem Sound.undefined_of_full {e : Encoder} (h : e.Sound) (hfull : e.pending.length = 3) :
    e.framing = .running 0xF9 ∨ e.framing = .running 0xFD := by
  have hfits := h.fits
  cases hframing : e.framing with
  | idle =>
      rw [hframing] at hfits
      have hnil : e.pending = [] := hfits
      rw [hnil] at hfull
      cases hfull
  | sysEx resume =>
      rw [hframing] at hfits
      have htwo : e.pending.length ≤ 2 := hfits.2.1
      omega
  | running status =>
      rw [hframing] at hfits
      rcases hfits with ⟨hstatus, -, hcount⟩
      cases hlayout : Layout.ofStatus? status with
      | none =>
          rcases Layout.undefined_of_ofStatus?_eq_none hstatus hlayout with rfl | rfl
          · exact Or.inl rfl
          · exact Or.inr rfl
      | some layout =>
          rw [hlayout] at hcount
          have hfew : e.pending.length < layout.dataLength := hcount
          have hbounds := Layout.dataLength_bounds hlayout
          omega

/-- The packet that completes a message carries the status and all data bytes, and comes with the last
    of them. -/
theorem Sound.message_complete {e : Encoder} (h : e.Sound) {status : UInt8} {layout : Layout}
    {b : UInt8} {p : Packet} (hframing : e.framing = .running status)
    (hlayout : Layout.ofStatus? status = some layout) (hdata : ByteClass.ofByte b = .data)
    (hpacket : (e.step b).packet? = some p) :
    e.pending.length + 1 = layout.dataLength ∧ p.payload = status :: (e.pending ++ [b]) := by
  have hcount := h.count_lt_dataLength hframing hlayout
  have hlength := h.length_pending
  have hview : (e.view.step b).packet? = some p := by
    rw [← hpacket, ← view_step h b]
    rfl
  simp only [View.step, View.collect, view, hdata, hframing, hlayout] at hview
  by_cases hshort : e.pending.length + 1 < layout.dataLength
  · rw [View.gather, if_pos hshort] at hview
    cases hview
  · rw [View.gather, if_neg hshort] at hview
    cases hview
    have hlast : e.pending.length + 1 = layout.dataLength := by omega
    refine ⟨hlast, Packet.payload_carrying e.cable ?_⟩
    rw [Layout.payloadLength_eq hlayout, ← hlast, List.length_cons, List.length_append,
      List.length_singleton]

theorem Sound.block_end {e : Encoder} (h : e.Sound) {b : UInt8}
    (hb : ByteClass.ofByte b = .sysExEnd) :
    ∃ (tail : Chunk) (discard? : Option Discard), e.step b = e.finishSysEx tail discard? ∧
      tail.toList = (if e.pending.length < 3 then e.pending ++ [b] else [b]) ∧
      1 ≤ tail.count ∧ tail.count ≤ 3 := by
  have hlength := h.length_pending
  by_cases hroom : e.chunk.count < 3
  · obtain ⟨tail, hpush, hcount, hlist⟩ := Chunk.push_room hroom b
    refine ⟨tail, none, ?_, ?_, ?_, ?_⟩
    · simp only [step, hb, hpush]
    · rw [hlist, if_pos (hlength.symm ▸ hroom)]
      rfl
    · omega
    · omega
  · have hclear : e.chunk.clear.count < 3 := Nat.zero_lt_succ 2
    obtain ⟨tail, hpush, hcount, hlist⟩ := Chunk.push_room hclear b
    have hone : tail.count = 1 := hcount
    refine ⟨tail, some (.beforeSysExEnd e.pending), ?_, ?_, ?_, ?_⟩
    · simp only [step, hb, Chunk.push_full hroom, hpush]
    · rw [hlist, if_neg (hlength.symm ▸ hroom)]
      rfl
    · omega
    · omega

theorem Sound.chunkUse {e : Encoder} (h : e.Sound) : e.ChunkUse := by
  have hlength := h.length_pending
  constructor
  case slice_le => exact h.count_le
  case block_push =>
    intro resume b hframing
    have hroom := h.room_of_sysEx hframing
    obtain ⟨chunk, hpush, hmore, -⟩ := Chunk.push_room hroom b
    rw [hpush]
    refine ⟨rfl, ?_⟩
    rw [hmore]
    exact hroom
  case message_push =>
    intro status layout b hframing hlayout
    obtain ⟨chunk, hpush, hmore, -⟩ := Chunk.push_room (h.room_of_layout hframing hlayout) b
    rw [hpush]
    refine ⟨rfl, ?_⟩
    rw [hmore]
    exact h.count_lt_dataLength hframing hlayout
  case message_complete =>
    intro status layout b p hframing hlayout hdata hpacket
    obtain ⟨hlast, hpayload⟩ := h.message_complete hframing hlayout hdata hpacket
    obtain ⟨chunk, hpush, hmore, -⟩ := Chunk.push_room (h.room_of_layout hframing hlayout) b
    rw [hpush]
    refine ⟨?_, hpayload⟩
    rw [hmore, ← hlength]
    exact hlast
  case block_end =>
    intro b hb
    exact h.block_end hb
  case block_end_full =>
    intro b hb
    constructor
    · intro hpush
      have hfull : ¬ e.chunk.count < 3 := by
        rw [← Chunk.push_accepted_iff e.chunk b, hpush]
        decide
      have hthree : e.pending.length = 3 := by
        have hle := h.count_le
        omega
      exact ⟨h.undefined_of_full hthree, hthree⟩
    · rintro ⟨-, hthree⟩
      have hfull : ¬ e.chunk.count < 3 := by
        rw [← hlength, hthree]
        exact Nat.lt_irrefl 3
      rw [Chunk.push_full hfull]

/-- After any bytes, resets and cable changes the pending bytes fit the framing, and the chunk is used
    as it may be. -/
theorem fits_and_chunkUse_after (cable : Cable) (cs : List Command) :
    ((new cable).after cs).framing.Fits ((new cable).after cs).pending ∧
      ((new cable).after cs).ChunkUse := by
  have hsound := sound_after cable cs
  exact ⟨hsound.fits, hsound.chunkUse⟩

end Encoder

end MidiBridge
