/-
Module: MidiBridge.Proofs.Encoder.Transparency
Purpose: Real-time bytes pass through an encoder and nothing else takes notice. A stream is compared with
  the stream that is left when its real-time bytes are taken out. Both lead to the same encoder, in all of
  its parts, and the bytes that are left complete the same packets at the same places. What comes in
  addition is one packet for each real-time byte, at once, with a code that no other byte gives rise to.
Trusted boundary: none
Main exports: Encoder.transcript, Encoder.View.Completes.code_ne_byte, Encoder.run_others,
  Encoder.transcript_others, Encoder.emission_of_mem_transcript, Encoder.realTime_transparent
-/
import Mathlib.Data.List.Basic
import MidiBridge.Proofs.Encoder.Completion

namespace MidiBridge

namespace Encoder

theorem View.Completes.code_ne_byte {v : View} {b : UInt8} {p : Packet} (h : v.Completes b p)
    (hb : Byte.isRealTime b = false) : p.code ≠ .byte := by
  cases h with
  | realTime hclass =>
      rw [(ByteClass.ofByte_eq_realTime_iff b).1 hclass] at hb
      cases hb
  | single hclass => simp
  | blockEnd rest hclass hrest htwo =>
      rw [Packet.code_carrying]
      have hbyte : CodeIndex.byte.value.toNat = 15 := rfl
      exact CodeIndex.sysExTail_ne (Nat.succ_le_succ htwo) (by omega)
  | blockPart resume hclass hframing htwo => simp
  | message status layout hclass hframing hlayout hlast =>
      -- The packet of a message holds a status and data, which is more than the code for one byte allows.
      rw [Packet.code_carrying]
      intro hcode
      have hlength := Layout.payloadLength_eq hlayout
      have hsome := (Layout.dataLength_bounds hlayout).1
      rw [hcode] at hlength
      simp only [CodeIndex.payloadLength] at hlength
      omega

/-!
### One byte
-/

/-- An encoder takes no notice of a real-time byte, not even in the unused places of its chunk. -/
theorem step_realTime (e : Encoder) {b : UInt8} (hb : Byte.isRealTime b = true) :
    e.step b = { encoder := e, packet? := some (Packet.make e.cable .byte ⟨b, 0, 0⟩) } := by
  have hclass : ByteClass.ofByte b = .realTime := (ByteClass.ofByte_eq_realTime_iff b).2 hb
  simp only [step, hclass]

theorem Sound.code_ne_byte {e : Encoder} (h : e.Sound) {b : UInt8} (hb : Byte.isRealTime b = false)
    {p : Packet} (hp : (e.step b).packet? = some p) : p.code ≠ .byte := by
  have hview : (e.view.step b).packet? = some p := by
    rw [← hp, ← view_step h b]
    rfl
  exact (View.completes_of_packet? h.fits hview).code_ne_byte hb

theorem cable_collect (e : Encoder) (b : UInt8) : (e.collect b).encoder.cable = e.cable := by
  unfold collect
  split
  · rfl
  · dsimp only
    split <;> rfl
  · split
    · split <;> rfl
    · dsimp only
      split <;> rfl

/-- Bytes do not change the cable. -/
theorem cable_step (e : Encoder) (b : UInt8) : (e.step b).encoder.cable = e.cable := by
  unfold step
  split
  · rfl
  · rfl
  · rfl
  · split <;> rfl
  · rfl
  · exact cable_collect e b

/-!
### Streams

A transcript has every byte of a stream beside the packet that it completed, if it completed one. The
statements on packets are read off the transcript.
-/

/-- The bytes of a stream, each with what it completed. -/
def transcript (e : Encoder) (bs : List UInt8) : List (UInt8 × Option Packet) :=
  bs.zip (e.emissions bs)

theorem transcript_cons (e : Encoder) (b : UInt8) (bs : List UInt8) :
    e.transcript (b :: bs) = (b, (e.step b).packet?) :: (e.step b).encoder.transcript bs := rfl

theorem map_fst_transcript (e : Encoder) (bs : List UInt8) :
    (e.transcript bs).map Prod.fst = bs := by
  have hlength : (e.emissions bs).length = bs.length := by
    rw [emissions, List.length_map, length_trace]
  exact List.map_fst_zip (Nat.le_of_eq hlength.symm)

theorem packets_eq_filterMap_transcript (e : Encoder) (bs : List UInt8) :
    e.packets bs = (e.transcript bs).filterMap Prod.snd := by
  induction bs generalizing e with
  | nil => rfl
  | cons b bs ih =>
      have hrest := ih (e.step b).encoder
      rw [transcript_cons, List.filterMap_cons, ← hrest, packets, trace, List.filterMap_cons]
      rfl

theorem View.others_cons_realTime {b : UInt8} (hb : Byte.isRealTime b = true) (bs : List UInt8) :
    others (b :: bs) = others bs := by
  simp [others, hb]

theorem View.others_cons_other {b : UInt8} (hb : Byte.isRealTime b = false) (bs : List UInt8) :
    others (b :: bs) = b :: others bs := by
  simp [others, hb]

theorem run_others (e : Encoder) (bs : List UInt8) : e.run bs = e.run (View.others bs) := by
  induction bs generalizing e with
  | nil => rfl
  | cons b bs ih =>
      cases hb : Byte.isRealTime b with
      | true =>
          rw [View.others_cons_realTime hb, run_cons, step_realTime e hb]
          exact ih e
      | false =>
          rw [View.others_cons_other hb, run_cons, run_cons]
          exact ih (e.step b).encoder

/-- At the other bytes, the two streams complete the same packets. -/
theorem transcript_others (e : Encoder) (bs : List UInt8) :
    (e.transcript bs).filter (fun s => !Byte.isRealTime s.1) = e.transcript (View.others bs) := by
  induction bs generalizing e with
  | nil => rfl
  | cons b bs ih =>
      rw [transcript_cons]
      cases hb : Byte.isRealTime b with
      | true =>
          rw [View.others_cons_realTime hb, List.filter_cons_of_neg (by simp [hb]), step_realTime e hb]
          exact ih e
      | false =>
          have hrest := ih (e.step b).encoder
          rw [View.others_cons_other hb, List.filter_cons_of_pos (by simp [hb]), transcript_cons, hrest]

/-- A real-time byte completes its own packet on the spot, and no other byte completes one with that
    code. -/
theorem emission_of_mem_transcript {e : Encoder} (h : e.Sound) {bs : List UInt8} :
    ∀ s ∈ e.transcript bs,
      (Byte.isRealTime s.1 = true → s.2 = some (Packet.make e.cable .byte ⟨s.1, 0, 0⟩)) ∧
      (Byte.isRealTime s.1 = false → ∀ p ∈ s.2, p.code ≠ .byte) := by
  induction bs generalizing e with
  | nil =>
      intro s hs
      cases hs
  | cons b bs ih =>
      intro s hs
      rw [transcript_cons] at hs
      rcases List.mem_cons.1 hs with hhead | htail
      · rw [hhead]
        constructor
        · intro hb
          rw [step_realTime e hb]
        · intro hb p hp
          exact h.code_ne_byte hb hp
      · have hrest := ih (sound_step h b) s htail
        rw [cable_step] at hrest
        exact hrest

section Packets

variable {e : Encoder} (h : e.Sound) (bs : List UInt8)

include h

theorem filter_packets_others :
    (e.packets bs).filter (fun p => p.code != .byte) = e.packets (View.others bs) := by
  rw [packets_eq_filterMap_transcript, packets_eq_filterMap_transcript, ← transcript_others,
    List.filter_filterMap, List.filterMap_filter]
  apply List.filterMap_congr
  intro s hs
  obtain ⟨hpacket, hother⟩ := emission_of_mem_transcript h s hs
  cases hb : Byte.isRealTime s.1 with
  | true => simp [hpacket hb]
  | false =>
      cases hp : s.2 with
      | none => simp
      | some p => simp [Option.filter, hother hb p hp]

theorem filter_packets_realTime :
    (e.packets bs).filter (fun p => p.code == .byte)
      = (bs.filter Byte.isRealTime).map fun b => Packet.make e.cable .byte ⟨b, 0, 0⟩ := by
  have hbytes : bs.filter Byte.isRealTime
      = ((e.transcript bs).map Prod.fst).filter Byte.isRealTime := by rw [map_fst_transcript]
  rw [hbytes, packets_eq_filterMap_transcript, List.filter_filterMap, List.filter_map, List.map_map,
    ← List.filterMap_eq_map, List.filterMap_filter]
  apply List.filterMap_congr
  intro s hs
  obtain ⟨hpacket, hother⟩ := emission_of_mem_transcript h s hs
  cases hb : Byte.isRealTime s.1 with
  | true => simp [hpacket hb, hb]
  | false =>
      cases hp : s.2 with
      | none => simp [hb]
      | some p => simp [Option.filter, hother hb p hp, hb]

end Packets

/-- An encoder in any state that bytes, resets and cable changes lead to, over a stream and over the
    stream without its real-time bytes. In the end the encoders are equal. The packets with another code
    than that of a single byte are the packets of the second stream, and they come at the same bytes. The
    packets with that code are those of the real-time bytes, in order, each at the step of its byte. -/
theorem realTime_transparent (cable : Cable) (cs : List Command) (bs : List UInt8) :
    let e := (new cable).after cs
    e.run bs = e.run (View.others bs) ∧
      (e.packets bs).filter (fun p => p.code != .byte) = e.packets (View.others bs) ∧
      (e.packets bs).filter (fun p => p.code == .byte)
        = (bs.filter Byte.isRealTime).map (fun b => Packet.make e.cable .byte ⟨b, 0, 0⟩) ∧
      (e.transcript bs).filter (fun s => !Byte.isRealTime s.1) = e.transcript (View.others bs) ∧
      ∀ s ∈ e.transcript bs,
        (Byte.isRealTime s.1 = true → s.2 = some (Packet.make e.cable .byte ⟨s.1, 0, 0⟩)) ∧
        (Byte.isRealTime s.1 = false → ∀ p ∈ s.2, p.code ≠ .byte) := by
  intro e
  have h : e.Sound := sound_after cable cs
  exact ⟨run_others e bs, filter_packets_others h bs, filter_packets_realTime h bs,
    transcript_others e bs, emission_of_mem_transcript h⟩

end Encoder

end MidiBridge
