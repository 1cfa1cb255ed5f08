/-
Module: MidiBridge.Proofs.Encoder.RoundTrip
Purpose: A serial stream of complete messages survives the way through packets. The encoder finds
  every message again, also where its status byte was left out, and so the bytes of the packets are
  the messages with all status bytes written out. The induction runs over the serial form of the
  messages. Between two messages nothing is pending and no block is open, and the running status is the
  last one that the form has seen. Real-time bytes are taken out first, which changes nothing for
  the others.
Trusted boundary: none
Main exports: Encoder.View.packets_written, Encoder.View.run_written,
  Encoder.stream_packets_of_written
-/
import MidiBridge.Proofs.Encoder.Completion
import MidiBridge.Proofs.Encoder.Gathering

namespace MidiBridge

theorem ByteClass.ofByte_of_isData {bytes : List UInt8} (h : ∀ b ∈ bytes, b < 0x80) :
    ∀ b ∈ bytes, ByteClass.ofByte b = .data :=
  fun b hb => (ByteClass.ofByte_eq_data_iff b).2 (h b hb)

namespace Encoder

namespace View

/-- The data bytes of a message complete its packet under the running status. -/
theorem yields_message (cable : Cable) {status : UInt8} {data : List UInt8}
    (introduces : Byte.Introduces status) (complete : data.length = Byte.dataCount status)
    (isData : ∀ b ∈ data, b < 0x80) :
    Yields ⟨cable, .running status, []⟩ data
      (Packet.carrying cable (CodeIndex.ofStatus status) (status :: data))
      ⟨cable, .running status, []⟩ := by
  have hlayout := Layout.ofStatus?_of_introduces introduces
  have hpos : 1 ≤ Byte.dataCount status := (Layout.dataLength_bounds hlayout).1
  have hne : data ≠ [] := by
    intro hnil
    rw [hnil] at complete
    rw [← complete] at hpos
    cases hpos
  have hgathers : Gathers ⟨cable, .running status, []⟩ (Byte.dataCount status) _ :=
    gathers_running rfl hlayout
  apply hgathers.yields hne (ByteClass.ofByte_of_isData isData)
  rw [← complete]
  exact Nat.zero_add data.length

theorem step_status (cable : Cable) (last : Option UInt8) (bytes : List UInt8) {status : UInt8}
    (h : ByteClass.ofByte status = .status) :
    step ⟨cable, Framing.outside last, bytes⟩ status
      = { view := ⟨cable, .running status, []⟩ } := by
  cases last <;> simp only [step, h] <;> rfl

/-- The messages of a written stream become their packets, one message after the other. -/
theorem packets_written (cable : Cable) {last : Option UInt8} {ms : List Message}
    {bs : List UInt8} (h : Message.Written last ms bs) :
    packets ⟨cable, Framing.outside last, []⟩ bs = ms.flatMap (Message.packets cable) ∧
      ∃ last', run ⟨cable, Framing.outside last, []⟩ bs = ⟨cable, Framing.outside last', []⟩ := by
  induction h with
  | nil => exact ⟨rfl, _, rfl⟩
  | @withStatus last status data introduces complete isData ms bs hrest ih =>
      have hstatus := step_status cable last [] (ByteClass.ofByte_of_introduces introduces)
      have hyields := (yields_message cable introduces complete isData).cons hstatus
      rw [← List.cons_append, packets_append, run_append, hyields.packets_eq, hyields.run_eq]
      exact ⟨congrArg _ ih.1, ih.2⟩
  | @elided status data introduces complete isData ms bs hrest ih =>
      have hyields : Yields ⟨cable, Framing.outside (some status), []⟩ data _ _ :=
        yields_message cable introduces complete isData
      rw [packets_append, run_append, hyields.packets_eq, hyields.run_eq]
      exact ⟨congrArg _ ih.1, ih.2⟩
  | @single last b common ms bs hrest ih =>
      have hclass : ByteClass.ofByte b = .singleCommon :=
        (ByteClass.ofByte_eq_singleCommon_iff b).2 common
      have hstep : step ⟨cable, Framing.outside last, []⟩ b
          = ⟨⟨cable, Framing.outside last, []⟩,
              some (Packet.carrying cable .singleByte [b]), none⟩ := by
        simp only [step, hclass]
      have hyields := yields_of_step hstep
      rw [← List.singleton_append, packets_append, run_append, hyields.packets_eq, hyields.run_eq]
      exact ⟨congrArg _ ih.1, ih.2⟩
  | @sysEx last body isData ms bs hrest ih =>
      have hstart : step ⟨cable, Framing.outside last, []⟩ Byte.sysExStart
          = { view := ⟨cable, .sysEx last, [Byte.sysExStart]⟩ } := by
        rw [step_sysExStart]
        simp only [Framing.openSysEx, Framing.status?_outside]
      have hone : [Byte.sysExStart].length ≤ 2 := Nat.le_succ 1
      have hblock := packets_block cable last (ByteClass.ofByte_of_isData isData) hone
      have hsplit : body ++ Byte.sysExEnd :: bs = (body ++ [Byte.sysExEnd]) ++ bs := by
        rw [List.append_assoc, List.singleton_append]
      constructor
      · rw [packets_cons_none hstart, hsplit, packets_append, hblock.1, hblock.2, ih.1]
        rfl
      · rw [run_cons, hstart, hsplit, run_append, hblock.2]
        exact ih.2

end View

/-- The way of a serial stream through packets. The stream without its real-time bytes is a serial form
    of complete messages. Then the bytes of the packets are, without the real-time bytes, all messages
    with their status bytes; the real-time bytes are those of the stream, in order; and at the
    end nothing is pending and no block is open. -/
theorem stream_packets_of_written (cable : Cable) {ms : List Message} {bs : List UInt8}
    (h : Message.Written none ms (bs.filter fun b => !Byte.isRealTime b)) :
    (Packet.stream ((new cable).packets bs)).filter (fun b => !Byte.isRealTime b)
        = ms.flatMap Message.bytes ∧
      (Packet.stream ((new cable).packets bs)).filter Byte.isRealTime
        = bs.filter Byte.isRealTime ∧
      ((new cable).run bs).pending = [] ∧ ((new cable).run bs).framing.isSysEx = false := by
  have hsound := sound_new cable
  have hfits : (new cable).view.framing.Fits (new cable).view.pending := hsound.fits
  have hdecoded : Packet.stream ((new cable).packets bs) = (new cable).view.decoded bs := by
    rw [packets_eq hsound]
    rfl
  obtain ⟨hpackets, last, hrun⟩ := View.packets_written cable h
  have hmessages : (new cable).view.decoded (View.others bs) = ms.flatMap Message.bytes := by
    rw [← Message.stream_flatMap_packets cable, ← hpackets]
    rfl
  have hview : ((new cable).run bs).view = ⟨cable, Framing.outside last, []⟩ := by
    rw [view_run hsound, ← View.run_others]
    exact hrun
  rw [hdecoded]
  refine ⟨?_, View.filter_decoded hfits bs, congrArg View.pending hview, ?_⟩
  · rw [← hmessages, ← View.others_decoded_others hfits]
    exact View.others_decoded (new cable).view bs
  · have hframing : ((new cable).run bs).framing = Framing.outside last :=
      congrArg View.framing hview
    rw [hframing, Framing.isSysEx_outside]

/-- A note, a block, the same note status left out after the block, and a tune request, with three
    real-time bytes inside the messages. -/
theorem stream_packets_of_elided_status :
    let bs := [0x90, 0xF8, 0x40, 0x7F, 0xF0, 0x01, 0xFE, 0x02, 0xF7, 0x41, 0xFA, 0x00, 0xF6]
    let ms :=
      [Message.short 0x90 [0x40, 0x7F] (by decide) (by decide) (by simp),
        Message.sysEx [0x01, 0x02] (by simp),
        Message.short 0x90 [0x41, 0x00] (by decide) (by decide) (by simp),
        Message.single 0xF6 (by decide)]
    Message.Written none ms (bs.filter fun b => !Byte.isRealTime b) ∧
      (Packet.stream ((new Cable.first).packets bs)).filter (fun b => !Byte.isRealTime b)
        = [0x90, 0x40, 0x7F, 0xF0, 0x01, 0x02, 0xF7, 0x90, 0x41, 0x00, 0xF6] ∧
      (Packet.stream ((new Cable.first).packets bs)).filter Byte.isRealTime = [0xF8, 0xFE, 0xFA] ∧
      ((new Cable.first).run bs).pending = [] ∧
      ((new Cable.first).run bs).framing.isSysEx = false := by
  intro bs ms
  have hwritten : Message.Written none ms (bs.filter fun b => !Byte.isRealTime b) := by
    have hothers : (bs.filter fun b => !Byte.isRealTime b)
        = [0x90, 0x40, 0x7F, 0xF0, 0x01, 0x02, 0xF7, 0x41, 0x00, 0xF6] := by decide
    rw [hothers]
    apply Message.Written.withStatus
    apply Message.Written.sysEx
    apply Message.Written.elided
    apply Message.Written.single
    exact Message.Written.nil
  exact ⟨hwritten, stream_packets_of_written Cable.first hwritten⟩

end Encoder

end MidiBridge
