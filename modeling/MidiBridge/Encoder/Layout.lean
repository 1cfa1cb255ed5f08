/-
Module: MidiBridge.Encoder.Layout
Purpose: The layout of the messages that a running status introduces: the code index number of their
  packet and the number of data bytes behind the status byte. The undefined status bytes have none.
Trusted boundary: none
Main exports: Layout, Layout.ofStatus?, Layout.payloadLength_eq
-/
import MidiBridge.CodeIndex

namespace MidiBridge

/-- How a message is laid out. -/
structure Layout where
  code : CodeIndex
  dataLength : Nat
deriving DecidableEq, Repr, Inhabited

/-- The layout of the messages with this status byte. Channel messages are told apart by the high
    half of the byte; of the system common messages, quarter frame and song select carry one data
    byte and song position carries two. -/
def Layout.ofStatus? (status : UInt8) : Option Layout :=
  match status.toNat / 16 with
  | 0x8 => some ⟨.noteOff, 2⟩
  | 0x9 => some ⟨.noteOn, 2⟩
  | 0xA => some ⟨.polyKeyPressure, 2⟩
  | 0xB => some ⟨.controlChange, 2⟩
  | 0xC => some ⟨.programChange, 1⟩
  | 0xD => some ⟨.channelPressure, 1⟩
  | 0xE => some ⟨.pitchBendChange, 2⟩
  | 0xF =>
      match status.toNat % 16 with
      | 0x1 => some ⟨.systemCommon2, 1⟩
      | 0x2 => some ⟨.systemCommon3, 2⟩
      | 0x3 => some ⟨.systemCommon2, 1⟩
      | _ => none
  | _ => none

/-- The packet of a message holds the status byte and the data bytes, and nothing else. -/
theorem Layout.payloadLength_eq {status : UInt8} {layout : Layout}
    (h : Layout.ofStatus? status = some layout) :
    layout.code.payloadLength = layout.dataLength + 1 := by
  unfold Layout.ofStatus? at h
  split at h <;> first | (cases h; rfl) | skip
  · split at h <;> cases h <;> rfl
  · cases h

/-- A message carries one or two data bytes. -/
theorem Layout.dataLength_bounds {status : UInt8} {layout : Layout}
    (h : Layout.ofStatus? status = some layout) :
    1 ≤ layout.dataLength ∧ layout.dataLength ≤ 2 := by
  unfold Layout.ofStatus? at h
  split at h <;> first | (cases h; decide) | skip
  · split at h <;> cases h <;> decide
  · cases h

end MidiBridge
