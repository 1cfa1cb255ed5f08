/-
Module: MidiBridge.Proofs.Message
Purpose: Complete MIDI messages, and the two forms in which they travel. On the serial side a message is
  its bytes, where a status byte may be left out if the same one was the last of its kind, and nothing
  is left out inside a block. On the USB side a message is its packets: one packet for a message of
  fixed length, and for a System Exclusive block one packet for every three bytes. The grammar is
  written without the encoder's own tables, so that it can be compared with them.
Trusted boundary: human-reviewed spec
Main exports: Message, Message.bytes, Message.packets, Message.Written, Packet.block,
  Message.stream_packets, Layout.ofStatus?_of_introduces
-/
import MidiBridge.Encoder.Layout
import MidiBridge.Proofs.Packet.Carrying

namespace MidiBridge

/-- The status bytes that introduce a message with data bytes: those of the channel messages, and of
    quarter frame, song position and song select. -/
def Byte.Introduces (status : UInt8) : Prop :=
  (0x80 ≤ status ∧ status ≤ 0xEF) ∨ (0xF1 ≤ status ∧ status ≤ 0xF3)

instance (status : UInt8) : Decidable (Byte.Introduces status) :=
  inferInstanceAs (Decidable (_ ∨ _))

/-- How many data bytes follow a status byte: one for program change, channel pressure, quarter frame
    and song select, and two for the others. -/
def Byte.dataCount (status : UInt8) : Nat :=
  if (0xC0 ≤ status ∧ status ≤ 0xDF) ∨ status = 0xF1 ∨ status = 0xF3 then 1 else 2

/-- The code of the packet of a message: the high half of a channel status, and otherwise one of the
    two codes of system common messages, by their length. -/
def CodeIndex.ofStatus (status : UInt8) : CodeIndex :=
  if status ≤ 0xEF then ofNibble (status >>> 4)
  else if status = 0xF2 then .systemCommon3
  else .systemCommon2

/-- A complete MIDI message. -/
inductive Message where
  /-- A channel message, or a system common message with data. -/
  | short (status : UInt8) (data : List UInt8) (introduces : Byte.Introduces status)
      (complete : data.length = Byte.dataCount status) (isData : ∀ b ∈ data, b < 0x80)
  /-- A system common message of one byte. -/
  | single (b : UInt8) (common : 0xF4 ≤ b ∧ b ≤ 0xF6)
  | realTime (b : UInt8) (clock : b = 0xF8 ∨ (0xFA ≤ b ∧ b ≤ 0xFC) ∨ 0xFE ≤ b)
  /-- A System Exclusive block with any number of data bytes. -/
  | sysEx (body : List UInt8) (isData : ∀ b ∈ body, b < 0x80)

namespace Packet

/-- The packets of a System Exclusive block, given with its first and last byte: three bytes each, and
    in the last packet the one to three bytes that are left. -/
def block (cable : Cable) : List UInt8 → List Packet
  | [] => []
  | [a] => [carrying cable .singleByte [a]]
  | [a, b] => [carrying cable .sysExEnd2 [a, b]]
  | [a, b, c] => [carrying cable .sysExEnd3 [a, b, c]]
  | a :: b :: c :: rest => carrying cable .sysExStart [a, b, c] :: block cable rest

/-- Behind a full packet the block goes on with what is left. -/
theorem block_of_more (cable : Cable) (a b c : UInt8) {rest : List UInt8} (h : rest ≠ []) :
    block cable (a :: b :: c :: rest) = carrying cable .sysExStart [a, b, c] :: block cable rest := by
  cases rest with
  | nil => exact absurd rfl h
  | cons x xs => rfl

@[simp] theorem stream_nil : stream [] = [] := rfl

@[simp] theorem stream_cons (p : Packet) (ps : List Packet) :
    stream (p :: ps) = p.payload ++ stream ps := by
  rw [stream, List.flatMap_cons, toList_decode]
  rfl

theorem stream_append (ps qs : List Packet) : stream (ps ++ qs) = stream ps ++ stream qs :=
  List.flatMap_append

/-- The packets of a block carry the bytes of the block. -/
theorem stream_block (cable : Cable) (bytes : List UInt8) : stream (block cable bytes) = bytes := by
  fun_induction block cable bytes with
  | case1 => rfl
  | case2 a =>
      rw [stream_cons, payload_carrying cable rfl]
      rfl
  | case3 a b =>
      rw [stream_cons, payload_carrying cable rfl]
      rfl
  | case4 a b c =>
      rw [stream_cons, payload_carrying cable rfl]
      rfl
  | case5 a b c rest hrest ih =>
      rw [stream_cons, payload_carrying cable rfl, ih]
      rfl

end Packet

namespace Message

/-- The bytes of a message, its status written out. -/
def bytes : Message → List UInt8
  | .short status data _ _ _ => status :: data
  | .single b _ => [b]
  | .realTime b _ => [b]
  | .sysEx body _ => Byte.sysExStart :: (body ++ [Byte.sysExEnd])

def packets (cable : Cable) : Message → List Packet
  | .short status data _ _ _ =>
      [Packet.carrying cable (CodeIndex.ofStatus status) (status :: data)]
  | .single b _ => [Packet.carrying cable .singleByte [b]]
  | .realTime b _ => [Packet.carrying cable .byte [b]]
  | .sysEx body _ => Packet.block cable (Byte.sysExStart :: (body ++ [Byte.sysExEnd]))

/-- `Written last ms bytes`: the bytes are a serial form of the messages where `last` is the status that
    came last. A status may be written, and it may be left out if it came last; blocks and messages of
    one byte in between do not matter. Real-time messages are not part of this form, because their
    bytes may stand anywhere, also inside the form of another message. -/
inductive Written : Option UInt8 → List Message → List UInt8 → Prop where
  | nil {last} : Written last [] []
  | withStatus {last status data introduces complete isData ms bs} :
      Written (some status) ms bs →
      Written last (.short status data introduces complete isData :: ms) (status :: (data ++ bs))
  | elided {status data introduces complete isData ms bs} :
      Written (some status) ms bs →
      Written (some status) (.short status data introduces complete isData :: ms) (data ++ bs)
  | single {last b common ms bs} :
      Written last ms bs → Written last (.single b common :: ms) (b :: bs)
  | sysEx {last body isData ms bs} :
      Written last ms bs →
      Written last (.sysEx body isData :: ms)
        (Byte.sysExStart :: (body ++ Byte.sysExEnd :: bs))

end Message

/-!
### The grammar and the tables

What the grammar says about a status byte is what the encoder's tables say about it.
-/

theorem Layout.ofStatus?_of_introduces {status : UInt8} (h : Byte.Introduces status) :
    Layout.ofStatus? status = some ⟨CodeIndex.ofStatus status, Byte.dataCount status⟩ := by
  revert status
  rw [Byte.forall_iff]
  decide

theorem ByteClass.ofByte_of_introduces {status : UInt8} (h : Byte.Introduces status) :
    ByteClass.ofByte status = .status := by
  revert status
  rw [Byte.forall_iff]
  decide

theorem ByteClass.ofByte_eq_singleCommon_iff (b : UInt8) :
    ByteClass.ofByte b = .singleCommon ↔ 0xF4 ≤ b ∧ b ≤ 0xF6 := by
  revert b
  rw [Byte.forall_iff]
  decide

/-- The real-time bytes, one by one. -/
theorem Byte.isRealTime_iff (b : UInt8) :
    Byte.isRealTime b = true ↔ b = 0xF8 ∨ (0xFA ≤ b ∧ b ≤ 0xFC) ∨ 0xFE ≤ b := by
  revert b
  rw [Byte.forall_iff]
  decide

theorem CodeIndex.payloadLength_ofStatus {status : UInt8} (h : Byte.Introduces status) :
    (CodeIndex.ofStatus status).payloadLength = Byte.dataCount status + 1 :=
  Layout.payloadLength_eq (Layout.ofStatus?_of_introduces h)

namespace Message

theorem payload_short (cable : Cable) {status : UInt8} {data : List UInt8}
    (introduces : Byte.Introduces status) (complete : data.length = Byte.dataCount status) :
    (Packet.carrying cable (CodeIndex.ofStatus status) (status :: data)).payload
      = status :: data := by
  apply Packet.payload_carrying
  rw [CodeIndex.payloadLength_ofStatus introduces, List.length_cons, complete]

/-- The packets of a message carry the bytes of the message. -/
theorem stream_packets (cable : Cable) (m : Message) : Packet.stream (m.packets cable) = m.bytes := by
  cases m with
  | short status data introduces complete isData =>
      rw [packets, Packet.stream_cons, payload_short cable introduces complete]
      exact List.append_nil (status :: data)
  | single b common =>
      rw [packets, Packet.stream_cons, Packet.payload_carrying cable rfl]
      rfl
  | realTime b clock =>
      rw [packets, Packet.stream_cons, Packet.payload_carrying cable rfl]
      rfl
  | sysEx body isData => exact Packet.stream_block cable _

theorem stream_flatMap_packets (cable : Cable) (ms : List Message) :
    Packet.stream (ms.flatMap (packets cable)) = ms.flatMap bytes := by
  induction ms with
  | nil => rfl
  | cons m ms ih =>
      rw [List.flatMap_cons, List.flatMap_cons, Packet.stream_append, ih, stream_packets]

end Message

end MidiBridge
