/-
Module: MidiBridge.Packet
Purpose: USB-MIDI event packets. A packet is a header byte, with the cable in its high half and the
  code index number in its low half, and three data bytes. The code says how many of the data bytes
  are the payload; the others are padding and mean nothing.
Trusted boundary: none
Main exports: Packet, Packet.make, Packet.cable, Packet.code, Packet.payload, Packet.decode,
  Packet.bytes, Packet.toList_decode
-/
import MidiBridge.Cable
import MidiBridge.CodeIndex
import MidiBridge.Chunk

namespace MidiBridge

/-- An event packet as it travels over USB. -/
structure Packet where
  /-- The cable (high half) and the code index number (low half). -/
  header : UInt8
  /-- The payload and the padding behind it. -/
  data : Triple
deriving DecidableEq, Repr, Inhabited

namespace Packet

/-- The number of bytes of a packet. -/
def size : Nat := 4

/-- The packet of a cable and a code with these data bytes. -/
def make (cable : Cable) (code : CodeIndex) (data : Triple) : Packet :=
  ⟨(cable.number <<< 4) ||| code.value, data⟩

/-- The cable in the header. -/
def cable (p : Packet) : Cable := Cable.ofNibble (p.header >>> 4)

/-- The code index number in the header. -/
def code (p : Packet) : CodeIndex := CodeIndex.ofNibble p.header

/-- How many of the data bytes are payload. -/
def payloadLength (p : Packet) : Nat := p.code.payloadLength

/-- The data bytes that carry meaning. -/
def payload (p : Packet) : List UInt8 := p.data.toList.take p.payloadLength

/-- The serial bytes of a packet, as a chunk without the packet's padding. A packet with a reserved
    code has none. -/
def decode (p : Packet) : Chunk := Chunk.ofPadded p.data p.payloadLength

/-- All four bytes in the order of transmission. -/
def bytes (p : Packet) : List UInt8 := p.header :: p.data.toList

/-- The serial bytes of a packet are its payload. -/
@[simp] theorem toList_decode (p : Packet) : p.decode.toList = p.payload :=
  Chunk.toList_ofPadded p.data p.payloadLength

/-- A packet has as many payload bytes as its code says. -/
theorem length_payload (p : Packet) : p.payload.length = p.payloadLength := by
  have h : p.payloadLength ≤ 3 := CodeIndex.payloadLength_le p.code
  simp only [payload, Triple.toList, List.length_take, List.length_cons, List.length_nil]
  omega

end Packet

/-- The serial stream that a list of packets carries. -/
def Packet.stream (ps : List Packet) : List UInt8 := ps.flatMap fun p => p.decode.toList

end MidiBridge
