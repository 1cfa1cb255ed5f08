/-
Module: MidiBridge.Encoder.Basic
Purpose: The encoder from a serial stream to event packets. It takes one byte at a time and collects
  the bytes of a message, or of the next three bytes of a System Exclusive block, until a packet is
  complete. It never fails: a byte that fits nowhere is discarded.
Trusted boundary: none
Main exports: Encoder, Encoder.new, Encoder.pending, Encoder.step, Encoder.reset, Encoder.setCable,
  Encoder.Discard, Encoder.Outcome
-/
import MidiBridge.Byte
import MidiBridge.Hex
import MidiBridge.Packet
import MidiBridge.Encoder.Framing
import MidiBridge.Encoder.Layout

namespace MidiBridge

/-- An encoder for one cable. Equality of encoders sees the unused places of the chunk as well. -/
structure Encoder where
  /-- The cable of the packets to come. -/
  cable : Cable
  /-- Where the stream stands. -/
  framing : Framing
  /-- The bytes collected towards the next packet, without a running status byte. -/
  chunk : Chunk
deriving DecidableEq, Repr, Inhabited

namespace Encoder

/-- Bytes that were received and went into no packet, with the reason. -/
inductive Discard where
  /-- A data byte before any status byte. -/
  | withoutStatus (byte : UInt8)
  /-- A data byte under an undefined status, after three others. -/
  | undefinedMessage (byte status : UInt8)
  /-- Three data bytes under an undefined status, when the end of a block arrives. -/
  | beforeSysExEnd (pending : List UInt8)
deriving DecidableEq, Repr, Inhabited

def Discard.message : Discard → String
  | .withoutStatus byte => "Discarding data byte " ++ Hex.marked byte ++ " without status"
  | .undefinedMessage byte status =>
      "Discarding data byte " ++ Hex.marked byte ++ " of undefined message " ++ Hex.marked status
  | .beforeSysExEnd pending =>
      "Discarding pending bytes " ++ Hex.list pending ++ " before SysEx end"

/-- What one byte leads to. -/
structure Outcome where
  encoder : Encoder
  packet? : Option Packet := none
  /-- What the byte caused to be dropped. -/
  discard? : Option Discard := none
deriving DecidableEq, Repr, Inhabited

def new (cable : Cable) : Encoder := ⟨cable, .idle, .empty⟩

/-- The bytes collected so far towards the next packet. -/
def pending (e : Encoder) : List UInt8 := e.chunk.toList

/-- Forgets the running status and the bytes collected so far. The cable stays. -/
def reset (e : Encoder) : Encoder := { e with framing := .idle, chunk := e.chunk.clear }

/-- Chooses the cable of the packets to come, the one being collected included. -/
def setCable (e : Encoder) (cable : Cable) : Encoder := { e with cable := cable }

/-!
### One byte

A byte is treated by its class. Data bytes are collected by `collect`, whose cases follow the framing
state; `finishSysEx` turns the rest of a block into its last packet.
-/

/-- Ends a block: `tail` are its last bytes, the closing one included. -/
def finishSysEx (e : Encoder) (tail : Chunk) (discard? : Option Discard) : Outcome :=
  { encoder := { e with framing := e.framing.closeSysEx, chunk := tail.clear }
    packet? := some (Packet.make e.cable (CodeIndex.sysExTail tail.count) tail.padded)
    discard? := discard? }

/-- A data byte. Before any status it is dropped. In a block every third byte fills a packet. Under a
    running status the layout says how many bytes complete a message; without a layout, three bytes
    are kept and the others dropped. -/
def collect (e : Encoder) (b : UInt8) : Outcome :=
  match e.framing with
  | .idle => { encoder := { e with chunk := e.chunk.clear }, discard? := some (.withoutStatus b) }
  | .sysEx _ =>
      let chunk := (e.chunk.push b).1
      if chunk.count < Triple.size then
        { encoder := { e with chunk := chunk } }
      else
        { encoder := { e with chunk := chunk.clear }
          packet? := some (Packet.make e.cable .sysExStart chunk.padded) }
  | .running status =>
      match Layout.ofStatus? status with
      | none =>
          match e.chunk.push b with
          | (chunk, true) => { encoder := { e with chunk := chunk } }
          | (_, false) => { encoder := e, discard? := some (.undefinedMessage b status) }
      | some layout =>
          let chunk := (e.chunk.push b).1
          if chunk.count < layout.dataLength then
            { encoder := { e with chunk := chunk } }
          else
            { encoder := { e with chunk := chunk.clear }
              packet? := some (Packet.make e.cable layout.code
                ⟨status, chunk.padded.first, chunk.padded.second⟩) }

/-- Takes the next byte of the stream. -/
def step (e : Encoder) (b : UInt8) : Outcome :=
  match ByteClass.ofByte b with
  | .realTime => { encoder := e, packet? := some (Packet.make e.cable .byte ⟨b, 0, 0⟩) }
  | .singleCommon =>
      { encoder := { e with chunk := e.chunk.clear }
        packet? := some (Packet.make e.cable .singleByte ⟨b, 0, 0⟩) }
  | .sysExStart =>
      { encoder :=
          { e with framing := e.framing.openSysEx, chunk := (e.chunk.clear.push b).1 } }
  | .sysExEnd =>
      match e.chunk.push b with
      | (tail, true) => e.finishSysEx tail none
      | (_, false) =>
          e.finishSysEx (e.chunk.clear.push b).1 (some (.beforeSysExEnd e.pending))
  | .status =>
      { encoder := { e with framing := e.framing.withStatus b, chunk := e.chunk.clear } }
  | .data => e.collect b

@[simp] theorem pending_new (cable : Cable) : (new cable).pending = [] := rfl

@[simp] theorem pending_reset (e : Encoder) : e.reset.pending = [] := rfl

@[simp] theorem cable_reset (e : Encoder) : e.reset.cable = e.cable := rfl

end Encoder

end MidiBridge
