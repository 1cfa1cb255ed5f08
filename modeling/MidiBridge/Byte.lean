/-
Module: MidiBridge.Byte
Purpose: The bytes of a serial MIDI stream, sorted into the six classes that framing has to tell
  apart. A byte below `0x80` is data; every other byte is a status byte of some kind, and the kinds
  are disjoint, so a byte has exactly one class.
Trusted boundary: none
Main exports: Byte.isStatus, Byte.isRealTime, Byte.isSingleCommon, Byte.isSysExStart,
  Byte.isSysExEnd, ByteClass, ByteClass.ofByte, ByteClass.ofByte_eq_data_iff
-/
namespace MidiBridge

namespace Byte

/-- The status byte that opens a System Exclusive block. -/
def sysExStart : UInt8 := 0xF0

/-- The status byte that closes a System Exclusive block. -/
def sysExEnd : UInt8 := 0xF7

/-- The real-time byte sent 24 times per quarter note. -/
def timingClock : UInt8 := 0xF8

def isStatus (b : UInt8) : Bool := b &&& 0x80 != 0

/-- Clock, start, continue, stop, active sensing and reset. The undefined bytes `0xF9` and `0xFD`
    lie between them and are left out. -/
def isRealTime (b : UInt8) : Bool := b == timingClock || (0xFA ≤ b && b != 0xFD)

/-- Tune request and the two undefined bytes before it: system common messages of one byte. -/
def isSingleCommon (b : UInt8) : Bool := 0xF4 ≤ b && b ≤ 0xF6

def isSysExStart (b : UInt8) : Bool := b == sysExStart

def isSysExEnd (b : UInt8) : Bool := b == sysExEnd

end Byte

/-- What a byte means for the framing of a serial stream. -/
inductive ByteClass where
  /-- A one-byte message that may stand anywhere, even inside another message. -/
  | realTime
  /-- A one-byte system common message. -/
  | singleCommon
  | sysExStart
  | sysExEnd
  /-- Any other byte with its high bit set, the undefined ones included. -/
  | status
  /-- A byte below `0x80`. -/
  | data
deriving DecidableEq, Repr, Inhabited

/-- The class of a byte. The tests are tried in this order; each is written without the ones before
    it, and the order is what separates the status bytes proper from the special ones. -/
def ByteClass.ofByte (b : UInt8) : ByteClass :=
  if !Byte.isStatus b then .data
  else if Byte.isRealTime b then .realTime
  else if Byte.isSingleCommon b then .singleCommon
  else if Byte.isSysExStart b then .sysExStart
  else if Byte.isSysExEnd b then .sysExEnd
  else .status

/-!
### Bytes one at a time

A statement about every byte is a statement about 256 cases; the kernel checks it over the eight-bit
vectors, and `Byte.forall_iff` carries the result back to bytes.
-/

/-- A property of all bytes is a property of all eight-bit vectors. -/
theorem Byte.forall_iff {P : UInt8 → Prop} :
    (∀ b : UInt8, P b) ↔ ∀ v : BitVec 8, P (UInt8.ofBitVec v) :=
  ⟨fun h v => h (UInt8.ofBitVec v), fun h b => by simpa using h b.toBitVec⟩

/-- The data bytes are the bytes below `0x80`. -/
theorem ByteClass.ofByte_eq_data_iff (b : UInt8) : ByteClass.ofByte b = .data ↔ b < 0x80 := by
  revert b
  rw [Byte.forall_iff]
  decide

/-- The real-time bytes are exactly those that `Byte.isRealTime` names: the test before it in the
    order of classes never hides one. -/
theorem ByteClass.ofByte_eq_realTime_iff (b : UInt8) :
    ByteClass.ofByte b = .realTime ↔ Byte.isRealTime b = true := by
  revert b
  rw [Byte.forall_iff]
  decide

end MidiBridge
