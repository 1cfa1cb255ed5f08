/-
Module: MidiBridge.CodeIndex
Purpose: The sixteen code index numbers. A code stands in the low half of a packet header and says
  what the packet carries, and with it how many of its three data bytes mean anything.
Trusted boundary: none
Main exports: CodeIndex, CodeIndex.value, CodeIndex.ofNibble, CodeIndex.ofByte?,
  CodeIndex.Reserved, CodeIndex.payloadLength, CodeIndex.sysExTail, CodeIndex.ofNibble_value,
  CodeIndex.value_sysExTail, CodeIndex.sysExTail_ne
-/
namespace MidiBridge

/-- A code index number, in the order of the values 0 to 15. -/
inductive CodeIndex where
  | miscellaneous
  | cableEvent
  /-- A system common message of two bytes. -/
  | systemCommon2
  /-- A system common message of three bytes. -/
  | systemCommon3
  /-- A System Exclusive block starts or goes on. -/
  | sysExStart
  /-- A system common message of one byte, or the end of a System Exclusive block in one byte. -/
  | singleByte
  /-- A System Exclusive block ends with two bytes. -/
  | sysExEnd2
  /-- A System Exclusive block ends with three bytes. -/
  | sysExEnd3
  | noteOff
  | noteOn
  | polyKeyPressure
  | controlChange
  | programChange
  | channelPressure
  | pitchBendChange
  /-- A single byte that is passed on without interpretation. -/
  | byte
deriving DecidableEq, Repr, Inhabited

namespace CodeIndex

/-- All codes, in the order of their values. -/
def all : List CodeIndex :=
  [.miscellaneous, .cableEvent, .systemCommon2, .systemCommon3, .sysExStart, .singleByte,
    .sysExEnd2, .sysExEnd3, .noteOff, .noteOn, .polyKeyPressure, .controlChange, .programChange,
    .channelPressure, .pitchBendChange, .byte]

/-- The value of a code, below sixteen. -/
def value : CodeIndex → UInt8
  | .miscellaneous => 0x0
  | .cableEvent => 0x1
  | .systemCommon2 => 0x2
  | .systemCommon3 => 0x3
  | .sysExStart => 0x4
  | .singleByte => 0x5
  | .sysExEnd2 => 0x6
  | .sysExEnd3 => 0x7
  | .noteOff => 0x8
  | .noteOn => 0x9
  | .polyKeyPressure => 0xA
  | .controlChange => 0xB
  | .programChange => 0xC
  | .channelPressure => 0xD
  | .pitchBendChange => 0xE
  | .byte => 0xF

def name : CodeIndex → String
  | .miscellaneous => "Miscellaneous"
  | .cableEvent => "CableEvent"
  | .systemCommon2 => "SystemCommon2"
  | .systemCommon3 => "SystemCommon3"
  | .sysExStart => "SysExStart"
  | .singleByte => "SingleByte"
  | .sysExEnd2 => "SysExEnd2"
  | .sysExEnd3 => "SysExEnd3"
  | .noteOff => "NoteOff"
  | .noteOn => "NoteOn"
  | .polyKeyPressure => "PolyKeyPressure"
  | .controlChange => "ControlChange"
  | .programChange => "ProgramChange"
  | .channelPressure => "ChannelPressure"
  | .pitchBendChange => "PitchBendChange"
  | .byte => "Byte"

/-- The code in the low half of a byte; the high half is ignored. -/
def ofNibble (b : UInt8) : CodeIndex :=
  match b.toNat % 16 with
  | 0x0 => .miscellaneous
  | 0x1 => .cableEvent
  | 0x2 => .systemCommon2
  | 0x3 => .systemCommon3
  | 0x4 => .sysExStart
  | 0x5 => .singleByte
  | 0x6 => .sysExEnd2
  | 0x7 => .sysExEnd3
  | 0x8 => .noteOff
  | 0x9 => .noteOn
  | 0xA => .polyKeyPressure
  | 0xB => .controlChange
  | 0xC => .programChange
  | 0xD => .channelPressure
  | 0xE => .pitchBendChange
  | _ => .byte

/-- The code whose value is this byte, if there is one. -/
def ofByte? (b : UInt8) : Option CodeIndex :=
  if b ≤ 0x0F then some (ofNibble b) else none

/-- The codes that are kept for extensions to come. -/
def Reserved (code : CodeIndex) : Prop := code = .miscellaneous ∨ code = .cableEvent

instance : DecidablePred Reserved := fun _ => inferInstanceAs (Decidable (_ ∨ _))

/-- How many data bytes of a packet with this code carry meaning. The reserved codes carry none. -/
def payloadLength : CodeIndex → Nat
  | .miscellaneous | .cableEvent => 0
  | .singleByte | .byte => 1
  | .systemCommon2 | .sysExEnd2 | .programChange | .channelPressure => 2
  | .systemCommon3 | .sysExStart | .sysExEnd3 | .noteOff | .noteOn | .polyKeyPressure
  | .controlChange | .pitchBendChange => 3

/-- The code of the packet that ends a System Exclusive block, where the packet holds `length` bytes
    and the closing one is among them. The three codes follow that of a full, unfinished packet. -/
def sysExTail (length : Nat) : CodeIndex := ofNibble (sysExStart.value + UInt8.ofNat length)

@[simp] theorem ofNibble_value (code : CodeIndex) : ofNibble code.value = code := by
  cases code <;> rfl

/-- The code of the last packet of a block is four and the number of its bytes. -/
theorem value_sysExTail {length : Nat} (h : length ≤ 3) :
    (sysExTail length).value = 0x4 + UInt8.ofNat length := by
  match length, h with
  | 0, _ | 1, _ | 2, _ | 3, _ => rfl

theorem toNat_value_sysExTail {length : Nat} (h : length ≤ 3) :
    (sysExTail length).value.toNat = 4 + length := by
  have hfour : (0x4 : UInt8).toNat = 4 := rfl
  rw [value_sysExTail h, UInt8.toNat_add, UInt8.toNat_ofNat', hfour]
  omega

/-- A code with another value is not the code of such a packet. -/
theorem sysExTail_ne {length : Nat} (h : length ≤ 3) {code : CodeIndex}
    (hcode : code.value.toNat ≠ 4 + length) : sysExTail length ≠ code := by
  rintro rfl
  exact hcode (toNat_value_sysExTail h)

/-- All bytes of such a packet carry meaning. -/
theorem payloadLength_sysExTail {length : Nat} (hpos : 1 ≤ length) (hle : length ≤ 3) :
    (sysExTail length).payloadLength = length := by
  match length, hpos, hle with
  | 1, _, _ | 2, _, _ | 3, _, _ => rfl

theorem payloadLength_eq_zero_iff (code : CodeIndex) : code.payloadLength = 0 ↔ code.Reserved := by
  cases code <;> decide

/-- No packet has more than three meaningful data bytes. -/
theorem payloadLength_le (code : CodeIndex) : code.payloadLength ≤ 3 := by
  cases code <;> decide

end CodeIndex

end MidiBridge
