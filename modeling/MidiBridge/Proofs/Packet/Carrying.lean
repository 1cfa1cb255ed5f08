/-
Module: MidiBridge.Proofs.Packet.Carrying
Purpose: Packets read as what they carry. A packet with zero padding is given by its cable, its code
  and the list of its payload bytes, and nothing else is in it: `carrying` builds the packet from the
  three, and `eq_carrying` takes every such packet apart again. The two halves of the header do not
  touch each other.
Trusted boundary: none
Main exports: Triple.ofList, Packet.carrying, Packet.payload_carrying, Packet.eq_carrying,
  Chunk.padded_eq_ofList
-/
import MidiBridge.Byte
import MidiBridge.Packet

namespace MidiBridge

/-- Three places filled from the front. The places that the list does not reach are zero. -/
def Triple.ofList : List UInt8 → Triple
  | [] => Triple.zero
  | [a] => ⟨a, 0, 0⟩
  | [a, b] => ⟨a, b, 0⟩
  | a :: b :: c :: _ => ⟨a, b, c⟩

/-- The packet that carries these bytes and no others. -/
def Packet.carrying (cable : Cable) (code : CodeIndex) (bytes : List UInt8) : Packet :=
  Packet.make cable code (Triple.ofList bytes)

theorem Triple.take_ofList {bytes : List UInt8} (h : bytes.length ≤ 3) :
    (Triple.ofList bytes).toList.take bytes.length = bytes := by
  match bytes, h with
  | [], _ => rfl
  | [_], _ => rfl
  | [_, _], _ => rfl
  | [_, _, _], _ => rfl

theorem Triple.ofList_cons (a : UInt8) {bytes : List UInt8} (h : bytes.length ≤ 2) :
    Triple.ofList (a :: bytes)
      = ⟨a, (Triple.ofList bytes).first, (Triple.ofList bytes).second⟩ := by
  match bytes, h with
  | [], _ => rfl
  | [_], _ => rfl
  | [_, _], _ => rfl

/-- Padding a chunk forgets the stale places: only the bytes in use are left. -/
theorem Chunk.padded_eq_ofList {c : Chunk} (h : c.count ≤ 3) :
    c.padded = Triple.ofList c.toList := by
  rcases c with ⟨⟨x, y, z⟩, n⟩
  match n, h with
  | 0, _ => rfl
  | 1, _ => rfl
  | 2, _ => rfl
  | 3, _ => rfl

/-!
### The header

The cable fills the high half and the code the low half. There are 256 headers, and each fact about
the halves is checked on all of them.
-/

theorem CodeIndex.value_le (code : CodeIndex) : code.value ≤ 0x0F := by
  cases code <;> decide

theorem Byte.high_of_halves {high low : UInt8} (hh : high ≤ 0x0F) (hl : low ≤ 0x0F) :
    ((high <<< 4 ||| low) >>> 4) &&& 0x0F = high := by
  have halves : ∀ i j : Fin 16,
      ((UInt8.ofNat i.val <<< 4 ||| UInt8.ofNat j.val) >>> 4) &&& 0x0F = UInt8.ofNat i.val := by
    decide
  have hi : high.toNat < 16 := Nat.lt_succ_of_le (UInt8.le_iff_toNat_le.1 hh)
  have hj : low.toNat < 16 := Nat.lt_succ_of_le (UInt8.le_iff_toNat_le.1 hl)
  simpa using halves ⟨high.toNat, hi⟩ ⟨low.toNat, hj⟩

theorem Byte.low_of_halves {high low : UInt8} (hh : high ≤ 0x0F) (hl : low ≤ 0x0F) :
    CodeIndex.ofNibble (high <<< 4 ||| low) = CodeIndex.ofNibble low := by
  have halves : ∀ i j : Fin 16,
      CodeIndex.ofNibble (UInt8.ofNat i.val <<< 4 ||| UInt8.ofNat j.val)
        = CodeIndex.ofNibble (UInt8.ofNat j.val) := by
    decide
  have hi : high.toNat < 16 := Nat.lt_succ_of_le (UInt8.le_iff_toNat_le.1 hh)
  have hj : low.toNat < 16 := Nat.lt_succ_of_le (UInt8.le_iff_toNat_le.1 hl)
  simpa using halves ⟨high.toNat, hi⟩ ⟨low.toNat, hj⟩

/-- A header is nothing but its two halves. -/
theorem Byte.halves_eq (header : UInt8) :
    ((header >>> 4) &&& 0x0F) <<< 4 ||| (CodeIndex.ofNibble header).value = header := by
  revert header
  rw [Byte.forall_iff]
  decide

namespace Packet

@[simp] theorem cable_make (cable : Cable) (code : CodeIndex) (data : Triple) :
    (make cable code data).cable = cable := by
  apply Cable.ext
  exact Byte.high_of_halves cable.number_le code.value_le

@[simp] theorem code_make (cable : Cable) (code : CodeIndex) (data : Triple) :
    (make cable code data).code = code := by
  have low : (make cable code data).code = CodeIndex.ofNibble code.value :=
    Byte.low_of_halves cable.number_le code.value_le
  rw [low, CodeIndex.ofNibble_value]

theorem make_cable_code (p : Packet) : make p.cable p.code p.data = p := by
  rcases p with ⟨header, data⟩
  have hheader : (make (cable ⟨header, data⟩) (code ⟨header, data⟩) data).header = header :=
    Byte.halves_eq header
  exact congrArg (fun h => Packet.mk h data) hheader

@[simp] theorem cable_carrying (cable : Cable) (code : CodeIndex) (bytes : List UInt8) :
    (carrying cable code bytes).cable = cable :=
  cable_make cable code (Triple.ofList bytes)

@[simp] theorem code_carrying (cable : Cable) (code : CodeIndex) (bytes : List UInt8) :
    (carrying cable code bytes).code = code :=
  code_make cable code (Triple.ofList bytes)

/-- If the code fits the number of bytes, the payload is the bytes. -/
theorem payload_carrying (cable : Cable) {code : CodeIndex} {bytes : List UInt8}
    (h : bytes.length = code.payloadLength) :
    (carrying cable code bytes).payload = bytes := by
  have hle : bytes.length ≤ 3 := h ▸ CodeIndex.payloadLength_le code
  have hlength : (carrying cable code bytes).payloadLength = bytes.length := by
    rw [payloadLength, code_carrying, h]
  rw [payload, hlength]
  exact Triple.take_ofList hle

/-- A packet with zero padding carries its payload and nothing else. -/
theorem eq_carrying {p : Packet} (h : p.data = Triple.ofList p.payload) :
    p = carrying p.cable p.code p.payload := by
  rw [carrying, ← h, make_cable_code]

end Packet

end MidiBridge
