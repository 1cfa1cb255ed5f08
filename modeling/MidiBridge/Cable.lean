/-
Module: MidiBridge.Cable
Purpose: The number of a virtual cable. Sixteen cables share one USB interface, so a cable number is
  a value that fits the four bits a packet header has for it.
Trusted boundary: none
Main exports: Cable, Cable.ofByte?, Cable.ofNibble, Cable.ofByte, CableError, CableError.message,
  Cable.ofByte?_eq_none_iff
-/
namespace MidiBridge

/-- A virtual cable, numbered 0 to 15. -/
structure Cable where
  /-- The number as it stands in the high half of a packet header. -/
  number : UInt8
  number_le : number ≤ 0x0F := by decide
deriving DecidableEq, Repr

/-- Why a byte is no cable number. -/
inductive CableError where
  | outOfRange (value : UInt8)
deriving DecidableEq, Repr, Inhabited

def CableError.message : CableError → String
  | .outOfRange value =>
      "invalid cable number " ++ toString value.toNat ++ " (expected 0..=15)"

example :
    (CableError.outOfRange 16).message = "invalid cable number 16 (expected 0..=15)" := by decide

namespace Cable

/-- The first cable, which is also the one in use when none is chosen. -/
def first : Cable := { number := 0 }

def last : Cable := { number := 0x0F }

instance : Inhabited Cable := ⟨first⟩

/-- The cable of this number, if there is one. -/
def ofByte? (value : UInt8) : Option Cable :=
  if h : value ≤ 0x0F then some ⟨value, h⟩ else none

/-- The cable of this number, or the reason why there is none. -/
def ofByte (value : UInt8) : Except CableError Cable :=
  match ofByte? value with
  | some cable => .ok cable
  | none => .error (.outOfRange value)

theorem and_nibble_le (value : UInt8) : value &&& 0x0F ≤ 0x0F := by
  rw [UInt8.le_iff_toNat_le, UInt8.toNat_and]
  exact Nat.and_le_right

/-- The cable in the low half of a byte; the high half is ignored. -/
def ofNibble (value : UInt8) : Cable := ⟨value &&& 0x0F, and_nibble_le value⟩

def text (cable : Cable) : String := toString cable.number.toNat

/-- Cables are ordered by their numbers. -/
instance : Ord Cable where
  compare a b := compare a.number b.number

instance : LT Cable := ltOfOrd

instance : LE Cable := leOfOrd

instance : Max Cable := maxOfLe

instance : Min Cable := minOfLe

/-- A byte is refused exactly if it is above fifteen. -/
theorem ofByte?_eq_none_iff (value : UInt8) : ofByte? value = none ↔ 0x0F < value := by
  unfold ofByte?
  split
  · next h => simp [UInt8.not_lt.2 h]
  · next h => simp [UInt8.not_le.1 h]

@[ext] theorem ext {a b : Cable} (h : a.number = b.number) : a = b := by
  cases a; cases b; cases h; rfl

end Cable

end MidiBridge
