/-
Module: MidiBridge.Hex
Purpose: Bytes as hexadecimal text, in the two forms that the log uses: one byte with a `0x` marker,
  and a bracketed list of bytes.
Trusted boundary: none
Main exports: Hex.digits, Hex.marked, Hex.list
-/
namespace MidiBridge.Hex

/-- A byte as two lower-case digits, high half first. -/
def digits (b : UInt8) : String :=
  String.ofList [Nat.digitChar (b.toNat / 16), Nat.digitChar (b.toNat % 16)]

/-- A byte as two digits behind the marker `0x`. -/
def marked (b : UInt8) : String := "0x" ++ digits b

/-- Bytes as two digits each, separated by a comma and a blank and enclosed in brackets. -/
def list (bs : List UInt8) : String := "[" ++ String.intercalate ", " (bs.map digits) ++ "]"

/-- Both digits are written, also for small bytes. -/
example : list [0x90, 0x04, 0x7F] = "[90, 04, 7f]" := by rfl

/-- No bytes are an empty pair of brackets. -/
example : list [] = "[]" := by rfl

example : marked 0x01 = "0x01" := by decide

end MidiBridge.Hex
