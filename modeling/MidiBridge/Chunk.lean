/-
Module: MidiBridge.Chunk
Purpose: Up to three bytes, stored in three fixed places. A `Triple` is the three places; a `Chunk`
  adds how many of them, from the front, are in use. The places behind the used ones keep whatever
  was written there last, and equality of chunks sees them.
Trusted boundary: none
Main exports: Triple, Triple.keep, Chunk, Chunk.toList, Chunk.push, Chunk.clear, Chunk.padded,
  Chunk.ofPadded, Chunk.toList_push
-/
namespace MidiBridge

/-- Three bytes. -/
structure Triple where
  first : UInt8
  second : UInt8
  third : UInt8
deriving DecidableEq, Repr, Inhabited

namespace Triple

def zero : Triple := ⟨0, 0, 0⟩

def size : Nat := 3

/-- The bytes from first to third. -/
def toList (t : Triple) : List UInt8 := [t.first, t.second, t.third]

/-- Writes a byte to the place with this index; an index beyond the last place changes nothing. -/
def set (t : Triple) (index : Nat) (b : UInt8) : Triple :=
  match index with
  | 0 => { t with first := b }
  | 1 => { t with second := b }
  | 2 => { t with third := b }
  | _ => t

/-- Keeps the first `count` bytes and writes zero to the places behind them. -/
def keep (t : Triple) (count : Nat) : Triple :=
  ⟨if 0 < count then t.first else 0, if 1 < count then t.second else 0,
    if 2 < count then t.third else 0⟩

end Triple

/-- Three places of which the first `count` are in use. -/
structure Chunk where
  /-- The places, the unused ones included. -/
  places : Triple
  count : Nat
deriving DecidableEq, Repr, Inhabited

namespace Chunk

/-- No place is in use and all are zero. -/
def empty : Chunk := ⟨Triple.zero, 0⟩

/-- The bytes in use, in the order in which they were pushed. -/
def toList (c : Chunk) : List UInt8 := c.places.toList.take c.count

/-- Writes a byte behind those in use and says whether there was a free place for it. Without one the
    chunk stays as it was. -/
def push (c : Chunk) (b : UInt8) : Chunk × Bool :=
  if c.count < Triple.size then (⟨c.places.set c.count b, c.count + 1⟩, true) else (c, false)

/-- Frees all places without writing to them. -/
def clear (c : Chunk) : Chunk := { c with count := 0 }

/-- The bytes in use, followed by zeros. -/
def padded (c : Chunk) : Triple := c.places.keep c.count

/-- The first `count` of three bytes as a chunk whose unused places are zero. -/
def ofPadded (t : Triple) (count : Nat) : Chunk := ⟨t.keep count, count⟩

/-!
### The bytes in use

`toList` is the view of a chunk; each operation has one equation through it.
-/

@[simp] theorem toList_empty : empty.toList = [] := rfl

@[simp] theorem toList_clear (c : Chunk) : c.clear.toList = [] := rfl

theorem toList_push {c : Chunk} (h : c.count < 3) (b : UInt8) :
    (c.push b).1.toList = c.toList ++ [b] := by
  obtain ⟨⟨x, y, z⟩, n⟩ := c
  match n, h with
  | 0, _ => rfl
  | 1, _ => rfl
  | 2, _ => rfl

theorem push_accepted_iff (c : Chunk) (b : UInt8) : (c.push b).2 = true ↔ c.count < 3 := by
  unfold push Triple.size
  split <;> simp_all

/-- As many bytes are in use as the count says, as long as it does not exceed the places. -/
theorem length_toList {c : Chunk} (h : c.count ≤ 3) : c.toList.length = c.count := by
  simp only [toList, Triple.toList, List.length_take, List.length_cons, List.length_nil]
  omega

@[simp] theorem toList_ofPadded (t : Triple) (count : Nat) :
    (ofPadded t count).toList = t.toList.take count := by
  match count with
  | 0 => rfl
  | 1 => rfl
  | 2 => rfl
  | n + 3 => simp [ofPadded, toList, Triple.keep, Triple.toList]

end Chunk

end MidiBridge
