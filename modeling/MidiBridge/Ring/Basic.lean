/-
Module: MidiBridge.Ring.Basic
Purpose: A bounded first-in first-out buffer in a circular array. Two cursors mark the front item and
  the place behind the last one. One slot is always free, which tells a full ring from an empty one,
  so `n` slots hold at most `n - 1` items. An item that does not fit is refused; nothing is evicted.
  The ring computes the number of its items in machine words; `size` is that number itself, and the two
  agree for every array that fits half of the address space.
Trusted boundary: none
Main exports: Ring, Ring.empty, Ring.count, Ring.size, Ring.capacity, Ring.hasSpaceFor, Ring.peek,
  Ring.advance, Ring.pop, Ring.push, Ring.pushAll, Ring.clear, Ring.drain
-/
import MidiBridge.Ring.Cursor

namespace MidiBridge

/-- A ring of `n` slots with index words of `w` bits. -/
structure Ring (w n : Nat) (α : Type) where
  /-- The slots, the unused ones included. -/
  slots : Vector α n
  front : Ring.Cursor w n
  /-- The place behind the last item. -/
  back : Ring.Cursor w n
  /-- The index word can hold every position. -/
  admits : Ring.Admits w n

namespace Ring

variable {w n : Nat} {α : Type}

def empty [Inhabited α] (h : Admits w n) : Ring w n α :=
  ⟨Vector.replicate n default, Cursor.start h, Cursor.start h, h⟩

def isEmpty (r : Ring w n α) : Bool := r.front.word == r.back.word

def isFull (r : Ring w n α) : Bool := r.front.word == (r.back.next r.admits).word

/-- The number of items as a machine word. -/
def occupied (r : Ring w n α) : UInt64 := distance r.front r.back

/-- The number of items that still fit, as a machine word. -/
def vacant (r : Ring w n α) : UInt64 := UInt64.ofNat n - 1 - r.occupied

/-- The number of items as an index word. -/
def count (r : Ring w n α) : BitVec w := narrow w r.occupied

/-- The number of items: how many steps lead from the front to the back. -/
def size (r : Ring w n α) : Nat := (r.back.word.toNat + n - r.front.word.toNat) % n

/-- The most items that the ring can hold, as an index word. -/
def capacity (_ : Ring w n α) : BitVec w := narrow w (UInt64.ofNat n - 1)

/-- Whether `k` more items fit. -/
def hasSpaceFor (r : Ring w n α) (k : BitVec w) : Bool := widen k ≤ r.vacant

def peek (r : Ring w n α) : Option α :=
  if r.isEmpty then none else some (r.slots.get ⟨r.front.word.toNat, r.front.word_lt⟩)

/-- Drops the front item, if there is one. Its slot keeps it until another item takes the place. -/
def advance (r : Ring w n α) : Ring w n α :=
  if r.isEmpty then r else { r with front := r.front.next r.admits }

def pop (r : Ring w n α) : Option α × Ring w n α :=
  match r.peek with
  | none => (none, r)
  | some x => (some x, r.advance)

/-- Appends an item and says whether there was room for it. Without room the ring stays as it was. -/
def push (r : Ring w n α) (x : α) : Ring w n α × Bool :=
  if r.isFull then (r, false)
  else
    ({ r with
        slots := r.slots.set r.back.word.toNat x r.back.word_lt
        back := r.back.next r.admits }, true)

/-- Appends all of the items if they fit together, and otherwise none. -/
def pushAll (r : Ring w n α) (xs : List α) : Ring w n α × Bool :=
  if r.vacant.toNat < xs.length then (r, false)
  else (xs.foldl (fun r x => (r.push x).1) r, true)

def clear (r : Ring w n α) : Ring w n α := { r with front := r.back }

/-!
### How many items there are

A ring that is not empty gets smaller by an advance, which is what ends the loops that empty one.
-/

/-- The size without the remainder: the difference of the cursors, wrapped once if it is below zero. -/
theorem size_eq (r : Ring w n α) :
    r.size =
      if r.front.word.toNat ≤ r.back.word.toNat then r.back.word.toNat - r.front.word.toNat
      else r.back.word.toNat + n - r.front.word.toNat := by
  have hb := r.back.word_lt
  have hf := r.front.word_lt
  rw [size]
  split
  · have he : r.back.word.toNat + n - r.front.word.toNat
        = r.back.word.toNat - r.front.word.toNat + n := by omega
    rw [he, Nat.add_mod_right]
    exact Nat.mod_eq_of_lt (by omega)
  · exact Nat.mod_eq_of_lt (by omega)

theorem isEmpty_iff_front_eq_back (r : Ring w n α) :
    r.isEmpty = true ↔ r.front.word.toNat = r.back.word.toNat := by
  simp only [isEmpty, beq_iff_eq, BitVec.toNat_inj]

theorem isFull_iff_front_eq_next (r : Ring w n α) :
    r.isFull = true ↔ r.front.word.toNat = (r.back.next r.admits).word.toNat := by
  simp only [isFull, beq_iff_eq, BitVec.toNat_inj]

theorem size_lt (r : Ring w n α) : r.size < n :=
  Nat.mod_lt _ (Nat.zero_lt_of_lt r.front.word_lt)

theorem isEmpty_iff_size (r : Ring w n α) : r.isEmpty = true ↔ r.size = 0 := by
  have hb := r.back.word_lt
  have hf := r.front.word_lt
  rw [isEmpty_iff_front_eq_back, size_eq]
  split <;> omega

theorem isFull_iff_size (r : Ring w n α) : r.isFull = true ↔ r.size = n - 1 := by
  have hb := r.back.word_lt
  have hf := r.front.word_lt
  have hn := r.admits.2.1
  rw [isFull_iff_front_eq_next, size_eq, Cursor.toNat_next_eq r.admits]
  split <;> split <;> omega

/-- Advancing a ring with an item moves the front cursor and nothing else. -/
theorem advance_of_isEmpty_false {r : Ring w n α} (h : r.isEmpty = false) :
    r.advance = { r with front := r.front.next r.admits } := by
  simp only [advance, h, Bool.false_eq_true, if_false]

/-- Pushing to a ring with room writes the slot at the back cursor and moves that cursor. -/
theorem push_of_isFull_false {r : Ring w n α} (h : r.isFull = false) (x : α) :
    r.push x =
      ({ r with
          slots := r.slots.set r.back.word.toNat x r.back.word_lt
          back := r.back.next r.admits }, true) := by
  simp only [push, h, Bool.false_eq_true, if_false]

theorem size_advance {r : Ring w n α} (h : r.isEmpty = false) :
    r.advance.size + 1 = r.size := by
  have hb := r.back.word_lt
  have hf := r.front.word_lt
  have hne : ¬ r.front.word.toNat = r.back.word.toNat := by
    rw [← isEmpty_iff_front_eq_back, h]
    decide
  rw [advance_of_isEmpty_false h, size_eq, size_eq, Cursor.toNat_next_eq r.admits]
  dsimp only
  split <;> split <;> split <;> omega

/-- An item at the front means that the ring is not empty. -/
theorem isEmpty_of_peek {r : Ring w n α} {x : α} (h : r.peek = some x) : r.isEmpty = false := by
  unfold peek at h
  split at h
  · cases h
  · next hne => simpa using hne

theorem size_advance_lt {r : Ring w n α} {x : α} (h : r.peek = some x) :
    r.advance.size < r.size := by
  have := size_advance (isEmpty_of_peek h)
  omega

/-!
### Taking everything out
-/

/-- Takes all items out, front first. -/
def drain (r : Ring w n α) : List α × Ring w n α :=
  match h : r.peek with
  | none => ([], r)
  | some x =>
      have : r.advance.size < r.size := size_advance_lt h
      let rest := drain r.advance
      (x :: rest.1, rest.2)
termination_by r.size

end Ring

end MidiBridge
