/-
Module: MidiBridge.Ring.Cursor
Purpose: Positions in a circular array of `n` slots, held in an index word of `w` bits. The arithmetic
  is done in 64-bit machine words and cut back to the index word. Stepping from a position to the next is
  exact for every admitted slot count. The distance of two positions adds the slot count to one of them, and
  is exact for every array that fits half of the address space; beyond that the sum can overflow.
Trusted boundary: none
Main exports: Ring.Admits, Ring.Addressable, Ring.widen, Ring.narrow, Ring.Cursor, Ring.Cursor.start,
  Ring.Cursor.next, Ring.distance, Ring.Cursor.toNat_next, Ring.toNat_distance
-/
namespace MidiBridge.Ring

/-- The slot counts that a ring with index words of `w` bits admits: there are at least two slots, and
    every position fits the index word. A slot count is itself a machine word, and an index word is not
    longer than one. -/
def Admits (w n : Nat) : Prop := w ≤ 64 ∧ 2 ≤ n ∧ n - 1 < Nat.pow 2 w ∧ n < Nat.pow 2 64

instance (w n : Nat) : Decidable (Admits w n) := inferInstanceAs (Decidable (_ ∧ _))

/-- So many slots fit an array if its items have a size, however small: it takes up no more than half of
    the address space. Items without a size take up nothing, so a ring of them may have more slots. -/
def Addressable (n : Nat) : Prop := n ≤ Nat.pow 2 63

instance : DecidablePred Addressable := fun n => inferInstanceAs (Decidable (n ≤ _))

/-- An index word that is shorter than a machine word has no more positions than that. -/
theorem Admits.addressable {w n : Nat} (h : Admits w n) (hw : w ≤ 63) : Addressable n := by
  have hpositions : n - 1 < 2 ^ w := h.2.2.1
  have hword : 2 ^ w ≤ 2 ^ 63 := Nat.pow_le_pow_right (by decide) hw
  show n ≤ 2 ^ 63
  omega

/-- An index word as a machine word. -/
def widen {w : Nat} (x : BitVec w) : UInt64 := UInt64.ofNat x.toNat

/-- A machine word cut back to an index word. -/
def narrow (w : Nat) (x : UInt64) : BitVec w := BitVec.ofNat w x.toNat

/-!
### Words and numbers
-/

/-- Widening keeps the number, because an index word has at most 64 bits. -/
theorem toNat_widen {w n : Nat} (h : Admits w n) (x : BitVec w) : (widen x).toNat = x.toNat := by
  have hx : x.toNat < 2 ^ w := x.isLt
  have hw : 2 ^ w ≤ 2 ^ 64 := Nat.pow_le_pow_right (by decide) h.1
  simp only [widen, UInt64.toNat_ofNat']
  omega

/-- Narrowing keeps the number of a word below the slot count. -/
theorem toNat_narrow {w n : Nat} (h : Admits w n) {x : UInt64} (hx : x.toNat < n) :
    (narrow w x).toNat = x.toNat := by
  have hpositions : n - 1 < 2 ^ w := h.2.2.1
  simp only [narrow, BitVec.toNat_ofNat]
  exact Nat.mod_eq_of_lt (by omega)

theorem toNat_slotCount {w n : Nat} (h : Admits w n) : (UInt64.ofNat n).toNat = n := by
  have hn : n < 2 ^ 64 := h.2.2.2
  simp only [UInt64.toNat_ofNat']
  omega

/-!
### Cursors
-/

/-- A position in an array of `n` slots. -/
structure Cursor (w n : Nat) where
  word : BitVec w
  word_lt : word.toNat < n
deriving DecidableEq, Repr

def Cursor.start {w n : Nat} (h : Admits w n) : Cursor w n :=
  ⟨0#w, by have := h.2.1; simp only [BitVec.toNat_ofNat, Nat.zero_mod]; omega⟩

/-- The position behind another, before wrapping, as a machine word modulo the slot count. -/
def nextWord {w : Nat} (n : Nat) (x : BitVec w) : UInt64 := (widen x + 1) % UInt64.ofNat n

/-- The slot count is a machine word, so a position can be increased by one. -/
theorem toNat_widen_add_one {w n : Nat} (h : Admits w n) {x : BitVec w} (hx : x.toNat < n) :
    (widen x + 1).toNat = x.toNat + 1 := by
  have hn : n < 2 ^ 64 := h.2.2.2
  rw [UInt64.toNat_add, toNat_widen h]
  simp only [UInt64.reduceToNat]
  omega

/-- Stepping does not wrap at the machine word: it is addition modulo the slot count. -/
theorem toNat_nextWord {w n : Nat} (h : Admits w n) {x : BitVec w} (hx : x.toNat < n) :
    (nextWord n x).toNat = (x.toNat + 1) % n := by
  rw [nextWord, UInt64.toNat_mod, toNat_slotCount h, toNat_widen_add_one h hx]

theorem nextWord_lt {w n : Nat} (h : Admits w n) {x : BitVec w} (hx : x.toNat < n) :
    (nextWord n x).toNat < n := by
  rw [toNat_nextWord h hx]
  exact Nat.mod_lt _ (Nat.zero_lt_of_lt hx)

/-- The position behind a cursor; behind the last comes the first. -/
def Cursor.next {w n : Nat} (h : Admits w n) (c : Cursor w n) : Cursor w n :=
  ⟨narrow w (nextWord n c.word), by
    rw [toNat_narrow h (nextWord_lt h c.word_lt)]
    exact nextWord_lt h c.word_lt⟩

theorem Cursor.toNat_next {w n : Nat} (h : Admits w n) (c : Cursor w n) :
    (c.next h).word.toNat = (c.word.toNat + 1) % n := by
  show (narrow w (nextWord n c.word)).toNat = _
  rw [toNat_narrow h (nextWord_lt h c.word_lt), toNat_nextWord h c.word_lt]

@[ext] theorem Cursor.ext {w n : Nat} {a b : Cursor w n} (h : a.word.toNat = b.word.toNat) :
    a = b := by
  cases a; cases b
  simp only [Cursor.mk.injEq]
  exact BitVec.eq_of_toNat_eq h

/-- How many steps lead from one cursor to another, as a machine word. The slot count is added first, so
    that the difference is not below zero. If there are too many slots for an array of items with a size,
    the sum may be too great for a machine word, and wraps. -/
def distance {w n : Nat} (front back : Cursor w n) : UInt64 :=
  (widen back.word + UInt64.ofNat n - widen front.word) % UInt64.ofNat n

section Addressable

variable {w n : Nat} (h : Admits w n) (hn : Addressable n)

include h hn

/-- The first word of the distance does not wrap. -/
theorem toNat_widen_add_slotCount (back : Cursor w n) :
    (widen back.word + UInt64.ofNat n).toNat = back.word.toNat + n := by
  have hhalf : n ≤ 2 ^ 63 := hn
  have hback := back.word_lt
  rw [UInt64.toNat_add, toNat_widen h, toNat_slotCount h]
  omega

/-- Neither does the second one: the slot count makes up for the front cursor. -/
theorem toNat_difference (front back : Cursor w n) :
    (widen back.word + UInt64.ofNat n - widen front.word).toNat
      = back.word.toNat + n - front.word.toNat := by
  have hfront := front.word_lt
  have hsum := toNat_widen_add_slotCount h hn back
  rw [UInt64.toNat_sub_of_le, hsum, toNat_widen h]
  rw [UInt64.le_iff_toNat_le, hsum, toNat_widen h]
  omega

theorem toNat_distance (front back : Cursor w n) :
    (distance front back).toNat = (back.word.toNat + n - front.word.toNat) % n := by
  rw [distance, UInt64.toNat_mod, toNat_slotCount h, toNat_difference h hn]

end Addressable

/-- If the sum is one more than the greatest machine word, then it wraps to zero, and the distance from the
    start of the array comes out as zero. -/
theorem distance_of_wrap {w n : Nat} (h : Admits w n) {front back : Cursor w n}
    (hfront : front.word.toNat = 0) (hback : back.word.toNat + n = Nat.pow 2 64) :
    distance front back = 0 := by
  have hsum : widen back.word + UInt64.ofNat n = 0 := by
    rw [← UInt64.toNat_inj, UInt64.toNat_add, toNat_widen h, toNat_slotCount h, hback]
    rfl
  have hzero : widen front.word = 0 := by
    rw [widen, hfront]
    rfl
  rw [distance, hsum, hzero]
  exact UInt64.zero_mod

theorem Cursor.toNat_next_eq {w n : Nat} (h : Admits w n) (c : Cursor w n) :
    (c.next h).word.toNat = if c.word.toNat + 1 = n then 0 else c.word.toNat + 1 := by
  have hc := c.word_lt
  rw [Cursor.toNat_next h]
  split
  · next he => rw [he, Nat.mod_self]
  · exact Nat.mod_eq_of_lt (by omega)

end MidiBridge.Ring
