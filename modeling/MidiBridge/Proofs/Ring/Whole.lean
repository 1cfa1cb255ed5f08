/-
Module: MidiBridge.Proofs.Ring.Whole
Purpose: The effect of `push`, `pushAll` and `pop` on the list of items. Items pushed together are appended
  together if the free places suffice for all of them; otherwise the ring stays as it was. The free
  places are counted in machine words, where nothing wraps if the slots fit half of the address space.
  Pushing and popping a single item needs no count.
Trusted boundary: none
Main exports: Ring.addressable, Ring.toNat_usable, Ring.toNat_count, Ring.toNat_vacant,
  Ring.push_of_room, Ring.pushAll_of_room, Ring.pushAll_of_lack, Ring.toList_of_peek,
  Ring.pop_eq_head?, Ring.toList_pop, Ring.toList_eq_pop
-/
import MidiBridge.Ring.View

namespace MidiBridge.Ring

variable {w n : Nat} {α : Type}

theorem size_le (r : Ring w n α) : r.size ≤ n - 1 := Nat.le_sub_one_of_lt r.size_lt

/-- All slots but one are the places that can be used, and a word holds their number. -/
theorem toNat_usable (h : Admits w n) : (UInt64.ofNat n - 1).toNat = n - 1 := by
  have hslots := toNat_slotCount h
  have htwo := h.2.1
  have hone : (1 : UInt64).toNat = 1 := rfl
  rw [UInt64.toNat_sub_of_le, hslots, hone]
  rw [UInt64.le_iff_toNat_le, hslots, hone]
  omega

/-- A ring with index words of eight bits has at most 256 slots. -/
theorem addressable (r : Ring 8 n α) : Addressable n := r.admits.addressable (by decide)

/-!
### Counting in words
-/

section Counting

variable (hn : Addressable n)

include hn

theorem toNat_occupied (r : Ring w n α) : r.occupied.toNat = r.size :=
  toNat_distance r.admits hn r.front r.back

theorem toNat_count (r : Ring w n α) : r.count.toNat = r.size := by
  have hoccupied := toNat_occupied hn r
  rw [count, toNat_narrow r.admits (hoccupied ▸ r.size_lt), hoccupied]

/-- The word that counts the free places counts all slots but one and the occupied ones. -/
theorem toNat_vacant (r : Ring w n α) : r.vacant.toNat = n - 1 - r.size := by
  have husable := toNat_usable r.admits
  have hoccupied := toNat_occupied hn r
  rw [vacant, UInt64.toNat_sub_of_le, husable, hoccupied]
  rw [UInt64.le_iff_toNat_le, husable, hoccupied]
  exact r.size_le

end Counting

/-!
### Appending items
-/

/-- Pushing one after the other, when there is room for all. -/
theorem toList_foldl_push {r : Ring w n α} {xs : List α} (h : r.size + xs.length ≤ n - 1) :
    (xs.foldl (fun r x => (r.push x).1) r).toList = r.toList ++ xs := by
  induction xs generalizing r with
  | nil => exact (List.append_nil r.toList).symm
  | cons x xs ih =>
      rw [List.length_cons] at h
      have hroom : r.isFull = false := by
        rw [Bool.eq_false_iff, ne_eq, isFull_iff_size]
        omega
      have hrest : (r.push x).1.size + xs.length ≤ n - 1 := by
        rw [size_push hroom]
        omega
      rw [List.foldl_cons, ih hrest, toList_push hroom, List.append_assoc]
      rfl

/-- Pushing, with or without room, leaves the front cursor where it is. -/
theorem front_foldl_push (r : Ring w n α) (xs : List α) :
    (xs.foldl (fun r x => (r.push x).1) r).front = r.front := by
  induction xs generalizing r with
  | nil => rfl
  | cons x xs ih =>
      have hfirst : (r.push x).1.front = r.front := by
        unfold push
        split <;> rfl
      exact (ih (r.push x).1).trans hfirst

theorem push_of_room {r : Ring w n α} (h : r.isFull = false) (x : α) :
    ∃ r', r.push x = (r', true) ∧ r'.toList = r.toList ++ [x] :=
  ⟨(r.push x).1, Prod.ext rfl ((push_accepted_iff r x).2 h), toList_push h x⟩

theorem pushAll_of_room (hn : Addressable n) {r : Ring w n α} {xs : List α}
    (h : r.size + xs.length ≤ n - 1) :
    ∃ r', r.pushAll xs = (r', true) ∧ r'.toList = r.toList ++ xs := by
  refine ⟨_, ?_, toList_foldl_push h⟩
  have hvacant : ¬ r.vacant.toNat < xs.length := by
    rw [toNat_vacant hn]
    omega
  rw [pushAll, if_neg hvacant]

theorem pushAll_of_lack (hn : Addressable n) {r : Ring w n α} {xs : List α}
    (h : ¬ r.size + xs.length ≤ n - 1) :
    r.pushAll xs = (r, false) := by
  have hvacant : r.vacant.toNat < xs.length := by
    have hsize := r.size_le
    rw [toNat_vacant hn]
    omega
  rw [pushAll, if_pos hvacant]

/-!
### Taking the front item
-/

/-- The item at the front is the first of the list, and an advance leaves the others. -/
theorem toList_of_peek {r : Ring w n α} {x : α} (h : r.peek = some x) :
    r.toList = x :: r.advance.toList := by
  rw [peek_eq_head?] at h
  obtain ⟨xs, hlist⟩ := List.head?_eq_some_iff.1 h
  rw [toList_advance, hlist]
  rfl

theorem pop_eq_head? (r : Ring w n α) : r.pop.1 = r.toList.head? := by
  rw [← peek_eq_head?, pop]
  cases r.peek with
  | none => rfl
  | some x => rfl

theorem toList_pop (r : Ring w n α) : r.pop.2.toList = r.toList.tail := by
  have hpeek := peek_eq_head? r
  rw [pop]
  cases h : r.peek with
  | none =>
      have hnil : r.toList = [] := by
        rw [← List.head?_eq_none_iff, ← hpeek, h]
      rw [hnil]
      rfl
  | some x => exact toList_advance r

/-- What is popped is the first item, and the others stay. -/
theorem toList_eq_pop (r : Ring w n α) : r.toList = r.pop.1.toList ++ r.pop.2.toList := by
  rw [pop_eq_head?, toList_pop]
  cases r.toList with
  | nil => rfl
  | cons x xs => rfl

end MidiBridge.Ring
