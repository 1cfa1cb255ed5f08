/-
Module: MidiBridge.Ring.View
Purpose: A ring read as the list of its items, front first, and the effect of every operation on that
  list. With these equations the two cursors and the stale slots need not be looked at again.
Trusted boundary: none
Main exports: Ring.toList, Ring.length_toList, Ring.toList_empty, Ring.toList_clear,
  Ring.peek_eq_head?, Ring.toList_advance, Ring.push_of_isFull, Ring.toList_push,
  Ring.push_accepted_iff
-/
import MidiBridge.Ring.Basic

namespace MidiBridge.Ring

variable {w n : Nat} {α : Type}

theorem Admits.mod_lt (h : Admits w n) (i : Nat) : i % n < n :=
  Nat.mod_lt _ (by have := h.2.1; omega)

/-- The slot that lies `i` places behind the front. -/
def slot (r : Ring w n α) (i : Nat) : α :=
  r.slots.get ⟨(r.front.word.toNat + i) % n, r.admits.mod_lt _⟩

/-- The items from the front to the back. -/
def toList (r : Ring w n α) : List α := (List.range r.size).map r.slot

@[simp] theorem length_toList (r : Ring w n α) : r.toList.length = r.size := by
  simp [toList]

/-!
### Sizes
-/

@[simp] theorem size_empty [Inhabited α] (h : Admits w n) : (empty h : Ring w n α).size = 0 := by
  rw [← isEmpty_iff_size]
  exact beq_self_eq_true _

@[simp] theorem size_clear (r : Ring w n α) : r.clear.size = 0 := by
  rw [← isEmpty_iff_size]
  exact beq_self_eq_true _

theorem size_push {r : Ring w n α} (h : r.isFull = false) (x : α) :
    (r.push x).1.size = r.size + 1 := by
  have hb := r.back.word_lt
  have hf := r.front.word_lt
  have hn := r.admits.2.1
  have hne : ¬ r.front.word.toNat = (r.back.next r.admits).word.toNat := by
    rw [← isFull_iff_front_eq_next, h]
    decide
  rw [push_of_isFull_false h, size_eq, size_eq]
  dsimp only
  rw [Cursor.toNat_next_eq r.admits] at hne ⊢
  by_cases hwrap : r.back.word.toNat + 1 = n
  · rw [if_pos hwrap] at hne ⊢
    split <;> split <;> omega
  · rw [if_neg hwrap] at hne ⊢
    split <;> split <;> omega

/-- The place behind the last item is `size` places behind the front. -/
theorem front_add_size (r : Ring w n α) :
    (r.front.word.toNat + r.size) % n = r.back.word.toNat := by
  have hb := r.back.word_lt
  have hf := r.front.word_lt
  rw [size_eq]
  split
  · rw [show r.front.word.toNat + (r.back.word.toNat - r.front.word.toNat) = r.back.word.toNat by
      omega]
    exact Nat.mod_eq_of_lt hb
  · rw [show r.front.word.toNat + (r.back.word.toNat + n - r.front.word.toNat)
      = r.back.word.toNat + n by omega, Nat.add_mod_right]
    exact Nat.mod_eq_of_lt hb

/-- A place before the last item's end is not the place behind it. -/
theorem front_add_ne_back (r : Ring w n α) {i : Nat} (h : i < r.size) :
    (r.front.word.toNat + i) % n ≠ r.back.word.toNat := by
  have hf := r.front.word_lt
  have hs := r.size_lt
  have hback := front_add_size r
  intro heq
  rw [← hback] at heq
  by_cases h1 : r.front.word.toNat + i < n
  · by_cases h2 : r.front.word.toNat + r.size < n
    · rw [Nat.mod_eq_of_lt h1, Nat.mod_eq_of_lt h2] at heq
      omega
    · rw [Nat.mod_eq_of_lt h1, Nat.mod_eq_sub_mod (by omega), Nat.mod_eq_of_lt (by omega)] at heq
      omega
  · rw [Nat.mod_eq_sub_mod (by omega), Nat.mod_eq_of_lt (by omega),
      Nat.mod_eq_sub_mod (by omega), Nat.mod_eq_of_lt (by omega)] at heq
    omega

/-!
### Items
-/

@[simp] theorem toList_empty [Inhabited α] (h : Admits w n) :
    (empty h : Ring w n α).toList = [] := by
  simp [toList]

@[simp] theorem toList_clear (r : Ring w n α) : r.clear.toList = [] := by
  simp [toList]

theorem isEmpty_iff_toList (r : Ring w n α) : r.isEmpty = true ↔ r.toList = [] := by
  rw [isEmpty_iff_size, ← length_toList, List.length_eq_zero_iff]

theorem peek_eq_head? (r : Ring w n α) : r.peek = r.toList.head? := by
  unfold peek
  cases hempty : r.isEmpty with
  | true =>
      rw [isEmpty_iff_toList] at hempty
      simp [hempty]
  | false =>
      have hsize : r.size ≠ 0 := by
        rw [ne_eq, ← isEmpty_iff_size, hempty]
        decide
      obtain ⟨k, hk⟩ := Nat.exists_eq_succ_of_ne_zero hsize
      have hslot : r.slot 0 = r.slots.get ⟨r.front.word.toNat, r.front.word_lt⟩ :=
        congrArg r.slots.get (Fin.ext (Nat.mod_eq_of_lt r.front.word_lt))
      simp [toList, hk, List.range_succ_eq_map, hslot]

@[simp] theorem toList_advance (r : Ring w n α) : r.advance.toList = r.toList.tail := by
  cases hempty : r.isEmpty with
  | true =>
      have hnil := (isEmpty_iff_toList r).1 hempty
      simp [advance, hempty, hnil]
  | false =>
      have hsize := size_advance hempty
      have hslot : ∀ i, r.advance.slot i = r.slot (i + 1) := by
        intro i
        rw [advance_of_isEmpty_false hempty]
        refine congrArg r.slots.get (Fin.ext ?_)
        show ((r.front.next r.admits).word.toNat + i) % n = (r.front.word.toNat + (i + 1)) % n
        rw [Cursor.toNat_next r.admits, Nat.mod_add_mod]
        congr 1
        omega
      rw [toList, toList, ← hsize, List.range_succ_eq_map, List.map_cons, List.tail_cons,
        List.map_map]
      exact List.map_congr_left fun i _ => hslot i

theorem push_of_isFull {r : Ring w n α} (h : r.isFull = true) (x : α) :
    r.push x = (r, false) := by
  simp [push, h]

theorem toList_push {r : Ring w n α} (h : r.isFull = false) (x : α) :
    (r.push x).1.toList = r.toList ++ [x] := by
  rw [toList, size_push h, List.range_succ, List.map_append, push_of_isFull_false h]
  congr 1
  · refine List.map_congr_left ?_
    intro i hi
    have hne := front_add_ne_back r (List.mem_range.1 hi)
    exact Vector.getElem_set_ne r.back.word_lt (r.admits.mod_lt _) (Ne.symm hne)
  · refine congrArg (fun y => [y]) ?_
    show (r.slots.set r.back.word.toNat x r.back.word_lt).get
      ⟨(r.front.word.toNat + r.size) % n, r.admits.mod_lt _⟩ = x
    have hback : (⟨(r.front.word.toNat + r.size) % n, r.admits.mod_lt _⟩ : Fin n)
        = ⟨r.back.word.toNat, r.back.word_lt⟩ := Fin.ext (front_add_size r)
    rw [hback]
    exact Vector.getElem_set_self r.back.word_lt

/-- A push is accepted exactly if the ring is not full. -/
theorem push_accepted_iff (r : Ring w n α) (x : α) : (r.push x).2 = true ↔ r.isFull = false := by
  unfold push
  cases r.isFull <;> simp

end MidiBridge.Ring
