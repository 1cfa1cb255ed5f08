/-
Module: MidiBridge.Proofs.Ring.Exactness
Purpose: The arithmetic of a ring on its words is exact, up to the slot counts that fill the index word, for
  slots that fit half of the address space. Beside each computation stands the same computation with its
  checks: a sum must not overflow, a difference must not fall below zero, and a machine word must not be
  greater than every index word before it is cut to one. No check fails, at no position of the cursors. So the
  distance of the cursors is a number, and along every run it is the number of the items that were accepted
  less those that were removed, however often the cursors have passed the end of the array.
Trusted boundary: human-reviewed spec
Main exports: Ring.Checked.add?, Ring.Checked.sub?, Ring.Checked.index?, Ring.Exact, Ring.exact,
  Queue.Tally, Queue.Tally.post, Queue.tally, Queue.balances_run, Ring.arithmetic_exact
-/
import MidiBridge.Proofs.Ring.Space

namespace MidiBridge

namespace Ring

variable {w n : Nat} {α : Type}

/-!
### Checked computations

A checked computation has a result exactly if the word that it gives is the number that is meant.
-/

namespace Checked

/-- A sum of machine words, unless it overflows. -/
def add? (x y : UInt64) : Option UInt64 :=
  if x.toBitVec.uaddOverflow y.toBitVec then none else some (x + y)

/-- A difference of machine words, unless it falls below zero. -/
def sub? (x y : UInt64) : Option UInt64 :=
  if x.toBitVec.usubOverflow y.toBitVec then none else some (x - y)

/-- A machine word cut to an index word, unless it is greater than the greatest index word. -/
def index? (w : Nat) (x : UInt64) : Option (BitVec w) :=
  if x.toNat ≤ (BitVec.allOnes w).toNat then some (narrow w x) else none

theorem add?_eq_some_iff {x y z : UInt64} : add? x y = some z ↔ z.toNat = x.toNat + y.toNat := by
  have hz := z.toNat_lt
  have hsum := UInt64.toNat_add x y
  unfold add? BitVec.uaddOverflow
  rw [UInt64.toNat_toBitVec, UInt64.toNat_toBitVec]
  split
  · next hover =>
      have hover := of_decide_eq_true hover
      constructor
      · intro h
        cases h
      · intro h
        omega
  · next hfits =>
      have hfits := of_decide_eq_false (Bool.eq_false_iff.2 hfits)
      rw [Option.some_inj, ← UInt64.toNat_inj]
      omega

theorem sub?_eq_some_iff {x y z : UInt64} : sub? x y = some z ↔ z.toNat + y.toNat = x.toNat := by
  unfold sub? BitVec.usubOverflow
  rw [UInt64.toNat_toBitVec, UInt64.toNat_toBitVec]
  split
  · next hover =>
      have hover := of_decide_eq_true hover
      constructor
      · intro h
        cases h
      · intro h
        omega
  · next hfits =>
      have hfits := Nat.not_lt.1 (of_decide_eq_false (Bool.eq_false_iff.2 hfits))
      have hdiff := UInt64.toNat_sub_of_le x y (UInt64.le_iff_toNat_le.2 hfits)
      rw [Option.some_inj, ← UInt64.toNat_inj]
      omega

theorem index?_eq_some_iff {x : UInt64} {i : BitVec w} : index? w x = some i ↔ i.toNat = x.toNat := by
  have hi := i.isLt
  have hmod : (narrow w x).toNat = x.toNat % 2 ^ w := BitVec.toNat_ofNat x.toNat w
  unfold index?
  rw [BitVec.toNat_allOnes]
  split
  · next hfits =>
      have hkeeps : x.toNat % 2 ^ w = x.toNat := Nat.mod_eq_of_lt (by omega)
      rw [Option.some_inj, ← BitVec.toNat_inj, hmod, hkeeps]
      exact eq_comm
  · next hcut =>
      constructor
      · intro h
        cases h
      · intro h
        omega

/-- The position behind another. -/
def next? (n : Nat) (x : BitVec w) : Option (BitVec w) := do
  let sum ← add? (widen x) 1
  index? w (sum % UInt64.ofNat n)

/-- The number of items as a machine word. -/
def occupied? (r : Ring w n α) : Option UInt64 := do
  let sum ← add? (widen r.back.word) (UInt64.ofNat n)
  let difference ← sub? sum (widen r.front.word)
  pure (difference % UInt64.ofNat n)

/-- The number of items that still fit. -/
def vacant? (r : Ring w n α) : Option UInt64 := do
  let usable ← sub? (UInt64.ofNat n) 1
  let occupied ← occupied? r
  sub? usable occupied

/-- The number of items as an index word. -/
def count? (r : Ring w n α) : Option (BitVec w) := do
  let occupied ← occupied? r
  index? w occupied

def capacity? (_ : Ring w n α) : Option (BitVec w) := do
  let usable ← sub? (UInt64.ofNat n) 1
  index? w usable

end Checked

/-!
### No check fails
-/

theorem sub?_usable (h : Admits w n) :
    Checked.sub? (UInt64.ofNat n) 1 = some (UInt64.ofNat n - 1) := by
  have htwo := h.2.1
  have hone : (1 : UInt64).toNat = 1 := rfl
  rw [Checked.sub?_eq_some_iff, toNat_usable h, toNat_slotCount h, hone]
  omega

theorem next?_eq (h : Admits w n) (c : Cursor w n) :
    Checked.next? n c.word = some (c.next h).word := by
  have hsum : Checked.add? (widen c.word) 1 = some (widen c.word + 1) := by
    rw [Checked.add?_eq_some_iff, toNat_widen_add_one h c.word_lt, toNat_widen h]
    rfl
  have hindex : Checked.index? w (nextWord n c.word) = some (c.next h).word := by
    rw [Checked.index?_eq_some_iff, Cursor.toNat_next, toNat_nextWord h c.word_lt]
  simp only [Checked.next?, hsum, Option.bind_eq_bind, Option.bind_some]
  exact hindex

theorem occupied?_eq (hn : Addressable n) (r : Ring w n α) :
    Checked.occupied? r = some r.occupied := by
  have hfront := r.front.word_lt
  have htotal := toNat_widen_add_slotCount r.admits hn r.back
  have hsum : Checked.add? (widen r.back.word) (UInt64.ofNat n)
      = some (widen r.back.word + UInt64.ofNat n) := by
    rw [Checked.add?_eq_some_iff, htotal, toNat_widen r.admits, toNat_slotCount r.admits]
  have hdifference : Checked.sub? (widen r.back.word + UInt64.ofNat n) (widen r.front.word)
      = some (widen r.back.word + UInt64.ofNat n - widen r.front.word) := by
    rw [Checked.sub?_eq_some_iff, toNat_difference r.admits hn, htotal, toNat_widen r.admits]
    omega
  simp only [Checked.occupied?, hsum, hdifference, Option.bind_eq_bind, Option.bind_some]
  rfl

theorem vacant?_eq (hn : Addressable n) (r : Ring w n α) : Checked.vacant? r = some r.vacant := by
  have hsize := r.size_le
  have hrest : Checked.sub? (UInt64.ofNat n - 1) r.occupied = some r.vacant := by
    rw [Checked.sub?_eq_some_iff, toNat_vacant hn, toNat_occupied hn, toNat_usable r.admits]
    omega
  simp only [Checked.vacant?, sub?_usable r.admits, occupied?_eq hn, Option.bind_eq_bind,
    Option.bind_some]
  exact hrest

theorem count?_eq (hn : Addressable n) (r : Ring w n α) : Checked.count? r = some r.count := by
  simp only [Checked.count?, occupied?_eq hn, Option.bind_eq_bind, Option.bind_some]
  rw [Checked.index?_eq_some_iff, toNat_count hn, toNat_occupied hn]

theorem toNat_capacity (r : Ring w n α) : r.capacity.toNat = n - 1 := by
  have htwo := r.admits.2.1
  have husable := toNat_usable r.admits
  rw [capacity, toNat_narrow r.admits, husable]
  omega

theorem capacity?_eq (r : Ring w n α) : Checked.capacity? r = some r.capacity := by
  simp only [Checked.capacity?, sub?_usable r.admits, Option.bind_eq_bind, Option.bind_some]
  refine Checked.index?_eq_some_iff.2 ?_
  rw [toNat_usable r.admits]
  exact toNat_capacity r

/-- Every computation on the words of a ring passes its checks, with the result that it has without them,
    and the results are the numbers that are meant. -/
structure Exact (r : Ring w n α) : Prop where
  start : Checked.index? w 0 = some (Cursor.start r.admits).word
  /-- At every position, so also at the two cursors. -/
  next : ∀ c : Cursor w n, Checked.next? n c.word = some (c.next r.admits).word
  occupied : Checked.occupied? r = some r.occupied
  vacant : Checked.vacant? r = some r.vacant
  count : Checked.count? r = some r.count
  capacity : Checked.capacity? r = some r.capacity
  toNat_next : ∀ c : Cursor w n, (c.next r.admits).word.toNat = (c.word.toNat + 1) % n
  toNat_occupied : r.occupied.toNat = (r.back.word.toNat + n - r.front.word.toNat) % n
  toNat_vacant : r.vacant.toNat = n - 1 - r.occupied.toNat
  toNat_count : r.count.toNat = r.occupied.toNat
  toNat_capacity : r.capacity.toNat = n - 1

theorem exact (hn : Addressable n) (r : Ring w n α) : r.Exact where
  start := Checked.index?_eq_some_iff.2 (Nat.zero_mod (2 ^ w))
  next := next?_eq r.admits
  occupied := occupied?_eq hn r
  vacant := vacant?_eq hn r
  count := count?_eq hn r
  capacity := capacity?_eq r
  toNat_next := Cursor.toNat_next r.admits
  toNat_occupied := toNat_distance r.admits hn r.front r.back
  toNat_vacant := by rw [toNat_vacant hn, toNat_occupied hn]
  toNat_count := by rw [toNat_count hn, toNat_occupied hn]
  toNat_capacity := toNat_capacity r

end Ring

/-!
### The tally of a run
-/

namespace Queue

variable {α : Type} {capacity : Nat} {xs : List α}

/-- How many items went into a queue, and how many were removed from it again. -/
structure Tally where
  accepted : Nat := 0
  removed : Nat := 0
deriving DecidableEq, Repr

/-- The tally goes on with a command and its answer. To drop the front item removes one, if there is one
    inside, and to clear the queue removes all that are inside. -/
def Tally.post (t : Tally) : Command α × Answer α → Tally
  | (c, .accepted true) => { t with accepted := t.accepted + c.items.length }
  | (.pop, .item (some _)) => { t with removed := t.removed + 1 }
  | (.advance, _) =>
      { t with removed := if t.removed < t.accepted then t.removed + 1 else t.removed }
  | (.clear, _) => { t with removed := t.accepted }
  | _ => t

/-- The tally of some commands and their answers, from a new queue on. -/
def tally (cs : List (Command α)) (answers : List (Answer α)) : Tally :=
  (cs.zip answers).foldl Tally.post {}

/-- What went in was removed or is still there. -/
def Tally.Balances (t : Tally) (xs : List α) : Prop := t.accepted = t.removed + xs.length

theorem balances_nil : Tally.Balances {} ([] : List α) := rfl

/-- A command of the bounded list keeps the balance. -/
theorem Tally.Balances.post {t : Tally} (h : t.Balances xs) (c : Command α) :
    (t.post (c, (bounded capacity xs c).2)).Balances (bounded capacity xs c).1 := by
  unfold Tally.Balances at h ⊢
  cases c with
  | push x =>
      by_cases hroom : xs.length < capacity
      · simp only [bounded, if_pos hroom, Tally.post, Command.items, List.length_append, h]
        omega
      · simp only [bounded, if_neg hroom, Tally.post, h]
  | pushAll ys =>
      by_cases hroom : xs.length + ys.length ≤ capacity
      · simp only [bounded, if_pos hroom, Tally.post, Command.items, List.length_append, h]
        omega
      · simp only [bounded, if_neg hroom, Tally.post, h]
  | pop =>
      cases xs with
      | nil => exact h
      | cons x xs =>
          simp only [bounded, List.head?_cons, List.tail_cons, Tally.post, h, List.length_cons]
          omega
  | peek => cases xs <;> exact h
  | advance =>
      cases xs with
      | nil =>
          simp only [bounded, Tally.post, h, List.length_nil, List.tail_nil]
          split <;> omega
      | cons x xs =>
          simp only [bounded, List.tail_cons, Tally.post, h, List.length_cons]
          split <;> omega
  | clear => rfl

/-- The balance is kept along every run of the bounded list. -/
theorem balances_run {t : Tally} (h : t.Balances xs) (cs : List (Command α)) :
    ((cs.zip (run (bounded capacity) xs cs).1).foldl Tally.post t).Balances
      (run (bounded capacity) xs cs).2 := by
  induction cs generalizing t xs with
  | nil => exact h
  | cons c cs ih => exact ih (h.post c)

end Queue

namespace Ring

variable {w n : Nat} {α : Type}

/-- After commands in any number and order, from the empty ring on, the arithmetic on the words of the ring
    is exact, and the distance of the cursors is the number of the items that were accepted less those that
    were removed. It is never greater than the number of slots that can be used. -/
theorem arithmetic_exact [Inhabited α] (h : Admits w n) (hn : Addressable n)
    (cs : List (Queue.Command α)) :
    let run := Queue.run perform (empty h : Ring w n α) cs
    let tally := Queue.tally cs run.1
    run.2.Exact ∧ tally.removed ≤ tally.accepted ∧
      run.2.occupied.toNat = tally.accepted - tally.removed ∧ run.2.occupied.toNat ≤ n - 1 := by
  intro run tally
  have hrun := run_toList (fun c (_ : c ∈ cs) _ => hn) (empty h : Ring w n α)
  rw [toList_empty] at hrun
  have hbalance : tally.Balances run.2.toList := by
    have hlist : (Queue.tally cs (Queue.run (Queue.bounded (n - 1)) [] cs).1).Balances
        (Queue.run (Queue.bounded (n - 1)) [] cs).2 := Queue.balances_run Queue.balances_nil cs
    rw [hrun] at hlist
    exact hlist
  have hsum : tally.accepted = tally.removed + run.2.size := by
    rw [← length_toList]
    exact hbalance
  have hsize := run.2.size_le
  rw [toNat_occupied hn]
  exact ⟨exact hn run.2, by omega, by omega, hsize⟩

/-- All 256 positions of an index word of eight bits are slots. The ring is filled twice, and the cursors
    pass the end of the array. -/
theorem arithmetic_exact_full_range :
    let cs : List (Queue.Command UInt8) :=
      [.pushAll (List.replicate 255 7), .push 8, .pop, .advance, .pushAll [1, 2], .clear, .advance,
        .pushAll (List.replicate 255 9), .advance]
    let run := Queue.run perform (empty (by decide) : Ring 8 256 UInt8) cs
    Admits 8 256 ∧ Addressable 256 ∧ Queue.tally cs run.1 = ⟨512, 258⟩ ∧ run.2.Exact ∧
      run.2.occupied.toNat = 254 := by
  intro cs run
  obtain ⟨hexact, -, hcount, -⟩ := arithmetic_exact (w := 8) (n := 256) (by decide) (by decide) cs
  have htally : Queue.tally cs run.1 = ⟨512, 258⟩ := by decide +kernel
  refine ⟨by decide, by decide, htally, hexact, ?_⟩
  rw [htally] at hcount
  exact hcount

end Ring

end MidiBridge
