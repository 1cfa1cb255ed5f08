/-
Module: MidiBridge.Proofs.Ring.Refinement
Purpose: The ring is a bounded first-in first-out list. The list is the specification: what it does with a
  command is written without cursors, slots or machine words. Commands carried out on a ring and on the
  list get the same answers, for runs of any length, and whatever can be seen of the ring in between is
  what the list shows. The layout is part of the result: the cursors lie in the array, and every item of
  the list is found at a slot that exists.
  Only the number of the items is computed by an addition that may overflow. So all that does without that
  number holds for every admitted slot count, and the rest holds exactly if the slots fit half of the address
  space: with more of them, the ring comes to count no item at all although it holds some.
Trusted boundary: human-reviewed spec
Main exports: Queue.Command, Queue.Answer, Queue.run, Queue.bounded, Ring.perform, Ring.Shows,
  Ring.Counts, Ring.Layout, Ring.hasSpaceFor_iff, Ring.bounded_eq_perform, Ring.Agrees, Ring.Refines,
  Ring.refines_of_addressable, Ring.miscounts_of_pushes, Ring.refines_iff_addressable
-/
import MidiBridge.Proofs.Ring.Whole

namespace MidiBridge

namespace Queue

/-- What can be done with a queue. -/
inductive Command (α : Type) where
  | push (x : α)
  /-- Appends all of the items or none. -/
  | pushAll (xs : List α)
  | pop
  | peek
  /-- Drops the front item. -/
  | advance
  | clear

/-- Items are to be appended together, for which their places have to be counted. -/
def Command.isBulk {α : Type} : Command α → Bool
  | .pushAll _ => true
  | _ => false

/-- The answer to a command. -/
inductive Answer (α : Type) where
  /-- Whether there was room for what was to be appended. -/
  | accepted (room : Bool)
  /-- The front item, if there is one. -/
  | item (x : Option α)
  | done
deriving DecidableEq, Repr

section Run

variable {α σ ρ : Type}

/-- Commands carried out one after the other: their answers, and the state in the end. -/
def run (perform : σ → Command α → σ × Answer α) (s : σ) : List (Command α) → List (Answer α) × σ
  | [] => ([], s)
  | c :: cs =>
      let rest := run perform (perform s c).1 cs
      ((perform s c).2 :: rest.1, rest.2)

/-- If a view of the states turns one way to carry out commands into another, then runs of the two give
    the same answers and end in states that correspond. -/
theorem run_view (view : σ → ρ) {perform : σ → Command α → σ × Answer α}
    {performView : ρ → Command α → ρ × Answer α} {cs : List (Command α)}
    (hstep : ∀ c ∈ cs, ∀ s, performView (view s) c = (view (perform s c).1, (perform s c).2)) (s : σ) :
    run performView (view s) cs = ((run perform s cs).1, view (run perform s cs).2) := by
  induction cs generalizing s with
  | nil => rfl
  | cons c cs ih =>
      obtain ⟨hfirst, hrest⟩ := List.forall_mem_cons.1 hstep
      simp only [run, hfirst s, ih hrest]

end Run

/-- A queue that holds at most `capacity` items, as the list of its items, front first. -/
def bounded {α : Type} (capacity : Nat) (xs : List α) : Command α → List α × Answer α
  | .push x =>
      if xs.length < capacity then (xs ++ [x], .accepted true) else (xs, .accepted false)
  | .pushAll ys =>
      if xs.length + ys.length ≤ capacity then (xs ++ ys, .accepted true)
      else (xs, .accepted false)
  | .pop => (xs.tail, .item xs.head?)
  | .peek => (xs, .item xs.head?)
  | .advance => (xs.tail, .done)
  | .clear => ([], .done)

end Queue

namespace Ring

variable {w n : Nat} {α : Type}

/-- A command carried out by the operations of the ring. -/
def perform (r : Ring w n α) : Queue.Command α → Ring w n α × Queue.Answer α
  | .push x => ((r.push x).1, .accepted (r.push x).2)
  | .pushAll xs => ((r.pushAll xs).1, .accepted (r.pushAll xs).2)
  | .pop => (r.pop.2, .item r.pop.1)
  | .peek => (r, .item r.peek)
  | .advance => (r.advance, .done)
  | .clear => (r.clear, .done)

/-!
### One command

The equations of the list view, put together: the view of the ring afterwards is the list afterwards, and
the answers agree.
-/

theorem isFull_iff_length (r : Ring w n α) : r.isFull = true ↔ r.toList.length = n - 1 := by
  rw [isFull_iff_size, length_toList]

theorem hasSpaceFor_iff (hn : Addressable n) (r : Ring w n α) (k : BitVec w) :
    r.hasSpaceFor k = true ↔ k.toNat ≤ n - 1 - r.toList.length := by
  simp only [hasSpaceFor, decide_eq_true_eq, UInt64.le_iff_toNat_le, toNat_widen r.admits,
    toNat_vacant hn, length_toList]

theorem bounded_push (r : Ring w n α) (x : α) :
    Queue.bounded (n - 1) r.toList (.push x) = ((r.push x).1.toList, .accepted (r.push x).2) := by
  have hle : r.toList.length ≤ n - 1 := by
    rw [length_toList]
    exact r.size_le
  cases hfull : r.isFull with
  | true =>
      have hlength := (isFull_iff_length r).1 hfull
      have hlack : ¬ r.toList.length < n - 1 := by omega
      simp only [Queue.bounded, if_neg hlack, push_of_isFull hfull]
  | false =>
      have hlength : r.toList.length ≠ n - 1 := by
        rw [ne_eq, ← isFull_iff_length, hfull]
        exact Bool.false_ne_true
      have hroom : r.toList.length < n - 1 := by omega
      simp only [Queue.bounded, if_pos hroom, toList_push hfull, (push_accepted_iff r x).2 hfull]

theorem bounded_pushAll (hn : Addressable n) (r : Ring w n α) (xs : List α) :
    Queue.bounded (n - 1) r.toList (.pushAll xs)
      = ((r.pushAll xs).1.toList, .accepted (r.pushAll xs).2) := by
  by_cases hroom : r.toList.length + xs.length ≤ n - 1
  · obtain ⟨r', hpush, hlist⟩ := pushAll_of_room hn (length_toList r ▸ hroom)
    simp only [Queue.bounded, if_pos hroom, hpush, hlist]
  · have hlack := pushAll_of_lack hn (length_toList r ▸ hroom)
    simp only [Queue.bounded, if_neg hroom, hlack]

/-- What the list does with the items of a ring is what the ring does. -/
theorem bounded_eq_perform {c : Queue.Command α} (h : c.isBulk = true → Addressable n) (r : Ring w n α) :
    Queue.bounded (n - 1) r.toList c = ((r.perform c).1.toList, (r.perform c).2) := by
  cases c with
  | push x => exact bounded_push r x
  | pushAll xs => exact bounded_pushAll (h rfl) r xs
  | pop => simp only [Queue.bounded, perform, toList_pop, pop_eq_head?]
  | peek => simp only [Queue.bounded, perform, peek_eq_head?]
  | advance => simp only [Queue.bounded, perform, toList_advance]
  | clear => simp only [Queue.bounded, perform, toList_clear]

/-!
### What a ring shows, and how it is laid out
-/

/-- The ends of a ring are seen as those of the list of items. -/
structure Shows (r : Ring w n α) (xs : List α) : Prop where
  isEmpty_iff : r.isEmpty = true ↔ xs = []
  isFull_iff : r.isFull = true ↔ xs.length = n - 1
  peek_eq : r.peek = xs.head?

/-- The ring counts as many items, and as many places left, as there are. -/
structure Counts (r : Ring w n α) (xs : List α) : Prop where
  count_eq : r.count.toNat = xs.length
  hasSpaceFor_iff : ∀ k : BitVec w, r.hasSpaceFor k = true ↔ k.toNat ≤ n - 1 - xs.length

/-- Where the items of a ring lie. The slots are looked up with a test of their numbers, so that an item
    that is found lies inside of the array. -/
structure Layout (r : Ring w n α) (xs : List α) : Prop where
  front_lt : r.front.word.toNat < n
  back_lt : r.back.word.toNat < n
  /-- The back cursor is as many places behind the front cursor as there are items. -/
  back_eq : r.back.word.toNat = (r.front.word.toNat + xs.length) % n
  found : ∀ k x, xs[k]? = some x → r.slots[(r.front.word.toNat + k) % n]? = some x

theorem shows_toList (r : Ring w n α) : r.Shows r.toList where
  isEmpty_iff := isEmpty_iff_toList r
  isFull_iff := isFull_iff_length r
  peek_eq := peek_eq_head? r

theorem counts_toList (hn : Addressable n) (r : Ring w n α) : r.Counts r.toList where
  count_eq := (toNat_count hn r).trans (length_toList r).symm
  hasSpaceFor_iff := hasSpaceFor_iff hn r

theorem layout_toList (r : Ring w n α) : r.Layout r.toList where
  front_lt := r.front.word_lt
  back_lt := r.back.word_lt
  back_eq := by
    rw [length_toList]
    exact (front_add_size r).symm
  found := by
    intro k x hk
    obtain ⟨hlt, hx⟩ := List.getElem?_eq_some_iff.1 hk
    have hslot : r.slot k = x := by
      rw [← hx]
      simp only [toList, List.getElem_map, List.getElem_range]
    rw [← hslot]
    exact Vector.getElem?_eq_getElem (r.admits.mod_lt _)

/-!
### Runs
-/

/-- A run of a ring is the run of the list of its items. -/
theorem run_toList {cs : List (Queue.Command α)} (h : ∀ c ∈ cs, c.isBulk = true → Addressable n)
    (r : Ring w n α) :
    Queue.run (Queue.bounded (n - 1)) r.toList cs
      = ((Queue.run perform r cs).1, (Queue.run perform r cs).2.toList) :=
  Queue.run_view toList (fun c hc s => bounded_eq_perform (h c hc) s) r

variable [Inhabited α]

/-- From the empty ring on, some commands get the answers that the bounded list gives. In the end the ring
    holds the items of the list, each in the array, and its ends are seen as those of the list. -/
structure Agrees (h : Admits w n) (cs : List (Queue.Command α)) : Prop where
  answers : (Queue.run perform (empty h : Ring w n α) cs).1
    = (Queue.run (Queue.bounded (n - 1)) [] cs).1
  items : (Queue.run perform (empty h : Ring w n α) cs).2.toList
    = (Queue.run (Queue.bounded (n - 1)) [] cs).2
  shows : (Queue.run perform (empty h : Ring w n α) cs).2.Shows
    (Queue.run (Queue.bounded (n - 1)) [] cs).2
  layout : (Queue.run perform (empty h : Ring w n α) cs).2.Layout
    (Queue.run (Queue.bounded (n - 1)) [] cs).2

/-- The ring counts its items, too, as the list has them. -/
structure Refines (h : Admits w n) (cs : List (Queue.Command α)) : Prop extends Agrees h cs where
  counts : (Queue.run perform (empty h : Ring w n α) cs).2.Counts
    (Queue.run (Queue.bounded (n - 1)) [] cs).2

theorem agrees_of_bulk (h : Admits w n) {cs : List (Queue.Command α)}
    (hbulk : ∀ c ∈ cs, c.isBulk = true → Addressable n) : Agrees h cs := by
  have hrun := run_toList hbulk (empty h : Ring w n α)
  rw [toList_empty] at hrun
  constructor
  case answers => rw [hrun]
  case items => rw [hrun]
  case shows =>
    rw [hrun]
    exact shows_toList _
  case layout =>
    rw [hrun]
    exact layout_toList _

theorem refines_of_addressable (h : Admits w n) (hn : Addressable n) (cs : List (Queue.Command α)) :
    Refines h cs := by
  have hagrees := agrees_of_bulk h fun c (_ : c ∈ cs) _ => hn
  refine ⟨hagrees, ?_⟩
  rw [← hagrees.items]
  exact counts_toList hn _

/-!
### Too many slots

A ring of items without a size may have more slots. Then there is a number of pushes after which the back
cursor and the slot count make up one more than the greatest machine word.
-/

/-- Carrying out the pushes of some items is the fold of which a bulk push consists. -/
theorem run_pushes {α : Type} (r : Ring w n α) (xs : List α) :
    (Queue.run perform r (xs.map .push)).2 = xs.foldl (fun r x => (r.push x).1) r := by
  induction xs generalizing r with
  | nil => rfl
  | cons x xs ih => exact ih (r.push x).1

/-- After so many pushes the ring holds all of the items and counts none. -/
theorem miscounts_of_pushes (h : Admits w n) (xs : List α) (hwrap : xs.length + n = Nat.pow 2 64)
    (hroom : xs.length ≤ n - 1) :
    let r := (Queue.run perform (empty h : Ring w n α) (xs.map .push)).2
    r.toList = xs ∧ r.occupied = 0 := by
  intro r
  have htwo := h.2.1
  have hsize : (empty h : Ring w n α).size + xs.length ≤ n - 1 := by
    rw [size_empty, Nat.zero_add]
    exact hroom
  have hlist : r.toList = xs := by
    show (Queue.run perform (empty h : Ring w n α) (xs.map .push)).2.toList = xs
    rw [run_pushes, toList_foldl_push hsize, toList_empty, List.nil_append]
  have hfront : r.front.word.toNat = 0 := by
    show (Queue.run perform (empty h : Ring w n α) (xs.map .push)).2.front.word.toNat = 0
    rw [run_pushes, front_foldl_push]
    exact Nat.zero_mod _
  have hback : r.back.word.toNat = xs.length := by
    rw [← front_add_size, ← length_toList, hlist, hfront, Nat.zero_add]
    exact Nat.mod_eq_of_lt (by omega)
  refine ⟨hlist, distance_of_wrap h hfront ?_⟩
  rw [hback]
  exact hwrap

/-- If there are too many slots, a ring in use comes to hold items and to count none. -/
theorem exists_miscount (h : Admits w n) (hn : ¬ Addressable n) :
    ∃ cs : List (Queue.Command α),
      let r := (Queue.run perform (empty h : Ring w n α) cs).2
      r.toList ≠ [] ∧ r.occupied = 0 := by
  have hmany : ¬ n ≤ 2 ^ 63 := hn
  have hword : n < 2 ^ 64 := h.2.2.2
  have hlength : (List.replicate (2 ^ 64 - n) (default : α)).length = 2 ^ 64 - n :=
    List.length_replicate
  have hwrap : (List.replicate (2 ^ 64 - n) (default : α)).length + n = 2 ^ 64 := by omega
  obtain ⟨hlist, hoccupied⟩ := miscounts_of_pushes h _ hwrap (by omega)
  refine ⟨_, ?_, hoccupied⟩
  rw [hlist]
  apply List.ne_nil_of_length_pos
  omega

theorem count_of_occupied_eq_zero {α : Type} {r : Ring w n α} (h : r.occupied = 0) : r.count.toNat = 0 := by
  rw [count, h]
  exact Nat.zero_mod _

end Ring

end MidiBridge
