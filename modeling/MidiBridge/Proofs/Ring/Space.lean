/-
Module: MidiBridge.Proofs.Ring.Space
Purpose: The test for room keeps what it promises. It answers yes exactly if that many items, pushed one
  after the other, are all accepted; and then no command is refused as long as no more items than that are
  to be appended, singly or together, whatever is removed in between. Items that are appended together leave
  the ring that they leave one by one, the slots and the cursors included. Their number is not an index word
  and may be greater than every index word. The arguments about room are made on the bounded list, where room
  is a matter of lengths.
  The test counts the items. So the law is kept exactly if the slots fit half of the address space; a ring with
  more of them comes to promise room that it does not have.
Trusted boundary: human-reviewed spec
Main exports: Queue.Command.items, Queue.run_bounded_accepts, Queue.run_pushes_iff, Ring.answers_run,
  Ring.pushes_accepted_iff, Ring.pushAll_accepted_iff, Ring.SpaceLaw, Ring.spaceLaw_of_addressable,
  Ring.not_spaceLaw_of_miscount, Ring.space_law_iff_addressable
-/
import MidiBridge.Proofs.Ring.Refinement

namespace MidiBridge

namespace Queue

variable {α : Type} {capacity : Nat} {xs : List α}

/-- The items that a command is to append. -/
def Command.items : Command α → List α
  | .push x => [x]
  | .pushAll xs => xs
  | .pop | .peek | .advance | .clear => []

/-!
### Room in the bounded list
-/

/-- A command makes the list longer by no more than the items that it is to append. -/
theorem length_bounded_le (capacity : Nat) (xs : List α) (c : Command α) :
    (bounded capacity xs c).1.length ≤ xs.length + c.items.length := by
  cases c with
  | push x =>
      simp only [bounded]
      split <;> simp [Command.items]
  | pushAll ys =>
      simp only [bounded]
      split <;> simp [Command.items]
  | pop => simp [bounded, Command.items]
  | peek => simp [bounded]
  | advance => simp [bounded, Command.items]
  | clear => simp [bounded]

/-- A command is not refused if there is room for the items that it is to append. -/
theorem bounded_accepts {c : Command α} (h : xs.length + c.items.length ≤ capacity) :
    (bounded capacity xs c).2 ≠ .accepted false := by
  cases c with
  | push x =>
      have hroom : xs.length < capacity := h
      simp [bounded, hroom]
  | pushAll ys =>
      have hroom : xs.length + ys.length ≤ capacity := h
      simp [bounded, hroom]
  | pop => simp [bounded]
  | peek => simp [bounded]
  | advance => simp [bounded]
  | clear => simp [bounded]

/-- Room for all that is to be appended is room for each command at its turn, because removing only makes
    more of it. -/
theorem run_bounded_accepts {cs : List (Command α)}
    (h : xs.length + (cs.flatMap Command.items).length ≤ capacity) :
    ∀ a ∈ (run (bounded capacity) xs cs).1, a ≠ .accepted false := by
  induction cs generalizing xs with
  | nil =>
      intro a ha
      cases ha
  | cons c cs ih =>
      rw [List.flatMap_cons, List.length_append] at h
      have hlength := length_bounded_le capacity xs c
      refine List.forall_mem_cons.2 ⟨?_, ?_⟩
      · apply bounded_accepts
        omega
      · apply ih
        omega

/-- Items pushed one after the other are all accepted exactly if there is room for all of them. -/
theorem run_pushes_iff (h : xs.length ≤ capacity) (ys : List α) :
    (∀ a ∈ (run (bounded capacity) xs (ys.map .push)).1, a = .accepted true) ↔
      xs.length + ys.length ≤ capacity := by
  induction ys generalizing xs with
  | nil => simpa [run] using h
  | cons y ys ih =>
      by_cases hroom : xs.length < capacity
      · have hlength : (xs ++ [y]).length = xs.length + 1 := List.length_append
        have hrest := ih (show (xs ++ [y]).length ≤ capacity by omega)
        simp only [List.map_cons, run, bounded, if_pos hroom, List.forall_mem_cons, true_and, hrest,
          hlength, List.length_cons]
        omega
      · have hlack : ¬ xs.length + (ys.length + 1) ≤ capacity := by omega
        simp [run, bounded, hroom, hlack]

end Queue

namespace Ring

variable {w n : Nat} {α : Type}

/-- The answers of a ring are those of the bounded list, from every ring on. -/
theorem answers_run {cs : List (Queue.Command α)} (h : ∀ c ∈ cs, c.isBulk = true → Addressable n)
    (r : Ring w n α) :
    (Queue.run perform r cs).1 = (Queue.run (Queue.bounded (n - 1)) r.toList cs).1 :=
  (congrArg Prod.fst (run_toList h r)).symm

theorem pushes_accepted_iff (r : Ring w n α) (xs : List α) :
    (∀ a ∈ (Queue.run perform r (xs.map .push)).1, a = .accepted true) ↔
      r.size + xs.length ≤ n - 1 := by
  have hsingle : ∀ c ∈ xs.map Queue.Command.push, c.isBulk = true → Addressable n := by
    intro c hc hbulk
    obtain ⟨x, -, rfl⟩ := List.mem_map.1 hc
    cases hbulk
  have hlength : r.toList.length ≤ n - 1 := by
    rw [length_toList]
    exact r.size_le
  rw [answers_run hsingle, Queue.run_pushes_iff hlength, length_toList]

/-- A bulk push that is accepted is the fold of the single pushes. -/
theorem pushAll_of_accepted {r : Ring w n α} {xs : List α} (h : (r.pushAll xs).2 = true) :
    (r.pushAll xs).1 = (Queue.run perform r (xs.map .push)).2 := by
  rw [run_pushes]
  unfold pushAll at h ⊢
  split at h
  · cases h
  · rw [if_neg ‹_›]

/-- A bulk push that is refused leaves the slots and the cursors as they were. -/
theorem pushAll_of_refused {r : Ring w n α} {xs : List α} (h : (r.pushAll xs).2 = false) :
    (r.pushAll xs).1 = r := by
  unfold pushAll at h ⊢
  split at h
  · rw [if_pos ‹_›]
  · cases h

section Counting

variable (hn : Addressable n)

include hn

theorem hasSpaceFor_iff_size (r : Ring w n α) (k : BitVec w) :
    r.hasSpaceFor k = true ↔ r.size + k.toNat ≤ n - 1 := by
  have hsize := r.size_le
  rw [hasSpaceFor_iff hn, length_toList]
  omega

theorem pushAll_accepted_iff (r : Ring w n α) (xs : List α) :
    (r.pushAll xs).2 = true ↔ r.size + xs.length ≤ n - 1 := by
  by_cases hroom : r.size + xs.length ≤ n - 1
  · obtain ⟨r', hpush, -⟩ := pushAll_of_room hn hroom
    simp [hpush, hroom]
  · simp [pushAll_of_lack hn hroom, hroom]

end Counting

/-- What the test for room and the bulk push have to do with single pushes. -/
structure SpaceLaw (r : Ring w n α) : Prop where
  /-- The test says whether as many pushes in a row are all accepted, whatever the items are. -/
  tested : ∀ (k : BitVec w) (xs : List α), xs.length = k.toNat →
    (r.hasSpaceFor k = true ↔
      ∀ a ∈ (Queue.run perform r (xs.map .push)).1, a = .accepted true)
  /-- No command is refused while no more items are to be appended than were asked for, whatever else is
      done with the ring. -/
  promised : ∀ (k : BitVec w) (later : List (Queue.Command α)), r.hasSpaceFor k = true →
    (later.flatMap Queue.Command.items).length ≤ k.toNat →
    ∀ a ∈ (Queue.run perform r later).1, a ≠ .accepted false
  bulk_iff : ∀ xs : List α, (r.pushAll xs).2 = true ↔ xs.length ≤ n - 1 - r.count.toNat
  /-- An accepted bulk push is made of single pushes, none of which is refused. -/
  bulk_eq : ∀ xs : List α, (r.pushAll xs).2 = true →
    (r.pushAll xs).1 = (Queue.run perform r (xs.map .push)).2 ∧
      ∀ a ∈ (Queue.run perform r (xs.map .push)).1, a = .accepted true
  bulk_refused : ∀ xs : List α, (r.pushAll xs).2 = false → (r.pushAll xs).1 = r

/-- Every ring keeps the law of space, at every position of its cursors and however full it is, unless it has
    too many slots. -/
theorem spaceLaw_of_addressable (hn : Addressable n) (r : Ring w n α) : r.SpaceLaw where
  tested := by
    intro k xs hlength
    rw [hasSpaceFor_iff_size hn, pushes_accepted_iff, hlength]
  promised := by
    intro k later hspace hitems
    have hroom := (hasSpaceFor_iff_size hn r k).1 hspace
    rw [answers_run fun _ _ _ => hn]
    apply Queue.run_bounded_accepts
    rw [length_toList]
    omega
  bulk_iff := by
    intro xs
    have hcount := toNat_count hn r
    have hsize := r.size_le
    rw [pushAll_accepted_iff hn, hcount]
    omega
  bulk_eq := by
    intro xs haccepted
    have hroom := (pushAll_accepted_iff hn r xs).1 haccepted
    exact ⟨pushAll_of_accepted haccepted, (pushes_accepted_iff r xs).2 hroom⟩
  bulk_refused := fun _ h => pushAll_of_refused h

/-!
### Too many slots
-/

/-- A ring that counts no item promises room for as many items as it can hold. -/
theorem hasSpaceFor_of_miscount {r : Ring w n α} (h : r.occupied = 0) {k : BitVec w}
    (hk : k.toNat ≤ n - 1) : r.hasSpaceFor k = true := by
  have husable := toNat_usable r.admits
  rw [hasSpaceFor, vacant, h, decide_eq_true_eq, UInt64.le_iff_toNat_le, toNat_widen r.admits,
    UInt64.sub_zero, husable]
  exact hk

/-- If it holds an item nevertheless, then so many pushes are not all accepted. -/
theorem not_accepted_of_miscount {r : Ring w n α} (hne : r.toList ≠ []) {xs : List α}
    (hlength : xs.length = n - 1) :
    ¬ ∀ a ∈ (Queue.run perform r (xs.map .push)).1, a = .accepted true := by
  have hpos := List.length_pos_iff.2 hne
  rw [length_toList] at hpos
  rw [pushes_accepted_iff]
  omega

theorem not_spaceLaw_of_miscount [Inhabited α] {r : Ring w n α} (hne : r.toList ≠ [])
    (h : r.occupied = 0) : ¬ r.SpaceLaw := by
  have hpositions : n - 1 < 2 ^ w := r.admits.2.2.1
  have hword : (BitVec.ofNat w (n - 1)).toNat = n - 1 := by
    rw [BitVec.toNat_ofNat]
    exact Nat.mod_eq_of_lt hpositions
  have hlength : (List.replicate (n - 1) (default : α)).length = n - 1 := List.length_replicate
  intro hlaw
  have hpromise := hasSpaceFor_of_miscount h (Nat.le_of_eq hword)
  exact not_accepted_of_miscount hne hlength
    ((hlaw.tested _ _ (hlength.trans hword.symm)).1 hpromise)

end Ring

end MidiBridge
