/-
Module: MidiBridge.Proofs.Port.Turns
Purpose: What becomes of packets that are received one after the other. Each has its turn: it finds some
  bytes in the inbound ring and leaves some. At its turn a packet is accepted, and adds all of its serial
  bytes, or it adds none; its code and the free places decide. The bytes that were there stay in front.
Trusted boundary: human-reviewed spec
Main exports: Port.toList_accept, Port.Turn, Port.Turn.added, Port.turns, Port.acceptAll, Port.acceptLog,
  Port.added_of_mem_turns, Port.toList_acceptAll, Port.turns_append, Port.Turn.Accepted,
  Port.Turn.acceptedStream, Port.added_of_mem_turns_eq, Port.acceptedStream_eq, Port.before_of_turns
-/
import MidiBridge.Port.Intake
import MidiBridge.Proofs.Ring.Whole

namespace MidiBridge.Port

variable {i : Nat}

/-- A packet whose payload fits adds it. A reserved code comes with an empty payload, which always
    fits. -/
theorem toList_accept_of_room {inbound : Ring 8 i UInt8} {p : Packet}
    (h : inbound.toList.length + p.payload.length ≤ i - 1) :
    (accept inbound p).1.toList = inbound.toList ++ p.payload := by
  rw [Ring.length_toList] at h
  obtain ⟨inbound', hpush, hlist⟩ := Ring.pushAll_of_room inbound.addressable h
  rw [accept, Packet.toList_decode]
  cases hpayload : p.payload with
  | nil => exact (List.append_nil inbound.toList).symm
  | cons b bs =>
      rw [hpayload] at hpush hlist
      rw [hpush]
      exact hlist

theorem toList_accept_of_lack {inbound : Ring 8 i UInt8} {p : Packet}
    (h : ¬ inbound.toList.length + p.payload.length ≤ i - 1) :
    (accept inbound p).1.toList = inbound.toList := by
  rw [Ring.length_toList] at h
  rw [accept, Packet.toList_decode, Ring.pushAll_of_lack inbound.addressable h]
  cases p.payload with
  | nil => rfl
  | cons b bs => rfl

/-- Whatever a packet does, the bytes that were in the ring stay in front. -/
theorem toList_accept (inbound : Ring 8 i UInt8) (p : Packet) :
    (accept inbound p).1.toList
      = inbound.toList ++ (accept inbound p).1.toList.drop inbound.toList.length := by
  by_cases hroom : inbound.toList.length + p.payload.length ≤ i - 1
  · rw [toList_accept_of_room hroom, List.drop_left]
  · rw [toList_accept_of_lack hroom, List.drop_length, List.append_nil]

/-!
### The turns of packets
-/

/-- The turn of a packet: the bytes that it finds in the ring, and the bytes that it leaves there. -/
structure Turn where
  packet : Packet
  before : List UInt8
  after : List UInt8

/-- The bytes that the packet added. -/
def Turn.added (t : Turn) : List UInt8 := t.after.drop t.before.length

/-- The free places are enough for the payload. -/
def Turn.HasRoom (capacity : Nat) (t : Turn) : Prop :=
  t.before.length + t.packet.payload.length ≤ capacity

instance (capacity : Nat) (t : Turn) : Decidable (t.HasRoom capacity) :=
  inferInstanceAs (Decidable (_ ≤ _))

/-- The turns of packets that arrive one after the other. -/
def turns (inbound : Ring 8 i UInt8) : List Packet → List Turn
  | [] => []
  | p :: ps =>
      ⟨p, inbound.toList, (accept inbound p).1.toList⟩ :: turns (accept inbound p).1 ps

def acceptAll (inbound : Ring 8 i UInt8) (ps : List Packet) : Ring 8 i UInt8 :=
  ps.foldl (fun inbound p => (accept inbound p).1) inbound

/-- The log of accepting packets one after the other. -/
def acceptLog (inbound : Ring 8 i UInt8) : List Packet → List LogEntry
  | [] => []
  | p :: ps => (accept inbound p).2 ++ acceptLog (accept inbound p).1 ps

theorem map_packet_turns (inbound : Ring 8 i UInt8) (ps : List Packet) :
    (turns inbound ps).map Turn.packet = ps := by
  induction ps generalizing inbound with
  | nil => rfl
  | cons p ps ih => rw [turns, List.map_cons, ih]

/-- Behind every turn there is a ring that takes the packet. -/
theorem exists_ring_of_mem_turns {inbound : Ring 8 i UInt8} {ps : List Packet} {t : Turn}
    (h : t ∈ turns inbound ps) :
    ∃ ring : Ring 8 i UInt8, t.before = ring.toList ∧ t.after = (accept ring t.packet).1.toList := by
  induction ps generalizing inbound with
  | nil => cases h
  | cons p ps ih =>
      rcases List.mem_cons.1 h with hfirst | hrest
      · rw [hfirst]
        exact ⟨inbound, rfl, rfl⟩
      · exact ih hrest

theorem after_eq_append {inbound : Ring 8 i UInt8} {ps : List Packet} {t : Turn}
    (h : t ∈ turns inbound ps) : t.after = t.before ++ t.added := by
  obtain ⟨ring, hbefore, hafter⟩ := exists_ring_of_mem_turns h
  rw [Turn.added, hbefore, hafter]
  exact toList_accept ring t.packet

/-- At its turn a packet adds all of its payload or nothing, and the free places decide. -/
theorem added_of_mem_turns {inbound : Ring 8 i UInt8} {ps : List Packet} {t : Turn}
    (h : t ∈ turns inbound ps) :
    (t.HasRoom (i - 1) → t.added = t.packet.payload) ∧ (¬ t.HasRoom (i - 1) → t.added = []) := by
  obtain ⟨ring, hbefore, hafter⟩ := exists_ring_of_mem_turns h
  rw [Turn.added, hafter, hbefore]
  constructor
  · intro hroom
    rw [toList_accept_of_room (hbefore ▸ hroom)]
    exact List.drop_left
  · intro hlack
    rw [toList_accept_of_lack (hbefore ▸ hlack)]
    exact List.drop_length

theorem toList_acceptAll (inbound : Ring 8 i UInt8) (ps : List Packet) :
    (acceptAll inbound ps).toList = inbound.toList ++ (turns inbound ps).flatMap Turn.added := by
  induction ps generalizing inbound with
  | nil => exact (List.append_nil inbound.toList).symm
  | cons p ps ih =>
      have hrest := ih (accept inbound p).1
      rw [toList_accept inbound p, List.append_assoc] at hrest
      exact hrest

theorem acceptAll_append (inbound : Ring 8 i UInt8) (ps qs : List Packet) :
    acceptAll inbound (ps ++ qs) = acceptAll (acceptAll inbound ps) qs := List.foldl_append

theorem turns_append (inbound : Ring 8 i UInt8) (ps qs : List Packet) :
    turns inbound (ps ++ qs) = turns inbound ps ++ turns (acceptAll inbound ps) qs := by
  induction ps generalizing inbound with
  | nil => rfl
  | cons p ps ih => exact congrArg (_ :: ·) (ih (accept inbound p).1)

/-!
### The fate of a packet
-/

/-- A packet is accepted at its turn if its code is not reserved and its bytes find room. -/
def Turn.Accepted (capacity : Nat) (t : Turn) : Prop :=
  ¬ t.packet.code.Reserved ∧ t.HasRoom capacity

instance (capacity : Nat) : DecidablePred (Turn.Accepted capacity) :=
  fun _ => inferInstanceAs (Decidable (_ ∧ _))

/-- The serial stream of the packets that were accepted in some turns. -/
def Turn.acceptedStream (capacity : Nat) (ts : List Turn) : List UInt8 :=
  Packet.stream ((ts.filter (Turn.Accepted capacity ·)).map Turn.packet)

theorem payload_eq_nil_iff (p : Packet) : p.payload = [] ↔ p.code.Reserved := by
  rw [← List.length_eq_zero_iff, Packet.length_payload]
  exact CodeIndex.payloadLength_eq_zero_iff p.code

/-- An accepted packet adds its serial bytes, and any other adds nothing. -/
theorem added_of_mem_turns_eq {inbound : Ring 8 i UInt8} {ps : List Packet} {t : Turn}
    (h : t ∈ turns inbound ps) :
    t.added = if t.Accepted (i - 1) then t.packet.decode.toList else [] := by
  obtain ⟨hpayload, hnothing⟩ := added_of_mem_turns h
  rw [Packet.toList_decode]
  by_cases hroom : t.HasRoom (i - 1)
  · rw [hpayload hroom]
    by_cases hreserved : t.packet.code.Reserved
    · rw [if_neg fun haccepted => haccepted.1 hreserved, (payload_eq_nil_iff t.packet).2 hreserved]
    · rw [if_pos ⟨hreserved, hroom⟩]
  · rw [hnothing hroom, if_neg fun haccepted => hroom haccepted.2]

/-- What is in the ring after a turn. -/
theorem after_of_mem_turns {inbound : Ring 8 i UInt8} {ps : List Packet} {t : Turn}
    (h : t ∈ turns inbound ps) :
    t.after = if t.Accepted (i - 1) then t.before ++ t.packet.decode.toList else t.before := by
  rw [after_eq_append h, added_of_mem_turns_eq h]
  split
  · rfl
  · exact List.append_nil t.before

theorem acceptedStream_eq {capacity : Nat} {ts : List Turn}
    (h : ∀ t ∈ ts, t.added = if t.Accepted capacity then t.packet.decode.toList else []) :
    Turn.acceptedStream capacity ts = ts.flatMap Turn.added := by
  induction ts with
  | nil => rfl
  | cons t ts ih =>
      have hrest := ih fun u hu => h u (List.mem_cons_of_mem t hu)
      rw [List.flatMap_cons, h t (List.mem_cons_self ..), ← hrest]
      by_cases haccepted : t.Accepted capacity
      · simp [Turn.acceptedStream, Packet.stream, haccepted]
      · simp [Turn.acceptedStream, Packet.stream, haccepted]

/-- A packet finds what was in the ring before and what the packets before it have added. -/
theorem before_of_turns {inbound : Ring 8 i UInt8} {ps : List Packet} {us vs : List Turn} {t : Turn}
    (h : turns inbound ps = us ++ t :: vs) : t.before = inbound.toList ++ us.flatMap Turn.added := by
  induction ps generalizing inbound us with
  | nil =>
      have hlength := congrArg List.length h
      simp [turns] at hlength
  | cons p ps ih =>
      cases us with
      | nil =>
          obtain ⟨rfl, -⟩ := List.cons.inj h
          exact (List.append_nil inbound.toList).symm
      | cons u us =>
          obtain ⟨rfl, hrest⟩ := List.cons.inj h
          have hfirst := toList_accept inbound p
          calc
            t.before = (accept inbound p).1.toList ++ us.flatMap Turn.added := ih hrest
            _ = inbound.toList ++ ((accept inbound p).1.toList.drop inbound.toList.length
                  ++ us.flatMap Turn.added) := by rw [hfirst, List.append_assoc, ← hfirst]

end MidiBridge.Port
