/-
Module: MidiBridge.Proofs.Port.Writing
Purpose: All that a write can do to a port. A byte that completes no packet moves the encoder on and does
  nothing else. For a byte that completes one, sending makes room if the queue is full; then the packet is
  queued and sending is tried again, or it is dropped, because even so there is no room.
Trusted boundary: none
Main exports: Port.encoded, Port.makeRoom, Port.enqueue_of_full, Port.enqueue_of_push, Port.enqueue_cases,
  Port.write_of_none, Port.write_of_some
-/
import MidiBridge.Port.Basic
import MidiBridge.Proofs.Ring.Whole

namespace MidiBridge.Port

variable {τ : Type} {i o : Nat}

/-- The packets that are counted are those in the queue. -/
theorem pendingOutput_eq (p : Port τ i o) : p.pendingOutput = p.outbound.size :=
  Ring.toNat_count p.outbound.addressable p.outbound

variable [Transport τ]

/-- The port after the encoder has taken a byte, before anything is done about its packet. -/
def encoded (p : Port τ i o) (b : UInt8) : Port τ i o :=
  { p with encoder := (p.encoder.step b).encoder }

/-- The entry of the log for what a byte caused to be dropped. -/
def discardLog (p : Port τ i o) (b : UInt8) : List LogEntry :=
  (p.encoder.step b).discard?.toList.map LogEntry.discarded

/-- What is done for room before a packet is queued. -/
def makeRoom (p : Port τ i o) : Reply τ i o Unit :=
  if p.outbound.isFull then p.trySend else { value := (), port := p, log := [] }

theorem enqueue_of_full {p : Port τ i o} (h : p.makeRoom.port.outbound.isFull = true)
    (packet : Packet) :
    p.enqueue packet =
      { value := false
        port := p.makeRoom.port
        log := p.makeRoom.log ++ [.outboundFull packet] } := by
  rw [enqueue]
  dsimp only
  rw [← makeRoom, Ring.push_of_isFull h]

theorem enqueue_of_push {p : Port τ i o} {packet : Packet} {queue : Ring 8 o Packet}
    (h : p.makeRoom.port.outbound.push packet = (queue, true)) :
    p.enqueue packet =
      { value := true
        port := (trySend { p.makeRoom.port with outbound := queue }).port
        log := p.makeRoom.log ++ (trySend { p.makeRoom.port with outbound := queue }).log } := by
  rw [enqueue]
  dsimp only
  rw [← makeRoom, h]

/-- A packet is dropped if the queue is full even after an attempt to send, and nothing else is lost.
    Otherwise it goes to the back of the queue, and sending is tried. -/
theorem enqueue_cases (p : Port τ i o) (packet : Packet) :
    (p.makeRoom.port.outbound.isFull = true ∧
      p.enqueue packet =
        { value := false
          port := p.makeRoom.port
          log := p.makeRoom.log ++ [.outboundFull packet] }) ∨
    ∃ queue : Ring 8 o Packet,
      p.makeRoom.port.outbound.isFull = false ∧
      queue.toList = p.makeRoom.port.outbound.toList ++ [packet] ∧
      p.enqueue packet =
        { value := true
          port := (trySend { p.makeRoom.port with outbound := queue }).port
          log := p.makeRoom.log ++ (trySend { p.makeRoom.port with outbound := queue }).log } := by
  cases hfull : p.makeRoom.port.outbound.isFull with
  | true => exact Or.inl ⟨rfl, enqueue_of_full hfull packet⟩
  | false =>
      obtain ⟨queue, hpush, hlist⟩ := Ring.push_of_room hfull packet
      exact Or.inr ⟨queue, rfl, hlist, enqueue_of_push hpush⟩

theorem write_of_none {p : Port τ i o} {b : UInt8} (h : (p.encoder.step b).packet? = none) :
    p.write b = { value := true, port := p.encoded b, log := p.discardLog b } := by
  rw [write]
  simp only [h]
  rfl

theorem write_of_some {p : Port τ i o} {b : UInt8} {packet : Packet}
    (h : (p.encoder.step b).packet? = some packet) :
    p.write b =
      { (p.encoded b).enqueue packet with
        log := p.discardLog b ++ ((p.encoded b).enqueue packet).log } := by
  rw [write]
  simp only [h]
  rfl

end MidiBridge.Port
