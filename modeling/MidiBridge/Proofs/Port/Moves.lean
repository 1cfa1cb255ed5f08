/-
Module: MidiBridge.Proofs.Port.Moves
Purpose: What a port does in the course of its operations. There are eight moves, and each has its part of
  the log. An operation is some of them in a row, so what every move keeps is kept by every operation, and is
  proved for the moves only. Two things are no moves: the byte that a read takes out of the ring, and the
  last attempt of a flush, whose failure is answered and not logged.
Trusted boundary: none
Main exports: Port.takeIn, Port.sendOut, Port.Move, Port.Moves, Port.Moves.lift, Port.moves_poll,
  Port.moves_write, Port.moves_writeAll, Port.moves_flush, Port.moves_perform
-/
import MidiBridge.Port.Session
import MidiBridge.Proofs.Port.Writing

namespace MidiBridge.Port

variable {τ ε : Type} {i o : Nat}

/-!
### What the encoder gives up

It is logged by two of the moves, and they log nothing else.
-/

theorem forall_mem_discardLog {P : LogEntry → Prop} {p : Port τ i o} {b : UInt8}
    (h : ∀ discard, P (.discarded discard)) : ∀ entry ∈ p.discardLog b, P entry := by
  intro entry hentry
  obtain ⟨discard, -, rfl⟩ := List.mem_map.1 hentry
  exact h discard

theorem forall_mem_reset {P : LogEntry → Prop} {p : Port τ i o} (h : P .sysExAborted) :
    ∀ entry ∈ p.reset.log, P entry := by
  simp only [reset]
  split
  · exact List.forall_mem_singleton.2 h
  · exact List.forall_mem_nil P

/-!
### The two halves of a poll
-/

section Halves

variable [Transport τ]

/-- The first half of a poll: the transport works, and everything that has arrived is received. -/
def takeIn (p : Port τ i o) : Reply τ i o Nat :=
  let intake := receive (Transport.poll p.transport) p.inbound
  { value := intake.received
    port := { p with transport := intake.transport, inbound := intake.inbound }
    log := intake.log }

/-- The other half, where a failure is answered and not logged. -/
def sendOut (p : Port τ i o) : Reply τ i o (Except SendError Unit) :=
  let d := dispatch p.transport p.outbound
  { value := d.outcome
    port := { p with transport := d.transport, outbound := d.outbound }
    log := d.log }

theorem poll_eq_takeIn (p : Port τ i o) :
    p.poll =
      { value := p.takeIn.value
        port := p.takeIn.port.trySend.port
        log := p.takeIn.log ++ p.takeIn.port.trySend.log } := rfl

theorem trySend_of_ok {p : Port τ i o} (h : p.sendOut.value = .ok ()) :
    p.trySend = { value := (), port := p.sendOut.port, log := p.sendOut.log } := by
  have hok : (dispatch p.transport p.outbound).outcome = .ok () := h
  simp only [trySend, hok]
  rfl

theorem trySend_of_error {p : Port τ i o} {e : SendError} (h : p.sendOut.value = .error e) :
    p.trySend = { value := (), port := p.sendOut.port, log := p.sendOut.log ++ [.sendFailed e] } := by
  have herror : (dispatch p.transport p.outbound).outcome = .error e := h
  simp only [trySend, herror]
  rfl

end Halves

/-!
### Moves
-/

/-- One thing that a port does, with what it logs. -/
inductive Move [Transport τ] : Port τ i o → List LogEntry → Port τ i o → Prop where
  /-- The encoder takes a byte. -/
  | encode (p : Port τ i o) (b : UInt8) : Move p (p.discardLog b) (p.encoded b)
  /-- A packet goes to the back of the queue. -/
  | enqueue {p : Port τ i o} {packet : Packet} {queue : Ring 8 o Packet} :
      p.outbound.push packet = (queue, true) → Move p [] { p with outbound := queue }
  /-- There is no room for a packet. -/
  | refuse {p : Port τ i o} (packet : Packet) :
      p.outbound.isFull = true → Move p [.outboundFull packet] p
  | take (p : Port τ i o) : Move p p.takeIn.log p.takeIn.port
  | send {p : Port τ i o} : p.sendOut.value = .ok () → Move p p.sendOut.log p.sendOut.port
  /-- What can be sent is sent, and then an attempt fails. -/
  | fail {p : Port τ i o} {e : SendError} :
      p.sendOut.value = .error e → Move p (p.sendOut.log ++ [.sendFailed e]) p.sendOut.port
  | reset (p : Port τ i o) : Move p p.reset.log p.reset.port
  | setCable (p : Port τ i o) (cable : Cable) : Move p [] (p.setCable cable)

/-- Some moves in a row, with all that they log. -/
inductive Moves [Transport τ] : Port τ i o → List LogEntry → Port τ i o → Prop where
  | refl (p : Port τ i o) : Moves p [] p
  | step {p q r : Port τ i o} {log log' : List LogEntry} :
      Move p log q → Moves q log' r → Moves p (log ++ log') r

section Operations

variable [Transport τ]

theorem Move.moves {p q : Port τ i o} {log : List LogEntry} (h : Move p log q) : Moves p log q := by
  have hone := Moves.step h (.refl q)
  rwa [List.append_nil] at hone

theorem Moves.trans {p q r : Port τ i o} {log log' : List LogEntry} (h : Moves p log q)
    (h' : Moves q log' r) : Moves p (log ++ log') r := by
  induction h with
  | refl p => exact h'
  | step hmove _ ih =>
      rw [List.append_assoc]
      exact .step hmove (ih h')

/-- What holds of the moves, of none at all and of two parts in a row holds of every row of moves. -/
theorem Moves.lift {motive : Port τ i o → List LogEntry → Port τ i o → Prop}
    (hrefl : ∀ p, motive p [] p)
    (htrans : ∀ {p q r log log'}, motive p log q → motive q log' r → motive p (log ++ log') r)
    (hmove : ∀ {p q log}, Move p log q → motive p log q) {p q : Port τ i o} {log : List LogEntry}
    (h : Moves p log q) : motive p log q := by
  induction h with
  | refl p => exact hrefl p
  | step hfirst _ ih => exact htrans (hmove hfirst) ih

/-!
### Operations
-/

theorem moves_trySend (p : Port τ i o) : Moves p p.trySend.log p.trySend.port := by
  cases h : p.sendOut.value with
  | ok =>
      rw [trySend_of_ok h]
      exact (Move.send h).moves
  | error e =>
      rw [trySend_of_error h]
      exact (Move.fail h).moves

theorem moves_poll (p : Port τ i o) : Moves p p.poll.log p.poll.port :=
  .step (.take p) (moves_trySend p.takeIn.port)

theorem moves_makeRoom (p : Port τ i o) : Moves p p.makeRoom.log p.makeRoom.port := by
  unfold makeRoom
  split
  · exact moves_trySend p
  · exact .refl p

theorem moves_enqueue (p : Port τ i o) (packet : Packet) :
    Moves p (p.enqueue packet).log (p.enqueue packet).port := by
  have hroom := moves_makeRoom p
  cases hfull : p.makeRoom.port.outbound.isFull with
  | true =>
      rw [enqueue_of_full hfull]
      exact hroom.trans (Move.refuse packet hfull).moves
  | false =>
      obtain ⟨queue, hpush, -⟩ := Ring.push_of_room hfull packet
      rw [enqueue_of_push hpush]
      exact hroom.trans (.step (.enqueue hpush) (moves_trySend _))

theorem moves_write (p : Port τ i o) (b : UInt8) : Moves p (p.write b).log (p.write b).port := by
  cases h : (p.encoder.step b).packet? with
  | none =>
      rw [write_of_none h]
      exact (Move.encode p b).moves
  | some packet =>
      rw [write_of_some h]
      exact .step (.encode p b) (moves_enqueue (p.encoded b) packet)

theorem moves_writeAll (p : Port τ i o) (bs : List UInt8) :
    Moves p (p.writeAll bs).log (p.writeAll bs).port := by
  induction bs generalizing p with
  | nil => exact .refl p
  | cons b bs ih => exact (moves_write p b).trans (ih (p.write b).port)

/-- A flush sends what it can, and goes on receiving and sending until it ends with an attempt whose outcome
    is its answer. -/
theorem moves_flush (p : Port τ i o) :
    ∃ (q : Port τ i o) (log : List LogEntry), Moves p log q ∧
      p.flush = { value := q.sendOut.value, port := q.sendOut.port, log := log ++ q.sendOut.log } := by
  fun_induction flush p with
  | case1 p d e hok =>
      refine ⟨p, [], .refl p, ?_⟩
      have hvalue : p.sendOut.value = .error e := hok
      rw [hvalue]
      rfl
  | case2 p d hok hleft =>
      refine ⟨p, [], .refl p, ?_⟩
      have hvalue : p.sendOut.value = .ok () := hok
      rw [hvalue]
      rfl
  | case3 p d hok hleft intake hdelay rest ih =>
      obtain ⟨q, log, hmoves, hrest⟩ := ih
      have hsend : Move p d.log p.sendOut.port := .send hok
      have htake : Move p.sendOut.port intake.log p.sendOut.port.takeIn.port := .take _
      refine ⟨q, d.log ++ (intake.log ++ log), .step hsend (.step htake hmoves), ?_⟩
      have hflush : rest = _ := hrest
      rw [hflush]
      simp only [List.append_assoc]

variable [HostSide τ ε]

/-- The commands that are neither a flush, nor take a byte from the ring, nor are the host's. -/
def Command.isPlain : Command ε → Bool
  | .flush | .flushStream | .read | .host _ => false
  | _ => true

theorem moves_perform {c : Command ε} (h : c.isPlain = true) (p : Port τ i o) :
    Moves p (p.perform c).log (p.perform c).port := by
  cases c with
  | write b => exact moves_write p b
  | writeAll bs => exact moves_writeAll p bs
  | poll | available | peek => exact moves_poll p
  | reset => exact (Move.reset p).moves
  | setCable cable => exact (Move.setCable p cable).moves
  | flush | flushStream | read => cases h
  | host event => cases h

end Operations

end MidiBridge.Port
