/-
Module: MidiBridge.Port.Basic
Purpose: A MIDI port: a serial byte stream in both directions on top of a packet transport, for one
  cable. Bytes written go through the encoder to a queue of packets; packets received are decoded to
  a ring of bytes, from which they are read. Both are bounded, and what does not fit is dropped as a
  whole packet and logged.
Trusted boundary: none
Main exports: Port, Port.new, Port.Reply, Port.write, Port.poll, Port.available, Port.read, Port.peek,
  Port.flush, Port.flush_of_error, Port.flush_of_empty, Port.flush_of_waiting, Port.reset,
  Port.setCable, Port.pendingOutput
-/
import MidiBridge.Port.Dispatch
import MidiBridge.Port.Intake

namespace MidiBridge

/-- A port on a transport `τ`, with `i` slots for bytes on the way in and `o` slots for packets on the
    way out. One slot of each stays free. -/
structure Port (τ : Type) (i o : Nat) where
  transport : τ
  /-- The encoder of the bytes written. -/
  encoder : Encoder
  /-- The bytes received and not yet read. -/
  inbound : Ring 8 i UInt8
  /-- The packets written and not yet sent. -/
  outbound : Ring 8 o Packet

namespace Port

variable {τ : Type} {i o : Nat}

/-- The slots for bytes where no other number is chosen. -/
def defaultInboundSlots : Nat := 64

/-- The slots for packets where no other number is chosen. -/
def defaultOutboundSlots : Nat := 16

/-- What an operation on a port leads to. -/
structure Reply (τ : Type) (i o : Nat) (α : Type) where
  value : α
  port : Port τ i o
  log : List LogEntry

/-- A port with nothing received and nothing written. -/
def new (transport : τ) (cable : Cable) (hi : Ring.Admits 8 i) (ho : Ring.Admits 8 o) :
    Port τ i o :=
  ⟨transport, Encoder.new cable, Ring.empty hi, Ring.empty ho⟩

def cable (p : Port τ i o) : Cable := p.encoder.cable

def setCable (p : Port τ i o) (cable : Cable) : Port τ i o :=
  { p with encoder := p.encoder.setCable cable }

def pendingOutput (p : Port τ i o) : Nat := p.outbound.count.toNat

/-- Forgets the running status and a message written in part. Packets already queued stay. -/
def reset (p : Port τ i o) : Reply τ i o Unit :=
  { value := ()
    port := { p with encoder := p.encoder.reset }
    log := if p.encoder.framing.isSysEx then [.sysExAborted] else [] }

/-!
### Sending and receiving
-/

/-- Sends what can be sent. A failure is logged. -/
def trySend [Transport τ] (p : Port τ i o) : Reply τ i o Unit :=
  let d := dispatch p.transport p.outbound
  { value := ()
    port := { p with transport := d.transport, outbound := d.outbound }
    log :=
      match d.outcome with
      | .ok () => d.log
      | .error e => d.log ++ [.sendFailed e] }

/-- Lets the transport work, receives everything that has arrived and sends what can be sent. Answers
    how many packets arrived. -/
def poll [Transport τ] (p : Port τ i o) : Reply τ i o Nat :=
  let intake := receive (Transport.poll p.transport) p.inbound
  let sent := trySend { p with transport := intake.transport, inbound := intake.inbound }
  { value := intake.received, port := sent.port, log := intake.log ++ sent.log }

/-- Polls, then answers how many bytes can be read. -/
def available [Transport τ] (p : Port τ i o) : Reply τ i o Nat :=
  let polled := p.poll
  { value := polled.port.inbound.count.toNat, port := polled.port, log := polled.log }

/-- Polls, then takes the next byte. -/
def read [Transport τ] (p : Port τ i o) : Reply τ i o (Option UInt8) :=
  let polled := p.poll
  let popped := polled.port.inbound.pop
  { value := popped.1, port := { polled.port with inbound := popped.2 }, log := polled.log }

/-- Polls, then answers the next byte without taking it. -/
def peek [Transport τ] (p : Port τ i o) : Reply τ i o (Option UInt8) :=
  let polled := p.poll
  { value := polled.port.inbound.peek, port := polled.port, log := polled.log }

/-!
### Writing

A packet that the byte completes is queued and the queue is sent as far as possible. When the queue is
full, sending is tried once before, to make room.
-/

/-- Queues a packet, and answers whether there was room for it. -/
def enqueue [Transport τ] (p : Port τ i o) (packet : Packet) : Reply τ i o Bool :=
  let made := if p.outbound.isFull then p.trySend else { value := (), port := p, log := [] }
  match made.port.outbound.push packet with
  | (_, false) => { value := false, port := made.port, log := made.log ++ [.outboundFull packet] }
  | (outbound, true) =>
      let sent := trySend { made.port with outbound := outbound }
      { value := true, port := sent.port, log := made.log ++ sent.log }

/-- Writes a byte. The answer is false if the byte completed a packet for which there was no room. -/
def write [Transport τ] (p : Port τ i o) (b : UInt8) : Reply τ i o Bool :=
  let outcome := p.encoder.step b
  let discarded := outcome.discard?.toList.map LogEntry.discarded
  let encoded := { p with encoder := outcome.encoder }
  match outcome.packet? with
  | none => { value := true, port := encoded, log := discarded }
  | some packet =>
      let queued := encoded.enqueue packet
      { queued with log := discarded ++ queued.log }

/-!
### Waiting until everything is sent

As long as packets are queued and the way out is closed, the transport is polled. Each poll brings the
opening nearer, which is why the waiting ends.
-/

/-- If packets are left although no attempt failed, the next poll shortens the wait. -/
theorem delay_waiting [Transport τ] {transport : τ} {outbound : Ring 8 o Packet}
    (hok : (dispatch transport outbound).outcome = .ok ())
    (hleft : ¬ (dispatch transport outbound).outbound.isEmpty = true) (inbound : Ring 8 i UInt8) :
    Transport.delay
        (receive (Transport.poll (dispatch transport outbound).transport) inbound).transport
      < Transport.delay transport := by
  have hready : Transport.ready (dispatch transport outbound).transport = false :=
    (dispatch_stops transport outbound hok).resolve_left hleft
  calc
    _ ≤ Transport.delay (Transport.poll (dispatch transport outbound).transport) :=
        delay_receive _ inbound
    _ < Transport.delay (dispatch transport outbound).transport := Transport.delay_poll hready
    _ ≤ Transport.delay transport := delay_dispatch transport outbound

/-- Sends all queued packets, and keeps receiving while it waits. Ends with the first failure, which
    is answered and not logged. -/
def flush [Transport τ] (p : Port τ i o) : Reply τ i o (Except SendError Unit) :=
  let d := dispatch p.transport p.outbound
  match hok : d.outcome with
  | .error e =>
      { value := .error e
        port := { p with transport := d.transport, outbound := d.outbound }
        log := d.log }
  | .ok () =>
      if hleft : d.outbound.isEmpty then
        { value := .ok ()
          port := { p with transport := d.transport, outbound := d.outbound }
          log := d.log }
      else
        let intake := receive (Transport.poll d.transport) p.inbound
        have : Transport.delay intake.transport < Transport.delay p.transport :=
          delay_waiting hok hleft p.inbound
        let rest := flush
          { p with
            transport := intake.transport
            inbound := intake.inbound
            outbound := d.outbound }
        { rest with log := d.log ++ intake.log ++ rest.log }
termination_by Transport.delay p.transport

section Equations

variable [Transport τ] {p : Port τ i o}

theorem flush_of_error {e : SendError} (h : (dispatch p.transport p.outbound).outcome = .error e) :
    p.flush =
      let d := dispatch p.transport p.outbound
      { value := .error e
        port := { p with transport := d.transport, outbound := d.outbound }
        log := d.log } := by
  rw [flush]
  split
  · next e' herror =>
      rw [h] at herror
      cases herror
      rfl
  · next hok => rw [h] at hok; cases hok

theorem flush_of_empty (hok : (dispatch p.transport p.outbound).outcome = .ok ())
    (hempty : (dispatch p.transport p.outbound).outbound.isEmpty = true) :
    p.flush =
      let d := dispatch p.transport p.outbound
      { value := .ok ()
        port := { p with transport := d.transport, outbound := d.outbound }
        log := d.log } := by
  rw [flush]
  split
  · next e herror => rw [hok] at herror; cases herror
  · rw [dif_pos hempty]

/-- What is left is sent by another flush, after a poll. -/
theorem flush_of_waiting (hok : (dispatch p.transport p.outbound).outcome = .ok ())
    (hleft : ¬ (dispatch p.transport p.outbound).outbound.isEmpty = true) :
    p.flush =
      let d := dispatch p.transport p.outbound
      let intake := receive (Transport.poll d.transport) p.inbound
      let rest := flush
        { p with
          transport := intake.transport
          inbound := intake.inbound
          outbound := d.outbound }
      { rest with log := d.log ++ intake.log ++ rest.log } := by
  rw [flush]
  split
  · next e herror => rw [hok] at herror; cases herror
  · rw [dif_neg hleft]

end Equations

end Port

end MidiBridge
