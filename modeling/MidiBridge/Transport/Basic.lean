/-
Module: MidiBridge.Transport.Basic
Purpose: What a port needs from the device stack below it: packets in, packets out, a test whether
  the way out is free, and a poll that lets the stack work. Two measures bound the loops that wait:
  how many packets are still to be received, and for how many polls the way out stays closed.
Trusted boundary: none
Main exports: Transport, HostSide
-/
import MidiBridge.Packet
import MidiBridge.Transport.Error

namespace MidiBridge

/-- A packet transport with the state `τ`. -/
class Transport (τ : Type) where
  /-- Takes the next packet that the host sent, if one has arrived. -/
  receive? : τ → Option (Packet × τ)
  /-- Tries to send a packet to the host. -/
  send : τ → Packet → Except SendError Unit × τ
  /-- Whether an attempt to send is worth while now. -/
  ready : τ → Bool
  /-- Lets the device stack work. -/
  poll : τ → τ
  /-- How many packets have arrived and were not taken yet. -/
  backlog : τ → Nat
  /-- For how many polls `ready` can stay false. -/
  delay : τ → Nat
  /-- Taking a packet leaves fewer to take. -/
  backlog_receive? {t t' : τ} {p : Packet} : receive? t = some (p, t') → backlog t' < backlog t
  /-- Taking a packet does not close the way out. -/
  delay_receive? {t t' : τ} {p : Packet} : receive? t = some (p, t') → delay t' ≤ delay t
  /-- Sending a packet does not close the way out. -/
  delay_send (t : τ) (p : Packet) : delay (send t p).2 ≤ delay t
  /-- While the way out is closed, each poll brings its opening nearer. -/
  delay_poll {t : τ} : ready t = false → delay (poll t) < delay t

/-- The other end of a transport, where events of the type `ε` may happen. An event may take packets
    that the device has sent. -/
class HostSide (τ : Type) (ε : outParam Type) where
  /-- The packets that the device has sent and that no event has taken, oldest first. -/
  sent : τ → List Packet
  /-- The transport after an event, and the packets that the event took. -/
  act : τ → ε → τ × List Packet

end MidiBridge
