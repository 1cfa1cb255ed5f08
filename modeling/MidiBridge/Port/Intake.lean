/-
Module: MidiBridge.Port.Intake
Purpose: The way in. All packets that have arrived are taken from the transport, and the bytes of each
  go to the inbound ring together or not at all.
Trusted boundary: none
Main exports: Port.accept, Port.Intake, Port.receive
-/
import MidiBridge.Log
import MidiBridge.Ring.Basic
import MidiBridge.Transport.Basic

namespace MidiBridge.Port

variable {τ : Type} {i : Nat}

/-- Appends the bytes of a packet to the inbound ring. A packet without bytes and a packet whose bytes
    do not fit leave the ring as it was, and each has its entry in the log. -/
def accept (inbound : Ring 8 i UInt8) (p : Packet) : Ring 8 i UInt8 × List LogEntry :=
  if p.decode.toList.isEmpty then
    (inbound, [.received p, .reservedCode p.code])
  else
    match inbound.pushAll p.decode.toList with
    | (inbound, true) => (inbound, [.received p])
    | (inbound, false) => (inbound, [.received p, .inboundFull p.decode.toList])

/-- What came of taking all packets that had arrived. -/
structure Intake (τ : Type) (i : Nat) where
  /-- How many packets there were, the dropped ones included. The count is taken not to reach `2 ^ 64`, where a
      machine word would be at its end: packets that have arrived lie in memory. -/
  received : Nat
  /-- The transport, from which nothing more is to be taken. -/
  transport : τ
  inbound : Ring 8 i UInt8
  log : List LogEntry

def receive [Transport τ] (transport : τ) (inbound : Ring 8 i UInt8) : Intake τ i :=
  match h : Transport.receive? transport with
  | none => ⟨0, transport, inbound, []⟩
  | some (p, transport') =>
      have : Transport.backlog transport' < Transport.backlog transport :=
        Transport.backlog_receive? h
      let accepted := accept inbound p
      let rest := receive transport' accepted.1
      { rest with received := rest.received + 1, log := accepted.2 ++ rest.log }
termination_by Transport.backlog transport

/-!
### One packet more

The two equations of `receive`, without the bookkeeping of its termination.
-/

theorem receive_of_none [Transport τ] {transport : τ} (h : Transport.receive? transport = none)
    (inbound : Ring 8 i UInt8) : receive transport inbound = ⟨0, transport, inbound, []⟩ := by
  rw [receive]
  split
  · rfl
  · next hsome => rw [h] at hsome; cases hsome

theorem receive_of_some [Transport τ] {transport transport' : τ} {p : Packet}
    (h : Transport.receive? transport = some (p, transport')) (inbound : Ring 8 i UInt8) :
    receive transport inbound =
      { receive transport' (accept inbound p).1 with
        received := (receive transport' (accept inbound p).1).received + 1
        log := (accept inbound p).2 ++ (receive transport' (accept inbound p).1).log } := by
  rw [receive]
  split
  · next hnone => rw [h] at hnone; cases hnone
  · next q t hsome =>
      rw [h] at hsome
      cases hsome
      rfl

/-- Receiving does not close the way out. -/
theorem delay_receive [Transport τ] (transport : τ) (inbound : Ring 8 i UInt8) :
    Transport.delay (receive transport inbound).transport ≤ Transport.delay transport := by
  fun_induction receive transport inbound with
  | case1 transport inbound h => exact Nat.le_refl _
  | case2 transport inbound p transport' h _ accepted rest ih =>
      exact Nat.le_trans ih (Transport.delay_receive? h)

end MidiBridge.Port
