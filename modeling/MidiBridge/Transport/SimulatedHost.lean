/-
Module: MidiBridge.Transport.SimulatedHost
Purpose: A transport whose host is simulated in memory. The way out can be stalled for a number of
  polls; while it is, sending fails. After the host is gone, sending fails at once and for good,
  stalled or not, so that waiting for it is pointless.
Trusted boundary: none
Main exports: SimulatedHost, SimulatedHost.new, SimulatedHost.send, SimulatedHost.ready,
  SimulatedHost.poll, SimulatedHost.Event, SimulatedHost.act
-/
import MidiBridge.Transport.Link

namespace MidiBridge

/-- A simulated host with a way out that can be stalled. -/
structure SimulatedHost where
  link : Link := {}
  /-- How many polls the stall will still last. It only runs down, so it is a machine word if the stall was
      asked for with one. -/
  stall : Nat := 0
  /-- How many polls there were. The count is taken not to reach `2 ^ 64`, where a machine word would be at its
      end. -/
  polls : Nat := 0
deriving DecidableEq, Repr, Inhabited

namespace SimulatedHost

/-- A host that has sent nothing and is ready for everything. -/
def new : SimulatedHost := {}

def receive? (t : SimulatedHost) : Option (Packet × SimulatedHost) :=
  t.link.receiveInto fun link => { t with link := link }

/-- An attempt to send is worth while without a stall, and also when the host is gone: then it fails
    at once. -/
def ready (t : SimulatedHost) : Bool := !t.link.connected || t.stall == 0

/-- Sends a packet. A missing host is reported before a stall. -/
def send (t : SimulatedHost) (p : Packet) : Except SendError Unit × SimulatedHost :=
  if !t.link.connected then (.error .disconnected, t)
  else if t.stall != 0 then (.error (.failed "endpoint busy"), t)
  else
    ((t.link.send p).1, { t with link := (t.link.send p).2 })

/-- Counts a poll and lets a stall run down. -/
def poll (t : SimulatedHost) : SimulatedHost :=
  { t with stall := t.stall - 1, polls := t.polls + 1 }

/-- What may happen at the host. -/
inductive Event where
  | link (event : Link.Event)
  /-- The way out is stalled for this many polls, whatever it was before. -/
  | stall (polls : Nat)
deriving DecidableEq, Repr, Inhabited

/-- The transport after an event at the host, and the packets that the host took. -/
def act (t : SimulatedHost) : Event → SimulatedHost × List Packet
  | .link event => ({ t with link := (t.link.act event).1 }, (t.link.act event).2)
  | .stall polls => ({ t with stall := polls }, [])

/-- For how many polls the way out stays closed. -/
def delay (t : SimulatedHost) : Nat := if t.link.connected then t.stall else 0

/-!
### Measures
-/

theorem delay_receive? {t t' : SimulatedHost} {p : Packet} (h : t.receive? = some (p, t')) :
    t'.delay ≤ t.delay := by
  obtain ⟨link, hl, rfl⟩ := Link.receiveInto_eq_some h
  unfold Link.receive? at hl
  split at hl
  · cases hl
  · cases hl
    exact Nat.le_refl _

theorem delay_send (t : SimulatedHost) (p : Packet) : (t.send p).2.delay ≤ t.delay := by
  unfold send
  split
  · exact Nat.le_refl _
  · split
    · exact Nat.le_refl _
    · simp only [delay, Link.connected_send]
      exact Nat.le_refl _

/-- A closed way out means a stall, and a poll shortens it. -/
theorem delay_poll {t : SimulatedHost} (h : t.ready = false) : t.poll.delay < t.delay := by
  simp only [ready, Bool.or_eq_false_iff, Bool.not_eq_false', beq_eq_false_iff_ne, ne_eq] at h
  simp only [delay, poll, h.1, if_true]
  omega

instance : Transport SimulatedHost where
  receive? := receive?
  send := send
  ready := ready
  poll := poll
  backlog t := t.link.inbound.length
  delay := delay
  backlog_receive? h := by
    obtain ⟨link, hl, rfl⟩ := Link.receiveInto_eq_some h
    exact Link.length_receive? hl
  delay_receive? h := delay_receive? h
  delay_send := delay_send
  delay_poll h := delay_poll h

instance : HostSide SimulatedHost Event where
  sent t := t.link.sent
  act := act

end SimulatedHost

end MidiBridge
