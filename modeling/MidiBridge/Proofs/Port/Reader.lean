/-
Module: MidiBridge.Proofs.Port.Reader
Purpose: What a reader gets does not depend on when packets are received. They may wait on the link and be
  received by a later poll or flush, or be received at once: no byte is read before everything that waits has
  been received, so each packet finds the same bytes in the ring. The reader is therefore described by a ring
  that takes the packets as soon as the host sends them, and that nothing changes but deliveries and reads.
Trusted boundary: human-reviewed spec
Main exports: Port.Command.isReading, Port.Command.brings, Port.Command.isInward, Port.heard, Port.fates,
  Port.settled, Port.ahead, Port.Reader.next, Port.settled_perform, Port.ahead_perform,
  Port.heard_eq_replay, Port.fates_eq_replay
-/
import MidiBridge.Proofs.Port.Reception

namespace MidiBridge.Port

variable {i o : Nat}

/-- The commands by which a reader learns something. -/
def Command.isReading : Command SimulatedHost.Event → Bool
  | .available | .read | .peek => true
  | _ => false

/-- The host sends packets of its own. -/
def Command.isDelivery : Command SimulatedHost.Event → Bool
  | .host (.link (.deliver _)) => true
  | _ => false

/-- The commands of a reader, and the deliveries. -/
def Command.isInward (c : Command SimulatedHost.Event) : Bool := c.isReading || c.isDelivery

/-- The packets of a delivery. -/
def Command.brings : Command SimulatedHost.Event → List Packet
  | .host (.link (.deliver ps)) => ps
  | _ => []

/-- The answers to a reader. -/
def heard (p : Port SimulatedHost i o) (c : Command SimulatedHost.Event) : List Answer :=
  if c.isReading then [(p.perform c).value] else []

/-!
### The ring without delay

What waits on the link has its turns ahead. Whichever command receives it, these are the turns that it gets.
-/

/-- The ring once everything that waits has been received. -/
def settled (p : Port SimulatedHost i o) : Ring 8 i UInt8 :=
  acceptAll p.inbound p.transport.link.inbound

/-- The turns of the packets that wait. -/
def ahead (p : Port SimulatedHost i o) : List Turn := turns p.inbound p.transport.link.inbound

/-- The turns of all packets that the host sends in a session. Those of packets that still wait in the end
    come later, and yet nothing that comes later can change them. -/
def fates (p : Port SimulatedHost i o) (cs : List (Command SimulatedHost.Event)) : List Turn :=
  gather arrivals p cs ++ (p.after cs).ahead

/-!
### One command
-/

/-- A poll receives everything that waits. -/
theorem inbound_poll (p : Port SimulatedHost i o) : p.poll.port.inbound = p.settled :=
  congrArg WayIn.ring (wayIn_poll p)

theorem settled_read (p : Port SimulatedHost i o) :
    (p.perform (ε := SimulatedHost.Event) .read).port.settled = p.settled.pop.2 := by
  have hwaiting : p.poll.port.transport.link.inbound = [] := congrArg WayIn.waiting (wayIn_poll p)
  calc
    acceptAll p.poll.port.inbound.pop.2 p.poll.port.transport.link.inbound
        = p.poll.port.inbound.pop.2 := by rw [hwaiting]; rfl
    _ = p.settled.pop.2 := by rw [inbound_poll]

/-- Receiving brings the ring nearer to where it gets anyway. -/
theorem settled_of_ne_read {c : Command SimulatedHost.Event} (h : c ≠ .read)
    (p : Port SimulatedHost i o) :
    (p.perform c).port.settled = acceptAll p.settled (p.delivered c) := by
  rw [settled, settled, inbound_perform h, ← acceptAll_append, ← acceptAll_append, packets_perform]

/-- The turns ahead are those of the packets that arrive with the next command and of those that still wait
    then. Packets that the host sends line up behind them, and find the settled ring. -/
theorem ahead_perform (p : Port SimulatedHost i o) (c : Command SimulatedHost.Event) :
    p.ahead ++ turns p.settled (p.delivered c) = p.arrivals c ++ (p.perform c).port.ahead := by
  by_cases hread : c = .read
  · -- After the poll nothing waits, and it does not matter that a byte is taken then.
    subst hread
    obtain ⟨hlog, -, hwaiting⟩ := poll_drains p
    have hnone : (p.perform (ε := SimulatedHost.Event) .read).port.ahead = [] :=
      congrArg (turns p.poll.port.inbound.pop.2) hwaiting
    have harrivals : p.arrivals .read = p.ahead := congrArg (turns p.inbound) hlog
    rw [hnone, harrivals]
    rfl
  · rw [ahead, settled, ← turns_append, packets_perform, turns_append, ← inbound_perform hread]
    rfl

/-!
### The reader's machine
-/

namespace Reader

/-- Packets are taken at once, and a read takes a byte. -/
def next (r : Ring 8 i UInt8) (c : Command SimulatedHost.Event) : Ring 8 i UInt8 :=
  if c = .read then r.pop.2 else acceptAll r c.brings

/-- The answer to a command that reads. -/
def answers (r : Ring 8 i UInt8) : Command SimulatedHost.Event → List Answer
  | .available => [.count r.count.toNat]
  | .read => [.byte r.pop.1]
  | .peek => [.byte r.peek]
  | _ => []

/-- The turns of the packets of a delivery. -/
def arrivals (r : Ring 8 i UInt8) (c : Command SimulatedHost.Event) : List Turn := turns r c.brings

end Reader

theorem brings_of_not_delivery {c : Command SimulatedHost.Event}
    (h : ∀ ps, c ≠ .host (.link (.deliver ps))) : c.brings = [] := by
  unfold Command.brings
  split
  · exact absurd rfl (h _)
  · rfl

theorem ne_of_not_isInward {c : Command SimulatedHost.Event} (h : c.isInward = false) :
    c ≠ .read ∧ ∀ ps, c ≠ .host (.link (.deliver ps)) := by
  constructor
  · rintro rfl
    cases h
  · rintro ps rfl
    cases h

/-- Without a loop back, all that the host sends is its own. -/
theorem delivered_eq_brings {c : Command SimulatedHost.Event} (h : c ≠ .host (.link .loopBack))
    (p : Port SimulatedHost i o) : p.delivered c = c.brings := by
  unfold delivered
  split
  · rfl
  · exact absurd rfl h
  · next hdeliver _ => exact (brings_of_not_delivery hdeliver).symm

theorem settled_perform {c : Command SimulatedHost.Event} (h : c ≠ .host (.link .loopBack))
    (p : Port SimulatedHost i o) : (p.perform c).port.settled = Reader.next p.settled c := by
  unfold Reader.next
  split
  · next hread => exact hread ▸ settled_read p
  · next hread => rw [settled_of_ne_read hread, delivered_eq_brings h]

/-- A command that reads polls first, so its answer is about the settled ring. -/
theorem heard_eq_answers (p : Port SimulatedHost i o) (c : Command SimulatedHost.Event) :
    p.heard c = Reader.answers p.settled c := by
  have hinbound := inbound_poll p
  unfold Reader.answers
  split
  · exact congrArg (fun r => [Answer.count r.count.toNat]) hinbound
  · exact congrArg (fun r => [Answer.byte r.pop.1]) hinbound
  · exact congrArg (fun r => [Answer.byte r.peek]) hinbound
  · next havailable hread hpeek =>
      refine if_neg ?_
      cases c <;> simp_all [Command.isReading]

/-!
### Sessions
-/

section Session

variable {cs : List (Command SimulatedHost.Event)}

theorem separate_settled (h : ∀ c ∈ cs, c ≠ .host (.link .loopBack)) :
    Separate (settled (i := i) (o := o)) Reader.next Command.isInward cs where
  view_selected c hc _ p := settled_perform (h c hc) p
  view_other c hc hother p := by
    obtain ⟨hread, hdelivery⟩ := ne_of_not_isInward hother
    rw [settled_perform (h c hc), Reader.next, if_neg hread, brings_of_not_delivery hdelivery]
    rfl

theorem heard_eq_replay (h : ∀ c ∈ cs, c ≠ .host (.link .loopBack)) (p : Port SimulatedHost i o) :
    gather heard p cs = replay Reader.next Reader.answers p.settled (cs.filter Command.isInward) := by
  refine gather_eq_replay (separate_settled h) (fun c _ _ p => heard_eq_answers p c) ?_ p
  intro c hc hother p
  exact if_neg (by simp_all [Command.isInward])

/-- The turns ahead of a session and those of the packets that come in its course are the turns that the
    machine sees. -/
theorem fates_eq_replay (h : ∀ c ∈ cs, c ≠ .host (.link .loopBack)) (p : Port SimulatedHost i o) :
    p.fates cs
      = p.ahead ++ replay Reader.next Reader.arrivals p.settled (cs.filter Command.isInward) := by
  have hseen : gather (fun p c => turns p.settled (p.delivered c)) p cs
      = replay Reader.next Reader.arrivals p.settled (cs.filter Command.isInward) := by
    refine gather_eq_replay (separate_settled h) ?_ ?_ p
    · intro c hc _ q
      rw [delivered_eq_brings (h c hc), Reader.arrivals]
    · intro c hc hother q
      rw [delivered_eq_brings (h c hc), brings_of_not_delivery (ne_of_not_isInward hother).2]
      rfl
  rw [← hseen]
  exact (gather_conserved ahead ahead_perform p cs).symm

end Session

end MidiBridge.Port
