/-
Module: MidiBridge.Proofs.Port.Inbound
Purpose: The way in of a port with a simulated host, apart from the rest of the port. It consists of
  the packets that have not been received and of the ring with the bytes that have not been read, and
  nothing else has a part in what the reader gets. Two laws hold over every run. All bytes that were
  added at the turn of a packet are read or still in the ring, and all packets sent have had their turn or
  still wait.
Trusted boundary: none
Main exports: Port.WayIn, Port.WayIn.Step, Port.WayIn.history, Port.wayIn,
  Port.WayIn.packets_conserved, Port.WayIn.bytes_conserved, Port.WayIn.added_of_mem_history,
  Port.bytesRead, Port.receive_waiting, Port.wayIn_afterSteps, Port.bytesRead_eq
-/
import MidiBridge.Port.Session
import MidiBridge.Proofs.Port.Turns
import MidiBridge.Proofs.Transport.Faithful

namespace MidiBridge.Port

variable {i o : Nat}

/-- The packets that wait to be received, and the bytes that wait to be read. -/
structure WayIn (i : Nat) where
  waiting : List Packet
  ring : Ring 8 i UInt8

def wayIn (p : Port SimulatedHost i o) : WayIn i := ⟨p.transport.link.inbound, p.inbound⟩

namespace WayIn

/-- What may happen to the way in, where `read` receives before it takes a byte. -/
inductive Step where
  | send (ps : List Packet)
  | poll
  | read

def Step.command : Step → Command SimulatedHost.Event
  | .send ps => .host (.link (.deliver ps))
  | .poll => .poll
  | .read => .read

/-- The packets that the host sends in the course of some steps. -/
def Step.sent (steps : List Step) : List Packet :=
  steps.flatMap fun
    | .send ps => ps
    | .poll | .read => []

/-- All packets that wait are received. -/
def receive (w : WayIn i) : WayIn i := ⟨[], acceptAll w.ring w.waiting⟩

def next (w : WayIn i) : Step → WayIn i
  | .send ps => ⟨w.waiting ++ ps, w.ring⟩
  | .poll => w.receive
  | .read => ⟨[], w.receive.ring.pop.2⟩

/-- The turns of the packets that arrive in a step. -/
def arrivals (w : WayIn i) : Step → List Turn
  | .send _ => []
  | .poll | .read => turns w.ring w.waiting

/-- The byte that is read in a step. -/
def taken (w : WayIn i) : Step → Option UInt8
  | .send _ | .poll => none
  | .read => w.receive.ring.pop.1

def run (w : WayIn i) (steps : List Step) : WayIn i := steps.foldl next w

/-- The turns of all packets that arrive in the course of some steps. -/
def history (w : WayIn i) : List Step → List Turn
  | [] => []
  | s :: ss => w.arrivals s ++ history (w.next s) ss

def bytesRead (w : WayIn i) : List Step → List UInt8
  | [] => []
  | s :: ss => (w.taken s).toList ++ bytesRead (w.next s) ss

/-!
### Conservation

Each law is proved for one step, and then for a run by induction on its steps.
-/

theorem packets_conserved_step (w : WayIn i) (s : Step) :
    w.waiting ++ Step.sent [s] = (w.arrivals s).map Turn.packet ++ (w.next s).waiting := by
  cases s with
  | send ps => simp [Step.sent, arrivals, next]
  | poll => simp [Step.sent, arrivals, next, receive, map_packet_turns]
  | read => simp [Step.sent, arrivals, next, map_packet_turns]

theorem bytes_conserved_step (w : WayIn i) (s : Step) :
    w.ring.toList ++ (w.arrivals s).flatMap Turn.added
      = (w.taken s).toList ++ (w.next s).ring.toList := by
  have hreceive := toList_acceptAll w.ring w.waiting
  cases s with
  | send ps => exact List.append_nil w.ring.toList
  | poll => exact hreceive.symm
  | read => exact hreceive.symm.trans (Ring.toList_eq_pop w.receive.ring)

/-- Every packet sent has had its turn, in the order of sending, or still waits. -/
theorem packets_conserved (w : WayIn i) (steps : List Step) :
    w.waiting ++ Step.sent steps
      = (w.history steps).map Turn.packet ++ (w.run steps).waiting := by
  induction steps generalizing w with
  | nil => exact List.append_nil w.waiting
  | cons s ss ih =>
      have hsplit : Step.sent (s :: ss) = Step.sent [s] ++ Step.sent ss := by
        rw [Step.sent, ← List.singleton_append, List.flatMap_append]
        rfl
      calc
        w.waiting ++ Step.sent (s :: ss)
            = (w.waiting ++ Step.sent [s]) ++ Step.sent ss := by rw [hsplit, List.append_assoc]
        _ = (w.arrivals s).map Turn.packet ++ ((w.next s).waiting ++ Step.sent ss) := by
            rw [packets_conserved_step, List.append_assoc]
        _ = (w.arrivals s).map Turn.packet
              ++ (((w.next s).history ss).map Turn.packet ++ (w.run (s :: ss)).waiting) := by
            rw [ih]
            rfl
        _ = (w.history (s :: ss)).map Turn.packet ++ (w.run (s :: ss)).waiting := by
            rw [history, List.map_append, List.append_assoc]

/-- Every byte that was added at a turn has been read, in the order of the turns, or is still in the
    ring. -/
theorem bytes_conserved (w : WayIn i) (steps : List Step) :
    w.ring.toList ++ (w.history steps).flatMap Turn.added
      = w.bytesRead steps ++ (w.run steps).ring.toList := by
  induction steps generalizing w with
  | nil => exact List.append_nil w.ring.toList
  | cons s ss ih =>
      calc
        w.ring.toList ++ (w.history (s :: ss)).flatMap Turn.added
            = (w.ring.toList ++ (w.arrivals s).flatMap Turn.added)
                ++ ((w.next s).history ss).flatMap Turn.added := by
            rw [history, List.flatMap_append, List.append_assoc]
        _ = (w.taken s).toList
              ++ ((w.next s).ring.toList ++ ((w.next s).history ss).flatMap Turn.added) := by
            rw [bytes_conserved_step, List.append_assoc]
        _ = (w.taken s).toList
              ++ ((w.next s).bytesRead ss ++ (w.run (s :: ss)).ring.toList) := by
            rw [ih]
            rfl
        _ = w.bytesRead (s :: ss) ++ (w.run (s :: ss)).ring.toList := by
            rw [bytesRead, List.append_assoc]

/-- In every turn of a run the free places decide. -/
theorem added_of_mem_history {w : WayIn i} {steps : List Step} {t : Turn}
    (h : t ∈ w.history steps) :
    (t.HasRoom (i - 1) → t.added = t.packet.payload) ∧ (¬ t.HasRoom (i - 1) → t.added = []) := by
  induction steps generalizing w with
  | nil => cases h
  | cons s ss ih =>
      rcases List.mem_append.1 h with hnow | hlater
      · cases s with
        | send ps => cases hnow
        | poll => exact added_of_mem_turns hnow
        | read => exact added_of_mem_turns hnow
      · exact ih hlater

end WayIn

def afterSteps (p : Port SimulatedHost i o) (steps : List WayIn.Step) : Port SimulatedHost i o :=
  p.after (steps.map WayIn.Step.command)

def Answer.byte? : Answer → Option UInt8
  | .byte b => b
  | _ => none

/-- The bytes in the answers to some steps. -/
def bytesRead (p : Port SimulatedHost i o) (steps : List WayIn.Step) : List UInt8 :=
  (p.session (steps.map WayIn.Step.command)).filterMap fun reply => reply.value.byte?

/-!
### The port does what the way in does

Receiving takes everything that waits on the link, and sending does not touch the way in.
-/

/-- Receiving from a host takes all packets that wait there. -/
theorem receive_waiting {τ : Type} [Transport τ] (host : List Packet → τ)
    (hnone : Transport.receive? (host []) = none)
    (hsome : ∀ p ps, Transport.receive? (host (p :: ps)) = some (p, host ps)) (ps : List Packet)
    (inbound : Ring 8 i UInt8) :
    receive (host ps) inbound
      = ⟨ps.length, host [], acceptAll inbound ps, acceptLog inbound ps⟩ := by
  induction ps generalizing inbound with
  | nil => exact receive_of_none hnone inbound
  | cons p ps ih =>
      rw [receive_of_some (hsome p ps), ih]
      rfl

theorem receive_simulated (t : SimulatedHost) (inbound : Ring 8 i UInt8) :
    receive t inbound
      = ⟨t.link.inbound.length, { t with link := { t.link with inbound := [] } },
          acceptAll inbound t.link.inbound, acceptLog inbound t.link.inbound⟩ :=
  receive_waiting (fun ps => { t with link := { t.link with inbound := ps } }) rfl
    (fun _ _ => rfl) t.link.inbound inbound

theorem inbound_dispatch (t : SimulatedHost) (outbound : Ring 8 o Packet) :
    (dispatch t outbound).transport.link.inbound = t.link.inbound := by
  fun_induction dispatch t outbound with
  | case1 t outbound hready h => rfl
  | case2 t outbound hready p h e t' hsend =>
      have hinbound := SimulatedHost.inbound_send t p
      rw [hsend] at hinbound
      exact hinbound
  | case3 t outbound hready p h t' hsend hsize rest ih =>
      have hinbound := SimulatedHost.inbound_send t p
      rw [hsend] at hinbound
      exact ih.trans hinbound
  | case4 t outbound hready => rfl

theorem wayIn_poll (p : Port SimulatedHost i o) : p.poll.port.wayIn = p.wayIn.receive := by
  have hlink := inbound_dispatch (receive (Transport.poll p.transport) p.inbound).transport
    p.outbound
  rw [receive_simulated] at hlink
  simp only [wayIn, poll, trySend, WayIn.receive, receive_simulated, hlink]
  rfl

/-- The way in after a step depends on the way in before it, and so does the byte read. -/
theorem wayIn_perform (p : Port SimulatedHost i o) (s : WayIn.Step) :
    (p.perform s.command).port.wayIn = p.wayIn.next s ∧
      (p.perform s.command).value.byte? = p.wayIn.taken s := by
  have hpoll := wayIn_poll p
  cases s with
  | send ps => exact ⟨rfl, rfl⟩
  | poll => exact ⟨hpoll, rfl⟩
  | read =>
      have hring : p.poll.port.inbound = p.wayIn.receive.ring := congrArg WayIn.ring hpoll
      have hwaiting : p.poll.port.transport.link.inbound = [] := congrArg WayIn.waiting hpoll
      constructor
      · simp only [WayIn.Step.command, perform, Reply.map, read, wayIn, hring, hwaiting]
        rfl
      · simp only [WayIn.Step.command, perform, Reply.map, read, hring]
        rfl

theorem wayIn_afterSteps (p : Port SimulatedHost i o) (steps : List WayIn.Step) :
    (p.afterSteps steps).wayIn = p.wayIn.run steps := by
  induction steps generalizing p with
  | nil => rfl
  | cons s ss ih =>
      have hrest := ih (p.perform s.command).port
      rw [(wayIn_perform p s).1] at hrest
      exact hrest

theorem bytesRead_eq (p : Port SimulatedHost i o) (steps : List WayIn.Step) :
    p.bytesRead steps = p.wayIn.bytesRead steps := by
  induction steps generalizing p with
  | nil => rfl
  | cons s ss ih =>
      have hrest := ih (p.perform s.command).port
      rw [(wayIn_perform p s).1] at hrest
      rw [WayIn.bytesRead, ← (wayIn_perform p s).2, ← hrest, bytesRead, List.map_cons, session,
        List.filterMap_cons]
      cases (p.perform s.command).value.byte? with
      | none => rfl
      | some b => rfl

end MidiBridge.Port
