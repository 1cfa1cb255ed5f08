/-
Module: MidiBridge.Proofs.Port.Reception
Purpose: What a port with a simulated host receives in a session in which everything else goes on as well.
  Packets arrive in the course of polling, reading, peeking and flushing. The log tells which ones, and
  the ring takes each at its turn, completely or not at all. So the packets that the host sends are
  received in order or wait, and the bytes of those that were accepted are read in order or are in the ring.
  What the ring does is the same on every transport; here the packets that wait are added.
Trusted boundary: human-reviewed spec
Main exports: Port.delivered, Port.Waits, Port.waits_perform, Port.packets_perform, Port.poll_drains,
  Port.packets_after, Port.InboundConserved, Port.inbound_conserved
-/
import MidiBridge.Proofs.Port.Inbound
import MidiBridge.Proofs.Port.Reports

namespace MidiBridge

namespace Port

variable {i o : Nat}

/-!
### The packets that wait
-/

/-- The packets that the host sends with a command. -/
def delivered (p : Port SimulatedHost i o) : Command SimulatedHost.Event → List Packet
  | .host (.link (.deliver ps)) => ps
  | .host (.link .loopBack) => p.transport.link.sent
  | _ => []

/-- From `p` to `q` the packets in the log were received, and were in front of those that wait. -/
def Waits (p : Port SimulatedHost i o) (log : List LogEntry) (q : Port SimulatedHost i o) : Prop :=
  p.transport.link.inbound = LogEntry.arrived log ++ q.transport.link.inbound

theorem Waits.trans {p q r : Port SimulatedHost i o} {log log' : List LogEntry} (h : Waits p log q)
    (h' : Waits q log' r) : Waits p (log ++ log') r := by
  rw [Waits, LogEntry.arrived_append, List.append_assoc, ← h']
  exact h

theorem arrived_acceptLog (inbound : Ring 8 i UInt8) (ps : List Packet) :
    LogEntry.arrived (acceptLog inbound ps) = ps := by
  induction ps generalizing inbound with
  | nil => rfl
  | cons p ps ih =>
      rw [acceptLog, LogEntry.arrived_append, arrived_accept, ih]
      rfl

theorem waits_takeIn (p : Port SimulatedHost i o) : Waits p p.takeIn.log p.takeIn.port := by
  have hreceive := receive_simulated (Transport.poll p.transport) p.inbound
  have hwaiting : p.takeIn.port.transport.link.inbound = [] :=
    congrArg (fun intake => intake.transport.link.inbound) hreceive
  have hlog : LogEntry.arrived p.takeIn.log = p.transport.link.inbound :=
    (congrArg (fun intake => LogEntry.arrived intake.log) hreceive).trans (arrived_acceptLog _ _)
  rw [Waits, hlog, hwaiting, List.append_nil]

/-- Sending leaves the packets that wait as they are. -/
theorem waits_of_silent {p q : Port SimulatedHost i o} {log : List LogEntry} (h : Silent p log q) :
    Waits p log q := by
  rw [Waits, h.arrived_eq]
  rcases h.transport_eq with hsame | hsent
  · rw [hsame]
    rfl
  · rw [hsent]
    exact (inbound_dispatch p.transport p.outbound).symm

theorem waits_perform {c : Command SimulatedHost.Event} (hread : c ≠ .read)
    (hhost : ∀ event, c ≠ .host event) (p : Port SimulatedHost i o) :
    Waits p (p.perform c).log (p.perform c).port :=
  perform_lift waits_takeIn waits_of_silent Waits.trans hread hhost p

theorem waits_poll (p : Port SimulatedHost i o) : Waits p p.poll.log p.poll.port :=
  (moves_poll p).lift_takes waits_takeIn waits_of_silent Waits.trans

/-- Packets that the host sends wait behind the others, and those that are received were in front. -/
theorem packets_perform (p : Port SimulatedHost i o) (c : Command SimulatedHost.Event) :
    p.transport.link.inbound ++ p.delivered c
      = p.received c ++ (p.perform c).port.transport.link.inbound := by
  cases c with
  | read => exact (List.append_nil _).trans (waits_poll p)
  | host event =>
      cases event with
      | link event =>
          cases event with
          | deliver ps => rfl
          | loopBack => rfl
          | disconnect | collect => exact List.append_nil _
      | stall polls => exact List.append_nil _
  | _ => exact (List.append_nil _).trans (waits_perform (by simp) (by simp) p)

/-- A poll receives everything that waits, and answers how much that was. -/
theorem poll_drains (p : Port SimulatedHost i o) :
    LogEntry.arrived p.poll.log = p.transport.link.inbound ∧
      p.poll.value = p.transport.link.inbound.length ∧ p.poll.port.transport.link.inbound = [] := by
  have hrest : p.poll.port.transport.link.inbound = [] := congrArg WayIn.waiting (wayIn_poll p)
  have hwaiting : p.transport.link.inbound = _ := waits_poll p
  rw [hrest, List.append_nil] at hwaiting
  have hcount : p.poll.value = p.transport.link.inbound.length :=
    congrArg Intake.received (receive_simulated (Transport.poll p.transport) p.inbound)
  exact ⟨hwaiting.symm, hcount, hrest⟩

/-!
### Sessions
-/

theorem packets_after (p : Port SimulatedHost i o) (cs : List (Command SimulatedHost.Event)) :
    p.transport.link.inbound ++ gather delivered p cs
      = gather received p cs ++ (p.after cs).transport.link.inbound :=
  gather_conserved (fun p => p.transport.link.inbound) packets_perform p cs

/-- The state of the way in after a session. -/
structure InboundConserved (p : Port SimulatedHost i o) (cs : List (Command SimulatedHost.Event)) :
    Prop where
  /-- The packets that the host sent were received, in order, or wait. -/
  packets_eq :
    gather delivered p cs = gather received p cs ++ (p.after cs).transport.link.inbound
  /-- Each received packet had its turn. -/
  turns_eq : (gather arrivals p cs).map Turn.packet = gather received p cs
  /-- An accepted packet added its bytes, and any other left the ring as it was. -/
  after_eq : ∀ t ∈ gather arrivals p cs,
    t.after = if t.Accepted (i - 1) then t.before ++ t.packet.decode.toList else t.before
  /-- Whichever command comes next, a packet that arrives finds the bytes that were accepted up to its turn
      and not read. -/
  before_eq : ∀ (c : Command SimulatedHost.Event) (us vs : List Turn) (t : Turn),
    (p.after cs).arrivals c = us ++ t :: vs →
      gather bytesTaken p cs ++ t.before = Turn.acceptedStream (i - 1) (gather arrivals p cs ++ us)
  /-- The bytes read and those in the ring are the bytes of the accepted packets. -/
  bytes_eq : gather bytesTaken p cs ++ (p.after cs).inbound.toList
    = Turn.acceptedStream (i - 1) (gather arrivals p cs)
  /-- The bytes that are counted are read before all others, or stay in the ring. -/
  counted : let counting := (p.after cs).available
    counting.value = counting.port.inbound.toList.length ∧
      ∀ ds : List (Command SimulatedHost.Event), counting.port.inbound.toList <+:
        gather bytesTaken counting.port ds ++ (counting.port.after ds).inbound.toList
  /-- A poll receives everything that waits, and answers how much that was. -/
  poll_eq : let polling := (p.after cs).poll
    LogEntry.arrived polling.log = (p.after cs).transport.link.inbound ∧
      polling.value = (p.after cs).transport.link.inbound.length ∧
      polling.port.transport.link.inbound = []

theorem inboundConserved_of_empty {p : Port SimulatedHost i o} (hwaiting : p.transport.link.inbound = [])
    (hempty : p.inbound.toList = []) (cs : List (Command SimulatedHost.Event)) :
    p.InboundConserved cs := by
  have hadded : ∀ (q : Port SimulatedHost i o) (c : Command SimulatedHost.Event), ∀ t ∈ q.arrivals c,
      t.added = if t.Accepted (i - 1) then t.packet.decode.toList else [] :=
    fun q c t ht => added_of_mem_turns_eq ht
  have hpackets := packets_after p cs
  have hbytes := bytes_after p cs
  rw [hwaiting, List.nil_append] at hpackets
  rw [hempty, List.nil_append] at hbytes
  constructor
  case packets_eq => exact hpackets
  case turns_eq => exact map_packet_gather p cs
  case after_eq => exact fun t ht => of_mem_gather (fun q c t ht => after_of_mem_turns ht) ht
  case before_eq =>
    intro c us vs t ht
    -- The turns before `t`, those of earlier commands and those of `c`.
    have hall : ∀ u ∈ gather arrivals p cs ++ us,
        u.added = if u.Accepted (i - 1) then u.packet.decode.toList else [] := by
      intro u hu
      rcases List.mem_append.1 hu with hearlier | hnow
      · exact of_mem_gather hadded hearlier
      · exact hadded (p.after cs) c u (ht ▸ List.mem_append_left _ hnow)
    rw [acceptedStream_eq hall, before_of_turns ht, List.flatMap_append, hbytes, List.append_assoc]
  case bytes_eq =>
    rw [acceptedStream_eq fun t ht => of_mem_gather hadded ht]
    exact hbytes.symm
  case counted =>
    have hcount := Ring.toNat_count (p.after cs).available.port.inbound.addressable
      (p.after cs).available.port.inbound
    refine ⟨hcount.trans (Ring.length_toList _).symm, ?_⟩
    intro ds
    rw [← bytes_after]
    exact List.prefix_append _ _
  case poll_eq => exact poll_drains (p.after cs)

/-- The way in of a port with a simulated host conserves packets and bytes in every session. -/
theorem inbound_conserved (hi : Ring.Admits 8 i) (ho : Ring.Admits 8 o) (cable : Cable)
    (cs : List (Command SimulatedHost.Event)) :
    (new SimulatedHost.new cable hi ho).InboundConserved cs :=
  inboundConserved_of_empty rfl (Ring.toList_empty hi) cs

/-- The third note does not fit behind two others and is dropped; a clock byte behind it fits, and a packet
    with a reserved code adds nothing. When three bytes have been read there is room for a note again. -/
theorem inbound_conserved_overflow :
    let note (key : UInt8) : Packet := ⟨0x09, ⟨0x90, key, 0x7F⟩⟩
    let cs : List (Command SimulatedHost.Event) :=
      [.host (.link (.deliver [note 1, note 2, note 3, ⟨0x01, ⟨0xF8, 0, 0⟩⟩, ⟨0x0F, ⟨0xF8, 0, 0⟩⟩])),
        .host (.stall 3), .write 0xFE, .flush, .read, .read, .read, .host (.link .disconnect),
        .host (.link (.deliver [note 4])), .available, .peek, .read]
    let p : Port SimulatedHost 8 4 := new SimulatedHost.new Cable.first (by decide) (by decide)
    Ring.Admits 8 8 ∧ Ring.Admits 8 4 ∧ p.InboundConserved cs ∧
      gather bytesTaken p cs = [0x90, 1, 0x7F, 0x90] ∧
      (p.after cs).inbound.toList = [2, 0x7F, 0xF8, 0x90, 4, 0x7F] := by
  intro note cs p
  have hconserved := inbound_conserved (i := 8) (o := 4) (by decide) (by decide) Cable.first cs
  exact ⟨by decide, by decide, hconserved, by decide +kernel, by decide +kernel⟩

end Port

end MidiBridge
