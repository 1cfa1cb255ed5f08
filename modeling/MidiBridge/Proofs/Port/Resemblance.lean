/-
Module: MidiBridge.Proofs.Port.Resemblance
Purpose: Of a packet that is received only the payload counts. Packets with the same payload decode to the
  same chunk, its unused places included. A port that is given one for the other answers the same to every
  command, drops the same packets and sends the same ones. The cable, the padding and the code as such show
  in the log and nowhere else.
Trusted boundary: human-reviewed spec
Main exports: Packet.SamePayload, Packet.decode_eq_decode_iff, LogEntry.Resembles, Port.Resembles,
  Port.Reply.Resembles, Port.Command.Resembles, Port.resembles_of_sending, Port.resembles_perform,
  Port.resembles_session, Port.resembles_gather, Port.only_payload_counts
-/
import Mathlib.Data.List.Forall2
import MidiBridge.Proofs.Packet.Carrying
import MidiBridge.Proofs.Port.Flushing
import MidiBridge.Proofs.Port.Independence

namespace MidiBridge

/-!
### Packets and entries

A chunk keeps the length of the payload and nothing behind it, so it is a function of the payload.
-/

namespace Packet

/-- Two packets that carry the same bytes. The cables and the padding may differ, and so may the codes. -/
def SamePayload (p q : Packet) : Prop := p.payload = q.payload

instance (p q : Packet) : Decidable (p.SamePayload q) :=
  inferInstanceAs (Decidable (p.payload = q.payload))

theorem samePayload_refl (ps : List Packet) : List.Forall₂ SamePayload ps ps :=
  List.forall₂_same.2 fun _ _ => rfl

theorem decode_eq (p : Packet) : p.decode = ⟨Triple.ofList p.payload, p.payload.length⟩ := by
  have hle : p.payloadLength ≤ 3 := CodeIndex.payloadLength_le p.code
  have hplaces : p.data.keep p.payloadLength = Triple.ofList p.payload :=
    Chunk.padded_eq_ofList (c := ⟨p.data, p.payloadLength⟩) hle
  rw [decode, Chunk.ofPadded, hplaces, length_payload]

/-- Equality of chunks sees all three places, and still it is equality of payloads. -/
theorem decode_eq_decode_iff {p q : Packet} : p.decode = q.decode ↔ p.payload = q.payload := by
  constructor
  · intro h
    rw [← toList_decode p, ← toList_decode q, h]
  · intro h
    rw [decode_eq p, decode_eq q, h]

theorem SamePayload.reserved_iff {p q : Packet} (h : p.SamePayload q) :
    p.code.Reserved ↔ q.code.Reserved := by
  have hpayload : p.payload = q.payload := h
  rw [← Port.payload_eq_nil_iff, ← Port.payload_eq_nil_iff, hpayload]

end Packet

/-- Two entries that differ in the text of a packet from the host at most. Packets without payload may differ
    in their codes, which are both reserved. -/
inductive LogEntry.Resembles : LogEntry → LogEntry → Prop where
  | refl (entry : LogEntry) : Resembles entry entry
  | received {p q : Packet} : p.SamePayload q → Resembles (.received p) (.received q)
  | reservedCode {code code' : CodeIndex} :
      code.Reserved → code'.Reserved → Resembles (.reservedCode code) (.reservedCode code')

theorem LogEntry.resembles_refl (log : List LogEntry) : List.Forall₂ Resembles log log :=
  List.forall₂_same.2 fun entry _ => .refl entry

theorem LogEntry.Resembles.received? {entry entry' : LogEntry} (h : entry.Resembles entry') :
    Option.Rel Packet.SamePayload entry.received? entry'.received? := by
  cases h with
  | refl =>
      cases entry.received? with
      | none => exact .none
      | some p => exact .some rfl
  | received hpayload => exact .some hpayload
  | reservedCode => exact .none

theorem LogEntry.resembles_arrived {log log' : List LogEntry} (h : List.Forall₂ Resembles log log') :
    List.Forall₂ Packet.SamePayload (arrived log) (arrived log') :=
  List.rel_filterMap (fun _ _ hentry => Resembles.received? hentry) h

namespace Port

variable {i o : Nat}

/-!
### Receiving

What a packet does to the ring depends on the decoded chunk, so a packet with the same payload does the same
at its turn.
-/

/-- The turns of two packets with the same payload, which find and leave the same bytes. -/
structure Turn.Resembles (t u : Turn) : Prop where
  packet : t.packet.SamePayload u.packet
  before_eq : t.before = u.before
  after_eq : t.after = u.after

theorem Turn.Resembles.accepted_iff {t u : Turn} (h : t.Resembles u) (capacity : Nat) :
    t.Accepted capacity ↔ u.Accepted capacity := by
  have hpayload : t.packet.payload = u.packet.payload := h.packet
  rw [Turn.Accepted, Turn.Accepted, Turn.HasRoom, Turn.HasRoom, h.packet.reserved_iff, hpayload,
    h.before_eq]

theorem resembles_accept (inbound : Ring 8 i UInt8) {p q : Packet} (h : p.SamePayload q) :
    (accept inbound p).1 = (accept inbound q).1 ∧
      List.Forall₂ LogEntry.Resembles (accept inbound p).2 (accept inbound q).2 := by
  have hdecode : p.decode = q.decode := Packet.decode_eq_decode_iff.2 h
  have hentry : (LogEntry.received p).Resembles (.received q) := .received h
  unfold accept
  rw [hdecode]
  split
  case isTrue hnothing =>
    have hreserved : q.code.Reserved := by
      rwa [Packet.toList_decode, List.isEmpty_iff, payload_eq_nil_iff] at hnothing
    exact ⟨rfl, .cons hentry (.cons (.reservedCode (h.reserved_iff.2 hreserved) hreserved) .nil)⟩
  case isFalse =>
    split
    · exact ⟨rfl, .cons hentry .nil⟩
    · exact ⟨rfl, .cons hentry (.cons (.refl _) .nil)⟩

theorem resembles_turns (inbound : Ring 8 i UInt8) {ps qs : List Packet}
    (h : List.Forall₂ Packet.SamePayload ps qs) :
    List.Forall₂ Turn.Resembles (turns inbound ps) (turns inbound qs) := by
  induction h generalizing inbound with
  | nil => exact .nil
  | cons hfirst _ ih =>
      obtain ⟨hring, -⟩ := resembles_accept inbound hfirst
      rw [turns, turns, hring]
      exact .cons ⟨hfirst, rfl, rfl⟩ (ih _)

theorem resembles_acceptAll (inbound : Ring 8 i UInt8) {ps qs : List Packet}
    (h : List.Forall₂ Packet.SamePayload ps qs) :
    acceptAll inbound ps = acceptAll inbound qs ∧
      List.Forall₂ LogEntry.Resembles (acceptLog inbound ps) (acceptLog inbound qs) := by
  induction h generalizing inbound with
  | nil => exact ⟨rfl, .nil⟩
  | cons hfirst _ ih =>
      obtain ⟨hring, hlog⟩ := resembles_accept inbound hfirst
      obtain ⟨hrings, hlogs⟩ := ih (accept inbound _).1
      rw [acceptAll, acceptAll, List.foldl_cons, List.foldl_cons, acceptLog, acceptLog, ← hring]
      exact ⟨hrings, List.rel_append hlog hlogs⟩

/-!
### Ports
-/

/-- The same port, with packets of the same payloads in place of those that wait. -/
inductive Resembles (p : Port SimulatedHost i o) : Port SimulatedHost i o → Prop where
  | awaiting {qs : List Packet} : List.Forall₂ Packet.SamePayload p.transport.link.inbound qs →
      Resembles p (p.mapTransport (SimulatedHost.awaiting qs))

theorem Resembles.refl (p : Port SimulatedHost i o) : p.Resembles p :=
  .awaiting (Packet.samePayload_refl _)

/-- The same answer and ports that resemble each other, with entries in the log that do, one by one. -/
structure Reply.Resembles {α : Type} (r s : Reply SimulatedHost i o α) : Prop where
  value_eq : r.value = s.value
  port : r.port.Resembles s.port
  log : List.Forall₂ LogEntry.Resembles r.log s.log

theorem Reply.Resembles.map {α β : Type} {r s : Reply SimulatedHost i o α} (h : r.Resembles s)
    (f : α → β) : (r.map f).Resembles (s.map f) :=
  ⟨congrArg f h.value_eq, h.port, h.log⟩

variable {p q : Port SimulatedHost i o}

theorem Resembles.inbound_eq (h : p.Resembles q) : p.inbound = q.inbound := by
  cases h with
  | awaiting => rfl

theorem Resembles.outbound_eq (h : p.Resembles q) : p.outbound = q.outbound := by
  cases h with
  | awaiting => rfl

/-!
### Writing

A port that writes or sends does not look at the packets that wait.
-/

/-- An operation that does the same whatever waits. It leaves the packets that wait alone, since it does so
    for a port with its own packets put in their place. -/
theorem resembles_of_sending {α : Type} (op : Port SimulatedHost i o → Reply SimulatedHost i o α)
    (hop : ∀ ps p, op (p.mapTransport (SimulatedHost.awaiting ps))
      = (op p).mapTransport (SimulatedHost.awaiting ps))
    (h : p.Resembles q) : (op p).Resembles (op q) := by
  cases h with
  | awaiting hqs =>
      have hself : op p = (op p).mapTransport (SimulatedHost.awaiting p.transport.link.inbound) :=
        hop p.transport.link.inbound p
      have hkept : (op p).port.transport.link.inbound = p.transport.link.inbound := by
        rw [hself]
        rfl
      rw [hop]
      exact ⟨rfl, .awaiting (hkept ▸ hqs), LogEntry.resembles_refl _⟩

theorem resembles_sendOut (h : p.Resembles q) : p.sendOut.Resembles q.sendOut :=
  resembles_of_sending sendOut
    (fun ps p => sendOut_mapTransport (SimulatedHost.respectsSending_awaiting ps) p) h

theorem resembles_write (h : p.Resembles q) (b : UInt8) : (p.write b).Resembles (q.write b) :=
  resembles_of_sending (write · b)
    (fun ps p => write_mapTransport (SimulatedHost.respectsSending_awaiting ps) p b) h

theorem resembles_writeAll (h : p.Resembles q) (bs : List UInt8) :
    (p.writeAll bs).Resembles (q.writeAll bs) :=
  resembles_of_sending (writeAll · bs)
    (fun ps p => writeAll_mapTransport (SimulatedHost.respectsSending_awaiting ps) p bs) h

theorem resembles_reset (h : p.Resembles q) : p.reset.Resembles q.reset :=
  resembles_of_sending reset (fun _ _ => rfl) h

/-!
### Polling, reading and flushing

When everything has been received no packets wait any more, and the two ports are one.
-/

theorem takeIn_simulated (p : Port SimulatedHost i o) :
    p.takeIn =
      { value := p.transport.link.inbound.length
        port := { p with
          transport := (Transport.poll p.transport).awaiting []
          inbound := acceptAll p.inbound p.transport.link.inbound }
        log := acceptLog p.inbound p.transport.link.inbound } := by
  rw [takeIn, receive_simulated]
  rfl

theorem resembles_takeIn (h : p.Resembles q) :
    p.takeIn.value = q.takeIn.value ∧ p.takeIn.port = q.takeIn.port ∧
      List.Forall₂ LogEntry.Resembles p.takeIn.log q.takeIn.log := by
  cases h with
  | awaiting hqs =>
      obtain ⟨hring, hlog⟩ := resembles_acceptAll p.inbound hqs
      rw [takeIn_simulated, takeIn_simulated, hring]
      exact ⟨hqs.length_eq, rfl, hlog⟩

theorem resembles_poll (h : p.Resembles q) : p.poll.Resembles q.poll := by
  obtain ⟨hvalue, hport, hlog⟩ := resembles_takeIn h
  rw [poll_eq_takeIn, poll_eq_takeIn, hvalue, hport]
  exact ⟨rfl, .refl _, List.rel_append hlog (LogEntry.resembles_refl _)⟩

/-- Reading is a poll followed by what `f` does with the ring. -/
theorem resembles_reading {α : Type} (h : p.Resembles q) (f : Ring 8 i UInt8 → α × Ring 8 i UInt8) :
    let reading (r : Port SimulatedHost i o) : Reply SimulatedHost i o α :=
      { value := (f r.poll.port.inbound).1
        port := { r.poll.port with inbound := (f r.poll.port.inbound).2 }
        log := r.poll.log }
    (reading p).Resembles (reading q) := by
  intro reading
  obtain ⟨-, hport, hlog⟩ := resembles_poll h
  refine ⟨congrArg (fun inbound => (f inbound).1) hport.inbound_eq, ?_, hlog⟩
  simp only [reading]
  generalize q.poll.port = q' at hport
  cases hport with
  | awaiting hqs => exact .awaiting hqs

theorem resembles_flush (h : p.Resembles q) : p.flush.Resembles q.flush := by
  have hsent := resembles_sendOut h
  have hqueue : p.sendOut.port.outbound = q.sendOut.port.outbound := hsent.port.outbound_eq
  by_cases hdone : p.sendOut.value = .ok () → p.sendOut.port.outbound.toList = []
  · have hdone' : q.sendOut.value = .ok () → q.sendOut.port.outbound.toList = [] := by
      rwa [← hsent.value_eq, ← hqueue]
    rw [flush_eq_sendOut hdone, flush_eq_sendOut hdone']
    exact hsent
  · -- The flush goes on with a poll, and from there on nothing is left to tell the ports apart.
    obtain ⟨hok, hleft⟩ := Classical.not_imp.1 hdone
    obtain ⟨-, hport, hlog⟩ := resembles_takeIn hsent.port
    have hok' : q.sendOut.value = .ok () := hsent.value_eq ▸ hok
    have hleft' : q.sendOut.port.outbound.toList ≠ [] := hqueue ▸ hleft
    rw [flush_of_left hok hleft, flush_of_left hok' hleft', ← hport]
    exact ⟨rfl, .refl _,
      List.rel_append (List.rel_append hsent.log hlog) (LogEntry.resembles_refl _)⟩

/-!
### Sessions
-/

/-- The same command, or a delivery of packets with the same payloads. -/
inductive Command.Resembles :
    Command SimulatedHost.Event → Command SimulatedHost.Event → Prop where
  | refl (c : Command SimulatedHost.Event) : Resembles c c
  | deliver {ps qs : List Packet} : List.Forall₂ Packet.SamePayload ps qs →
      Resembles (.host (.link (.deliver ps))) (.host (.link (.deliver qs)))

theorem resembles_deliver (h : p.Resembles q) {ps qs : List Packet}
    (hps : List.Forall₂ Packet.SamePayload ps qs) :
    (p.perform (.host (.link (.deliver ps)))).Resembles (q.perform (.host (.link (.deliver qs)))) := by
  cases h with
  | awaiting hqs => exact ⟨rfl, .awaiting (List.rel_append hqs hps), .nil⟩

theorem resembles_host (h : p.Resembles q) (event : SimulatedHost.Event) :
    (p.perform (.host event)).Resembles (q.perform (.host event)) := by
  cases event with
  | link event =>
      cases event with
      | deliver ps => exact resembles_deliver h (Packet.samePayload_refl ps)
      | disconnect | collect =>
          cases h with
          | awaiting hqs => exact ⟨rfl, .awaiting hqs, .nil⟩
      | loopBack =>
          cases h with
          | awaiting hqs =>
              exact ⟨rfl, .awaiting (List.rel_append hqs (Packet.samePayload_refl _)), .nil⟩
  | stall polls =>
      cases h with
      | awaiting hqs => exact ⟨rfl, .awaiting hqs, .nil⟩

theorem resembles_perform {c d : Command SimulatedHost.Event} (h : p.Resembles q) (hc : c.Resembles d) :
    (p.perform c).Resembles (q.perform d) := by
  cases hc with
  | deliver hps => exact resembles_deliver h hps
  | refl =>
      cases c with
      | write b => exact (resembles_write h b).map Answer.accepted
      | writeAll bs => exact (resembles_writeAll h bs).map Answer.count
      | flush => exact (resembles_flush h).map Answer.flushed
      | flushStream =>
          exact ((resembles_flush h).map (Except.mapError StreamError.ofSend)).map Answer.streamed
      | poll => exact (resembles_poll h).map Answer.count
      | available =>
          exact (resembles_reading h fun inbound => (inbound.count.toNat, inbound)).map Answer.count
      | read => exact (resembles_reading h Ring.pop).map Answer.byte
      | peek => exact (resembles_reading h fun inbound => (inbound.peek, inbound)).map Answer.byte
      | reset => exact (resembles_reset h).map fun _ => Answer.done
      | setCable cable =>
          cases h with
          | awaiting hqs => exact ⟨rfl, .awaiting hqs, .nil⟩
      | host event => exact resembles_host h event

theorem resembles_arrivals {c d : Command SimulatedHost.Event} (h : p.Resembles q) (hc : c.Resembles d) :
    List.Forall₂ Turn.Resembles (p.arrivals c) (q.arrivals d) := by
  have hlog := (resembles_perform h hc).log
  rw [arrivals, arrivals, h.inbound_eq]
  exact resembles_turns q.inbound (LogEntry.resembles_arrived hlog)

variable {cs ds : List (Command SimulatedHost.Event)}

theorem resembles_session (h : p.Resembles q) (hcs : List.Forall₂ Command.Resembles cs ds) :
    List.Forall₂ Reply.Resembles (p.session cs) (q.session ds) := by
  induction hcs generalizing p q with
  | nil => exact .nil
  | cons hc _ ih => exact .cons (resembles_perform h hc) (ih (resembles_perform h hc).port)

theorem resembles_gather (h : p.Resembles q) (hcs : List.Forall₂ Command.Resembles cs ds) :
    List.Forall₂ Turn.Resembles (gather arrivals p cs) (gather arrivals q ds) := by
  induction hcs generalizing p q with
  | nil => exact .nil
  | cons hc _ ih =>
      rw [gather_cons, gather_cons]
      exact List.rel_append (resembles_arrivals h hc) (ih (resembles_perform h hc).port)

/-- Two packets are decoded to the same chunk if and only if they have the same payload.

    If in a session packets from the host are replaced by others with the same payloads, those that wait at
    its start included, then each command has the same answer and the same packets are accepted. The logs have
    the same entries but for the texts of the packets replaced. -/
theorem only_payload_counts :
    (∀ a b : Packet, a.decode = b.decode ↔ a.payload = b.payload) ∧
    ∀ (p q : Port SimulatedHost i o) (cs ds : List (Command SimulatedHost.Event)),
      p.Resembles q → List.Forall₂ Command.Resembles cs ds →
      (p.session cs).map Reply.value = (q.session ds).map Reply.value ∧
        (gather arrivals p cs).map (fun t => decide (t.Accepted (i - 1)))
          = (gather arrivals q ds).map (fun t => decide (t.Accepted (i - 1))) ∧
        List.Forall₂ Reply.Resembles (p.session cs) (q.session ds) := by
  refine ⟨fun a b => Packet.decode_eq_decode_iff, ?_⟩
  intro p q cs ds h hcs
  have hsession := resembles_session h hcs
  refine ⟨?_, ?_, hsession⟩
  · rw [← List.forall₂_eq_eq_eq]
    exact List.rel_map (fun _ _ hreply => hreply.value_eq) hsession
  · rw [← List.forall₂_eq_eq_eq]
    exact List.rel_map (fun _ _ hturn => decide_eq_decide.2 (hturn.accepted_iff (i - 1)))
      (resembles_gather h hcs)

/-- Two notes, a program change, a clock byte and a packet without payload under other codes, for other cables
    and with other padding. The second note finds six of seven places taken and is dropped in both sessions. -/
theorem only_payload_counts_relabelled :
    let note (header key : UInt8) : Packet := ⟨header, ⟨0x90, key, 0x7F⟩⟩
    let program : Packet := ⟨0x0C, ⟨0xC0, 5, 0⟩⟩
    let program' : Packet := ⟨0xF6, ⟨0xC0, 5, 0xEE⟩⟩
    let cs (ps : List Packet) : List (Command SimulatedHost.Event) :=
      [.host (.stall 2), .write 0xFA, .host (.link (.deliver ps)), .flush, .available, .read, .peek,
        .host (.link .collect)]
    let ps : List Packet :=
      [note 0x09 1, program, ⟨0x00, Triple.zero⟩, ⟨0x0F, ⟨0xF8, 0, 0⟩⟩, note 0x09 2]
    let qs : List Packet :=
      [note 0x34 1, program', ⟨0x51, ⟨1, 2, 3⟩⟩, ⟨0x85, ⟨0xF8, 0xAA, 0xBB⟩⟩, note 0xEE 2]
    let p : Port SimulatedHost 8 4 := new SimulatedHost.new Cable.first (by decide) (by decide)
    program.decode = program'.decode ∧
      (p.session (cs ps)).map Reply.value = (p.session (cs qs)).map Reply.value ∧
      (gather arrivals p (cs qs)).map (fun t => decide (t.Accepted 7))
        = [true, true, false, true, false] ∧
      (p.session (cs ps)).flatMap Reply.log ≠ (p.session (cs qs)).flatMap Reply.log := by
  intro note program program' cs ps qs p
  obtain ⟨hdecode, hruns⟩ := only_payload_counts (i := 8) (o := 4)
  have hpayloads : List.Forall₂ Packet.SamePayload ps qs :=
    .cons (by decide) (.cons (by decide) (.cons (by decide) (.cons (by decide)
      (.cons (by decide) .nil))))
  have hcs : List.Forall₂ Command.Resembles (cs ps) (cs qs) :=
    .cons (.refl _) (.cons (.refl _) (.cons (.deliver hpayloads)
      (List.forall₂_same.2 fun c _ => .refl c)))
  obtain ⟨hanswers, hfates, -⟩ := hruns p p (cs ps) (cs qs) (.refl p) hcs
  refine ⟨(hdecode program program').2 (by decide), hanswers, ?_, by decide +kernel⟩
  rw [← hfates]
  decide +kernel

end Port

end MidiBridge
