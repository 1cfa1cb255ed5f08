/-
Module: MidiBridge.Proofs.Port.Reports
Purpose: How the log tells what became of the packets that were received. Each has its line, and if its
  bytes did not get into the ring, then the next line says so and why; no other line says that input was
  dropped. So the log alone tells which packets were received and which of them contributed bytes, on every
  transport. A move of a port either receives or has no part in the way in, so that a law about the way in is
  proved for these two cases and holds of every command.
Trusted boundary: human-reviewed spec
Main exports: LogEntry.arrived, LogEntry.isInboundDrop, LogEntry.receptions, LogEntry.undropped,
  Port.Turn.dropLine, Port.Reports, Port.Reports.receptions_eq, Port.Reports.drops_eq, Port.log_accept,
  Port.Told, Port.Silent, Port.Move.takes_or_silent, Port.Moves.lift_takes, Port.perform_lift,
  Port.told_perform, Port.received, Port.arrivals, Port.bytesTaken, Port.reports_perform,
  Port.inbound_perform, Port.bytes_perform, Port.bytes_after
-/
import MidiBridge.Proofs.Port.Gather
import MidiBridge.Proofs.Port.Moves
import MidiBridge.Proofs.Port.Turns

namespace MidiBridge

namespace LogEntry

/-- The packet that was received, by an entry of the log. -/
def received? : LogEntry → Option Packet
  | .received p => some p
  | _ => none

/-- The packets that were received, by a part of the log. -/
def arrived (log : List LogEntry) : List Packet := log.filterMap received?

theorem arrived_append (xs ys : List LogEntry) : arrived (xs ++ ys) = arrived xs ++ arrived ys :=
  List.filterMap_append

/-- The entry says that a packet that was received is dropped. -/
def isInboundDrop : LogEntry → Bool
  | .reservedCode _ | .inboundFull _ => true
  | _ => false

/-- The packets that were received, each with the entry right behind its own if that one says that the
    packet is dropped. -/
def receptions : List LogEntry → List (Packet × Option LogEntry)
  | [] => []
  | .received p :: log => (p, log.head?.filter isInboundDrop) :: receptions log
  | _ :: log => receptions log

/-- The packets that were received and of which the log does not say that they are dropped. -/
def undropped (log : List LogEntry) : List Packet :=
  (receptions log).filterMap fun r => if r.2.isNone then some r.1 else none

theorem receptions_cons_of_none {entry : LogEntry} (h : entry.received? = none) (log : List LogEntry) :
    receptions (entry :: log) = receptions log := by
  cases entry with
  | received p => cases h
  | _ => rfl

end LogEntry

namespace Port

variable {τ ε : Type} {i o : Nat}

/-!
### One packet
-/

/-- What the log says behind the line of a packet: nothing, or why the packet is dropped. -/
def Turn.dropLine (capacity : Nat) (t : Turn) : Option LogEntry :=
  if t.packet.code.Reserved then some (.reservedCode t.packet.code)
  else if t.HasRoom capacity then none
  else some (.inboundFull t.packet.decode.toList)

/-- What the log says about a packet. -/
def Turn.report (capacity : Nat) (t : Turn) : List LogEntry :=
  .received t.packet :: (t.dropLine capacity).toList

theorem Turn.isInboundDrop_of_dropLine {capacity : Nat} {t : Turn} {entry : LogEntry}
    (h : t.dropLine capacity = some entry) : entry.isInboundDrop = true := by
  unfold dropLine at h
  split at h
  · cases h
    rfl
  · split at h
    · cases h
    · cases h
      rfl

theorem Turn.dropLine_of_reserved {capacity : Nat} {t : Turn} (h : t.packet.code.Reserved) :
    t.dropLine capacity = some (.reservedCode t.packet.code) := if_pos h

theorem Turn.dropLine_of_lack {capacity : Nat} {t : Turn} (hreserved : ¬ t.packet.code.Reserved)
    (hlack : ¬ t.HasRoom capacity) : t.dropLine capacity = some (.inboundFull t.packet.decode.toList) := by
  rw [dropLine, if_neg hreserved, if_neg hlack]

/-- There is no such line exactly if the packet is accepted. -/
theorem Turn.dropLine_eq_none_iff {capacity : Nat} {t : Turn} :
    t.dropLine capacity = none ↔ t.Accepted capacity := by
  unfold dropLine Accepted
  by_cases hreserved : t.packet.code.Reserved
  · simp [hreserved]
  · by_cases hroom : t.HasRoom capacity
    · simp [hreserved, hroom]
    · simp [hreserved, hroom]

/-- Such a line comes exactly if the packet contributes no bytes. -/
theorem dropLine_isSome_iff {inbound : Ring 8 i UInt8} {ps : List Packet} {t : Turn}
    (h : t ∈ turns inbound ps) : (t.dropLine (i - 1)).isSome = true ↔ t.added = [] := by
  rw [Option.isSome_iff_ne_none, ne_eq, Turn.dropLine_eq_none_iff, added_of_mem_turns_eq h]
  by_cases haccepted : t.Accepted (i - 1)
  · have hbytes : ¬ t.packet.payload = [] := fun hnil => haccepted.1 ((payload_eq_nil_iff t.packet).1 hnil)
    simp [haccepted, hbytes]
  · simp [haccepted]

theorem arrived_accept (inbound : Ring 8 i UInt8) (p : Packet) :
    LogEntry.arrived (accept inbound p).2 = [p] := by
  unfold accept
  split
  · rfl
  · split <;> rfl

/-- What is logged when a packet comes to the ring is the report of its turn, which does not depend on what
    the packet leaves there. -/
theorem log_accept (inbound : Ring 8 i UInt8) (p : Packet) (left : List UInt8) :
    (accept inbound p).2 = Turn.report (i - 1) ⟨p, inbound.toList, left⟩ := by
  have hempty : p.decode.toList.isEmpty = true ↔ p.code.Reserved := by
    rw [List.isEmpty_iff, Packet.toList_decode, payload_eq_nil_iff]
  have hlength : inbound.size + p.decode.toList.length = inbound.toList.length + p.payload.length := by
    rw [Ring.length_toList, Packet.toList_decode]
  by_cases hreserved : p.code.Reserved
  · rw [Turn.report, Turn.dropLine_of_reserved hreserved, accept, if_pos (hempty.2 hreserved)]
    rfl
  · rw [accept, if_neg fun h => hreserved (hempty.1 h)]
    by_cases hroom : inbound.size + p.decode.toList.length ≤ i - 1
    · have haccepted : Turn.Accepted (i - 1) ⟨p, inbound.toList, left⟩ :=
        ⟨hreserved, Nat.le_trans (Nat.le_of_eq hlength.symm) hroom⟩
      obtain ⟨inbound', hpush, -⟩ := Ring.pushAll_of_room inbound.addressable hroom
      rw [Turn.report, Turn.dropLine_eq_none_iff.2 haccepted, hpush]
      rfl
    · have hlack : ¬ Turn.HasRoom (i - 1) ⟨p, inbound.toList, left⟩ := fun h =>
        hroom (Nat.le_trans (Nat.le_of_eq hlength) h)
      rw [Turn.report, Turn.dropLine_of_lack hreserved hlack, Ring.pushAll_of_lack inbound.addressable hroom]
      rfl

/-!
### Parts of a log
-/

/-- A part of a log reports some turns: between other entries, each turn has its own in its place. -/
inductive Reports (capacity : Nat) : List LogEntry → List Turn → Prop where
  | nil : Reports capacity [] []
  | other {entry : LogEntry} {log : List LogEntry} {ts : List Turn} :
      entry.received? = none → entry.isInboundDrop = false → Reports capacity log ts →
      Reports capacity (entry :: log) ts
  | turn {t : Turn} {log : List LogEntry} {ts : List Turn} :
      Reports capacity log ts → Reports capacity (t.report capacity ++ log) (t :: ts)

namespace Reports

variable {capacity : Nat} {log log' : List LogEntry} {ts ts' : List Turn}

theorem of_other (h : ∀ entry ∈ log, entry.received? = none ∧ entry.isInboundDrop = false) :
    Reports capacity log [] := by
  induction log with
  | nil => exact .nil
  | cons entry log ih =>
      obtain ⟨hentry, hrest⟩ := List.forall_mem_cons.1 h
      exact .other hentry.1 hentry.2 (ih hrest)

theorem append (h : Reports capacity log ts) (h' : Reports capacity log' ts') :
    Reports capacity (log ++ log') (ts ++ ts') := by
  induction h with
  | nil => exact h'
  | other hreceived hdrop _ ih => exact .other hreceived hdrop ih
  | turn _ ih =>
      rw [List.append_assoc]
      exact .turn ih

/-- The line of a packet is never missing before the line that says that it is dropped. -/
theorem head_not_drop (h : Reports capacity log ts) : log.head?.filter LogEntry.isInboundDrop = none := by
  cases h with
  | nil => rfl
  | other _ hdrop _ => simp [Option.filter, hdrop]
  | turn _ => rfl

/-- The received packets are those of the turns, each with its line about dropping or none. -/
theorem receptions_eq (h : Reports capacity log ts) :
    LogEntry.receptions log = ts.map fun t => (t.packet, t.dropLine capacity) := by
  induction h with
  | nil => rfl
  | other hreceived _ _ ih => rw [LogEntry.receptions_cons_of_none hreceived, ih]
  | @turn t log ts hlog ih =>
      cases hline : t.dropLine capacity with
      | none =>
          simp only [Turn.report, hline, Option.toList_none, List.singleton_append, LogEntry.receptions,
            hlog.head_not_drop, ih, List.map_cons]
      | some entry =>
          have hdrop := Turn.isInboundDrop_of_dropLine hline
          have hentry : LogEntry.receptions (entry :: log) = LogEntry.receptions log := by
            apply LogEntry.receptions_cons_of_none
            cases entry with
            | received p => cases hdrop
            | _ => rfl
          simp only [Turn.report, hline, Option.toList_some, List.cons_append, List.nil_append,
            LogEntry.receptions, List.head?_cons, Option.filter, hdrop, if_true, List.map_cons]
          rw [hentry, ih]

/-- No entry says that input was dropped but those right behind the packets. -/
theorem drops_eq (h : Reports capacity log ts) :
    log.filter LogEntry.isInboundDrop = ts.filterMap (Turn.dropLine capacity) := by
  induction h with
  | nil => rfl
  | other _ hdrop _ ih => rw [List.filter_cons_of_neg (by simp [hdrop]), ih]
  | @turn t log ts hlog ih =>
      have hreceived : (LogEntry.received t.packet).isInboundDrop = false := rfl
      cases hline : t.dropLine capacity with
      | none => simp [Turn.report, hline, hreceived, ih]
      | some entry =>
          have hdrop := Turn.isInboundDrop_of_dropLine hline
          simp [Turn.report, hline, hreceived, hdrop, ih]

/-- The packets of which a report does not say that they are dropped are those that were accepted. -/
theorem undropped_eq (h : Reports capacity log ts) :
    LogEntry.undropped log = (ts.filter (Turn.Accepted capacity ·)).map Turn.packet := by
  rw [LogEntry.undropped, h.receptions_eq, List.filterMap_map]
  clear h
  induction ts with
  | nil => rfl
  | cons t ts ih =>
      by_cases haccepted : t.Accepted capacity
      · simpa [haccepted, Turn.dropLine_eq_none_iff.2 haccepted] using ih
      · have hline : t.dropLine capacity ≠ none := fun hnone =>
          haccepted (Turn.dropLine_eq_none_iff.1 hnone)
        simpa [haccepted, hline] using ih

end Reports

/-- From `p` to `q` the ring took the packets in the log, and the log reports their turns. -/
structure Told (p : Port τ i o) (log : List LogEntry) (q : Port τ i o) : Prop where
  inbound_eq : q.inbound = acceptAll p.inbound (LogEntry.arrived log)
  reports : Reports (i - 1) log (turns p.inbound (LogEntry.arrived log))

namespace Told

variable {p q r : Port τ i o} {log log' : List LogEntry}

theorem trans (h : Told p log q) (h' : Told q log' r) : Told p (log ++ log') r where
  inbound_eq := by rw [h'.inbound_eq, h.inbound_eq, LogEntry.arrived_append, acceptAll_append]
  reports := by
    have hlater := h'.reports
    rw [h.inbound_eq] at hlater
    rw [LogEntry.arrived_append, turns_append]
    exact h.reports.append hlater

/-- What the ring held, and behind it what the packets have added, is what the ring holds. -/
theorem bytes_eq (h : Told p log q) :
    p.inbound.toList ++ (turns p.inbound (LogEntry.arrived log)).flatMap Turn.added
      = q.inbound.toList := by
  rw [h.inbound_eq, toList_acceptAll]

end Told

/-!
### Moves

A packet is received in one of the moves and in no other.
-/

section Moves

variable [Transport τ]

/-- From `p` to `q` nothing happened on the way in, and the log does not speak of it. The transport may have
    been sent something. -/
structure Silent (p : Port τ i o) (log : List LogEntry) (q : Port τ i o) : Prop where
  other : ∀ entry ∈ log, entry.received? = none ∧ entry.isInboundDrop = false
  inbound_eq : q.inbound = p.inbound
  transport_eq : q.transport = p.transport ∨ q.transport = p.sendOut.port.transport

theorem Silent.arrived_eq {p q : Port τ i o} {log : List LogEntry} (h : Silent p log q) :
    LogEntry.arrived log = [] :=
  List.filterMap_eq_nil_iff.2 fun entry hentry => (h.other entry hentry).1

theorem exists_sent_of_mem_dispatch {t : τ} {queue : Ring 8 o Packet} {entry : LogEntry}
    (h : entry ∈ (dispatch t queue).log) : ∃ packet, entry = .sent packet := by
  fun_induction dispatch t queue with
  | case1 t queue hready hpeek => cases h
  | case2 t queue hready p hpeek e t' hsend => cases h
  | case3 t queue hready p hpeek t' hsend hsize rest ih =>
      rcases List.mem_cons.1 h with hfirst | hlater
      · exact ⟨p, hfirst⟩
      · exact ih hlater
  | case4 t queue hready => cases h

theorem other_of_mem_sendOut {p : Port τ i o} {entry : LogEntry} (h : entry ∈ p.sendOut.log) :
    entry.received? = none ∧ entry.isInboundDrop = false := by
  obtain ⟨packet, rfl⟩ := exists_sent_of_mem_dispatch h
  exact ⟨rfl, rfl⟩

theorem silent_nil (p : Port τ i o) : Silent p [] p :=
  ⟨fun _ hentry => (List.not_mem_nil hentry).elim, rfl, .inl rfl⟩

theorem silent_sendOut (p : Port τ i o) : Silent p p.sendOut.log p.sendOut.port :=
  ⟨fun _ hentry => other_of_mem_sendOut hentry, rfl, .inr rfl⟩

/-- All that a move can be on the way in. -/
theorem Move.takes_or_silent {p q : Port τ i o} {log : List LogEntry} (h : Move p log q) :
    (log = p.takeIn.log ∧ q = p.takeIn.port) ∨ Silent p log q := by
  cases h with
  | take => exact .inl ⟨rfl, rfl⟩
  | encode b => exact .inr ⟨forall_mem_discardLog fun _ => ⟨rfl, rfl⟩, rfl, .inl rfl⟩
  | enqueue hpush => exact .inr ⟨(silent_nil p).other, rfl, .inl rfl⟩
  | refuse packet hfull => exact .inr ⟨List.forall_mem_singleton.2 ⟨rfl, rfl⟩, rfl, .inl rfl⟩
  | send hok => exact .inr (silent_sendOut p)
  | fail herror =>
      refine .inr ⟨?_, rfl, .inr rfl⟩
      exact List.forall_mem_append.2
        ⟨(silent_sendOut p).other, List.forall_mem_singleton.2 ⟨rfl, rfl⟩⟩
  | reset => exact .inr ⟨forall_mem_reset ⟨rfl, rfl⟩, rfl, .inl rfl⟩
  | setCable cable => exact .inr ⟨(silent_nil p).other, rfl, .inl rfl⟩

section Lift

variable {motive : Port τ i o → List LogEntry → Port τ i o → Prop}
  (htake : ∀ p, motive p p.takeIn.log p.takeIn.port)
  (hsilent : ∀ {p q log}, Silent p log q → motive p log q)
  (htrans : ∀ {p q r log log'}, motive p log q → motive q log' r → motive p (log ++ log') r)

include htake hsilent htrans

/-- What holds of receiving, of what has no part in it and of two parts in a row holds of every row of
    moves. -/
theorem Moves.lift_takes {p q : Port τ i o} {log : List LogEntry} (h : Moves p log q) :
    motive p log q := by
  refine h.lift (fun p => hsilent (silent_nil p)) htrans ?_
  intro p q log hmove
  rcases hmove.takes_or_silent with ⟨rfl, rfl⟩ | h
  · exact htake p
  · exact hsilent h

/-- It also holds of every command that takes no byte and is the user's, not the host's. -/
theorem perform_lift [HostSide τ ε] {c : Command ε} (hread : c ≠ .read) (hhost : ∀ event, c ≠ .host event)
    (p : Port τ i o) : motive p (p.perform c).log (p.perform c).port := by
  cases hplain : c.isPlain with
  | true => exact (moves_perform hplain p).lift_takes htake hsilent htrans
  | false =>
      cases c with
      | flush | flushStream =>
          obtain ⟨q, log, hbefore, hflush⟩ := moves_flush p
          have hlast : motive p p.flush.log p.flush.port := by
            rw [hflush]
            exact htrans (hbefore.lift_takes htake hsilent htrans) (hsilent (silent_sendOut q))
          exact hlast
      | read => exact absurd rfl hread
      | host event => exact absurd rfl (hhost event)
      | write | writeAll | poll | available | peek | reset | setCable => cases hplain

end Lift

theorem told_of_silent {p q : Port τ i o} {log : List LogEntry} (h : Silent p log q) : Told p log q := by
  have hnone := h.arrived_eq
  constructor
  · rw [hnone, h.inbound_eq]
    rfl
  · rw [hnone]
    exact .of_other h.other

theorem told_receive (t : τ) (inbound : Ring 8 i UInt8) :
    (receive t inbound).inbound = acceptAll inbound (LogEntry.arrived (receive t inbound).log) ∧
      Reports (i - 1) (receive t inbound).log
        (turns inbound (LogEntry.arrived (receive t inbound).log)) := by
  fun_induction receive t inbound with
  | case1 t inbound h => exact ⟨rfl, .nil⟩
  | case2 t inbound p t' h _ accepted rest ih =>
      have hfirst : LogEntry.arrived accepted.2 = [p] := arrived_accept inbound p
      have harrived : LogEntry.arrived (accepted.2 ++ rest.log) = p :: LogEntry.arrived rest.log := by
        rw [LogEntry.arrived_append, hfirst]
        rfl
      have hreport : accepted.2 = _ := log_accept inbound p (accept inbound p).1.toList
      obtain ⟨hring, hrest⟩ := ih
      constructor
      · rw [harrived]
        exact hring
      · rw [harrived, hreport]
        exact .turn hrest

theorem told_takeIn (p : Port τ i o) : Told p p.takeIn.log p.takeIn.port := by
  obtain ⟨hring, hreports⟩ := told_receive (Transport.poll p.transport) p.inbound
  exact ⟨hring, hreports⟩

theorem told_poll (p : Port τ i o) : Told p p.poll.log p.poll.port :=
  (moves_poll p).lift_takes told_takeIn told_of_silent Told.trans

end Moves

/-!
### Commands
-/

section Commands

variable [Transport τ] [HostSide τ ε]

/-- The packets that arrive in the course of a command. -/
def received (p : Port τ i o) (c : Command ε) : List Packet := LogEntry.arrived (p.perform c).log

/-- The turns of the packets that arrive in the course of a command. They all come before a byte is read. -/
def arrivals (p : Port τ i o) (c : Command ε) : List Turn := turns p.inbound (p.received c)

/-- The byte that a command takes out of the ring. -/
def bytesTaken (p : Port τ i o) : Command ε → List UInt8
  | .read => p.read.value.toList
  | _ => []

/-- A command that takes no byte and is the user's, not the host's, leaves its report and does nothing else to
    the ring. -/
theorem told_perform {c : Command ε} (hread : c ≠ .read) (hhost : ∀ event, c ≠ .host event)
    (p : Port τ i o) : Told p (p.perform c).log (p.perform c).port :=
  perform_lift told_takeIn told_of_silent Told.trans hread hhost p

theorem reports_perform (p : Port τ i o) (c : Command ε) :
    Reports (i - 1) (p.perform c).log (p.arrivals c) := by
  cases c with
  | read => exact (told_poll p).reports
  | host event => exact .nil
  | _ => exact (told_perform (by simp) (by simp) p).reports

/-- Except for a read, a command changes the ring only by what is received in its course. -/
theorem inbound_perform {c : Command ε} (h : c ≠ .read) (p : Port τ i o) :
    (p.perform c).port.inbound = acceptAll p.inbound (p.received c) := by
  cases c with
  | read => exact absurd rfl h
  | host event => rfl
  | _ => exact (told_perform h (by simp) p).inbound_eq

/-- Bytes are added behind the others at the turns of packets, and the byte that is read was in front. -/
theorem bytes_perform (p : Port τ i o) (c : Command ε) :
    p.inbound.toList ++ (p.arrivals c).flatMap Turn.added
      = p.bytesTaken c ++ (p.perform c).port.inbound.toList := by
  cases c with
  | read => exact (told_poll p).bytes_eq.trans (Ring.toList_eq_pop p.poll.port.inbound)
  | host event => exact List.append_nil _
  | _ => exact (told_perform (by simp) (by simp) p).bytes_eq

/-- All bytes that packets have added in a session are read, in the order of the turns, or are in the ring. -/
theorem bytes_after (p : Port τ i o) (cs : List (Command ε)) :
    p.inbound.toList ++ (gather arrivals p cs).flatMap Turn.added
      = gather bytesTaken p cs ++ (p.after cs).inbound.toList := by
  rw [flatMap_gather]
  exact gather_conserved (fun p => p.inbound.toList) bytes_perform p cs

theorem map_packet_gather (p : Port τ i o) (cs : List (Command ε)) :
    (gather arrivals p cs).map Turn.packet = gather received p cs := by
  have hone : (fun (p : Port τ i o) (c : Command ε) => (p.arrivals c).map Turn.packet) = received :=
    funext fun p => funext fun c => map_packet_turns p.inbound (p.received c)
  rw [map_gather, hone]

end Commands

end Port

end MidiBridge
