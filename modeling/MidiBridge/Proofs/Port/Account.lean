/-
Module: MidiBridge.Proofs.Port.Account
Purpose: The log of a port accounts for every packet, in every session. Its lines are compared with the
  record of what was really done with the transport, with what the ring really took, and with the answers of
  the writes. A packet that was received, sent or dropped has its line, in its place and once. So has every
  attempt to send that fails, save in a flush, where the failure is the answer.
Trusted boundary: human-reviewed spec
Main exports: Encoder.dropped, LogEntry.call?, Port.Answer.Returns, Port.sessionLog, Port.calls_eq,
  Port.refused_perform, Port.LogAccounts, Port.log_accounts
-/
import MidiBridge.Proofs.Port.Outbound
import MidiBridge.Proofs.Port.Reports
import MidiBridge.Proofs.Transport.Recorder

namespace MidiBridge

namespace LogEntry

/-- What the entry says that was done with the transport. -/
def call? : LogEntry → Option Transport.Call
  | .received p => some (.took p)
  | .sent p => some (.sent p)
  | .sendFailed e => some (.failed e)
  | _ => none

def sent? : LogEntry → Option Packet
  | .sent p => some p
  | _ => none

def failure? : LogEntry → Option SendError
  | .sendFailed e => some e
  | _ => none

/-- The packet for which there was no room in the queue. -/
def refused? : LogEntry → Option Packet
  | .outboundFull p => some p
  | _ => none

/-- The warnings are about attempts to send that fail. -/
theorem filter_warn (log : List LogEntry) :
    log.filter (·.level == .warn) = (log.filterMap failure?).map .sendFailed := by
  induction log with
  | nil => rfl
  | cons entry log ih =>
      cases entry with
      | sendFailed e => exact congrArg (_ :: ·) ih
      | _ => exact ih

theorem received?_eq (entry : LogEntry) : entry.received? = entry.call?.bind Transport.Call.taken? := by
  cases entry <;> rfl

theorem sent?_eq (entry : LogEntry) : entry.sent? = entry.call?.bind Transport.Call.sent? := by
  cases entry <;> rfl

theorem failure?_eq (entry : LogEntry) : entry.failure? = entry.call?.bind Transport.Call.failure? := by
  cases entry <;> rfl

/-- The entry says of no packet that it was not sent. -/
def IsQuiet (entry : LogEntry) : Prop := entry.failure? = none ∧ entry.refused? = none

end LogEntry

/-- The packets of some outcomes whose verdict is that they were dropped. -/
def Encoder.dropped (outcomes : List Outcome) (verdicts : List Bool) : List Packet :=
  (outcomes.zip verdicts).filterMap fun s => if s.2 then none else s.1.packet?

theorem Encoder.dropped_append {os : List Outcome} {vs : List Bool} (h : os.length = vs.length)
    (os' : List Outcome) (vs' : List Bool) :
    dropped (os ++ os') (vs ++ vs') = dropped os vs ++ dropped os' vs' := by
  rw [dropped, List.zip_append h, List.filterMap_append]
  rfl

/-- If only outcomes with a packet have a bad verdict, then there are as many dropped packets as bad
    verdicts. -/
theorem Encoder.length_dropped {os : List Outcome} {vs : List Bool} (hlength : os.length = vs.length)
    (h : ∀ s ∈ os.zip vs, s.2 = false → s.1.packet?.isSome) :
    (dropped os vs).length = vs.count false := by
  induction os generalizing vs with
  | nil =>
      cases vs with
      | nil => rfl
      | cons v vs => cases hlength
  | cons o os ih =>
      cases vs with
      | nil => cases hlength
      | cons v vs =>
          rw [List.zip_cons_cons] at h
          obtain ⟨hfirst, hlater⟩ := List.forall_mem_cons.1 h
          have hrest := ih (Nat.succ.inj hlength) hlater
          cases v with
          | true =>
              rw [List.count_cons_of_ne (by simp), ← hrest]
              rfl
          | false =>
              obtain ⟨packet, hpacket⟩ := Option.isSome_iff_exists.1 (hfirst rfl)
              have hdropped : dropped (o :: os) (false :: vs) = packet :: dropped os vs :=
                List.filterMap_cons_some hpacket
              rw [hdropped, List.length_cons, List.count_cons_self, hrest]

namespace Port

open Transport (Call)

variable {τ ε β : Type} {i o : Nat}

/-- The failure of an outcome, if there is one. -/
def failures : Except SendError Unit → List SendError
  | .ok () => []
  | .error e => [e]

def Command.isFlush : Command ε → Bool
  | .flush | .flushStream => true
  | _ => false

/-- The answer is the outcome of a flush in which these attempts failed. A byte stream reports the failure
    in its own way. -/
def Answer.Returns (errors : List SendError) : Answer → Prop
  | .flushed outcome => errors = failures outcome
  | .streamed outcome =>
      ∃ sending, outcome = sending.mapError StreamError.ofSend ∧ errors = failures sending
  | _ => False

/-!
### The record and the log
-/

/-- Between two ports, the record grew by what the log says. -/
def Noted (p : Port (Recorder Call τ) i o) (log : List LogEntry) (q : Port (Recorder Call τ) i o) : Prop :=
  q.transport.notes = p.transport.notes ++ log.filterMap LogEntry.call?

theorem Noted.of_silent {p q : Port (Recorder Call τ) i o} {log : List LogEntry}
    (hlog : log.filterMap LogEntry.call? = []) (hcalls : q.transport.notes = p.transport.notes) :
    Noted p log q := by
  rw [Noted, hlog, hcalls, List.append_nil]

theorem Noted.trans {p q r : Port (Recorder Call τ) i o} {log log' : List LogEntry} (h : Noted p log q)
    (h' : Noted q log' r) : Noted p (log ++ log') r := by
  rw [Noted, h', h, List.filterMap_append, List.append_assoc]

section Record

variable [Transport τ]

theorem calls_dispatch (r : Recorder Call τ) (queue : Ring 8 o Packet) :
    (dispatch r queue).transport.notes
      = r.notes ++ (dispatch r queue).log.filterMap LogEntry.call?
        ++ (failures (dispatch r queue).outcome).map .failed := by
  fun_induction dispatch r queue with
  | case1 r queue hready hpeek => simp [failures]
  | case2 r queue hready p hpeek e r' hsend =>
      simp [Recorder.notes_of_send hsend, failures, Call.ofSend]
  | case3 r queue hready p hpeek r' hsend hsize rest ih =>
      rw [Recorder.notes_of_send hsend] at ih
      simpa [LogEntry.call?, Call.ofSend] using ih
  | case4 r queue hready => simp [failures]

theorem call_accept (inbound : Ring 8 i UInt8) (p : Packet) :
    (accept inbound p).2.filterMap LogEntry.call? = [.took p] := by
  unfold accept
  split
  · rfl
  · split <;> rfl

theorem calls_receive (r : Recorder Call τ) (inbound : Ring 8 i UInt8) :
    (receive r inbound).transport.notes
      = r.notes ++ (receive r inbound).log.filterMap LogEntry.call? := by
  fun_induction receive r inbound with
  | case1 r inbound h => simp
  | case2 r inbound p r' h _ accepted rest ih =>
      have hnotes : r'.notes = r.notes ++ [.took p] := Recorder.notes_of_receive? h
      have hfirst : accepted.2.filterMap LogEntry.call? = [.took p] := call_accept inbound p
      calc
        rest.transport.notes
            = r'.notes ++ rest.log.filterMap LogEntry.call? := ih
        _ = r.notes ++ (accepted.2 ++ rest.log).filterMap LogEntry.call? := by
            rw [List.filterMap_append, hfirst, hnotes, List.append_assoc]

theorem calls_sendOut (p : Port (Recorder Call τ) i o) :
    p.sendOut.port.transport.notes
      = p.transport.notes ++ p.sendOut.log.filterMap LogEntry.call?
        ++ (failures p.sendOut.value).map .failed :=
  calls_dispatch p.transport p.outbound

theorem noted_move {p q : Port (Recorder Call τ) i o} {log : List LogEntry} (h : Move p log q) :
    Noted p log q := by
  cases h with
  | encode b =>
      exact .of_silent (List.filterMap_eq_nil_iff.2 (forall_mem_discardLog fun _ => rfl)) rfl
  | enqueue hpush => exact .of_silent rfl rfl
  | refuse packet hfull => exact .of_silent rfl rfl
  | take => exact calls_receive (Transport.poll p.transport) p.inbound
  | send hok =>
      have hcalls := calls_sendOut p
      rw [hok] at hcalls
      exact hcalls.trans (List.append_nil _)
  | fail herror =>
      have hcalls := calls_sendOut p
      rw [herror] at hcalls
      rw [Noted, hcalls, List.filterMap_append, List.append_assoc]
      rfl
  | reset => exact .of_silent (List.filterMap_eq_nil_iff.2 (forall_mem_reset rfl)) rfl
  | setCable cable => exact .of_silent rfl rfl

theorem noted_moves {p q : Port (Recorder Call τ) i o} {log : List LogEntry} (h : Moves p log q) :
    Noted p log q :=
  h.lift (fun _ => .of_silent rfl rfl) Noted.trans noted_move

/-- The one failure of a flush that is missing in the log is the one that it answers. -/
theorem calls_flush (p : Port (Recorder Call τ) i o) :
    p.flush.port.transport.notes
      = p.transport.notes ++ p.flush.log.filterMap LogEntry.call?
        ++ (failures p.flush.value).map .failed := by
  obtain ⟨q, log, hmoves, hflush⟩ := moves_flush p
  have hbefore : q.transport.notes = _ := noted_moves hmoves
  rw [hflush]
  dsimp only
  rw [calls_sendOut, hbefore, List.filterMap_append, List.append_assoc p.transport.notes]

variable [HostSide τ ε]

/-- The failures of a command that are answered and not logged. -/
def unlogged (p : Port τ i o) (c : Command ε) : List SendError :=
  if c.isFlush then failures p.flush.value else []

theorem unlogged_mapTransport {σ : Type} [Transport σ] [HostSide σ ε] {f : τ → σ} (h : HostSide.Respects f)
    (p : Port τ i o) (c : Command ε) : (p.mapTransport f).unlogged c = p.unlogged c := by
  have hflush : (p.mapTransport f).flush.value = p.flush.value :=
    congrArg Reply.value (flush_mapTransport h.toRespects p)
  simp only [unlogged, hflush]

theorem calls_perform (p : Port (Recorder Call τ) i o) (c : Command ε) :
    (p.perform c).port.transport.notes
      = p.transport.notes ++ (p.perform c).log.filterMap LogEntry.call?
        ++ (p.unlogged c).map .failed := by
  cases hplain : c.isPlain with
  | true =>
      have hcalls : (p.perform c).port.transport.notes = _ := noted_moves (moves_perform hplain p)
      have hnone : c.isFlush = false := by
        cases c with
        | flush | flushStream => cases hplain
        | _ => rfl
      rw [hcalls, unlogged, hnone]
      exact (List.append_nil _).symm
  | false =>
      cases c with
      | flush | flushStream => exact calls_flush p
      | read =>
          have hcalls : p.poll.port.transport.notes = _ := noted_moves (moves_poll p)
          exact hcalls.trans (List.append_nil _).symm
      | host event => exact ((List.append_nil _).trans (List.append_nil _)).symm
      | write | writeAll | poll | available | peek | reset | setCable => cases hplain

/-- What a command does with the transport is what its log says, and the failure that it answers. -/
theorem calls_eq (p : Port τ i o) (c : Command ε) :
    p.calls c = (p.perform c).log.filterMap LogEntry.call? ++ (p.unlogged c).map .failed := by
  have hlog : ((p.recorded Call).perform c).log = (p.perform c).log := congrArg Reply.log (perform_recorded p c)
  have hunlogged : p.unlogged c = (p.recorded Call).unlogged c :=
    unlogged_mapTransport Recorder.respects_inner (p.recorded Call) c
  rw [← hlog, hunlogged]
  exact calls_perform (p.recorded Call) c

end Record

/-!
### What is dropped on the way out

Sending and receiving say nothing about it, and a write says what it answers.
-/

section Refusals

variable [Transport τ]

theorem refused_of_quiet {log : List LogEntry} (h : ∀ entry ∈ log, entry.IsQuiet) :
    log.filterMap LogEntry.refused? = [] :=
  List.filterMap_eq_nil_iff.2 fun entry hentry => (h entry hentry).2

theorem quiet_dispatch (t : τ) (queue : Ring 8 o Packet) :
    ∀ entry ∈ (dispatch t queue).log, entry.IsQuiet := by
  intro entry hentry
  obtain ⟨packet, rfl⟩ := exists_sent_of_mem_dispatch hentry
  exact ⟨rfl, rfl⟩

theorem quiet_accept (inbound : Ring 8 i UInt8) (p : Packet) :
    ∀ entry ∈ (accept inbound p).2, entry.IsQuiet := by
  unfold accept
  split
  · simp [LogEntry.IsQuiet, LogEntry.failure?, LogEntry.refused?]
  · split <;> simp [LogEntry.IsQuiet, LogEntry.failure?, LogEntry.refused?]

theorem quiet_receive (t : τ) (inbound : Ring 8 i UInt8) :
    ∀ entry ∈ (receive t inbound).log, entry.IsQuiet := by
  fun_induction receive t inbound with
  | case1 t inbound h => exact fun _ hentry => (List.not_mem_nil hentry).elim
  | case2 t inbound p t' h _ accepted rest ih =>
      intro entry hentry
      rcases List.mem_append.1 hentry with hfirst | hlater
      · exact quiet_accept inbound p entry hfirst
      · exact ih entry hlater

/-- A flush never logs a failure of its own. -/
theorem quiet_flush (p : Port τ i o) : ∀ entry ∈ p.flush.log, entry.IsQuiet := by
  fun_induction flush p with
  | case1 p d e hok => exact quiet_dispatch p.transport p.outbound
  | case2 p d hok hleft => exact quiet_dispatch p.transport p.outbound
  | case3 p d hok hleft intake hdelay rest ih =>
      intro entry hentry
      rcases List.mem_append.1 hentry with hnow | hlater
      · rcases List.mem_append.1 hnow with hsent | hreceived
        · exact quiet_dispatch p.transport p.outbound entry hsent
        · exact quiet_receive (Transport.poll d.transport) p.inbound entry hreceived
      · exact ih entry hlater

theorem refused_trySend (p : Port τ i o) : p.trySend.log.filterMap LogEntry.refused? = [] := by
  have hsent := refused_of_quiet (quiet_dispatch p.transport p.outbound)
  cases h : p.sendOut.value with
  | ok =>
      rw [trySend_of_ok h]
      exact hsent
  | error e =>
      rw [trySend_of_error h, List.filterMap_append]
      exact (List.append_nil _).trans hsent

theorem refused_poll (p : Port τ i o) : p.poll.log.filterMap LogEntry.refused? = [] := by
  have hreceived := refused_of_quiet (quiet_receive (Transport.poll p.transport) p.inbound)
  have hsent := refused_trySend p.takeIn.port
  calc
    p.poll.log.filterMap LogEntry.refused?
        = p.takeIn.log.filterMap LogEntry.refused?
            ++ p.takeIn.port.trySend.log.filterMap LogEntry.refused? := List.filterMap_append
    _ = [] := by rw [hsent, List.append_nil]; exact hreceived

theorem refused_makeRoom (p : Port τ i o) : p.makeRoom.log.filterMap LogEntry.refused? = [] := by
  unfold makeRoom
  split
  · exact refused_trySend p
  · rfl

theorem refused_enqueue (p : Port τ i o) (packet : Packet) :
    (p.enqueue packet).log.filterMap LogEntry.refused?
      = if (p.enqueue packet).value then [] else [packet] := by
  have hroom := refused_makeRoom p
  rcases p.enqueue_cases packet with ⟨-, h⟩ | ⟨queue, -, -, h⟩
  · rw [h, List.filterMap_append, hroom]
    rfl
  · rw [h, List.filterMap_append, hroom, refused_trySend]
    rfl

/-- A write logs the packet of its byte as dropped exactly if its answer is false. -/
theorem refused_write (p : Port τ i o) (b : UInt8) :
    (p.write b).log.filterMap LogEntry.refused?
      = Encoder.dropped [p.encoder.step b] [(p.write b).value] := by
  have hdiscard : (p.discardLog b).filterMap LogEntry.refused? = [] :=
    List.filterMap_eq_nil_iff.2 (forall_mem_discardLog fun _ => rfl)
  cases h : (p.encoder.step b).packet? with
  | none =>
      rw [write_of_none h]
      exact hdiscard
  | some packet =>
      rw [write_of_some h, List.filterMap_append, hdiscard, refused_enqueue]
      cases hvalue : ((p.encoded b).enqueue packet).value with
      | true => simp [Encoder.dropped]
      | false => simp [Encoder.dropped, h]

theorem refused_writeAll (p : Port τ i o) (bs : List UInt8) :
    (p.writeAll bs).log.filterMap LogEntry.refused?
      = Encoder.dropped (p.encoder.trace bs) (p.writeEach bs) := by
  induction bs generalizing p with
  | nil => rfl
  | cons b bs ih =>
      have hrest := ih (p.write b).port
      rw [encoder_write] at hrest
      calc
        (p.writeAll (b :: bs)).log.filterMap LogEntry.refused?
            = (p.write b).log.filterMap LogEntry.refused?
                ++ ((p.write b).port.writeAll bs).log.filterMap LogEntry.refused? :=
            List.filterMap_append
        _ = Encoder.dropped ([p.encoder.step b] ++ (p.encoder.step b).encoder.trace bs)
              ([(p.write b).value] ++ (p.write b).port.writeEach bs) := by
            rw [refused_write, hrest, Encoder.dropped_append rfl]
        _ = Encoder.dropped (p.encoder.trace (b :: bs)) (p.writeEach (b :: bs)) := rfl

variable [HostSide τ ε]

theorem refused_perform (p : Port τ i o) (c : Command ε) :
    (p.perform c).log.filterMap LogEntry.refused?
      = Encoder.dropped (p.encoder.history c.asks) (p.verdicts c) := by
  cases c with
  | write b => exact refused_write p b
  | writeAll bs =>
      have hwritten := refused_writeAll p bs
      rw [← Encoder.history_map_byte] at hwritten
      exact hwritten
  | flush | flushStream => exact refused_of_quiet (quiet_flush p)
  | poll | available | read | peek => exact refused_poll p
  | reset => exact List.filterMap_eq_nil_iff.2 (forall_mem_reset rfl)
  | setCable cable => rfl
  | host event => rfl

end Refusals

/-!
### Sessions
-/

section Sessions

variable [Transport τ] [HostSide τ ε]

/-- All that is logged in a session. -/
def sessionLog (p : Port τ i o) (cs : List (Command ε)) : List LogEntry := (p.session cs).flatMap Reply.log

theorem sessionLog_cons (p : Port τ i o) (c : Command ε) (cs : List (Command ε)) :
    p.sessionLog (c :: cs) = (p.perform c).log ++ (p.perform c).port.sessionLog cs := rfl

/-- What the log of each command says, the log of a session says in a row. -/
theorem filterMap_sessionLog {g : LogEntry → Option β} {f : Port τ i o → Command ε → List β}
    (h : ∀ p c, (p.perform c).log.filterMap g = f p c) (p : Port τ i o) (cs : List (Command ε)) :
    (p.sessionLog cs).filterMap g = gather f p cs := by
  induction cs generalizing p with
  | nil => rfl
  | cons c cs ih => rw [sessionLog_cons, List.filterMap_append, h, ih, gather_cons]

theorem reports_session (p : Port τ i o) (cs : List (Command ε)) :
    Reports (i - 1) (p.sessionLog cs) (gather arrivals p cs) := by
  induction cs generalizing p with
  | nil => exact .nil
  | cons c cs ih =>
      rw [sessionLog_cons, gather_cons]
      exact (reports_perform p c).append (ih (p.perform c).port)

theorem gather_dropped (p : Port τ i o) (cs : List (Command ε)) :
    gather (fun p c => Encoder.dropped (p.encoder.history c.asks) (p.verdicts c)) p cs
      = Encoder.dropped (p.encoder.history (cs.flatMap Command.asks)) (gather verdicts p cs) := by
  simp only [Encoder.dropped, ← gather_zip_verdicts, filterMap_gather]

/-- What is read off the calls of a command is read off its log and the failure that it answers. -/
theorem filterMap_calls {g : LogEntry → Option β} {k : Call → Option β}
    (h : ∀ entry, g entry = entry.call?.bind k) (p : Port τ i o) (c : Command ε) :
    (p.calls c).filterMap k
      = (p.perform c).log.filterMap g ++ ((p.unlogged c).map Call.failed).filterMap k := by
  have hsame : g = fun entry => entry.call?.bind k := funext h
  rw [calls_eq, List.filterMap_append, List.filterMap_filterMap, hsame]

theorem received_perform (p : Port τ i o) (c : Command ε) :
    (p.perform c).log.filterMap LogEntry.received? = (p.calls c).filterMap Call.taken? := by
  have hnone : ((p.unlogged c).map Call.failed).filterMap Call.taken? = [] := by
    simp [List.filterMap_map, Function.comp_def, Call.taken?]
  rw [filterMap_calls LogEntry.received?_eq, hnone, List.append_nil]

theorem sent_perform (p : Port τ i o) (c : Command ε) :
    (p.perform c).log.filterMap LogEntry.sent? = (p.calls c).filterMap Call.sent? := by
  have hnone : ((p.unlogged c).map Call.failed).filterMap Call.sent? = [] := by
    simp [List.filterMap_map, Function.comp_def, Call.sent?]
  rw [filterMap_calls LogEntry.sent?_eq, hnone, List.append_nil]

/-- The attempts of a command that fail are logged or answered. -/
theorem failures_perform (p : Port τ i o) (c : Command ε) :
    (p.calls c).filterMap Call.failure?
      = (p.perform c).log.filterMap LogEntry.failure? ++ p.unlogged c := by
  have hall :
      ((p.unlogged c).map Call.failed).filterMap Call.failure? = p.unlogged c := by
    simp [List.filterMap_map, Function.comp_def, Call.failure?]
  rw [filterMap_calls LogEntry.failure?_eq, hall]

theorem quiet_of_isFlush {c : Command ε} (h : c.isFlush = true) (p : Port τ i o) :
    ∀ entry ∈ (p.perform c).log, entry.IsQuiet := by
  cases c with
  | flush | flushStream => exact quiet_flush p
  | write | writeAll | poll | available | read | peek | reset | setCable | host => cases h

/-- The failed attempts of a command that warns of them. -/
def warnings (p : Port τ i o) (c : Command ε) : List SendError :=
  if c.isFlush then [] else (p.calls c).filterMap Call.failure?

theorem failure_perform (p : Port τ i o) (c : Command ε) :
    (p.perform c).log.filterMap LogEntry.failure? = p.warnings c := by
  cases h : c.isFlush with
  | true =>
      rw [warnings, if_pos h]
      exact List.filterMap_eq_nil_iff.2 fun entry hentry => (quiet_of_isFlush h p entry hentry).1
  | false =>
      have hnone : p.unlogged c = [] := by rw [unlogged, h]; rfl
      rw [warnings, h, failures_perform, hnone, List.append_nil]
      rfl

/-- A flush does not warn, and its answer is what became of its attempts. -/
theorem flush_perform {c : Command ε} (h : c.isFlush = true) (p : Port τ i o) :
    (∀ entry ∈ (p.perform c).log, entry.level ≠ .warn) ∧
      (p.perform c).value.Returns ((p.calls c).filterMap Call.failure?) := by
  have hquiet := quiet_of_isFlush h p
  constructor
  · intro entry hentry hwarn
    have hfailure := (hquiet entry hentry).1
    cases entry with
    | sendFailed e => cases hfailure
    | _ => cases hwarn
  · have hlogged : (p.perform c).log.filterMap LogEntry.failure? = [] :=
      List.filterMap_eq_nil_iff.2 fun entry hentry => (hquiet entry hentry).1
    rw [failures_perform, hlogged, List.nil_append, unlogged, if_pos h]
    cases c with
    | flush => exact rfl
    | flushStream => exact ⟨p.flush.value, rfl, rfl⟩
    | write | writeAll | poll | available | read | peek | reset | setCable | host => cases h

/-- The log of a session accounts for the packets. -/
structure LogAccounts (p : Port τ i o) (cs : List (Command ε)) : Prop where
  /-- The session and its recording are one: the answers, the log and the ports are the same. -/
  session_eq : ((p.recorded Call).session cs).map (Reply.mapTransport Recorder.inner) = p.session cs
  record_eq : ((p.recorded Call).after cs).transport.notes = gather calls p cs
  /-- The lines about received packets are for the packets that were taken from the transport. -/
  received_eq : (p.sessionLog cs).filterMap LogEntry.received?
    = ((p.recorded Call).after cs).transport.notes.filterMap Call.taken?
  /-- Right behind the line of a packet stands the reason why it is dropped: its code is reserved, or its
      bytes have no room. If there is no reason, there is no such line. -/
  receptions_eq : LogEntry.receptions (p.sessionLog cs)
    = (gather arrivals p cs).map fun t => (t.packet, t.dropLine (i - 1))
  /-- And it does not stand anywhere else. -/
  drops_eq : (p.sessionLog cs).filter LogEntry.isInboundDrop
    = (LogEntry.receptions (p.sessionLog cs)).filterMap Prod.snd
  /-- The line about dropping is there exactly if the packet added nothing to the ring at its turn. -/
  dropLine_iff : ∀ t ∈ gather arrivals p cs, (t.dropLine (i - 1)).isSome = true ↔ t.added = []
  /-- The bytes of the other packets have been read or are in the ring. -/
  bytes_eq : Packet.stream (LogEntry.undropped (p.sessionLog cs))
    = gather bytesTaken p cs ++ (p.after cs).inbound.toList
  /-- The lines about sent packets are for the packets that were sent. -/
  sent_eq : (p.sessionLog cs).filterMap LogEntry.sent?
    = ((p.recorded Call).after cs).transport.notes.filterMap Call.sent?
  /-- The lines about dropped output are for the packets whose write answered that they were dropped. -/
  refused_eq : (p.sessionLog cs).filterMap LogEntry.refused?
    = Encoder.dropped (p.encoder.history (cs.flatMap Command.asks)) (gather verdicts p cs)
  refused_count : ((p.sessionLog cs).filterMap LogEntry.refused?).length = (gather verdicts p cs).count false
  /-- The warnings are for the attempts that failed, other than those of a flush. -/
  warned_eq : (p.sessionLog cs).filter (·.level == .warn) = (gather warnings p cs).map .sendFailed
  /-- A flush that comes next does not warn: its answer is what became of its attempts. -/
  flushed : ∀ c : Command ε, c.isFlush = true →
    (∀ entry ∈ ((p.after cs).perform c).log, entry.level ≠ .warn) ∧
      ((p.after cs).perform c).value.Returns (((p.after cs).calls c).filterMap Call.failure?)

theorem logAccounts_of_empty {p : Port τ i o} (hempty : p.inbound.toList = []) (cs : List (Command ε)) :
    p.LogAccounts cs := by
  have hreports := reports_session p cs
  have hrefused : (p.sessionLog cs).filterMap LogEntry.refused? = _ :=
    (filterMap_sessionLog refused_perform p cs).trans (gather_dropped p cs)
  constructor
  case session_eq => exact session_recorded p cs
  case record_eq => exact record_after p cs
  case received_eq =>
    rw [record_after, filterMap_gather]
    exact filterMap_sessionLog received_perform p cs
  case receptions_eq => exact hreports.receptions_eq
  case drops_eq =>
    rw [hreports.drops_eq, hreports.receptions_eq, List.filterMap_map]
    rfl
  case dropLine_iff =>
    intro t ht
    exact of_mem_gather (fun q c t ht => dropLine_isSome_iff ht) ht
  case bytes_eq =>
    have hbytes := bytes_after p cs
    rw [hempty, List.nil_append] at hbytes
    have hadded : ∀ t ∈ gather arrivals p cs,
        t.added = if t.Accepted (i - 1) then t.packet.decode.toList else [] := fun t ht =>
      of_mem_gather (fun q c t ht => added_of_mem_turns_eq ht) ht
    calc
      Packet.stream (LogEntry.undropped (p.sessionLog cs))
          = Turn.acceptedStream (i - 1) (gather arrivals p cs) := by rw [hreports.undropped_eq]; rfl
      _ = (gather arrivals p cs).flatMap Turn.added := acceptedStream_eq hadded
      _ = gather bytesTaken p cs ++ (p.after cs).inbound.toList := hbytes
  case sent_eq =>
    rw [record_after, filterMap_gather]
    exact filterMap_sessionLog sent_perform p cs
  case refused_eq => exact hrefused
  case refused_count =>
    have hlength : (p.encoder.history (cs.flatMap Command.asks)).length = (gather verdicts p cs).length := by
      rw [Encoder.length_history]
      exact length_gather_verdicts p cs
    rw [hrefused]
    exact Encoder.length_dropped hlength fun s hs h => packet_of_refused_session hs h
  case warned_eq =>
    rw [LogEntry.filter_warn, filterMap_sessionLog failure_perform]
  case flushed =>
    intro c hc
    exact flush_perform hc (p.after cs)

end Sessions

/-- The log of a new port accounts for the packets in every session, whether its host is simulated, with
    stalls and a disconnection at any point, or answers each attempt to send by a script. -/
theorem log_accounts (hi : Ring.Admits 8 i) (ho : Ring.Admits 8 o) (cable : Cable) :
    (∀ cs : List (Command SimulatedHost.Event), (new SimulatedHost.new cable hi ho).LogAccounts cs) ∧
    ∀ cs : List (Command ScriptedHost.Event), (new ScriptedHost.new cable hi ho).LogAccounts cs :=
  ⟨logAccounts_of_empty (Ring.toList_empty hi), logAccounts_of_empty (Ring.toList_empty hi)⟩

/-- Two slots for packets, so one packet can be queued. In the first session, sending fails four times:
    twice for a packet that waits, so that the next is dropped, once for another, and once in a flush, which
    the log does not tell. Of the packets that are received one does not fit and one has a reserved code. In
    the second session a stall makes a packet wait and the next is dropped without an attempt; after the
    host is gone, a poll warns and a flush does not. -/
theorem log_accounts_lossy :
    let note (key : UInt8) : Packet := ⟨0x09, ⟨0x90, key, 0x7F⟩⟩
    let single (b : UInt8) : Packet := ⟨0x0F, ⟨b, 0, 0⟩⟩
    let script : List (Option SendError) :=
      [some (.failed "busy"), some (.failed "busy"), none, some .disconnected, some (.failed "late")]
    let cs : List (Command ScriptedHost.Event) :=
      [.host (.script script),
        .host (.link (.deliver [note 1, note 2, note 3, ⟨0x01, ⟨0xF8, 0, 0⟩⟩, single 0xF8])),
        .writeAll [0xF8, 0xFA], .read, .write 0xFE, .flush]
    let ds : List (Command SimulatedHost.Event) :=
      [.host (.stall 2), .write 0xF8, .write 0xFA, .host (.link .disconnect), .poll, .flush]
    let p : Port ScriptedHost 8 2 := new ScriptedHost.new Cable.first (by decide) (by decide)
    let q : Port SimulatedHost 8 2 := new SimulatedHost.new Cable.first (by decide) (by decide)
    (Ring.Admits 8 8 ∧ Ring.Admits 8 2 ∧ p.LogAccounts cs ∧ q.LogAccounts ds) ∧
      p.sessionLog cs =
        [.sendFailed (.failed "busy"), .sendFailed (.failed "busy"), .outboundFull (single 0xFA),
          .received (note 1), .received (note 2), .received (note 3), .inboundFull [0x90, 3, 0x7F],
          .received ⟨0x01, ⟨0xF8, 0, 0⟩⟩, .reservedCode .cableEvent, .received (single 0xF8),
          .sent (single 0xF8), .sendFailed .disconnected] ∧
      gather bytesTaken p cs ++ (p.after cs).inbound.toList = [0x90, 1, 0x7F, 0x90, 2, 0x7F, 0xF8] ∧
      ((p.recorded Call).after cs).transport.notes.filterMap Call.failure? =
        [.failed "busy", .failed "busy", .disconnected, .failed "late"] ∧
      q.sessionLog ds = [.outboundFull (single 0xFA), .sendFailed .disconnected] ∧
      ((q.recorded Call).after ds).transport.notes = [.failed .disconnected, .failed .disconnected] := by
  intro note single script cs ds p q
  have hscripted := (log_accounts (i := 8) (o := 2) (by decide) (by decide) Cable.first).2 cs
  have hsimulated := (log_accounts (i := 8) (o := 2) (by decide) (by decide) Cable.first).1 ds
  refine ⟨⟨by decide, by decide, hscripted, hsimulated⟩, ?_⟩
  exact ⟨by decide +kernel, by decide +kernel, by decide +kernel, by decide +kernel, by decide +kernel⟩

end Port

end MidiBridge
