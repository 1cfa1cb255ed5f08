/-
Module: MidiBridge.Proofs.Port.Backpressure
Purpose: What a write answers, exactly. It is false if and only if the queue was full before and none of its
  packets went out during the write; then the new packet is lost and the queue is as it was. If it is true,
  then what went out, followed by the queue, is the queue from before with the new packet behind it. Sending
  goes as far as it can: a write of a packet and a poll end with an empty queue, a closed way out or a failed
  attempt. So on a transport whose way out is always open and where no attempt fails, every write is accepted
  and nothing is ever left in the queue.
Trusted boundary: human-reviewed spec
Main exports: Transport.Call.isAttempt, Port.sentIn, Port.LastAttemptFails, Port.Exhausts, Port.WriteExact,
  HostSide.Flowing, Port.Clear, Port.clear_perform, Port.write_exact
-/
import MidiBridge.Proofs.Port.Retry

namespace MidiBridge

/-- The call is an attempt to send. -/
def Transport.Call.isAttempt : Call → Bool
  | .took _ => false
  | .sent _ | .failed _ => true

namespace Port

variable {τ ε : Type} {i o : Nat}

/-- The commands that are a poll, or begin with one. -/
def Command.polls : Command ε → Bool
  | .poll | .available | .read | .peek => true
  | _ => false

section Definitions

variable [Transport τ] [HostSide τ ε]

/-- The packets that a command sends. -/
def sentIn (p : Port τ i o) (c : Command ε) : List Packet := (p.calls c).filterMap Transport.Call.sent?

/-- A command makes attempts to send, and the last of them fails. -/
def LastAttemptFails (p : Port τ i o) (c : Command ε) : Prop :=
  ∃ e, ((p.calls c).filter Transport.Call.isAttempt).getLast? = some (.failed e)

/-- A command ends because nothing is left to be sent, because the way out is closed, or because an attempt
    failed. -/
def Exhausts (p : Port τ i o) (c : Command ε) : Prop :=
  (p.perform c).port.outbound.toList = [] ∨
    Transport.ready (p.perform c).port.transport = false ∨
    p.LastAttemptFails c

/-- What a write of the byte `b` does and answers. -/
structure WriteExact (p : Port τ i o) (b : UInt8) : Prop where
  /-- A byte that completes no packet changes the encoder and nothing else. -/
  of_incomplete : (p.encoder.step b).packet? = none →
    (p.write b).value = true ∧
      (p.write b).port = { p with encoder := (p.encoder.step b).encoder } ∧
      p.calls (.write b) = []
  /-- A packet is refused exactly if the queue was full and stayed full. -/
  refused_iff : ∀ packet ∈ (p.encoder.step b).packet?,
    (p.write b).value = false ↔ p.pendingOutput = o - 1 ∧ p.sentIn (.write b) = []
  /-- Then the new packet is all that is lost. -/
  of_refused : (p.write b).value = false →
    (p.write b).port =
      { p with transport := (p.write b).port.transport, encoder := (p.encoder.step b).encoder }
  /-- An accepted packet is behind those that were queued. -/
  of_accepted : ∀ packet ∈ (p.encoder.step b).packet?, (p.write b).value = true →
    p.sentIn (.write b) ++ (p.write b).port.outbound.toList = p.outbound.toList ++ [packet]
  /-- What is sent in the write is at the host afterwards, behind what was sent before. -/
  sent_eq : HostSide.sent (p.write b).port.transport = HostSide.sent p.transport ++ p.sentIn (.write b)
  exhausts : ∀ packet ∈ (p.encoder.step b).packet?, p.Exhausts (.write b)

end Definitions

/-!
### What is sent, by the log

A packet leaves the queue at the front and has its line. If there is no line, the ring has not been touched.
-/

section Sent

variable [Transport τ]

theorem sent_dispatch (t : τ) (queue : Ring 8 o Packet) :
    (dispatch t queue).log.filterMap LogEntry.sent? ++ (dispatch t queue).outbound.toList
      = queue.toList := by
  fun_induction dispatch t queue with
  | case1 t queue hready hpeek => rfl
  | case2 t queue hready p hpeek e t' hsend => rfl
  | case3 t queue hready p hpeek t' hsend hsize rest ih =>
      rw [Ring.toList_of_peek hpeek, ← ih]
      rfl
  | case4 t queue hready => rfl

theorem outbound_dispatch_of_none {t : τ} {queue : Ring 8 o Packet}
    (h : (dispatch t queue).log.filterMap LogEntry.sent? = []) : (dispatch t queue).outbound = queue := by
  fun_induction dispatch t queue with
  | case1 t queue hready hpeek => rfl
  | case2 t queue hready p hpeek e t' hsend => rfl
  | case3 t queue hready p hpeek t' hsend hsize rest ih => cases h
  | case4 t queue hready => rfl

theorem sentLog_trySend (p : Port τ i o) :
    p.trySend.log.filterMap LogEntry.sent?
      = (dispatch p.transport p.outbound).log.filterMap LogEntry.sent? := by
  cases h : p.sendOut.value with
  | ok =>
      rw [trySend_of_ok h]
      rfl
  | error e =>
      rw [trySend_of_error h, List.filterMap_append]
      exact List.append_nil _

theorem sent_trySend (p : Port τ i o) :
    p.trySend.log.filterMap LogEntry.sent? ++ p.trySend.port.outbound.toList = p.outbound.toList := by
  rw [sentLog_trySend]
  exact sent_dispatch p.transport p.outbound

theorem sent_makeRoom (p : Port τ i o) :
    p.makeRoom.log.filterMap LogEntry.sent? ++ p.makeRoom.port.outbound.toList = p.outbound.toList := by
  unfold makeRoom
  split
  · exact sent_trySend p
  · rfl

/-- If the queue is full even after an attempt to make room, then it was full before, and nothing was sent. -/
theorem makeRoom_of_full {p : Port τ i o} (h : p.makeRoom.port.outbound.isFull = true) :
    p.outbound.isFull = true ∧ p.makeRoom = p.trySend ∧
      p.makeRoom.log.filterMap LogEntry.sent? = [] := by
  have hfull : p.outbound.isFull = true := by
    by_contra hroom
    rw [makeRoom, if_neg hroom] at h
    exact hroom h
  have hsame : p.makeRoom = p.trySend := if_pos hfull
  have hlength := congrArg List.length (sent_makeRoom p)
  rw [List.length_append, Ring.length_toList, Ring.length_toList, (Ring.isFull_iff_size _).1 h,
    (Ring.isFull_iff_size _).1 hfull] at hlength
  have hnothing : (p.makeRoom.log.filterMap LogEntry.sent?).length = 0 := by omega
  exact ⟨hfull, hsame, List.length_eq_zero_iff.1 hnothing⟩

/-- A full queue from which nothing is sent stays as it is. -/
theorem makeRoom_of_none {p : Port τ i o} (hfull : p.outbound.isFull = true)
    (h : p.makeRoom.log.filterMap LogEntry.sent? = []) : p.makeRoom.port.outbound = p.outbound := by
  have hsame : p.makeRoom = p.trySend := if_pos hfull
  rw [hsame, sentLog_trySend] at h
  rw [hsame]
  exact outbound_dispatch_of_none h

theorem enqueue_refused_iff (p : Port τ i o) (packet : Packet) :
    (p.enqueue packet).value = false ↔
      p.outbound.isFull = true ∧ (p.enqueue packet).log.filterMap LogEntry.sent? = [] := by
  rcases p.enqueue_cases packet with ⟨hfull, h⟩ | ⟨queue, hroom, -, h⟩
  · obtain ⟨hbefore, -, hnone⟩ := makeRoom_of_full hfull
    rw [h, List.filterMap_append, hnone]
    exact iff_of_true rfl ⟨hbefore, rfl⟩
  · rw [h, List.filterMap_append, List.append_eq_nil_iff]
    refine iff_of_false (fun hvalue => Bool.noConfusion hvalue) ?_
    rintro ⟨hbefore, hnone, -⟩
    rw [makeRoom_of_none hbefore hnone, hbefore] at hroom
    cases hroom

theorem sent_enqueue_of_accepted {p : Port τ i o} {packet : Packet}
    (h : (p.enqueue packet).value = true) :
    (p.enqueue packet).log.filterMap LogEntry.sent? ++ (p.enqueue packet).port.outbound.toList
      = p.outbound.toList ++ [packet] := by
  rcases p.enqueue_cases packet with ⟨-, henqueue⟩ | ⟨queue, -, hlist, henqueue⟩
  · rw [henqueue] at h
    cases h
  · rw [henqueue, List.filterMap_append, List.append_assoc, sent_trySend, hlist, ← List.append_assoc,
      sent_makeRoom]

theorem port_enqueue_of_refused {p : Port τ i o} {packet : Packet}
    (h : (p.enqueue packet).value = false) :
    (p.enqueue packet).port = { p with transport := (p.enqueue packet).port.transport } := by
  rcases p.enqueue_cases packet with ⟨hfull, henqueue⟩ | ⟨queue, -, -, henqueue⟩
  · obtain ⟨hbefore, hsame, hnone⟩ := makeRoom_of_full hfull
    have hqueue := makeRoom_of_none hbefore hnone
    rw [hsame] at hqueue
    rw [henqueue, hsame, trySend]
    exact congrArg (fun queue => { p with transport := p.trySend.port.transport, outbound := queue }) hqueue
  · rw [henqueue] at h
    cases h

end Sent

/-!
### Where sending ends
-/

section Stopping

variable [Transport τ]

/-- After the log, nothing is left to be sent from the port, or the way out is closed, or the last call was an
    attempt that failed. -/
def Stops (q : Port τ i o) (log : List LogEntry) : Prop :=
  q.outbound.toList = [] ∨ Transport.ready q.transport = false ∨
    ∃ e, (log.filterMap LogEntry.call?).getLast? = some (.failed e)

theorem Stops.after {q : Port τ i o} {log : List LogEntry} (h : Stops q log) (earlier : List LogEntry) :
    Stops q (earlier ++ log) := by
  refine h.imp_right (Or.imp_right ?_)
  rintro ⟨e, hlast⟩
  refine ⟨e, ?_⟩
  rw [List.filterMap_append, List.getLast?_append, hlast]
  rfl

theorem stops_trySend (p : Port τ i o) : Stops p.trySend.port p.trySend.log := by
  cases h : p.sendOut.value with
  | ok =>
      rw [trySend_of_ok h]
      rcases dispatch_stops p.transport p.outbound h with hempty | hclosed
      · exact Or.inl ((Ring.isEmpty_iff_toList _).1 hempty)
      · exact Or.inr (Or.inl hclosed)
  | error e =>
      rw [trySend_of_error h]
      refine Or.inr (Or.inr ⟨e, ?_⟩)
      rw [List.filterMap_append]
      exact List.getLast?_concat

theorem stops_poll (p : Port τ i o) : Stops p.poll.port p.poll.log :=
  (stops_trySend p.takeIn.port).after p.takeIn.log

theorem stops_enqueue (p : Port τ i o) (packet : Packet) :
    Stops (p.enqueue packet).port (p.enqueue packet).log := by
  rcases p.enqueue_cases packet with ⟨hfull, h⟩ | ⟨queue, -, -, h⟩
  · -- The line about the dropped packet tells of no call.
    obtain ⟨-, hsame, -⟩ := makeRoom_of_full hfull
    have hcalls : (p.trySend.log ++ [LogEntry.outboundFull packet]).filterMap LogEntry.call?
        = p.trySend.log.filterMap LogEntry.call? := by
      rw [List.filterMap_append]
      exact List.append_nil _
    rw [h, hsame, Stops, hcalls]
    exact stops_trySend p
  · rw [h]
    exact (stops_trySend _).after p.makeRoom.log

variable [HostSide τ ε]

theorem exhausts_of_stops {p : Port τ i o} {c : Command ε} (hflush : c.isFlush = false)
    (h : Stops (p.perform c).port (p.perform c).log) : p.Exhausts c := by
  have hcalls : p.calls c = (p.perform c).log.filterMap LogEntry.call? := by
    rw [calls_eq, unlogged, hflush]
    exact List.append_nil _
  refine h.imp_right (Or.imp_right ?_)
  rintro ⟨e, hlast⟩
  obtain ⟨earlier, hsplit⟩ := List.getLast?_eq_some_iff.1 hlast
  refine ⟨e, ?_⟩
  rw [hcalls, hsplit, List.filter_append]
  exact List.getLast?_concat

theorem exhausts_of_polls {c : Command ε} (h : c.polls = true) (p : Port τ i o) : p.Exhausts c := by
  cases c with
  | poll | available | peek | read => exact exhausts_of_stops rfl (stops_poll p)
  | write | writeAll | flush | flushStream | reset | setCable | host => cases h

end Stopping

/-!
### Writing
-/

section Writing

variable [Transport τ] [HostSide τ ε]

theorem sentIn_write {p : Port τ i o} {b : UInt8} {packet : Packet}
    (h : (p.encoder.step b).packet? = some packet) :
    p.sentIn (.write b) = ((p.encoded b).enqueue packet).log.filterMap LogEntry.sent? := by
  have hdiscard : (p.discardLog b).filterMap LogEntry.sent? = [] :=
    List.filterMap_eq_nil_iff.2 (forall_mem_discardLog fun _ => rfl)
  have hlog : (p.perform (.write b)).log = p.discardLog b ++ ((p.encoded b).enqueue packet).log := by
    rw [perform, Reply.map, write_of_some h]
  rw [sentIn, ← sent_perform, hlog, List.filterMap_append, hdiscard, List.nil_append]

theorem calls_write_of_none {p : Port τ i o} {b : UInt8} (h : (p.encoder.step b).packet? = none) :
    p.calls (.write b) = [] := by
  have hlog : (p.perform (.write b)).log = p.discardLog b := by
    rw [perform, Reply.map, write_of_none h]
  have hdiscard : (p.discardLog b).filterMap LogEntry.call? = [] :=
    List.filterMap_eq_nil_iff.2 (forall_mem_discardLog fun _ => rfl)
  rw [calls_eq, hlog, hdiscard]
  rfl

theorem write_refused_iff {p : Port τ i o} {b : UInt8} {packet : Packet}
    (h : (p.encoder.step b).packet? = some packet) :
    (p.write b).value = false ↔ p.pendingOutput = o - 1 ∧ p.sentIn (.write b) = [] := by
  rw [write_of_some h, sentIn_write h, pendingOutput_eq, ← Ring.isFull_iff_size]
  exact enqueue_refused_iff (p.encoded b) packet

theorem write_of_accepted {p : Port τ i o} {b : UInt8} {packet : Packet}
    (h : (p.encoder.step b).packet? = some packet) (hvalue : (p.write b).value = true) :
    p.sentIn (.write b) ++ (p.write b).port.outbound.toList = p.outbound.toList ++ [packet] := by
  rw [write_of_some h] at hvalue ⊢
  rw [sentIn_write h]
  exact sent_enqueue_of_accepted hvalue

theorem write_of_refused {p : Port τ i o} {b : UInt8} (hvalue : (p.write b).value = false) :
    (p.write b).port =
      { p with transport := (p.write b).port.transport, encoder := (p.encoder.step b).encoder } := by
  obtain ⟨packet, h⟩ := Option.isSome_iff_exists.1 (packet_of_refused hvalue)
  rw [write_of_some h] at hvalue ⊢
  exact port_enqueue_of_refused hvalue

theorem exhausts_write {p : Port τ i o} {b : UInt8} {packet : Packet}
    (h : (p.encoder.step b).packet? = some packet) : p.Exhausts (.write b) := by
  apply exhausts_of_stops rfl
  rw [perform, Reply.map, write_of_some h]
  exact (stops_enqueue (p.encoded b) packet).after (p.discardLog b)

/-- The host has what the write sent: the packets on the way out grow by the new packet if it is accepted,
    and the queue accounts for the others. -/
theorem sent_write [HostSide.Faithful τ ε] (p : Port τ i o) (b : UInt8) :
    HostSide.sent (p.write b).port.transport = HostSide.sent p.transport ++ p.sentIn (.write b) := by
  have houtput := output_write p b
  cases h : (p.encoder.step b).packet? with
  | none =>
      rw [write_of_none h, sentIn, calls_write_of_none h]
      exact (List.append_nil _).symm
  | some packet =>
      cases hvalue : (p.write b).value with
      | true =>
          have hkept : Encoder.kept [p.encoder.step b] [true] = [packet] := List.filterMap_cons_some h
          have haccepted := write_of_accepted h hvalue
          rw [hvalue, hkept, output, output, List.append_assoc, ← haccepted, ← List.append_assoc] at houtput
          exact List.append_cancel_right houtput
      | false =>
          have hnothing := ((write_refused_iff h).1 hvalue).2
          have hqueue : (p.write b).port.outbound = p.outbound := by rw [write_of_refused hvalue]
          have hkept : Encoder.kept [p.encoder.step b] [false] = [] := rfl
          rw [hvalue, hkept, List.append_nil, output, output, hqueue] at houtput
          rw [hnothing, List.append_nil]
          exact List.append_cancel_right houtput

theorem writeExact [HostSide.Faithful τ ε] (p : Port τ i o) (b : UInt8) : p.WriteExact b where
  of_incomplete h := by
    have hcalls := calls_write_of_none h
    rw [write_of_none h]
    exact ⟨rfl, rfl, hcalls⟩
  refused_iff _ h := write_refused_iff h
  of_refused h := write_of_refused h
  of_accepted _ h hvalue := write_of_accepted h hvalue
  sent_eq := sent_write p b
  exhausts _ h := exhausts_write h

end Writing

end Port

/-!
### Transports that always flow
-/

/-- In the states `good` of a transport the way out is open and no attempt fails, and neither the port nor the
    events `calm` at the host lead out of these states. -/
structure HostSide.Flowing {τ ε : Type} [Transport τ] [HostSide τ ε] (good : τ → Prop)
    (calm : ε → Bool) : Prop where
  ready {t : τ} : good t → Transport.ready t = true
  send {t : τ} (p : Packet) : good t → ∃ t', Transport.send t p = (.ok (), t') ∧ good t'
  receive? {t t' : τ} {p : Packet} : Transport.receive? t = some (p, t') → good t → good t'
  poll {t : τ} : good t → good (Transport.poll t)
  act {t : τ} {event : ε} : calm event = true → good t → good (HostSide.act t event).1

namespace Link

/-- The host does not disconnect. -/
def Event.isCalm : Event → Bool
  | .disconnect => false
  | _ => true

theorem connected_receive? {l l' : Link} {p : Packet} (h : l.receive? = some (p, l')) :
    l'.connected = l.connected := by
  unfold receive? at h
  split at h
  · cases h
  · cases h
    rfl

theorem connected_act {l : Link} {event : Event} (h : event.isCalm = true) :
    (l.act event).1.connected = l.connected := by
  cases event with
  | disconnect => cases h
  | deliver ps => rfl
  | collect => rfl
  | loopBack => rfl

end Link

namespace SimulatedHost

/-- The host is there, and there is no stall. -/
def Flows (t : SimulatedHost) : Prop := t.link.connected = true ∧ t.stall = 0

def Event.isCalm : Event → Bool
  | .link event => event.isCalm
  | .stall polls => polls == 0

theorem flowing : HostSide.Flowing Flows Event.isCalm where
  ready h := by
    rw [ready_of_connected h.1, h.2]
    rfl
  send p h := ⟨_, send_of_open h.1 h.2 p, h⟩
  receive? {t t' p} h := by
    have hreceive : t.receive? = some (p, t') := h
    obtain ⟨link, hlink, rfl⟩ := Link.receiveInto_eq_some hreceive
    exact And.imp_left (Link.connected_receive? hlink).trans
  poll h := ⟨h.1, Nat.sub_eq_zero_of_le (Nat.le_succ_of_le (Nat.le_of_eq h.2))⟩
  act {t event} hcalm h := by
    cases event with
    | link event => exact ⟨(Link.connected_act hcalm).trans h.1, h.2⟩
    | stall polls => exact ⟨h.1, eq_of_beq hcalm⟩

end SimulatedHost

namespace ScriptedHost

/-- The host is there, and the script has no error. -/
def Flows (t : ScriptedHost) : Prop := t.link.connected = true ∧ ∀ outcome ∈ t.outcomes, outcome = none

def Event.isCalm : Event → Bool
  | .link event => event.isCalm
  | .script outcomes => outcomes.all Option.isNone

theorem flowing : HostSide.Flowing Flows Event.isCalm where
  ready _ := rfl
  send {t} p h := by
    have hnext : ∀ e, t.outcomes.head? ≠ some (some e) := by
      intro e he
      cases h.2 (some e) (List.mem_of_head? he)
    refine ⟨_, Port.send_of_no_error h.1 hnext p, h.1, ?_⟩
    intro outcome hmem
    exact h.2 outcome (List.mem_of_mem_tail hmem)
  receive? {t t' p} h := by
    have hreceive : t.receive? = some (p, t') := h
    obtain ⟨link, hlink, rfl⟩ := Link.receiveInto_eq_some hreceive
    exact And.imp_left (Link.connected_receive? hlink).trans
  poll h := h
  act {t event} hcalm h := by
    cases event with
    | link event => exact ⟨(Link.connected_act hcalm).trans h.1, h.2⟩
    | script outcomes =>
        refine ⟨h.1, fun outcome hmem => ?_⟩
        rcases List.mem_append.1 hmem with hold | hnew
        · exact h.2 outcome hold
        · exact Option.isNone_iff_eq_none.1 (List.all_eq_true.1 hcalm outcome hnew)

end ScriptedHost

namespace Port

variable {τ ε : Type} {i o : Nat}

/-- If the command is an event at the host, it is one of the calm ones. -/
def Command.isCalm (calm : ε → Bool) : Command ε → Bool
  | .host event => calm event
  | _ => true

/-- The transport flows, and nothing is left in the queue. -/
structure Clear (good : τ → Prop) (p : Port τ i o) : Prop where
  flows : good p.transport
  queue_eq : p.outbound.toList = []

section Flow

variable [Transport τ] [HostSide τ ε] {good : τ → Prop} {calm : ε → Bool}
  (h : HostSide.Flowing good calm)

include h

theorem dispatch_of_flowing {t : τ} (hgood : good t) (queue : Ring 8 o Packet) :
    good (dispatch t queue).transport ∧ (dispatch t queue).outbound.toList = [] := by
  fun_induction dispatch t queue with
  | case1 t queue hready hpeek =>
      rw [Ring.peek_eq_head?, List.head?_eq_none_iff] at hpeek
      exact ⟨hgood, hpeek⟩
  | case2 t queue hready p hpeek e t' hsend =>
      obtain ⟨t'', hsent, -⟩ := h.send p hgood
      rw [hsend] at hsent
      cases hsent
  | case3 t queue hready p hpeek t' hsend hsize rest ih =>
      obtain ⟨t'', hsent, hstill⟩ := h.send p hgood
      rw [hsend] at hsent
      cases hsent
      exact ih hstill
  | case4 t queue hready => exact absurd (h.ready hgood) hready

theorem clear_trySend {p : Port τ i o} (hgood : good p.transport) : p.trySend.port.Clear good := by
  obtain ⟨hflows, hempty⟩ := dispatch_of_flowing h hgood p.outbound
  exact ⟨hflows, hempty⟩

theorem receive_of_flowing {t : τ} (hgood : good t) (inbound : Ring 8 i UInt8) :
    good (receive t inbound).transport := by
  fun_induction receive t inbound with
  | case1 t inbound hnone => exact hgood
  | case2 t inbound p t' hsome _ accepted rest ih => exact ih (h.receive? hsome hgood)

theorem clear_poll {p : Port τ i o} (hgood : good p.transport) : p.poll.port.Clear good := by
  have htaken : good p.takeIn.port.transport := receive_of_flowing h (h.poll hgood) p.inbound
  exact clear_trySend h htaken

/-- With an empty queue there is room for a packet, and it is sent at once. -/
theorem clear_enqueue {p : Port τ i o} (hclear : p.Clear good) (packet : Packet) :
    (p.enqueue packet).value = true ∧ (p.enqueue packet).port.Clear good := by
  have hroom : p.outbound.isFull ≠ true := by
    have hslots := p.outbound.admits.2.1
    rw [ne_eq, Ring.isFull_iff_size, ← Ring.length_toList, hclear.queue_eq, List.length_nil]
    omega
  have hsame : p.makeRoom.port = p := by rw [makeRoom, if_neg hroom]
  rcases p.enqueue_cases packet with ⟨hfull, -⟩ | ⟨queue, -, -, henqueue⟩
  · rw [hsame] at hfull
    exact absurd hfull hroom
  · have hflows : good p.makeRoom.port.transport := by
      rw [hsame]
      exact hclear.flows
    rw [henqueue]
    exact ⟨rfl, clear_trySend h hflows⟩

theorem clear_write {p : Port τ i o} (hclear : p.Clear good) (b : UInt8) :
    (p.write b).value = true ∧ (p.write b).port.Clear good := by
  cases hpacket : (p.encoder.step b).packet? with
  | none =>
      rw [write_of_none hpacket]
      exact ⟨rfl, hclear.flows, hclear.queue_eq⟩
  | some packet =>
      have hencoded : (p.encoded b).Clear good := ⟨hclear.flows, hclear.queue_eq⟩
      rw [write_of_some hpacket]
      exact clear_enqueue h hencoded packet

theorem clear_writeAll {p : Port τ i o} (hclear : p.Clear good) (bs : List UInt8) :
    (p.writeAll bs).port.Clear good := by
  induction bs generalizing p with
  | nil => exact hclear
  | cons b bs ih => exact ih (clear_write h hclear b).2

theorem clear_perform {p : Port τ i o} (hclear : p.Clear good) {c : Command ε}
    (hcalm : c.isCalm calm = true) : (p.perform c).port.Clear good := by
  cases c with
  | write b => exact (clear_write h hclear b).2
  | writeAll bs => exact clear_writeAll h hclear bs
  | flush | flushStream =>
      show p.flush.port.Clear good
      rw [flush_of_nothing hclear.queue_eq]
      exact hclear
  | poll | available | peek => exact clear_poll h hclear.flows
  | read =>
      have hpolled := clear_poll h hclear.flows
      exact ⟨hpolled.flows, hpolled.queue_eq⟩
  | reset | setCable => exact ⟨hclear.flows, hclear.queue_eq⟩
  | host event => exact ⟨h.act hcalm hclear.flows, hclear.queue_eq⟩

theorem clear_after {p : Port τ i o} (hclear : p.Clear good) {cs : List (Command ε)}
    (hcalm : ∀ c ∈ cs, c.isCalm calm = true) : (p.after cs).Clear good := by
  induction cs generalizing p with
  | nil => exact hclear
  | cons c cs ih =>
      obtain ⟨hfirst, hlater⟩ := List.forall_mem_cons.1 hcalm
      exact ih (clear_perform h hclear hfirst) hlater

/-- While the transport flows, every write is accepted, and its packet does not stay in the queue. -/
theorem write_of_flowing {p : Port τ i o} (hclear : p.Clear good) {cs : List (Command ε)}
    (hcalm : ∀ c ∈ cs, c.isCalm calm = true) (b : UInt8) :
    ((p.after cs).write b).value = true ∧ ((p.after cs).write b).port.pendingOutput = 0 := by
  obtain ⟨hvalue, hwritten⟩ := clear_write h (clear_after h hclear hcalm) b
  refine ⟨hvalue, ?_⟩
  rw [pendingOutput_eq, ← Ring.length_toList, hwritten.queue_eq]
  rfl

end Flow

/-- In every state of a port with a simulated or a scripted host, a write answers exactly and sending goes as
    far as it can. From a new port on, as long as the host does not disconnect, does not stall and fails no
    attempt, every write is accepted and leaves nothing in the queue. -/
theorem write_exact (hi : Ring.Admits 8 i) (ho : Ring.Admits 8 o) (cable : Cable) :
    (∀ p : Port SimulatedHost i o, (∀ b, p.WriteExact b) ∧ ∀ c, c.polls = true → p.Exhausts c) ∧
    (∀ p : Port ScriptedHost i o, (∀ b, p.WriteExact b) ∧ ∀ c, c.polls = true → p.Exhausts c) ∧
    (∀ cs : List (Command SimulatedHost.Event), (∀ c ∈ cs, c.isCalm SimulatedHost.Event.isCalm = true) →
      ∀ b, let written := ((new SimulatedHost.new cable hi ho).after cs).write b
        written.value = true ∧ written.port.pendingOutput = 0) ∧
    ∀ cs : List (Command ScriptedHost.Event), (∀ c ∈ cs, c.isCalm ScriptedHost.Event.isCalm = true) →
      ∀ b, let written := ((new ScriptedHost.new cable hi ho).after cs).write b
        written.value = true ∧ written.port.pendingOutput = 0 := by
  refine ⟨fun p => ⟨writeExact p, fun c h => exhausts_of_polls h p⟩,
    fun p => ⟨writeExact p, fun c h => exhausts_of_polls h p⟩, ?_, ?_⟩
  · have hclear : (new SimulatedHost.new cable hi ho).Clear SimulatedHost.Flows :=
      ⟨⟨rfl, rfl⟩, Ring.toList_empty ho⟩
    exact fun cs hcalm b => write_of_flowing SimulatedHost.flowing hclear hcalm b
  · have hclear : (new ScriptedHost.new cable hi ho).Clear ScriptedHost.Flows :=
      ⟨⟨rfl, List.forall_mem_nil _⟩, Ring.toList_empty ho⟩
    exact fun cs hcalm b => write_of_flowing ScriptedHost.flowing hclear hcalm b

/-- Two slots for packets, so one packet can be queued, and two attempts that fail. The first packet stays in
    the queue. The second finds it full, the attempt to make room fails, and the packet is refused. The third
    is accepted: the first is sent to make room for it, and then it is sent, too. On a simulated host that
    delivers and polls without a stall, the byte that completes a message leaves nothing behind. -/
theorem write_exact_busy :
    let single (b : UInt8) : Packet := ⟨0x0F, ⟨b, 0, 0⟩⟩
    let busy : SendError := .failed "busy"
    let cs : List (Command ScriptedHost.Event) := [.host (.script [some busy, some busy]), .write 0xF8]
    let ds : List (Command SimulatedHost.Event) :=
      [.writeAll [0x90, 0x3C], .host (.link (.deliver [single 0xF8])), .host (.stall 0), .read]
    let p : Port ScriptedHost 8 2 := (new ScriptedHost.new Cable.first (by decide) (by decide)).after cs
    let q : Port SimulatedHost 8 2 := (new SimulatedHost.new Cable.first (by decide) (by decide)).after ds
    (Ring.Admits 8 8 ∧ Ring.Admits 8 2 ∧ p.WriteExact 0xFA ∧ q.Exhausts .poll) ∧
      (∀ d ∈ ds, d.isCalm SimulatedHost.Event.isCalm = true) ∧
      ((q.write 0x7F).value = true ∧ (q.write 0x7F).port.pendingOutput = 0) ∧
      p.pendingOutput = 1 ∧ p.calls (.write 0xFA) = [.failed busy] ∧ (p.write 0xFA).value = false ∧
      (p.write 0xFA).port.sentIn (.write 0xFE) = [single 0xF8, single 0xFE] ∧
      ((p.write 0xFA).port.write 0xFE).value = true ∧
      q.sentIn (.write 0x7F) = [⟨0x09, ⟨0x90, 0x3C, 0x7F⟩⟩] := by
  intro single busy cs ds p q
  obtain ⟨hsimulated, hscripted, hflowing, -⟩ :=
    write_exact (i := 8) (o := 2) (by decide) (by decide) Cable.first
  have hcalm : ∀ d ∈ ds, d.isCalm SimulatedHost.Event.isCalm = true := by decide
  refine ⟨⟨by decide, by decide, (hscripted p).1 0xFA, (hsimulated q).2 .poll rfl⟩, hcalm,
    hflowing ds hcalm 0x7F, ?_⟩
  exact ⟨by decide +kernel, by decide +kernel, by decide +kernel, by decide +kernel, by decide +kernel,
    by decide +kernel⟩

end Port

end MidiBridge
