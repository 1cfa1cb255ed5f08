/-
Module: MidiBridge.Proofs.Port.Flushing
Purpose: What a flush does. With nothing to send it does nothing on any transport. With a simulated host it
  either fails at once, because the host is gone, or sends the whole queue. A stall is what it has to wait
  for, one poll after the other, and the number of polls is the length of the stall: by induction on that
  length, where each round receives what has arrived and leaves a shorter stall. What has arrived fills the
  inbound ring in the first round, and the later rounds find nothing. A busy way out is never tried, so a
  port with a simulated host reports no failure but that of a missing host.
Trusted boundary: human-reviewed spec
Main exports: Packet.fill, Port.sendEach, Port.sending_dispatch, Port.flush_eq_sendOut,
  Port.flush_of_nothing, Port.Flushed, Port.flushed_of_connected, Port.flush_of_gone, Port.Reply.Tells,
  Port.disconnected_of_tells, Port.flush_simulated
-/
import MidiBridge.Proofs.Port.Account
import MidiBridge.Proofs.Port.Inbound

namespace MidiBridge

/-- Packets taken one after the other into a buffer with so many places for bytes. The bytes of a packet that
    do not all fit are left out. -/
def Packet.fill (capacity : Nat) (bytes : List UInt8) (ps : List Packet) : List UInt8 :=
  ps.foldl
    (fun bytes p =>
      if bytes.length + p.payload.length ≤ capacity then bytes ++ p.payload else bytes)
    bytes

/-- The entry tells of no failure but that of a missing host. -/
def LogEntry.OnlyGone (entry : LogEntry) : Prop := ∀ e ∈ entry.failure?, e = .disconnected

theorem LogEntry.onlyGone_of_none {entry : LogEntry} (h : entry.failure? = none) : entry.OnlyGone := by
  intro e he
  rw [h] at he
  cases he

namespace Port

variable {τ ε : Type} {i o : Nat}

/-!
### Sending on lists

The queue is a ring, but what comes of sending depends only on the packets in it.
-/

/-- What came of sending packets, front first. -/
structure Sending (τ : Type) where
  outcome : Except SendError Unit
  transport : τ
  /-- The packets that are left, with the one that failed in front. -/
  left : List Packet

def Dispatch.sending (d : Dispatch τ o) : Sending τ := ⟨d.outcome, d.transport, d.outbound.toList⟩

section Sending

variable [Transport τ]

/-- Sends packets until the way out is closed, none is left or an attempt fails. -/
def sendEach (t : τ) : List Packet → Sending τ
  | [] => ⟨.ok (), t, []⟩
  | p :: ps =>
      if Transport.ready t then
        match Transport.send t p with
        | (.error e, t') => ⟨.error e, t', p :: ps⟩
        | (.ok (), t') => sendEach t' ps
      else
        ⟨.ok (), t, p :: ps⟩

variable {t t' : τ} {p : Packet}

theorem sendEach_of_closed (hready : Transport.ready t = false) (ps : List Packet) :
    sendEach t ps = ⟨.ok (), t, ps⟩ := by
  cases ps with
  | nil => rfl
  | cons p ps =>
      rw [sendEach, hready]
      rfl

theorem sendEach_of_error {e : SendError} (hready : Transport.ready t = true)
    (hsend : Transport.send t p = (.error e, t')) (ps : List Packet) :
    sendEach t (p :: ps) = ⟨.error e, t', p :: ps⟩ := by
  rw [sendEach, if_pos hready, hsend]

theorem sendEach_of_sent (hready : Transport.ready t = true)
    (hsend : Transport.send t p = (.ok (), t')) (ps : List Packet) :
    sendEach t (p :: ps) = sendEach t' ps := by
  rw [sendEach, if_pos hready, hsend]

theorem sending_dispatch (t : τ) (queue : Ring 8 o Packet) :
    (dispatch t queue).sending = sendEach t queue.toList := by
  fun_induction dispatch t queue with
  | case1 t queue hready hpeek =>
      rw [Ring.peek_eq_head?, List.head?_eq_none_iff] at hpeek
      rw [Dispatch.sending, hpeek]
      rfl
  | case2 t queue hready p hpeek e t' hsend =>
      rw [Dispatch.sending, Ring.toList_of_peek hpeek, sendEach_of_error hready hsend]
  | case3 t queue hready p hpeek t' hsend hsize rest ih =>
      rw [Ring.toList_of_peek hpeek, sendEach_of_sent hready hsend]
      exact ih
  | case4 t queue hready =>
      rw [sendEach_of_closed (Bool.eq_false_iff.2 hready)]
      rfl

theorem sendOut_of_sendEach {port : Port τ i o} {outcome : Except SendError Unit} {left : List Packet}
    (h : sendEach port.transport port.outbound.toList = ⟨outcome, t', left⟩) :
    port.sendOut.value = outcome ∧ port.sendOut.port.transport = t' ∧
      port.sendOut.port.outbound.toList = left := by
  rw [← sending_dispatch] at h
  exact ⟨congrArg Sending.outcome h, congrArg Sending.transport h, congrArg Sending.left h⟩

/-!
### Flushing in rounds

A flush is over when an attempt fails or nothing is queued any more. Otherwise the way out is closed, and
there is another round.
-/

variable {port : Port τ i o}

/-- One round is enough if an attempt fails or everything is sent. -/
theorem flush_eq_sendOut (h : port.sendOut.value = .ok () → port.sendOut.port.outbound.toList = []) :
    port.flush = port.sendOut := by
  cases houtcome : (dispatch port.transport port.outbound).outcome with
  | error e =>
      rw [flush_of_error houtcome, ← houtcome]
      rfl
  | ok =>
      have hempty := h houtcome
      rw [flush_of_empty houtcome ((Ring.isEmpty_iff_toList _).2 hempty), ← houtcome]
      rfl

/-- Otherwise the port receives, and then the flush starts again. -/
theorem flush_of_left (hok : port.sendOut.value = .ok ())
    (hleft : port.sendOut.port.outbound.toList ≠ []) :
    port.flush =
      { port.sendOut.port.takeIn.port.flush with
        log := port.sendOut.log ++ port.sendOut.port.takeIn.log
          ++ port.sendOut.port.takeIn.port.flush.log } := by
  have hsome : ¬ (dispatch port.transport port.outbound).outbound.isEmpty = true := by
    rw [Ring.isEmpty_iff_toList]
    exact hleft
  exact flush_of_waiting hok hsome

theorem flush_of_closed (hready : Transport.ready port.transport = false)
    (hleft : port.outbound.toList ≠ []) :
    port.flush
      = { port.takeIn.port.flush with log := port.takeIn.log ++ port.takeIn.port.flush.log } := by
  have hclosed : port.sendOut = { value := .ok (), port := port, log := [] } := by
    rw [sendOut, dispatch_of_closed hready]
  have hflush := flush_of_left (by rw [hclosed]) (by rw [hclosed]; exact hleft)
  rw [hflush, hclosed]
  rfl

/-- With an empty queue the transport is not even asked. -/
theorem flush_of_nothing (h : port.outbound.toList = []) :
    port.flush = { value := .ok (), port := port, log := [] } := by
  have hpeek : port.outbound.peek = none := by
    rw [Ring.peek_eq_head?, h]
    rfl
  have hnothing : port.sendOut = { value := .ok (), port := port, log := [] } := by
    cases hready : Transport.ready port.transport with
    | false => rw [sendOut, dispatch_of_closed hready]
    | true => rw [sendOut, dispatch_of_empty hready hpeek]
  have hempty : port.sendOut.port.outbound.toList = [] := by rw [hnothing, h]
  rw [flush_eq_sendOut fun _ => hempty, hnothing]

end Sending

/-!
### Sending to a simulated host
-/

open SimulatedHost (ready_of_connected ready_of_gone send_of_open send_of_gone)

theorem sendEach_of_open {t : SimulatedHost} (hconnected : t.link.connected = true)
    (hstall : t.stall = 0) (ps : List Packet) :
    sendEach t ps = ⟨.ok (), { t with link := t.link.carrying ps }, []⟩ := by
  have hready : Transport.ready t = true := by
    rw [ready_of_connected hconnected, hstall]
    rfl
  induction ps generalizing t with
  | nil => rw [Link.carrying_nil, sendEach]
  | cons p ps ih =>
      have hrest := ih (t := { t with link := t.link.carrying [p] }) hconnected hstall hready
      rw [sendEach_of_sent hready (send_of_open hconnected hstall p), hrest, Link.carrying_carrying]
      rfl

/-- Attempts are made only when the way out is open or the host is gone, so this is their only failure. -/
theorem disconnected_of_sendEach {t : SimulatedHost} {ps : List Packet} {e : SendError}
    (h : (sendEach t ps).outcome = .error e) : e = .disconnected := by
  cases hconnected : t.link.connected with
  | false =>
      cases ps with
      | nil => cases h
      | cons p ps =>
          rw [sendEach_of_error (ready_of_gone hconnected) (send_of_gone hconnected p)] at h
          cases h
          rfl
  | true =>
      cases hready : Transport.ready t with
      | false =>
          rw [sendEach_of_closed hready] at h
          cases h
      | true =>
          rw [ready_of_connected hconnected, beq_iff_eq] at hready
          rw [sendEach_of_open hconnected hready] at h
          cases h

theorem disconnected_of_dispatch {t : SimulatedHost} {queue : Ring 8 o Packet} {e : SendError}
    (h : (dispatch t queue).outcome = .error e) : e = .disconnected := by
  apply disconnected_of_sendEach
  rw [← sending_dispatch]
  exact h

/-!
### Waiting for the way out
-/

theorem toList_acceptAll_eq_fill (inbound : Ring 8 i UInt8) (ps : List Packet) :
    (acceptAll inbound ps).toList = Packet.fill (i - 1) inbound.toList ps := by
  induction ps generalizing inbound with
  | nil => rfl
  | cons p ps ih =>
      have hrest := ih (accept inbound p).1
      by_cases hroom : inbound.toList.length + p.payload.length ≤ i - 1
      · rw [toList_accept_of_room hroom] at hrest
        rw [Packet.fill, List.foldl_cons, if_pos hroom]
        exact hrest
      · rw [toList_accept_of_lack hroom] at hrest
        rw [Packet.fill, List.foldl_cons, if_neg hroom]
        exact hrest

/-- The port `q` is what a flush makes of `p` when the host is there. -/
structure Flushed (p q : Port SimulatedHost i o) : Prop where
  polls_eq : q.transport.polls = p.transport.polls + p.transport.stall
  stall_eq : q.transport.stall = 0
  sent_eq : q.transport.link.sent = p.transport.link.sent ++ p.outbound.toList
  queue_eq : q.outbound.toList = []
  connected_eq : q.transport.link.connected = true
  encoder_eq : q.encoder = p.encoder
  /-- Without a stall nothing is received. -/
  unpolled : p.transport.stall = 0 →
    q.inbound = p.inbound ∧ q.transport.link.inbound = p.transport.link.inbound
  /-- During a stall everything that waits is received, each packet whole or not at all. -/
  polled : p.transport.stall ≠ 0 →
    q.inbound.toList = Packet.fill (i - 1) p.inbound.toList p.transport.link.inbound ∧
      q.transport.link.inbound = []

section Wait

variable {p q : Port SimulatedHost i o}

theorem flushed_of_open (hconnected : p.transport.link.connected = true) (hstall : p.transport.stall = 0) :
    p.flush.value = .ok () ∧ p.Flushed p.flush.port := by
  obtain ⟨hvalue, htransport, hqueue⟩ :=
    sendOut_of_sendEach (sendEach_of_open hconnected hstall p.outbound.toList)
  rw [flush_eq_sendOut fun _ => hqueue]
  refine ⟨hvalue, ?_⟩
  constructor
  case polls_eq => rw [htransport, hstall]; rfl
  case stall_eq => rw [htransport, hstall]
  case sent_eq => rw [htransport]; rfl
  case queue_eq => exact hqueue
  case connected_eq => rw [htransport]; exact hconnected
  case encoder_eq => rfl
  case unpolled =>
    intro _
    rw [htransport]
    exact ⟨rfl, rfl⟩
  case polled => exact fun hsome => absurd hstall hsome

theorem transport_takeIn (p : Port SimulatedHost i o) :
    p.takeIn.port.transport
      = { p.transport with
          link := { p.transport.link with inbound := [] }
          stall := p.transport.stall - 1
          polls := p.transport.polls + 1 } :=
  congrArg Intake.transport (receive_simulated (Transport.poll p.transport) p.inbound)

theorem inbound_takeIn (p : Port SimulatedHost i o) :
    p.takeIn.port.inbound.toList
      = Packet.fill (i - 1) p.inbound.toList p.transport.link.inbound := by
  have hring : p.takeIn.port.inbound = acceptAll p.inbound p.transport.link.inbound :=
    congrArg Intake.inbound (receive_simulated (Transport.poll p.transport) p.inbound)
  rw [hring]
  exact toList_acceptAll_eq_fill p.inbound p.transport.link.inbound

/-- A round of waiting receives what has arrived and is one poll of the stall. Nothing is left to receive in
    the rounds behind it. -/
theorem Flushed.of_takeIn (hstall : p.transport.stall ≠ 0) (h : p.takeIn.port.Flushed q) :
    p.Flushed q := by
  have htransport := transport_takeIn p
  constructor
  case polls_eq =>
    have hpolls := h.polls_eq
    rw [htransport] at hpolls
    dsimp only at hpolls
    omega
  case stall_eq => exact h.stall_eq
  case sent_eq =>
    have hsent := h.sent_eq
    rw [htransport] at hsent
    exact hsent
  case queue_eq => exact h.queue_eq
  case connected_eq => exact h.connected_eq
  case encoder_eq => exact h.encoder_eq
  case unpolled => exact fun hnone => absurd hnone hstall
  case polled =>
    intro _
    have hwaiting : p.takeIn.port.transport.link.inbound = [] := by rw [htransport]
    rw [← inbound_takeIn]
    by_cases hlast : p.takeIn.port.transport.stall = 0
    · obtain ⟨hring, hlink⟩ := h.unpolled hlast
      exact ⟨congrArg Ring.toList hring, hlink.trans hwaiting⟩
    · obtain ⟨hring, hlink⟩ := h.polled hlast
      rw [hwaiting] at hring
      exact ⟨hring, hlink⟩

/-- With the host there, a flush waits for the end of the stall and then sends everything. -/
theorem flushed_of_connected (hconnected : p.transport.link.connected = true)
    (hleft : p.outbound.toList ≠ []) : p.flush.value = .ok () ∧ p.Flushed p.flush.port := by
  induction hstall : p.transport.stall generalizing p with
  | zero => exact flushed_of_open hconnected hstall
  | succ k ih =>
      have hready : Transport.ready p.transport = false := by
        rw [ready_of_connected hconnected, hstall]
        rfl
      have htransport := transport_takeIn p
      have hthere : p.takeIn.port.transport.link.connected = true := by
        rw [htransport]
        exact hconnected
      have hshorter : p.takeIn.port.transport.stall = k := by
        rw [htransport, hstall]
        rfl
      obtain ⟨hvalue, hflushed⟩ := ih hthere hleft hshorter
      have hsome : p.transport.stall ≠ 0 := by
        rw [hstall]
        exact Nat.succ_ne_zero k
      rw [flush_of_closed hready hleft]
      exact ⟨hvalue, hflushed.of_takeIn hsome⟩

/-- Without a host a flush fails with its first attempt, which changes nothing. -/
theorem flush_of_gone (hgone : p.transport.link.connected = false) (hleft : p.outbound.toList ≠ []) :
    p.flush = { value := .error .disconnected, port := p, log := [] } := by
  obtain ⟨packet, hpeek⟩ : ∃ packet, p.outbound.peek = some packet := by
    rw [Ring.peek_eq_head?]
    exact ⟨_, List.head?_eq_some_head hleft⟩
  have hfailed : p.sendOut = { value := .error .disconnected, port := p, log := [] } := by
    rw [sendOut, dispatch_of_error (ready_of_gone hgone) hpeek (send_of_gone hgone packet)]
  rw [flush_eq_sendOut, hfailed]
  intro hok
  rw [hfailed] at hok
  cases hok

end Wait

/-!
### What a port reports
-/

/-- The reply tells of this failure, in its log or as its answer. -/
def Reply.Tells (reply : Reply τ i o Answer) (e : SendError) : Prop :=
  .sendFailed e ∈ reply.log ∨ reply.value = .flushed (.error e) ∨
    reply.value = .streamed (.error (StreamError.ofSend e))

section Reports

variable {p q : Port SimulatedHost i o} {log : List LogEntry}

theorem onlyGone_move (h : Move p log q) : ∀ entry ∈ log, entry.OnlyGone := by
  cases h with
  | encode b => exact forall_mem_discardLog fun _ => LogEntry.onlyGone_of_none rfl
  | enqueue hpush => exact List.forall_mem_nil _
  | refuse packet hfull => exact List.forall_mem_singleton.2 (LogEntry.onlyGone_of_none rfl)
  | take =>
      intro entry hentry
      exact LogEntry.onlyGone_of_none (quiet_receive _ _ entry hentry).1
  | send hok =>
      intro entry hentry
      exact LogEntry.onlyGone_of_none (quiet_dispatch _ _ entry hentry).1
  | @fail e herror =>
      intro entry hentry
      rcases List.mem_append.1 hentry with hsent | hfailed
      · exact LogEntry.onlyGone_of_none (quiet_dispatch _ _ entry hsent).1
      · rw [List.mem_singleton.1 hfailed]
        intro e' he
        cases he
        exact disconnected_of_dispatch herror
  | reset => exact forall_mem_reset (LogEntry.onlyGone_of_none rfl)
  | setCable cable => exact List.forall_mem_nil _

theorem onlyGone_moves (h : Moves p log q) : ∀ entry ∈ log, entry.OnlyGone := by
  refine h.lift (motive := fun _ log _ => ∀ entry ∈ log, entry.OnlyGone) ?_ ?_ ?_
  · exact fun _ => List.forall_mem_nil _
  · exact fun h h' => List.forall_mem_append.2 ⟨h, h'⟩
  · exact onlyGone_move

theorem onlyGone_perform (p : Port SimulatedHost i o) (c : Command SimulatedHost.Event) :
    ∀ entry ∈ (p.perform c).log, entry.OnlyGone := by
  cases hplain : c.isPlain with
  | true => exact onlyGone_moves (moves_perform hplain p)
  | false =>
      cases c with
      | flush | flushStream =>
          intro entry hentry
          exact LogEntry.onlyGone_of_none (quiet_flush p entry hentry).1
      | read => exact onlyGone_moves (moves_poll p)
      | host event => exact List.forall_mem_nil _
      | write | writeAll | poll | available | peek | reset | setCable => cases hplain

theorem disconnected_of_flush {e : SendError} (h : p.flush.value = .error e) : e = .disconnected := by
  obtain ⟨q, log, -, hflush⟩ := moves_flush p
  rw [hflush] at h
  exact disconnected_of_dispatch h

/-- The text that a byte stream reports for a missing host is that of no other failure. -/
theorem eq_disconnected_of_ofSend {e : SendError}
    (h : StreamError.ofSend .disconnected = StreamError.ofSend e) : e = .disconnected := by
  cases e with
  | disconnected => rfl
  | failed reason => cases congrArg StreamError.kind h

theorem disconnected_of_tells {c : Command SimulatedHost.Event} {e : SendError}
    (h : (p.perform c).Tells e) : e = .disconnected := by
  rcases h with hlogged | hflushed | hstreamed
  · exact onlyGone_perform p c _ hlogged e rfl
  · cases c with
    | flush => exact disconnected_of_flush (Answer.flushed.inj hflushed)
    | _ => cases hflushed
  · cases c with
    | flushStream =>
        have hmapped : p.flush.value.mapError StreamError.ofSend = .error (StreamError.ofSend e) :=
          Answer.streamed.inj hstreamed
        cases hvalue : p.flush.value with
        | ok =>
            rw [hvalue] at hmapped
            cases hmapped
        | error e' =>
            rw [hvalue, disconnected_of_flush hvalue] at hmapped
            exact eq_disconnected_of_ofSend (Except.error.inj hmapped)
    | _ => cases hstreamed

/-- In a session a port with a simulated host tells of no failed attempt: a busy way out is not tried. -/
theorem disconnected_of_mem_session {cs : List (Command SimulatedHost.Event)}
    {reply : Reply SimulatedHost i o Answer} (hreply : reply ∈ p.session cs) {e : SendError}
    (h : reply.Tells e) : e = .disconnected := by
  induction cs generalizing p with
  | nil => cases hreply
  | cons c cs ih =>
      rcases List.mem_cons.1 hreply with rfl | hlater
      · exact disconnected_of_tells h
      · exact ih hlater

end Reports

/-- A flush on a simulated host ends, and does exactly what there is to be done. With nothing queued it
    changes nothing, stalled or not and whether or not the host is there. Otherwise, if the host is there,
    it waits for as many polls as the stall lasts and then sends the queue in its order; it receives only if
    it has to wait. If the host is gone, it says so and changes nothing. In no session is there a reply that
    tells of another failure, such as a busy way out. -/
theorem flush_simulated (p : Port SimulatedHost i o) :
    (p.outbound.toList = [] → p.flush = { value := .ok (), port := p, log := [] }) ∧
      (p.outbound.toList ≠ [] → p.transport.link.connected = true →
        p.flush.value = .ok () ∧ p.Flushed p.flush.port) ∧
      (p.outbound.toList ≠ [] → p.transport.link.connected = false →
        p.flush = { value := .error .disconnected, port := p, log := [] }) ∧
      ∀ cs : List (Command SimulatedHost.Event), ∀ reply ∈ p.session cs, ∀ reason : String,
        ¬ reply.Tells (.failed reason) := by
  refine ⟨flush_of_nothing, ?_, ?_, ?_⟩
  · exact fun hleft hconnected => flushed_of_connected hconnected hleft
  · exact fun hleft hgone => flush_of_gone hgone hleft
  · intro cs reply hreply reason htells
    cases disconnected_of_mem_session hreply htells

/-- Two packets wait for two polls. Of the four packets that arrive meanwhile the third has no room in the
    ring, and the fourth has. Behind this flush another has nothing to do, and without the host it fails. -/
theorem flush_simulated_stalled :
    let note (key : UInt8) : Packet := ⟨0x09, ⟨0x90, key, 0x40⟩⟩
    let single (b : UInt8) : Packet := ⟨0x0F, ⟨b, 0, 0⟩⟩
    let start : Port SimulatedHost 8 4 := new SimulatedHost.new Cable.first (by decide) (by decide)
    let p := start.after
      [.host (.stall 2), .writeAll [0xF8, 0xFA],
        .host (.link (.deliver [note 1, note 2, note 3, single 0xFE]))]
    let gone := p.after [.host (.link .disconnect)]
    (p.outbound.toList ≠ [] ∧ p.transport.link.connected = true) ∧
      (gone.outbound.toList ≠ [] ∧ gone.transport.link.connected = false) ∧
      p.flush.value = .ok () ∧ p.Flushed p.flush.port ∧
      p.flush.port.transport =
        { link := { inbound := [], sent := [single 0xF8, single 0xFA] }, stall := 0, polls := 2 } ∧
      p.flush.port.inbound.toList = [0x90, 1, 0x40, 0x90, 2, 0x40, 0xFE] ∧
      p.flush.port.flush = { value := .ok (), port := p.flush.port, log := [] } ∧
      gone.flush = { value := .error .disconnected, port := gone, log := [] } ∧
      ¬ (p.perform .poll).Tells (.failed "endpoint busy") := by
  intro note single start p gone
  have hqueued : p.outbound.toList ≠ [] ∧ p.transport.link.connected = true := by decide +kernel
  have hgone : gone.outbound.toList ≠ [] ∧ gone.transport.link.connected = false := by decide +kernel
  obtain ⟨-, hthere, -, hquiet⟩ := flush_simulated p
  obtain ⟨hvalue, hflushed⟩ := hthere hqueued.1 hqueued.2
  have hnothing := (flush_simulated p.flush.port).1 hflushed.queue_eq
  have hlost := (flush_simulated gone).2.2.1 hgone.1 hgone.2
  have hpoll := hquiet [.poll] (p.perform .poll) (List.mem_singleton.2 rfl) "endpoint busy"
  refine ⟨hqueued, hgone, hvalue, hflushed, ?_, ?_, hnothing, hlost, hpoll⟩
  · decide +kernel
  · decide +kernel

end Port

end MidiBridge
