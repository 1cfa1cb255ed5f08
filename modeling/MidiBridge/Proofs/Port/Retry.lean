/-
Module: MidiBridge.Proofs.Port.Retry
Purpose: What is left of the queue when an attempt to send fails. A packet leaves the queue behind its
  successful attempt, so a failed one is still in front of all that were behind it. A scripted host says
  which attempt fails, and then it follows how many packets went out, how many attempts it took and what the
  next ones will be. Nothing but a successful attempt takes a packet from the front of the queue, whatever
  else is done with the port. So on any transport the attempt that follows a failed one is for the same
  packet.
Trusted boundary: human-reviewed spec
Main exports: Port.sendEach_of_script, Port.sendEach_of_no_error, Port.Progress, Port.Retrying,
  Port.retries_after, Port.Sends, Port.sends_of_scripted, Port.failed_send_stays_queued
-/
import Mathlib.Data.List.Chain
import MidiBridge.Proofs.Port.Flushing
import MidiBridge.Proofs.Transport.Recorder

namespace MidiBridge.Port

open Transport (Attempt)

variable {τ ε : Type} {i o : Nat}

/-!
### Following a script
-/

section Script

variable {t : ScriptedHost}

/-- An attempt for which the script has no error succeeds as long as the host is there. -/
theorem send_of_no_error (hconnected : t.link.connected = true)
    (h : ∀ e, t.outcomes.head? ≠ some (some e)) (p : Packet) :
    Transport.send t p = (.ok (), ⟨t.link.carrying [p], t.outcomes.tail, t.attempts + 1⟩) := by
  show t.send p = _
  have hlink : t.link.send p = (.ok (), t.link.carrying [p]) := if_pos hconnected
  cases houtcomes : t.outcomes with
  | nil => simp [ScriptedHost.send, houtcomes, hlink]
  | cons outcome rest =>
      cases outcome with
      | none => simp [ScriptedHost.send, houtcomes, hlink]
      | some e =>
          rw [houtcomes] at h
          exact absurd rfl (h e)

theorem send_of_error {e : SendError} {rest : List (Option SendError)}
    (h : t.outcomes = some e :: rest) (p : Packet) :
    Transport.send t p = (.error e, ⟨t.link, rest, t.attempts + 1⟩) := by
  show t.send p = _
  simp [ScriptedHost.send, h]

/-- What comes of sending packets by the script if the first `count` of them go out, in `tries` attempts. -/
def scripted (t : ScriptedHost) (ps : List Packet) (outcome : Except SendError Unit) (count tries : Nat) :
    Sending ScriptedHost :=
  ⟨outcome, ⟨t.link.carrying (ps.take count), t.outcomes.drop tries, t.attempts + tries⟩, ps.drop count⟩

/-- The first attempt succeeds, and the others follow what is left of the script. -/
theorem sendEach_cons_of_no_error (hconnected : t.link.connected = true)
    (h : ∀ e, t.outcomes.head? ≠ some (some e)) {p : Packet} {ps : List Packet}
    {outcome : Except SendError Unit} {count tries : Nat}
    (hrest : ∀ t' : ScriptedHost, t'.link.connected = true → t'.outcomes = t.outcomes.tail →
      sendEach t' ps = scripted t' ps outcome count tries) :
    sendEach t (p :: ps) = scripted t (p :: ps) outcome (count + 1) (tries + 1) := by
  have hlater := hrest ⟨t.link.carrying [p], t.outcomes.tail, t.attempts + 1⟩ hconnected rfl
  rw [sendEach_of_sent rfl (send_of_no_error hconnected h p), hlater, scripted, scripted,
    Link.carrying_carrying, List.drop_tail, Nat.add_assoc, Nat.add_comm 1 tries]
  rfl

/-- The packets before the first error of the script are sent, and the others are left. -/
theorem sendEach_of_script (hconnected : t.link.connected = true) {j : Nat} {e : SendError}
    {rest : List (Option SendError)} (h : t.outcomes = List.replicate j none ++ some e :: rest)
    {ps : List Packet} (hj : j < ps.length) :
    sendEach t ps = scripted t ps (.error e) j (j + 1) := by
  induction j generalizing t ps with
  | zero =>
      cases ps with
      | nil => cases hj
      | cons p ps =>
          rw [sendEach_of_error rfl (send_of_error h p), scripted, h, List.take_zero, Link.carrying_nil]
          rfl
  | succ j ih =>
      cases ps with
      | nil => cases hj
      | cons p ps =>
          have hnone : ∀ e', t.outcomes.head? ≠ some (some e') := by
            rw [h]
            simp [List.replicate_succ]
          have htail : t.outcomes.tail = List.replicate j none ++ some e :: rest := by
            rw [h]
            rfl
          apply sendEach_cons_of_no_error hconnected hnone
          exact fun t' hthere hnext => ih hthere (hnext.trans htail) (Nat.lt_of_succ_lt_succ hj)

/-- If the next outcomes of the script are no errors, everything is sent. -/
theorem sendEach_of_no_error (hconnected : t.link.connected = true) {ps : List Packet}
    (h : ∀ e, some e ∉ t.outcomes.take ps.length) :
    sendEach t ps = scripted t ps (.ok ()) ps.length ps.length := by
  induction ps generalizing t with
  | nil =>
      rw [sendEach, scripted, List.take_nil, Link.carrying_nil]
      rfl
  | cons p ps ih =>
      have hnext : (∀ e, t.outcomes.head? ≠ some (some e)) ∧
          ∀ e, some e ∉ t.outcomes.tail.take ps.length := by
        cases houtcomes : t.outcomes with
        | nil => simp
        | cons outcome rest =>
            rw [houtcomes, List.length_cons, List.take_succ_cons] at h
            simp only [List.mem_cons, not_or] at h
            exact ⟨fun e he => (h e).1 (Option.some.inj he).symm, fun e => (h e).2⟩
      apply sendEach_cons_of_no_error hconnected hnext.1
      intro t' hthere htail
      apply ih hthere
      rw [htail]
      exact hnext.2

end Script

/-!
### Flush and poll

Both send in the same way. A poll receives before, which leaves the way out as it is, and then counts what it
has received, whatever has become of sending.
-/

/-- From `p` to `q`, the first `count` packets of the queue were sent in their order, in `tries` attempts,
    each of which used up one outcome of the script. -/
structure Progress (p q : Port ScriptedHost i o) (count tries : Nat) : Prop where
  sent_eq : q.transport.link.sent = p.transport.link.sent ++ p.outbound.toList.take count
  queue_eq : q.outbound.toList = p.outbound.toList.drop count
  attempts_eq : q.transport.attempts = p.transport.attempts + tries
  outcomes_eq : q.transport.outcomes = p.transport.outcomes.drop tries
  encoder_eq : q.encoder = p.encoder

/-- From `p` to `q`, nothing was received. -/
def SameInbound (p q : Port ScriptedHost i o) : Prop :=
  q.inbound = p.inbound ∧ q.transport.link.inbound = p.transport.link.inbound

theorem poll_of_sendOut_error [Transport τ] {port : Port τ i o} {e : SendError}
    (h : port.takeIn.port.sendOut.value = .error e) :
    port.poll.log.getLast? = some (.sendFailed e) := by
  have hlog : port.poll.log = port.takeIn.log ++ port.takeIn.port.trySend.log := rfl
  rw [hlog, trySend_of_error h, ← List.append_assoc]
  exact List.getLast?_concat

theorem receive_scripted (t : ScriptedHost) (inbound : Ring 8 i UInt8) :
    receive t inbound
      = ⟨t.link.inbound.length, { t with link := { t.link with inbound := [] } },
          acceptAll inbound t.link.inbound, acceptLog inbound t.link.inbound⟩ :=
  receive_waiting (fun ps => { t with link := { t.link with inbound := ps } }) rfl
    (fun _ _ => rfl) t.link.inbound inbound

section Ports

variable {p q : Port ScriptedHost i o} {count tries : Nat} {outcome : Except SendError Unit}

theorem progress_sendOut
    (h : sendEach p.transport p.outbound.toList
      = scripted p.transport p.outbound.toList outcome count tries) :
    p.sendOut.value = outcome ∧ p.Progress p.sendOut.port count tries ∧
      p.SameInbound p.sendOut.port := by
  obtain ⟨hvalue, htransport, hqueue⟩ := sendOut_of_sendEach h
  refine ⟨hvalue, ?_, rfl, ?_⟩
  · constructor
    case sent_eq => rw [htransport]; rfl
    case queue_eq => exact hqueue
    case attempts_eq => rw [htransport]
    case outcomes_eq => rw [htransport]
    case encoder_eq => rfl
  · rw [htransport]
    rfl

theorem transport_takeIn_scripted (p : Port ScriptedHost i o) :
    p.takeIn.port.transport
      = { p.transport with link := { p.transport.link with inbound := [] } } :=
  congrArg Intake.transport (receive_scripted (Transport.poll p.transport) p.inbound)

/-- What a poll receives makes no difference to what it sends. -/
theorem progress_poll
    (h : ∀ t : ScriptedHost, t.link.connected = p.transport.link.connected →
      t.outcomes = p.transport.outcomes →
        sendEach t p.outbound.toList = scripted t p.outbound.toList outcome count tries) :
    p.poll.value = p.transport.link.inbound.length ∧ p.takeIn.port.sendOut.value = outcome ∧
      p.Progress p.poll.port count tries := by
  have htransport := transport_takeIn_scripted p
  have hsending : sendEach p.takeIn.port.transport p.takeIn.port.outbound.toList
      = scripted p.takeIn.port.transport p.takeIn.port.outbound.toList outcome count tries := by
    apply h
    · rw [htransport]
    · rw [htransport]
  obtain ⟨hvalue, hprogress, -⟩ := progress_sendOut hsending
  have hcount : p.poll.value = p.transport.link.inbound.length :=
    congrArg Intake.received (receive_scripted (Transport.poll p.transport) p.inbound)
  refine ⟨hcount, hvalue, ?_⟩
  have hsent := hprogress.sent_eq
  have hattempts := hprogress.attempts_eq
  have houtcomes := hprogress.outcomes_eq
  rw [htransport] at hsent hattempts houtcomes
  exact ⟨hsent, hprogress.queue_eq, hattempts, houtcomes, hprogress.encoder_eq⟩

end Ports

/-!
### The next attempt
-/

/-- Behind a failed attempt the next one is for the same packet. As long as there is none, that packet is in
    front of the queue. -/
structure Retrying (attempts : List Attempt) (queue : List Packet) : Prop where
  chain : attempts.IsChain Attempt.LeadsTo
  front : ∀ a ∈ attempts.getLast?, a.Failed → queue.head? = some a.packet

theorem retrying_nil (queue : List Packet) : Retrying [] queue := by
  constructor
  · exact .nil
  · intro a ha
    cases ha

section Queue

variable {attempts : List Attempt} {queue : List Packet} {p : Packet}

/-- Another packet at the back of the queue changes nothing. -/
theorem Retrying.enqueue (h : Retrying attempts queue) (p : Packet) :
    Retrying attempts (queue ++ [p]) := by
  constructor
  · exact h.chain
  · intro a ha hfailed
    rw [List.head?_append, h.front a ha hfailed]
    rfl

/-- An attempt for the packet in front of the queue is what must follow a failed one. -/
theorem Retrying.attempt (h : Retrying attempts (p :: queue)) (outcome : Except SendError Unit) :
    List.IsChain Attempt.LeadsTo (attempts ++ [.ofSend p outcome]) := by
  apply h.chain.append (.singleton _)
  intro a ha b hb hfailed
  cases hb
  rw [Attempt.packet_ofSend]
  exact Option.some.inj (h.front a ha hfailed)

theorem Retrying.failed (h : Retrying attempts (p :: queue)) (e : SendError) :
    Retrying (attempts ++ [.ofSend p (.error e)]) (p :: queue) := by
  constructor
  · exact h.attempt (.error e)
  · intro a ha hfailed
    rw [List.getLast?_concat] at ha
    cases ha
    rfl

theorem Retrying.sent (h : Retrying attempts (p :: queue)) :
    Retrying (attempts ++ [.ofSend p (.ok ())]) queue := by
  constructor
  · exact h.attempt (.ok ())
  · intro a ha hfailed
    rw [List.getLast?_concat] at ha
    cases ha
    cases hfailed

end Queue

/-- The attempts of sending, given the packets that were sent, the outcome and the packets that are left. -/
def attemptsOf (sent : List Packet) (outcome : Except SendError Unit) (left : List Packet) :
    List Attempt :=
  sent.map (.ofSend · (.ok ())) ++ List.zipWith (fun e p => .ofSend p (.error e)) (failures outcome) left

section Recording

variable [Transport τ]

theorem attempts_of_receive? {r r' : Recorder Attempt τ} {p : Packet}
    (h : Transport.receive? r = some (p, r')) : r'.notes = r.notes :=
  (Recorder.notes_of_receive? h).trans (List.append_nil _)

theorem retrying_sendEach {r : Recorder Attempt τ} {ps : List Packet} (h : Retrying r.notes ps) :
    Retrying (sendEach r ps).transport.notes (sendEach r ps).left := by
  induction ps generalizing r with
  | nil => exact h
  | cons p ps ih =>
      cases hready : Transport.ready r with
      | false =>
          rw [sendEach_of_closed hready]
          exact h
      | true =>
          rcases hsend : Transport.send r p with ⟨outcome, r'⟩
          have hattempts := Recorder.notes_of_send hsend
          cases outcome with
          | error e =>
              rw [sendEach_of_error hready hsend]
              dsimp only
              rw [hattempts]
              exact h.failed e
          | ok =>
              rw [sendEach_of_sent hready hsend]
              apply ih
              rw [hattempts]
              exact h.sent

/-- The packets that were sent were each tried once, and a failure is that of one more attempt, for the packet
    that is now in front. -/
theorem attempts_sendEach (r : Recorder Attempt τ) (ps : List Packet) :
    ∃ sent, ps = sent ++ (sendEach r ps).left ∧
      (sendEach r ps).transport.notes
        = r.notes ++ attemptsOf sent (sendEach r ps).outcome (sendEach r ps).left := by
  induction ps generalizing r with
  | nil => exact ⟨[], rfl, (List.append_nil _).symm⟩
  | cons p ps ih =>
      cases hready : Transport.ready r with
      | false =>
          rw [sendEach_of_closed hready]
          exact ⟨[], rfl, (List.append_nil _).symm⟩
      | true =>
          rcases hsend : Transport.send r p with ⟨outcome, r'⟩
          have hattempts := Recorder.notes_of_send hsend
          cases outcome with
          | error e =>
              rw [sendEach_of_error hready hsend]
              exact ⟨[], rfl, hattempts⟩
          | ok =>
              rw [sendEach_of_sent hready hsend]
              obtain ⟨sent, hsplit, hrest⟩ := ih r'
              refine ⟨p :: sent, congrArg (p :: ·) hsplit, ?_⟩
              rw [hrest, hattempts, List.append_assoc]
              rfl

/-- The port is about to retry what has failed, if its last attempt has. -/
def Retries (p : Port (Recorder Attempt τ) i o) : Prop := Retrying p.transport.notes p.outbound.toList

theorem Retries.sendOut {p : Port (Recorder Attempt τ) i o} (h : p.Retries) : p.sendOut.port.Retries := by
  have hsending := retrying_sendEach h
  rw [← sending_dispatch] at hsending
  exact hsending

theorem Retries.takeIn {p : Port (Recorder Attempt τ) i o} (h : p.Retries) : p.takeIn.port.Retries := by
  have hattempts : p.takeIn.port.transport.notes = p.transport.notes :=
    receive_keeps attempts_of_receive? (Transport.poll p.transport) p.inbound
  rw [Retries, hattempts]
  exact h

theorem Retries.move {p q : Port (Recorder Attempt τ) i o} {log : List LogEntry} (hp : p.Retries)
    (h : Move p log q) : q.Retries := by
  cases h with
  | encode b => exact hp
  | @enqueue packet queue hpush =>
      have hroom := (Ring.push_accepted_iff p.outbound packet).1 (congrArg Prod.snd hpush)
      have hlist : queue.toList = p.outbound.toList ++ [packet] := by
        rw [← Ring.toList_push hroom packet, hpush]
      rw [Retries, hlist]
      exact hp.enqueue packet
  | refuse packet hfull => exact hp
  | take => exact hp.takeIn
  | send hok => exact hp.sendOut
  | fail herror => exact hp.sendOut
  | reset => exact hp
  | setCable cable => exact hp

theorem Retries.moves {p q : Port (Recorder Attempt τ) i o} {log : List LogEntry} (hp : p.Retries)
    (h : Moves p log q) : q.Retries := by
  refine h.lift (motive := fun p _ q => p.Retries → q.Retries) ?_ ?_ ?_ hp
  · exact fun _ hp => hp
  · exact fun hfirst hsecond hp => hsecond (hfirst hp)
  · exact fun hmove hp => hp.move hmove

variable [HostSide τ ε]

/-- No command takes the packet that must be tried again from the front of the queue. -/
theorem Retries.perform {p : Port (Recorder Attempt τ) i o} (hp : p.Retries) (c : Command ε) :
    (p.perform c).port.Retries := by
  cases hplain : c.isPlain with
  | true => exact hp.moves (moves_perform hplain p)
  | false =>
      cases c with
      | flush | flushStream =>
          obtain ⟨q, log, hmoves, hflush⟩ := moves_flush p
          have hlast : p.flush.port.Retries := by
            rw [hflush]
            exact (hp.moves hmoves).sendOut
          exact hlast
      | read =>
          have hpolled : p.poll.port.Retries := hp.moves (moves_poll p)
          exact hpolled
      | host event => exact hp
      | write | writeAll | poll | available | peek | reset | setCable => cases hplain

theorem retries_after {p : Port (Recorder Attempt τ) i o} (hp : p.Retries) (cs : List (Command ε)) :
    (p.after cs).Retries := by
  induction cs generalizing p with
  | nil => exact hp
  | cons c cs ih => exact ih (hp.perform c)

end Recording

/-!
### The attempts of flush and poll
-/

section Attempts

variable {p : Port ScriptedHost i o} {r : Port (Recorder Attempt ScriptedHost) i o}
  {outcome : Except SendError Unit} {count : Nat}

/-- A recorded port tries what the port tries, and remembers it. -/
theorem attempts_sendOut (hr : r.mapTransport Recorder.inner = p) (hnew : r.transport.notes = [])
    (hvalue : p.sendOut.value = outcome)
    (hqueue : p.sendOut.port.outbound.toList = p.outbound.toList.drop count) :
    r.sendOut.port.transport.notes
      = attemptsOf (p.outbound.toList.take count) outcome (p.outbound.toList.drop count) := by
  have hsame := sendOut_mapTransport Recorder.respects_inner.toRespects.sending r
  rw [hr] at hsame
  have houtcome : (dispatch r.transport r.outbound).sending.outcome = outcome :=
    (congrArg Reply.value hsame).symm.trans hvalue
  have hleft : (dispatch r.transport r.outbound).sending.left = p.outbound.toList.drop count :=
    (congrArg (fun reply => reply.port.outbound.toList) hsame).symm.trans hqueue
  have hqueued : r.outbound.toList = p.outbound.toList := by rw [← hr]; rfl
  obtain ⟨sent, hsplit, hattempts⟩ := attempts_sendEach r.transport r.outbound.toList
  rw [← sending_dispatch, houtcome, hleft, hnew, List.nil_append] at hattempts
  rw [← sending_dispatch, hleft, hqueued] at hsplit
  have hsent : sent = p.outbound.toList.take count :=
    List.append_cancel_right (hsplit.symm.trans (List.take_append_drop count _).symm)
  rw [← hsent]
  exact hattempts

theorem flush_recorded (h : p.sendOut.value = .ok () → p.sendOut.port.outbound.toList = []) :
    (p.recorded Attempt).flush = (p.recorded Attempt).sendOut := by
  apply flush_eq_sendOut
  intro hok
  have hsame := sendOut_mapTransport Recorder.respects_inner.toRespects.sending (p.recorded Attempt)
  have hqueue : p.sendOut.port.outbound.toList = (p.recorded Attempt).sendOut.port.outbound.toList :=
    congrArg (fun reply => reply.port.outbound.toList) hsame
  rw [← hqueue]
  exact h ((congrArg Reply.value hsame).trans hok)

end Attempts

/-- Flush and poll send in the same way: `count` packets go out, in these attempts. The answer of a flush is
    what has become of it. The answer of a poll is how many packets it has received, and a failure is in its
    log. -/
structure Sends (p : Port ScriptedHost i o) (outcome : Except SendError Unit) (count : Nat)
    (attempts : List Attempt) : Prop where
  flush_value : p.flush.value = outcome
  flush_progress : p.Progress p.flush.port count attempts.length
  flush_inbound : p.SameInbound p.flush.port
  flush_attempts : (p.recorded Attempt).flush.port.transport.notes = attempts
  poll_value : p.poll.value = p.transport.link.inbound.length
  poll_progress : p.Progress p.poll.port count attempts.length
  poll_attempts : (p.recorded Attempt).poll.port.transport.notes = attempts
  poll_log : ∀ e, outcome = .error e → p.poll.log.getLast? = some (.sendFailed e)

/-- What the script says comes of the whole queue comes of a flush and of a poll. -/
theorem sends_of_scripted {p : Port ScriptedHost i o} {outcome : Except SendError Unit} {count : Nat}
    {attempts : List Attempt}
    (h : ∀ t : ScriptedHost, t.link.connected = p.transport.link.connected →
      t.outcomes = p.transport.outcomes →
        sendEach t p.outbound.toList = scripted t p.outbound.toList outcome count attempts.length)
    (hend : outcome = .ok () → p.outbound.toList.drop count = [])
    (hattempts : attemptsOf (p.outbound.toList.take count) outcome (p.outbound.toList.drop count)
      = attempts) :
    p.Sends outcome count attempts := by
  obtain ⟨hvalue, hprogress, hinbound⟩ := progress_sendOut (h p.transport rfl rfl)
  obtain ⟨hreceived, hpolled, hbehind⟩ := progress_poll h
  have hover : p.sendOut.value = .ok () → p.sendOut.port.outbound.toList = [] := fun hok =>
    hprogress.queue_eq.trans (hend (hvalue.symm.trans hok))
  have hflush : p.flush = p.sendOut := flush_eq_sendOut hover
  constructor
  case flush_value => rw [hflush, hvalue]
  case flush_progress => rw [hflush]; exact hprogress
  case flush_inbound => rw [hflush]; exact hinbound
  case flush_attempts =>
    have hinner : (p.recorded Attempt).mapTransport Recorder.inner = p := rfl
    have hnew : (p.recorded Attempt).transport.notes = [] := rfl
    rw [flush_recorded hover, attempts_sendOut hinner hnew hvalue hprogress.queue_eq]
    exact hattempts
  case poll_value => exact hreceived
  case poll_progress => exact hbehind
  case poll_attempts =>
    have hnew : (p.recorded Attempt).takeIn.port.transport.notes = [] :=
      receive_keeps attempts_of_receive? (Transport.poll (p.recorded Attempt).transport) p.inbound
    have hinner : (p.recorded Attempt).takeIn.port.mapTransport Recorder.inner = p.takeIn.port :=
      congrArg Reply.port (takeIn_mapTransport Recorder.respects_inner.toRespects (p.recorded Attempt)).symm
    have hpoll : (p.recorded Attempt).poll.port = (p.recorded Attempt).takeIn.port.sendOut.port := rfl
    rw [hpoll, attempts_sendOut hinner hnew hpolled hbehind.queue_eq]
    exact hattempts
  case poll_log =>
    rintro e rfl
    exact poll_of_sendOut_error hpolled

/-- A failed attempt to send takes nothing from the queue but what went out before it. If the first error of
    the script is for the packet with the index `j` of the queue, a flush answers with this error; the packets
    before are sent, this one and those behind it stay, and so do the encoder and the bytes received. Without
    an error everything is sent. A poll sends in the same way, but its answer is still the number of packets
    received, and the failure is logged. In every session, the attempt that follows a failed one is for the
    same packet, whatever command it belongs to. -/
theorem failed_send_stays_queued (p : Port ScriptedHost i o)
    (hconnected : p.transport.link.connected = true) :
    let q := p.outbound.toList
    (∀ (j : Nat) (packet : Packet) (e : SendError) (rest : List (Option SendError)),
      q[j]? = some packet → p.transport.outcomes = List.replicate j none ++ some e :: rest →
        p.Sends (.error e) j ((q.take j).map (⟨·, none⟩) ++ [⟨packet, some e⟩])) ∧
      ((∀ e, some e ∉ p.transport.outcomes.take q.length) →
        p.Sends (.ok ()) q.length (q.map (⟨·, none⟩))) ∧
      ∀ cs : List (Command ScriptedHost.Event),
        ((p.recorded Attempt).session cs).map (Reply.mapTransport Recorder.inner) = p.session cs ∧
          Retrying ((p.recorded Attempt).after cs).transport.notes
            ((p.recorded Attempt).after cs).outbound.toList := by
  intro q
  refine ⟨?_, ?_, ?_⟩
  · intro j packet e rest hpacket hscript
    obtain ⟨hj, hget⟩ := List.getElem?_eq_some_iff.1 hpacket
    have hcount : ((q.take j).map (⟨·, none⟩) ++ [⟨packet, some e⟩] : List Attempt).length
        = j + 1 := by
      rw [List.length_append, List.length_map, List.length_take_of_le (Nat.le_of_lt hj)]
      rfl
    apply sends_of_scripted
    · intro t hsame hnext
      rw [hcount]
      exact sendEach_of_script (hsame.trans hconnected) (hnext.trans hscript) hj
    · intro hok
      cases hok
    · have hdrop : q.drop j = packet :: q.drop (j + 1) := by
        rw [List.drop_eq_getElem_cons hj, hget]
      rw [hdrop]
      rfl
  · intro hnone
    apply sends_of_scripted
    · intro t hsame hnext
      rw [List.length_map]
      rw [← hnext] at hnone
      exact sendEach_of_no_error (hsame.trans hconnected) hnone
    · exact fun _ => List.drop_length
    · rw [List.take_length, List.drop_length]
      exact List.append_nil _
  · intro cs
    have hnew : (p.recorded Attempt).Retries := retrying_nil q
    exact ⟨session_recorded p cs, retries_after hnew cs⟩

/-- Three packets wait behind attempts that failed. The flush sends the first of them and fails with the second,
    and the next one sends the two that are left. In a session it is the read behind the flush that tries the
    second packet again. -/
theorem failed_send_stays_queued_late :
    let single (b : UInt8) : Packet := ⟨0x0F, ⟨b, 0, 0⟩⟩
    let busy : Option SendError := some (.failed "busy")
    let late : SendError := .failed "late"
    let start : Port ScriptedHost 8 4 := new ScriptedHost.new Cable.first (by decide) (by decide)
    let p := start.after
      [.host (.script [busy, busy, busy]), .writeAll [0xF8, 0xFA, 0xFE],
        .host (.script [none, some late, none])]
    let cs : List (Command ScriptedHost.Event) := [.flush, .read, .write 0xFC]
    p.transport.link.connected = true ∧ p.outbound.toList = [single 0xF8, single 0xFA, single 0xFE] ∧
      p.transport.outcomes = List.replicate 1 none ++ some late :: [none] ∧
      p.Sends (.error late) 1 [⟨single 0xF8, none⟩, ⟨single 0xFA, some late⟩] ∧
      p.flush.port.Sends (.ok ()) 2 [⟨single 0xFA, none⟩, ⟨single 0xFE, none⟩] ∧
      Retrying ((p.recorded Attempt).after cs).transport.notes
        ((p.recorded Attempt).after cs).outbound.toList ∧
      ((p.recorded Attempt).after cs).transport.notes =
        [⟨single 0xF8, none⟩, ⟨single 0xFA, some late⟩, ⟨single 0xFA, none⟩, ⟨single 0xFE, none⟩,
          ⟨single 0xFC, none⟩] := by
  intro single busy late start p cs
  have hthere : p.transport.link.connected = true := by decide +kernel
  have hqueue : p.outbound.toList = [single 0xF8, single 0xFA, single 0xFE] := by decide +kernel
  have hscript : p.transport.outcomes = List.replicate 1 none ++ some late :: [none] := by decide +kernel
  have hsecond : p.outbound.toList[1]? = some (single 0xFA) := by rw [hqueue]; rfl
  obtain ⟨hfails, -, hsessions⟩ := failed_send_stays_queued p hthere
  have hstopped := hfails 1 (single 0xFA) late [none] hsecond hscript
  have hstill : p.flush.port.transport.link.connected = true := by decide +kernel
  have hleft : p.flush.port.outbound.toList = [single 0xFA, single 0xFE] := by decide +kernel
  have hnext : p.flush.port.transport.outcomes = [none] := by decide +kernel
  have hrest := (failed_send_stays_queued p.flush.port hstill).2.1 (by rw [hnext, hleft]; simp)
  rw [hqueue] at hstopped
  rw [hleft] at hrest
  refine ⟨hthere, hqueue, hscript, hstopped, hrest, (hsessions cs).2, ?_⟩
  decide +kernel

end MidiBridge.Port
