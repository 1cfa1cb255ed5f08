/-
Module: MidiBridge.Proofs.Port.Independence
Purpose: The two directions of a port do not disturb each other. What goes out is described by the port
  without the packets that wait and without the bytes that were received: every command does the same to what
  is left, and gives the same answers, whatever was there. What comes in is described by the ring of the
  reader alone. So two sessions that agree on one side agree in all that is seen of that side.
Trusted boundary: human-reviewed spec
Main exports: SimulatedHost.awaiting, SimulatedHost.respectsSending_awaiting, Port.outward, Port.Shown,
  Port.shown, Port.dispatch_silenced, Port.outward_flush, Port.outward_write, Port.outward_perform,
  Port.directions_independent
-/
import MidiBridge.Proofs.Port.Reader
import MidiBridge.Proofs.Port.Transfer

namespace MidiBridge

/-- The host with these packets waiting to be received, whatever waited before. -/
def SimulatedHost.awaiting (ps : List Packet) (t : SimulatedHost) : SimulatedHost :=
  { t with link := { t.link with inbound := ps } }

/-- The host without the packets that it has sent and the device has not received. -/
def SimulatedHost.silenced (t : SimulatedHost) : SimulatedHost :=
  { t with link := { t.link with inbound := [] } }

/-- An attempt to send does not look at the packets that wait. -/
theorem SimulatedHost.respectsSending_awaiting (ps : List Packet) :
    Transport.RespectsSending (awaiting ps) where
  send_eq t p := by
    show (t.awaiting ps).send p = ((t.send p).1, (t.send p).2.awaiting ps)
    cases hconnected : t.link.connected with
    | false => simp [send, awaiting, hconnected]
    | true =>
        by_cases hstall : t.stall = 0
        · simp [send, Link.send, awaiting, hconnected, hstall]
        · simp [send, awaiting, hconnected, hstall]
  ready_eq _ := rfl

theorem SimulatedHost.respectsSending_silenced : Transport.RespectsSending silenced :=
  respectsSending_awaiting []

namespace Port

variable {i o : Nat}

/-- The port without anything on its way in. -/
def outward (p : Port SimulatedHost i o) : Port SimulatedHost i o :=
  { p with transport := p.transport.silenced, inbound := Ring.empty p.inbound.admits }

/-!
### Sending and receiving
-/

/-- Sending is the same for a silenced host. -/
theorem dispatch_silenced (t : SimulatedHost) (queue : Ring 8 o Packet) :
    dispatch t.silenced queue
      = { dispatch t queue with transport := (dispatch t queue).transport.silenced } :=
  dispatch_mapTransport SimulatedHost.respectsSending_silenced t queue

/-- Receiving only takes what a silenced host does not have. -/
theorem silenced_receive (t : SimulatedHost) (inbound : Ring 8 i UInt8) :
    (receive t inbound).transport.silenced = t.silenced := by
  rw [receive_simulated]
  rfl

theorem outward_trySend (p : Port SimulatedHost i o) :
    p.outward.trySend.port = p.trySend.port.outward :=
  congrArg Reply.port (trySend_withInput SimulatedHost.respectsSending_silenced (Ring.empty p.inbound.admits) p)

/-- The first half of a poll, which is all that a waiting flush does. -/
theorem outward_receive (p : Port SimulatedHost i o) :
    let intake := receive (Transport.poll p.transport) p.inbound
    let intake' := receive (Transport.poll p.outward.transport) p.outward.inbound
    ({ p.outward with transport := intake'.transport, inbound := intake'.inbound } : Port _ i o)
      = ({ p with transport := intake.transport, inbound := intake.inbound } : Port _ i o).outward := by
  intro intake intake'
  have hnone : intake' = ⟨0, Transport.poll p.outward.transport, p.outward.inbound, []⟩ :=
    receive_simulated _ _
  have hsilenced : intake.transport.silenced = (Transport.poll p.transport).silenced :=
    silenced_receive _ _
  rw [hnone]
  simp only [outward, hsilenced]
  rfl

theorem outward_poll (p : Port SimulatedHost i o) : p.outward.poll.port = p.poll.port.outward := by
  have hreceived := outward_receive p
  simp only [poll]
  rw [hreceived, outward_trySend]

theorem outward_dispatch (p : Port SimulatedHost i o) :
    let d := dispatch p.transport p.outbound
    dispatch p.outward.transport p.outward.outbound = { d with transport := d.transport.silenced } :=
  dispatch_silenced p.transport p.outbound

/-- A flush waits for as long as the stall lasts, and what it receives meanwhile makes no difference. -/
theorem outward_flush (p : Port SimulatedHost i o) :
    p.outward.flush.value = p.flush.value ∧ p.outward.flush.port = p.flush.port.outward := by
  fun_induction flush p with
  | case1 p d e hok =>
      have hd := outward_dispatch p
      rw [flush_of_error (by rw [hd]; exact hok), hd]
      exact ⟨rfl, rfl⟩
  | case2 p d hok hleft =>
      have hd := outward_dispatch p
      rw [flush_of_empty (by rw [hd]; exact hok) (by rw [hd]; exact hleft), hd]
      exact ⟨rfl, rfl⟩
  | case3 p d hok hleft intake hdelay rest ih =>
      have hd := outward_dispatch p
      -- The flush goes on from the port that has sent what it could and then received.
      have hreceived := outward_receive { p with transport := d.transport, outbound := d.outbound }
      rw [flush_of_waiting (by rw [hd]; exact hok) (by rw [hd]; exact hleft), hd]
      rw [← hreceived] at ih
      exact ih

/-!
### Writing
-/

theorem outward_write (p : Port SimulatedHost i o) (b : UInt8) :
    (p.outward.write b).value = (p.write b).value ∧
      (p.outward.write b).port = (p.write b).port.outward := by
  have hwrite : p.outward.write b = (p.write b).withInput _ _ :=
    write_withInput SimulatedHost.respectsSending_silenced (Ring.empty p.inbound.admits) p b
  rw [hwrite]
  exact ⟨rfl, rfl⟩

theorem outward_writeAll (p : Port SimulatedHost i o) (bs : List UInt8) :
    (p.outward.writeAll bs).port = (p.writeAll bs).port.outward :=
  congrArg Reply.port
    (writeAll_withInput SimulatedHost.respectsSending_silenced (Ring.empty p.inbound.admits) p bs)

/-!
### One command
-/

theorem outward_of_eq {p q : Port SimulatedHost i o} (h : q = p.outward) : q.outward = p.outward := by
  rw [h]
  rfl

/-- Every command leads the port, without what is on the way in, to where it leads the whole port. -/
theorem outward_perform (p : Port SimulatedHost i o) (c : Command SimulatedHost.Event) :
    (p.outward.perform c).port.outward = (p.perform c).port.outward := by
  cases c with
  | write b => exact outward_of_eq (outward_write p b).2
  | writeAll bs => exact outward_of_eq (outward_writeAll p bs)
  | flush | flushStream => exact outward_of_eq (outward_flush p).2
  | poll | available | peek => exact outward_of_eq (outward_poll p)
  | read =>
      have hpoll : p.outward.poll.port.outward = p.poll.port.outward := outward_of_eq (outward_poll p)
      exact hpoll
  | reset => rfl
  | setCable cable => rfl
  | host event =>
      cases event with
      | link event => cases event <;> rfl
      | stall polls => rfl

/-- What a command shows of the way out. -/
structure Shown where
  /-- The answer, unless it is about what came in. -/
  answer? : Option Answer
  /-- How many packets are queued then. -/
  pendingOutput : Nat
  /-- The packets that have been sent then and were not taken by the host. -/
  sent : List Packet

def shown (p : Port SimulatedHost i o) (c : Command SimulatedHost.Event) : Shown :=
  { answer? := if c.isReading || c == .poll then none else some (p.perform c).value
    pendingOutput := (p.perform c).port.pendingOutput
    sent := (p.perform c).port.transport.link.sent }

/-- What is shown after each command that is not a delivery. -/
def shownOutward (p : Port SimulatedHost i o) (c : Command SimulatedHost.Event) : List Shown :=
  if c.isDelivery then [] else [p.shown c]

/-- What came in has no part in the answer to any other command. -/
theorem value_outward (p : Port SimulatedHost i o) {c : Command SimulatedHost.Event}
    (h : (c.isReading || c == .poll) = false) : (p.outward.perform c).value = (p.perform c).value := by
  cases c with
  | write b => exact congrArg Answer.accepted (outward_write p b).1
  | writeAll bs =>
      exact congrArg Answer.count ((writeAll_value p.outward bs).trans (writeAll_value p bs).symm)
  | flush => exact congrArg Answer.flushed (outward_flush p).1
  | flushStream =>
      exact congrArg (fun r => Answer.streamed (r.mapError StreamError.ofSend)) (outward_flush p).1
  | poll | available | read | peek => cases h
  | reset => rfl
  | setCable cable => rfl
  | host event =>
      cases event with
      | link event => cases event <;> rfl
      | stall polls => rfl

/-- The packets that are queued and those that were sent belong to the way out. -/
theorem output_of_outward_eq {p q : Port SimulatedHost i o} (h : p.outward = q.outward) :
    p.pendingOutput = q.pendingOutput ∧ p.transport.link.sent = q.transport.link.sent := by
  have hpending : p.outward.pendingOutput = q.outward.pendingOutput := by rw [h]
  have hsent : p.outward.transport.link.sent = q.outward.transport.link.sent := by rw [h]
  exact ⟨hpending, hsent⟩

theorem shown_outward (p : Port SimulatedHost i o) (c : Command SimulatedHost.Event) :
    p.outward.shown c = p.shown c := by
  obtain ⟨hpending, hsent⟩ := output_of_outward_eq (outward_perform p c)
  unfold shown
  rw [hpending, hsent]
  cases h : c.isReading || c == .poll with
  | true => rfl
  | false => rw [value_outward p h]

/-!
### Sessions
-/

/-- A delivery puts packets on the link and does nothing else. -/
theorem outward_delivery {c : Command SimulatedHost.Event} (h : c.isDelivery = true)
    (p : Port SimulatedHost i o) : (p.perform c).port.outward = p.outward := by
  unfold Command.isDelivery at h
  split at h
  · rfl
  · cases h

theorem separate_outward (cs : List (Command SimulatedHost.Event)) :
    Separate (outward (i := i) (o := o)) (fun q c => (q.perform c).port.outward)
      (fun c => !c.isDelivery) cs where
  view_selected c _ _ p := (outward_perform p c).symm
  view_other c _ hother p := outward_delivery (by simpa using hother) p

theorem shown_eq_replay (p : Port SimulatedHost i o) (cs : List (Command SimulatedHost.Event)) :
    gather shownOutward p cs
      = replay (fun q c => (q.perform c).port.outward) shownOutward p.outward
          (cs.filter fun c => !c.isDelivery) := by
  refine gather_eq_replay (separate_outward cs) ?_ ?_ p
  · intro c _ _ p
    rw [shownOutward, shownOutward, shown_outward]
  · intro c _ hother p
    exact if_pos (by simpa using hother)

/-- Two sessions with ports that have the same number of slots for bytes, on fresh simulated hosts.

    If the commands that read and the deliveries are the same, in the same order, then each of these commands
    has the same answer, and each packet that the host sends has the same turn: it finds the same bytes and
    is accepted or dropped in both. The cables, the slots for packets and all other commands may differ;
    only a loop back, which turns output into input, is left out.

    If all commands but the deliveries are the same, for the same cable and as many slots for packets, then
    each of them shows the same of the way out, and so do the ports in the end. -/
theorem directions_independent (hi : Ring.Admits 8 i) (ho : Ring.Admits 8 o) (cable : Cable) :
    (∀ (o' : Nat) (ho' : Ring.Admits 8 o') (cable' : Cable)
        (cs cs' : List (Command SimulatedHost.Event)),
      (∀ c ∈ cs ++ cs', c ≠ .host (.link .loopBack)) →
      cs.filter Command.isInward = cs'.filter Command.isInward →
      let p : Port SimulatedHost i o := new SimulatedHost.new cable hi ho
      let p' : Port SimulatedHost i o' := new SimulatedHost.new cable' hi ho'
      gather heard p cs = gather heard p' cs' ∧ p.fates cs = p'.fates cs') ∧
    ∀ cs cs' : List (Command SimulatedHost.Event),
      (cs.filter fun c => !c.isDelivery) = (cs'.filter fun c => !c.isDelivery) →
      let p : Port SimulatedHost i o := new SimulatedHost.new cable hi ho
      gather shownOutward p cs = gather shownOutward p cs' ∧
        (p.after cs).pendingOutput = (p.after cs').pendingOutput ∧
        (p.after cs).transport.link.sent = (p.after cs').transport.link.sent := by
  constructor
  · intro o' ho' cable' cs cs' hlink hinward p p'
    have hcs : ∀ c ∈ cs, c ≠ .host (.link .loopBack) := fun c hc =>
      hlink c (List.mem_append_left cs' hc)
    have hcs' : ∀ c ∈ cs', c ≠ .host (.link .loopBack) := fun c hc =>
      hlink c (List.mem_append_right cs hc)
    have hsettled : p.settled = p'.settled := rfl
    have hahead : p.ahead = p'.ahead := rfl
    constructor
    · rw [heard_eq_replay hcs, heard_eq_replay hcs', hinward, hsettled]
    · rw [fates_eq_replay hcs, fates_eq_replay hcs', hinward, hsettled, hahead]
  · intro cs cs' hother p
    have hafter : (p.after cs).outward = (p.after cs').outward := by
      rw [view_after (separate_outward cs), view_after (separate_outward cs'), hother]
    refine ⟨?_, output_of_outward_eq hafter⟩
    rw [shown_eq_replay, shown_eq_replay, hother]

/-- The third note finds six of seven places taken and is dropped, whether it is received at once, in the
    course of a flush or by the read itself. -/
theorem directions_independent_interleaved :
    let note (key : UInt8) : Packet := ⟨0x09, ⟨0x90, key, 0x7F⟩⟩
    let cs : List (Command SimulatedHost.Event) :=
      [.host (.link (.deliver [note 1, note 2])), .poll, .host (.link (.deliver [note 3])), .poll,
        .read, .available, .host (.link (.deliver [note 4])), .peek, .read]
    let cs' : List (Command SimulatedHost.Event) :=
      [.host (.stall 3), .write 0xFA, .host (.link (.deliver [note 1, note 2])), .flush,
        .host (.link .collect), .host (.link (.deliver [note 3])), .setCable Cable.first, .read, .reset,
        .host (.link .disconnect), .available, .host (.link (.deliver [note 4])), .writeAll [0x90, 1],
        .peek, .flushStream, .read]
    let ds : List (Command SimulatedHost.Event) :=
      [.host (.stall 2), .write 0xF8, .flush, .write 0xFA, .host (.link .collect), .read, .write 0xFE]
    let ds' : List (Command SimulatedHost.Event) :=
      [.host (.link (.deliver [note 1])), .host (.stall 2), .write 0xF8, .flush, .write 0xFA,
        .host (.link (.deliver [note 2, note 3])), .host (.link .collect), .read, .write 0xFE]
    let p : Port SimulatedHost 8 4 := new SimulatedHost.new Cable.first (by decide) (by decide)
    let p' : Port SimulatedHost 8 2 := new SimulatedHost.new Cable.last (by decide) (by decide)
    (gather heard p cs = gather heard p' cs' ∧ p.fates cs = p'.fates cs') ∧
      (gather heard p cs).filterMap Answer.byte? = [0x90, 1, 1] ∧
      (p.fates cs).map (fun t => decide (t.Accepted 7)) = [true, true, false, false] ∧
      gather shownOutward p ds = gather shownOutward p ds' ∧
      (p.after ds).transport.link.sent = (p.after ds').transport.link.sent := by
  intro note cs cs' ds ds' p p'
  obtain ⟨hinward, houtward⟩ :=
    directions_independent (i := 8) (o := 4) (by decide) (by decide) Cable.first
  obtain ⟨hshown, -, hsent⟩ := houtward ds ds' (by decide)
  exact ⟨hinward 2 (by decide) Cable.last cs cs' (by decide) (by decide),
    by decide +kernel, by decide +kernel, hshown, hsent⟩

end Port

end MidiBridge
