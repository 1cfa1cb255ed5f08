/-
Module: MidiBridge.Proofs.Port.Transfer
Purpose: A port knows its transport by the calls that it makes. If a map between two kinds of transport
  respects every call, then each operation of a port on the one side is the operation of the mapped port on
  the other side, with the same answer and the same log, and so is every session. For sending and writing it
  is enough that the map respects the calls for sending, and the bytes received may be replaced as well.
Trusted boundary: none
Main exports: Transport.Respects, Transport.RespectsSending, HostSide.Respects, Port.mapTransport,
  Port.Reply.mapTransport, Port.withInput, Port.Reply.withInput, Port.dispatch_mapTransport,
  Port.write_withInput, Port.receive_mapTransport, Port.flush_mapTransport, Port.write_mapTransport,
  Port.perform_mapTransport, Port.session_mapTransport
-/
import MidiBridge.Proofs.Port.Gather
import MidiBridge.Proofs.Port.Moves

namespace MidiBridge

/-- The calls of a transport give the same before and after `f`, up to `f`. -/
structure Transport.Respects {τ σ : Type} [Transport τ] [Transport σ] (f : τ → σ) : Prop where
  receive?_eq (t : τ) : Transport.receive? (f t) = (Transport.receive? t).map fun r => (r.1, f r.2)
  send_eq (t : τ) (p : Packet) :
    Transport.send (f t) p = ((Transport.send t p).1, f (Transport.send t p).2)
  ready_eq (t : τ) : Transport.ready (f t) = Transport.ready t
  poll_eq (t : τ) : Transport.poll (f t) = f (Transport.poll t)

/-- Sending gives the same before and after `f`, up to `f`. What is received may differ. -/
structure Transport.RespectsSending {τ σ : Type} [Transport τ] [Transport σ] (f : τ → σ) : Prop where
  send_eq (t : τ) (p : Packet) :
    Transport.send (f t) p = ((Transport.send t p).1, f (Transport.send t p).2)
  ready_eq (t : τ) : Transport.ready (f t) = Transport.ready t

theorem Transport.Respects.sending {τ σ : Type} [Transport τ] [Transport σ] {f : τ → σ}
    (h : Transport.Respects f) : Transport.RespectsSending f := ⟨h.send_eq, h.ready_eq⟩

/-- The events at the host do the same before and after `f`, too. -/
structure HostSide.Respects {τ σ ε : Type} [Transport τ] [Transport σ] [HostSide τ ε] [HostSide σ ε]
    (f : τ → σ) : Prop extends Transport.Respects f where
  act_eq (t : τ) (event : ε) :
    HostSide.act (f t) event = (f (HostSide.act t event).1, (HostSide.act t event).2)

namespace Port

variable {τ σ ε α β : Type} {i j o : Nat}

/-- The port with another transport in place of its own. -/
def mapTransport (f : τ → σ) (p : Port τ i o) : Port σ i o :=
  ⟨f p.transport, p.encoder, p.inbound, p.outbound⟩

def Reply.mapTransport (f : τ → σ) (reply : Reply τ i o α) : Reply σ i o α :=
  ⟨reply.value, reply.port.mapTransport f, reply.log⟩

/-- The port with another transport and another ring of bytes received. -/
def withInput (f : τ → σ) (ring : Ring 8 j UInt8) (p : Port τ i o) : Port σ j o :=
  ⟨f p.transport, p.encoder, ring, p.outbound⟩

def Reply.withInput (f : τ → σ) (ring : Ring 8 j UInt8) (reply : Reply τ i o α) : Reply σ j o α :=
  ⟨reply.value, reply.port.withInput f ring, reply.log⟩

def Dispatch.mapTransport (f : τ → σ) (d : Dispatch τ o) : Dispatch σ o :=
  ⟨d.outcome, f d.transport, d.outbound, d.log⟩

def Intake.mapTransport (f : τ → σ) (intake : Intake τ i) : Intake σ i :=
  ⟨intake.received, f intake.transport, intake.inbound, intake.log⟩

/-- An operation that does the same whatever bytes were received, in the port itself and in the mapped one. It
    leaves these bytes alone, since it does so for a port with its own bytes put in their place. -/
theorem mapTransport_of_withInput (op : Port τ i o → Reply τ i o α) (op' : Port σ i o → Reply σ i o α)
    (hself : ∀ p, op (p.withInput id p.inbound) = (op p).withInput id p.inbound)
    (hop : ∀ p, op' (p.withInput f p.inbound) = (op p).withInput f p.inbound) (p : Port τ i o) :
    op' (p.mapTransport f) = (op p).mapTransport f := by
  have hkept : (op p).port.inbound = p.inbound :=
    congrArg (fun reply => reply.port.inbound) (hself p)
  calc
    op' (p.mapTransport f) = (op p).withInput f p.inbound := hop p
    _ = (op p).withInput f (op p).port.inbound := by rw [hkept]
    _ = (op p).mapTransport f := rfl

section Operations

variable [Transport τ] [Transport σ] {f : τ → σ}

/-!
### Sending and writing

A port that sends or writes receives nothing, so the calls for sending are all that counts, and the bytes that
were received may be any.
-/

section Sending

variable (h : Transport.RespectsSending f)

include h

theorem send_of_eq {t t' : τ} {p : Packet} {outcome : Except SendError Unit}
    (hsend : Transport.send t p = (outcome, t')) : Transport.send (f t) p = (outcome, f t') := by
  rw [h.send_eq, hsend]

theorem dispatch_mapTransport (t : τ) (queue : Ring 8 o Packet) :
    dispatch (f t) queue = (dispatch t queue).mapTransport f := by
  fun_induction dispatch t queue with
  | case1 t queue hready hpeek => exact dispatch_of_empty ((h.ready_eq t).trans hready) hpeek
  | case2 t queue hready p hpeek e t' hsend =>
      exact dispatch_of_error ((h.ready_eq t).trans hready) hpeek (send_of_eq h hsend)
  | case3 t queue hready p hpeek t' hsend hsize rest ih =>
      rw [dispatch_of_sent ((h.ready_eq t).trans hready) hpeek (send_of_eq h hsend), ih]
      rfl
  | case4 t queue hready => exact dispatch_of_closed ((h.ready_eq t).trans (eq_false_of_ne_true hready))

theorem dispatch_of_mapTransport (p : Port τ i o) :
    dispatch (p.mapTransport f).transport (p.mapTransport f).outbound
      = (dispatch p.transport p.outbound).mapTransport f :=
  dispatch_mapTransport h p.transport p.outbound

variable (ring : Ring 8 j UInt8)

theorem sendOut_withInput (p : Port τ i o) :
    (p.withInput f ring).sendOut = p.sendOut.withInput f ring := by
  have hsent : dispatch (p.withInput f ring).transport (p.withInput f ring).outbound
      = (dispatch p.transport p.outbound).mapTransport f := dispatch_of_mapTransport h p
  simp only [sendOut, hsent]
  rfl

theorem trySend_withInput (p : Port τ i o) :
    (p.withInput f ring).trySend = p.trySend.withInput f ring := by
  have hsent := sendOut_withInput h ring p
  have hvalue : (p.withInput f ring).sendOut.value = p.sendOut.value := congrArg Reply.value hsent
  cases houtcome : p.sendOut.value with
  | ok =>
      rw [trySend_of_ok (hvalue.trans houtcome), trySend_of_ok houtcome, hsent]
      rfl
  | error e =>
      rw [trySend_of_error (hvalue.trans houtcome), trySend_of_error houtcome, hsent]
      rfl

theorem makeRoom_withInput (p : Port τ i o) :
    (p.withInput f ring).makeRoom = p.makeRoom.withInput f ring := by
  have hfull : (p.withInput f ring).outbound.isFull = p.outbound.isFull := rfl
  unfold makeRoom
  rw [hfull]
  split
  · exact trySend_withInput h ring p
  · rfl

theorem enqueue_withInput (p : Port τ i o) (packet : Packet) :
    (p.withInput f ring).enqueue packet = (p.enqueue packet).withInput f ring := by
  have hroom := makeRoom_withInput h ring p
  have hqueue : (p.withInput f ring).makeRoom.port.outbound = p.makeRoom.port.outbound := by
    rw [hroom]
    rfl
  cases hfull : p.makeRoom.port.outbound.isFull with
  | true =>
      rw [enqueue_of_full hfull, enqueue_of_full (hqueue ▸ hfull), hroom]
      rfl
  | false =>
      obtain ⟨queue, hpush, -⟩ := Ring.push_of_room hfull packet
      have hsent := trySend_withInput h ring { p.makeRoom.port with outbound := queue }
      rw [enqueue_of_push hpush, enqueue_of_push (hqueue ▸ hpush), hroom]
      exact congrArg
        (fun sent : Reply σ j o Unit =>
          (⟨true, sent.port, p.makeRoom.log ++ sent.log⟩ : Reply σ j o Bool)) hsent

theorem write_withInput (p : Port τ i o) (b : UInt8) :
    (p.withInput f ring).write b = (p.write b).withInput f ring := by
  cases hpacket : (p.encoder.step b).packet? with
  | none =>
      have hsame : ((p.withInput f ring).encoder.step b).packet? = none := hpacket
      rw [write_of_none hpacket, write_of_none hsame]
      rfl
  | some packet =>
      have hsame : ((p.withInput f ring).encoder.step b).packet? = some packet := hpacket
      have hqueued : ((p.withInput f ring).encoded b).enqueue packet
          = ((p.encoded b).enqueue packet).withInput f ring :=
        enqueue_withInput h ring (p.encoded b) packet
      rw [write_of_some hpacket, write_of_some hsame, hqueued]
      rfl

theorem writeAll_withInput (p : Port τ i o) (bs : List UInt8) :
    (p.withInput f ring).writeAll bs = (p.writeAll bs).withInput f ring := by
  induction bs generalizing p with
  | nil => rfl
  | cons b bs ih =>
      have hrest := ih (p.write b).port
      simp only [writeAll, write_withInput h]
      exact congrArg
        (fun rest : Reply σ j o Nat =>
          ({ rest with value := rest.value + 1, log := (p.write b).log ++ rest.log } : Reply σ j o Nat)) hrest

end Sending

theorem respectsSending_id : Transport.RespectsSending (id : τ → τ) := ⟨fun _ _ => rfl, fun _ => rfl⟩

section Sending

variable (h : Transport.RespectsSending f)

include h

theorem sendOut_mapTransport (p : Port τ i o) : (p.mapTransport f).sendOut = p.sendOut.mapTransport f :=
  mapTransport_of_withInput sendOut sendOut (fun p => sendOut_withInput respectsSending_id p.inbound p)
    (fun p => sendOut_withInput h p.inbound p) p

theorem trySend_mapTransport (p : Port τ i o) : (p.mapTransport f).trySend = p.trySend.mapTransport f :=
  mapTransport_of_withInput trySend trySend (fun p => trySend_withInput respectsSending_id p.inbound p)
    (fun p => trySend_withInput h p.inbound p) p

theorem write_mapTransport (p : Port τ i o) (b : UInt8) :
    (p.mapTransport f).write b = (p.write b).mapTransport f :=
  mapTransport_of_withInput (write · b) (write · b)
    (fun p => write_withInput respectsSending_id p.inbound p b)
    (fun p => write_withInput h p.inbound p b) p

theorem writeAll_mapTransport (p : Port τ i o) (bs : List UInt8) :
    (p.mapTransport f).writeAll bs = (p.writeAll bs).mapTransport f :=
  mapTransport_of_withInput (writeAll · bs) (writeAll · bs)
    (fun p => writeAll_withInput respectsSending_id p.inbound p bs)
    (fun p => writeAll_withInput h p.inbound p bs) p

end Sending

/-!
### Receiving and flushing
-/

section Receiving

variable (h : Transport.Respects f)

include h

theorem receive_mapTransport (t : τ) (inbound : Ring 8 i UInt8) :
    receive (f t) inbound = (receive t inbound).mapTransport f := by
  fun_induction receive t inbound with
  | case1 t inbound hnone =>
      have hnothing : Transport.receive? (f t) = none := by rw [h.receive?_eq, hnone]; rfl
      exact receive_of_none hnothing inbound
  | case2 t inbound p t' hsome _ accepted rest ih =>
      have hpacket : Transport.receive? (f t) = some (p, f t') := by rw [h.receive?_eq, hsome]; rfl
      rw [receive_of_some hpacket, ih]
      rfl

theorem receive_poll_mapTransport (t : τ) (inbound : Ring 8 i UInt8) :
    receive (Transport.poll (f t)) inbound = (receive (Transport.poll t) inbound).mapTransport f := by
  rw [h.poll_eq]
  exact receive_mapTransport h (Transport.poll t) inbound

theorem takeIn_mapTransport (p : Port τ i o) : (p.mapTransport f).takeIn = p.takeIn.mapTransport f := by
  have hreceived : receive (Transport.poll (p.mapTransport f).transport) (p.mapTransport f).inbound = _ :=
    receive_poll_mapTransport h p.transport p.inbound
  simp only [takeIn, hreceived]
  rfl

theorem poll_mapTransport (p : Port τ i o) : (p.mapTransport f).poll = p.poll.mapTransport f := by
  have htaken := takeIn_mapTransport h p
  have hsent : (p.takeIn.mapTransport f).port.trySend = p.takeIn.port.trySend.mapTransport f :=
    trySend_mapTransport h.sending p.takeIn.port
  rw [poll_eq_takeIn, poll_eq_takeIn, htaken, hsent]
  rfl

theorem flush_mapTransport (p : Port τ i o) : (p.mapTransport f).flush = p.flush.mapTransport f := by
  fun_induction flush p with
  | case1 p d e hok =>
      have hd := dispatch_of_mapTransport h.sending p
      rw [flush_of_error (by rw [hd]; exact hok), hd]
      rfl
  | case2 p d hok hleft =>
      have hd := dispatch_of_mapTransport h.sending p
      rw [flush_of_empty (by rw [hd]; exact hok) (by rw [hd]; exact hleft), hd]
      rfl
  | case3 p d hok hleft intake hdelay rest ih =>
      have hd : _ = d.mapTransport f := dispatch_of_mapTransport h.sending p
      have htaken : receive (Transport.poll (d.mapTransport f).transport) (p.mapTransport f).inbound
          = intake.mapTransport f := receive_poll_mapTransport h d.transport p.inbound
      rw [flush_of_waiting (by rw [hd]; exact hok) (by rw [hd]; exact hleft), hd]
      simp only [htaken]
      exact congrArg
        (fun r : Reply σ i o (Except SendError Unit) =>
          ({ r with log := d.log ++ intake.log ++ r.log } : Reply σ i o (Except SendError Unit))) ih

end Receiving

end Operations

/-!
### Sessions
-/

section Sessions

variable [Transport τ] [Transport σ] [HostSide τ ε] [HostSide σ ε] {f : τ → σ} (h : HostSide.Respects f)

include h

theorem perform_mapTransport (p : Port τ i o) (c : Command ε) :
    (p.mapTransport f).perform c = (p.perform c).mapTransport f := by
  have hcalls := h.toRespects
  cases c with
  | write b =>
      rw [perform, write_mapTransport hcalls.sending]
      rfl
  | writeAll bs =>
      rw [perform, writeAll_mapTransport hcalls.sending]
      rfl
  | flush =>
      rw [perform, flush_mapTransport hcalls]
      rfl
  | flushStream =>
      rw [perform, flushStream, flush_mapTransport hcalls]
      rfl
  | poll =>
      rw [perform, poll_mapTransport hcalls]
      rfl
  | available =>
      rw [perform, available, poll_mapTransport hcalls]
      rfl
  | read =>
      rw [perform, read, poll_mapTransport hcalls]
      rfl
  | peek =>
      rw [perform, peek, poll_mapTransport hcalls]
      rfl
  | reset => rfl
  | setCable cable => rfl
  | host event =>
      have hact : HostSide.act (p.mapTransport f).transport event = _ := h.act_eq p.transport event
      simp only [perform, hact]
      rfl

theorem session_mapTransport (p : Port τ i o) (cs : List (Command ε)) :
    (p.mapTransport f).session cs = (p.session cs).map (Reply.mapTransport f) := by
  induction cs generalizing p with
  | nil => rfl
  | cons c cs ih =>
      have hrest := ih (p.perform c).port
      rw [session, perform_mapTransport h]
      exact congrArg (_ :: ·) hrest

end Sessions

end Port

end MidiBridge
