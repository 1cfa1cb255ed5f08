/-
Module: MidiBridge.Proofs.Transport.Recorder
Purpose: A transport that writes down what is done with it, in the order in which it happens. Otherwise it is
  the transport that it wraps, and a port on it does what the port on that transport does. So the record tells
  what a session of the wrapped transport does with it, and is independent of everything that the port says
  about it in its log. What a record consists of is left open. Here it is either every call, or only the
  attempts to send: a failed call does not tell its packet, as little as the log of a port does, but a failed
  attempt does.
Trusted boundary: human-reviewed spec
Main exports: Transport.Note, Transport.Call, Transport.Attempt, Recorder, Recorder.notes_of_send,
  Recorder.notes_of_receive?, Recorder.respects_inner, Recorder.respects_behind, Port.recorded, Port.calls,
  Port.session_recorded, Port.calls_mapTransport, Port.record_after
-/
import MidiBridge.Proofs.Port.Transfer

namespace MidiBridge

namespace Transport

/-- What a record with entries of the type `κ` says of the calls of a transport. -/
class Note (κ : Type) where
  ofReceive : Packet → List κ
  ofSend : Packet → Except SendError Unit → κ

/-- What came of a call of a transport. -/
inductive Call where
  /-- A packet was received. -/
  | took (packet : Packet)
  | sent (packet : Packet)
  /-- An attempt to send failed. -/
  | failed (error : SendError)
deriving DecidableEq, Repr

namespace Call

/-- What came of an attempt to send a packet. -/
def ofSend (p : Packet) : Except SendError Unit → Call
  | .ok () => .sent p
  | .error e => .failed e

instance : Note Call where
  ofReceive p := [.took p]
  ofSend := ofSend

@[simp] theorem note_ofSend (p : Packet) (outcome : Except SendError Unit) :
    (Note.ofSend p outcome : Call) = ofSend p outcome := rfl

def taken? : Call → Option Packet
  | .took p => some p
  | _ => none

def sent? : Call → Option Packet
  | .sent p => some p
  | _ => none

def failure? : Call → Option SendError
  | .failed e => some e
  | _ => none

end Call

/-- An attempt to send a packet, with the error if it failed. -/
structure Attempt where
  packet : Packet
  error? : Option SendError := none
deriving DecidableEq, Repr

namespace Attempt

def ofSend (p : Packet) : Except SendError Unit → Attempt
  | .ok () => { packet := p }
  | .error e => { packet := p, error? := some e }

instance : Note Attempt where
  ofReceive _ := []
  ofSend := ofSend

def Failed (a : Attempt) : Prop := a.error?.isSome = true

/-- If the first of two attempts has failed, the second is for the same packet. -/
def LeadsTo (a b : Attempt) : Prop := a.Failed → b.packet = a.packet

@[simp] theorem packet_ofSend (p : Packet) (outcome : Except SendError Unit) :
    (ofSend p outcome).packet = p := by
  cases outcome <;> rfl

end Attempt

end Transport

/-- A transport with a record of what was done with it, oldest first. -/
structure Recorder (κ τ : Type) where
  inner : τ
  notes : List κ := []

namespace Recorder

variable {κ τ ε : Type}

/-- The record goes on with these entries, and the transport is now `t`. -/
def note (r : Recorder κ τ) (t : τ) (entries : List κ) : Recorder κ τ := ⟨t, r.notes ++ entries⟩

/-- The record with earlier entries in front of it. -/
def behind (earlier : List κ) (r : Recorder κ τ) : Recorder κ τ := ⟨r.inner, earlier ++ r.notes⟩

variable [Transport.Note κ] [Transport τ]

def receive? (r : Recorder κ τ) : Option (Packet × Recorder κ τ) :=
  (Transport.receive? r.inner).map fun received =>
    (received.1, r.note received.2 (Transport.Note.ofReceive received.1))

def send (r : Recorder κ τ) (p : Packet) : Except SendError Unit × Recorder κ τ :=
  let tried := Transport.send r.inner p
  (tried.1, r.note tried.2 [Transport.Note.ofSend p tried.1])

theorem receive?_eq_some {r r' : Recorder κ τ} {p : Packet} (h : r.receive? = some (p, r')) :
    ∃ t, Transport.receive? r.inner = some (p, t) ∧ r' = r.note t (Transport.Note.ofReceive p) := by
  obtain ⟨⟨q, t⟩, hinner, heq⟩ := Option.map_eq_some_iff.1 h
  cases heq
  exact ⟨t, hinner, rfl⟩

instance : Transport (Recorder κ τ) where
  receive? := receive?
  send := send
  ready r := Transport.ready r.inner
  poll r := { r with inner := Transport.poll r.inner }
  backlog r := Transport.backlog r.inner
  delay r := Transport.delay r.inner
  backlog_receive? h := by
    obtain ⟨t, hinner, rfl⟩ := receive?_eq_some h
    exact Transport.backlog_receive? hinner
  delay_receive? h := by
    obtain ⟨t, hinner, rfl⟩ := receive?_eq_some h
    exact Transport.delay_receive? hinner
  delay_send r p := Transport.delay_send r.inner p
  delay_poll h := Transport.delay_poll h

/-- Every attempt is recorded, whatever came of it. -/
theorem notes_of_send {r r' : Recorder κ τ} {p : Packet} {outcome : Except SendError Unit}
    (h : Transport.send r p = (outcome, r')) :
    r'.notes = r.notes ++ [Transport.Note.ofSend p outcome] := by
  have hsend : r.send p = (outcome, r') := h
  have hnotes : (r.send p).2.notes = r.notes ++ [Transport.Note.ofSend p (r.send p).1] := rfl
  rw [hsend] at hnotes
  exact hnotes

theorem notes_of_receive? {r r' : Recorder κ τ} {p : Packet}
    (h : Transport.receive? r = some (p, r')) : r'.notes = r.notes ++ Transport.Note.ofReceive p := by
  obtain ⟨t, -, rfl⟩ := receive?_eq_some h
  rfl

variable [HostSide τ ε]

instance : HostSide (Recorder κ τ) ε where
  sent r := HostSide.sent r.inner
  act r event := ({ r with inner := (HostSide.act r.inner event).1 }, (HostSide.act r.inner event).2)

/-- Recording makes no difference to the transport. -/
theorem respects_inner : HostSide.Respects (inner : Recorder κ τ → τ) where
  receive?_eq r := by
    show Transport.receive? r.inner = r.receive?.map _
    cases h : Transport.receive? r.inner with
    | none => simp [receive?, h]
    | some received => simp [receive?, h, note]
  send_eq _ _ := rfl
  ready_eq _ := rfl
  poll_eq _ := rfl
  act_eq _ _ := rfl

/-- What was recorded earlier makes no difference. -/
theorem respects_behind (earlier : List κ) :
    HostSide.Respects (behind earlier : Recorder κ τ → Recorder κ τ) where
  receive?_eq r := by
    show (behind earlier r).receive? = r.receive?.map _
    cases h : Transport.receive? r.inner with
    | none => simp [receive?, behind, h]
    | some received => simp [receive?, behind, h, note]
  send_eq r p := by
    show (behind earlier r).send p = ((r.send p).1, behind earlier (r.send p).2)
    simp [send, behind, note]
  ready_eq _ := rfl
  poll_eq _ := rfl
  act_eq _ _ := rfl

end Recorder

namespace Port

variable {κ τ ε : Type} {i o : Nat}

/-- The port with a record of what it does with its transport from now on. -/
def recorded (κ : Type) (p : Port τ i o) : Port (Recorder κ τ) i o := p.mapTransport fun t => ⟨t, []⟩

theorem behind_recorded (p : Port (Recorder κ τ) i o) :
    p = ((p.mapTransport Recorder.inner).recorded κ).mapTransport (Recorder.behind p.transport.notes) := by
  simp [mapTransport, recorded, Recorder.behind]

section Sessions

variable [Transport.Note κ] [Transport τ] [HostSide τ ε]

/-- The recorded session is the session, with the same answers and the same log. -/
theorem session_recorded (p : Port τ i o) (cs : List (Command ε)) :
    ((p.recorded κ).session cs).map (Reply.mapTransport Recorder.inner) = p.session cs :=
  (session_mapTransport Recorder.respects_inner (p.recorded κ) cs).symm

theorem perform_recorded (p : Port τ i o) (c : Command ε) :
    ((p.recorded κ).perform c).mapTransport Recorder.inner = p.perform c :=
  (perform_mapTransport Recorder.respects_inner (p.recorded κ) c).symm

end Sessions

section Calls

variable [Transport τ] [HostSide τ ε]

/-- What a command does with the transport. -/
def calls (p : Port τ i o) (c : Command ε) : List Transport.Call :=
  ((p.recorded Transport.Call).perform c).port.transport.notes

/-- A command adds its calls to the record. -/
theorem calls_mapTransport (p : Port (Recorder Transport.Call τ) i o) (c : Command ε) :
    (p.perform c).port.transport.notes
      = p.transport.notes ++ (p.mapTransport Recorder.inner).calls c := by
  have hbehind := perform_mapTransport (Recorder.respects_behind p.transport.notes)
    ((p.mapTransport Recorder.inner).recorded Transport.Call) c
  rw [← behind_recorded] at hbehind
  rw [hbehind]
  rfl

/-- The record of a session consists of what its commands do with the transport, one after the other. -/
theorem calls_after (p : Port (Recorder Transport.Call τ) i o) (cs : List (Command ε)) :
    (p.after cs).transport.notes = p.transport.notes ++ gather calls (p.mapTransport Recorder.inner) cs := by
  induction cs generalizing p with
  | nil => exact (List.append_nil _).symm
  | cons c cs ih =>
      have hport : (p.perform c).port.mapTransport Recorder.inner
          = ((p.mapTransport Recorder.inner).perform c).port :=
        congrArg Reply.port (perform_mapTransport Recorder.respects_inner p c).symm
      rw [after_cons, ih, calls_mapTransport, hport, List.append_assoc, gather_cons]

theorem record_after (p : Port τ i o) (cs : List (Command ε)) :
    ((p.recorded Transport.Call).after cs).transport.notes = gather calls p cs :=
  calls_after (p.recorded Transport.Call) cs

end Calls

end Port

end MidiBridge
