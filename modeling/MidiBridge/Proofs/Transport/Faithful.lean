/-
Module: MidiBridge.Proofs.Transport.Faithful
Purpose: What the host side of a transport has to do with its device side. The packets that the device has
  sent grow by sending, one packet at a time and only if the attempt succeeds, and shrink by what the host
  takes from the front. Both hosts keep to this, stalled, disconnected or with a script of failures.
  The simulated host takes every packet, refuses it or is gone, and it is ready unless it would refuse.
Trusted boundary: none
Main exports: HostSide.Faithful, HostSide.sent_of_ok, HostSide.sent_of_error, Link.carrying,
  SimulatedHost.send_of_open, SimulatedHost.send_of_stalled, SimulatedHost.send_of_gone
-/
import MidiBridge.Transport.ScriptedHost
import MidiBridge.Transport.SimulatedHost

namespace MidiBridge

/-- What an attempt to send a packet adds to the packets that were sent. -/
def Packet.sentBy (outcome : Except SendError Unit) (p : Packet) : List Packet :=
  match outcome with
  | .ok () => [p]
  | .error _ => []

/-- A transport whose sent packets change by successful sending and by what the host takes, and in no
    other way. -/
class HostSide.Faithful (τ : Type) (ε : outParam Type) [Transport τ] [HostSide τ ε] : Prop where
  sent_receive? {t t' : τ} {p : Packet} :
    Transport.receive? t = some (p, t') → HostSide.sent t' = HostSide.sent t
  sent_poll (t : τ) : HostSide.sent (Transport.poll t) = HostSide.sent t
  sent_send (t : τ) (p : Packet) :
    HostSide.sent (Transport.send t p).2 = HostSide.sent t ++ p.sentBy (Transport.send t p).1
  /-- The host takes packets from the front and leaves the others. -/
  sent_act (t : τ) (event : ε) :
    (HostSide.act t event).2 ++ HostSide.sent (HostSide.act t event).1 = HostSide.sent t

namespace HostSide

variable {τ ε : Type} [Transport τ] [HostSide τ ε] [Faithful τ ε] {t t' : τ} {p : Packet}

theorem sent_of_ok (h : Transport.send t p = (.ok (), t')) : sent t' = sent t ++ [p] := by
  have hsent := Faithful.sent_send t p
  rw [h] at hsent
  exact hsent

theorem sent_of_error {e : SendError} (h : Transport.send t p = (.error e, t')) :
    sent t' = sent t := by
  have hsent := Faithful.sent_send t p
  rw [h] at hsent
  exact hsent.trans (List.append_nil (sent t))

end HostSide

namespace Link

/-- The link with more packets that the device has sent. -/
def carrying (l : Link) (ps : List Packet) : Link := { l with sent := l.sent ++ ps }

@[simp] theorem carrying_nil (l : Link) : l.carrying [] = l := by
  rw [carrying, List.append_nil]

theorem carrying_carrying (l : Link) (ps qs : List Packet) :
    (l.carrying ps).carrying qs = l.carrying (ps ++ qs) := by
  rw [carrying, carrying, carrying, List.append_assoc]

theorem sent_receive? {l l' : Link} {p : Packet} (h : l.receive? = some (p, l')) :
    l'.sent = l.sent := by
  unfold receive? at h
  split at h
  · cases h
  · cases h
    rfl

theorem sent_send (l : Link) (p : Packet) : (l.send p).2.sent = l.sent ++ p.sentBy (l.send p).1 := by
  unfold send
  split <;> simp [Packet.sentBy]

end Link

namespace SimulatedHost

theorem sent_send (t : SimulatedHost) (p : Packet) :
    (t.send p).2.link.sent = t.link.sent ++ p.sentBy (t.send p).1 := by
  unfold send
  split
  · simp [Packet.sentBy]
  · split
    · simp [Packet.sentBy]
    · exact Link.sent_send t.link p

instance : HostSide.Faithful SimulatedHost Event where
  sent_receive? {t t' p} h := by
    have hreceive : t.receive? = some (p, t') := h
    obtain ⟨link, hl, rfl⟩ := Link.receiveInto_eq_some hreceive
    exact Link.sent_receive? hl
  sent_poll _ := rfl
  sent_send := sent_send
  sent_act t event := by
    cases event with
    | link event => exact Link.sent_act t.link event
    | stall polls => rfl

/-!
### The way out of a simulated host

It is open without a stall, closed during one, and broken when the host is gone.
-/

theorem ready_of_connected {t : SimulatedHost} (h : t.link.connected = true) :
    Transport.ready t = (t.stall == 0) := by
  show (!t.link.connected || t.stall == 0) = _
  rw [h]
  rfl

theorem ready_of_gone {t : SimulatedHost} (h : t.link.connected = false) :
    Transport.ready t = true := by
  show (!t.link.connected || t.stall == 0) = true
  rw [h]
  rfl

theorem send_of_open {t : SimulatedHost} (hconnected : t.link.connected = true)
    (hstall : t.stall = 0) (p : Packet) :
    Transport.send t p = (.ok (), { t with link := t.link.carrying [p] }) := by
  show t.send p = _
  simp [SimulatedHost.send, Link.send, Link.carrying, hconnected, hstall]

theorem send_of_stalled {t : SimulatedHost} (hconnected : t.link.connected = true)
    (hstall : t.stall ≠ 0) (p : Packet) :
    Transport.send t p = (.error (.failed "endpoint busy"), t) := by
  show t.send p = _
  simp [SimulatedHost.send, hconnected, hstall]

theorem send_of_gone {t : SimulatedHost} (h : t.link.connected = false) (p : Packet) :
    Transport.send t p = (.error .disconnected, t) := by
  show t.send p = _
  simp [SimulatedHost.send, h]

theorem inbound_send (t : SimulatedHost) (p : Packet) :
    (Transport.send t p).2.link.inbound = t.link.inbound := by
  have hsend : Transport.send t p = t.send p := rfl
  rw [hsend]
  unfold SimulatedHost.send Link.send
  split
  · rfl
  · split
    · rfl
    · split <;> rfl

end SimulatedHost

namespace ScriptedHost

theorem sent_send (t : ScriptedHost) (p : Packet) :
    (t.send p).2.link.sent = t.link.sent ++ p.sentBy (t.send p).1 := by
  unfold send
  split
  · simp [Packet.sentBy]
  · exact Link.sent_send t.link p
  · exact Link.sent_send t.link p

instance : HostSide.Faithful ScriptedHost Event where
  sent_receive? {t t' p} h := by
    have hreceive : t.receive? = some (p, t') := h
    obtain ⟨link, hl, rfl⟩ := Link.receiveInto_eq_some hreceive
    exact Link.sent_receive? hl
  sent_poll _ := rfl
  sent_send := sent_send
  sent_act t event := by
    cases event with
    | link event => exact Link.sent_act t.link event
    | script outcomes => rfl

end ScriptedHost

end MidiBridge
