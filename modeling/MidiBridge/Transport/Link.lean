/-
Module: MidiBridge.Transport.Link
Purpose: The packets between a device and a host that exists only in memory: those the host has sent
  and the device has not received, those the device has sent and the host has not collected, and
  whether the host is still there.
Trusted boundary: none
Main exports: Link, Link.receive?, Link.receiveInto, Link.send, Link.Event, Link.act,
  Link.receiveInto_eq_some, Link.sent_act
-/
import MidiBridge.Transport.Basic

namespace MidiBridge

/-- The packets on their way between a device and its host. -/
structure Link where
  /-- Packets from the host that the device has not received, oldest first. -/
  inbound : List Packet := []
  /-- Packets from the device that the host has not collected, oldest first. -/
  sent : List Packet := []
  /-- Whether the host is there. Once gone, it does not come back. -/
  connected : Bool := true
deriving DecidableEq, Repr, Inhabited

namespace Link

def receive? (l : Link) : Option (Packet × Link) :=
  match l.inbound with
  | [] => none
  | p :: ps => some (p, { l with inbound := ps })

/-- What a transport on top of the link receives, if it goes on with `wrap` of the link. -/
def receiveInto {τ : Type} (l : Link) (wrap : Link → τ) : Option (Packet × τ) :=
  l.receive?.map fun received => (received.1, wrap received.2)

/-- Sends a packet, which succeeds as long as the host is there. -/
def send (l : Link) (p : Packet) : Except SendError Unit × Link :=
  if l.connected then (.ok (), { l with sent := l.sent ++ [p] }) else (.error .disconnected, l)

/-- What the host does. -/
inductive Event where
  | deliver (ps : List Packet)
  | disconnect
  | collect
  | loopBack
deriving DecidableEq, Repr, Inhabited

/-- The link after the host has done something, and the packets that it took from the device. -/
def act (l : Link) : Event → Link × List Packet
  | .deliver ps => ({ l with inbound := l.inbound ++ ps }, [])
  | .disconnect => ({ l with connected := false }, [])
  | .collect => ({ l with sent := [] }, l.sent)
  | .loopBack => ({ l with inbound := l.inbound ++ l.sent, sent := [] }, l.sent)

theorem length_receive? {l l' : Link} {p : Packet} (h : l.receive? = some (p, l')) :
    l'.inbound.length < l.inbound.length := by
  unfold receive? at h
  split at h
  · cases h
  · next q ps hl =>
      cases h
      simp [hl]

theorem receiveInto_eq_some {τ : Type} {l : Link} {wrap : Link → τ} {p : Packet} {t : τ}
    (h : l.receiveInto wrap = some (p, t)) : ∃ l', l.receive? = some (p, l') ∧ t = wrap l' := by
  obtain ⟨⟨q, l'⟩, hl, heq⟩ := Option.map_eq_some_iff.1 h
  cases heq
  exact ⟨l', hl, rfl⟩

/-- Whatever the host takes it takes from the front, and the rest stays. -/
theorem sent_act (l : Link) (event : Event) : (l.act event).2 ++ (l.act event).1.sent = l.sent := by
  cases event with
  | deliver ps => rfl
  | disconnect => rfl
  | collect => exact List.append_nil l.sent
  | loopBack => exact List.append_nil l.sent

@[simp] theorem connected_send (l : Link) (p : Packet) :
    (l.send p).2.connected = l.connected := by
  unfold send
  split <;> rfl

end Link

end MidiBridge
