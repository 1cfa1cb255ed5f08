/-
Module: MidiBridge.Transport.ScriptedHost
Purpose: A transport that follows a script: for each attempt to send, the script says whether it fails
  and how. When the script is used up, attempts succeed as long as the host is there. The way out is
  never closed, so every outcome of the script is met by an attempt.
Trusted boundary: none
Main exports: ScriptedHost, ScriptedHost.new, ScriptedHost.send, ScriptedHost.Event,
  ScriptedHost.act
-/
import MidiBridge.Transport.Link

namespace MidiBridge

/-- A host whose answers to sending are scripted. -/
structure ScriptedHost where
  link : Link := {}
  /-- The outcomes of the attempts to come: an error, or `none` to let the link decide. -/
  outcomes : List (Option SendError) := []
  attempts : Nat := 0
deriving DecidableEq, Repr, Inhabited

namespace ScriptedHost

/-- A host that has sent nothing, with an empty script. -/
def new : ScriptedHost := {}

def receive? (t : ScriptedHost) : Option (Packet × ScriptedHost) :=
  t.link.receiveInto fun link => { t with link := link }

/-- Counts an attempt and uses up one outcome. An error of the script leaves the packet unsent. -/
def send (t : ScriptedHost) (p : Packet) : Except SendError Unit × ScriptedHost :=
  match t.outcomes with
  | some error :: rest => (.error error, { t with outcomes := rest, attempts := t.attempts + 1 })
  | none :: rest =>
      ((t.link.send p).1,
        { link := (t.link.send p).2, outcomes := rest, attempts := t.attempts + 1 })
  | [] =>
      ((t.link.send p).1, { t with link := (t.link.send p).2, attempts := t.attempts + 1 })

/-- What may happen at the host. -/
inductive Event where
  | link (event : Link.Event)
  /-- The script grows at its end. -/
  | script (outcomes : List (Option SendError))
deriving DecidableEq, Repr, Inhabited

/-- The transport after an event at the host, and the packets that the host took. -/
def act (t : ScriptedHost) : Event → ScriptedHost × List Packet
  | .link event => ({ t with link := (t.link.act event).1 }, (t.link.act event).2)
  | .script outcomes => ({ t with outcomes := t.outcomes ++ outcomes }, [])

/-- The way out is always open, and a poll does nothing. -/
instance : Transport ScriptedHost where
  receive? := receive?
  send := send
  ready _ := true
  poll t := t
  backlog t := t.link.inbound.length
  delay _ := 0
  backlog_receive? h := by
    obtain ⟨link, hl, rfl⟩ := Link.receiveInto_eq_some h
    exact Link.length_receive? hl
  delay_receive? _ := Nat.le_refl 0
  delay_send _ _ := Nat.le_refl 0
  delay_poll h := by cases h

instance : HostSide ScriptedHost Event where
  sent t := t.link.sent
  act := act

end ScriptedHost

end MidiBridge
