/-
Module: MidiBridge.Port.Session
Purpose: A port in use: the commands that its user gives it and the events at the host, in any order,
  each with its answer and its part of the log.
Trusted boundary: none
Main exports: Port.Command, Port.Answer, Port.perform, Port.session, Port.after
-/
import MidiBridge.Port.Stream

namespace MidiBridge.Port

variable {τ ε : Type} {i o : Nat}

/-- What can be done with a port, and at its host. -/
inductive Command (ε : Type) where
  | write (b : UInt8)
  | writeAll (bs : List UInt8)
  | flush
  | flushStream
  | poll
  | available
  | read
  | peek
  | reset
  | setCable (cable : Cable)
  /-- Something happens at the host; the port does not notice. -/
  | host (event : ε)
deriving DecidableEq, Repr

/-- The answer to a command. -/
inductive Answer where
  | done
  /-- Whether a byte written was taken without loss. -/
  | accepted (taken : Bool)
  | count (n : Nat)
  | byte (b : Option UInt8)
  | flushed (outcome : Except SendError Unit)
  | streamed (outcome : Except StreamError Unit)
  /-- The packets that the host took. -/
  | packets (ps : List Packet)

def Reply.map {α β : Type} (f : α → β) (reply : Reply τ i o α) : Reply τ i o β :=
  { value := f reply.value, port := reply.port, log := reply.log }

def perform [Transport τ] [HostSide τ ε] (p : Port τ i o) :
    Command ε → Reply τ i o Answer
  | .write b => (p.write b).map .accepted
  | .writeAll bs => (p.writeAll bs).map .count
  | .flush => p.flush.map .flushed
  | .flushStream => p.flushStream.map .streamed
  | .poll => p.poll.map .count
  | .available => p.available.map .count
  | .read => p.read.map .byte
  | .peek => p.peek.map .byte
  | .reset => p.reset.map fun _ => .done
  | .setCable cable => { value := .done, port := p.setCable cable, log := [] }
  | .host event =>
      let acted := HostSide.act p.transport event
      { value := .packets acted.2, port := { p with transport := acted.1 }, log := [] }

/-- The replies to commands carried out one after the other. -/
def session [Transport τ] [HostSide τ ε] (p : Port τ i o) :
    List (Command ε) → List (Reply τ i o Answer)
  | [] => []
  | c :: cs => p.perform c :: session (p.perform c).port cs

/-- The port after commands carried out one after the other. -/
def after [Transport τ] [HostSide τ ε] (p : Port τ i o) (cs : List (Command ε)) : Port τ i o :=
  cs.foldl (fun p c => (p.perform c).port) p

end MidiBridge.Port
