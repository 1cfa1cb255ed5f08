/-
Module: MidiBridge.Log
Purpose: The log of a port. An entry says what happened; its level and its wording follow from that.
Trusted boundary: none
Main exports: LogLevel, LogEntry, LogEntry.level, LogEntry.message
-/
import MidiBridge.Encoder.Basic
import MidiBridge.Transport.Error

namespace MidiBridge

/-- How much an entry matters. -/
inductive LogLevel where
  /-- The normal course of events. -/
  | trace
  /-- Input or output that was dropped. -/
  | debug
  /-- A failure that is not reported in any other way. -/
  | warn
deriving DecidableEq, Repr, Inhabited

def LogLevel.name : LogLevel → String
  | .trace => "TRACE"
  | .debug => "DEBUG"
  | .warn => "WARN"

/-- One thing that happened in a port. -/
inductive LogEntry where
  | discarded (discard : Encoder.Discard)
  /-- A reset found a System Exclusive block open. -/
  | sysExAborted
  | received (packet : Packet)
  | sent (packet : Packet)
  /-- The packet that arrived last has a code that means nothing. -/
  | reservedCode (code : CodeIndex)
  /-- The bytes of the packet that arrived last did not fit. -/
  | inboundFull (bytes : List UInt8)
  /-- A packet to be sent did not fit. -/
  | outboundFull (packet : Packet)
  | sendFailed (error : SendError)
deriving DecidableEq, Repr, Inhabited

namespace LogEntry

def level : LogEntry → LogLevel
  | .received _ | .sent _ => .trace
  | .discarded _ | .sysExAborted | .reservedCode _ | .inboundFull _ | .outboundFull _ => .debug
  | .sendFailed _ => .warn

def message : LogEntry → String
  | .discarded discard => discard.message
  | .sysExAborted => "Aborting unterminated SysEx output"
  | .received packet => "Received USB-MIDI packet " ++ Hex.list packet.bytes
  | .sent packet => "Sent USB-MIDI packet " ++ Hex.list packet.bytes
  | .reservedCode code =>
      "Dropping USB-MIDI packet with reserved code index number " ++ code.name
  | .inboundFull bytes => "Dropping MIDI input " ++ Hex.list bytes ++ ": inbound buffer full"
  | .outboundFull packet =>
      "Dropping MIDI output " ++ Hex.list packet.bytes ++ ": outbound queue full"
  | .sendFailed error => "Failed to send MIDI output: " ++ error.message

example : (LogEntry.inboundFull [0xF0, 0x01]).message
    = "Dropping MIDI input [f0, 01]: inbound buffer full" := by decide

example : (LogEntry.sendFailed (.failed "endpoint busy")).message
    = "Failed to send MIDI output: Send: endpoint busy" := by decide

end LogEntry

end MidiBridge
