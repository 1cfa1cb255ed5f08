/-
Module: MidiBridge.Encoder.Framing
Purpose: Where an encoder stands in the serial stream: before any status byte, under a running
  status, or inside a System Exclusive block. A block remembers the status that was running before
  it, because that status runs again when the block ends.
Trusted boundary: none
Main exports: Framing, Framing.status?, Framing.withStatus, Framing.openSysEx, Framing.closeSysEx
-/
namespace MidiBridge

/-- The framing state of an encoder. -/
inductive Framing where
  /-- No status byte has arrived; data bytes belong to nothing. -/
  | idle
  /-- Data bytes belong to a message with this status byte. -/
  | running (status : UInt8)
  /-- Data bytes belong to a System Exclusive block; `resume` runs again after it. -/
  | sysEx (resume : Option UInt8)
deriving DecidableEq, Repr, Inhabited

namespace Framing

/-- The running status, also the one that an open block will resume. -/
def status? : Framing → Option UInt8
  | .idle => none
  | .running status => some status
  | .sysEx resume => resume

/-- A new status byte takes over. Inside a block it is only remembered: the block stays open. -/
def withStatus (framing : Framing) (status : UInt8) : Framing :=
  match framing with
  | .idle | .running _ => .running status
  | .sysEx _ => .sysEx (some status)

/-- A block opens. Opening one inside another forgets nothing. -/
def openSysEx (framing : Framing) : Framing := .sysEx framing.status?

/-- A block ends, and the status from before it runs again. -/
def closeSysEx (framing : Framing) : Framing :=
  match framing.status? with
  | some status => .running status
  | none => .idle

def isIdle : Framing → Bool
  | .idle => true
  | _ => false

def isRunning : Framing → Bool
  | .running _ => true
  | _ => false

def isSysEx : Framing → Bool
  | .sysEx _ => true
  | _ => false

/-- The status that runs outside any block. -/
def running? : Framing → Option UInt8
  | .running status => some status
  | _ => none

/-- What an open block will resume; `none` if no block is open. -/
def sysEx? : Framing → Option (Option UInt8)
  | .sysEx resume => some resume
  | _ => none

/-!
### The running status through a block

Opening and closing blocks move between framings and never touch the running status.
-/

@[simp] theorem status?_withStatus (framing : Framing) (status : UInt8) :
    (framing.withStatus status).status? = some status := by
  cases framing <;> rfl

@[simp] theorem status?_openSysEx (framing : Framing) :
    framing.openSysEx.status? = framing.status? := rfl

@[simp] theorem status?_closeSysEx (framing : Framing) :
    framing.closeSysEx.status? = framing.status? := by
  unfold closeSysEx
  cases h : framing.status? with
  | none => rfl
  | some status => rfl

@[simp] theorem isSysEx_closeSysEx (framing : Framing) : framing.closeSysEx.isSysEx = false := by
  unfold closeSysEx
  cases framing.status? with
  | none => rfl
  | some status => rfl

@[simp] theorem isSysEx_withStatus (framing : Framing) (status : UInt8) :
    (framing.withStatus status).isSysEx = framing.isSysEx := by
  cases framing <;> rfl

end Framing

end MidiBridge
