/-
Module: MidiBridge.Transport.Error
Purpose: Why a packet was not sent, and how a byte stream on top of a transport reports the same
  failure: by a coarse kind and the text of the cause.
Trusted boundary: none
Main exports: SendError, SendError.message, StreamError, StreamError.ofSend
-/
namespace MidiBridge

/-- Why a transport did not send a packet. -/
inductive SendError where
  /-- The host is gone, and nothing will be sent any more. -/
  | disconnected
  /-- This attempt failed, for a reason given in words. -/
  | failed (reason : String)
deriving DecidableEq, Repr, Inhabited

def SendError.message : SendError → String
  | .disconnected => "disconnected"
  | .failed reason => "Send: " ++ reason

/-- The kinds of failure that a byte stream tells apart. -/
inductive StreamError.Kind where
  | notConnected
  | other
deriving DecidableEq, Repr, Inhabited

/-- A failure of a byte stream. -/
structure StreamError where
  kind : StreamError.Kind
  message : String
deriving DecidableEq, Repr, Inhabited

/-- A send error as a failure of the stream; the text stays. -/
def StreamError.ofSend (e : SendError) : StreamError :=
  { kind :=
      match e with
      | .disconnected => .notConnected
      | .failed _ => .other
    message := e.message }

end MidiBridge
