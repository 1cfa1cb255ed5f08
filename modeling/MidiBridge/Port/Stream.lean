/-
Module: MidiBridge.Port.Stream
Purpose: A port as an ordinary byte stream. Writing takes every byte it is given; bytes whose packet
  finds no room are lost all the same. Flushing reports a failure as one of the stream.
Trusted boundary: none
Main exports: Port.writeAll, Port.flushStream, Port.writeAll_value
-/
import MidiBridge.Port.Basic

namespace MidiBridge.Port

variable {τ : Type} {i o : Nat}

/-- Writes bytes one after the other and answers how many were taken, which is all of them. -/
def writeAll [Transport τ] (p : Port τ i o) : List UInt8 → Reply τ i o Nat
  | [] => { value := 0, port := p, log := [] }
  | b :: bs =>
      let written := p.write b
      let rest := writeAll written.port bs
      { rest with value := rest.value + 1, log := written.log ++ rest.log }

def flushStream [Transport τ] (p : Port τ i o) : Reply τ i o (Except StreamError Unit) :=
  let flushed := p.flush
  { value := flushed.value.mapError StreamError.ofSend, port := flushed.port, log := flushed.log }

theorem writeAll_value [Transport τ] (p : Port τ i o) (bs : List UInt8) :
    (p.writeAll bs).value = bs.length := by
  induction bs generalizing p with
  | nil => rfl
  | cons b bs ih => exact congrArg (· + 1) (ih (p.write b).port)

end MidiBridge.Port
