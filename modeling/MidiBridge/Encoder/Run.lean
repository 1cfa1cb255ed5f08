/-
Module: MidiBridge.Encoder.Run
Purpose: An encoder over a whole stream, and over a history in which resets and changes of the cable
  stand between the bytes. A run is a list of outcomes, one per byte; the packets, the discards and
  the final encoder are read off it.
Trusted boundary: none
Main exports: Encoder.trace, Encoder.run, Encoder.emissions, Encoder.packets, Encoder.discards,
  Encoder.Command, Encoder.apply, Encoder.history, Encoder.run_append, Encoder.packets_cons,
  Encoder.discards_cons, Encoder.history_append
-/
import MidiBridge.Encoder.Basic

namespace MidiBridge.Encoder

/-- The outcome of every byte of a stream, in order. -/
def trace (e : Encoder) : List UInt8 → List Outcome
  | [] => []
  | b :: bs => e.step b :: trace (e.step b).encoder bs

def run (e : Encoder) (bs : List UInt8) : Encoder :=
  bs.foldl (fun e b => (e.step b).encoder) e

/-- For every byte of a stream the packet that it completed, if any. -/
def emissions (e : Encoder) (bs : List UInt8) : List (Option Packet) :=
  (e.trace bs).map (·.packet?)

def packets (e : Encoder) (bs : List UInt8) : List Packet :=
  (e.trace bs).filterMap (·.packet?)

/-- What a stream caused to be dropped, in order. -/
def discards (e : Encoder) (bs : List UInt8) : List Discard :=
  (e.trace bs).filterMap (·.discard?)

/-!
### Histories

Everything that may happen to an encoder after its creation.
-/

/-- One thing that may happen to an encoder. -/
inductive Command where
  | byte (b : UInt8)
  /-- The running status and the bytes collected so far are forgotten. -/
  | reset
  | setCable (cable : Cable)
deriving DecidableEq, Repr, Inhabited

/-- Does one thing to an encoder. Only a byte can complete a packet or be dropped. -/
def apply (e : Encoder) : Command → Outcome
  | .byte b => e.step b
  | .reset => { encoder := e.reset }
  | .setCable cable => { encoder := e.setCable cable }

/-- The outcome of everything that happens to an encoder, in order. -/
def history (e : Encoder) : List Command → List Outcome
  | [] => []
  | c :: cs => e.apply c :: history (e.apply c).encoder cs

/-- The encoder after everything that happens to it. -/
def after (e : Encoder) (cs : List Command) : Encoder :=
  cs.foldl (fun e c => (e.apply c).encoder) e

/-!
### Runs in pieces

A run over a stream in two pieces is the run over the first followed by the run over the second.
-/

@[simp] theorem run_nil (e : Encoder) : e.run [] = e := rfl

@[simp] theorem run_cons (e : Encoder) (b : UInt8) (bs : List UInt8) :
    e.run (b :: bs) = (e.step b).encoder.run bs := rfl

theorem run_append (e : Encoder) (xs ys : List UInt8) :
    e.run (xs ++ ys) = (e.run xs).run ys := by
  simp [run, List.foldl_append]

/-- The packet of the first byte, if it completed one, comes before those of the others. -/
theorem packets_cons (e : Encoder) (b : UInt8) (bs : List UInt8) :
    e.packets (b :: bs) = (e.step b).packet?.toList ++ (e.step b).encoder.packets bs := by
  rw [packets, trace, List.filterMap_cons]
  cases (e.step b).packet? with
  | none => rfl
  | some p => rfl

theorem discards_cons (e : Encoder) (b : UInt8) (bs : List UInt8) :
    e.discards (b :: bs) = (e.step b).discard?.toList ++ (e.step b).encoder.discards bs := by
  rw [discards, trace, List.filterMap_cons]
  cases (e.step b).discard? with
  | none => rfl
  | some d => rfl

@[simp] theorem length_trace (e : Encoder) (bs : List UInt8) :
    (e.trace bs).length = bs.length := by
  induction bs generalizing e with
  | nil => rfl
  | cons b bs ih => simp [trace, ih]

theorem after_append (e : Encoder) (cs ds : List Command) :
    e.after (cs ++ ds) = (e.after cs).after ds := by
  simp [after, List.foldl_append]

theorem history_append (e : Encoder) (cs ds : List Command) :
    e.history (cs ++ ds) = e.history cs ++ (e.after cs).history ds := by
  induction cs generalizing e with
  | nil => rfl
  | cons c cs ih => simp [history, after, ih]

@[simp] theorem length_history (e : Encoder) (cs : List Command) :
    (e.history cs).length = cs.length := by
  induction cs generalizing e with
  | nil => rfl
  | cons c cs ih => simp [history, ih]

/-- A stream is a history of bytes only. -/
theorem history_map_byte (e : Encoder) (bs : List UInt8) :
    e.history (bs.map .byte) = e.trace bs := by
  induction bs generalizing e with
  | nil => rfl
  | cons b bs ih => simp [history, trace, apply, ih]

theorem after_map_byte (e : Encoder) (bs : List UInt8) : e.after (bs.map .byte) = e.run bs := by
  simp [after, run, List.foldl_map, apply]

/-!
### Streams by example

A message under a running status, a clock byte inside it, and a block that ends with two bytes.
-/

example : (new Cable.first).packets [0x90, 0x40, 0x7F, 0x41, 0xF8, 0x00] =
    [⟨0x09, ⟨0x90, 0x40, 0x7F⟩⟩, ⟨0x0F, ⟨0xF8, 0, 0⟩⟩, ⟨0x09, ⟨0x90, 0x41, 0x00⟩⟩] := by decide

example : (new Cable.first).packets [0xF0, 0x01, 0x02, 0x03, 0xF7] =
    [⟨0x04, ⟨0xF0, 0x01, 0x02⟩⟩, ⟨0x06, ⟨0x03, 0xF7, 0⟩⟩] := by decide

end MidiBridge.Encoder
