/-
Module: MidiBridge.Port.Dispatch
Purpose: The way out. Queued packets are sent, front first, for as long as the way is open. A packet
  leaves the queue only after it was sent, so a failed attempt loses nothing: the packet stays at the
  front and is the next to be tried.
Trusted boundary: none
Main exports: Port.Dispatch, Port.dispatch, Port.dispatch_of_closed, Port.dispatch_of_empty,
  Port.dispatch_of_error, Port.dispatch_of_sent, Port.dispatch_stops
-/
import MidiBridge.Log
import MidiBridge.Ring.Basic
import MidiBridge.Transport.Basic

namespace MidiBridge.Port

variable {τ : Type} {o : Nat}

/-- What came of sending queued packets. -/
structure Dispatch (τ : Type) (o : Nat) where
  outcome : Except SendError Unit
  transport : τ
  outbound : Ring 8 o Packet
  /-- What happened, in order. A failure is not among it; `outcome` has it. -/
  log : List LogEntry

/-- Sends queued packets until the way out is closed, the queue is empty or an attempt fails. -/
def dispatch [Transport τ] (transport : τ) (outbound : Ring 8 o Packet) : Dispatch τ o :=
  if Transport.ready transport then
    match h : outbound.peek with
    | none => ⟨.ok (), transport, outbound, []⟩
    | some p =>
        match Transport.send transport p with
        | (.error e, transport') => ⟨.error e, transport', outbound, []⟩
        | (.ok (), transport') =>
            have : outbound.advance.size < outbound.size := Ring.size_advance_lt h
            let rest := dispatch transport' outbound.advance
            { rest with log := .sent p :: rest.log }
  else
    ⟨.ok (), transport, outbound, []⟩
termination_by outbound.size

/-!
### One packet more

The equations of `dispatch`, without the bookkeeping of its termination.
-/

section Equations

variable [Transport τ] {transport transport' : τ} {outbound : Ring 8 o Packet} {p : Packet}

theorem dispatch_of_closed (hready : Transport.ready transport = false) :
    dispatch transport outbound = ⟨.ok (), transport, outbound, []⟩ := by
  rw [dispatch, if_neg (by simp [hready])]

theorem dispatch_of_empty (hready : Transport.ready transport = true) (hpeek : outbound.peek = none) :
    dispatch transport outbound = ⟨.ok (), transport, outbound, []⟩ := by
  rw [dispatch, if_pos hready]
  split
  · rfl
  · next hsome => rw [hpeek] at hsome; cases hsome

theorem dispatch_of_error {e : SendError} (hready : Transport.ready transport = true)
    (hpeek : outbound.peek = some p) (hsend : Transport.send transport p = (.error e, transport')) :
    dispatch transport outbound = ⟨.error e, transport', outbound, []⟩ := by
  rw [dispatch, if_pos hready]
  split
  · next hnone => rw [hpeek] at hnone; cases hnone
  · next q hsome =>
      rw [hpeek] at hsome
      cases hsome
      rw [hsend]

theorem dispatch_of_sent (hready : Transport.ready transport = true)
    (hpeek : outbound.peek = some p) (hsend : Transport.send transport p = (.ok (), transport')) :
    dispatch transport outbound =
      { dispatch transport' outbound.advance with
        log := .sent p :: (dispatch transport' outbound.advance).log } := by
  rw [dispatch, if_pos hready]
  split
  · next hnone => rw [hpeek] at hnone; cases hnone
  · next q hsome =>
      rw [hpeek] at hsome
      cases hsome
      rw [hsend]

end Equations

/-- Sending does not close the way out. -/
theorem delay_dispatch [Transport τ] (transport : τ) (outbound : Ring 8 o Packet) :
    Transport.delay (dispatch transport outbound).transport ≤ Transport.delay transport := by
  fun_induction dispatch transport outbound with
  | case1 transport outbound hready h => exact Nat.le_refl _
  | case2 transport outbound hready p h e transport' hsend =>
      have hdelay := Transport.delay_send transport p
      rw [hsend] at hdelay
      exact hdelay
  | case3 transport outbound hready p h transport' hsend hsize rest ih =>
      have hdelay := Transport.delay_send transport p
      rw [hsend] at hdelay
      exact Nat.le_trans ih hdelay
  | case4 transport outbound hready => exact Nat.le_refl _

/-- Sending stops without a failure only if nothing is queued any more or the way out is closed. -/
theorem dispatch_stops [Transport τ] (transport : τ) (outbound : Ring 8 o Packet)
    (hok : (dispatch transport outbound).outcome = .ok ()) :
    (dispatch transport outbound).outbound.isEmpty = true ∨
      Transport.ready (dispatch transport outbound).transport = false := by
  fun_induction dispatch transport outbound with
  | case1 transport outbound hready h =>
      refine Or.inl ?_
      unfold Ring.peek at h
      split at h
      · assumption
      · cases h
  | case2 transport outbound hready p h e transport' hsend => cases hok
  | case3 transport outbound hready p h transport' hsend hsize rest ih => exact ih hok
  | case4 transport outbound hready => exact Or.inr (by simpa using hready)

end MidiBridge.Port
