/-
Module: MidiBridge.Proofs.Encoder.Losses
Purpose: What becomes of the data bytes of a stream. Each of them is in a packet, or still pending, or named in
  a line of the log, or was pending when a byte came that interrupts: a status byte, a system common message of
  one byte, or the start of a block. The numbers agree exactly, for every stream, because the lists agree for
  every byte. So only what is interrupted is lost without a line, and of this there is little at a time: one
  byte in a message with a layout, two in a block, three under an undefined status.
Trusted boundary: human-reviewed spec
Main exports: Encoder.Discard.isDataByte, Encoder.Discard.listed, Encoder.Discard.isDataByte_iff,
  Framing.mostLost, Encoder.Interruption, Encoder.interruptions, Encoder.dataIn_outcome, Encoder.dataIn_perm,
  Encoder.Accounts, Encoder.data_bytes_accounted
-/
import MidiBridge.Proofs.Encoder.Provenance

namespace MidiBridge

/-- How many data bytes can be pending in each framing. -/
def Framing.mostLost : Framing → Nat
  | .idle => 0
  | .running status =>
      match Layout.ofStatus? status with
      | some _ => 1
      | none => 3
  | .sysEx _ => 2

namespace Encoder

open Byte (dataIn dataIn_append interruptedBy)

namespace Discard

/-- The line is about a single data byte, with or without a status. -/
def isDataByte : Discard → Bool
  | .withoutStatus _ | .undefinedMessage _ _ => true
  | .beforeSysExEnd _ => false

/-- The bytes listed in a line about pending bytes. -/
def listed : Discard → List UInt8
  | .withoutStatus _ | .undefinedMessage _ _ => []
  | .beforeSysExEnd pending => pending

/-- The lines about a single data byte are told apart by how they begin. -/
theorem isDataByte_iff (d : Discard) :
    d.isDataByte = true ↔ ∃ rest, d.message = "Discarding data byte " ++ rest := by
  cases d with
  | withoutStatus byte => exact iff_of_true rfl ⟨_, String.append_assoc⟩
  | undefinedMessage byte status =>
      have hmessage : (undefinedMessage byte status).message
          = "Discarding data byte "
            ++ (Hex.marked byte ++ (" of undefined message " ++ Hex.marked status)) := by
        show "Discarding data byte " ++ Hex.marked byte ++ " of undefined message "
          ++ Hex.marked status = _
        rw [String.append_assoc, String.append_assoc]
      exact iff_of_true rfl ⟨_, hmessage⟩
  | beforeSysExEnd pending =>
      refine iff_of_false Bool.false_ne_true ?_
      rintro ⟨rest, h⟩
      have hsame : "Discarding pending bytes " ++ Hex.list pending ++ " before SysEx end"
          = "Discarding data byte " ++ rest := h
      -- The texts differ behind their first word.
      have hplace := congrArg (fun text => text.toList[11]?) hsame
      simp at hplace

/-- A line is about a single byte, or about those that it lists. -/
theorem length_bytes (d : Discard) :
    d.bytes.length = (if d.isDataByte then 1 else 0) + d.listed.length := by
  cases d with
  | withoutStatus byte => rfl
  | undefinedMessage byte status => rfl
  | beforeSysExEnd pending => exact (Nat.zero_add _).symm

end Discard

/-- Data bytes that were pending when a byte interrupted them, and the framing in which they were. -/
structure Interruption where
  framing : Framing
  lost : List UInt8
deriving DecidableEq, Repr, Inhabited

/-- What each byte of a stream interrupts, for those bytes that interrupt. -/
def interruptions (e : Encoder) : List UInt8 → List Interruption
  | [] => []
  | b :: bs =>
      (if (ByteClass.ofByte b).interrupts then [⟨e.framing, dataIn e.pending⟩] else [])
        ++ interruptions (e.step b).encoder bs

/-- The data bytes of a stream are accounted for. -/
structure Accounts (e : Encoder) (bs : List UInt8) : Prop where
  /-- The data bytes of the stream are as many as those in the packets, those still pending, the lines about a
      single data byte, the bytes listed in the other lines, and what was interrupted. -/
  length_eq : (dataIn bs).length
    = (dataIn (Packet.stream (e.packets bs))).length + (dataIn (e.run bs).pending).length
      + (e.discards bs).countP Discard.isDataByte
      + ((e.discards bs).flatMap Discard.listed).length
      + ((e.interruptions bs).flatMap Interruption.lost).length
  /-- They are not only as many, but the same bytes. -/
  perm : (dataIn bs).Perm
    (dataIn (Packet.stream (e.packets bs)) ++ dataIn (e.run bs).pending
      ++ (e.discards bs).flatMap Discard.bytes ++ (e.interruptions bs).flatMap Interruption.lost)
  lost_le : ∀ x ∈ e.interruptions bs, x.lost.length ≤ x.framing.mostLost
  /-- Whatever byte comes next: what is not in its packet, not kept and not in its line was interrupted. -/
  next : ∀ b : UInt8,
    let outcome := (e.run bs).step b
    dataIn (outcome.packet?.elim [] Packet.payload ++ outcome.encoder.pending)
        ++ outcome.discard?.elim [] Discard.bytes ++ interruptedBy b (e.run bs).pending
      = dataIn ((e.run bs).pending ++ [b])

/-!
### One byte
-/

theorem dataIn_outcome {e : Encoder} (h : e.Sound) (b : UInt8) :
    dataIn ((e.step b).packet?.elim [] Packet.payload ++ (e.step b).encoder.pending)
        ++ (e.step b).discard?.elim [] Discard.bytes ++ interruptedBy b e.pending
      = dataIn (e.pending ++ [b]) := by
  have hview := View.dataIn_step_eq (v := e.view) h.fits b
  rw [← view_step h b] at hview
  exact hview

theorem length_dataIn_le {framing : Framing} {bytes : List UInt8} (h : framing.Fits bytes) :
    (dataIn bytes).length ≤ framing.mostLost := by
  have hle : (dataIn bytes).length ≤ bytes.length := List.length_filter_le _ _
  cases framing with
  | idle =>
      have hnothing : bytes = [] := h
      rw [hnothing]
      exact Nat.le_refl 0
  | sysEx resume => exact Nat.le_trans hle h.2.1
  | running status =>
      have hcount := h.2.2
      rw [Framing.mostLost]
      cases hlayout : Layout.ofStatus? status with
      | none =>
          rw [hlayout] at hcount
          exact Nat.le_trans hle hcount
      | some layout =>
          rw [hlayout] at hcount
          have hfew : bytes.length < layout.dataLength := hcount
          have htwo := (Layout.dataLength_bounds hlayout).2
          show (dataIn bytes).length ≤ 1
          omega

/-!
### Streams

Each list of the account grows with a byte by what the byte adds to it.
-/

theorem stream_packets_cons (e : Encoder) (b : UInt8) (bs : List UInt8) :
    Packet.stream (e.packets (b :: bs))
      = (e.step b).packet?.elim [] Packet.payload ++ Packet.stream ((e.step b).encoder.packets bs) := by
  rw [packets_cons]
  cases (e.step b).packet? with
  | none => rfl
  | some p => exact congrArg (· ++ _) (Packet.toList_decode p)

theorem bytes_discards_cons (e : Encoder) (b : UInt8) (bs : List UInt8) :
    (e.discards (b :: bs)).flatMap Discard.bytes
      = (e.step b).discard?.elim [] Discard.bytes
        ++ ((e.step b).encoder.discards bs).flatMap Discard.bytes := by
  rw [discards_cons]
  cases (e.step b).discard? with
  | none => rfl
  | some d => rfl

theorem lost_interruptions_cons (e : Encoder) (b : UInt8) (bs : List UInt8) :
    (e.interruptions (b :: bs)).flatMap Interruption.lost
      = interruptedBy b e.pending
        ++ ((e.step b).encoder.interruptions bs).flatMap Interruption.lost := by
  rw [interruptions, List.flatMap_append, interruptedBy]
  split
  · exact congrArg (· ++ _) (List.append_nil _)
  · rfl

/-- The data bytes that were pending and those of a stream, all in their places. -/
theorem dataIn_perm {e : Encoder} (h : e.Sound) (bs : List UInt8) :
    (dataIn (e.pending ++ bs)).Perm
      (dataIn (Packet.stream (e.packets bs)) ++ dataIn (e.run bs).pending
        ++ (e.discards bs).flatMap Discard.bytes ++ (e.interruptions bs).flatMap Interruption.lost) := by
  induction bs generalizing e with
  | nil =>
      rw [List.append_nil]
      exact List.Perm.of_eq ((List.append_nil _).trans (List.append_nil _)).symm
  | cons b bs ih =>
      have hstep := dataIn_outcome h b
      have hrest := List.perm_iff_count.1 (ih (sound_step h b))
      rw [stream_packets_cons, bytes_discards_cons, lost_interruptions_cons, run_cons,
        List.append_cons, dataIn_append, ← hstep]
      -- The same lists stand on both sides, in another order.
      refine List.perm_iff_count.2 fun x => ?_
      have hcount := hrest x
      simp only [dataIn_append, List.count_append] at hcount ⊢
      omega

theorem length_bytes_discards (ds : List Discard) :
    (ds.flatMap Discard.bytes).length
      = ds.countP Discard.isDataByte + (ds.flatMap Discard.listed).length := by
  induction ds with
  | nil => rfl
  | cons d ds ih =>
      rw [List.flatMap_cons, List.flatMap_cons, List.length_append, List.length_append, ih,
        d.length_bytes, List.countP_cons]
      omega

theorem lost_le_of_mem_interruptions {e : Encoder} (h : e.Sound) {bs : List UInt8} {x : Interruption}
    (hx : x ∈ e.interruptions bs) : x.lost.length ≤ x.framing.mostLost := by
  induction bs generalizing e with
  | nil => cases hx
  | cons b bs ih =>
      rcases List.mem_append.1 hx with hnow | hlater
      · split at hnow
        · rw [List.mem_singleton.1 hnow]
          exact length_dataIn_le h.fits
        · cases hnow
      · exact ih (sound_step h b) hlater

/-- A new encoder accounts for the data bytes of every stream. -/
theorem data_bytes_accounted (cable : Cable) (bs : List UInt8) : (new cable).Accounts bs := by
  have hsound := sound_new cable
  have hperm := dataIn_perm hsound bs
  rw [pending_new, List.nil_append] at hperm
  constructor
  case length_eq =>
    rw [hperm.length_eq, List.length_append, List.length_append, List.length_append,
      length_bytes_discards]
    omega
  case perm => exact hperm
  case lost_le => exact fun x hx => lost_le_of_mem_interruptions hsound hx
  case next => exact fun b => dataIn_outcome (hsound.run bs) b

/-- A data byte before any status, four under an undefined status and the end of a block, then a message with
    a block in its middle and a status in the middle of the block. -/
example :
    let bs : List UInt8 :=
      [0x01, 0xF9, 0x02, 0x03, 0x04, 0x05, 0xF7, 0x90, 0x06, 0xF0, 0x07, 0x80, 0x08, 0xF7, 0x09]
    let e := new Cable.first
    (dataIn bs).length = 9 ∧ dataIn (Packet.stream (e.packets bs)) = [0x08] ∧
      (e.run bs).pending = [0x09] ∧
      e.discards bs =
        [.withoutStatus 0x01, .undefinedMessage 0x05 0xF9, .beforeSysExEnd [0x02, 0x03, 0x04]] ∧
      e.interruptions bs =
        [⟨.idle, []⟩, ⟨.running 0xF9, []⟩, ⟨.running 0x90, [0x06]⟩, ⟨.sysEx (some 0x90), [0x07]⟩] := by
  decide

end Encoder

end MidiBridge
