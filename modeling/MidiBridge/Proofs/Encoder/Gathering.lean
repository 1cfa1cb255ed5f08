/-
Module: MidiBridge.Proofs.Encoder.Gathering
Purpose: What an encoder does with a stream that is well formed. Data bytes gather until there are
  enough of them for a packet, and the packet comes with the last one. `Yields` says this of a piece of
  a stream: no packet before its last byte, one packet at its last byte, and the encoder afterwards.
Trusted boundary: none
Main exports: Encoder.View.Yields, Encoder.View.Gathers, Encoder.View.Gathers.yields,
  Encoder.View.gathers_sysEx, Encoder.View.gathers_running, Encoder.View.packets_block
-/
import MidiBridge.Proofs.Encoder.View
import MidiBridge.Proofs.Message

namespace MidiBridge.Encoder.View

/-- The bytes complete one packet, with the last of them, and lead from `v` to `v'`. -/
structure Yields (v : View) (bs : List UInt8) (p : Packet) (v' : View) : Prop where
  emissions_eq : v.emissions bs = List.replicate (bs.length - 1) none ++ [some p]
  run_eq : v.run bs = v'

theorem yields_of_step {v v' : View} {b : UInt8} {p : Packet} {discard? : Option Discard}
    (h : v.step b = ⟨v', some p, discard?⟩) : v.Yields [b] p v' := by
  constructor
  · rw [emissions, h]
    rfl
  · rw [run_cons, h]
    rfl

/-- A byte that completes nothing may stand in front. -/
theorem Yields.cons {v v₁ v' : View} {b : UInt8} {bs : List UInt8} {p : Packet}
    (hrest : v₁.Yields bs p v') (h : v.step b = { view := v₁ }) : v.Yields (b :: bs) p v' := by
  cases bs with
  | nil =>
      have hempty : v₁.emissions [] = List.replicate 0 none ++ [some p] := hrest.emissions_eq
      cases hempty
  | cons x xs =>
      constructor
      · rw [emissions, h, hrest.emissions_eq]
        rfl
      · rw [run_cons, h]
        exact hrest.run_eq

theorem Yields.packets_eq {v v' : View} {bs : List UInt8} {p : Packet} (h : v.Yields bs p v') :
    v.packets bs = [p] := by
  rw [packets, h.emissions_eq, List.filterMap_append, List.filterMap_replicate]
  rfl

/-!
### Gathering data bytes

Inside a block and under a running status data bytes gather in the same way. The two differ in how
many bytes there must be and in the packet that they make.
-/

/-- Data bytes gather until there are `size` of them, whatever is pending. -/
def Gathers (v : View) (size : Nat) (packet : List UInt8 → Packet) : Prop :=
  ∀ bytes b, ByteClass.ofByte b = .data →
    ({ v with pending := bytes } : View).step b = ({ v with pending := bytes } : View).gather size b packet

theorem gathers_sysEx {v : View} {resume : Option UInt8} (h : v.framing = .sysEx resume) :
    v.Gathers 3 (Packet.carrying v.cable .sysExStart) := by
  intro bytes b hb
  simp only [step, hb, collect, h]

theorem gathers_running {v : View} {status : UInt8} {layout : Layout}
    (h : v.framing = .running status) (hlayout : Layout.ofStatus? status = some layout) :
    v.Gathers layout.dataLength fun bytes =>
      Packet.carrying v.cable layout.code (status :: bytes) := by
  intro bytes b hb
  simp only [step, hb, collect, h, hlayout]

section Gathers

variable {v : View} {size : Nat} {packet : List UInt8 → Packet} {bytes : List UInt8} {b : UInt8}

theorem Gathers.step_short (h : v.Gathers size packet) (hb : ByteClass.ofByte b = .data)
    (hshort : bytes.length + 1 < size) :
    ({ v with pending := bytes } : View).step b = { view := { v with pending := bytes ++ [b] } } := by
  rw [h bytes b hb, gather]
  exact if_pos hshort

theorem Gathers.step_full (h : v.Gathers size packet) (hb : ByteClass.ofByte b = .data)
    (hfull : bytes.length + 1 = size) :
    ({ v with pending := bytes } : View).step b
      = ⟨{ v with pending := [] }, some (packet (bytes ++ [b])), none⟩ := by
  rw [h bytes b hb, gather]
  exact if_neg (Nat.not_lt.2 (Nat.le_of_eq hfull.symm))

/-- Data bytes that are exactly what is missing complete the packet. -/
theorem Gathers.yields (h : v.Gathers size packet) {data : List UInt8} (hne : data ≠ [])
    (hdata : ∀ d ∈ data, ByteClass.ofByte d = .data) (hsize : bytes.length + data.length = size) :
    ({ v with pending := bytes } : View).Yields data (packet (bytes ++ data))
      { v with pending := [] } := by
  induction data generalizing bytes with
  | nil => exact absurd rfl hne
  | cons d ds ih =>
      have hd : ByteClass.ofByte d = .data := hdata d (List.mem_cons_self ..)
      cases ds with
      | nil => exact yields_of_step (h.step_full hd hsize)
      | cons x xs =>
          have hmore : (bytes ++ [d]).length + (x :: xs).length = size := by
            rw [List.length_append, Nat.add_assoc, Nat.add_comm [d].length]
            exact hsize
          have hrest := ih (List.cons_ne_nil x xs)
            (fun y hy => hdata y (List.mem_cons_of_mem d hy)) hmore
          rw [List.append_assoc] at hrest
          apply hrest.cons
          apply h.step_short hd
          rw [← hsize]
          exact Nat.add_lt_add_left (Nat.succ_lt_succ (Nat.succ_pos xs.length)) bytes.length

end Gathers

/-!
### Blocks

A block may open anywhere. When it ends, the encoder is outside of blocks again, with the status that
was running before and nothing pending.
-/

theorem step_sysExStart (v : View) :
    v.step Byte.sysExStart
      = { view := ⟨v.cable, v.framing.openSysEx, [Byte.sysExStart]⟩ } := by
  have hclass : ByteClass.ofByte Byte.sysExStart = .sysExStart := rfl
  simp only [step, hclass]

theorem step_sysExEnd {v : View} (h : v.pending.length ≤ 2) :
    v.step Byte.sysExEnd
      = ⟨⟨v.cable, Framing.outside v.framing.status?, []⟩,
          some (Packet.carrying v.cable (CodeIndex.sysExTail (v.pending.length + 1))
            (v.pending ++ [Byte.sysExEnd])), none⟩ := by
  have hclass : ByteClass.ofByte Byte.sysExEnd = .sysExEnd := rfl
  have hroom : v.pending.length < 3 := Nat.lt_succ_of_le h
  simp only [step, hclass, if_pos hroom, finishSysEx, List.length_append, List.length_singleton]

theorem block_end (cable : Cable) {bytes : List UInt8} (h : bytes.length ≤ 2) (last : UInt8) :
    Packet.block cable (bytes ++ [last])
      = [Packet.carrying cable (CodeIndex.sysExTail (bytes.length + 1)) (bytes ++ [last])] := by
  match bytes, h with
  | [], _ => rfl
  | [_], _ => rfl
  | [_, _], _ => rfl

/-- What is left of a block, together with the bytes that are pending, comes out as the packets of a
    block. -/
theorem packets_block (cable : Cable) (resume : Option UInt8) {body bytes : List UInt8}
    (hdata : ∀ b ∈ body, ByteClass.ofByte b = .data) (htwo : bytes.length ≤ 2) :
    packets ⟨cable, .sysEx resume, bytes⟩ (body ++ [Byte.sysExEnd])
        = Packet.block cable (bytes ++ (body ++ [Byte.sysExEnd])) ∧
      run ⟨cable, .sysEx resume, bytes⟩ (body ++ [Byte.sysExEnd])
        = ⟨cable, Framing.outside resume, []⟩ := by
  induction body generalizing bytes with
  | nil =>
      have hend : Yields ⟨cable, .sysEx resume, bytes⟩ [Byte.sysExEnd] _ _ :=
        yields_of_step (step_sysExEnd htwo)
      constructor
      · rw [List.nil_append, hend.packets_eq, block_end cable htwo]
      · exact hend.run_eq
  | cons b body ih =>
      have hb : ByteClass.ofByte b = .data := hdata b (List.mem_cons_self ..)
      have hbody : ∀ x ∈ body, ByteClass.ofByte x = .data := fun x hx =>
        hdata x (List.mem_cons_of_mem b hx)
      have hgathers : Gathers ⟨cable, .sysEx resume, []⟩ 3 _ := gathers_sysEx rfl
      rw [List.cons_append]
      by_cases hshort : bytes.length + 1 < 3
      · have hstep : step ⟨cable, .sysEx resume, bytes⟩ b
            = { view := ⟨cable, .sysEx resume, bytes ++ [b]⟩ } := hgathers.step_short hb hshort
        have hmore : (bytes ++ [b]).length ≤ 2 := by
          rw [List.length_append]
          exact Nat.le_of_lt_succ hshort
        have hrest := ih hbody hmore
        rw [List.append_assoc] at hrest
        constructor
        · rw [packets_cons_none hstep]
          exact hrest.1
        · rw [run_cons, hstep]
          exact hrest.2
      · have hfull : bytes.length + 1 = 3 := by omega
        have hstep : step ⟨cable, .sysEx resume, bytes⟩ b
            = ⟨⟨cable, .sysEx resume, []⟩,
                some (Packet.carrying cable .sysExStart (bytes ++ [b])), none⟩ :=
          hgathers.step_full hb hfull
        have hempty : ([] : List UInt8).length ≤ 2 := Nat.zero_le 2
        have hrest := ih hbody hempty
        have hblock : Packet.block cable (bytes ++ b :: (body ++ [Byte.sysExEnd]))
            = Packet.carrying cable .sysExStart (bytes ++ [b])
              :: Packet.block cable (body ++ [Byte.sysExEnd]) := by
          match bytes, hfull with
          | [x, y], _ =>
              apply Packet.block_of_more
              exact List.append_ne_nil_of_right_ne_nil body (List.cons_ne_nil _ _)
        constructor
        · rw [packets_cons_some hstep, hblock, hrest.1, List.nil_append]
        · rw [run_cons, hstep]
          exact hrest.2

end MidiBridge.Encoder.View
