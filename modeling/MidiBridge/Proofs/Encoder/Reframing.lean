/-
Module: MidiBridge.Proofs.Encoder.Reframing
Purpose: Packets that an encoder finds again. Decoding a packet forgets its code and its padding, so a
  list of packets can come back only if code and padding follow from the bytes. `Shape` lists the
  packets for which this is so; which of them may stand at a place depends on whether a block is open
  there. Between two such packets nothing is pending, and the encoder is inside a block exactly if one
  is open. With that invariant each packet is rebuilt from its own payload, at the last byte.
Trusted boundary: human-reviewed spec
Main exports: Packet.Shape, Packet.blockAfter, Packet.Canonical, Encoder.View.Between,
  Encoder.View.yields_of_shape, Encoder.emissions_stream_of_canonical
-/
import MidiBridge.Proofs.Encoder.RoundTrip

namespace MidiBridge

namespace Packet

/-- `Shape inBlock code bytes`: a packet with this code and payload may stand where a block is open
    (`inBlock`) or not. Messages of one byte may stand anywhere, and so may the beginning of a block and
    its end in one byte. Data goes on only inside a block, and other messages stand only
    outside. -/
inductive Shape : Bool → CodeIndex → List UInt8 → Prop where
  | realTime {inBlock} (b : UInt8) (clock : b = 0xF8 ∨ (0xFA ≤ b ∧ b ≤ 0xFC) ∨ 0xFE ≤ b) :
      Shape inBlock .byte [b]
  | single {inBlock} (b : UInt8) (common : 0xF4 ≤ b ∧ b ≤ 0xF6) : Shape inBlock .singleByte [b]
  | blockStart {inBlock} (a b : UInt8) (ha : a < 0x80) (hb : b < 0x80) :
      Shape inBlock .sysExStart [Byte.sysExStart, a, b]
  | block2 {inBlock} : Shape inBlock .sysExEnd2 [Byte.sysExStart, Byte.sysExEnd]
  | block3 {inBlock} (a : UInt8) (ha : a < 0x80) :
      Shape inBlock .sysExEnd3 [Byte.sysExStart, a, Byte.sysExEnd]
  | blockEnd1 {inBlock} : Shape inBlock .singleByte [Byte.sysExEnd]
  | blockPart (a b c : UInt8) (ha : a < 0x80) (hb : b < 0x80) (hc : c < 0x80) :
      Shape true .sysExStart [a, b, c]
  | blockEnd2 (a : UInt8) (ha : a < 0x80) : Shape true .sysExEnd2 [a, Byte.sysExEnd]
  | blockEnd3 (a b : UInt8) (ha : a < 0x80) (hb : b < 0x80) :
      Shape true .sysExEnd3 [a, b, Byte.sysExEnd]
  | message (status : UInt8) (data : List UInt8) (introduces : Byte.Introduces status)
      (complete : data.length = Byte.dataCount status) (isData : ∀ b ∈ data, b < 0x80) :
      Shape false (CodeIndex.ofStatus status) (status :: data)

/-- Whether a block is open after a packet: from a packet with code 4 that begins with `0xF0` up to the
    next one that ends with `0xF7`. -/
def blockAfter (inBlock : Bool) (code : CodeIndex) (bytes : List UInt8) : Bool :=
  if code = .sysExStart ∧ bytes.head? = some Byte.sysExStart then true
  else if bytes.getLast? = some Byte.sysExEnd then false
  else inBlock

/-- A list of packets on one cable, with zero padding, each with a shape for its place. -/
def Canonical (cable : Cable) : Bool → List Packet → Prop
  | _, [] => True
  | inBlock, p :: ps =>
      p.cable = cable ∧ p.data = Triple.ofList p.payload ∧ Shape inBlock p.code p.payload ∧
        Canonical cable (blockAfter inBlock p.code p.payload) ps

/-- A packet that neither begins nor ends a block leaves it as it is. -/
theorem blockAfter_eq_self {inBlock : Bool} {code : CodeIndex} {bytes : List UInt8}
    (hstart : code = .sysExStart → ∀ b ∈ bytes.head?, b ≠ Byte.sysExStart)
    (hend : ∀ b ∈ bytes.getLast?, b ≠ Byte.sysExEnd) : blockAfter inBlock code bytes = inBlock := by
  rw [blockAfter, if_neg, if_neg]
  · intro hlast
    exact hend Byte.sysExEnd hlast rfl
  · intro hfirst
    exact hstart hfirst.1 Byte.sysExStart hfirst.2 rfl

end Packet

theorem Byte.ne_of_data {b : UInt8} (h : b < 0x80) : b ≠ Byte.sysExStart ∧ b ≠ Byte.sysExEnd := by
  revert b
  rw [Byte.forall_iff]
  decide

theorem Byte.ne_of_introduces {status : UInt8} (h : Byte.Introduces status) :
    status ≠ Byte.sysExEnd := by
  intro hend
  rw [hend] at h
  exact absurd h (by decide)

theorem CodeIndex.ofStatus_ne_sysExStart {status : UInt8} (h : Byte.Introduces status) :
    CodeIndex.ofStatus status ≠ .sysExStart := by
  revert status
  rw [Byte.forall_iff]
  decide

namespace Packet

/-- A packet of one byte that is not the end of a block neither opens nor closes one. -/
theorem blockAfter_single (inBlock : Bool) {code : CodeIndex} {b : UInt8} (hcode : code ≠ .sysExStart)
    (hend : b ≠ Byte.sysExEnd) : blockAfter inBlock code [b] = inBlock := by
  apply blockAfter_eq_self
  · intro hstart
    exact absurd hstart hcode
  · intro last hlast
    cases hlast
    exact hend

theorem blockAfter_message (inBlock : Bool) {status : UInt8} {data : List UInt8}
    (introduces : Byte.Introduces status) (isData : ∀ b ∈ data, b < 0x80) :
    blockAfter inBlock (CodeIndex.ofStatus status) (status :: data) = inBlock := by
  apply blockAfter_eq_self
  · intro hcode
    exact absurd hcode (CodeIndex.ofStatus_ne_sysExStart introduces)
  · intro last hlast
    rcases List.mem_cons.1 (List.mem_of_getLast? hlast) with rfl | hdata
    · exact Byte.ne_of_introduces introduces
    · exact (Byte.ne_of_data (isData last hdata)).2

/-- Data inside a block belongs to the block and does not end it. -/
theorem blockAfter_data (inBlock : Bool) (code : CodeIndex) {bytes : List UInt8}
    (isData : ∀ b ∈ bytes, b < 0x80) : blockAfter inBlock code bytes = inBlock := by
  apply blockAfter_eq_self
  · intro _ first hfirst
    exact (Byte.ne_of_data (isData first (List.mem_of_mem_head? hfirst))).1
  · intro last hlast
    exact (Byte.ne_of_data (isData last (List.mem_of_getLast? hlast))).2

end Packet

namespace Encoder

namespace View

/-- The encoder stands between two packets: nothing is pending, and it is inside a block exactly if one
    is open. -/
structure Between (cable : Cable) (inBlock : Bool) (v : View) : Prop where
  cable_eq : v.cable = cable
  pending_eq : v.pending = []
  block_eq : v.framing.isSysEx = inBlock

theorem Between.eq_outside {cable : Cable} {v : View} (h : Between cable false v) :
    v = ⟨cable, Framing.outside v.framing.status?, []⟩ := by
  rcases v with ⟨c, framing, bytes⟩
  rcases h with ⟨hcable, hpending, hblock⟩
  cases hcable
  cases hpending
  cases framing with
  | idle => rfl
  | running status => rfl
  | sysEx resume => cases hblock

theorem Between.eq_sysEx {cable : Cable} {v : View} (h : Between cable true v) :
    v = ⟨cable, .sysEx v.framing.status?, []⟩ := by
  rcases v with ⟨c, framing, bytes⟩
  rcases h with ⟨hcable, hpending, hblock⟩
  cases hcable
  cases hpending
  cases framing with
  | idle => cases hblock
  | running status => cases hblock
  | sysEx resume => rfl

theorem between_outside (cable : Cable) (resume : Option UInt8) :
    Between cable false ⟨cable, Framing.outside resume, []⟩ :=
  ⟨rfl, rfl, Framing.isSysEx_outside resume⟩

/-- Data bytes and the end of the block, when there are at most two bytes before the end. -/
theorem yields_blockEnd (cable : Cable) (resume : Option UInt8) (bytes : List UInt8)
    {data : List UInt8} (isData : ∀ b ∈ data, b < 0x80) (htwo : bytes.length + data.length ≤ 2) :
    Yields ⟨cable, .sysEx resume, bytes⟩ (data ++ [Byte.sysExEnd])
      (Packet.carrying cable (CodeIndex.sysExTail (bytes.length + data.length + 1))
        (bytes ++ (data ++ [Byte.sysExEnd])))
      ⟨cable, Framing.outside resume, []⟩ := by
  induction data generalizing bytes with
  | nil => exact yields_of_step (step_sysExEnd htwo)
  | cons d ds ih =>
      have hlength : (bytes ++ [d]).length + ds.length = bytes.length + (d :: ds).length := by
        rw [List.length_append, Nat.add_assoc, Nat.add_comm [d].length]
        rfl
      have hrest := ih (bytes ++ [d]) (fun b hb => isData b (List.mem_cons_of_mem d hb))
        (Nat.le_trans (Nat.le_of_eq hlength) htwo)
      rw [hlength, List.append_assoc] at hrest
      have hgathers : Gathers ⟨cable, .sysEx resume, []⟩ 3 _ := gathers_sysEx rfl
      have hd : ByteClass.ofByte d = .data :=
        ByteClass.ofByte_of_isData isData d (List.mem_cons_self ..)
      have hshort : bytes.length + 1 < 3 := by
        rw [List.length_cons] at htwo
        omega
      exact hrest.cons (hgathers.step_short hd hshort)

/-- A packet with a shape for its place comes out again at the last byte of its payload. -/
theorem yields_of_shape {cable : Cable} {inBlock : Bool} {v : View} {code : CodeIndex}
    {bytes : List UInt8} (h : Between cable inBlock v) (hshape : Packet.Shape inBlock code bytes) :
    ∃ v', v.Yields bytes (Packet.carrying cable code bytes) v' ∧
      Between cable (Packet.blockAfter inBlock code bytes) v' := by
  -- A block may begin in both cases, and what was running before comes back after it.
  have hstart : v.step Byte.sysExStart
      = { view := ⟨cable, .sysEx v.framing.status?, [Byte.sysExStart]⟩ } := by
    rw [step_sysExStart, h.cable_eq]
    rfl
  cases hshape with
  | realTime b clock =>
      have hstep := step_realTime v ((Byte.isRealTime_iff b).2 clock)
      have hend : b ≠ Byte.sysExEnd := by
        rintro rfl
        exact absurd clock (by decide)
      rw [h.cable_eq] at hstep
      rw [Packet.blockAfter_single inBlock CodeIndex.noConfusion hend]
      exact ⟨v, yields_of_step hstep, h⟩
  | single b common =>
      have hclass := (ByteClass.ofByte_eq_singleCommon_iff b).2 common
      have hstep : v.step b = ⟨v, some (Packet.carrying cable .singleByte [b]), none⟩ := by
        simp only [step, hclass, ← h.cable_eq, ← h.pending_eq]
      have hend : b ≠ Byte.sysExEnd := by
        rintro rfl
        exact absurd common (by decide)
      rw [Packet.blockAfter_single inBlock CodeIndex.noConfusion hend]
      exact ⟨v, yields_of_step hstep, h⟩
  | blockStart a b ha hb =>
      have hdata : ∀ d ∈ [a, b], d < 0x80 := by
        simp [ha, hb]
      have hgathers : Gathers ⟨cable, .sysEx v.framing.status?, []⟩ 3 _ := gathers_sysEx rfl
      have hsize : [Byte.sysExStart].length + [a, b].length = 3 := rfl
      have hyields := hgathers.yields (List.cons_ne_nil a [b]) (ByteClass.ofByte_of_isData hdata)
        hsize
      exact ⟨_, hyields.cons hstart, rfl, rfl, rfl⟩
  | block2 =>
      have hdata : ∀ d ∈ ([] : List UInt8), d < 0x80 := fun d hd => (List.not_mem_nil hd).elim
      have hend := yields_blockEnd cable v.framing.status? [Byte.sysExStart] hdata (Nat.le_succ 1)
      exact ⟨_, hend.cons hstart, between_outside cable _⟩
  | block3 a ha =>
      have hend := yields_blockEnd cable v.framing.status? [Byte.sysExStart]
        (List.forall_mem_singleton.2 ha) (Nat.le_refl 2)
      exact ⟨_, hend.cons hstart, between_outside cable _⟩
  | blockEnd1 =>
      have htwo : v.pending.length ≤ 2 := by
        rw [h.pending_eq]
        exact Nat.zero_le 2
      have hstep := step_sysExEnd htwo
      rw [h.cable_eq, h.pending_eq] at hstep
      exact ⟨_, yields_of_step hstep, between_outside cable _⟩
  | blockPart a b c ha hb hc =>
      have hdata : ∀ d ∈ [a, b, c], d < 0x80 := by
        simp [ha, hb, hc]
      have hgathers : Gathers ⟨cable, .sysEx v.framing.status?, []⟩ 3 _ := gathers_sysEx rfl
      have hsize : ([] : List UInt8).length + [a, b, c].length = 3 := rfl
      have hyields := hgathers.yields (List.cons_ne_nil a [b, c])
        (ByteClass.ofByte_of_isData hdata) hsize
      rw [h.eq_sysEx, Packet.blockAfter_data true .sysExStart hdata]
      exact ⟨_, hyields, rfl, rfl, rfl⟩
  | blockEnd2 a ha =>
      have hend := yields_blockEnd cable v.framing.status? []
        (List.forall_mem_singleton.2 ha) (Nat.le_succ 1)
      rw [h.eq_sysEx]
      exact ⟨_, hend, between_outside cable _⟩
  | blockEnd3 a b ha hb =>
      have hdata : ∀ d ∈ [a, b], d < 0x80 := by
        simp [ha, hb]
      have hend := yields_blockEnd cable v.framing.status? [] hdata (Nat.le_refl 2)
      rw [h.eq_sysEx]
      exact ⟨_, hend, between_outside cable _⟩
  | message status data introduces complete isData =>
      have hstatus := step_status cable v.framing.status? []
        (ByteClass.ofByte_of_introduces introduces)
      have hyields := (yields_message cable introduces complete isData).cons hstatus
      rw [h.eq_outside, Packet.blockAfter_message false introduces isData]
      exact ⟨_, hyields, between_outside cable (some status)⟩

/-- Canonical packets come out of their own stream one after the other, each at its last byte. -/
theorem emissions_canonical {cable : Cable} {inBlock : Bool} {v : View} {ps : List Packet}
    (h : Between cable inBlock v) (hps : Packet.Canonical cable inBlock ps) :
    v.emissions (Packet.stream ps)
        = ps.flatMap (fun p => List.replicate (p.payload.length - 1) none ++ [some p]) ∧
      (v.run (Packet.stream ps)).pending = [] := by
  induction ps generalizing inBlock v with
  | nil => exact ⟨rfl, h.pending_eq⟩
  | cons p ps ih =>
      obtain ⟨hcable, hpadding, hshape, hrest⟩ := hps
      obtain ⟨v', hyields, hbetween⟩ := yields_of_shape h hshape
      have hp : Packet.carrying cable p.code p.payload = p := by
        rw [← hcable]
        exact (Packet.eq_carrying hpadding).symm
      rw [hp] at hyields
      obtain ⟨hemissions, hpending⟩ := ih hbetween hrest
      rw [Packet.stream_cons]
      constructor
      · rw [emissions_append, hyields.emissions_eq, hyields.run_eq, hemissions]
        rfl
      · rw [run_append, hyields.run_eq]
        exact hpending

theorem packets_canonical {cable : Cable} {inBlock : Bool} {v : View} {ps : List Packet}
    (h : Between cable inBlock v) (hps : Packet.Canonical cable inBlock ps) :
    v.packets (Packet.stream ps) = ps := by
  rw [packets, (emissions_canonical h hps).1, List.filterMap_flatMap]
  simp

end View

/-- Canonical packets survive the way through serial bytes. The encoder emits exactly these packets, each
    of them with the last byte of its payload and none before, and nothing is pending at the end. -/
theorem emissions_stream_of_canonical (cable : Cable) {ps : List Packet}
    (h : Packet.Canonical cable false ps) :
    (new cable).emissions (Packet.stream ps)
        = ps.flatMap (fun p => List.replicate (p.payload.length - 1) none ++ [some p]) ∧
      (new cable).packets (Packet.stream ps) = ps ∧
      ((new cable).run (Packet.stream ps)).pending = [] := by
  have hsound := sound_new cable
  have hbetween : View.Between cable false (new cable).view := View.between_outside cable none
  obtain ⟨hemissions, hpending⟩ := View.emissions_canonical hbetween h
  refine ⟨?_, ?_, ?_⟩
  · rw [emissions_eq hsound]
    exact hemissions
  · rw [packets_eq hsound, View.packets, hemissions, List.filterMap_flatMap]
    simp
  · have hview := congrArg View.pending (view_run hsound (Packet.stream ps))
    exact hview.trans hpending

/-- A clock byte inside a block, a block that begins again before it has ended, and a song position
    after it. -/
theorem emissions_stream_of_restarted_block :
    let ps : List Packet :=
      [⟨0x34, ⟨0xF0, 0x01, 0x02⟩⟩, ⟨0x3F, ⟨0xF8, 0, 0⟩⟩, ⟨0x34, ⟨0x03, 0x04, 0x05⟩⟩,
        ⟨0x34, ⟨0xF0, 0x06, 0x07⟩⟩, ⟨0x36, ⟨0x08, 0xF7, 0⟩⟩, ⟨0x33, ⟨0xF2, 0x10, 0x20⟩⟩]
    let cable := Cable.ofNibble 3
    Packet.Canonical cable false ps ∧
      (new cable).emissions (Packet.stream ps)
        = ps.flatMap (fun p => List.replicate (p.payload.length - 1) none ++ [some p]) ∧
      (new cable).packets (Packet.stream ps) = ps ∧
      ((new cable).run (Packet.stream ps)).pending = [] := by
  intro ps cable
  have hcanonical : Packet.Canonical cable false ps := by
    refine ⟨rfl, rfl, .blockStart 0x01 0x02 (by decide) (by decide), ?_⟩
    refine ⟨rfl, rfl, .realTime 0xF8 (by decide), ?_⟩
    refine ⟨rfl, rfl, .blockPart 0x03 0x04 0x05 (by decide) (by decide) (by decide), ?_⟩
    refine ⟨rfl, rfl, .blockStart 0x06 0x07 (by decide) (by decide), ?_⟩
    refine ⟨rfl, rfl, .blockEnd2 0x08 (by decide), ?_⟩
    refine ⟨rfl, rfl, .message 0xF2 [0x10, 0x20] (by decide) (by decide) (by simp), ?_⟩
    trivial
  exact ⟨hcanonical, emissions_stream_of_canonical cable hcanonical⟩

end Encoder

end MidiBridge
