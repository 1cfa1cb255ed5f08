/-
Module: MidiBridge.Proofs.Encoder.WellFormed
Purpose: Which packets an encoder emits, over all streams, the malformed ones included. Such a packet is on
  the cable of the encoder, has nothing but zeros behind its payload, ends with the byte that completed
  it, and has one of the shapes that a packet of a message can have inside or outside of a block. Nothing
  is left out of this description: every packet that fits it is emitted by some encoder.
Trusted boundary: human-reviewed spec
Main exports: Packet.WellFormed, Packet.Shape.length_eq, Packet.WellFormed.eq_carrying,
  Encoder.View.Completes.wellFormed, Encoder.Sound.wellFormed, Encoder.exists_emits_of_wellFormed,
  Encoder.emits_iff_wellFormed
-/
import MidiBridge.Proofs.Encoder.Invariant
import MidiBridge.Proofs.Encoder.Reframing

namespace MidiBridge

theorem ByteClass.ofByte_eq_sysExEnd_iff (b : UInt8) :
    ByteClass.ofByte b = .sysExEnd ↔ b = Byte.sysExEnd := by
  revert b
  rw [Byte.forall_iff]
  decide

/-- A status byte with a layout introduces a message. -/
theorem Byte.introduces_of_layout {status : UInt8} {layout : Layout}
    (hclass : ByteClass.ofByte status = .status) (hlayout : Layout.ofStatus? status = some layout) :
    Byte.Introduces status := by
  rcases (ByteClass.ofByte_eq_status_iff status).1 hclass with hchannel | hcommon | rfl | rfl
  · exact Or.inl hchannel
  · exact Or.inr hcommon
  · cases hlayout
  · cases hlayout

namespace Packet

/-- A packet as an encoder for `cable` may emit it at the byte `last`. -/
structure WellFormed (cable : Cable) (last : UInt8) (p : Packet) : Prop where
  cable_eq : p.cable = cable
  /-- The data bytes behind the payload are zero. -/
  padding_eq : ∀ x ∈ p.data.toList.drop p.payloadLength, x = 0
  /-- The payload ends with the byte that completed the packet. -/
  last_eq : p.payload.getLast? = some last
  shape : ∃ inBlock, Shape inBlock p.code p.payload

/-- A shape has as many bytes as its code says. -/
theorem Shape.length_eq {inBlock : Bool} {code : CodeIndex} {bytes : List UInt8}
    (h : Shape inBlock code bytes) : bytes.length = code.payloadLength := by
  cases h with
  | message status data introduces complete isData =>
      rw [CodeIndex.payloadLength_ofStatus introduces, List.length_cons, complete]
  | _ => rfl

theorem Shape.not_reserved {inBlock : Bool} {code : CodeIndex} {bytes : List UInt8}
    (h : Shape inBlock code bytes) (hne : bytes ≠ []) : ¬ code.Reserved := by
  intro hreserved
  apply hne
  apply List.eq_nil_of_length_eq_zero
  exact h.length_eq.trans ((CodeIndex.payloadLength_eq_zero_iff code).2 hreserved)

/-- Three bytes whose places behind the first `count` are zero are the list of those first. -/
theorem eq_ofList_of_padding {t : Triple} {count : Nat} (h : ∀ x ∈ t.toList.drop count, x = 0) :
    t = Triple.ofList (t.toList.take count) := by
  rcases t with ⟨x, y, z⟩
  match count with
  | 0 =>
      simp only [Triple.toList, List.drop_zero, List.forall_mem_cons] at h
      rcases h with ⟨rfl, rfl, rfl, -⟩
      rfl
  | 1 =>
      simp only [Triple.toList, List.drop_succ_cons, List.drop_zero, List.forall_mem_cons] at h
      rcases h with ⟨rfl, rfl, -⟩
      rfl
  | 2 =>
      simp only [Triple.toList, List.drop_succ_cons, List.drop_zero, List.forall_mem_cons] at h
      rcases h with ⟨rfl, -⟩
      rfl
  | _ + 3 => simp [Triple.toList, Triple.ofList]

theorem drop_ofList {bytes : List UInt8} (h : bytes.length ≤ 3) :
    ∀ x ∈ (Triple.ofList bytes).toList.drop bytes.length, x = 0 := by
  match bytes, h with
  | [], _ => simp [Triple.ofList, Triple.toList, Triple.zero]
  | [_], _ => simp [Triple.ofList, Triple.toList]
  | [_, _], _ => simp [Triple.ofList, Triple.toList]
  | [_, _, _], _ => simp [Triple.ofList, Triple.toList]

/-- A well-formed packet is nothing but its cable, its code and its payload. -/
theorem WellFormed.eq_carrying {cable : Cable} {last : UInt8} {p : Packet}
    (h : p.WellFormed cable last) : p = carrying cable p.code p.payload := by
  have hdata : p.data = Triple.ofList p.payload := eq_ofList_of_padding h.padding_eq
  rw [← h.cable_eq]
  exact Packet.eq_carrying hdata

theorem wellFormed_carrying (cable : Cable) {inBlock : Bool} {code : CodeIndex} {bytes : List UInt8}
    {last : UInt8} (hshape : Shape inBlock code bytes) (hlast : bytes.getLast? = some last) :
    (carrying cable code bytes).WellFormed cable last := by
  have hlength := hshape.length_eq
  have hpayload : (carrying cable code bytes).payload = bytes := payload_carrying cable hlength
  constructor
  case cable_eq => exact cable_carrying cable code bytes
  case padding_eq =>
    have hthree : bytes.length ≤ 3 := hlength ▸ code.payloadLength_le
    rw [payloadLength, code_carrying, ← hlength]
    exact drop_ofList hthree
  case last_eq => rw [hpayload, hlast]
  case shape =>
    rw [hpayload, code_carrying]
    exact ⟨inBlock, hshape⟩

theorem WellFormed.payload_ne_nil {cable : Cable} {last : UInt8} {p : Packet}
    (h : p.WellFormed cable last) : p.payload ≠ [] := by
  intro hnil
  have hlast := h.last_eq
  rw [hnil] at hlast
  cases hlast

theorem WellFormed.not_reserved {cable : Cable} {last : UInt8} {p : Packet}
    (h : p.WellFormed cable last) : ¬ p.code.Reserved := by
  obtain ⟨inBlock, hshape⟩ := h.shape
  exact hshape.not_reserved h.payload_ne_nil

end Packet

/-- All bytes that fit are data, the first of them possibly excepted. -/
theorem Framing.Fits.tail_data {framing : Framing} {bytes : List UInt8} (h : framing.Fits bytes) :
    ∀ b ∈ bytes.tail, ByteClass.ofByte b = .data := by
  cases framing with
  | idle =>
      have hnil : bytes = [] := h
      rw [hnil]
      intro b hb
      cases hb
  | running status => exact fun b hb => h.2.1 b (List.mem_of_mem_tail hb)
  | sysEx resume => exact h.2.2.2

namespace Encoder

/-!
### Every packet emitted has a shape

The cases are the five ways to complete a packet. The bytes before the last one were pending, and the
framing says what these may be.
-/

namespace View

section Shape

variable {framing : Framing} {bytes : List UInt8} {b : UInt8} {inBlock : Bool}

/-- Pending bytes that do not begin with `0xF0` belong to a block only if one is open already. -/
theorem inBlock_of_data (hplace : ∀ x ∈ bytes.head?, x = Byte.sysExStart ∨ inBlock = true) {x : UInt8}
    (hx : x ∈ bytes.head?) (hdata : x < 0x80) : inBlock = true := by
  rcases hplace x hx with hstart | hopen
  · exact absurd hstart (Byte.ne_of_data hdata).1
  · exact hopen

/-- The last packet of a block. -/
theorem shape_blockEnd (h : framing.Fits bytes) (htwo : bytes.length ≤ 2)
    (hplace : ∀ x ∈ bytes.head?, x = Byte.sysExStart ∨ inBlock = true) :
    Packet.Shape inBlock (CodeIndex.sysExTail (bytes.length + 1)) (bytes ++ [Byte.sysExEnd]) := by
  have hfirst := h.data_or_start
  have hrest := h.tail_data
  match bytes, htwo with
  | [], _ => exact .blockEnd1
  | [x], _ =>
      rcases hfirst x (List.mem_singleton.2 rfl) with hdata | rfl
      · have hx := (ByteClass.ofByte_eq_data_iff x).1 hdata
        cases inBlock_of_data hplace rfl hx
        exact .blockEnd2 x hx
      · exact .block2
  | [x, y], _ =>
      have hy := (ByteClass.ofByte_eq_data_iff y).1 (hrest y (List.mem_singleton.2 rfl))
      rcases hfirst x (List.mem_cons_self ..) with hdata | rfl
      · have hx := (ByteClass.ofByte_eq_data_iff x).1 hdata
        cases inBlock_of_data hplace rfl hx
        exact .blockEnd3 x y hx hy
      · exact .block3 y hy

theorem shape_blockPart (h : framing.Fits bytes) (htwo : bytes.length = 2)
    (hb : ByteClass.ofByte b = .data)
    (hplace : ∀ x ∈ bytes.head?, x = Byte.sysExStart ∨ inBlock = true) :
    Packet.Shape inBlock .sysExStart (bytes ++ [b]) := by
  have hfirst := h.data_or_start
  have hrest := h.tail_data
  have hlast := (ByteClass.ofByte_eq_data_iff b).1 hb
  match bytes, htwo with
  | [x, y], _ =>
      have hy := (ByteClass.ofByte_eq_data_iff y).1 (hrest y (List.mem_singleton.2 rfl))
      rcases hfirst x (List.mem_cons_self ..) with hdata | rfl
      · have hx := (ByteClass.ofByte_eq_data_iff x).1 hdata
        cases inBlock_of_data hplace rfl hx
        exact .blockPart x y b hx hy hlast
      · exact .blockStart y b hy hlast

/-- A message whose last data byte arrives. -/
theorem shape_message {status : UInt8} {layout : Layout} (h : (Framing.running status).Fits bytes)
    (hb : ByteClass.ofByte b = .data) (hlayout : Layout.ofStatus? status = some layout)
    (hlast : bytes.length + 1 = layout.dataLength) :
    Packet.Shape false layout.code (status :: (bytes ++ [b])) := by
  obtain ⟨hstatus, hdata, -⟩ := h
  have hintroduces := Byte.introduces_of_layout hstatus hlayout
  have hgrammar := Layout.ofStatus?_of_introduces hintroduces
  rw [hlayout, Option.some.injEq] at hgrammar
  have hcomplete : (bytes ++ [b]).length = Byte.dataCount status := by
    rw [List.length_append, List.length_singleton, hlast, hgrammar]
  have hisData : ∀ x ∈ bytes ++ [b], x < 0x80 := by
    intro x hx
    apply (ByteClass.ofByte_eq_data_iff x).1
    rcases List.mem_append.1 hx with hold | hnew
    · exact hdata x hold
    · rw [List.mem_singleton.1 hnew]
      exact hb
  rw [hgrammar]
  exact .message status (bytes ++ [b]) hintroduces hcomplete hisData

end Shape

/-- A completed packet is on the cable of the encoder and ends with the byte that completed it. -/
theorem Completes.wellFormed {v : View} (hfits : v.framing.Fits v.pending) {b : UInt8} {p : Packet}
    (h : v.Completes b p) : p.WellFormed v.cable b := by
  cases h with
  | realTime hclass =>
      have hclock := (Byte.isRealTime_iff b).1 ((ByteClass.ofByte_eq_realTime_iff b).1 hclass)
      have hshape : Packet.Shape false .byte [b] := .realTime b hclock
      exact Packet.wellFormed_carrying v.cable hshape rfl
  | single hclass =>
      have hcommon := (ByteClass.ofByte_eq_singleCommon_iff b).1 hclass
      have hshape : Packet.Shape false .singleByte [b] := .single b hcommon
      exact Packet.wellFormed_carrying v.cable hshape rfl
  | blockEnd rest hclass hrest htwo =>
      have hend : b = Byte.sysExEnd := (ByteClass.ofByte_eq_sysExEnd_iff b).1 hclass
      have hrestFits : ∃ framing : Framing, framing.Fits rest := by
        rcases hrest with rfl | rfl
        · exact ⟨v.framing, hfits⟩
        · exact ⟨.idle, rfl⟩
      obtain ⟨framing, hframing⟩ := hrestFits
      -- Where no block has begun, the pending bytes are those of a message that is cut off.
      have hplace : ∀ x ∈ rest.head?, x = Byte.sysExStart ∨ true = true := fun _ _ => Or.inr rfl
      have hshape := shape_blockEnd hframing htwo hplace
      rw [hend]
      exact Packet.wellFormed_carrying v.cable hshape List.getLast?_concat
  | blockPart resume hclass hframing htwo =>
      have hplace : ∀ x ∈ v.pending.head?, x = Byte.sysExStart ∨ true = true :=
        fun _ _ => Or.inr rfl
      have hshape := shape_blockPart hfits htwo hclass hplace
      exact Packet.wellFormed_carrying v.cable hshape List.getLast?_concat
  | message status layout hclass hframing hlayout hlast =>
      rw [hframing] at hfits
      have hshape := shape_message hfits hclass hlayout hlast
      refine Packet.wellFormed_carrying v.cable hshape ?_
      rw [← List.cons_append]
      exact List.getLast?_concat

end View

/-- Whatever a sound encoder emits is well formed. -/
theorem Sound.wellFormed {e : Encoder} (h : e.Sound) {b : UInt8} {p : Packet}
    (hp : (e.step b).packet? = some p) : p.WellFormed e.cable b := by
  have hview : (e.view.step b).packet? = some p := by
    rw [← view_step h b]
    exact hp
  exact (View.completes_of_packet? h.fits hview).wellFormed h.fits

theorem Sound.not_reserved_of_mem_history {e : Encoder} (h : e.Sound) {cs : List Command} {o : Outcome}
    {p : Packet} (ho : o ∈ e.history cs) (hp : o.packet? = some p) : ¬ p.code.Reserved := by
  induction cs generalizing e with
  | nil => cases ho
  | cons c cs ih =>
      rcases List.mem_cons.1 ho with rfl | hlater
      · cases c with
        | byte b => exact (h.wellFormed hp).not_reserved
        | reset => cases hp
        | setCable cable => cases hp
      · exact ih (sound_apply h c) hlater

/-!
### Every shape is emitted

Outside of a block a new encoder will do. For the shapes that go on with a block, a block is opened first
and its first packet filled, so that nothing is pending.
-/

theorem View.Yields.packet?_last {v v' : View} {bs : List UInt8} {b : UInt8} {p : Packet}
    (h : v.Yields (bs ++ [b]) p v') : ((v.run bs).step b).packet? = some p := by
  have hemissions := h.emissions_eq
  rw [emissions_append] at hemissions
  have hlast := congrArg List.getLast? hemissions
  simpa [emissions] using hlast

theorem exists_between (cable : Cable) (inBlock : Bool) :
    ∃ bs : List UInt8, View.Between cable inBlock ((new cable).run bs).view := by
  cases inBlock with
  | false => exact ⟨[], rfl, rfl, rfl⟩
  | true => exact ⟨[Byte.sysExStart, 0, 0], rfl, rfl, rfl⟩

/-- A well-formed packet is emitted at its last byte by an encoder that was given, in the right place, the
    bytes before it. -/
theorem exists_emits_of_wellFormed {cable : Cable} {last : UInt8} {p : Packet}
    (h : p.WellFormed cable last) :
    ∃ bs : List UInt8, (((new cable).run bs).step last).packet? = some p := by
  obtain ⟨inBlock, hshape⟩ := h.shape
  obtain ⟨before, hbetween⟩ := exists_between cable inBlock
  obtain ⟨v', hyields, -⟩ := View.yields_of_shape hbetween hshape
  obtain ⟨bytes, hbytes⟩ := List.getLast?_eq_some_iff.1 h.last_eq
  rw [← h.eq_carrying, hbytes] at hyields
  have hsound : ((new cable).run before).Sound := (sound_new cable).run before
  refine ⟨before ++ bytes, ?_⟩
  have hstep := congrArg View.Outcome.packet? (view_step (hsound.run bytes) last)
  rw [view_run hsound] at hstep
  rw [run_append]
  exact hstep.trans hyields.packet?_last

/-- The packets that encoders emit, whatever bytes, resets and cable changes have led to them. An encoder
    for the cable `c` emits the packet `p` at the byte `b` only if `p` is well formed for them, and for
    every such packet there is an encoder that does. No packet has a reserved code, and none decodes to
    nothing. -/
theorem emits_iff_wellFormed (c : Cable) (b : UInt8) (p : Packet) :
    (∃ (cable : Cable) (cs : List Command),
        ((new cable).after cs).cable = c ∧ (((new cable).after cs).step b).packet? = some p) ↔
      p.WellFormed c b ∧ ¬ p.code.Reserved ∧ p.decode.toList ≠ [] := by
  constructor
  · rintro ⟨cable, cs, rfl, hp⟩
    have hwell := (sound_after cable cs).wellFormed hp
    refine ⟨hwell, hwell.not_reserved, ?_⟩
    rw [Packet.toList_decode]
    exact hwell.payload_ne_nil
  · rintro ⟨hwell, -, -⟩
    obtain ⟨bs, hp⟩ := exists_emits_of_wellFormed hwell
    rw [← after_map_byte] at hp
    -- The packet is on the cable of the encoder that emits it.
    have hemitted := (sound_after c (bs.map .byte)).wellFormed hp
    exact ⟨c, bs.map .byte, hemitted.cable_eq.symm.trans hwell.cable_eq, hp⟩

/-- A stray end of a block takes the byte of a message that is cut off into its packet. -/
example : (new Cable.first).packets [0x90, 0x40, 0xF7] = [⟨0x06, ⟨0x40, 0xF7, 0⟩⟩] := by decide

end Encoder

end MidiBridge
