/-
Module: MidiBridge.Proofs.Encoder.Completion
Purpose: Which packets an encoder completes. There are five ways in which a byte completes a packet, and
  `Completes` lists them with all that is known in each: the code, the bytes, and where the encoder
  stood. Statements about the packets of a stream are case analyses over this list. The first of them
  separates the real-time bytes from all others: only a real-time byte brings one into a packet.
Trusted boundary: none
Main exports: Encoder.View.Completes, Encoder.View.completes_of_packet?,
  Encoder.View.Completes.not_realTime, Encoder.View.run_others, Encoder.View.others_decoded,
  Encoder.View.filter_decoded
-/
import MidiBridge.Proofs.Encoder.View
import MidiBridge.Proofs.Message

namespace MidiBridge

theorem Framing.Fits.data_or_start {framing : Framing} {bytes : List UInt8}
    (h : framing.Fits bytes) :
    ∀ b ∈ bytes, ByteClass.ofByte b = .data ∨ b = Byte.sysExStart := by
  intro b hb
  cases framing with
  | idle =>
      have hnil : bytes = [] := h
      rw [hnil] at hb
      cases hb
  | running status => exact Or.inl (h.2.1 b hb)
  | sysEx resume =>
      rcases h with ⟨-, -, hfirst, hrest⟩
      cases bytes with
      | nil => cases hb
      | cons x xs =>
          rcases List.mem_cons.1 hb with hhead | htail
          · rw [hhead]
            exact hfirst x rfl
          · exact Or.inl (hrest b htail)

namespace Encoder.View

/-- `v.Completes b p`: the byte `b` completes the packet `p` for an encoder that looks like `v`. -/
inductive Completes (v : View) (b : UInt8) : Packet → Prop where
  | realTime (hclass : ByteClass.ofByte b = .realTime) :
      Completes v b (Packet.carrying v.cable .byte [b])
  | single (hclass : ByteClass.ofByte b = .singleCommon) :
      Completes v b (Packet.carrying v.cable .singleByte [b])
  /-- The end of a block goes with the bytes before it, unless these had to be dropped. -/
  | blockEnd (rest : List UInt8) (hclass : ByteClass.ofByte b = .sysExEnd)
      (hrest : rest = v.pending ∨ rest = []) (htwo : rest.length ≤ 2) :
      Completes v b
        (Packet.carrying v.cable (CodeIndex.sysExTail (rest.length + 1)) (rest ++ [b]))
  /-- Inside a block every third byte fills a packet. -/
  | blockPart (resume : Option UInt8) (hclass : ByteClass.ofByte b = .data)
      (hframing : v.framing = .sysEx resume) (htwo : v.pending.length = 2) :
      Completes v b (Packet.carrying v.cable .sysExStart (v.pending ++ [b]))
  /-- The last data byte of a message goes with its status and the data bytes before. -/
  | message (status : UInt8) (layout : Layout) (hclass : ByteClass.ofByte b = .data)
      (hframing : v.framing = .running status) (hlayout : Layout.ofStatus? status = some layout)
      (hlast : v.pending.length + 1 = layout.dataLength) :
      Completes v b (Packet.carrying v.cable layout.code (status :: (v.pending ++ [b])))

/-- These are all the packets there are. -/
theorem completes_of_packet? {v : View} (h : v.framing.Fits v.pending) {b : UInt8} {p : Packet}
    (hp : (v.step b).packet? = some p) : v.Completes b p := by
  cases hclass : ByteClass.ofByte b with
  | realTime =>
      simp only [step, hclass, Option.some.injEq] at hp
      rw [← hp]
      exact .realTime hclass
  | singleCommon =>
      simp only [step, hclass, Option.some.injEq] at hp
      rw [← hp]
      exact .single hclass
  | sysExStart =>
      simp only [step, hclass] at hp
      cases hp
  | sysExEnd =>
      simp only [step, hclass] at hp
      by_cases hroom : v.pending.length < 3
      · simp only [if_pos hroom, finishSysEx, Option.some.injEq, List.length_append,
          List.length_singleton] at hp
        rw [← hp]
        exact .blockEnd v.pending hclass (Or.inl rfl) (Nat.le_of_lt_succ hroom)
      · simp only [if_neg hroom, finishSysEx, Option.some.injEq] at hp
        rw [← hp]
        exact .blockEnd [] hclass (Or.inr rfl) (Nat.zero_le 2)
  | status =>
      simp only [step, hclass] at hp
      cases hp
  | data =>
      simp only [step, hclass, collect] at hp
      cases hframing : v.framing with
      | idle =>
          rw [hframing] at hp
          cases hp
      | sysEx resume =>
          rw [hframing] at hp h
          have htwo : v.pending.length ≤ 2 := h.2.1
          by_cases hshort : v.pending.length + 1 < 3
          · simp only [gather, if_pos hshort] at hp
            cases hp
          · simp only [gather, if_neg hshort, Option.some.injEq] at hp
            rw [← hp]
            exact .blockPart resume hclass hframing (by omega)
      | running status =>
          rw [hframing] at hp h
          cases hlayout : Layout.ofStatus? status with
          | none =>
              simp only [hlayout] at hp
              split at hp <;> cases hp
          | some layout =>
              have hfew := h.2.2
              simp only [hlayout] at hp hfew
              by_cases hshort : v.pending.length + 1 < layout.dataLength
              · simp only [gather, if_pos hshort] at hp
                cases hp
              · simp only [gather, if_neg hshort, Option.some.injEq] at hp
                rw [← hp]
                exact .message status layout hclass hframing hlayout (by omega)

/-- The bytes of a completed packet were pending, or are the byte itself, or the running status. -/
theorem Completes.mem_payload {v : View} {b : UInt8} {p : Packet} (h : v.Completes b p) :
    ∀ x ∈ p.payload, x = b ∨ x ∈ v.pending ∨ v.framing = .running x := by
  cases h with
  | realTime hclass =>
      rw [Packet.payload_carrying v.cable rfl]
      intro x hx
      exact Or.inl (List.mem_singleton.1 hx)
  | single hclass =>
      rw [Packet.payload_carrying v.cable rfl]
      intro x hx
      exact Or.inl (List.mem_singleton.1 hx)
  | blockEnd rest hclass hrest htwo =>
      have hlength : (rest ++ [b]).length = (CodeIndex.sysExTail (rest.length + 1)).payloadLength := by
        rw [CodeIndex.payloadLength_sysExTail (by omega) (by omega), List.length_append]
        rfl
      rw [Packet.payload_carrying v.cable hlength]
      intro x hx
      rcases List.mem_append.1 hx with hold | hnew
      · rcases hrest with rfl | rfl
        · exact Or.inr (Or.inl hold)
        · cases hold
      · exact Or.inl (List.mem_singleton.1 hnew)
  | blockPart resume hclass hframing htwo =>
      have hlength : (v.pending ++ [b]).length = CodeIndex.sysExStart.payloadLength := by
        rw [List.length_append, htwo]
        rfl
      rw [Packet.payload_carrying v.cable hlength]
      intro x hx
      rcases List.mem_append.1 hx with hold | hnew
      · exact Or.inr (Or.inl hold)
      · exact Or.inl (List.mem_singleton.1 hnew)
  | message status layout hclass hframing hlayout hlast =>
      have hlength : (status :: (v.pending ++ [b])).length = layout.code.payloadLength := by
        rw [Layout.payloadLength_eq hlayout, ← hlast, List.length_cons, List.length_append]
        rfl
      rw [Packet.payload_carrying v.cable hlength]
      intro x hx
      rcases List.mem_cons.1 hx with hstatus | hx
      · rw [hstatus]
        exact Or.inr (Or.inr hframing)
      · rcases List.mem_append.1 hx with hold | hnew
        · exact Or.inr (Or.inl hold)
        · exact Or.inl (List.mem_singleton.1 hnew)

/-!
### Real-time bytes

A real-time byte becomes a packet at once and leaves the encoder as it was. No other byte completes a
packet with a real-time byte in it.
-/

theorem step_realTime (v : View) {b : UInt8} (hb : Byte.isRealTime b = true) :
    v.step b = { view := v, packet? := some (Packet.carrying v.cable .byte [b]) } := by
  have hclass : ByteClass.ofByte b = .realTime := (ByteClass.ofByte_eq_realTime_iff b).2 hb
  simp only [step, hclass]

theorem Completes.not_realTime {v : View} (hfits : v.framing.Fits v.pending) {b : UInt8}
    {p : Packet} (h : v.Completes b p) (hb : Byte.isRealTime b = false) :
    ∀ x ∈ p.payload, Byte.isRealTime x = false := by
  have hother : ∀ x, ByteClass.ofByte x ≠ .realTime → Byte.isRealTime x = false := by
    intro x hx
    rw [ne_eq, ByteClass.ofByte_eq_realTime_iff x] at hx
    exact Bool.eq_false_iff.2 hx
  intro x hx
  rcases h.mem_payload x hx with hlast | hpending | hstatus
  · rw [hlast]
    exact hb
  · rcases hfits.data_or_start x hpending with hdata | hstart
    · apply hother
      rw [hdata]
      decide
    · rw [hstart]
      decide
  · apply hother
    rw [hfits.statuses x (by rw [hstatus]; rfl)]
    decide

def others (bs : List UInt8) : List UInt8 := bs.filter fun b => !Byte.isRealTime b

theorem others_append (xs ys : List UInt8) : others (xs ++ ys) = others xs ++ others ys :=
  List.filter_append xs ys

/-- Real-time bytes leave no trace in the encoder. -/
theorem run_others (v : View) (bs : List UInt8) : v.run (others bs) = v.run bs := by
  induction bs generalizing v with
  | nil => rfl
  | cons b bs ih =>
      cases hb : Byte.isRealTime b with
      | true =>
          have hskip : others (b :: bs) = others bs := by simp [others, hb]
          rw [hskip, run_cons, step_realTime v hb, ih]
      | false =>
          have hkeep : others (b :: bs) = b :: others bs := by simp [others, hb]
          rw [hkeep, run_cons, run_cons, ih]

/-- The serial bytes of all packets that a stream completes. -/
def decoded (v : View) (bs : List UInt8) : List UInt8 := Packet.stream (v.packets bs)

theorem decoded_cons (v : View) (b : UInt8) (bs : List UInt8) :
    v.decoded (b :: bs)
      = ((v.step b).packet?.elim [] Packet.payload) ++ (v.step b).view.decoded bs := by
  cases hp : (v.step b).packet? with
  | none => simp only [decoded, packets, emissions, hp, List.filterMap_cons, id, Option.elim_none,
      List.nil_append]
  | some p => simp only [decoded, packets, emissions, hp, List.filterMap_cons, id,
      Option.elim_some, Packet.stream_cons]

/-- Taken out again, the real-time bytes leave what the stream without them gives. -/
theorem others_decoded (v : View) (bs : List UInt8) :
    others (v.decoded bs) = others (v.decoded (others bs)) := by
  induction bs generalizing v with
  | nil => rfl
  | cons b bs ih =>
      cases hb : Byte.isRealTime b with
      | true =>
          have hskip : others (b :: bs) = others bs := by simp [others, hb]
          have hnone : others [b] = [] := by simp [others, hb]
          have hpayload : (Packet.carrying v.cable .byte [b]).payload = [b] :=
            Packet.payload_carrying v.cable rfl
          rw [hskip, decoded_cons, step_realTime v hb, Option.elim_some, hpayload, others_append,
            hnone]
          exact ih v
      | false =>
          have hkeep : others (b :: bs) = b :: others bs := by simp [others, hb]
          rw [hkeep, decoded_cons, decoded_cons, others_append, others_append, ih]

/-- The real-time bytes come out as they went in. -/
theorem filter_decoded {v : View} (h : v.framing.Fits v.pending) (bs : List UInt8) :
    (v.decoded bs).filter Byte.isRealTime = bs.filter Byte.isRealTime := by
  induction bs generalizing v with
  | nil => rfl
  | cons b bs ih =>
      rw [decoded_cons, List.filter_append, ih (fits_step h b)]
      cases hb : Byte.isRealTime b with
      | true =>
          have hpayload : (Packet.carrying v.cable .byte [b]).payload = [b] :=
            Packet.payload_carrying v.cable rfl
          rw [step_realTime v hb, Option.elim_some, hpayload, List.filter_cons_of_pos hb,
            List.filter_cons_of_pos hb]
          rfl
      | false =>
          have hnone : ((v.step b).packet?.elim [] Packet.payload).filter Byte.isRealTime = [] := by
            cases hp : (v.step b).packet? with
            | none => rfl
            | some p =>
                rw [List.filter_eq_nil_iff]
                intro x hx
                rw [(completes_of_packet? h hp).not_realTime h hb x hx]
                decide
          rw [hnone, List.filter_cons_of_neg (by rw [hb]; decide), List.nil_append]

/-- A stream without real-time bytes decodes to bytes without real-time bytes. -/
theorem others_decoded_others {v : View} (h : v.framing.Fits v.pending) (bs : List UInt8) :
    others (v.decoded (others bs)) = v.decoded (others bs) := by
  have hnone : (v.decoded (others bs)).filter Byte.isRealTime = [] := by
    rw [filter_decoded h, others, List.filter_filter, List.filter_eq_nil_iff]
    intro b hb
    simp
  rw [others, List.filter_eq_self]
  intro b hb
  have hother := (List.filter_eq_nil_iff.1 hnone) b hb
  rw [Bool.not_eq_true] at hother
  rw [hother]
  rfl

end Encoder.View

end MidiBridge
