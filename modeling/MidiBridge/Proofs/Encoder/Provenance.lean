/-
Module: MidiBridge.Proofs.Encoder.Provenance
Purpose: Where the bytes in the packets of an encoder come from, over all streams, the malformed ones
  included. Data bytes are taken from the stream in order: some may be left out, but none is made up, none
  comes twice, and none passes another. With every byte that comes, it is said which are left out: those that
  the log names, and those that the byte interrupts. The status byte of a message is the last one that the
  encoder was given since its last reset, also if it came in the middle of a block.
Trusted boundary: human-reviewed spec
Main exports: Byte.dataIn, Byte.interruptedBy, Encoder.Discard.bytes, CodeIndex.OfMessage,
  Encoder.lastStatus, Encoder.View.Outcome.bytes, Encoder.View.Outcome.discarded,
  Encoder.View.dataIn_step_eq, Encoder.View.dataIn_run, Encoder.status?_after,
  Encoder.data_in_order_and_status_latest
-/
import Mathlib.Data.List.Induction
import MidiBridge.Proofs.Encoder.WellFormed

namespace MidiBridge

/-- The data bytes among some bytes, in order. -/
def Byte.dataIn (bytes : List UInt8) : List UInt8 := bytes.filter (· < 0x80)

/-- The bytes that end whatever is being collected, without a packet for it. -/
def ByteClass.interrupts : ByteClass → Bool
  | .status | .singleCommon | .sysExStart => true
  | .realTime | .sysExEnd | .data => false

/-- The data bytes among those pending that are lost when the byte `b` arrives, and of which the log says
    nothing. -/
def Byte.interruptedBy (b : UInt8) (pending : List UInt8) : List UInt8 :=
  if (ByteClass.ofByte b).interrupts then dataIn pending else []

/-- The data bytes that a line of the log is about. -/
def Encoder.Discard.bytes : Discard → List UInt8
  | .withoutStatus byte => [byte]
  | .undefinedMessage byte _ => [byte]
  | .beforeSysExEnd pending => pending

/-- The codes of channel messages and of system common messages with data. -/
def CodeIndex.OfMessage (code : CodeIndex) : Prop :=
  code = .systemCommon2 ∨ code = .systemCommon3 ∨ (0x8 ≤ code.value ∧ code.value ≤ 0xE)

instance : DecidablePred CodeIndex.OfMessage := fun _ => inferInstanceAs (Decidable (_ ∨ _))

/-- The code of the last packet of a block lies between those of the system common messages with data and
    those of the channel messages. -/
theorem CodeIndex.not_ofMessage_sysExTail {n : Nat} (h : n ≤ 3) : ¬ (sysExTail n).OfMessage := by
  have hvalue := toNat_value_sysExTail h
  have htwo : systemCommon2.value.toNat = 2 := rfl
  have hthree : systemCommon3.value.toNat = 3 := rfl
  rintro (hcode | hcode | ⟨hlow, -⟩)
  · exact sysExTail_ne h (by omega) hcode
  · exact sysExTail_ne h (by omega) hcode
  · have height : 8 ≤ (sysExTail n).value.toNat := UInt8.le_iff_toNat_le.1 hlow
    omega

namespace Byte

theorem dataIn_append (xs ys : List UInt8) : dataIn (xs ++ ys) = dataIn xs ++ dataIn ys :=
  List.filter_append xs ys

/-- A byte of another class than data is passed over. -/
theorem dataIn_cons_of_class {b : UInt8} {kind : ByteClass} (h : ByteClass.ofByte b = kind)
    (hkind : kind ≠ .data) (bs : List UInt8) : dataIn (b :: bs) = dataIn bs := by
  apply List.filter_cons_of_neg
  rw [decide_eq_true_eq, ← ByteClass.ofByte_eq_data_iff, h]
  exact hkind

end Byte

namespace Encoder

open Byte (dataIn dataIn_append dataIn_cons_of_class)

/-!
### Data bytes

The bytes that an outcome gives out in its packet, and behind them those that it keeps, are compared with
the bytes that were pending and the byte that came. The order of the two lists is the whole point: what is
kept is younger than what is given out. What is missing has been logged, or the byte has interrupted it.
-/

namespace View

/-- The bytes that an outcome gives out, followed by those that it keeps. -/
def Outcome.bytes (o : Outcome) : List UInt8 :=
  o.packet?.elim [] Packet.payload ++ o.view.pending

/-- The bytes that an outcome logs as dropped. -/
def Outcome.discarded (o : Outcome) : List UInt8 := o.discard?.elim [] Discard.bytes

/-- Gathering loses no data byte and moves none. -/
theorem dataIn_gather {v : View} {size : Nat} (b : UInt8) {packet : List UInt8 → Packet}
    (hroom : v.pending.length < size)
    (hpacket : ∀ bytes, bytes.length = size → dataIn (packet bytes).payload = dataIn bytes) :
    dataIn (v.gather size b packet).bytes ++ (v.gather size b packet).discarded
      = dataIn (v.pending ++ [b]) := by
  by_cases hshort : v.pending.length + 1 < size
  · rw [gather, if_pos hshort]
    exact List.append_nil _
  · have hsize : (v.pending ++ [b]).length = size := by
      rw [List.length_append, List.length_singleton]
      omega
    rw [gather, if_neg hshort]
    simp only [Outcome.bytes, Outcome.discarded, Option.elim_some, Option.elim_none, List.append_nil]
    exact hpacket _ hsize

/-- Among data bytes, one before any status and one too many under an undefined status are given up, and
    logged. -/
theorem dataIn_collect {v : View} (h : v.framing.Fits v.pending) {b : UInt8}
    (hb : ByteClass.ofByte b = .data) :
    dataIn (v.collect b).bytes ++ (v.collect b).discarded = dataIn (v.pending ++ [b]) := by
  have hself : dataIn [b] = [b] :=
    List.filter_cons_of_pos (decide_eq_true ((ByteClass.ofByte_eq_data_iff b).1 hb))
  unfold collect
  cases hframing : v.framing with
  | idle =>
      rw [hframing] at h
      have hnothing : v.pending = [] := h
      rw [hnothing]
      exact hself.symm
  | sysEx resume =>
      rw [hframing] at h
      have hroom : v.pending.length < 3 := Nat.lt_succ_of_le h.2.1
      have hpacket : ∀ bytes : List UInt8, bytes.length = 3 →
          dataIn (Packet.carrying v.cable .sysExStart bytes).payload = dataIn bytes :=
        fun bytes hsize => congrArg dataIn (Packet.payload_carrying v.cable hsize)
      exact dataIn_gather b hroom hpacket
  | running status =>
      rw [hframing] at h
      obtain ⟨hstatus, -, hcount⟩ := h
      cases hlayout : Layout.ofStatus? status with
      | none =>
          simp only [hlayout]
          split
          · exact List.append_nil _
          · rw [dataIn_append, hself]
            rfl
      | some layout =>
          rw [hlayout] at hcount
          have hpacket : ∀ bytes : List UInt8, bytes.length = layout.dataLength →
              dataIn (Packet.carrying v.cable layout.code (status :: bytes)).payload
                = dataIn bytes := by
            intro bytes hsize
            have hlength : (status :: bytes).length = layout.code.payloadLength := by
              rw [Layout.payloadLength_eq hlayout, List.length_cons, hsize]
            rw [Packet.payload_carrying v.cable hlength]
            exact dataIn_cons_of_class hstatus (by decide) bytes
          simp only [hlayout]
          exact dataIn_gather b hcount hpacket

theorem dataIn_payload_single (cable : Cable) {b : UInt8} {kind : ByteClass} (code : CodeIndex)
    (hone : code.payloadLength = 1) (h : ByteClass.ofByte b = kind) (hkind : kind ≠ .data) :
    dataIn (Packet.carrying cable code [b]).payload = [] := by
  have hlength : [b].length = code.payloadLength := hone.symm
  rw [Packet.payload_carrying cable hlength]
  exact dataIn_cons_of_class h hkind []

/-- Where three bytes are pending, all of them are data bytes. -/
theorem dataIn_of_full {framing : Framing} {bytes : List UInt8} (h : framing.Fits bytes)
    (hfull : ¬ bytes.length < 3) : dataIn bytes = bytes := by
  cases framing with
  | idle =>
      have hnothing : bytes = [] := h
      rw [hnothing]
      rfl
  | sysEx resume => exact absurd (Nat.lt_succ_of_le h.2.1) hfull
  | running status =>
      refine List.filter_eq_self.2 fun b hb => ?_
      rw [decide_eq_true_eq, ← ByteClass.ofByte_eq_data_iff]
      exact h.2.1 b hb

/-- One byte: the data bytes that were pending, and the byte itself if it is one, go out or stay, in this
    order. The others are logged, or the byte has interrupted them. -/
theorem dataIn_step_eq {v : View} (h : v.framing.Fits v.pending) (b : UInt8) :
    dataIn (v.step b).bytes ++ (v.step b).discarded ++ Byte.interruptedBy b v.pending
      = dataIn (v.pending ++ [b]) := by
  rw [dataIn_append v.pending]
  cases hclass : ByteClass.ofByte b with
  | realTime =>
      have hout := dataIn_payload_single v.cable .byte rfl hclass (by decide)
      have hself : dataIn [b] = [] := dataIn_cons_of_class hclass (by decide) []
      have hlost : Byte.interruptedBy b v.pending = [] := by rw [Byte.interruptedBy, hclass]; rfl
      simp only [step, hclass, Outcome.bytes, Outcome.discarded, Option.elim_some, Option.elim_none,
        dataIn_append, hout, hself, hlost, List.nil_append, List.append_nil]
  | singleCommon =>
      have hout := dataIn_payload_single v.cable .singleByte rfl hclass (by decide)
      have hself : dataIn [b] = [] := dataIn_cons_of_class hclass (by decide) []
      have hlost : Byte.interruptedBy b v.pending = dataIn v.pending := by
        rw [Byte.interruptedBy, hclass]
        rfl
      simp only [step, hclass, Outcome.bytes, Outcome.discarded, Option.elim_some, Option.elim_none,
        hout, hself, hlost, List.nil_append, List.append_nil]
  | sysExStart =>
      have hself : dataIn [b] = [] := dataIn_cons_of_class hclass (by decide) []
      have hlost : Byte.interruptedBy b v.pending = dataIn v.pending := by
        rw [Byte.interruptedBy, hclass]
        rfl
      simp only [step, hclass, Outcome.bytes, Outcome.discarded, Option.elim_none, hself, hlost,
        List.nil_append, List.append_nil]
  | sysExEnd =>
      have hself : dataIn [b] = [] := dataIn_cons_of_class hclass (by decide) []
      have hlost : Byte.interruptedBy b v.pending = [] := by rw [Byte.interruptedBy, hclass]; rfl
      rw [hlost, List.append_nil]
      simp only [step, hclass]
      split
      · next hroom =>
          have hlength : (v.pending ++ [b]).length
              = (CodeIndex.sysExTail (v.pending ++ [b]).length).payloadLength := by
            rw [List.length_append, List.length_singleton,
              CodeIndex.payloadLength_sysExTail (Nat.le_add_left 1 _) hroom]
          have hpayload := Packet.payload_carrying v.cable hlength
          simp only [finishSysEx, Outcome.bytes, Outcome.discarded, Option.elim_some,
            Option.elim_none, List.append_nil, hpayload, dataIn_append]
      · next hfull =>
          have hout : dataIn (Packet.carrying v.cable (CodeIndex.sysExTail [b].length) [b]).payload = [] :=
            dataIn_payload_single v.cable .singleByte rfl hclass (by decide)
          simp only [finishSysEx, Outcome.bytes, Outcome.discarded, Option.elim_some, Discard.bytes,
            List.append_nil, List.nil_append, hout, hself, dataIn_of_full h hfull]
  | status =>
      have hself : dataIn [b] = [] := dataIn_cons_of_class hclass (by decide) []
      have hlost : Byte.interruptedBy b v.pending = dataIn v.pending := by
        rw [Byte.interruptedBy, hclass]
        rfl
      simp only [step, hclass, Outcome.bytes, Outcome.discarded, Option.elim_none, hself, hlost,
        List.append_nil]
      rfl
  | data =>
      have hcollected := dataIn_collect h hclass
      have hlost : Byte.interruptedBy b v.pending = [] := by rw [Byte.interruptedBy, hclass]; rfl
      simp only [step, hclass]
      rw [hlost, List.append_nil, ← dataIn_append, hcollected]

/-- The data bytes that go out or stay are in the order in which they came. -/
theorem dataIn_step {v : View} (h : v.framing.Fits v.pending) (b : UInt8) :
    (dataIn (v.step b).bytes).Sublist (dataIn (v.pending ++ [b])) := by
  rw [← dataIn_step_eq h b, List.append_assoc]
  exact List.sublist_append_left _ _

/-- A stream: what is pending in the end is younger than all data bytes that went out. -/
theorem dataIn_run {v : View} (h : v.framing.Fits v.pending) (bs : List UInt8) :
    (dataIn (v.decoded bs ++ (v.run bs).pending)).Sublist (dataIn (v.pending ++ bs)) := by
  induction bs generalizing v with
  | nil =>
      rw [List.append_nil]
      exact List.Sublist.refl _
  | cons b bs ih =>
      have hnow := dataIn_step h b
      have hlater := ih (fits_step h b)
      rw [Outcome.bytes, dataIn_append, dataIn_append] at hnow
      rw [dataIn_append, dataIn_append] at hlater
      rw [decoded_cons, run_cons, List.append_cons]
      simp only [dataIn_append, List.append_assoc] at hnow hlater ⊢
      have hgiven := hlater.append_left (dataIn ((v.step b).packet?.elim [] Packet.payload))
      have hkept := hnow.append_right (dataIn bs)
      simp only [List.append_assoc] at hkept
      exact hgiven.trans hkept

end View

/-!
### The status byte of a message

A status byte is remembered at once, inside of a block as well as outside, and only a reset forgets it.
-/

/-- The status byte that a command gives to an encoder. -/
def Command.status? : Command → Option UInt8
  | .byte b => if ByteClass.ofByte b = .status then some b else none
  | .reset | .setCable _ => none

/-- The status byte that came last: going back from the end, the first one before a reset is met. -/
def lastStatus (cs : List Command) : Option UInt8 :=
  (cs.reverse.takeWhile (· != .reset)).findSome? Command.status?

theorem lastStatus_concat_reset (cs : List Command) : lastStatus (cs ++ [.reset]) = none := by
  simp [lastStatus]

theorem lastStatus_concat {c : Command} (h : c ≠ .reset) (cs : List Command) :
    lastStatus (cs ++ [c]) = c.status?.or (lastStatus cs) := by
  simp only [lastStatus, List.reverse_append, List.reverse_cons, List.reverse_nil, List.nil_append,
    List.singleton_append]
  rw [List.takeWhile_cons_of_pos (by simpa using h), List.findSome?_cons]
  cases c.status? <;> rfl

theorem framing_collect (e : Encoder) (b : UInt8) : (e.collect b).encoder.framing = e.framing := by
  unfold collect
  split
  · rfl
  · dsimp only
    split <;> rfl
  · split
    · split <;> rfl
    · dsimp only
      split <;> rfl

theorem status?_step (e : Encoder) (b : UInt8) :
    (e.step b).encoder.framing.status? = (Command.byte b).status?.or e.framing.status? := by
  cases hclass : ByteClass.ofByte b with
  | realTime => simp [step, Command.status?, hclass]
  | singleCommon => simp [step, Command.status?, hclass]
  | sysExStart => simp [step, Command.status?, hclass]
  | sysExEnd =>
      simp only [step, hclass]
      split <;> simp [finishSysEx, Command.status?, hclass]
  | status => simp [step, Command.status?, hclass]
  | data => simp [step, Command.status?, hclass, framing_collect]

/-- The running status, also the one that a block will resume, is the status byte that came last. -/
theorem status?_after (cable : Cable) (cs : List Command) :
    ((new cable).after cs).framing.status? = lastStatus cs := by
  induction cs using List.reverseRecOn with
  | nil => rfl
  | append_singleton cs c ih =>
      rw [after_append]
      cases c with
      | byte b =>
          rw [lastStatus_concat (by simp), ← ih]
          exact status?_step _ b
      | reset => exact (lastStatus_concat_reset cs).symm
      | setCable cable =>
          rw [lastStatus_concat (by simp)]
          exact ih

/-- No other packet has the code of a message, and a message has the status that is running. -/
theorem View.Completes.head?_of_message {v : View} {b : UInt8} {p : Packet} (h : v.Completes b p)
    (hcode : p.code.OfMessage) :
    ∃ status, v.framing = .running status ∧ ByteClass.ofByte b = .data ∧
      p.payload.head? = some status := by
  cases h with
  | realTime hclass =>
      rw [Packet.code_carrying] at hcode
      exact absurd hcode (by decide)
  | single hclass =>
      rw [Packet.code_carrying] at hcode
      exact absurd hcode (by decide)
  | blockEnd rest hclass hrest htwo =>
      rw [Packet.code_carrying] at hcode
      exact absurd hcode (CodeIndex.not_ofMessage_sysExTail (Nat.succ_le_succ htwo))
  | blockPart resume hclass hframing htwo =>
      rw [Packet.code_carrying] at hcode
      exact absurd hcode (by decide)
  | message status layout hclass hframing hlayout hlast =>
      have hlength : (status :: (v.pending ++ [b])).length = layout.code.payloadLength := by
        rw [Layout.payloadLength_eq hlayout, ← hlast, List.length_cons, List.length_append,
          List.length_singleton]
      refine ⟨status, hframing, hclass, ?_⟩
      rw [Packet.payload_carrying v.cable hlength]
      rfl

/-- The packet of a message begins with the status byte that came last. -/
theorem head?_eq_lastStatus (cable : Cable) (cs : List Command) {b : UInt8} {p : Packet}
    (hp : (((new cable).after cs).step b).packet? = some p) (hcode : p.code.OfMessage) :
    ∃ status, lastStatus (cs ++ [.byte b]) = some status ∧ p.payload.head? = some status := by
  have hsound := sound_after cable cs
  have hview : (((new cable).after cs).view.step b).packet? = some p := by
    rw [← view_step hsound b]
    exact hp
  obtain ⟨status, hframing, hdata, hhead⟩ :=
    (View.completes_of_packet? hsound.fits hview).head?_of_message hcode
  have hlast : lastStatus (cs ++ [.byte b]) = lastStatus cs := by
    rw [lastStatus_concat (by simp), Command.status?, hdata]
    rfl
  refine ⟨status, ?_, hhead⟩
  rw [hlast, ← status?_after cable cs]
  exact congrArg Framing.status? hframing

/-!
### Streams
-/

/-- A packet that a stream completes is completed by one of its bytes, after those before it. -/
theorem step_of_emissions {e : Encoder} {bs : List UInt8} {k : Nat} {p : Packet}
    (h : (e.emissions bs)[k]? = some (some p)) :
    ∃ b, bs.take (k + 1) = bs.take k ++ [b] ∧ ((e.run (bs.take k)).step b).packet? = some p := by
  induction bs generalizing e k with
  | nil => cases h
  | cons b bs ih =>
      cases k with
      | zero => exact ⟨b, rfl, Option.some.inj h⟩
      | succ k =>
          obtain ⟨x, htake, hp⟩ := ih (e := (e.step b).encoder) h
          refine ⟨x, ?_, hp⟩
          rw [List.take_succ_cons, htake]
          rfl

/-- Any stream to any encoder that bytes, resets and cable changes lead to. The data bytes of its packets
    and, behind them, those that are pending in the end are some of the data bytes that were pending
    before and of those of the stream, in the same order. And if the packet that comes with the byte
    number `k` is one of a message, then it begins with the status byte that came last, counted over all
    that the encoder has been given up to this byte. -/
theorem data_in_order_and_status_latest (cable : Cable) (cs : List Command) (bs : List UInt8) :
    let e := (new cable).after cs
    (dataIn (Packet.stream (e.packets bs) ++ (e.run bs).pending)).Sublist
        (dataIn (e.pending ++ bs)) ∧
      ∀ (k : Nat) (p : Packet), (e.emissions bs)[k]? = some (some p) → p.code.OfMessage →
        ∃ status, lastStatus (cs ++ (bs.take (k + 1)).map .byte) = some status ∧
          p.payload.head? = some status := by
  intro e
  have hsound : e.Sound := sound_after cable cs
  constructor
  · have hview := View.dataIn_run (v := e.view) hsound.fits bs
    rw [View.decoded, ← packets_eq hsound, ← view_run hsound] at hview
    exact hview
  · intro k p hk hcode
    obtain ⟨b, htake, hp⟩ := step_of_emissions hk
    have hafter : e.run (bs.take k) = (new cable).after (cs ++ (bs.take k).map .byte) := by
      rw [after_append, after_map_byte]
    rw [hafter] at hp
    obtain ⟨status, hlast, hhead⟩ := head?_eq_lastStatus cable _ hp hcode
    refine ⟨status, ?_, hhead⟩
    rw [htake, List.map_append, ← List.append_assoc]
    exact hlast

/-- The status byte comes inside of a block. After the end of the block, byte number 6 completes a message
    that begins with it. -/
theorem status_latest_inside_block :
    let bs : List UInt8 := [0xF0, 0x01, 0x91, 0x02, 0xF7, 0x40, 0x7F]
    let note : Packet := ⟨0x09, ⟨0x91, 0x40, 0x7F⟩⟩
    ((new Cable.first).emissions bs)[6]? = some (some note) ∧ note.code.OfMessage ∧
      ∃ status, lastStatus (bs.map .byte) = some status ∧ note.payload.head? = some status := by
  intro bs note
  have hemitted : ((new Cable.first).emissions bs)[6]? = some (some note) := by decide
  have hcode : note.code.OfMessage := by decide
  exact ⟨hemitted, hcode,
    (data_in_order_and_status_latest Cable.first [] bs).2 6 note hemitted hcode⟩

end Encoder

end MidiBridge
