/-
Module: MidiBridge.Proofs.Encoder.Stability
Purpose: Encoding again what was decoded. The packets of a stream, malformed as the stream may be, come out
  unchanged when their bytes go through a new encoder, unless a block has lost its beginning or has got
  an end that it does not own. The first happens if a status byte or a message of one byte arrives while
  `0xF0` still waits in the first packet of its block, and the second if `0xF7` arrives outside of a block
  behind the data of a message that is cut off. For all other streams the packets are canonical: by
  induction over the stream, which follows the place of the next packet beside the state of the encoder.
  Whether a block is open at that place is not what the encoder thinks, since a block opens among the
  packets only when its first one is complete.
Trusted boundary: human-reviewed spec
Main exports: Encoder.LosesStart, Encoder.BorrowsEnd, Encoder.Unbroken, Encoder.View.Tracks,
  Encoder.View.tracks_step, Encoder.Sound.canonical_packets, Encoder.packets_stream_packets
-/
import MidiBridge.Proofs.Encoder.Blocks
import MidiBridge.Proofs.Encoder.Transparency

namespace MidiBridge

theorem Layout.code_ne_sysExStart {status : UInt8} {layout : Layout}
    (hclass : ByteClass.ofByte status = .status) (hlayout : Layout.ofStatus? status = some layout) :
    layout.code ≠ .sysExStart := by
  have hintroduces := Byte.introduces_of_layout hclass hlayout
  rw [Layout.ofStatus?_of_introduces hintroduces] at hlayout
  cases hlayout
  exact CodeIndex.ofStatus_ne_sysExStart hintroduces

theorem Framing.Fits.length_le_of_isSysEx {framing : Framing} {bytes : List UInt8}
    (h : framing.Fits bytes) (hopen : framing.isSysEx = true) : bytes.length ≤ 2 := by
  cases framing with
  | idle => cases hopen
  | running status => cases hopen
  | sysEx resume => exact h.2.1

namespace Packet

/-- What one byte may add to canonical packets: nothing, or one packet with a shape for its place. -/
inductive Continues (cable : Cable) (inBlock : Bool) : Option Packet → Bool → Prop where
  | nothing : Continues cable inBlock none inBlock
  | packet {code : CodeIndex} {bytes : List UInt8} {inBlock' : Bool} (shape : Shape inBlock code bytes)
      (after : blockAfter inBlock code bytes = inBlock') :
      Continues cable inBlock (some (carrying cable code bytes)) inBlock'

theorem Continues.canonical {cable : Cable} {inBlock inBlock' : Bool} {packet? : Option Packet}
    {ps : List Packet} (h : Continues cable inBlock packet? inBlock')
    (hrest : Canonical cable inBlock' ps) : Canonical cable inBlock (packet?.toList ++ ps) := by
  cases h with
  | nothing => exact hrest
  | packet shape after =>
      apply Canonical.cons shape
      rw [after]
      exact hrest

/-- The end of a block closes it, wherever it stands. -/
theorem blockAfter_end (inBlock : Bool) {code : CodeIndex} (hcode : code ≠ .sysExStart)
    (bytes : List UInt8) : blockAfter inBlock code (bytes ++ [Byte.sysExEnd]) = false := by
  have hstart : ¬ (code = .sysExStart ∧ (bytes ++ [Byte.sysExEnd]).head? = some Byte.sysExStart) :=
    fun h => hcode h.1
  rw [blockAfter, if_neg hstart, if_pos List.getLast?_concat]

/-- Where no block is open, only the first packet of a block opens one. -/
theorem blockAfter_closed {code : CodeIndex} (hcode : code ≠ .sysExStart) (bytes : List UInt8) :
    blockAfter false code bytes = false := by
  rw [blockAfter, if_neg fun h => hcode h.1]
  exact ite_self false

/-- A full packet of a block leaves the block open: it has begun in this packet or before. -/
theorem blockAfter_part {inBlock : Bool} {bytes : List UInt8} {b : UInt8} (hb : b ≠ Byte.sysExEnd)
    (h : (bytes ++ [b]).head? = some Byte.sysExStart ∨ inBlock = true) :
    blockAfter inBlock .sysExStart (bytes ++ [b]) = true := by
  have hlast : (bytes ++ [b]).getLast? ≠ some Byte.sysExEnd := by
    rw [List.getLast?_concat]
    exact fun heq => hb (Option.some.inj heq)
  by_cases hfirst : (bytes ++ [b]).head? = some Byte.sysExStart
  · rw [blockAfter, if_pos ⟨rfl, hfirst⟩]
  · rw [blockAfter, if_neg (fun hstart => hfirst hstart.2), if_neg hlast]
    exact h.resolve_left hfirst

end Packet

namespace Encoder

/-- The byte makes the encoder forget the `0xF0` of a block whose first packet is not complete. -/
def LosesStart (e : Encoder) (b : UInt8) : Prop :=
  (ByteClass.ofByte b = .status ∨ ByteClass.ofByte b = .singleCommon) ∧
    e.framing.isSysEx = true ∧ e.pending.head? = some Byte.sysExStart

/-- The byte ends a block that is not open, and takes the data of a message with it. -/
def BorrowsEnd (e : Encoder) (b : UInt8) : Prop :=
  b = Byte.sysExEnd ∧ e.framing.isSysEx = false ∧ e.pending ≠ []

instance (e : Encoder) (b : UInt8) : Decidable (e.LosesStart b) :=
  inferInstanceAs (Decidable (_ ∧ _))

instance (e : Encoder) (b : UInt8) : Decidable (e.BorrowsEnd b) :=
  inferInstanceAs (Decidable (_ ∧ _))

/-- A stream in which no block loses its beginning and none gets an end from outside. -/
def Unbroken (e : Encoder) : List UInt8 → Prop
  | [] => True
  | b :: bs => ¬ e.LosesStart b ∧ ¬ e.BorrowsEnd b ∧ Unbroken (e.step b).encoder bs

instance decidableUnbroken (e : Encoder) : (bs : List UInt8) → Decidable (e.Unbroken bs)
  | [] => inferInstanceAs (Decidable True)
  | b :: bs =>
      have := decidableUnbroken (e.step b).encoder bs
      inferInstanceAs (Decidable (_ ∧ _ ∧ _))

namespace View

/-!
### The place of the next packet

Outside of a block the encoder knows that no block is open among the packets. Inside, the block is open
among the packets, or its `0xF0` is still pending.
-/

structure Tracks (inBlock : Bool) (v : View) : Prop where
  inside : v.framing.isSysEx = true → v.pending.head? = some Byte.sysExStart ∨ inBlock = true
  outside : v.framing.isSysEx = false → inBlock = false

theorem tracks_outside (cable : Cable) (resume : Option UInt8) :
    Tracks false ⟨cable, Framing.outside resume, []⟩ := by
  constructor
  · intro h
    rw [Framing.isSysEx_outside] at h
    cases h
  · exact fun _ => rfl

theorem tracks_sysEx {inBlock : Bool} (cable : Cable) (resume : Option UInt8) {bytes : List UInt8}
    (h : bytes.head? = some Byte.sysExStart ∨ inBlock = true) :
    Tracks inBlock ⟨cable, .sysEx resume, bytes⟩ := by
  constructor
  · exact fun _ => h
  · intro hclosed
    cases hclosed

/-- Where the pending bytes do not begin a block, any others may stand in their place. -/
theorem Tracks.replace {inBlock : Bool} {v v' : View} (h : Tracks inBlock v)
    (hframing : v'.framing.isSysEx = v.framing.isSysEx)
    (hkept : v.framing.isSysEx = true → v.pending.head? ≠ some Byte.sysExStart) :
    Tracks inBlock v' := by
  constructor
  · intro hopen
    rw [hframing] at hopen
    exact Or.inr ((h.inside hopen).resolve_left (hkept hopen))
  · intro hclosed
    rw [hframing] at hclosed
    exact h.outside hclosed

theorem Tracks.replace_outside {inBlock : Bool} {v v' : View} (h : Tracks inBlock v)
    (hframing : v'.framing.isSysEx = v.framing.isSysEx) (hclosed : v.framing.isSysEx = false) :
    Tracks inBlock v' := by
  apply h.replace hframing
  intro hopen
  rw [hclosed] at hopen
  cases hopen

/-- A data byte behind the pending bytes changes nothing. -/
theorem Tracks.append {inBlock : Bool} {v : View} (h : Tracks inBlock v) (b : UInt8) :
    Tracks inBlock { v with pending := v.pending ++ [b] } := by
  constructor
  · intro hopen
    rcases h.inside hopen with hstart | hin
    · left
      rw [List.head?_append, hstart]
      rfl
    · exact Or.inr hin
  · exact h.outside

/-- What a packet that takes the pending bytes needs to know about its place. -/
theorem Tracks.place {inBlock : Bool} {v : View} (h : Tracks inBlock v)
    (hopen : v.framing.isSysEx = true) :
    ∀ x ∈ v.pending.head?, x = Byte.sysExStart ∨ inBlock = true := by
  intro x hx
  rcases h.inside hopen with hstart | hin
  · rw [hstart] at hx
    exact Or.inl (Option.some.inj hx).symm
  · exact Or.inr hin

section Step

variable {inBlock : Bool} {v : View} {b : UInt8}

theorem tracks_collect (hfits : v.framing.Fits v.pending) (htracks : v.Tracks inBlock)
    (hb : ByteClass.ofByte b = .data) :
    ∃ inBlock', Packet.Continues v.cable inBlock (v.collect b).packet? inBlock' ∧
      (v.collect b).view.Tracks inBlock' := by
  have hnext := htracks.append b
  rcases v with ⟨cable, framing, bytes⟩
  cases framing with
  | idle => exact ⟨inBlock, .nothing, htracks.replace_outside rfl rfl⟩
  | sysEx resume =>
      by_cases hshort : bytes.length + 1 < 3
      · simp only [collect, gather, if_pos hshort]
        exact ⟨inBlock, .nothing, hnext⟩
      · have hmost : bytes.length ≤ 2 := hfits.2.1
        have htwo : bytes.length = 2 := by omega
        have hne : b ≠ Byte.sysExEnd := (Byte.ne_of_data ((ByteClass.ofByte_eq_data_iff b).1 hb)).2
        have hshape := shape_blockPart hfits htwo hb (htracks.place rfl)
        have hafter := Packet.blockAfter_part hne (hnext.inside rfl)
        simp only [collect, gather, if_neg hshort]
        exact ⟨true, .packet hshape hafter, tracks_sysEx cable resume (Or.inr rfl)⟩
  | running status =>
      cases htracks.outside rfl
      cases hlayout : Layout.ofStatus? status with
      | none =>
          by_cases hroom : bytes.length < 3
          · simp only [collect, hlayout, if_pos hroom]
            exact ⟨false, .nothing, hnext⟩
          · simp only [collect, hlayout, if_neg hroom]
            exact ⟨false, .nothing, htracks⟩
      | some layout =>
          by_cases hshort : bytes.length + 1 < layout.dataLength
          · simp only [collect, gather, hlayout, if_pos hshort]
            exact ⟨false, .nothing, hnext⟩
          · have hfew := hfits.2.2
            rw [hlayout] at hfew
            have hlast : bytes.length + 1 = layout.dataLength :=
              Nat.le_antisymm hfew (Nat.not_lt.1 hshort)
            have hcode := Layout.code_ne_sysExStart hfits.1 hlayout
            have hafter := Packet.blockAfter_closed hcode (status :: (bytes ++ [b]))
            simp only [collect, gather, hlayout, if_neg hshort]
            exact ⟨false, .packet (shape_message hfits hb hlayout hlast) hafter,
              htracks.replace_outside rfl rfl⟩

/-- One byte that breaks no block adds a packet with a shape for its place, or none, and keeps track. -/
theorem tracks_step (hfits : v.framing.Fits v.pending) (htracks : v.Tracks inBlock)
    (hstart : ByteClass.ofByte b = .status ∨ ByteClass.ofByte b = .singleCommon →
      v.framing.isSysEx = true → v.pending.head? ≠ some Byte.sysExStart)
    (hend : b = Byte.sysExEnd → v.framing.isSysEx = false → v.pending = []) :
    ∃ inBlock', Packet.Continues v.cable inBlock (v.step b).packet? inBlock' ∧
      (v.step b).view.Tracks inBlock' := by
  cases hclass : ByteClass.ofByte b with
  | realTime =>
      have hclock := (Byte.isRealTime_iff b).1 ((ByteClass.ofByte_eq_realTime_iff b).1 hclass)
      have hne : b ≠ Byte.sysExEnd := by
        rintro rfl
        cases hclass
      simp only [step, hclass]
      exact ⟨inBlock, .packet (.realTime b hclock)
        (Packet.blockAfter_single inBlock CodeIndex.noConfusion hne), htracks⟩
  | singleCommon =>
      have hcommon := (ByteClass.ofByte_eq_singleCommon_iff b).1 hclass
      have hne : b ≠ Byte.sysExEnd := by
        rintro rfl
        cases hclass
      simp only [step, hclass]
      exact ⟨inBlock, .packet (.single b hcommon)
        (Packet.blockAfter_single inBlock CodeIndex.noConfusion hne),
        htracks.replace rfl (hstart (Or.inr hclass))⟩
  | sysExStart =>
      have hb : b = Byte.sysExStart := (ByteClass.ofByte_eq_sysExStart_iff b).1 hclass
      simp only [step, hclass]
      exact ⟨inBlock, .nothing, tracks_sysEx v.cable _ (Or.inl (congrArg some hb))⟩
  | sysExEnd =>
      have hb : b = Byte.sysExEnd := (ByteClass.ofByte_eq_sysExEnd_iff b).1 hclass
      -- Inside of a block at most two bytes are pending, and outside there is nothing pending.
      have hpending : v.pending.length ≤ 2 ∧
          ∀ x ∈ v.pending.head?, x = Byte.sysExStart ∨ inBlock = true := by
        cases hopen : v.framing.isSysEx with
        | true => exact ⟨hfits.length_le_of_isSysEx hopen, htracks.place hopen⟩
        | false =>
            rw [hend hb hopen]
            refine ⟨Nat.zero_le 2, ?_⟩
            intro x hx
            cases hx
      obtain ⟨htwo, hplace⟩ := hpending
      have hstartCode : CodeIndex.sysExStart.value.toNat = 4 := rfl
      have hcode : CodeIndex.sysExTail (v.pending.length + 1) ≠ .sysExStart :=
        CodeIndex.sysExTail_ne (Nat.succ_le_succ htwo) (by omega)
      rw [hb, step_sysExEnd htwo]
      exact ⟨false, .packet (shape_blockEnd hfits htwo hplace)
        (Packet.blockAfter_end inBlock hcode v.pending), tracks_outside v.cable _⟩
  | status =>
      simp only [step, hclass]
      exact ⟨inBlock, .nothing,
        htracks.replace (Framing.isSysEx_withStatus v.framing b) (hstart (Or.inl hclass))⟩
  | data =>
      simp only [step, hclass]
      exact tracks_collect hfits htracks hclass

end Step

end View

/-!
### Streams
-/

/-- The packets of a stream in which no block is broken are canonical for every place that the encoder
    tracks. -/
theorem Sound.canonical_packets {e : Encoder} (h : e.Sound) {inBlock : Bool}
    (htracks : e.view.Tracks inBlock) {bs : List UInt8} (hbs : e.Unbroken bs) :
    Packet.Canonical e.cable inBlock (e.packets bs) := by
  induction bs generalizing e inBlock with
  | nil => trivial
  | cons b bs ih =>
      obtain ⟨hstart, hend, hrest⟩ := hbs
      obtain ⟨inBlock', hcontinues, hnext⟩ := View.tracks_step h.fits htracks
        (fun hclass hopen hfirst => hstart ⟨hclass, hopen, hfirst⟩)
        (fun hb hclosed => Decidable.byContradiction fun hne => hend ⟨hb, hclosed, hne⟩)
      rw [← view_step h b] at hcontinues hnext
      have hcanonical := ih (sound_step h b) hnext hrest
      rw [cable_step] at hcanonical
      rw [packets_cons]
      exact hcontinues.canonical hcanonical

/-- The packets of a stream are encoded again as they are, if only no block has lost its beginning or got
    an end from outside. Messages that are cut off, data that belongs to nothing, blocks that are never
    closed or begin again, ends without a block, and status bytes and messages of one byte in the later
    parts of a block are all allowed. -/
theorem packets_stream_packets (cable : Cable) {bs : List UInt8} (h : (new cable).Unbroken bs) :
    let ps := (new cable).packets bs
    (new cable).packets (Packet.stream ps) = ps := by
  intro ps
  have hsound := sound_new cable
  have htracks : (new cable).view.Tracks false := View.tracks_outside cable none
  have hbetween : View.Between cable false (new cable).view := View.between_outside cable none
  have hcanonical : Packet.Canonical cable false ps := hsound.canonical_packets htracks h
  rw [packets_eq hsound]
  exact View.packets_canonical hbetween hcanonical

/-- Data without a status, and under a status without a meaning; a message that is cut off by a block; a
    block that begins again; a message of one byte and a status inside a block, which runs after it; an end
    without a block; and a block without an end. -/
theorem packets_stream_packets_malformed :
    let bs : List UInt8 :=
      [0x05, 0xF9, 0x11, 0x12, 0x90, 0x40, 0xF0, 0x01, 0xF8, 0xF0, 0x02, 0x03, 0x04, 0xF6, 0xC1,
        0x06, 0xF7, 0x33, 0xF7, 0x34, 0xF0, 0x7F]
    let ps : List Packet :=
      [⟨0x2F, ⟨0xF8, 0, 0⟩⟩, ⟨0x24, ⟨0xF0, 0x02, 0x03⟩⟩, ⟨0x25, ⟨0xF6, 0, 0⟩⟩,
        ⟨0x26, ⟨0x06, 0xF7, 0⟩⟩, ⟨0x2C, ⟨0xC1, 0x33, 0⟩⟩, ⟨0x25, ⟨0xF7, 0, 0⟩⟩,
        ⟨0x2C, ⟨0xC1, 0x34, 0⟩⟩]
    let cable := Cable.ofNibble 2
    (new cable).Unbroken bs ∧ (new cable).packets bs = ps ∧
      (new cable).packets (Packet.stream ps) = ps := by
  intro bs ps cable
  have hunbroken : (new cable).Unbroken bs := by decide +kernel
  have hpackets : (new cable).packets bs = ps := by decide +kernel
  have hstable := packets_stream_packets cable hunbroken
  rw [hpackets] at hstable
  exact ⟨hunbroken, hpackets, hstable⟩

/-- A block that has lost its beginning goes on without it, and its data is lost the second time. -/
example :
    let bs : List UInt8 := [0xF0, 0xF6, 0x01, 0x02, 0x03]
    let ps := (new Cable.first).packets bs
    ¬ (new Cable.first).Unbroken bs ∧ (new Cable.first).packets (Packet.stream ps) ≠ ps := by
  decide +kernel

/-- Data of a message that is cut off comes out with the end of a block, and has no status the second
    time. -/
example :
    let bs : List UInt8 := [0x90, 0x40, 0xF7]
    let ps := (new Cable.first).packets bs
    ¬ (new Cable.first).Unbroken bs ∧ (new Cable.first).packets (Packet.stream ps) ≠ ps := by
  decide +kernel

end Encoder

end MidiBridge
