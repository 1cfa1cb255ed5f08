/-
Module: MidiBridge.Proofs.Encoder.Flat
Purpose: The encoder against a machine that has no framing states. The flat machine has one variable for the
  running status and one for an open block, and neither depends on the other. It counts the bytes in its
  accumulator and decides by the numbers that bytes and status bytes are. The encoder folds the two
  variables into one framing, which has to restore the status behind a block, and takes the layout of a
  message from a table. All the same, both complete the same packets at the same bytes of every stream.
Trusted boundary: human-reviewed spec
Main exports: Encoder.Flat, Encoder.Flat.step, Encoder.Flat.emissions, Encoder.Flat.Shows,
  Encoder.Flat.step_eq, Encoder.Flat.Agrees, Encoder.Flat.agrees_gather, Encoder.Flat.agrees_takeData,
  Encoder.Flat.agrees_step, Encoder.Flat.agrees_run, Encoder.refines_flat
-/
import MidiBridge.Proofs.Encoder.WellFormed

namespace MidiBridge.Encoder

/-- A machine with one variable for each thing that it remembers. -/
structure Flat where
  cable : Cable
  /-- The last status byte, whether it came inside of a block or outside; zero before the first. -/
  status : UInt8 := 0
  /-- The accumulator. -/
  data : Triple := ⟨0, 0, 0⟩
  /-- How many bytes of the accumulator are in use. -/
  counter : Nat := 0
  /-- Whether a block is open. -/
  sysExActive : Bool := false
deriving DecidableEq, Repr

namespace Flat

def new (cable : Cable) : Flat := { cable := cable }

/-- The running status, where zero stands for none. -/
def status? (m : Flat) : Option UInt8 := if m.status = 0 then none else some m.status

/-- The bytes of the accumulator that are in use. -/
def pending (m : Flat) : List UInt8 := m.data.toList.take m.counter

/-- A packet with the cable in the high half of its header and this code in the low half. -/
def packet (m : Flat) (code : UInt8) (data : Triple) : Packet :=
  ⟨(m.cable.number <<< 4) ||| code, data⟩

def append (m : Flat) (b : UInt8) : Flat :=
  { m with data := m.data.set m.counter b, counter := m.counter + 1 }

/-- Appends a byte. With `size` bytes in the accumulator a packet is due, and the counter starts again. -/
def gather (m : Flat) (b : UInt8) (size : Nat) (code : UInt8) (payload : Triple → Triple) :
    Flat × Option Packet :=
  if (m.append b).counter < size then (m.append b, none)
  else
    ({ m.append b with counter := 0 }, some ((m.append b).packet code (payload (m.append b).data)))

/-- How many data bytes a message with this status has, and the code of its packet. The halves of the
    status decide; most of the status bytes whose high half is `0xF` have no message. -/
def message? (status : UInt8) : Option (Nat × UInt8) :=
  let high := status >>> 4
  let low := status &&& 0x0F
  if high = 0xF then
    if low = 0x1 ∨ low = 0x3 then some (1, 0x2)
    else if low = 0x2 then some (2, 0x3)
    else none
  else if high = 0xC ∨ high = 0xD then some (1, high)
  else some (2, high)

/-- A data byte. Whether a block is open is asked first, and the status only after that. Under a status
    without a message the accumulator is filled up, and then the bytes are discarded. -/
def takeData (m : Flat) (b : UInt8) : Flat × Option Packet :=
  if m.sysExActive then m.gather b 3 0x4 id
  else if m.status = 0 then ({ m with counter := 0 }, none)
  else
    match message? m.status with
    | some (1, code) => m.gather b 1 code fun data => ⟨m.status, data.first, 0⟩
    | some (size, code) => m.gather b size code fun data => ⟨m.status, data.first, data.second⟩
    | none => if m.counter < 3 then (m.append b, none) else (m, none)

/-- Gives up the bytes in use if they leave no place for another one. -/
def makePlace (m : Flat) : Flat := if m.counter = 3 then { m with counter := 0 } else m

/-- The end of a block goes behind the bytes in use, and all of them go out. -/
def finish (m : Flat) (b : UInt8) : Flat × Option Packet :=
  let filled := m.makePlace.append b
  ({ filled with sysExActive := false, counter := 0 },
    some (filled.packet (0x4 + UInt8.ofNat filled.counter) (filled.data.keep filled.counter)))

/-- Takes the next byte of the stream. -/
def step (m : Flat) (b : UInt8) : Flat × Option Packet :=
  if b < 0x80 then m.takeData b
  else if b = 0xF8 ∨ (0xFA ≤ b ∧ b ≠ 0xFD) then (m, some (m.packet 0xF ⟨b, 0, 0⟩))
  else if 0xF4 ≤ b ∧ b ≤ 0xF6 then ({ m with counter := 0 }, some (m.packet 0x5 ⟨b, 0, 0⟩))
  else if b = 0xF0 then ({ m with sysExActive := true, data := m.data.set 0 b, counter := 1 }, none)
  else if b = 0xF7 then m.finish b
  else ({ m with status := b, counter := 0 }, none)

def run (m : Flat) (bs : List UInt8) : Flat := bs.foldl (fun m b => (m.step b).1) m

/-- For every byte of a stream the packet that it completed, if any. -/
def emissions (m : Flat) : List UInt8 → List (Option Packet)
  | [] => []
  | b :: bs => (m.step b).2 :: emissions (m.step b).1 bs

/-- The flat machine shows the same as an encoder does to the outside. -/
structure Shows (m : Flat) (v : View) : Prop where
  cable_eq : v.cable = m.cable
  status_eq : v.framing.status? = m.status?
  sysEx_eq : v.framing.isSysEx = m.sysExActive
  pending_eq : v.pending = m.pending
  counter_le : m.counter ≤ 3

theorem shows_new (cable : Cable) : (new cable).Shows (Encoder.new cable).view :=
  ⟨rfl, rfl, rfl, rfl, Nat.zero_le 3⟩

/-!
### The accumulator

It is a chunk whose count stands beside it.
-/

theorem Shows.length_pending {m : Flat} {v : View} (h : m.Shows v) : v.pending.length = m.counter := by
  rw [h.pending_eq]
  exact Chunk.length_toList (c := ⟨m.data, m.counter⟩) h.counter_le

theorem pending_append {m : Flat} (h : m.counter < 3) (b : UInt8) :
    (m.append b).pending = m.pending ++ [b] := by
  have hpush := Chunk.toList_push (c := ⟨m.data, m.counter⟩) h b
  have hsize : m.counter < Triple.size := h
  rw [Chunk.push, if_pos hsize] at hpush
  exact hpush

theorem keep_eq_ofList {m : Flat} (h : m.counter ≤ 3) :
    m.data.keep m.counter = Triple.ofList m.pending :=
  Chunk.padded_eq_ofList (c := ⟨m.data, m.counter⟩) h

/-- Appending a byte leaves everything alone but the accumulator. -/
theorem Shows.append {m : Flat} {v : View} (h : m.Shows v) (hroom : m.counter < 3) (b : UInt8) :
    (m.append b).Shows { v with pending := v.pending ++ [b] } where
  cable_eq := h.cable_eq
  status_eq := h.status_eq
  sysEx_eq := h.sysEx_eq
  pending_eq := by rw [pending_append hroom, ← h.pending_eq]
  counter_le := hroom

theorem Shows.clear {m : Flat} {v : View} (h : m.Shows v) :
    ({ m with counter := 0 } : Flat).Shows { v with pending := [] } where
  cable_eq := h.cable_eq
  status_eq := h.status_eq
  sysEx_eq := h.sysEx_eq
  pending_eq := rfl
  counter_le := Nat.zero_le 3

/-!
### Numbers and classes

The ranges of the flat machine are the classes of bytes, and its halves of a status are the table of
layouts.
-/

theorem realTime_iff (b : UInt8) :
    ByteClass.ofByte b = .realTime ↔ b = 0xF8 ∨ (0xFA ≤ b ∧ b ≠ 0xFD) := by
  revert b
  rw [Byte.forall_iff]
  decide

theorem message?_eq {status : UInt8} (h : ByteClass.ofByte status = .status) :
    message? status = (Layout.ofStatus? status).map fun l => (l.dataLength, l.code.value) := by
  revert status
  rw [Byte.forall_iff]
  decide

theorem ne_zero_of_status {status : UInt8} (h : ByteClass.ofByte status = .status) : status ≠ 0 := by
  rintro rfl
  cases h

theorem step_eq (m : Flat) (b : UInt8) :
    m.step b =
      match ByteClass.ofByte b with
      | .realTime => (m, some (m.packet 0xF ⟨b, 0, 0⟩))
      | .singleCommon => ({ m with counter := 0 }, some (m.packet 0x5 ⟨b, 0, 0⟩))
      | .sysExStart => ({ m with sysExActive := true, data := m.data.set 0 b, counter := 1 }, none)
      | .sysExEnd => m.finish b
      | .status => ({ m with status := b, counter := 0 }, none)
      | .data => m.takeData b := by
  have hstart : b = 0xF0 ↔ ByteClass.ofByte b = .sysExStart :=
    (ByteClass.ofByte_eq_sysExStart_iff b).symm
  have hend : b = 0xF7 ↔ ByteClass.ofByte b = .sysExEnd := (ByteClass.ofByte_eq_sysExEnd_iff b).symm
  simp only [step, ← ByteClass.ofByte_eq_data_iff, ← realTime_iff, ← ByteClass.ofByte_eq_singleCommon_iff,
    hstart, hend]
  cases hclass : ByteClass.ofByte b <;> simp

/-!
### One step

What the flat machine makes of a byte agrees with the outcome on the side of the encoder.
-/

/-- The same packet or none, and the same to be seen afterwards. -/
structure Agrees (r : Flat × Option Packet) (o : View.Outcome) : Prop where
  shows : r.1.Shows o.view
  packet_eq : r.2 = o.packet?

/-- Gathering agrees if the payload consists of the bytes in use, behind a status or nothing. -/
theorem agrees_gather {m : Flat} {v : View} (h : m.Shows v) (b : UInt8) {size : Nat}
    (hroom : m.counter < size) (hsize : size ≤ 3) (code : CodeIndex) (front : List UInt8)
    {payload : Triple → Triple}
    (hpayload : ∀ data, payload data = Triple.ofList (front ++ data.toList.take size)) :
    Agrees (m.gather b size code.value payload)
      (v.gather size b fun bytes => Packet.carrying v.cable code (front ++ bytes)) := by
  have hthree : m.counter < 3 := Nat.lt_of_lt_of_le hroom hsize
  have happend := h.append hthree b
  have hcounter : (m.append b).counter = v.pending.length + 1 :=
    congrArg (· + 1) h.length_pending.symm
  unfold gather View.gather
  rw [hcounter]
  by_cases hshort : v.pending.length + 1 < size
  · rw [if_pos hshort, if_pos hshort]
    exact ⟨happend, rfl⟩
  · have hfull : (m.append b).counter = size := by
      have hlength := h.length_pending
      omega
    have hdata : payload (m.append b).data = Triple.ofList (front ++ (v.pending ++ [b])) := by
      rw [hpayload, ← hfull]
      exact congrArg (fun bytes => Triple.ofList (front ++ bytes)) happend.pending_eq.symm
    rw [if_neg hshort, if_neg hshort, hdata]
    refine ⟨happend.clear, ?_⟩
    rw [h.cable_eq]
    rfl

/-!
Data bytes, by what the two variables say.
-/

section TakeData

variable {m : Flat} (b : UInt8)

theorem takeData_of_sysEx (hactive : m.sysExActive = true) :
    m.takeData b = m.gather b 3 CodeIndex.sysExStart.value id := by
  simp [takeData, hactive, CodeIndex.value]

theorem takeData_of_zero (hactive : m.sysExActive = false) (hzero : m.status = 0) :
    m.takeData b = ({ m with counter := 0 }, none) := by
  simp [takeData, hactive, hzero]

variable (hactive : m.sysExActive = false) (hclass : ByteClass.ofByte m.status = .status)

include hactive hclass

theorem takeData_of_undefined (hlayout : Layout.ofStatus? m.status = none) :
    m.takeData b = if m.counter < 3 then (m.append b, none) else (m, none) := by
  simp [takeData, hactive, ne_zero_of_status hclass, message?_eq hclass, hlayout]

/-- The payload of a message is its status and the data bytes that the layout asks for. -/
theorem takeData_of_layout {layout : Layout} (hlayout : Layout.ofStatus? m.status = some layout) :
    ∃ payload : Triple → Triple,
      m.takeData b = m.gather b layout.dataLength layout.code.value payload ∧
      ∀ data, payload data = Triple.ofList ([m.status] ++ data.toList.take layout.dataLength) := by
  have hbounds := Layout.dataLength_bounds hlayout
  have hcases : layout.dataLength = 1 ∨ layout.dataLength = 2 := by omega
  rcases hcases with hone | htwo
  · refine ⟨fun data => ⟨m.status, data.first, 0⟩, ?_, ?_⟩
    · simp [takeData, hactive, ne_zero_of_status hclass, message?_eq hclass, hlayout, hone]
    · intro data
      rw [hone]
      rfl
  · refine ⟨fun data => ⟨m.status, data.first, data.second⟩, ?_, ?_⟩
    · simp [takeData, hactive, ne_zero_of_status hclass, message?_eq hclass, hlayout, htwo]
    · intro data
      rw [htwo]
      rfl

end TakeData

theorem agrees_takeData {m : Flat} {v : View} (h : m.Shows v) (hfits : v.framing.Fits v.pending)
    (b : UInt8) : Agrees (m.takeData b) (v.collect b) := by
  have hactive := h.sysEx_eq.symm
  have hstatus := h.status_eq
  have hlength := h.length_pending
  obtain ⟨cable, framing, bytes⟩ := v
  cases framing with
  | idle =>
      have hzero : m.status = 0 := by simpa [Framing.status?, status?] using hstatus
      rw [takeData_of_zero b hactive hzero]
      exact ⟨h.clear, rfl⟩
  | sysEx resume =>
      have htwo : bytes.length ≤ 2 := hfits.2.1
      have hroom : m.counter < 3 := hlength ▸ Nat.lt_succ_of_le htwo
      rw [takeData_of_sysEx b hactive]
      exact agrees_gather h b hroom (Nat.le_refl 3) .sysExStart [] fun data => rfl
  | running status =>
      obtain ⟨hclass, -, hcount⟩ := hfits
      have hsame : m.status = status := by
        simp only [Framing.status?, status?] at hstatus
        split at hstatus
        · cases hstatus
        · exact (Option.some.inj hstatus).symm
      subst hsame
      cases hlayout : Layout.ofStatus? m.status with
      | none =>
          rw [takeData_of_undefined b hactive hclass hlayout]
          simp only [View.collect, hlayout, hlength]
          by_cases hroom : m.counter < 3
          · rw [if_pos hroom, if_pos hroom]
            exact ⟨h.append hroom b, rfl⟩
          · rw [if_neg hroom, if_neg hroom]
            exact ⟨h, rfl⟩
      | some layout =>
          have hbounds := Layout.dataLength_bounds hlayout
          have hroom : m.counter < layout.dataLength := by
            rw [hlayout, hlength] at hcount
            exact hcount
          obtain ⟨payload, htake, hpayload⟩ := takeData_of_layout b hactive hclass hlayout
          simp only [View.collect, hlayout, htake]
          exact agrees_gather h b hroom (Nat.le_succ_of_le hbounds.2) layout.code [m.status] hpayload

/-- The bytes in use as the last packet of a block. -/
theorem packet_tail {m : Flat} (h : m.counter ≤ 3) :
    m.packet (0x4 + UInt8.ofNat m.counter) (m.data.keep m.counter)
      = Packet.carrying m.cable (CodeIndex.sysExTail m.pending.length) m.pending := by
  have hlength : m.pending.length = m.counter := Chunk.length_toList (c := ⟨m.data, m.counter⟩) h
  rw [keep_eq_ofList h, hlength, ← CodeIndex.value_sysExTail h]
  rfl

theorem agrees_finish {m : Flat} {v : View} {rest : List UInt8}
    (h : m.makePlace.Shows { v with pending := rest }) (hroom : m.makePlace.counter < 3) (b : UInt8)
    (discard? : Option Discard) : Agrees (m.finish b) (v.finishSysEx (rest ++ [b]) discard?) := by
  have happend := h.append hroom b
  have hpending : rest ++ [b] = (m.makePlace.append b).pending := happend.pending_eq
  have hcable : v.cable = (m.makePlace.append b).cable := happend.cable_eq
  constructor
  case shows =>
    exact ⟨h.cable_eq, (Framing.status?_outside _).trans h.status_eq, Framing.isSysEx_outside _, rfl,
      Nat.zero_le 3⟩
  case packet_eq =>
    rw [View.finishSysEx, hpending, hcable, ← packet_tail happend.counter_le]
    rfl

/-- Every byte, in every state, well placed or not. -/
theorem agrees_step {m : Flat} {v : View} (h : m.Shows v) (hfits : v.framing.Fits v.pending)
    (b : UInt8) : Agrees (m.step b) (v.step b) := by
  rw [step_eq]
  cases hclass : ByteClass.ofByte b with
  | realTime =>
      simp only [View.step, hclass, h.cable_eq]
      exact ⟨h.cable_eq ▸ h, rfl⟩
  | singleCommon =>
      simp only [View.step, hclass, h.cable_eq]
      exact ⟨h.cable_eq ▸ h.clear, rfl⟩
  | sysExStart =>
      simp only [View.step, hclass]
      exact ⟨⟨h.cable_eq, h.status_eq, rfl, rfl, Nat.le_add_left 1 2⟩, rfl⟩
  | sysExEnd =>
      simp only [View.step, hclass, h.length_pending]
      by_cases hfull : m.counter = 3
      · have hplace : m.makePlace = { m with counter := 0 } := if_pos hfull
        have hshows : m.makePlace.Shows { v with pending := [] } := by
          rw [hplace]
          exact h.clear
        have hroom : m.makePlace.counter < 3 := by
          rw [hplace]
          exact Nat.zero_lt_succ 2
        rw [if_neg (by omega)]
        exact agrees_finish hshows hroom b _
      · have hplace : m.makePlace = m := if_neg hfull
        have hroom : m.counter < 3 := Nat.lt_of_le_of_ne h.counter_le hfull
        rw [if_pos hroom]
        rw [← hplace] at h hroom
        exact agrees_finish h hroom b none
  | status =>
      simp only [View.step, hclass]
      refine ⟨⟨h.cable_eq, ?_, ?_, rfl, Nat.zero_le 3⟩, rfl⟩
      · simp [status?, ne_zero_of_status hclass]
      · simp [h.sysEx_eq]
  | data =>
      simp only [View.step, hclass]
      exact agrees_takeData h hfits b

/-!
### Streams
-/

theorem agrees_run {m : Flat} {v : View} (h : m.Shows v) (hfits : v.framing.Fits v.pending)
    (bs : List UInt8) : (m.run bs).Shows (v.run bs) ∧ m.emissions bs = v.emissions bs := by
  induction bs generalizing m v with
  | nil => exact ⟨h, rfl⟩
  | cons b bs ih =>
      have hstep := agrees_step h hfits b
      obtain ⟨hshows, hrest⟩ := ih hstep.shows (fits_step hfits b)
      refine ⟨hshows, ?_⟩
      simp only [emissions, View.emissions, hstep.packet_eq, hrest]

end Flat

/-- An encoder and a flat machine on the same cable, both from the start, over the same stream, whatever
    bytes it has. They complete the same packet or none at every byte. At the end of the stream, and so at
    every point on the way, they show the same running status, an open block or none, and the same pending
    bytes; and the flat machine never counts beyond its accumulator. -/
theorem refines_flat (cable : Cable) (bs : List UInt8) :
    let e := (new cable).run bs
    let m := (Flat.new cable).run bs
    (new cable).emissions bs = (Flat.new cable).emissions bs ∧
      e.framing.status? = (if m.status = 0 then none else some m.status) ∧
      (e.framing.isSysEx = true ↔ m.sysExActive = true) ∧
      e.pending = m.data.toList.take m.counter ∧ m.counter ≤ 3 := by
  intro e m
  have hsound := sound_new cable
  obtain ⟨hshows, hemissions⟩ := Flat.agrees_run (Flat.shows_new cable) hsound.fits bs
  rw [← view_run hsound] at hshows
  rw [← emissions_eq hsound] at hemissions
  refine ⟨hemissions.symm, hshows.status_eq, ?_, hshows.pending_eq, hshows.counter_le⟩
  rw [← hshows.sysEx_eq]
  rfl

/-- Three bytes of an undefined message fill the accumulator, and the end of a block that never began takes
    their place. The status byte inside of the next block runs when that block has ended. -/
example : (Flat.new Cable.first).emissions [0xFD, 1, 2, 3, 4, 0xF7, 0xF0, 0x91, 5, 0xF7, 6, 7]
    = [none, none, none, none, none, some ⟨0x05, ⟨0xF7, 0, 0⟩⟩, none, none, none,
      some ⟨0x06, ⟨5, 0xF7, 0⟩⟩, none, some ⟨0x09, ⟨0x91, 6, 7⟩⟩] := by decide

end MidiBridge.Encoder
