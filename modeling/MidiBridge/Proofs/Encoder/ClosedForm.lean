/-
Module: MidiBridge.Proofs.Encoder.ClosedForm
Purpose: The state of an encoder read off its input, without running it. Of all the bytes that an encoder was
  given, whole or broken, only the end counts: the last status byte, whether a block was opened after the last
  end of one, and the data bytes behind the last byte that is not data. How many of these data bytes are
  pending is a matter of division by the size of the packets that they went into.
Trusted boundary: human-reviewed spec
Main exports: Encoder.Tail.status?, Encoder.Tail.mark?, Encoder.Tail.data, Encoder.Tail.IsOpen,
  Encoder.Tail.isOpen_iff, Encoder.Tail.block, Encoder.Tail.rest, Encoder.Tail.pending,
  Encoder.Tail.step_view, Encoder.Tail.run_view, Encoder.state_closed_form
-/
import Mathlib.Data.List.DropRight
import Mathlib.Data.List.Induction
import MidiBridge.Proofs.Encoder.WellFormed

namespace MidiBridge.Encoder

/-!
### The end of a stream

All of this is said about a stream without real-time bytes.
-/

namespace Tail

def isData (b : UInt8) : Bool := ByteClass.ofByte b == .data

/-- The last status byte proper. -/
def status? (t : List UInt8) : Option UInt8 := (t.filter (ByteClass.ofByte · == .status)).getLast?

/-- The last byte that is not data. -/
def mark? (t : List UInt8) : Option UInt8 := (t.filter (!isData ·)).getLast?

/-- The data bytes behind the last byte that is not data. -/
def data (t : List UInt8) : List UInt8 := t.rtakeWhile isData

/-- Behind the last end of a block there is the start of one. -/
def IsOpen (t : List UInt8) : Prop := Byte.sysExStart ∈ t.rtakeWhile (· != Byte.sysExEnd)

instance : DecidablePred IsOpen := fun t =>
  inferInstanceAs (Decidable (Byte.sysExStart ∈ t.rtakeWhile (· != Byte.sysExEnd)))

/-- The bytes that an open block sends out in groups of three. The byte that opened it is one of them if
    nothing but data came after it. -/
def block (t : List UInt8) : List UInt8 :=
  if mark? t = some Byte.sysExStart then Byte.sysExStart :: data t else data t

/-- What is left of some bytes when they are taken away in groups of `size` from the front. -/
def rest (size : Nat) (bytes : List UInt8) : List UInt8 := bytes.rtake (bytes.length % size)

/-- The bytes that are collected towards the next packet. -/
def pending (t : List UInt8) : List UInt8 :=
  if IsOpen t then rest 3 (block t)
  else
    match status? t with
    | none => []
    | some status =>
        match Layout.ofStatus? status with
        | some layout => rest layout.dataLength (data t)
        | none => (data t).take 3

def framing (t : List UInt8) : Framing :=
  if IsOpen t then .sysEx (status? t) else Framing.outside (status? t)

/-- An encoder that was given this stream, as it looks from outside. -/
def view (cable : Cable) (t : List UInt8) : View := ⟨cable, framing t, pending t⟩

/-!
### One more byte
-/

theorem status?_concat (t : List UInt8) (b : UInt8) :
    status? (t ++ [b]) = if ByteClass.ofByte b = .status then some b else status? t := by
  by_cases h : ByteClass.ofByte b = .status
  · simp [status?, List.filter_append, h]
  · simp [status?, List.filter_append, h]

theorem mark?_concat (t : List UInt8) (b : UInt8) :
    mark? (t ++ [b]) = if isData b then mark? t else some b := by
  cases h : isData b with
  | true => simp [mark?, List.filter_append, h]
  | false => simp [mark?, List.filter_append, h]

theorem data_concat (t : List UInt8) (b : UInt8) :
    data (t ++ [b]) = if isData b then data t ++ [b] else [] :=
  List.rtakeWhile_concat isData t b

theorem isOpen_concat (t : List UInt8) (b : UInt8) :
    IsOpen (t ++ [b]) ↔ b = Byte.sysExStart ∨ (b ≠ Byte.sysExEnd ∧ IsOpen t) := by
  have hne : Byte.sysExStart ≠ Byte.sysExEnd := by decide
  unfold IsOpen
  rw [List.rtakeWhile_concat]
  by_cases hend : b = Byte.sysExEnd
  · subst hend
    simp [hne.symm]
  · rw [if_pos (bne_iff_ne.2 hend), List.mem_append, List.mem_singleton]
    constructor
    · rintro (hopen | hstart)
      · exact Or.inr ⟨hend, hopen⟩
      · exact Or.inl hstart.symm
    · rintro (hstart | ⟨-, hopen⟩)
      · exact Or.inr hstart.symm
      · exact Or.inl hopen

/-- Said with the bytes around it: a start of a block, and no end of one behind it. -/
theorem isOpen_iff (t : List UInt8) :
    IsOpen t ↔ ∃ before after, t = before ++ Byte.sysExStart :: after ∧ Byte.sysExEnd ∉ after := by
  induction t using List.reverseRecOn with
  | nil => simp [IsOpen]
  | append_singleton t b ih =>
      rw [isOpen_concat, ih]
      constructor
      · rintro (rfl | ⟨hend, before, after, rfl, hafter⟩)
        · exact ⟨t, [], rfl, List.not_mem_nil⟩
        · refine ⟨before, after ++ [b], by simp, ?_⟩
          simp [hafter, Ne.symm hend]
      · rintro ⟨before, after, htail, hafter⟩
        rcases List.eq_nil_or_concat after with rfl | ⟨after, last, rfl⟩
        · exact Or.inl (List.append_inj_right' htail rfl |> List.singleton_inj.1)
        · have hsplit : t ++ [b] = (before ++ Byte.sysExStart :: after) ++ [last] := by simpa using htail
          obtain ⟨rfl, hlast⟩ := List.append_inj' hsplit rfl
          obtain rfl : b = last := List.singleton_inj.1 hlast
          simp only [List.concat_eq_append, List.mem_append, List.mem_singleton, not_or] at hafter
          exact Or.inr ⟨Ne.symm hafter.2, before, after, rfl, hafter.1⟩

/-- What is left grows by the next byte until it is a whole group. -/
theorem rest_concat {size : Nat} (hsize : 0 < size) (bytes : List UInt8) (b : UInt8) :
    rest size (bytes ++ [b]) =
      if (rest size bytes).length + 1 < size then rest size bytes ++ [b] else [] := by
  have hlt : bytes.length % size < size := Nat.mod_lt bytes.length hsize
  have hle : bytes.length % size ≤ bytes.length := Nat.mod_le bytes.length size
  have hlength : (rest size bytes).length = bytes.length % size := by
    simp only [rest, List.rtake, List.length_drop]
    omega
  have hmod : (bytes.length + 1) % size = (bytes.length % size + 1) % size :=
    (Nat.mod_add_mod bytes.length size 1).symm
  rw [hlength]
  unfold rest
  rw [List.length_append, List.length_singleton, hmod]
  by_cases hshort : bytes.length % size + 1 < size
  · rw [if_pos hshort, Nat.mod_eq_of_lt hshort, List.rtake_concat_succ]
  · have hfull : bytes.length % size + 1 = size := by omega
    rw [if_neg hshort, hfull, Nat.mod_self, List.rtake_zero]

/-- Gathering in groups of `size` keeps what is left by the division. -/
theorem gather_rest (cable : Cable) (framing : Framing) {size : Nat} (hsize : 0 < size)
    (bytes : List UInt8) (b : UInt8) (packet : List UInt8 → Packet) :
    (View.gather ⟨cable, framing, rest size bytes⟩ size b packet).view
      = ⟨cable, framing, rest size (bytes ++ [b])⟩ := by
  rw [rest_concat hsize, View.gather]
  by_cases hshort : (rest size bytes).length + 1 < size
  · rw [if_pos hshort, if_pos hshort]
  · rw [if_neg hshort, if_neg hshort]

theorem take_three_concat (bytes : List UInt8) (b : UInt8) :
    (bytes ++ [b]).take 3 =
      if (bytes.take 3).length < 3 then bytes.take 3 ++ [b] else bytes.take 3 := by
  rw [List.length_take]
  by_cases hroom : bytes.length < 3
  · have hmin : min 3 bytes.length < 3 := by omega
    rw [if_pos hmin, List.take_of_length_le (by simp; omega), List.take_of_length_le hroom.le]
  · have hmin : ¬ min 3 bytes.length < 3 := by omega
    rw [if_neg hmin, List.take_append_of_le_length (Nat.le_of_not_lt hroom)]

/-!
### The end of a stream is a state

It changes with a byte as the encoder does. A byte that is not data starts the data afresh, so that nothing is
pending unless the byte itself opens a block; a data byte is collected by the division.
-/

theorem status?_concat_other {t : List UInt8} {b : UInt8} (h : ByteClass.ofByte b ≠ .status) :
    status? (t ++ [b]) = status? t := by
  rw [status?_concat, if_neg h]

theorem isOpen_concat_other {t : List UInt8} {b : UInt8} (hstart : ByteClass.ofByte b ≠ .sysExStart)
    (hend : ByteClass.ofByte b ≠ .sysExEnd) : IsOpen (t ++ [b]) ↔ IsOpen t := by
  rw [ne_eq, ByteClass.ofByte_eq_sysExStart_iff] at hstart
  rw [ne_eq, ByteClass.ofByte_eq_sysExEnd_iff] at hend
  simp [isOpen_concat, hstart, hend]

theorem framing_concat_other {t : List UInt8} {b : UInt8} (hstart : ByteClass.ofByte b ≠ .sysExStart)
    (hend : ByteClass.ofByte b ≠ .sysExEnd) (hstatus : ByteClass.ofByte b ≠ .status) :
    framing (t ++ [b]) = framing t := by
  simp only [framing, isOpen_concat_other hstart hend, status?_concat_other hstatus]

@[simp] theorem status?_framing (t : List UInt8) : (framing t).status? = status? t := by
  unfold framing
  split
  · rfl
  · exact Framing.status?_outside _

@[simp] theorem isSysEx_framing (t : List UInt8) : (framing t).isSysEx = true ↔ IsOpen t := by
  unfold framing
  split
  next hopen => simp [hopen, Framing.isSysEx]
  next hopen => simp [hopen]

/-- Nothing is pending behind a byte that neither is data nor opens a block. -/
theorem pending_of_mark {t : List UInt8} {b : UInt8} (hdata : ByteClass.ofByte b ≠ .data)
    (hstart : ByteClass.ofByte b ≠ .sysExStart) : pending (t ++ [b]) = [] := by
  have hmark : isData b = false := by simpa [isData] using hdata
  have hne : b ≠ Byte.sysExStart := fun h => hstart ((ByteClass.ofByte_eq_sysExStart_iff b).2 h)
  have hempty : data (t ++ [b]) = [] := by simp [data_concat, hmark]
  have hblock : block (t ++ [b]) = [] := by simp [block, mark?_concat, hmark, hne, hempty]
  unfold pending
  rw [hblock, hempty]
  split
  · rfl
  · split
    · rfl
    · split <;> rfl

theorem pending_of_start {t : List UInt8} {b : UInt8} (hstart : ByteClass.ofByte b = .sysExStart) :
    pending (t ++ [b]) = [b] := by
  obtain rfl : b = Byte.sysExStart := (ByteClass.ofByte_eq_sysExStart_iff b).1 hstart
  have hopen : IsOpen (t ++ [Byte.sysExStart]) := (isOpen_concat t _).2 (Or.inl rfl)
  have hmark : isData Byte.sysExStart = false := rfl
  have hblock : block (t ++ [Byte.sysExStart]) = [Byte.sysExStart] := by
    simp [block, mark?_concat, data_concat, hmark]
  rw [pending, if_pos hopen, hblock]
  rfl

theorem block_concat_data {t : List UInt8} {b : UInt8} (hdata : isData b = true) :
    block (t ++ [b]) = block t ++ [b] := by
  simp only [block, mark?_concat, data_concat, hdata, if_true]
  split <;> rfl

/-!
The four forms that a state can have.
-/

section Forms

variable (cable : Cable) {t : List UInt8}

theorem view_of_open (hopen : IsOpen t) :
    view cable t = ⟨cable, .sysEx (status? t), rest 3 (block t)⟩ := by
  simp only [view, framing, pending, if_pos hopen]

theorem view_of_idle (hopen : ¬ IsOpen t) (hlast : status? t = none) :
    view cable t = ⟨cable, .idle, []⟩ := by
  simp only [view, framing, pending, if_neg hopen, hlast, Framing.outside]

theorem view_of_undefined (hopen : ¬ IsOpen t) {status : UInt8} (hlast : status? t = some status)
    (hlayout : Layout.ofStatus? status = none) :
    view cable t = ⟨cable, .running status, (data t).take 3⟩ := by
  simp only [view, framing, pending, if_neg hopen, hlast, hlayout, Framing.outside]

theorem view_of_layout (hopen : ¬ IsOpen t) {status : UInt8} (hlast : status? t = some status)
    {layout : Layout} (hlayout : Layout.ofStatus? status = some layout) :
    view cable t = ⟨cable, .running status, rest layout.dataLength (data t)⟩ := by
  simp only [view, framing, pending, if_neg hopen, hlast, hlayout, Framing.outside]

end Forms

/-- A data byte falls under the same division as those before it: by three in a block, by the length of the
    message under a status with a layout. -/
theorem collect_view (cable : Cable) {t : List UInt8} {b : UInt8} (h : ByteClass.ofByte b = .data) :
    ((view cable t).collect b).view = view cable (t ++ [b]) := by
  have hdata : isData b = true := by simp [isData, h]
  have hstatus : status? (t ++ [b]) = status? t := status?_concat_other (by simp [h])
  have hsame : IsOpen (t ++ [b]) ↔ IsOpen t := isOpen_concat_other (by simp [h]) (by simp [h])
  have hbytes : data (t ++ [b]) = data t ++ [b] := by simp [data_concat, hdata]
  by_cases hopen : IsOpen t
  · rw [view_of_open cable hopen, view_of_open cable (hsame.2 hopen), block_concat_data hdata, hstatus]
    exact gather_rest cable _ (Nat.zero_lt_succ 2) (block t) b _
  · have hclosed : ¬ IsOpen (t ++ [b]) := fun hlater => hopen (hsame.1 hlater)
    cases hlast : status? t with
    | none =>
        rw [view_of_idle cable hopen hlast, view_of_idle cable hclosed (hstatus.trans hlast)]
        rfl
    | some status =>
        have hnow := hstatus.trans hlast
        cases hlayout : Layout.ofStatus? status with
        | none =>
            rw [view_of_undefined cable hopen hlast hlayout, view_of_undefined cable hclosed hnow hlayout,
              hbytes, take_three_concat]
            simp only [View.collect, hlayout]
            split <;> rfl
        | some layout =>
            have hbounds := Layout.dataLength_bounds hlayout
            rw [view_of_layout cable hopen hlast hlayout, view_of_layout cable hclosed hnow hlayout, hbytes]
            simp only [View.collect, hlayout]
            exact gather_rest cable _ hbounds.1 (data t) b _

/-- Every byte but the real-time ones leads from the state of a stream to the state of the longer stream. -/
theorem step_view (cable : Cable) {t : List UInt8} {b : UInt8} (h : ByteClass.ofByte b ≠ .realTime) :
    ((view cable t).step b).view = view cable (t ++ [b]) := by
  cases hclass : ByteClass.ofByte b with
  | realTime => exact (h hclass).elim
  | singleCommon =>
      have hframing : framing (t ++ [b]) = framing t :=
        framing_concat_other (by simp [hclass]) (by simp [hclass]) (by simp [hclass])
      have hpending : pending (t ++ [b]) = [] := pending_of_mark (by simp [hclass]) (by simp [hclass])
      simp only [View.step, hclass, view, hframing, hpending]
  | sysExStart =>
      have hopen : IsOpen (t ++ [b]) :=
        (isOpen_concat t b).2 (Or.inl ((ByteClass.ofByte_eq_sysExStart_iff b).1 hclass))
      have hframing : framing (t ++ [b]) = (framing t).openSysEx := by
        rw [framing, if_pos hopen, Framing.openSysEx, status?_framing,
          status?_concat_other (by simp [hclass])]
      simp only [View.step, hclass, view, hframing, pending_of_start hclass]
  | sysExEnd =>
      have hend : b = Byte.sysExEnd := (ByteClass.ofByte_eq_sysExEnd_iff b).1 hclass
      have hne : Byte.sysExEnd ≠ Byte.sysExStart := by decide
      have hclosed : ¬ IsOpen (t ++ [b]) := by simp [isOpen_concat, hend, hne]
      have hframing : framing (t ++ [b]) = Framing.outside (framing t).status? := by
        rw [framing, if_neg hclosed, status?_framing, status?_concat_other (by simp [hclass])]
      have hpending : pending (t ++ [b]) = [] := pending_of_mark (by simp [hclass]) (by simp [hclass])
      rw [View.view_step_sysExEnd (view cable t) hclass]
      simp only [view, hframing, hpending]
  | status =>
      have hsame : IsOpen (t ++ [b]) ↔ IsOpen t := isOpen_concat_other (by simp [hclass]) (by simp [hclass])
      have hlast : status? (t ++ [b]) = some b := by rw [status?_concat, if_pos hclass]
      have hframing : framing (t ++ [b]) = (framing t).withStatus b := by
        simp only [framing, hsame, hlast]
        split
        · rfl
        · cases status? t <;> rfl
      have hpending : pending (t ++ [b]) = [] := pending_of_mark (by simp [hclass]) (by simp [hclass])
      simp only [View.step, hclass, view, hframing, hpending]
  | data =>
      simp only [View.step, hclass]
      exact collect_view cable hclass

/-- The view of a new encoder after a stream is the state of the stream without its real-time bytes. -/
theorem run_view (cable : Cable) (bs : List UInt8) :
    (new cable).view.run bs = view cable (View.others bs) := by
  induction bs using List.reverseRecOn with
  | nil => rfl
  | append_singleton bs b ih =>
      rw [View.run_append, ih, View.others_append]
      by_cases hclass : ByteClass.ofByte b = .realTime
      · have hgone : View.others [b] = [] := by
          simp [View.others, (ByteClass.ofByte_eq_realTime_iff b).1 hclass]
        rw [hgone, List.append_nil]
        simp only [View.run_cons, View.run_nil, View.step, hclass]
      · have hkept : View.others [b] = [b] := by
          rw [ByteClass.ofByte_eq_realTime_iff] at hclass
          simp [View.others, hclass]
        rw [hkept]
        exact step_view cable hclass

end Tail

/-- The state of a new encoder that was given `bs`, real-time bytes and malformed messages included. It stands
    in a block exactly if the stream, without its real-time bytes, has the start of a block behind the last
    end of one. Its running status is the last status byte. The pending bytes are what the division leaves of
    the bytes of the open block, or of the data bytes of the running message; of an undefined message, the
    first three data bytes at most; and without a status there are none. -/
theorem state_closed_form (cable : Cable) (bs : List UInt8) :
    let e := (new cable).run bs
    let t := View.others bs
    (e.framing.isSysEx = true ↔ Tail.IsOpen t) ∧
      e.framing.status? = Tail.status? t ∧
      e.pending = Tail.pending t := by
  intro e t
  have hview : e.view = Tail.view cable t := (view_run (sound_new cable) bs).trans (Tail.run_view cable bs)
  have hframing : e.framing = Tail.framing t := congrArg View.framing hview
  have hpending : e.pending = Tail.pending t := congrArg View.pending hview
  refine ⟨?_, ?_, hpending⟩
  · rw [hframing]
    exact Tail.isSysEx_framing t
  · rw [hframing]
    exact Tail.status?_framing t

/-- A status byte inside of a block takes over and leaves the block open; the groups of three begin again
    behind it. Active sensing changes nothing. -/
example :
    let t := View.others [0x90, 0x3C, 0xF0, 1, 2, 3, 0xFE, 0xC1, 4, 5, 6, 7]
    Tail.IsOpen t ∧ Tail.status? t = some 0xC1 ∧ Tail.pending t = [7] := by decide

end MidiBridge.Encoder
