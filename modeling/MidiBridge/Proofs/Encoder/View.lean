/-
Module: MidiBridge.Proofs.Encoder.View
Purpose: An encoder as it looks from outside: its cable, its framing and the list of pending bytes,
  without the stale places of its chunk. A sound encoder holds only the bytes that its framing allows,
  and what a sound encoder does with a byte depends on its view alone. So every statement about
  packets, framings and pending bytes can be proved on lists, and the chunk is looked at only here.
Trusted boundary: none
Main exports: Framing.Fits, Encoder.Sound, Encoder.View, Encoder.View.step, Encoder.view_step,
  Encoder.sound_step, Encoder.sound_after, Encoder.view_run, Encoder.emissions_eq,
  Encoder.packets_eq
-/
import MidiBridge.Encoder.Run
import MidiBridge.Proofs.Packet.Carrying

namespace MidiBridge

/-- The bytes that may be pending in each framing. Nothing is pending before the first status byte.
    Under a running status there are fewer data bytes than complete a message, or at most three if the
    status has no layout. In a block there are at most two bytes, of which the first may be the one
    that opened the block. -/
def Framing.Fits (framing : Framing) (bytes : List UInt8) : Prop :=
  match framing with
  | .idle => bytes = []
  | .running status =>
      ByteClass.ofByte status = .status ∧ (∀ b ∈ bytes, ByteClass.ofByte b = .data) ∧
        match Layout.ofStatus? status with
        | some layout => bytes.length < layout.dataLength
        | none => bytes.length ≤ 3
  | .sysEx resume =>
      (∀ status ∈ resume, ByteClass.ofByte status = .status) ∧ bytes.length ≤ 2 ∧
        (∀ b ∈ bytes.head?, ByteClass.ofByte b = .data ∨ b = Byte.sysExStart) ∧
        ∀ b ∈ bytes.tail, ByteClass.ofByte b = .data

/-- The framing outside of any block under this running status. -/
def Framing.outside : Option UInt8 → Framing
  | none => .idle
  | some status => .running status

theorem Framing.closeSysEx_eq_outside (framing : Framing) :
    framing.closeSysEx = outside framing.status? := by
  unfold closeSysEx
  cases framing.status? with
  | none => rfl
  | some status => rfl

@[simp] theorem Framing.status?_outside (resume : Option UInt8) :
    (outside resume).status? = resume := by
  cases resume <;> rfl

@[simp] theorem Framing.isSysEx_outside (resume : Option UInt8) :
    (outside resume).isSysEx = false := by
  cases resume <;> rfl

/-- Where bytes fit, the running status is a status byte proper. -/
theorem Framing.Fits.statuses {framing : Framing} {bytes : List UInt8} (h : framing.Fits bytes) :
    ∀ status ∈ framing.status?, ByteClass.ofByte status = .status := by
  cases framing with
  | idle =>
      intro status hs
      cases hs
  | running s =>
      intro status hs
      cases hs
      exact h.1
  | sysEx resume => exact h.1

theorem Framing.fits_nil {framing : Framing}
    (h : ∀ status ∈ framing.status?, ByteClass.ofByte status = .status) : framing.Fits [] := by
  cases framing with
  | idle => rfl
  | running status =>
      refine ⟨h status rfl, fun b hb => (List.not_mem_nil hb).elim, ?_⟩
      cases hlayout : Layout.ofStatus? status with
      | none => exact Nat.zero_le 3
      | some layout => exact (Layout.dataLength_bounds hlayout).1
  | sysEx resume =>
      refine ⟨h, Nat.zero_le 2, ?_, ?_⟩
      · intro b hb
        cases hb
      · intro b hb
        cases hb

/-- Inside a block a data byte may be appended to at most one byte. -/
theorem Framing.Fits.sysEx_append {resume : Option UInt8} {bytes : List UInt8} {b : UInt8}
    (h : (Framing.sysEx resume).Fits bytes) (hb : ByteClass.ofByte b = .data)
    (hroom : bytes.length + 1 ≤ 2) : (Framing.sysEx resume).Fits (bytes ++ [b]) := by
  obtain ⟨hresume, -, hfirst, hrest⟩ := h
  refine ⟨hresume, ?_, ?_, ?_⟩
  · rw [List.length_append]
    exact hroom
  · intro x hx
    cases bytes with
    | nil =>
        cases hx
        exact Or.inl hb
    | cons y ys => exact hfirst x hx
  · intro x hx
    cases bytes with
    | nil => cases hx
    | cons y ys =>
        rcases List.mem_append.1 hx with hold | hnew
        · exact hrest x hold
        · rw [List.mem_singleton.1 hnew]
          exact hb

/-- Under a running status a data byte may be appended as long as the message stays incomplete. -/
theorem Framing.Fits.running_append {status b : UInt8} {bytes : List UInt8}
    (h : (Framing.running status).Fits bytes) (hb : ByteClass.ofByte b = .data)
    (hroom : match Layout.ofStatus? status with
      | some layout => bytes.length + 1 < layout.dataLength
      | none => bytes.length + 1 ≤ 3) : (Framing.running status).Fits (bytes ++ [b]) := by
  obtain ⟨hstatus, hdata, -⟩ := h
  refine ⟨hstatus, ?_, ?_⟩
  · intro x hx
    rcases List.mem_append.1 hx with hold | hnew
    · exact hdata x hold
    · rw [List.mem_singleton.1 hnew]
      exact hb
  · rw [List.length_append]
    exact hroom

theorem ByteClass.ofByte_eq_sysExStart_iff (b : UInt8) :
    ByteClass.ofByte b = .sysExStart ↔ b = Byte.sysExStart := by
  revert b
  rw [Byte.forall_iff]
  decide

namespace Chunk

theorem push_room {c : Chunk} (h : c.count < 3) (b : UInt8) :
    ∃ c', c.push b = (c', true) ∧ c'.count = c.count + 1 ∧ c'.toList = c.toList ++ [b] := by
  refine ⟨(c.push b).1, ?_, ?_, toList_push h b⟩
  · exact Prod.ext rfl ((push_accepted_iff c b).2 h)
  · have hsize : c.count < Triple.size := h
    rw [push, if_pos hsize]

theorem push_full {c : Chunk} (h : ¬ c.count < 3) (b : UInt8) : c.push b = (c, false) := by
  rw [push]
  exact if_neg h

theorem count_push_le {c : Chunk} (h : c.count ≤ 3) (b : UInt8) : (c.push b).1.count ≤ 3 := by
  by_cases hroom : c.count < 3
  · rcases push_room hroom b with ⟨c', hpush, hcount, -⟩
    rw [hpush, hcount]
    exact hroom
  · rw [push_full hroom b]
    exact h

end Chunk

namespace Encoder

/-- What can be seen of an encoder from outside. -/
structure View where
  cable : Cable
  framing : Framing
  pending : List UInt8

/-- The view of an encoder. The places of its chunk that are not in use are no part of it. -/
def view (e : Encoder) : View := ⟨e.cable, e.framing, e.pending⟩

structure View.Outcome where
  view : View
  packet? : Option Packet := none
  discard? : Option Discard := none

def Outcome.view (o : Outcome) : View.Outcome := ⟨o.encoder.view, o.packet?, o.discard?⟩

namespace View

/-- Appends a byte, and completes a packet as soon as there are `size` bytes. -/
def gather (v : View) (size : Nat) (b : UInt8) (packet : List UInt8 → Packet) : Outcome :=
  if v.pending.length + 1 < size then
    { view := { v with pending := v.pending ++ [b] } }
  else
    { view := { v with pending := [] }, packet? := some (packet (v.pending ++ [b])) }

def collect (v : View) (b : UInt8) : Outcome :=
  match v.framing with
  | .idle => { view := { v with pending := [] }, discard? := some (.withoutStatus b) }
  | .sysEx _ => v.gather 3 b (Packet.carrying v.cable .sysExStart)
  | .running status =>
      match Layout.ofStatus? status with
      | none =>
          if v.pending.length < 3 then { view := { v with pending := v.pending ++ [b] } }
          else { view := v, discard? := some (.undefinedMessage b status) }
      | some layout =>
          v.gather layout.dataLength b fun bytes =>
            Packet.carrying v.cable layout.code (status :: bytes)

/-- The end of a block whose last bytes are `tail`, on views. -/
def finishSysEx (v : View) (tail : List UInt8) (discard? : Option Discard) : Outcome :=
  { view := { v with framing := Framing.outside v.framing.status?, pending := [] }
    packet? := some (Packet.carrying v.cable (CodeIndex.sysExTail tail.length) tail)
    discard? := discard? }

def step (v : View) (b : UInt8) : Outcome :=
  match ByteClass.ofByte b with
  | .realTime => { view := v, packet? := some (Packet.carrying v.cable .byte [b]) }
  | .singleCommon =>
      { view := { v with pending := [] }
        packet? := some (Packet.carrying v.cable .singleByte [b]) }
  | .sysExStart => { view := { v with framing := v.framing.openSysEx, pending := [b] } }
  | .sysExEnd =>
      if v.pending.length < 3 then v.finishSysEx (v.pending ++ [b]) none
      else v.finishSysEx [b] (some (.beforeSysExEnd v.pending))
  | .status => { view := { v with framing := v.framing.withStatus b, pending := [] } }
  | .data => v.collect b

def run (v : View) (bs : List UInt8) : View := bs.foldl (fun v b => (v.step b).view) v

def emissions (v : View) : List UInt8 → List (Option Packet)
  | [] => []
  | b :: bs => (v.step b).packet? :: emissions (v.step b).view bs

def packets (v : View) (bs : List UInt8) : List Packet := (v.emissions bs).filterMap id

end View

/-- An encoder that holds no more bytes than it has places, and only such bytes as its framing
    allows. -/
structure Sound (e : Encoder) : Prop where
  count_le : e.chunk.count ≤ 3
  fits : e.framing.Fits e.pending

theorem Sound.length_pending {e : Encoder} (h : e.Sound) : e.pending.length = e.chunk.count :=
  Chunk.length_toList h.count_le

theorem Sound.room_of_sysEx {e : Encoder} (h : e.Sound) {resume : Option UInt8}
    (hframing : e.framing = .sysEx resume) : e.chunk.count < 3 := by
  have hfits := h.fits
  rw [hframing] at hfits
  rw [← h.length_pending]
  exact Nat.lt_succ_of_le hfits.2.1

theorem Sound.count_lt_dataLength {e : Encoder} (h : e.Sound) {status : UInt8} {layout : Layout}
    (hframing : e.framing = .running status) (hlayout : Layout.ofStatus? status = some layout) :
    e.chunk.count < layout.dataLength := by
  have hfits := h.fits
  rw [hframing] at hfits
  have hcount := hfits.2.2
  rw [hlayout] at hcount
  rw [← h.length_pending]
  exact hcount

theorem Sound.room_of_layout {e : Encoder} (h : e.Sound) {status : UInt8} {layout : Layout}
    (hframing : e.framing = .running status) (hlayout : Layout.ofStatus? status = some layout) :
    e.chunk.count < 3 := by
  have hbounds := Layout.dataLength_bounds hlayout
  have hcount := h.count_lt_dataLength hframing hlayout
  exact Nat.lt_of_lt_of_le hcount (Nat.le_succ_of_le hbounds.2)

theorem sound_new (cable : Cable) : (new cable).Sound := ⟨Nat.zero_le 3, rfl⟩

/-!
### One step

The view of an outcome is the outcome of the view. Soundness is what makes the refused pushes, of which
the encoder takes no notice, impossible.
-/

/-- Collecting towards a packet of `size` bytes, where the packet is made of the bytes in use. -/
theorem view_gather {e : Encoder} (hroom : e.chunk.count < 3) (size : Nat) (b : UInt8)
    (packet : List UInt8 → Packet) {make : Chunk → Packet}
    (hmake : ∀ c : Chunk, c.count = e.chunk.count + 1 → make c = packet c.toList) :
    (if (e.chunk.push b).1.count < size then { encoder := { e with chunk := (e.chunk.push b).1 } }
      else
        { encoder := { e with chunk := (e.chunk.push b).1.clear }
          packet? := some (make (e.chunk.push b).1) } : Outcome).view
      = e.view.gather size b packet := by
  obtain ⟨chunk, hpush, hcount, hlist⟩ := Chunk.push_room hroom b
  have hlength : e.pending.length = e.chunk.count := Chunk.length_toList (Nat.le_of_lt hroom)
  have hpacket : make chunk = packet (e.pending ++ [b]) := by
    rw [hmake chunk hcount, hlist, pending]
  rw [hpush]
  by_cases hshort : e.chunk.count + 1 < size
  · have hview : e.view.pending.length + 1 < size := hlength.symm ▸ hshort
    rw [View.gather, if_pos hview, if_pos (hcount.symm ▸ hshort)]
    simp only [Outcome.view, view, pending, hlist]
  · have hview : ¬ e.view.pending.length + 1 < size := hlength.symm ▸ hshort
    rw [View.gather, if_neg hview, if_neg (hcount.symm ▸ hshort)]
    simp only [Outcome.view, view, pending, hpacket, Chunk.toList_clear]

theorem view_collect {e : Encoder} (h : e.Sound) (b : UInt8) :
    (e.collect b).view = e.view.collect b := by
  have hlength := h.length_pending
  cases hframing : e.framing with
  | idle =>
      rw [collect, View.collect]
      simp only [view, hframing]
      rfl
  | sysEx resume =>
      have hroom := h.room_of_sysEx hframing
      have hmake : ∀ c : Chunk, c.count = e.chunk.count + 1 →
          Packet.make e.cable .sysExStart c.padded
            = Packet.carrying e.cable .sysExStart c.toList := by
        intro c hc
        rw [Packet.carrying, Chunk.padded_eq_ofList (by omega)]
      have hgather := view_gather hroom 3 b (Packet.carrying e.cable .sysExStart) hmake
      simp only [collect, View.collect, hframing, view] at hgather ⊢
      exact hgather
  | running status =>
      cases hlayout : Layout.ofStatus? status with
      | none =>
          simp only [collect, View.collect, view, hframing, hlayout, hlength]
          by_cases hroom : e.chunk.count < 3
          · obtain ⟨chunk, hpush, -, hlist⟩ := Chunk.push_room hroom b
            rw [if_pos hroom, hpush]
            simp only [Outcome.view, view, pending, hlist]
          · rw [if_neg hroom, Chunk.push_full hroom]
            simp only [Outcome.view, view, hframing]
      | some layout =>
          have hroom := h.room_of_layout hframing hlayout
          have hcount := h.count_lt_dataLength hframing hlayout
          have hbounds := Layout.dataLength_bounds hlayout
          have hmake : ∀ c : Chunk, c.count = e.chunk.count + 1 →
              Packet.make e.cable layout.code ⟨status, c.padded.first, c.padded.second⟩
                = Packet.carrying e.cable layout.code (status :: c.toList) := by
            intro c hc
            have hthree : c.count ≤ 3 := by omega
            have hused : c.toList.length = c.count := Chunk.length_toList hthree
            have htwo : c.toList.length ≤ 2 := by omega
            rw [Packet.carrying, Triple.ofList_cons status htwo, Chunk.padded_eq_ofList hthree]
          have hgather := view_gather hroom layout.dataLength b
            (fun bytes => Packet.carrying e.cable layout.code (status :: bytes)) hmake
          simp only [collect, View.collect, hframing, view, hlayout] at hgather ⊢
          exact hgather

/-- What a sound encoder does with a byte depends on its view alone. -/
theorem view_step {e : Encoder} (h : e.Sound) (b : UInt8) : (e.step b).view = e.view.step b := by
  have hlength : e.view.pending.length = e.chunk.count := h.length_pending
  have hclear : e.chunk.clear.count < 3 := Nat.zero_lt_succ 2
  cases hclass : ByteClass.ofByte b with
  | realTime =>
      simp only [step, View.step, hclass]
      rfl
  | singleCommon =>
      simp only [step, View.step, hclass]
      rfl
  | sysExStart =>
      simp only [step, View.step, hclass, Outcome.view, view, pending]
      rw [Chunk.toList_push hclear, Chunk.toList_clear]
      rfl
  | sysExEnd =>
      simp only [step, View.step, hclass, hlength]
      by_cases hroom : e.chunk.count < 3
      · obtain ⟨tail, hpush, hcount, hlist⟩ := Chunk.push_room hroom b
        have htail : (e.view.pending ++ [b]).length = tail.count := by
          rw [List.length_append, hlength, hcount]
          rfl
        have hthree : tail.count ≤ 3 := by
          rw [hcount]
          exact hroom
        rw [if_pos hroom, hpush]
        simp only [finishSysEx, View.finishSysEx, htail, Framing.closeSysEx_eq_outside,
          Chunk.padded_eq_ofList hthree, hlist]
        rfl
      · obtain ⟨tail, hpush, hcount, hlist⟩ := Chunk.push_room hclear b
        have hone : tail.count = 1 := hcount
        have hthree : tail.count ≤ 3 := by
          rw [hone]
          exact Nat.le_add_left 1 2
        rw [if_neg hroom, Chunk.push_full hroom]
        simp only [finishSysEx, View.finishSysEx, hpush, hone, Framing.closeSysEx_eq_outside,
          Chunk.padded_eq_ofList hthree, hlist]
        rfl
  | status =>
      simp only [step, View.step, hclass]
      rfl
  | data =>
      simp only [step, View.step, hclass]
      exact view_collect h b

/-!
### Soundness of all encoders

A step changes the framing, or the pending bytes, or both. Emptying the chunk fits every framing whose
statuses are status bytes, which leaves the bytes that are kept.
-/

theorem fits_collect {v : View} (h : v.framing.Fits v.pending) {b : UInt8}
    (hb : ByteClass.ofByte b = .data) :
    (v.collect b).view.framing.Fits (v.collect b).view.pending := by
  have hempty := Framing.fits_nil h.statuses
  rcases v with ⟨cable, framing, bytes⟩
  cases framing with
  | idle => exact hempty
  | sysEx resume =>
      by_cases hshort : bytes.length + 1 < 3
      · simp only [View.collect, View.gather, if_pos hshort]
        exact h.sysEx_append hb (Nat.le_of_lt_succ hshort)
      · simp only [View.collect, View.gather, if_neg hshort]
        exact hempty
  | running status =>
      cases hlayout : Layout.ofStatus? status with
      | none =>
          by_cases hroom : bytes.length < 3
          · simp only [View.collect, hlayout, if_pos hroom]
            apply h.running_append hb
            rw [hlayout]
            exact hroom
          · simp only [View.collect, hlayout, if_neg hroom]
            exact h
      | some layout =>
          by_cases hshort : bytes.length + 1 < layout.dataLength
          · simp only [View.collect, View.gather, hlayout, if_pos hshort]
            apply h.running_append hb
            rw [hlayout]
            exact hshort
          · simp only [View.collect, View.gather, hlayout, if_neg hshort]
            exact hempty

/-- Every byte, well placed or not, leads from bytes that fit to bytes that fit. -/
theorem fits_step {v : View} (h : v.framing.Fits v.pending) (b : UInt8) :
    (v.step b).view.framing.Fits (v.step b).view.pending := by
  cases hclass : ByteClass.ofByte b with
  | realTime =>
      simp only [View.step, hclass]
      exact h
  | singleCommon =>
      simp only [View.step, hclass]
      exact Framing.fits_nil h.statuses
  | sysExStart =>
      have hstart : b = Byte.sysExStart := (ByteClass.ofByte_eq_sysExStart_iff b).1 hclass
      simp only [View.step, hclass]
      refine ⟨h.statuses, Nat.le_succ 1, ?_, ?_⟩
      · intro x hx
        cases hx
        exact Or.inr hstart
      · intro x hx
        cases hx
  | sysExEnd =>
      have hclosed : (Framing.outside v.framing.status?).Fits [] := by
        apply Framing.fits_nil
        rw [Framing.status?_outside]
        exact h.statuses
      simp only [View.step, hclass]
      split <;> exact hclosed
  | status =>
      simp only [View.step, hclass]
      apply Framing.fits_nil
      intro status hs
      rw [Framing.status?_withStatus] at hs
      cases hs
      exact hclass
  | data =>
      simp only [View.step, hclass]
      exact fits_collect h hclass

theorem count_collect_le {e : Encoder} (h : e.chunk.count ≤ 3) (b : UInt8) :
    (e.collect b).encoder.chunk.count ≤ 3 := by
  have hpush := Chunk.count_push_le h b
  unfold collect
  split
  · exact Nat.zero_le 3
  · dsimp only
    split
    · exact hpush
    · exact Nat.zero_le 3
  · split
    · split
      · next chunk heq =>
          rw [heq] at hpush
          exact hpush
      · exact h
    · dsimp only
      split
      · exact hpush
      · exact Nat.zero_le 3

theorem count_step_le {e : Encoder} (h : e.chunk.count ≤ 3) (b : UInt8) :
    (e.step b).encoder.chunk.count ≤ 3 := by
  unfold step
  split
  · exact h
  · exact Nat.zero_le 3
  · exact Chunk.count_push_le (Nat.zero_le 3) b
  · split <;> exact Nat.zero_le 3
  · exact Nat.zero_le 3
  · exact count_collect_le h b

theorem sound_step {e : Encoder} (h : e.Sound) (b : UInt8) : (e.step b).encoder.Sound := by
  constructor
  · exact count_step_le h.count_le b
  · have hfits := fits_step (v := e.view) h.fits b
    rw [← view_step h b] at hfits
    exact hfits

theorem sound_apply {e : Encoder} (h : e.Sound) (c : Command) : (e.apply c).encoder.Sound := by
  cases c with
  | byte b => exact sound_step h b
  | reset => exact ⟨Nat.zero_le 3, rfl⟩
  | setCable cable => exact ⟨h.count_le, h.fits⟩

theorem Sound.after {e : Encoder} (h : e.Sound) (cs : List Command) : (e.after cs).Sound := by
  induction cs generalizing e with
  | nil => exact h
  | cons c cs ih => exact ih (sound_apply h c)

theorem sound_after (cable : Cable) (cs : List Command) : ((new cable).after cs).Sound :=
  (sound_new cable).after cs

theorem Sound.run {e : Encoder} (h : e.Sound) (bs : List UInt8) : (e.run bs).Sound := by
  induction bs generalizing e with
  | nil => exact h
  | cons b bs ih => exact ih (sound_step h b)

/-!
### Runs

The steps agree, and soundness is kept, so the runs agree.
-/

theorem view_run {e : Encoder} (h : e.Sound) (bs : List UInt8) :
    (e.run bs).view = e.view.run bs := by
  induction bs generalizing e with
  | nil => rfl
  | cons b bs ih =>
      have hstep : (e.step b).encoder.view = (e.view.step b).view :=
        congrArg View.Outcome.view (view_step h b)
      rw [run_cons, ih (sound_step h b), hstep]
      rfl

theorem emissions_eq {e : Encoder} (h : e.Sound) (bs : List UInt8) :
    e.emissions bs = e.view.emissions bs := by
  induction bs generalizing e with
  | nil => rfl
  | cons b bs ih =>
      have hstep := view_step h b
      have hview : (e.step b).encoder.view = (e.view.step b).view :=
        congrArg View.Outcome.view hstep
      have hpacket : (e.step b).packet? = (e.view.step b).packet? :=
        congrArg View.Outcome.packet? hstep
      have hrest := ih (sound_step h b)
      rw [hview] at hrest
      rw [View.emissions, ← hrest, ← hpacket]
      rfl

theorem packets_eq {e : Encoder} (h : e.Sound) (bs : List UInt8) :
    e.packets bs = e.view.packets bs := by
  rw [View.packets, ← emissions_eq h, emissions, List.filterMap_map]
  rfl

namespace View

/-- The end of a block leaves nothing pending and closes a block that is open, whether or not the pending
    bytes had to be given up. -/
theorem view_step_sysExEnd (v : View) {b : UInt8} (h : ByteClass.ofByte b = .sysExEnd) :
    (v.step b).view = { v with framing := Framing.outside v.framing.status?, pending := [] } := by
  simp only [step, h]
  split <;> rfl

@[simp] theorem run_nil (v : View) : v.run [] = v := rfl

@[simp] theorem run_cons (v : View) (b : UInt8) (bs : List UInt8) :
    v.run (b :: bs) = (v.step b).view.run bs := rfl

theorem run_append (v : View) (xs ys : List UInt8) : v.run (xs ++ ys) = (v.run xs).run ys := by
  simp only [run, List.foldl_append]

theorem emissions_append (v : View) (xs ys : List UInt8) :
    v.emissions (xs ++ ys) = v.emissions xs ++ (v.run xs).emissions ys := by
  induction xs generalizing v with
  | nil => rfl
  | cons x xs ih =>
      rw [List.cons_append, emissions, emissions, ih, run_cons]
      rfl

theorem packets_cons_none {v v' : View} {b : UInt8} {discard? : Option Discard}
    (h : v.step b = ⟨v', none, discard?⟩) (bs : List UInt8) :
    v.packets (b :: bs) = v'.packets bs := by
  rw [packets, emissions, h]
  rfl

theorem packets_cons_some {v v' : View} {b : UInt8} {p : Packet} {discard? : Option Discard}
    (h : v.step b = ⟨v', some p, discard?⟩) (bs : List UInt8) :
    v.packets (b :: bs) = p :: v'.packets bs := by
  rw [packets, emissions, h]
  rfl

theorem packets_append (v : View) (xs ys : List UInt8) :
    v.packets (xs ++ ys) = v.packets xs ++ (v.run xs).packets ys := by
  rw [packets, emissions_append, List.filterMap_append]
  rfl

end View

end Encoder

end MidiBridge
