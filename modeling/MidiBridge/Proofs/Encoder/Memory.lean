/-
Module: MidiBridge.Proofs.Encoder.Memory
Purpose: What an encoder remembers of its past, and how it can be made to forget it. The bytes that were left
  in the unused places of its chunk make two encoders unequal, but they never come to light: encoders that
  look alike from outside cannot be told apart by any stream. A reset makes an encoder as good as new, and
  the end of a block followed by a status byte brings any two encoders together, wherever they stood.
Trusted boundary: human-reviewed spec
Main exports: Encoder.Alike, Encoder.Indistinguishable, Encoder.Alike.indistinguishable,
  Encoder.view_reset, Encoder.View.run_end_status, Encoder.indistinguishable_of_history
-/
import MidiBridge.Proofs.Encoder.View

namespace MidiBridge.Encoder

/-- The same cable, framing and pending bytes. The unused places of the two chunks may differ. -/
structure Alike (e₁ e₂ : Encoder) : Prop where
  cable_eq : e₁.cable = e₂.cable
  framing_eq : e₁.framing = e₂.framing
  pending_eq : e₁.pending = e₂.pending

theorem alike_iff_view {e₁ e₂ : Encoder} : Alike e₁ e₂ ↔ e₁.view = e₂.view := by
  simp only [view, View.mk.injEq]
  constructor
  · rintro ⟨hcable, hframing, hpending⟩
    exact ⟨hcable, hframing, hpending⟩
  · rintro ⟨hcable, hframing, hpending⟩
    exact ⟨hcable, hframing, hpending⟩

/-- Over every stream the two encoders complete the same packets at the same bytes, and look alike at its
    end. -/
def Indistinguishable (e₁ e₂ : Encoder) : Prop :=
  ∀ bs : List UInt8, e₁.emissions bs = e₂.emissions bs ∧ Alike (e₁.run bs) (e₂.run bs)

/-- Sound encoders that look alike cannot be told apart. -/
theorem Alike.indistinguishable {e₁ e₂ : Encoder} (h : Alike e₁ e₂) (h₁ : e₁.Sound) (h₂ : e₂.Sound) :
    Indistinguishable e₁ e₂ := by
  have hview := alike_iff_view.1 h
  intro bs
  constructor
  · calc
      e₁.emissions bs = e₁.view.emissions bs := emissions_eq h₁ bs
      _ = e₂.view.emissions bs := by rw [hview]
      _ = e₂.emissions bs := (emissions_eq h₂ bs).symm
  · apply alike_iff_view.2
    calc
      (e₁.run bs).view = e₁.view.run bs := view_run h₁ bs
      _ = e₂.view.run bs := by rw [hview]
      _ = (e₂.run bs).view := (view_run h₂ bs).symm

/-!
### Forgetting
-/

/-- A reset leaves the unused places as they are, and nothing else of the past. -/
theorem alike_reset (e : Encoder) : Alike e.reset (new e.cable) := ⟨rfl, rfl, rfl⟩

theorem sound_reset (e : Encoder) : e.reset.Sound := ⟨Nat.zero_le 3, rfl⟩

/-- The end of a block closes a block that is open and empties the chunk in any case; a status byte behind
    it runs. -/
theorem View.run_end_status (v : View) {status : UInt8} (h : ByteClass.ofByte status = .status) :
    v.run [Byte.sysExEnd, status] = ⟨v.cable, .running status, []⟩ := by
  have hend : (v.step Byte.sysExEnd).view = ⟨v.cable, Framing.outside v.framing.status?, []⟩ :=
    v.view_step_sysExEnd rfl
  have houtside : (Framing.outside v.framing.status?).withStatus status = .running status := by
    cases v.framing.status? <;> rfl
  rw [run_cons, hend, run_cons, run_nil]
  simp only [step, h, houtside]

theorem alike_end_status {e₁ e₂ : Encoder} (h₁ : e₁.Sound) (h₂ : e₂.Sound) (hcable : e₁.cable = e₂.cable)
    {status : UInt8} (h : ByteClass.ofByte status = .status) :
    Alike (e₁.run [Byte.sysExEnd, status]) (e₂.run [Byte.sysExEnd, status]) := by
  apply alike_iff_view.2
  rw [view_run h₁, view_run h₂, View.run_end_status e₁.view h, View.run_end_status e₂.view h]
  simp only [view, hcable]

/-- Two encoders that any bytes, resets and cable changes have led to. If they look alike, no stream tells
    them apart. After a reset, no stream tells one of them from a new encoder for its cable. And if they are
    on the same cable, then no stream tells them apart once each has taken the end of a block and the same
    status byte. -/
theorem indistinguishable_of_history (cable₁ cable₂ : Cable) (cs₁ cs₂ : List Command) :
    let e₁ := (new cable₁).after cs₁
    let e₂ := (new cable₂).after cs₂
    (Alike e₁ e₂ → Indistinguishable e₁ e₂) ∧
      Indistinguishable e₁.reset (new e₁.cable) ∧
      ∀ status : UInt8, e₁.cable = e₂.cable → ByteClass.ofByte status = .status →
        Indistinguishable (e₁.run [Byte.sysExEnd, status]) (e₂.run [Byte.sysExEnd, status]) := by
  intro e₁ e₂
  have h₁ : e₁.Sound := sound_after cable₁ cs₁
  have h₂ : e₂.Sound := sound_after cable₂ cs₂
  refine ⟨?_, ?_, ?_⟩
  · intro halike
    exact halike.indistinguishable h₁ h₂
  · exact (alike_reset e₁).indistinguishable (sound_reset e₁) (sound_new e₁.cable)
  · intro status hcable hstatus
    have halike := alike_end_status h₁ h₂ hcable hstatus
    exact halike.indistinguishable (h₁.run _) (h₂.run _)

/-- Of two encoders with nothing pending under the same status, one has completed a message: they differ in
    the stale places of their chunks. A third stands in a block, and a fourth has three bytes of an undefined
    message pending; the end of a block and a status byte bring these two together. -/
theorem indistinguishable_of_stale :
    let e (bs : List UInt8) : Encoder := (new Cable.first).after (bs.map .byte)
    (e [0x90, 1, 2] ≠ e [0x90] ∧ Alike (e [0x90, 1, 2]) (e [0x90]) ∧
        Indistinguishable (e [0x90, 1, 2]) (e [0x90])) ∧
      ((e [0xF0, 1]).cable = (e [0xF9, 1, 2, 3]).cable ∧ ByteClass.ofByte 0xC0 = .status ∧
        Indistinguishable ((e [0xF0, 1]).run [Byte.sysExEnd, 0xC0])
          ((e [0xF9, 1, 2, 3]).run [Byte.sysExEnd, 0xC0])) := by
  intro e
  have halike : Alike (e [0x90, 1, 2]) (e [0x90]) := ⟨by decide, by decide, by decide⟩
  have hcable : (e [0xF0, 1]).cable = (e [0xF9, 1, 2, 3]).cable := by decide
  have hstatus : ByteClass.ofByte 0xC0 = .status := by decide
  have hlook := (indistinguishable_of_history Cable.first Cable.first _ _).1 halike
  have hmeet := (indistinguishable_of_history Cable.first Cable.first _ _).2.2 0xC0 hcable hstatus
  exact ⟨⟨by decide, halike, hlook⟩, hcable, hstatus, hmeet⟩

end MidiBridge.Encoder
