/-
Module: MidiBridge.Proofs.Encoder.Tagging
Purpose: The cable of an encoder does nothing but tag its packets. An encoder whose cable is changed does with
  a byte what it would have done without the change, and the packet differs in the high half of its header. So
  changes of the cable can be erased from a history: the packets come with the same bytes and carry the same,
  and each is on the cable that was in effect when its last byte came. Encoders on different cables may
  therefore emit into one list, and the packets of each are found in it by their cable.
Trusted boundary: human-reviewed spec
Main exports: Packet.onCable, Encoder.Outcome.onCable, Encoder.step_setCable, Encoder.Command.erased,
  Encoder.cablesInEffect, Encoder.outcomes, Encoder.outcomes_setCable, Encoder.after_setCable, Encoder.shared,
  Encoder.fedTo, Encoder.filter_shared, Encoder.cable_only_tags
-/
import Mathlib.Logic.Function.Basic
import MidiBridge.Proofs.Encoder.Transparency

namespace MidiBridge

/-!
### Tags
-/

/-- The code in a header is its low half. -/
theorem CodeIndex.value_ofNibble (header : UInt8) : (ofNibble header).value = header &&& 0x0F := by
  revert header
  rw [Byte.forall_iff]
  decide

namespace Packet

/-- The packet with another cable in the high half of its header. -/
def onCable (cable : Cable) (p : Packet) : Packet :=
  { p with header := cable.number <<< 4 ||| (p.header &&& 0x0F) }

theorem onCable_make (cable cable' : Cable) (code : CodeIndex) (data : Triple) :
    (make cable' code data).onCable cable = make cable code data := by
  have hlow : (make cable' code data).header &&& 0x0F = code.value := by
    rw [← CodeIndex.value_ofNibble]
    exact congrArg CodeIndex.value (code_make cable' code data)
  rw [onCable, hlow]
  rfl

/-- A packet is made of a cable, a code and data, and a tag replaces the cable. -/
theorem onCable_eq_make (cable : Cable) (p : Packet) : p.onCable cable = make cable p.code p.data := by
  rw [← onCable_make cable p.cable, make_cable_code]

@[simp] theorem cable_onCable (cable : Cable) (p : Packet) : (p.onCable cable).cable = cable := by
  rw [onCable_eq_make, cable_make]

@[simp] theorem code_onCable (cable : Cable) (p : Packet) : (p.onCable cable).code = p.code := by
  rw [onCable_eq_make, code_make]

@[simp] theorem data_onCable (cable : Cable) (p : Packet) : (p.onCable cable).data = p.data := rfl

theorem header_onCable (cable : Cable) (p : Packet) :
    (p.onCable cable).header &&& 0x0F = p.header &&& 0x0F := by
  have hcode := congrArg CodeIndex.value (code_onCable cable p)
  rw [code, code, CodeIndex.value_ofNibble, CodeIndex.value_ofNibble] at hcode
  exact hcode

end Packet

namespace Encoder

/-!
### One command
-/

/-- The outcome with another cable: that of the encoder, and the tag of the packet. -/
def Outcome.onCable (cable : Cable) (o : Outcome) : Outcome :=
  { o with encoder := o.encoder.setCable cable, packet? := o.packet?.map (Packet.onCable cable) }

/-- The packets of an encoder are made for its cable, so the other cable makes the other packet. -/
theorem Outcome.onCable_make (cable cable' : Cable) (e : Encoder) (code : CodeIndex) (data : Triple)
    (discard? : Option Discard) :
    Outcome.onCable cable ⟨e, some (Packet.make cable' code data), discard?⟩
      = ⟨e.setCable cable, some (Packet.make cable code data), discard?⟩ := by
  rw [onCable, Option.map_some, Packet.onCable_make]

theorem collect_setCable (e : Encoder) (cable : Cable) (b : UInt8) :
    (e.setCable cable).collect b = (e.collect b).onCable cable := by
  rcases e with ⟨cable', framing, chunk⟩
  show collect ⟨cable, framing, chunk⟩ b = _
  cases framing with
  | idle => rfl
  | sysEx resume =>
      simp only [collect]
      by_cases hshort : (chunk.push b).1.count < Triple.size
      · rw [if_pos hshort, if_pos hshort]
        rfl
      · rw [if_neg hshort, if_neg hshort, Outcome.onCable_make]
        rfl
  | running status =>
      cases hlayout : Layout.ofStatus? status with
      | none =>
          simp only [collect, hlayout]
          split <;> rfl
      | some layout =>
          simp only [collect, hlayout]
          by_cases hshort : (chunk.push b).1.count < layout.dataLength
          · rw [if_pos hshort, if_pos hshort]
            rfl
          · rw [if_neg hshort, if_neg hshort, Outcome.onCable_make]
            rfl

theorem finishSysEx_setCable (e : Encoder) (cable : Cable) (tail : Chunk) (discard? : Option Discard) :
    (e.setCable cable).finishSysEx tail discard? = (e.finishSysEx tail discard?).onCable cable := by
  rw [finishSysEx, finishSysEx, Outcome.onCable_make]
  rfl

/-- A byte makes the same of an encoder on another cable, but for the tag. -/
theorem step_setCable (e : Encoder) (cable : Cable) (b : UInt8) :
    (e.setCable cable).step b = (e.step b).onCable cable := by
  have hchunk : (e.setCable cable).chunk = e.chunk := rfl
  cases hclass : ByteClass.ofByte b with
  | realTime | singleCommon =>
      simp only [step, hclass]
      rw [Outcome.onCable_make]
      rfl
  | sysExStart | status =>
      simp only [step, hclass]
      rfl
  | sysExEnd =>
      simp only [step, hclass, hchunk]
      split
      · exact finishSysEx_setCable e cable _ none
      · exact finishSysEx_setCable e cable _ _
  | data =>
      simp only [step, hclass]
      exact collect_setCable e cable b

/-!
### Histories

The changes of the cable are erased from a history, and every other command keeps its place.
-/

namespace Command

/-- The cable that a command chooses. -/
def cable? : Command → Option Cable
  | .setCable cable => some cable
  | .byte _ | .reset => none

/-- The commands that are left when the choices of a cable are erased. -/
def erased (cs : List Command) : List Command := cs.filter (·.cable?.isNone)

theorem erased_cons_of_cable {c : Command} {cable : Cable} (h : c.cable? = some cable)
    (cs : List Command) : erased (c :: cs) = erased cs :=
  List.filter_cons_of_neg (by simp [h])

theorem erased_cons_of_none {c : Command} (h : c.cable? = none) (cs : List Command) :
    erased (c :: cs) = c :: erased cs :=
  List.filter_cons_of_pos (by simp [h])

end Command

/-- The cable in effect after some commands, where `cable` was in effect before. -/
def cableAfter (cable : Cable) (cs : List Command) : Cable :=
  cs.foldl (fun cable c => c.cable?.getD cable) cable

/-- For every command but the choices of a cable, the cable in effect when it is carried out. -/
def cablesInEffect (cable : Cable) : List Command → List Cable
  | [] => []
  | c :: cs =>
      match c.cable? with
      | some cable' => cablesInEffect cable' cs
      | none => cable :: cablesInEffect cable cs

/-- For every command but the choices of a cable, its outcome. -/
def outcomes (e : Encoder) (cs : List Command) : List Outcome :=
  ((cs.zip (e.history cs)).filter (·.1.cable?.isNone)).map Prod.snd

theorem apply_setCable {c : Command} (h : c.cable? = none) (e : Encoder) (cable : Cable) :
    (e.setCable cable).apply c = (e.apply c).onCable cable := by
  cases c with
  | byte b => exact step_setCable e cable b
  | reset => rfl
  | setCable cable' => cases h

theorem encoder_apply_of_cable {c : Command} {cable : Cable} (h : c.cable? = some cable) (e : Encoder) :
    (e.apply c).encoder = e.setCable cable := by
  cases c with
  | byte b => cases h
  | reset => cases h
  | setCable cable' =>
      cases h
      rfl

theorem outcomes_cons_of_cable {c : Command} {cable : Cable} (h : c.cable? = some cable) (e : Encoder)
    (cs : List Command) : e.outcomes (c :: cs) = (e.setCable cable).outcomes cs := by
  rw [outcomes, history, List.zip_cons_cons, List.filter_cons_of_neg (by simp [h]),
    encoder_apply_of_cable h]
  rfl

theorem outcomes_cons_of_none {c : Command} (h : c.cable? = none) (e : Encoder) (cs : List Command) :
    e.outcomes (c :: cs) = e.apply c :: (e.apply c).encoder.outcomes cs := by
  rw [outcomes, history, List.zip_cons_cons, List.filter_cons_of_pos (by simp [h]), List.map_cons]
  rfl

/-- On another cable, and with changes of the cable on the way, the outcomes are those of the history without
    the changes, each with the tag that was in effect. -/
theorem outcomes_setCable (e : Encoder) (cable : Cable) (cs : List Command) :
    (e.setCable cable).outcomes cs
      = List.zipWith Outcome.onCable (cablesInEffect cable cs) (e.history (Command.erased cs)) := by
  induction cs generalizing e cable with
  | nil => rfl
  | cons c cs ih =>
      cases hc : c.cable? with
      | some cable' =>
          rw [outcomes_cons_of_cable hc, Command.erased_cons_of_cable hc, cablesInEffect, hc]
          exact ih e cable'
      | none =>
          rw [outcomes_cons_of_none hc, Command.erased_cons_of_none hc, cablesInEffect, hc,
            apply_setCable hc]
          exact congrArg (_ :: ·) (ih (e.apply c).encoder cable)

/-- Without the changes of the cable an encoder gets to the same state, but for the cable. -/
theorem after_setCable (e : Encoder) (cable : Cable) (cs : List Command) :
    (e.setCable cable).after cs = (e.after (Command.erased cs)).setCable (cableAfter cable cs) := by
  induction cs generalizing e cable with
  | nil => rfl
  | cons c cs ih =>
      cases hc : c.cable? with
      | some cable' =>
          rw [Command.erased_cons_of_cable hc, cableAfter, List.foldl_cons, hc, after,
            List.foldl_cons, encoder_apply_of_cable hc]
          exact ih e cable'
      | none =>
          rw [Command.erased_cons_of_none hc, cableAfter, List.foldl_cons, hc, after,
            List.foldl_cons, apply_setCable hc]
          exact ih (e.apply c).encoder cable

/-- Changes of the cable in a history change the tags of the packets and nothing else. -/
structure OnlyTags (e : Encoder) (cs : List Command) : Prop where
  /-- The same commands complete packets, and each packet has the tag that was in effect. -/
  emissions_eq : (e.outcomes cs).map (·.packet?)
    = List.zipWith (fun cable packet? => packet?.map (Packet.onCable cable)) (cablesInEffect e.cable cs)
        ((e.history (Command.erased cs)).map (·.packet?))
  /-- Every command that is left has its cable. -/
  length_eq : (cablesInEffect e.cable cs).length = (Command.erased cs).length
  framing_eq : (e.after cs).framing = (e.after (Command.erased cs)).framing
  pending_eq : (e.after cs).pending = (e.after (Command.erased cs)).pending
  cable_eq : (e.after cs).cable = cableAfter e.cable cs

theorem length_cablesInEffect (cable : Cable) (cs : List Command) :
    (cablesInEffect cable cs).length = (Command.erased cs).length := by
  induction cs generalizing cable with
  | nil => rfl
  | cons c cs ih =>
      cases hc : c.cable? with
      | some cable' =>
          rw [Command.erased_cons_of_cable hc, cablesInEffect, hc]
          exact ih cable'
      | none =>
          rw [Command.erased_cons_of_none hc, cablesInEffect, hc]
          exact congrArg (· + 1) (ih cable)

theorem onlyTags (e : Encoder) (cs : List Command) : e.OnlyTags cs := by
  have hafter : e.after cs = _ := after_setCable e e.cable cs
  constructor
  case emissions_eq =>
    have houtcomes : e.outcomes cs = _ := outcomes_setCable e e.cable cs
    rw [houtcomes, List.map_zipWith, List.zipWith_map_right]
    rfl
  case length_eq => exact length_cablesInEffect e.cable cs
  case framing_eq => rw [hafter]; rfl
  case pending_eq => rw [hafter]; rfl
  case cable_eq => rw [hafter]; rfl

/-!
### Encoders that share a list

Each is fed some of the bytes, in any interleaving, and all of them emit into one list.
-/

/-- A packet is on the cable of its encoder. -/
theorem cable_of_packet? {e : Encoder} {b : UInt8} {p : Packet} (h : (e.step b).packet? = some p) :
    p.cable = e.cable := by
  have hsame : e.step b = (e.step b).onCable e.cable := step_setCable e e.cable b
  rw [hsame, Outcome.onCable, Option.map_eq_some_iff] at h
  obtain ⟨q, -, rfl⟩ := h
  exact Packet.cable_onCable e.cable q

section Sharing

variable {ι : Type} [DecidableEq ι]

/-- The packets of all encoders, in the order in which they are completed. Each byte is for the encoder that
    is named with it. -/
def shared (es : ι → Encoder) : List (ι × UInt8) → List Packet
  | [] => []
  | (k, b) :: fed =>
      ((es k).step b).packet?.toList ++ shared (Function.update es k ((es k).step b).encoder) fed

/-- The bytes for one of the encoders. -/
def fedTo (k : ι) (fed : List (ι × UInt8)) : List UInt8 := (fed.filter (·.1 = k)).map Prod.snd

theorem cable_update_step (es : ι → Encoder) (j : ι) (b : UInt8) (k : ι) :
    (Function.update es j ((es j).step b).encoder k).cable = (es k).cable := by
  by_cases hk : k = j
  · rw [hk, Function.update_self]
    exact cable_step (es j) b
  · rw [Function.update_of_ne hk]

/-- Looking for a cable, what an encoder emits is kept or left out as a whole. -/
theorem filter_packet? (e : Encoder) (b : UInt8) (cable : Cable) :
    (e.step b).packet?.toList.filter (·.cable = cable)
      = if e.cable = cable then (e.step b).packet?.toList else [] := by
  cases hp : (e.step b).packet? with
  | none => exact (ite_self _).symm
  | some p =>
      rw [← cable_of_packet? hp]
      split
      · next hsame => exact List.filter_cons_of_pos (decide_eq_true hsame)
      · next hother => exact List.filter_cons_of_neg (by simpa using hother)

theorem fedTo_cons_self (k : ι) (b : UInt8) (fed : List (ι × UInt8)) :
    fedTo k ((k, b) :: fed) = b :: fedTo k fed := by
  rw [fedTo, List.filter_cons_of_pos (by simp)]
  rfl

theorem fedTo_cons_of_ne {j k : ι} (h : j ≠ k) (b : UInt8) (fed : List (ι × UInt8)) :
    fedTo k ((j, b) :: fed) = fedTo k fed := by
  rw [fedTo, List.filter_cons_of_neg (by simpa using h)]
  rfl

/-- On different cables, the packets of an encoder are found by their cable. -/
theorem filter_shared {es : ι → Encoder} (h : Function.Injective fun k => (es k).cable)
    (fed : List (ι × UInt8)) (k : ι) :
    (shared es fed).filter (·.cable = (es k).cable) = (es k).packets (fedTo k fed) := by
  induction fed generalizing es with
  | nil => rfl
  | cons x fed ih =>
      obtain ⟨j, b⟩ := x
      have hstill : Function.Injective
          fun k => (Function.update es j ((es j).step b).encoder k).cable := by
        rw [funext (cable_update_step es j b)]
        exact h
      have hrest := ih hstill
      rw [cable_update_step] at hrest
      rw [shared, List.filter_append, hrest, filter_packet?]
      by_cases hk : j = k
      · rw [hk, if_pos rfl, Function.update_self, fedTo_cons_self, packets_cons]
      · have hcable : (es j).cable ≠ (es k).cable := fun hsame => hk (h hsame)
        rw [if_neg hcable, Function.update_of_ne (Ne.symm hk), fedTo_cons_of_ne hk]
        rfl

/-- Nothing in the list is on a cable that belongs to no encoder. -/
theorem cable_of_mem_shared {es : ι → Encoder} {fed : List (ι × UInt8)} {p : Packet}
    (h : p ∈ shared es fed) : ∃ k, p.cable = (es k).cable := by
  induction fed generalizing es with
  | nil => cases h
  | cons x fed ih =>
      obtain ⟨j, b⟩ := x
      rcases List.mem_append.1 h with hnow | hlater
      · exact ⟨j, cable_of_packet? (Option.mem_toList.1 hnow)⟩
      · obtain ⟨k, hk⟩ := ih hlater
        exact ⟨k, hk.trans (cable_update_step es j b k)⟩

end Sharing

/-- The cable of an encoder only tags its packets, in any state and for any history. A tag is the high half of
    the header, and leaves the code and the data bytes. So for encoders on different cables that are fed in any
    interleaving and emit into one list, selecting by the cable gives the packets of the encoder alone, and
    with them its serial stream. Nothing else is in the list. -/
theorem cable_only_tags :
    (∀ (e : Encoder) (cs : List Command), e.OnlyTags cs) ∧
    (∀ (cable : Cable) (p : Packet),
      (p.onCable cable).cable = cable ∧ (p.onCable cable).header &&& 0x0F = p.header &&& 0x0F ∧
        (p.onCable cable).code = p.code ∧ (p.onCable cable).data = p.data) ∧
    ∀ {ι : Type} [DecidableEq ι] (es : ι → Encoder), (Function.Injective fun k => (es k).cable) →
      ∀ fed : List (ι × UInt8),
        (∀ k, (shared es fed).filter (·.cable = (es k).cable) = (es k).packets (fedTo k fed) ∧
          Packet.stream ((shared es fed).filter (·.cable = (es k).cable))
            = Packet.stream ((es k).packets (fedTo k fed))) ∧
        ∀ p ∈ shared es fed, ∃ k, p.cable = (es k).cable := by
  refine ⟨onlyTags, fun cable p => ?_, fun es hdistinct fed => ⟨fun k => ?_, fun p hp => ?_⟩⟩
  · exact ⟨Packet.cable_onCable cable p, Packet.header_onCable cable p, Packet.code_onCable cable p,
      Packet.data_onCable cable p⟩
  · have hfilter := filter_shared hdistinct fed k
    exact ⟨hfilter, congrArg Packet.stream hfilter⟩
  · exact cable_of_mem_shared hp

/-- A note whose data bytes come in turn with those of a program change on the other cable. In the list the
    packets stand in the order in which they were completed, and the cable `1` has the note. And for one
    encoder, a change of the cable in the middle of a message is in effect when the message is complete. -/
theorem cable_only_tags_mixed :
    let other : Cable := { number := 1 }
    let es : Bool → Encoder := fun k => new (if k then other else Cable.first)
    let fed : List (Bool × UInt8) :=
      [(true, 0x90), (false, 0xC0), (true, 0x3C), (false, 0x05), (true, 0x7F), (false, 0x06)]
    let cs : List Command := [.byte 0x90, .byte 0x3C, .setCable other, .byte 0x7F]
    (Function.Injective fun k => (es k).cable) ∧
      (shared es fed).filter (·.cable = other) = (es true).packets (fedTo true fed) ∧
      shared es fed = [⟨0x0C, ⟨0xC0, 0x05, 0⟩⟩, ⟨0x19, ⟨0x90, 0x3C, 0x7F⟩⟩, ⟨0x0C, ⟨0xC0, 0x06, 0⟩⟩] ∧
      (new Cable.first).OnlyTags cs ∧
      ((new Cable.first).outcomes cs).map (·.packet?) = [none, none, some ⟨0x19, ⟨0x90, 0x3C, 0x7F⟩⟩] ∧
      (new Cable.first).emissions [0x90, 0x3C, 0x7F] = [none, none, some ⟨0x09, ⟨0x90, 0x3C, 0x7F⟩⟩] := by
  intro other es fed cs
  have hdistinct : Function.Injective fun k => (es k).cable := by
    intro j k hcables
    revert j k
    decide
  obtain ⟨honly, -, hshared⟩ := cable_only_tags
  have hselected := ((hshared es hdistinct fed).1 true).1
  exact ⟨hdistinct, hselected, by decide, honly (new Cable.first) cs, by decide, by decide⟩

end Encoder

end MidiBridge
