/-
Module: MidiBridge.Proofs.Port.Delivery
Purpose: What becomes of whole messages on the way in. The ring takes or refuses packets, and a message
  may have many, so the reader gets a message whole or not at all exactly if the same happens to all
  packets of that message. A message of one packet is safe. A System Exclusive block of several packets
  is not: it is cut if the ring has room for some of its packets, at their turns, and not for others.
Trusted boundary: human-reviewed spec
Main exports: Port.Delivery, Port.deliveries, Port.Delivery.Whole, Port.Delivery.Even,
  Port.Delivery.whole_iff_even, Port.Delivery.even_of_single, Port.delivered_whole_iff
-/
import MidiBridge.Proofs.Message
import MidiBridge.Proofs.Port.Inbound

namespace MidiBridge

theorem Packet.payload_ne_nil_of_mem_block {cable : Cable} {bytes : List UInt8} {p : Packet}
    (h : p ∈ block cable bytes) : p.payload ≠ [] := by
  fun_induction block cable bytes with
  | case1 => cases h
  | case2 a =>
      rw [List.mem_singleton.1 h, payload_carrying cable rfl]
      exact List.cons_ne_nil _ _
  | case3 a b =>
      rw [List.mem_singleton.1 h, payload_carrying cable rfl]
      exact List.cons_ne_nil _ _
  | case4 a b c =>
      rw [List.mem_singleton.1 h, payload_carrying cable rfl]
      exact List.cons_ne_nil _ _
  | case5 a b c rest hrest ih =>
      rcases List.mem_cons.1 h with hfirst | hmore
      · rw [hfirst, payload_carrying cable rfl]
        exact List.cons_ne_nil _ _
      · exact ih hmore

theorem Message.payload_ne_nil {cable : Cable} {m : Message} {p : Packet}
    (h : p ∈ m.packets cable) : p.payload ≠ [] := by
  cases m with
  | short status data introduces complete isData =>
      rw [List.mem_singleton.1 h, payload_short cable introduces complete]
      exact List.cons_ne_nil _ _
  | single b common =>
      rw [List.mem_singleton.1 h, Packet.payload_carrying cable rfl]
      exact List.cons_ne_nil _ _
  | realTime b clock =>
      rw [List.mem_singleton.1 h, Packet.payload_carrying cable rfl]
      exact List.cons_ne_nil _ _
  | sysEx body isData => exact Packet.payload_ne_nil_of_mem_block h

namespace Port

variable {i o : Nat}

/-- A message and the turns of its packets. -/
structure Delivery where
  message : Message
  turns : List Turn

/-- The turns of the packets of some messages, told apart by message. -/
def deliveries (cable : Cable) : List Message → List Turn → List Delivery
  | [], _ => []
  | m :: ms, ts =>
      ⟨m, ts.take (m.packets cable).length⟩ :: deliveries cable ms (ts.drop (m.packets cable).length)

namespace Delivery

/-- What the packets of the message have added to the ring. -/
def bytes (d : Delivery) : List UInt8 := d.turns.flatMap Turn.added

/-- The message is delivered completely or not at all. -/
def Whole (d : Delivery) : Prop := d.bytes = d.message.bytes ∨ d.bytes = []

/-- All packets of the message find room at their turns, or none of them does. -/
def Even (capacity : Nat) (d : Delivery) : Prop :=
  (∀ t ∈ d.turns, t.HasRoom capacity) ∨ (∀ t ∈ d.turns, ¬ t.HasRoom capacity)

instance (capacity : Nat) (d : Delivery) : Decidable (d.Even capacity) :=
  inferInstanceAs (Decidable (_ ∨ _))

end Delivery

/-- The turns follow the order of the packets, so each message gets the turns of its own packets. -/
theorem deliveries_spec (cable : Cable) {ms : List Message} {ts : List Turn}
    (h : ts.map Turn.packet = ms.flatMap (Message.packets cable)) :
    (deliveries cable ms ts).map Delivery.message = ms ∧
      (deliveries cable ms ts).flatMap Delivery.turns = ts ∧
      ∀ d ∈ deliveries cable ms ts, d.turns.map Turn.packet = d.message.packets cable := by
  induction ms generalizing ts with
  | nil =>
      have hnil : ts = [] := List.map_eq_nil_iff.1 h
      rw [hnil]
      exact ⟨rfl, rfl, fun d hd => (List.not_mem_nil hd).elim⟩
  | cons m ms ih =>
      rw [List.flatMap_cons] at h
      have hfirst : (ts.take (m.packets cable).length).map Turn.packet = m.packets cable := by
        rw [List.map_take, h]
        exact List.take_left
      have hmore : (ts.drop (m.packets cable).length).map Turn.packet
          = ms.flatMap (Message.packets cable) := by
        rw [List.map_drop, h]
        exact List.drop_left
      obtain ⟨hmessages, hturns, hpackets⟩ := ih hmore
      refine ⟨?_, ?_, ?_⟩
      · rw [deliveries, List.map_cons, hmessages]
      · rw [deliveries, List.flatMap_cons, hturns]
        exact List.take_append_drop _ ts
      · intro d hd
        rcases List.mem_cons.1 hd with hhead | htail
        · rw [hhead]
          exact hfirst
        · exact hpackets d htail

/-!
### What turns add

A turn adds the whole payload or nothing. Since no payload is empty, the bytes that some turns have
added tell whether all of them had room, and also whether none had.
-/

section Turns

variable {capacity : Nat} {ts : List Turn}

theorem added_eq_payloads_iff
    (hadded : ∀ t ∈ ts, (t.HasRoom capacity → t.added = t.packet.payload) ∧
      (¬ t.HasRoom capacity → t.added = []))
    (hpayload : ∀ t ∈ ts, t.packet.payload ≠ []) :
    (ts.flatMap Turn.added).length ≤ (Packet.stream (ts.map Turn.packet)).length ∧
      (ts.flatMap Turn.added = Packet.stream (ts.map Turn.packet)
        ↔ ∀ t ∈ ts, t.HasRoom capacity) := by
  induction ts with
  | nil =>
      refine ⟨Nat.le_refl 0, ?_⟩
      constructor
      · intro _ t ht
        cases ht
      · intro _
        rfl
  | cons t ts ih =>
      obtain ⟨hroom, hlack⟩ := hadded t (List.mem_cons_self ..)
      have hpos : 0 < t.packet.payload.length :=
        List.length_pos_iff.2 (hpayload t (List.mem_cons_self ..))
      obtain ⟨hle, hiff⟩ := ih (fun u hu => hadded u (List.mem_cons_of_mem t hu))
        (fun u hu => hpayload u (List.mem_cons_of_mem t hu))
      rw [List.flatMap_cons, List.map_cons, Packet.stream_cons, List.length_append,
        List.length_append, List.forall_mem_cons]
      by_cases hcase : t.HasRoom capacity
      · rw [hroom hcase]
        refine ⟨Nat.add_le_add_left hle _, ?_⟩
        rw [List.append_right_inj, hiff]
        exact (and_iff_right hcase).symm
      · rw [hlack hcase, List.nil_append, List.length_nil, Nat.zero_add]
        refine ⟨Nat.le_trans hle (Nat.le_add_left _ _), ?_⟩
        constructor
        · intro heq
          have hlength := congrArg List.length heq
          rw [List.length_append] at hlength
          omega
        · intro hall
          exact absurd hall.1 hcase

theorem added_eq_nil_iff
    (hadded : ∀ t ∈ ts, (t.HasRoom capacity → t.added = t.packet.payload) ∧
      (¬ t.HasRoom capacity → t.added = []))
    (hpayload : ∀ t ∈ ts, t.packet.payload ≠ []) :
    ts.flatMap Turn.added = [] ↔ ∀ t ∈ ts, ¬ t.HasRoom capacity := by
  rw [List.flatMap_eq_nil_iff]
  constructor
  · intro hnone t ht hroom
    have hadds := (hadded t ht).1 hroom
    rw [hnone t ht] at hadds
    exact hpayload t ht hadds.symm
  · intro hlack t ht
    exact (hadded t ht).2 (hlack t ht)

end Turns

namespace Delivery

/-- A message arrives whole or not at all exactly if its packets have the same luck. -/
theorem whole_iff_even {cable : Cable} {capacity : Nat} {d : Delivery}
    (hpackets : d.turns.map Turn.packet = d.message.packets cable)
    (hadded : ∀ t ∈ d.turns, (t.HasRoom capacity → t.added = t.packet.payload) ∧
      (¬ t.HasRoom capacity → t.added = [])) :
    d.Whole ↔ d.Even capacity := by
  have hpayload : ∀ t ∈ d.turns, t.packet.payload ≠ [] := by
    intro t ht
    have hmem : t.packet ∈ d.message.packets cable := by
      rw [← hpackets]
      exact List.mem_map_of_mem ht
    exact Message.payload_ne_nil hmem
  have hbytes : Packet.stream (d.turns.map Turn.packet) = d.message.bytes := by
    rw [hpackets, Message.stream_packets]
  have hall := (added_eq_payloads_iff hadded hpayload).2
  rw [hbytes] at hall
  exact or_congr hall (added_eq_nil_iff hadded hpayload)

/-- A message of one packet cannot be cut. -/
theorem even_of_single {cable : Cable} (capacity : Nat) {d : Delivery}
    (hpackets : d.turns.map Turn.packet = d.message.packets cable)
    (hsingle : (d.message.packets cable).length = 1) : d.Even capacity := by
  have hone : d.turns.length = 1 := by
    rw [← List.length_map Turn.packet, hpackets, hsingle]
  obtain ⟨t, ht⟩ := List.length_eq_one_iff.1 hone
  rw [Even, ht, List.forall_mem_singleton, List.forall_mem_singleton]
  exact Classical.em (t.HasRoom capacity)

/-- Messages that are delivered whole or not at all come out as some of the messages. -/
theorem exists_sublist_of_whole {ds : List Delivery} (h : ∀ d ∈ ds, d.Whole) :
    ∃ kept : List Message, kept.Sublist (ds.map Delivery.message) ∧
      ds.flatMap Delivery.bytes = kept.flatMap Message.bytes := by
  induction ds with
  | nil => exact ⟨[], List.Sublist.slnil, rfl⟩
  | cons d ds ih =>
      obtain ⟨kept, hsub, hbytes⟩ := ih fun e he => h e (List.mem_cons_of_mem d he)
      rcases h d (List.mem_cons_self ..) with hwhole | hnone
      · refine ⟨d.message :: kept, hsub.cons_cons d.message, ?_⟩
        rw [List.flatMap_cons, List.flatMap_cons, hwhole, hbytes]
      · refine ⟨kept, hsub.cons d.message, ?_⟩
        rw [List.flatMap_cons, hnone, hbytes]
        rfl

end Delivery

/-- When the reader gets whole messages. A host sends messages, each as its packets, and in the end all
    packets have been received and the ring is empty. Then every byte that was read was added at a turn of
    some message; every message is delivered completely or not at all exactly if at the turns of its
    packets the ring had room for all of them or for none; and if that is so, then the bytes read are
    those of some of the messages, in order. -/
theorem delivered_whole_iff (hi : Ring.Admits 8 i) (ho : Ring.Admits 8 o) (cable hostCable : Cable)
    {ms : List Message} {steps : List WayIn.Step}
    (hsent : WayIn.Step.sent steps = ms.flatMap (Message.packets hostCable))
    (hreceived :
      ((new SimulatedHost.new cable hi ho).afterSteps steps).transport.link.inbound = [])
    (hread : ((new SimulatedHost.new cable hi ho).afterSteps steps).inbound.isEmpty = true) :
    let p : Port SimulatedHost i o := new SimulatedHost.new cable hi ho
    let ds := deliveries hostCable ms (p.wayIn.history steps)
    ds.map Delivery.message = ms ∧
      (∀ d ∈ ds, d.turns.map Turn.packet = d.message.packets hostCable) ∧
      ds.flatMap Delivery.turns = p.wayIn.history steps ∧
      p.bytesRead steps = ds.flatMap Delivery.bytes ∧
      (∀ d ∈ ds, (d.message.packets hostCable).length = 1 → d.Whole) ∧
      ((∀ d ∈ ds, d.Whole) ↔ ∀ d ∈ ds, d.Even (i - 1)) ∧
      ((∀ d ∈ ds, d.Even (i - 1)) →
        ∃ kept : List Message, kept.Sublist ms ∧ p.bytesRead steps = kept.flatMap Message.bytes) := by
  intro p ds
  have hafter : (p.afterSteps steps).wayIn = p.wayIn.run steps := wayIn_afterSteps p steps
  have hwaiting : (p.wayIn.run steps).waiting = [] := by
    rw [← hafter]
    exact hreceived
  have hring : (p.wayIn.run steps).ring.toList = [] := by
    rw [← hafter, ← Ring.isEmpty_iff_toList]
    exact hread
  have hturns : (p.wayIn.history steps).map Turn.packet = ms.flatMap (Message.packets hostCable) := by
    have hconserved := p.wayIn.packets_conserved steps
    rw [hwaiting, List.append_nil, hsent] at hconserved
    exact hconserved.symm
  obtain ⟨hmessages, hhistory, hpackets⟩ := deliveries_spec hostCable hturns
  have hbytes : p.bytesRead steps = ds.flatMap Delivery.bytes := by
    have hconserved := p.wayIn.bytes_conserved steps
    have hempty : p.wayIn.ring.toList = [] := Ring.toList_empty hi
    rw [hring, hempty, List.append_nil, List.nil_append] at hconserved
    rw [bytesRead_eq, ← hconserved, ← hhistory, List.flatMap_assoc]
    rfl
  have hiff : ∀ d ∈ ds, d.Whole ↔ d.Even (i - 1) := by
    intro d hd
    apply Delivery.whole_iff_even (hpackets d hd)
    intro t ht
    have hmem : t ∈ p.wayIn.history steps := by
      rw [← hhistory]
      exact List.mem_flatMap.2 ⟨d, hd, ht⟩
    exact WayIn.added_of_mem_history hmem
  refine ⟨hmessages, hpackets, hhistory, hbytes, ?_, forall₂_congr hiff, ?_⟩
  · intro d hd hsingle
    exact (hiff d hd).2 (Delivery.even_of_single (i - 1) (hpackets d hd) hsingle)
  · intro heven
    obtain ⟨kept, hsub, hkept⟩ :=
      Delivery.exists_sublist_of_whole fun d hd => (hiff d hd).2 (heven d hd)
    rw [hmessages] at hsub
    exact ⟨kept, hsub, hbytes.trans hkept⟩

/-- A note, and after its first byte is read a block of two packets, which fill the ring. -/
theorem delivered_whole_after_read :
    let ms :=
      [Message.short 0x90 [0x40, 0x7F] (by decide) (by decide) (by simp),
        Message.sysEx [0x01, 0x02, 0x03] (by simp)]
    let steps : List WayIn.Step :=
      [.send [⟨0x09, ⟨0x90, 0x40, 0x7F⟩⟩], .read,
        .send [⟨0x04, ⟨0xF0, 0x01, 0x02⟩⟩, ⟨0x06, ⟨0x03, 0xF7, 0⟩⟩]] ++ List.replicate 7 .read
    let p : Port SimulatedHost 8 4 :=
      new SimulatedHost.new Cable.first (by decide) (by decide)
    WayIn.Step.sent steps = ms.flatMap (Message.packets Cable.first) ∧
      (p.afterSteps steps).transport.link.inbound = [] ∧
      (p.afterSteps steps).inbound.isEmpty = true ∧
      (∀ d ∈ deliveries Cable.first ms (p.wayIn.history steps), d.Even 7) ∧
      ∃ kept : List Message, kept.Sublist ms ∧ p.bytesRead steps = kept.flatMap Message.bytes := by
  intro ms steps p
  have hsent : WayIn.Step.sent steps = ms.flatMap (Message.packets Cable.first) := by decide
  have hafter := wayIn_afterSteps p steps
  have hreceived : (p.afterSteps steps).transport.link.inbound = [] :=
    (congrArg WayIn.waiting hafter).trans (by decide)
  have hread : (p.afterSteps steps).inbound.isEmpty = true :=
    (congrArg (fun w => w.ring.isEmpty) hafter).trans (by decide)
  have heven : ∀ d ∈ deliveries Cable.first ms (p.wayIn.history steps), d.Even 7 := by decide
  rcases delivered_whole_iff (by decide) (by decide) Cable.first Cable.first hsent hreceived hread
    with ⟨-, -, -, -, -, -, hmessages⟩
  exact ⟨hsent, hreceived, hread, heven, hmessages heven⟩

/-- The same block when no byte of the note has been read yet. Its first packet fits and its second does
    not, and the reader gets a block without an end. -/
theorem block_cut_on_overflow :
    let ms :=
      [Message.short 0x90 [0x40, 0x7F] (by decide) (by decide) (by simp),
        Message.sysEx [0x01, 0x02, 0x03] (by simp)]
    let steps : List WayIn.Step :=
      [.send [⟨0x09, ⟨0x90, 0x40, 0x7F⟩⟩, ⟨0x04, ⟨0xF0, 0x01, 0x02⟩⟩, ⟨0x06, ⟨0x03, 0xF7, 0⟩⟩],
        .poll] ++ List.replicate 7 .read
    let p : Port SimulatedHost 8 4 :=
      new SimulatedHost.new Cable.first (by decide) (by decide)
    WayIn.Step.sent steps = ms.flatMap (Message.packets Cable.first) ∧
      (p.afterSteps steps).transport.link.inbound = [] ∧
      (p.afterSteps steps).inbound.isEmpty = true ∧
      p.bytesRead steps = [0x90, 0x40, 0x7F, 0xF0, 0x01, 0x02] ∧
      ¬ ∃ kept : List Message,
        kept.Sublist ms ∧ p.bytesRead steps = kept.flatMap Message.bytes := by
  intro ms steps p
  have hafter := wayIn_afterSteps p steps
  have hbytes : p.bytesRead steps = [0x90, 0x40, 0x7F, 0xF0, 0x01, 0x02] :=
    (bytesRead_eq p steps).trans (by decide)
  have hreceived : (p.afterSteps steps).transport.link.inbound = [] :=
    (congrArg WayIn.waiting hafter).trans (by decide)
  have hread : (p.afterSteps steps).inbound.isEmpty = true :=
    (congrArg (fun w => w.ring.isEmpty) hafter).trans (by decide)
  refine ⟨by decide, hreceived, hread, hbytes, ?_⟩
  rintro ⟨kept, hsub, hkept⟩
  rw [hbytes] at hkept
  dsimp only [ms] at hsub
  -- There are four ways to keep messages, and they give 0, 3, 5 and 8 bytes.
  have hlength := congrArg List.length hkept
  cases hsub with
  | cons _ hrest =>
      cases hrest with
      | cons _ hnil =>
          cases hnil
          cases hlength
      | cons_cons _ hnil =>
          cases hnil
          cases hlength
  | cons_cons _ hrest =>
      cases hrest with
      | cons _ hnil =>
          cases hnil
          cases hlength
      | cons_cons _ hnil =>
          cases hnil
          cases hlength

end Port

end MidiBridge
