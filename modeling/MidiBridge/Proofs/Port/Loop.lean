/-
Module: MidiBridge.Proofs.Port.Loop
Purpose: A port whose host sends back what it gets and nothing else. Every packet then goes round: from the
  encoder to the queue, to the sent packets, to those that wait, and as bytes to the ring, from which they
  are read. As long as nothing is dropped for want of room, all that has been written is, in order, in one of
  these places or has been read, wherever the loop is closed and however long sending was stalled.
Trusted boundary: human-reviewed spec
Main exports: Port.Command.isLooped, Port.taken_eq_delivered, Port.packets_of_looped,
  Port.bytes_of_room, Port.loop_conserved
-/
import Mathlib.Data.List.Basic
import MidiBridge.Proofs.Encoder.WellFormed
import MidiBridge.Proofs.Port.Outbound
import MidiBridge.Proofs.Port.Reception

namespace MidiBridge.Port

variable {i o : Nat}

/-- The host adds no packets of its own and keeps none for itself. -/
def Command.isLooped : Command SimulatedHost.Event → Bool
  | .host (.link (.deliver _)) | .host (.link .collect) => false
  | _ => true

/-!
### Round and round

What the host takes from the way out is what it puts on the way in.
-/

theorem taken_eq_delivered {c : Command SimulatedHost.Event} (h : c.isLooped = true)
    (p : Port SimulatedHost i o) : p.taken c = p.delivered c := by
  cases c with
  | host event =>
      cases event with
      | link event =>
          cases event with
          | deliver ps => cases h
          | collect => cases h
          | disconnect | loopBack => rfl
      | stall polls => rfl
  | _ => rfl

/-- The packets that were received, those that wait, those that were sent and the queued ones are what the
    encoder emitted, without what was dropped before it was queued. -/
theorem packets_of_looped {p : Port SimulatedHost i o} {cs : List (Command SimulatedHost.Event)}
    (hwaiting : p.transport.link.inbound = []) (houtput : p.output = [])
    (h : ∀ c ∈ cs, c.isLooped = true) :
    gather received p cs ++ (p.after cs).transport.link.inbound ++ (p.after cs).output
      = Encoder.kept (p.encoder.history (cs.flatMap Command.asks)) (gather verdicts p cs) := by
  have hloop : gather taken p cs = gather delivered p cs :=
    gather_congr (fun c hc => taken_eq_delivered (h c hc)) p
  have hin := packets_after p cs
  have hout := output_after p cs
  rw [hwaiting, List.nil_append] at hin
  rw [houtput, List.nil_append, hloop, hin] at hout
  exact hout

/-!
### Bytes
-/

/-- If every packet finds room, then the bytes of all that were received have been read or are in the
    ring. -/
theorem bytes_of_room {p : Port SimulatedHost i o} {cs : List (Command SimulatedHost.Event)}
    (hempty : p.inbound.toList = []) (hroom : ∀ t ∈ gather arrivals p cs, t.HasRoom (i - 1)) :
    gather bytesTaken p cs ++ (p.after cs).inbound.toList = Packet.stream (gather received p cs) := by
  have hadded : ∀ t ∈ gather arrivals p cs, t.added = t.packet.payload := fun t ht =>
    of_mem_gather (motive := fun t => t.HasRoom (i - 1) → t.added = t.packet.payload)
      (fun p c t ht => (added_of_mem_turns ht).1) ht (hroom t ht)
  calc
    gather bytesTaken p cs ++ (p.after cs).inbound.toList
        = (gather arrivals p cs).flatMap Turn.added := by
        rw [← bytes_after, hempty, List.nil_append]
    _ = (gather arrivals p cs).flatMap fun t => t.packet.payload := List.flatMap_congr hadded
    _ = Packet.stream (gather received p cs) := by
        rw [← map_packet_gather, Packet.stream, List.flatMap_map]
        simp only [Packet.toList_decode]

/-- A new port on a fresh simulated host, in a session where the host sends back what it gets.

    No packet that comes back has a reserved code, so none is dropped for that. And if no packet was dropped
    because the queue or the ring was full, then the bytes that were read, those in the ring, and the bytes of
    the packets that wait, of those that were sent and of the queued ones are together, in this order, the
    stream that an encoder on its own emits for all that was written. -/
theorem loop_conserved (hi : Ring.Admits 8 i) (ho : Ring.Admits 8 o) (cable : Cable)
    (cs : List (Command SimulatedHost.Event)) (h : ∀ c ∈ cs, c.isLooped = true) :
    let p : Port SimulatedHost i o := new SimulatedHost.new cable hi ho
    let emitted := ((Encoder.new cable).history (cs.flatMap Command.asks)).filterMap (·.packet?)
    (∀ packet ∈ gather received p cs, ¬ packet.code.Reserved) ∧
      ((∀ verdict ∈ gather verdicts p cs, verdict = true) →
        (∀ t ∈ gather arrivals p cs, t.HasRoom (i - 1)) →
        gather bytesTaken p cs ++ (p.after cs).inbound.toList
            ++ Packet.stream (p.after cs).transport.link.inbound
            ++ Packet.stream (p.after cs).transport.link.sent
            ++ Packet.stream (p.after cs).outbound.toList
          = Packet.stream emitted) := by
  intro p emitted
  have hpackets := packets_of_looped (p := p) rfl (output_new rfl cable hi ho) h
  constructor
  · intro packet hpacket
    have hkept := List.mem_append_left (p.after cs).output
      (List.mem_append_left (p.after cs).transport.link.inbound hpacket)
    rw [hpackets] at hkept
    obtain ⟨outcome, houtcome, hemits⟩ := Encoder.exists_of_mem_kept hkept
    exact (Encoder.sound_new cable).not_reserved_of_mem_history houtcome hemits
  · intro hverdicts hroom
    have hlength : (p.encoder.history (cs.flatMap Command.asks)).length
        = (gather verdicts p cs).length := by
      rw [Encoder.length_history]
      exact length_gather_verdicts p cs
    have hall := Encoder.kept_of_all hlength hverdicts
    calc
      _ = Packet.stream (gather received p cs)
            ++ Packet.stream (p.after cs).transport.link.inbound
            ++ Packet.stream (p.after cs).transport.link.sent
            ++ Packet.stream (p.after cs).outbound.toList := by
          rw [bytes_of_room (Ring.toList_empty hi) hroom]
      _ = Packet.stream (gather received p cs ++ (p.after cs).transport.link.inbound
            ++ (p.after cs).output) := by
          simp only [output, Packet.stream_append, List.append_assoc]
          rfl
      _ = Packet.stream emitted := by
          rw [hpackets, hall]
          rfl

/-- A block goes round in two pieces, the first of which waits for a stall to end, and a message follows under
    another cable. When the session ends, some bytes have been read, some are in the ring, and packets
    wait, are sent and are queued. -/
theorem loop_conserved_split_block :
    let cs : List (Command SimulatedHost.Event) :=
      [.host (.stall 1), .writeAll [0xF0, 1, 2], .host (.link .loopBack), .flush,
        .host (.link .loopBack), .writeAll [3, 0xF7], .read, .host (.link .loopBack), .read,
        .setCable Cable.last, .writeAll [0x90, 0x40, 0x7F, 0x41], .reset, .host (.link .loopBack),
        .write 0xFE, .host (.stall 5), .write 0xF8]
    let p : Port SimulatedHost 8 4 := new SimulatedHost.new Cable.first (by decide) (by decide)
    gather bytesTaken p cs = [0xF0, 1] ∧ (p.after cs).inbound.toList = [2, 3, 0xF7] ∧
      Packet.stream (p.after cs).transport.link.inbound = [0x90, 0x40, 0x7F] ∧
      Packet.stream (p.after cs).transport.link.sent = [0xFE] ∧
      Packet.stream (p.after cs).outbound.toList = [0xF8] ∧
      gather bytesTaken p cs ++ (p.after cs).inbound.toList
          ++ Packet.stream (p.after cs).transport.link.inbound
          ++ Packet.stream (p.after cs).transport.link.sent
          ++ Packet.stream (p.after cs).outbound.toList
        = Packet.stream
            (((Encoder.new Cable.first).history (cs.flatMap Command.asks)).filterMap (·.packet?)) := by
  intro cs p
  have hlooped : ∀ c ∈ cs, c.isLooped = true := by decide
  have hverdicts : ∀ verdict ∈ gather verdicts p cs, verdict = true := by decide +kernel
  have hroom : ∀ t ∈ gather arrivals p cs, t.HasRoom (8 - 1) := by decide +kernel
  have hconserved :=
    (loop_conserved (i := 8) (o := 4) (by decide) (by decide) Cable.first cs hlooped).2 hverdicts hroom
  -- Named by `p`, the port is compared as it stands, and the session is not run for that.
  have hp : p = new SimulatedHost.new Cable.first (by decide) (by decide) := rfl
  rw [← hp] at hconserved
  exact ⟨by decide +kernel, by decide +kernel, by decide +kernel, by decide +kernel, by decide +kernel,
    hconserved⟩

end MidiBridge.Port
