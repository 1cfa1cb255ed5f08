/-
Module: MidiBridge.Proofs.Port.Outbound
Purpose: The way out of a port loses nothing on its own. The packets that the device has sent, followed by
  those that are queued, change only when a write puts a packet behind them and when the host takes some
  from the front. Sending moves a packet from the queue to the sent ones, and only if the attempt succeeds,
  so failures, stalls and retries do not show. What went out and what is still queued is therefore what an
  encoder on its own makes of the same bytes, without the packets whose write said that they were dropped.
Trusted boundary: human-reviewed spec
Main exports: Port.Command.asks, Port.verdicts, Port.taken, Port.output, Encoder.kept,
  Port.encoder_after, Port.output_dispatch, Port.output_flush, Port.output_write, Port.output_perform,
  Port.output_after, Port.OutboundConserved, Port.outbound_conserved
-/
import MidiBridge.Encoder.Run
import MidiBridge.Proofs.Port.Gather
import MidiBridge.Proofs.Port.Writing
import MidiBridge.Proofs.Transport.Faithful

namespace MidiBridge

/-- The packets of some outcomes, without those whose verdict is that they were dropped. -/
def Encoder.kept (outcomes : List Outcome) (verdicts : List Bool) : List Packet :=
  (outcomes.zip verdicts).filterMap fun s => if s.2 then s.1.packet? else none

theorem Encoder.kept_append {os : List Outcome} {vs : List Bool} (h : os.length = vs.length)
    (os' : List Outcome) (vs' : List Bool) :
    kept (os ++ os') (vs ++ vs') = kept os vs ++ kept os' vs' := by
  rw [kept, List.zip_append h, List.filterMap_append]
  rfl

theorem Encoder.exists_of_mem_kept {os : List Outcome} {vs : List Bool} {p : Packet}
    (h : p ∈ kept os vs) : ∃ o ∈ os, o.packet? = some p := by
  obtain ⟨⟨o, v⟩, hmem, hp⟩ := List.mem_filterMap.1 h
  refine ⟨o, (List.of_mem_zip hmem).1, ?_⟩
  cases v with
  | true => exact hp
  | false => cases hp

/-- Without a bad verdict, everything is kept. -/
theorem Encoder.kept_of_all {os : List Outcome} {vs : List Bool} (hlength : os.length = vs.length)
    (h : ∀ v ∈ vs, v = true) : kept os vs = os.filterMap (·.packet?) := by
  induction os generalizing vs with
  | nil => rfl
  | cons o os ih =>
      cases vs with
      | nil => cases hlength
      | cons v vs =>
          obtain ⟨hv, hvs⟩ := List.forall_mem_cons.1 h
          have hrest := ih (Nat.succ.inj hlength) hvs
          rw [List.filterMap_cons, ← hrest, hv]
          rfl

namespace Port

variable {τ ε : Type} {i o : Nat}

/-- What a command asks of the encoder. -/
def Command.asks : Command ε → List Encoder.Command
  | .write b => [.byte b]
  | .writeAll bs => bs.map .byte
  | .reset => [.reset]
  | .setCable cable => [.setCable cable]
  | .flush | .flushStream | .poll | .available | .read | .peek | .host _ => []

/-- The packets that the host took, by the answer to a command. -/
def Answer.taken : Answer → List Packet
  | .packets ps => ps
  | _ => []

section Definitions

variable [Transport τ]

/-- The answers to bytes that are written one after the other. -/
def writeEach (p : Port τ i o) : List UInt8 → List Bool
  | [] => []
  | b :: bs => (p.write b).value :: writeEach (p.write b).port bs

/-- For everything that a command asks of the encoder, whether the packet that it may have completed was
    kept. For a byte that is the answer to its write. -/
def verdicts (p : Port τ i o) : Command ε → List Bool
  | .write b => [(p.write b).value]
  | .writeAll bs => p.writeEach bs
  | .reset | .setCable _ => [true]
  | .flush | .flushStream | .poll | .available | .read | .peek | .host _ => []

@[simp] theorem length_writeEach (p : Port τ i o) (bs : List UInt8) :
    (p.writeEach bs).length = bs.length := by
  induction bs generalizing p with
  | nil => rfl
  | cons b bs ih => exact congrArg (· + 1) (ih (p.write b).port)

theorem length_verdicts (p : Port τ i o) (c : Command ε) :
    c.asks.length = (p.verdicts c).length := by
  cases c <;> simp [verdicts, Command.asks]

variable [HostSide τ ε]

def taken (p : Port τ i o) (c : Command ε) : List Packet := (p.perform c).value.taken

/-- The packets on the way out: sent and not yet taken by the host, then queued. -/
def output (p : Port τ i o) : List Packet := HostSide.sent p.transport ++ p.outbound.toList

end Definitions

theorem output_new [HostSide τ ε] {transport : τ} (hsent : HostSide.sent transport = []) (cable : Cable)
    (hi : Ring.Admits 8 i) (ho : Ring.Admits 8 o) : (new transport cable hi ho).output = [] := by
  rw [output, new, hsent, Ring.toList_empty ho, List.append_nil]

/-!
### The encoder of a port

It is an encoder on its own: neither what is received nor what becomes of its packets has an effect on it.
-/

section Encoding

variable [Transport τ]

theorem encoder_flush (p : Port τ i o) : p.flush.port.encoder = p.encoder := by
  fun_induction flush p with
  | case1 p d e hok => rfl
  | case2 p d hok hleft => rfl
  | case3 p d hok hleft intake hdelay rest ih => exact ih

theorem encoder_makeRoom (p : Port τ i o) : p.makeRoom.port.encoder = p.encoder := by
  unfold makeRoom
  split <;> rfl

theorem encoder_enqueue (p : Port τ i o) (packet : Packet) :
    (p.enqueue packet).port.encoder = p.encoder := by
  have hroom := encoder_makeRoom p
  rcases p.enqueue_cases packet with ⟨-, h⟩ | ⟨queue, -, -, h⟩
  · rw [h]
    exact hroom
  · rw [h]
    exact hroom

theorem encoder_write (p : Port τ i o) (b : UInt8) :
    (p.write b).port.encoder = (p.encoder.step b).encoder := by
  cases h : (p.encoder.step b).packet? with
  | none => rw [write_of_none h, encoded]
  | some packet =>
      rw [write_of_some h]
      exact encoder_enqueue (p.encoded b) packet

theorem encoder_writeAll (p : Port τ i o) (bs : List UInt8) :
    (p.writeAll bs).port.encoder = p.encoder.run bs := by
  induction bs generalizing p with
  | nil => rfl
  | cons b bs ih =>
      rw [Encoder.run_cons, ← encoder_write]
      exact ih (p.write b).port

/-- Only a byte that completes a packet can be refused. -/
theorem packet_of_refused {p : Port τ i o} {b : UInt8} (h : (p.write b).value = false) :
    (p.encoder.step b).packet?.isSome := by
  cases hpacket : (p.encoder.step b).packet? with
  | none =>
      rw [write_of_none hpacket] at h
      cases h
  | some packet => rfl

theorem packet_of_refused_writeAll {p : Port τ i o} {bs : List UInt8} {s : Encoder.Outcome × Bool}
    (hs : s ∈ (p.encoder.trace bs).zip (p.writeEach bs)) (h : s.2 = false) :
    s.1.packet?.isSome := by
  induction bs generalizing p with
  | nil => cases hs
  | cons b bs ih =>
      rcases List.mem_cons.1 hs with hfirst | hrest
      · rw [hfirst] at h ⊢
        exact packet_of_refused h
      · rw [← encoder_write] at hrest
        exact ih hrest

theorem packet_of_refused_perform {p : Port τ i o} {c : Command ε} {s : Encoder.Outcome × Bool}
    (hs : s ∈ (p.encoder.history c.asks).zip (p.verdicts c)) (h : s.2 = false) :
    s.1.packet?.isSome := by
  cases c with
  | write b =>
      rw [List.mem_singleton.1 hs] at h ⊢
      exact packet_of_refused h
  | writeAll bs =>
      simp only [Command.asks, Encoder.history_map_byte] at hs
      exact packet_of_refused_writeAll hs h
  | reset =>
      rw [List.mem_singleton.1 hs] at h
      cases h
  | setCable cable =>
      rw [List.mem_singleton.1 hs] at h
      cases h
  | flush | flushStream | poll | available | read | peek => cases hs
  | host event => cases hs

variable [HostSide τ ε]

theorem encoder_perform (p : Port τ i o) (c : Command ε) :
    (p.perform c).port.encoder = p.encoder.after c.asks := by
  cases c with
  | write b => exact encoder_write p b
  | writeAll bs => exact (encoder_writeAll p bs).trans (Encoder.after_map_byte p.encoder bs).symm
  | flush | flushStream => exact encoder_flush p
  | poll | available | read | peek | reset => rfl
  | setCable cable => rfl
  | host event => rfl

theorem encoder_after (p : Port τ i o) (cs : List (Command ε)) :
    (p.after cs).encoder = p.encoder.after (cs.flatMap Command.asks) := by
  induction cs generalizing p with
  | nil => rfl
  | cons c cs ih =>
      rw [after_cons, ih, encoder_perform, List.flatMap_cons, Encoder.after_append]

theorem length_gather_verdicts (p : Port τ i o) (cs : List (Command ε)) :
    (cs.flatMap Command.asks).length = (gather verdicts p cs).length := by
  induction cs generalizing p with
  | nil => rfl
  | cons c cs ih =>
      have hrest := ih (p.perform c).port
      rw [List.flatMap_cons, gather_cons, List.length_append, List.length_append, length_verdicts p c,
        hrest]

/-- The outcomes of a session, each with its verdict, are read off it command by command. -/
theorem gather_zip_verdicts (p : Port τ i o) (cs : List (Command ε)) :
    gather (fun p c => (p.encoder.history c.asks).zip (p.verdicts c)) p cs
      = (p.encoder.history (cs.flatMap Command.asks)).zip (gather verdicts p cs) := by
  induction cs generalizing p with
  | nil => rfl
  | cons c cs ih =>
      have hlength : (p.encoder.history c.asks).length = (p.verdicts c).length := by
        rw [Encoder.length_history, length_verdicts p c]
      rw [gather_cons, ih, List.flatMap_cons, gather_cons, Encoder.history_append, encoder_perform,
        List.zip_append hlength]

/-- Of all that a session asks of the encoder, only bytes that complete a packet are refused. -/
theorem packet_of_refused_session {p : Port τ i o} {cs : List (Command ε)} {s : Encoder.Outcome × Bool}
    (hs : s ∈ (p.encoder.history (cs.flatMap Command.asks)).zip (gather verdicts p cs))
    (h : s.2 = false) : s.1.packet?.isSome := by
  rw [← gather_zip_verdicts] at hs
  exact of_mem_gather (motive := fun s => s.2 = false → s.1.packet?.isSome)
    (fun _ _ _ hmem => packet_of_refused_perform hmem) hs h

/-- What a session makes the encoder emit, without what was dropped, command by command. -/
theorem gather_kept (p : Port τ i o) (cs : List (Command ε)) :
    gather (fun p c => Encoder.kept (p.encoder.history c.asks) (p.verdicts c)) p cs
      = Encoder.kept (p.encoder.history (cs.flatMap Command.asks)) (gather verdicts p cs) := by
  simp only [Encoder.kept, ← gather_zip_verdicts, filterMap_gather]

end Encoding

/-!
### Sending and receiving

Neither changes the packets on the way out.
-/

/-- What taking one packet from a transport keeps, receiving all of them keeps. -/
theorem receive_keeps {β : Type} [Transport τ] {g : τ → β}
    (h : ∀ {t t' : τ} {p : Packet}, Transport.receive? t = some (p, t') → g t' = g t) (t : τ)
    (inbound : Ring 8 i UInt8) : g (receive t inbound).transport = g t := by
  fun_induction receive t inbound with
  | case1 t inbound hnone => rfl
  | case2 t inbound p t' hsome _ accepted rest ih => exact ih.trans (h hsome)

section Conservation

variable [Transport τ] [HostSide τ ε] [HostSide.Faithful τ ε]

/-- A packet is sent before it leaves the queue, and leaves it only if it was sent. -/
theorem output_dispatch (t : τ) (queue : Ring 8 o Packet) :
    HostSide.sent (dispatch t queue).transport ++ (dispatch t queue).outbound.toList
      = HostSide.sent t ++ queue.toList := by
  fun_induction dispatch t queue with
  | case1 t queue hready h => rfl
  | case2 t queue hready p h e t' hsend => rw [HostSide.sent_of_error hsend]
  | case3 t queue hready p h t' hsend hsize rest ih =>
      -- The packet at the front of the queue is now the last that was sent.
      rw [Ring.toList_of_peek h, List.append_cons, ← HostSide.sent_of_ok hsend]
      exact ih
  | case4 t queue hready => rfl

theorem sent_receive (t : τ) (inbound : Ring 8 i UInt8) :
    HostSide.sent (receive t inbound).transport = HostSide.sent t :=
  receive_keeps HostSide.Faithful.sent_receive? t inbound

theorem output_trySend (p : Port τ i o) : p.trySend.port.output = p.output :=
  output_dispatch p.transport p.outbound

theorem output_poll (p : Port τ i o) : p.poll.port.output = p.output := by
  rw [poll, output_trySend]
  simp only [output, sent_receive, HostSide.Faithful.sent_poll]

theorem output_flush (p : Port τ i o) : p.flush.port.output = p.output := by
  fun_induction flush p with
  | case1 p d e hok => exact output_dispatch p.transport p.outbound
  | case2 p d hok hleft => exact output_dispatch p.transport p.outbound
  | case3 p d hok hleft intake hdelay rest ih =>
      refine ih.trans ?_
      simp only [output, intake, sent_receive, HostSide.Faithful.sent_poll]
      exact output_dispatch p.transport p.outbound

/-!
### Writing

A write adds the packet that its byte completes, unless the write says that it was dropped.
-/

theorem output_makeRoom (p : Port τ i o) : p.makeRoom.port.output = p.output := by
  unfold makeRoom
  split
  · exact output_trySend p
  · rfl

theorem output_enqueue (p : Port τ i o) (packet : Packet) :
    (p.enqueue packet).port.output
      = p.output ++ if (p.enqueue packet).value then [packet] else [] := by
  have hroom := output_makeRoom p
  rcases p.enqueue_cases packet with ⟨-, h⟩ | ⟨queue, -, hlist, h⟩
  · rw [h]
    exact hroom.trans (List.append_nil p.output).symm
  · rw [h, output_trySend, output, hlist, ← hroom, output, List.append_assoc]
    rfl

/-- A write adds the packet of its byte exactly if its answer is true. -/
theorem output_write (p : Port τ i o) (b : UInt8) :
    (p.write b).port.output = p.output ++ Encoder.kept [p.encoder.step b] [(p.write b).value] := by
  cases h : (p.encoder.step b).packet? with
  | none =>
      rw [write_of_none h]
      simp [Encoder.kept, h, output, encoded]
  | some packet =>
      rw [write_of_some h]
      dsimp only
      rw [output_enqueue]
      cases ((p.encoded b).enqueue packet).value
      · simp [Encoder.kept, output, encoded]
      · simp [Encoder.kept, h, output, encoded]

theorem output_writeAll (p : Port τ i o) (bs : List UInt8) :
    (p.writeAll bs).port.output
      = p.output ++ Encoder.kept (p.encoder.trace bs) (p.writeEach bs) := by
  induction bs generalizing p with
  | nil => exact (List.append_nil p.output).symm
  | cons b bs ih =>
      have hrest := ih (p.write b).port
      calc
        (p.writeAll (b :: bs)).port.output
            = ((p.write b).port.writeAll bs).port.output := rfl
        _ = p.output ++ (Encoder.kept [p.encoder.step b] [(p.write b).value]
              ++ Encoder.kept ((p.write b).port.encoder.trace bs) ((p.write b).port.writeEach bs)) := by
            rw [hrest, output_write, List.append_assoc]
        _ = p.output ++ Encoder.kept (p.encoder.trace (b :: bs)) (p.writeEach (b :: bs)) := by
            rw [← Encoder.kept_append rfl, encoder_write]
            rfl

/-!
### Sessions
-/

/-- What a command makes the encoder emit, without what was dropped, is added to the packets on the way
    out, and what the host takes leaves them at the front. -/
theorem output_perform (p : Port τ i o) (c : Command ε) :
    p.output ++ Encoder.kept (p.encoder.history c.asks) (p.verdicts c)
      = p.taken c ++ (p.perform c).port.output := by
  cases c with
  | write b => exact (output_write p b).symm
  | writeAll bs =>
      have hwritten := output_writeAll p bs
      rw [← Encoder.history_map_byte] at hwritten
      exact hwritten.symm
  | flush | flushStream => exact (List.append_nil _).trans (output_flush p).symm
  | poll | available | read | peek => exact (List.append_nil _).trans (output_poll p).symm
  | reset => exact List.append_nil _
  | setCable cable => exact List.append_nil _
  | host event =>
      have hact := HostSide.Faithful.sent_act p.transport event
      exact ((List.append_nil _).trans (congrArg (· ++ p.outbound.toList) hact.symm)).trans
        (List.append_assoc _ _ _)

/-- What went out in a session and what is still on the way out was there before or was written. -/
theorem output_after (p : Port τ i o) (cs : List (Command ε)) :
    gather taken p cs ++ (p.after cs).output
      = p.output ++ Encoder.kept (p.encoder.history (cs.flatMap Command.asks)) (gather verdicts p cs) := by
  rw [← gather_kept]
  exact (gather_conserved output output_perform p cs).symm

/-- The state of the way out after a session, where `e` is an encoder on its own that was asked the same
    as the encoder of the port. -/
structure OutboundConserved (p : Port τ i o) (e : Encoder) (cs : List (Command ε)) : Prop where
  encoder_eq : (p.after cs).encoder = e.after (cs.flatMap Command.asks)
  /-- Everything that was asked of the encoder has its verdict. -/
  verdict_each :
    (e.history (cs.flatMap Command.asks)).length = (gather verdicts p cs).length
  /-- Where the verdict is that a packet was dropped, the encoder had completed one. -/
  packet_of_dropped : ∀ s ∈ (e.history (cs.flatMap Command.asks)).zip (gather verdicts p cs),
    s.2 = false → s.1.packet?.isSome
  /-- The packets that the host took, those that it can take and the queued ones are what the encoder on
      its own emits, without the dropped ones. -/
  packets_eq : gather taken p cs ++ HostSide.sent (p.after cs).transport ++ (p.after cs).outbound.toList
    = Encoder.kept (e.history (cs.flatMap Command.asks)) (gather verdicts p cs)
  pendingOutput_le : (p.after cs).pendingOutput ≤ o - 1

theorem outboundConserved_new {transport : τ} (hsent : HostSide.sent transport = []) (cable : Cable)
    (hi : Ring.Admits 8 i) (ho : Ring.Admits 8 o) (cs : List (Command ε)) :
    (new transport cable hi ho).OutboundConserved (Encoder.new cable) cs where
  encoder_eq := encoder_after (new transport cable hi ho) cs
  verdict_each := by
    rw [Encoder.length_history]
    exact length_gather_verdicts (new transport cable hi ho) cs
  packet_of_dropped _ hs h := packet_of_refused_session (p := new transport cable hi ho) hs h
  packets_eq := by
    have hafter := output_after (new transport cable hi ho) cs
    rw [output_new hsent, List.nil_append] at hafter
    rw [List.append_assoc]
    exact hafter
  pendingOutput_le := by
    rw [pendingOutput_eq]
    exact Ring.size_le _

end Conservation

/-- The way out of a port conserves packets in every session, whether its host is simulated, with stalls
    and a disconnection at any point, or answers each attempt to send by a script. -/
theorem outbound_conserved (hi : Ring.Admits 8 i) (ho : Ring.Admits 8 o) (cable : Cable) :
    (∀ cs : List (Command SimulatedHost.Event),
      (new SimulatedHost.new cable hi ho).OutboundConserved (Encoder.new cable) cs) ∧
    ∀ cs : List (Command ScriptedHost.Event),
      (new ScriptedHost.new cable hi ho).OutboundConserved (Encoder.new cable) cs :=
  ⟨outboundConserved_new rfl cable hi ho, outboundConserved_new rfl cable hi ho⟩

/-- Two slots for packets, so one packet can be queued. During a stall the second packet is dropped and
    the first waits. After the host is gone the third waits for good. -/
theorem outbound_conserved_stalled :
    let cs : List (Command SimulatedHost.Event) :=
      [.host (.stall 2), .write 0xF8, .write 0xFA, .flush, .host (.link .collect),
        .host (.link .disconnect), .write 0xFE, .flush]
    let p : Port SimulatedHost 8 2 := new SimulatedHost.new Cable.first (by decide) (by decide)
    Ring.Admits 8 8 ∧ Ring.Admits 8 2 ∧ p.OutboundConserved (Encoder.new Cable.first) cs ∧
      gather verdicts p cs = [true, false, true] ∧
      gather taken p cs = [⟨0x0F, ⟨0xF8, 0, 0⟩⟩] ∧
      (p.after cs).outbound.toList = [⟨0x0F, ⟨0xFE, 0, 0⟩⟩] := by
  intro cs p
  have hconserved := (outbound_conserved (i := 8) (o := 2) (by decide) (by decide) Cable.first).1 cs
  exact ⟨by decide, by decide, hconserved, by decide +kernel, by decide +kernel, by decide +kernel⟩

end Port

end MidiBridge
