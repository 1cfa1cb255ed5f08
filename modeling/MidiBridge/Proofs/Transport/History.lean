/-
Module: MidiBridge.Proofs.Transport.History
Purpose: What a transport shows is told by what was done with it. Operations are carried out one after the
  other, from the device's side and from the host's, and each answer is written down. For the simulated host
  the packets of either direction pass through a first-in first-out queue, in which nothing is lost, doubled
  or overtaken. What comes of an attempt to send is a matter of the history alone: it depends on whether the
  host was ever disconnected, and on how many polls there were since the way out was last stalled. The
  counter that runs down is the device by which the host knows this, and not part of the rule.
Trusted boundary: human-reviewed spec
Main exports: Transport.Operation, Transport.Entry, Transport.transcript, Transport.run,
  Transport.transcript_conserved, Transport.sent_operate, SimulatedHost.Gone, SimulatedHost.Recovered,
  SimulatedHost.recovered_iff, SimulatedHost.History, SimulatedHost.history_of_run
-/
import MidiBridge.Proofs.Transport.Faithful

namespace MidiBridge

namespace Transport

/-- What can be done with a transport: the device receives, sends and polls, and at the host there are
    events. -/
inductive Operation (ε : Type) where
  | receive
  | send (p : Packet)
  | poll
  | host (event : ε)
deriving DecidableEq, Repr

/-- The answer to an operation. -/
inductive Answer where
  /-- The packet that was received, if one had arrived. -/
  | received (p? : Option Packet)
  | tried (outcome : Except SendError Unit)
  | polled
  /-- The packets that the host took. -/
  | took (ps : List Packet)

/-- An operation with its answer. -/
structure Entry (ε : Type) where
  operation : Operation ε
  answer : Answer

namespace Entry

variable {ε : Type}

def received (entry : Entry ε) : List Packet :=
  match entry.answer with
  | .received p? => p?.toList
  | _ => []

/-- The packet that was sent, if the attempt succeeded. -/
def sent (entry : Entry ε) : List Packet :=
  match entry.operation, entry.answer with
  | .send p, .tried outcome => p.sentBy outcome
  | _, _ => []

def taken (entry : Entry ε) : List Packet :=
  match entry.answer with
  | .took ps => ps
  | _ => []

end Entry

section Run

variable {τ ε : Type} [Transport τ] [HostSide τ ε]

/-- The transport after an operation, and the answer. -/
def operate (t : τ) : Operation ε → τ × Answer
  | .receive =>
      match receive? t with
      | none => (t, .received none)
      | some (p, t') => (t', .received (some p))
  | .send p => ((send t p).2, .tried (send t p).1)
  | .poll => (poll t, .polled)
  | .host event => ((HostSide.act t event).1, .took (HostSide.act t event).2)

/-- The entry that an operation makes. -/
def entry (t : τ) (op : Operation ε) : Entry ε := ⟨op, (operate t op).2⟩

/-- The entries of operations that are carried out one after the other. -/
def transcript (t : τ) : List (Operation ε) → List (Entry ε)
  | [] => []
  | op :: ops => entry t op :: transcript (operate t op).1 ops

/-- The transport after some operations. -/
def run (t : τ) (ops : List (Operation ε)) : τ := ops.foldl (fun t op => (operate t op).1) t

theorem run_cons (t : τ) (op : Operation ε) (ops : List (Operation ε)) :
    run t (op :: ops) = run (operate t op).1 ops := rfl

theorem run_append (t : τ) (ops later : List (Operation ε)) :
    run t (ops ++ later) = run (run t ops) later := List.foldl_append

theorem operate_of_none {t : τ} (h : receive? t = none) :
    operate t (.receive : Operation ε) = (t, .received none) := by
  simp [operate, h]

theorem operate_of_some {t t' : τ} {p : Packet} (h : receive? t = some (p, t')) :
    operate t (.receive : Operation ε) = (t', .received (some p)) := by
  simp [operate, h]

/-- A transport holds a list, to which operations add at the back and from which they remove at the front.
    What a single operation keeps of it is kept along a run. -/
theorem transcript_conserved (held : τ → List Packet) {added removed : Entry ε → List Packet}
    (hstep : ∀ t op, held t ++ added (entry t op) = removed (entry t op) ++ held (operate t op).1)
    (t : τ) (ops : List (Operation ε)) :
    held t ++ (transcript t ops).flatMap added
      = (transcript t ops).flatMap removed ++ held (run t ops) := by
  induction ops generalizing t with
  | nil => exact List.append_nil (held t)
  | cons op ops ih =>
      rw [transcript, List.flatMap_cons, List.flatMap_cons, run_cons, ← List.append_assoc, hstep,
        List.append_assoc, ih, List.append_assoc]

/-- An operation adds what the device sends to the packets that were sent, and removes what the host takes. -/
theorem sent_operate [HostSide.Faithful τ ε] (t : τ) (op : Operation ε) :
    HostSide.sent t ++ (entry t op).sent = (entry t op).taken ++ HostSide.sent (operate t op).1 := by
  have hnothing : HostSide.sent t ++ [] = HostSide.sent t := List.append_nil _
  cases op with
  | receive =>
      cases h : receive? t with
      | none =>
          rw [entry, operate_of_none h]
          exact hnothing
      | some received =>
          rw [entry, operate_of_some h]
          exact hnothing.trans (HostSide.Faithful.sent_receive? h).symm
  | send p => exact (HostSide.Faithful.sent_send t p).symm
  | poll => exact hnothing.trans (HostSide.Faithful.sent_poll t).symm
  | host event => exact hnothing.trans (HostSide.Faithful.sent_act t event).symm

end Run

end Transport

namespace SimulatedHost

open Transport (Operation Entry entry operate transcript transcript_conserved run run_cons run_append
  operate_of_none operate_of_some)

variable {ops later : List (Operation Event)}

/-!
### The way in
-/

/-- The packets that the host sends. Those that it loops back are the ones that it takes. -/
def delivered (entry : Entry Event) : List Packet :=
  match entry.operation with
  | .host (.link (.deliver ps)) => ps
  | .host (.link .loopBack) => entry.taken
  | _ => []

theorem receive?_of_nil {t : SimulatedHost} (h : t.link.inbound = []) :
    Transport.receive? t = none := by
  show t.receive? = none
  simp [receive?, Link.receiveInto, Link.receive?, h]

theorem receive?_of_cons {t : SimulatedHost} {p : Packet} {ps : List Packet}
    (h : t.link.inbound = p :: ps) :
    Transport.receive? t = some (p, { t with link := { t.link with inbound := ps } }) := by
  show t.receive? = _
  simp [receive?, Link.receiveInto, Link.receive?, h]

/-- The packet to be received is the first of those that wait. -/
theorem map_receive? (t : SimulatedHost) :
    (Transport.receive? t).map Prod.fst = t.link.inbound.head? := by
  cases hinbound : t.link.inbound with
  | nil => rw [receive?_of_nil hinbound]; rfl
  | cons p ps => rw [receive?_of_cons hinbound]; rfl

/-- An operation adds what the host sends to the packets that wait, and removes what the device receives. -/
theorem inbound_operate (t : SimulatedHost) (op : Operation Event) :
    t.link.inbound ++ delivered (entry t op)
      = (entry t op).received ++ (operate t op).1.link.inbound := by
  have hnothing : t.link.inbound ++ [] = t.link.inbound := List.append_nil _
  cases op with
  | receive =>
      cases hinbound : t.link.inbound with
      | nil =>
          rw [entry, operate_of_none (receive?_of_nil hinbound)]
          exact hinbound.symm
      | cons p ps =>
          rw [entry, operate_of_some (receive?_of_cons hinbound)]
          exact List.append_nil (p :: ps)
  | send p => exact hnothing.trans (inbound_send t p).symm
  | poll => exact hnothing
  | host event =>
      cases event with
      | stall polls => exact hnothing
      | link event =>
          cases event with
          | deliver ps => rfl
          | loopBack => rfl
          | disconnect => exact hnothing
          | collect => exact hnothing

/-!
### The way out

What decides about sending is a small part of the host, which few operations change. The rule is stated on the
operations, without the counter of the stall: the counter runs down from the latest stall, and the operations
can be split there.
-/

/-- What decides about sending, and the count of the polls. -/
structure Gate where
  connected : Bool
  stall : Nat
  polls : Nat

def gate (t : SimulatedHost) : Gate := ⟨t.link.connected, t.stall, t.polls⟩

def Gate.next (g : Gate) : Operation Event → Gate
  | .poll => { g with stall := g.stall - 1, polls := g.polls + 1 }
  | .host (.stall polls) => { g with stall := polls }
  | .host (.link .disconnect) => { g with connected := false }
  | _ => g

/-- Packets pass the gate and do not move it. -/
theorem gate_operate (t : SimulatedHost) (op : Operation Event) :
    gate (operate t op).1 = (gate t).next op := by
  cases op with
  | receive =>
      cases hinbound : t.link.inbound with
      | nil =>
          rw [operate_of_none (receive?_of_nil hinbound)]
          rfl
      | cons p ps =>
          rw [operate_of_some (receive?_of_cons hinbound)]
          rfl
  | send p =>
      show gate (Transport.send t p).2 = gate t
      cases hconnected : t.link.connected with
      | false => rw [send_of_gone hconnected]
      | true =>
          by_cases hstall : t.stall = 0
          · rw [send_of_open hconnected hstall]
            rfl
          · rw [send_of_stalled hconnected hstall]
  | poll => rfl
  | host event =>
      cases event with
      | stall polls => rfl
      | link event => cases event <;> rfl

/-- How long a stall is that an operation asks for. -/
def stall? : Operation Event → Option Nat
  | .host (.stall polls) => some polls
  | _ => none

theorem eq_stall_of_stall? {op : Operation Event} {polls : Nat} (h : stall? op = some polls) :
    op = .host (.stall polls) := by
  unfold stall? at h
  split at h
  · cases h
    rfl
  · cases h

/-- The host was disconnected at some time. -/
def Gone (ops : List (Operation Event)) : Prop := .host (.link .disconnect) ∈ ops

/-- Since the way out was stalled for the last time there were as many polls as it was stalled for. -/
def Recovered (ops : List (Operation Event)) : Prop :=
  ∀ before polls later, ops = before ++ .host (.stall polls) :: later →
    (∀ op ∈ later, stall? op = none) → polls ≤ later.count .poll

theorem Gate.polls_next (g : Gate) (op : Operation Event) :
    (g.next op).polls = g.polls + [op].count .poll := by
  unfold Gate.next
  split <;> simp_all

theorem Gate.stall_next {op : Operation Event} (h : stall? op = none) (g : Gate) :
    (g.next op).stall = g.stall - [op].count .poll := by
  unfold Gate.next
  split <;> simp_all [stall?]

theorem Gate.connected_next (g : Gate) (op : Operation Event) :
    (g.next op).connected = true ↔ g.connected = true ∧ op ≠ .host (.link .disconnect) := by
  unfold Gate.next
  split <;> simp_all

theorem polls_run (t : SimulatedHost) (ops : List (Operation Event)) :
    (run t ops).polls = t.polls + ops.count .poll := by
  induction ops generalizing t with
  | nil => rfl
  | cons op ops ih =>
      have hstep : (operate t op).1.polls = t.polls + [op].count .poll :=
        (congrArg Gate.polls (gate_operate t op)).trans ((gate t).polls_next op)
      rw [run_cons, ih, hstep, Nat.add_assoc, ← List.count_append, List.singleton_append]

/-- Without a new stall, each poll shortens the old one. -/
theorem stall_run (h : ∀ op ∈ ops, stall? op = none) (t : SimulatedHost) :
    (run t ops).stall = t.stall - ops.count .poll := by
  induction ops generalizing t with
  | nil => rfl
  | cons op ops ih =>
      obtain ⟨hop, hops⟩ := List.forall_mem_cons.1 h
      have hstep : (operate t op).1.stall = t.stall - [op].count .poll :=
        (congrArg Gate.stall (gate_operate t op)).trans (Gate.stall_next hop (gate t))
      rw [run_cons, ih hops, hstep, Nat.sub_sub, ← List.count_append, List.singleton_append]

theorem connected_run (t : SimulatedHost) (ops : List (Operation Event)) :
    (run t ops).link.connected = true ↔ t.link.connected = true ∧ ¬ Gone ops := by
  induction ops generalizing t with
  | nil => simp [run, Gone]
  | cons op ops ih =>
      have hstep : (operate t op).1.link.connected = true ↔
          t.link.connected = true ∧ op ≠ .host (.link .disconnect) := by
        have hnext := (gate t).connected_next op
        rw [← gate_operate] at hnext
        exact hnext
      rw [run_cons, ih, hstep, Gone, Gone, List.mem_cons, not_or, and_assoc, ne_comm]

/-- The host is there exactly if it was never disconnected. -/
theorem not_gone_iff (ops : List (Operation Event)) :
    ¬ Gone ops ↔ (run new ops).link.connected = true := by
  have hnew : new.link.connected = true := rfl
  rw [connected_run new ops]
  exact (and_iff_right hnew).symm

theorem gone_iff (ops : List (Operation Event)) :
    Gone ops ↔ (run new ops).link.connected = false := by
  rw [← Bool.not_eq_true, ← not_gone_iff]
  exact Classical.not_not.symm

/-- Either there was no stall, or the operations can be split at the latest one. -/
theorem exists_latest_stall (ops : List (Operation Event)) :
    (∀ op ∈ ops, stall? op = none) ∨
      ∃ before polls later, ops = before ++ .host (.stall polls) :: later ∧
        ∀ op ∈ later, stall? op = none := by
  induction ops with
  | nil => exact .inl fun op hop => nomatch hop
  | cons op ops ih =>
      rcases ih with hnone | ⟨before, polls, later, rfl, hlater⟩
      · cases hop : stall? op with
        | none => exact .inl (List.forall_mem_cons.2 ⟨hop, hnone⟩)
        | some polls =>
            rw [eq_stall_of_stall? hop]
            exact .inr ⟨[], polls, ops, rfl, hnone⟩
      · exact .inr ⟨op :: before, polls, later, rfl, hlater⟩

theorem stall_run_of_latest (t : SimulatedHost) (before : List (Operation Event)) (polls : Nat)
    (h : ∀ op ∈ later, stall? op = none) :
    (run t (before ++ .host (.stall polls) :: later)).stall = polls - later.count .poll := by
  rw [run_append, run_cons]
  exact stall_run h _

/-- The counter of the stall is down exactly if the polls since the latest stall have made up for it. -/
theorem recovered_iff (ops : List (Operation Event)) :
    Recovered ops ↔ (run new ops).stall = 0 := by
  constructor
  · intro hrecovered
    rcases exists_latest_stall ops with hnone | ⟨before, polls, later, hops, hlater⟩
    · rw [stall_run hnone]
      exact Nat.zero_sub _
    · have henough := hrecovered before polls later hops hlater
      rw [hops, stall_run_of_latest new before polls hlater]
      exact Nat.sub_eq_zero_of_le henough
  · intro hstall before polls later hops hlater
    rw [hops, stall_run_of_latest new before polls hlater] at hstall
    exact Nat.le_of_sub_eq_zero hstall

theorem send_ok_iff (t : SimulatedHost) (p : Packet) :
    (Transport.send t p).1 = .ok () ↔ t.link.connected = true ∧ t.stall = 0 := by
  cases hconnected : t.link.connected with
  | false => simp [send_of_gone hconnected]
  | true =>
      by_cases hstall : t.stall = 0
      · simp [send_of_open hconnected hstall, hstall]
      · simp [send_of_stalled hconnected hstall, hstall]

theorem ready_iff (t : SimulatedHost) :
    Transport.ready t = true ↔ t.link.connected = false ∨ t.stall = 0 := by
  cases hconnected : t.link.connected with
  | false => simp [ready_of_gone hconnected]
  | true => simp [ready_of_connected hconnected]

/-!
### The history
-/

/-- What the host shows after some operations, which have made these entries: the packets on their way in both
    directions, what comes of an attempt to send, and the count of the polls. -/
structure History (ops : List (Operation Event)) (entries : List (Entry Event)) (t : SimulatedHost) :
    Prop where
  /-- What was received and what still waits is what the host has sent. -/
  inbound : entries.flatMap Entry.received ++ t.link.inbound = entries.flatMap delivered
  /-- The packet to be received next has waited for the longest time. -/
  receives : (Transport.receive? t).map Prod.fst = t.link.inbound.head?
  /-- What the host has taken and what it has not taken yet is what was sent to it. -/
  outbound : entries.flatMap Entry.taken ++ t.link.sent = entries.flatMap Entry.sent
  sends_iff : ∀ p, (Transport.send t p).1 = .ok () ↔ ¬ Gone ops ∧ Recovered ops
  /-- An attempt that fails leaves the whole transport as it was. -/
  sends_gone : ∀ p, Gone ops → Transport.send t p = (.error .disconnected, t)
  sends_busy : ∀ p, ¬ Gone ops → ¬ Recovered ops →
    Transport.send t p = (.error (.failed "endpoint busy"), t)
  ready_iff : ∀ p, Transport.ready t = true ↔ Gone ops ∨ (Transport.send t p).1 = .ok ()
  polls : t.polls = ops.count .poll

/-- After any operations in any order, a simulated host shows what its history tells. -/
theorem history_of_run (ops : List (Operation Event)) :
    History ops (transcript new ops) (run new ops) where
  inbound := (transcript_conserved (fun t => t.link.inbound) inbound_operate new ops).symm
  receives := map_receive? (run new ops)
  outbound := (transcript_conserved HostSide.sent Transport.sent_operate new ops).symm
  sends_iff := by
    intro p
    rw [send_ok_iff, not_gone_iff, recovered_iff]
  sends_gone := by
    intro p hgone
    exact send_of_gone ((gone_iff ops).1 hgone) p
  sends_busy := by
    intro p hthere hwaits
    rw [not_gone_iff] at hthere
    rw [recovered_iff] at hwaits
    exact send_of_stalled hthere hwaits p
  ready_iff := by
    intro p
    rw [ready_iff, send_ok_iff, gone_iff]
    cases (run new ops).link.connected <;> simp
  polls := (polls_run new ops).trans (Nat.zero_add _)

/-- A later stall takes the place of an earlier one that is not over. -/
example :
    let ops : List (Operation Event) := [.host (.stall 5), .poll, .host (.stall 1), .poll]
    (Transport.send (run new ops) default).1 = .ok () := rfl

end SimulatedHost

end MidiBridge
