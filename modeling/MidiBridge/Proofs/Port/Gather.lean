/-
Module: MidiBridge.Proofs.Port.Gather
Purpose: What is read off a session, command by command: the packets that the host took, the bytes that
  were read, and whatever else a command and the port that carries it out determine. A law of conservation
  is proved for one command and holds then for every session. If some part of the port is changed by some of
  the commands only, then what is read off that part is read off a machine that is given these commands alone.
Trusted boundary: none
Main exports: Port.gather, Port.gather_congr, Port.of_mem_gather, Port.gather_conserved, Port.after_cons,
  Port.replay, Port.Separate, Port.view_after, Port.gather_eq_replay
-/
import MidiBridge.Port.Session

namespace MidiBridge.Port

variable {τ ε β : Type} {i o : Nat} [Transport τ] [HostSide τ ε]

/-- What `f` reads off the commands of a session, each at the port that carries it out. -/
def gather (f : Port τ i o → Command ε → List β) (p : Port τ i o) : List (Command ε) → List β
  | [] => []
  | c :: cs => f p c ++ gather f (p.perform c).port cs

@[simp] theorem gather_nil (f : Port τ i o → Command ε → List β) (p : Port τ i o) :
    gather f p [] = [] := rfl

@[simp] theorem gather_cons (f : Port τ i o → Command ε → List β) (p : Port τ i o) (c : Command ε)
    (cs : List (Command ε)) :
    gather f p (c :: cs) = f p c ++ gather f (p.perform c).port cs := rfl

@[simp] theorem after_nil (p : Port τ i o) : p.after ([] : List (Command ε)) = p := rfl

@[simp] theorem after_cons (p : Port τ i o) (c : Command ε) (cs : List (Command ε)) :
    p.after (c :: cs) = (p.perform c).port.after cs := rfl

theorem flatMap_gather {γ : Type} (f : Port τ i o → Command ε → List β) (g : β → List γ)
    (p : Port τ i o) (cs : List (Command ε)) :
    (gather f p cs).flatMap g = gather (fun p c => (f p c).flatMap g) p cs := by
  induction cs generalizing p with
  | nil => rfl
  | cons c cs ih => rw [gather_cons, gather_cons, List.flatMap_append, ih]

theorem map_gather {γ : Type} (f : Port τ i o → Command ε → List β) (g : β → γ) (p : Port τ i o)
    (cs : List (Command ε)) :
    (gather f p cs).map g = gather (fun p c => (f p c).map g) p cs := by
  induction cs generalizing p with
  | nil => rfl
  | cons c cs ih => rw [gather_cons, gather_cons, List.map_append, ih]

theorem filterMap_gather {γ : Type} (f : Port τ i o → Command ε → List β) (g : β → Option γ)
    (p : Port τ i o) (cs : List (Command ε)) :
    (gather f p cs).filterMap g = gather (fun p c => (f p c).filterMap g) p cs := by
  induction cs generalizing p with
  | nil => rfl
  | cons c cs ih => rw [gather_cons, gather_cons, List.filterMap_append, ih]

theorem gather_congr {f g : Port τ i o → Command ε → List β} {cs : List (Command ε)}
    (h : ∀ c ∈ cs, ∀ p, f p c = g p c) (p : Port τ i o) : gather f p cs = gather g p cs := by
  induction cs generalizing p with
  | nil => rfl
  | cons c cs ih =>
      obtain ⟨hc, hcs⟩ := List.forall_mem_cons.1 h
      rw [gather_cons, gather_cons, hc, ih hcs]

/-- What holds of everything that is read off one command holds of everything that is read off a session. -/
theorem of_mem_gather {f : Port τ i o → Command ε → List β} {motive : β → Prop}
    (hstep : ∀ p c, ∀ b ∈ f p c, motive b) {p : Port τ i o} {cs : List (Command ε)} {b : β}
    (h : b ∈ gather f p cs) : motive b := by
  induction cs generalizing p with
  | nil => cases h
  | cons c cs ih =>
      rcases List.mem_append.1 h with hnow | hlater
      · exact hstep p c b hnow
      · exact ih hlater

/-- A port holds a list, to which commands add at the back and from which they take at the front. If
    nothing else changes it with one command, then all that was there or came in has gone out, in order,
    or is still there. -/
theorem gather_conserved (held : Port τ i o → List β) {added taken : Port τ i o → Command ε → List β}
    (hstep : ∀ p c, held p ++ added p c = taken p c ++ held (p.perform c).port)
    (p : Port τ i o) (cs : List (Command ε)) :
    held p ++ gather added p cs = gather taken p cs ++ held (p.after cs) := by
  induction cs generalizing p with
  | nil => simp
  | cons c cs ih =>
      calc
        held p ++ gather added p (c :: cs)
            = (held p ++ added p c) ++ gather added (p.perform c).port cs := by
            rw [gather_cons, List.append_assoc]
        _ = taken p c ++ (held (p.perform c).port ++ gather added (p.perform c).port cs) := by
            rw [hstep, List.append_assoc]
        _ = taken p c
              ++ (gather taken (p.perform c).port cs ++ held ((p.perform c).port.after cs)) := by
            rw [ih]
        _ = gather taken p (c :: cs) ++ held (p.after (c :: cs)) := by
            rw [gather_cons, after_cons, List.append_assoc]

/-!
### A part of the port

A session is compared with a machine whose state is a part of the port, and which is given the selected
commands only. The selected commands move the part as they move the machine, and all others leave it alone.
-/

section Part

variable {σ : Type}

/-- What a machine gives out for some commands. -/
def replay (next : σ → Command ε → σ) (out : σ → Command ε → List β) (s : σ) :
    List (Command ε) → List β
  | [] => []
  | c :: cs => out s c ++ replay next out (next s c) cs

/-- The part `view` of a port goes its own way in a session of the commands `cs`. -/
structure Separate (view : Port τ i o → σ) (next : σ → Command ε → σ) (selected : Command ε → Bool)
    (cs : List (Command ε)) : Prop where
  view_selected : ∀ c ∈ cs, selected c = true → ∀ p, view (p.perform c).port = next (view p) c
  view_other : ∀ c ∈ cs, selected c = false → ∀ p, view (p.perform c).port = view p

variable {view : Port τ i o → σ} {next : σ → Command ε → σ} {selected : Command ε → Bool}

theorem Separate.of_cons {c : Command ε} {cs : List (Command ε)}
    (h : Separate view next selected (c :: cs)) : Separate view next selected cs where
  view_selected d hd := h.view_selected d (List.mem_cons_of_mem c hd)
  view_other d hd := h.view_other d (List.mem_cons_of_mem c hd)

/-- The part after a session is where the machine gets with the selected commands. -/
theorem view_after {cs : List (Command ε)} (h : Separate view next selected cs) (p : Port τ i o) :
    view (p.after cs) = (cs.filter selected).foldl next (view p) := by
  induction cs generalizing p with
  | nil => rfl
  | cons c cs ih =>
      rw [after_cons, ih h.of_cons]
      cases hc : selected c with
      | true =>
          rw [List.filter_cons_of_pos hc, List.foldl_cons,
            h.view_selected c (List.mem_cons_self ..) hc]
      | false =>
          rw [List.filter_cons_of_neg (by simp [hc]), h.view_other c (List.mem_cons_self ..) hc]

/-- What the selected commands show of the part is what the machine gives out. -/
theorem gather_eq_replay {cs : List (Command ε)} (h : Separate view next selected cs)
    {f : Port τ i o → Command ε → List β} {out : σ → Command ε → List β}
    (hout : ∀ c ∈ cs, selected c = true → ∀ p, f p c = out (view p) c)
    (hsilent : ∀ c ∈ cs, selected c = false → ∀ p, f p c = []) (p : Port τ i o) :
    gather f p cs = replay next out (view p) (cs.filter selected) := by
  induction cs generalizing p with
  | nil => rfl
  | cons c cs ih =>
      obtain ⟨houtc, houtcs⟩ := List.forall_mem_cons.1 hout
      obtain ⟨hsilentc, hsilentcs⟩ := List.forall_mem_cons.1 hsilent
      rw [gather_cons, ih h.of_cons houtcs hsilentcs]
      cases hc : selected c with
      | true =>
          rw [List.filter_cons_of_pos hc, replay, houtc hc, h.view_selected c (List.mem_cons_self ..) hc]
      | false =>
          rw [List.filter_cons_of_neg (by simp [hc]), hsilentc hc,
            h.view_other c (List.mem_cons_self ..) hc]
          rfl

end Part

end MidiBridge.Port
