import MemExchange.Lib.Run

/-!
# Nodes exchanging packets

Hosts hold a state each; packets between them wait on a wire from which they are delivered in any
order or lost. What a host does is given by two functions, one for taking a packet off the wire and
one for everything it does by itself, the latter with the packets it sends.
-/
namespace Net

open Function (update update_self update_of_ne)

variable {Host σ Msg β τ : Type}

structure Packet (Host Msg : Type) where
  src : Host
  dst : Host
  msg : Msg
  deriving DecidableEq

structure World (Host σ Msg : Type) where
  node : Host → σ
  wire : List (Packet Host Msg)

structure Protocol (Host σ Msg β : Type) where
  /-- The hosts that run. -/
  hosts : List Host
  receive : Packet Host Msg → σ → Option σ
  act : Host → β → σ → Option (σ × List (Packet Host Msg))

/-- One event of the network. A packet that is never chosen is delayed for ever. -/
inductive Action (Host Msg β : Type)
  | deliver (p : Packet Host Msg)
  | lose (p : Packet Host Msg)
  | act (h : Host) (b : β)

variable [DecidableEq Host] [DecidableEq Msg]

def step (P : Protocol Host σ Msg β) (w : World Host σ Msg) :
    Action Host Msg β → Option (World Host σ Msg)
  | .deliver p =>
    if p ∈ w.wire ∧ p.dst ∈ P.hosts then
      (P.receive p (w.node p.dst)).map fun s =>
        { node := update w.node p.dst s, wire := w.wire.erase p }
    else none
  | .lose p => if p ∈ w.wire then some { w with wire := w.wire.erase p } else none
  | .act h b =>
    if h ∈ P.hosts then
      (P.act h b (w.node h)).map fun r =>
        { node := update w.node h r.1, wire := r.2 ++ w.wire }
    else none

variable {P : Protocol Host σ Msg β} {w w' : World Host σ Msg} {a : Action Host Msg β}

/-- Everything a step can be. -/
theorem step_cases (called : step P w a = some w') :
    (∃ p s, a = .deliver p ∧ p ∈ w.wire ∧ p.dst ∈ P.hosts ∧
      P.receive p (w.node p.dst) = some s ∧
      w' = { node := update w.node p.dst s, wire := w.wire.erase p }) ∨
    (∃ p, a = .lose p ∧ p ∈ w.wire ∧ w' = { w with wire := w.wire.erase p }) ∨
    (∃ h b s out, a = .act h b ∧ h ∈ P.hosts ∧ P.act h b (w.node h) = some (s, out) ∧
      w' = { node := update w.node h s, wire := out ++ w.wire }) := by
  cases a with
  | deliver p =>
    obtain ⟨sent, called⟩ := Option.ite_none_right_eq_some.mp called
    obtain ⟨s, received, rfl⟩ := Option.map_eq_some_iff.mp called
    exact .inl ⟨p, s, rfl, sent.1, sent.2, received, rfl⟩
  | lose p =>
    obtain ⟨sent, called⟩ := Option.ite_none_right_eq_some.mp called
    exact .inr (.inl ⟨p, rfl, sent, (Option.some.inj called).symm⟩)
  | act h b =>
    obtain ⟨runs, called⟩ := Option.ite_none_right_eq_some.mp called
    obtain ⟨⟨s, out⟩, acted, rfl⟩ := Option.map_eq_some_iff.mp called
    exact .inr (.inr ⟨h, b, s, out, rfl, runs, acted, rfl⟩)

/-! ### Invariants of each host -/

/-- A property of single hosts survives a step if the host that moves keeps it. With the
host's old state as a parameter of `I`, this is what a step can change of a host. -/
theorem forall_node_step (I : Host → σ → Prop) (called : step P w a = some w')
    (before : ∀ h, I h (w.node h))
    (receives : ∀ p s, a = .deliver p → p ∈ w.wire →
      P.receive p (w.node p.dst) = some s → I p.dst s)
    (acts : ∀ h b s out, a = .act h b → P.act h b (w.node h) = some (s, out) → I h s) :
    ∀ h, I h (w'.node h) := by
  intro h
  have moved : ∀ k s, I k s → I h (update w.node k s h) := by
    intro k s kept
    by_cases same : h = k
    · subst same; rwa [update_self]
    · rw [update_of_ne same]; exact before h
  rcases step_cases called with ⟨p, s, rfl, sent, _, received, rfl⟩ | ⟨p, _, _, rfl⟩ |
    ⟨k, b, s, out, rfl, _, acted, rfl⟩
  · exact moved p.dst s (receives p s rfl sent received)
  · exact before h
  · exact moved k s (acts k b s out rfl acted)

/-! ### Where information can be -/

section Carried

variable (onWire : Packet Host Msg → Option τ) (held : Host → σ → Option τ)

/-- The information in packets on the wire and in the hands of the hosts. -/
def carried (hosts : List Host) (w : World Host σ Msg) : List τ :=
  w.wire.filterMap onWire ++ hosts.filterMap fun h => held h (w.node h)

variable {onWire held} {hosts : List Host} {x : τ}

omit [DecidableEq Host] [DecidableEq Msg] in
theorem mem_carried : x ∈ carried onWire held hosts w ↔
      (∃ p ∈ w.wire, onWire p = some x) ∨ ∃ h ∈ hosts, held h (w.node h) = some x := by
  simp [carried]

omit [DecidableEq Msg] in
theorem carried_update {k : Host} {s : σ} {wire : List (Packet Host Msg)}
    (after : x ∈ carried onWire held hosts { node := update w.node k s, wire := wire }) :
    (∃ p ∈ wire, onWire p = some x) ∨ held k s = some x ∨
      ∃ h ∈ hosts, held h (w.node h) = some x := by
  rcases mem_carried.mp after with sent | ⟨h, runs, has⟩
  · exact .inl sent
  · rcases eq_or_ne h k with rfl | other
    · exact .inr (.inl (by simpa using has))
    · exact .inr (.inr ⟨h, runs, by simpa [update_of_ne other] using has⟩)

/-- Receiving passes on what the packet carried, and acting passes on what the host
held, except for what it makes afresh: so nothing else becomes carried in a step. -/
theorem carried_step (fresh : Host → β → σ → τ → Prop)
    (receives : ∀ p s s' x, P.receive p s = some s' → held p.dst s' = some x →
      held p.dst s = some x ∨ onWire p = some x)
    (acts : ∀ h b s s' out x, P.act h b s = some (s', out) →
      (held h s' = some x ∨ ∃ p ∈ out, onWire p = some x) → held h s = some x ∨ fresh h b s x)
    (called : step P w a = some w') (after : x ∈ carried onWire held P.hosts w') :
    x ∈ carried onWire held P.hosts w ∨ ∃ h b, a = .act h b ∧ fresh h b (w.node h) x := by
  rcases step_cases called with ⟨p, s, rfl, sent, runs, received, rfl⟩ | ⟨p, _, _, rfl⟩ |
    ⟨k, b, s, out, rfl, runs, acted, rfl⟩
  · refine .inl (mem_carried.mpr ?_)
    rcases carried_update after with ⟨q, still, info⟩ | info | had
    · exact .inl ⟨q, List.mem_of_mem_erase still, info⟩
    · rcases receives p _ s x received info with had | carried
      · exact .inr ⟨p.dst, runs, had⟩
      · exact .inl ⟨p, sent, carried⟩
    · exact .inr had
  · refine .inl (mem_carried.mpr ?_)
    rcases mem_carried.mp after with ⟨q, still, info⟩ | had
    · exact .inl ⟨q, List.mem_of_mem_erase still, info⟩
    · exact .inr had
  · have made : held k s = some x ∨ (∃ q ∈ out, onWire q = some x) →
        x ∈ carried onWire held P.hosts w ∨
          ∃ h b', (Action.act k b : Action Host Msg β) = .act h b' ∧ fresh h b' (w.node h) x := by
      intro info
      rcases acts k b _ s out x acted info with had | new
      · exact .inl (mem_carried.mpr (.inr ⟨k, runs, had⟩))
      · exact .inr ⟨k, b, rfl, new⟩
    rcases carried_update after with ⟨q, still, info⟩ | info | had
    · rcases List.mem_append.mp still with new | old
      · exact made (.inr ⟨q, new, info⟩)
      · exact .inl (mem_carried.mpr (.inl ⟨q, old, info⟩))
    · exact made (.inl info)
    · exact .inl (mem_carried.mpr (.inr had))

end Carried

end Net
