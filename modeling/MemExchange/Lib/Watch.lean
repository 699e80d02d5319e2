import MemExchange.Lib.Net

/-!
# Watching a protocol

An observer keeps notes beside the state of each host and marks the packets that are sent. Dropping
them turns every watched step into a step of the protocol, and every step of the protocol can be
watched. Packets that differed only in their marks become equal, so the two wires agree up to the
order of the packets.
-/
namespace Net

variable {Host σ Msg β γ τ : Type}

/-- What an observer writes: new notes when a packet is taken off the wire or the host
acts by itself, each from the state and the notes before, and the mark of what is sent. -/
structure Observer (Host σ Msg β γ τ : Type) where
  receive : Packet Host Msg → τ → σ → γ → γ
  act : Host → β → σ → γ → γ
  mark : Host → β → σ → γ → τ

def Packet.bare (p : Packet Host (Msg × τ)) : Packet Host Msg := ⟨p.src, p.dst, p.msg.1⟩

def Packet.marked (m : τ) (p : Packet Host Msg) : Packet Host (Msg × τ) :=
  ⟨p.src, p.dst, (p.msg, m)⟩

@[simp] theorem Packet.bare_marked (m : τ) (p : Packet Host Msg) : (p.marked m).bare = p := rfl

def Protocol.watched (P : Protocol Host σ Msg β) (O : Observer Host σ Msg β γ τ) :
    Protocol Host (σ × γ) (Msg × τ) β where
  hosts := P.hosts
  receive p s := (P.receive p.bare s.1).map fun t => (t, O.receive p.bare p.msg.2 s.1 s.2)
  act h b s := (P.act h b s.1).map fun r =>
    ((r.1, O.act h b s.1 s.2), r.2.map (Packet.marked (O.mark h b s.1 s.2)))

variable {p : Packet Host (Msg × τ)}

theorem watched_receive {P : Protocol Host σ Msg β} {O : Observer Host σ Msg β γ τ} {s s' : σ × γ}
    (received : (P.watched O).receive p s = some s') :
    P.receive p.bare s.1 = some s'.1 ∧ s'.2 = O.receive p.bare p.msg.2 s.1 s.2 := by
  obtain ⟨t, took, rfl⟩ := Option.map_eq_some_iff.mp received
  exact ⟨took, rfl⟩

theorem watched_act {P : Protocol Host σ Msg β} {O : Observer Host σ Msg β γ τ} {h : Host} {b : β}
    {s s' : σ × γ} {out : List (Packet Host (Msg × τ))}
    (acted : (P.watched O).act h b s = some (s', out)) :
    ∃ sends, P.act h b s.1 = some (s'.1, sends) ∧ s'.2 = O.act h b s.1 s.2 ∧
      out = sends.map (Packet.marked (O.mark h b s.1 s.2)) := by
  obtain ⟨⟨t, sends⟩, took, same⟩ := Option.map_eq_some_iff.mp acted
  cases same
  exact ⟨sends, took, rfl, rfl⟩

def Action.bare : Action Host (Msg × τ) β → Action Host Msg β
  | .deliver p => .deliver p.bare
  | .lose p => .lose p.bare
  | .act h b => .act h b

/-- The watched world `w` shows the world `v`. -/
structure Shows (w : World Host (σ × γ) (Msg × τ)) (v : World Host σ Msg) : Prop where
  node : ∀ h, (w.node h).1 = v.node h
  wire : (w.wire.map Packet.bare).Perm v.wire

variable [DecidableEq Host] [DecidableEq Msg] [DecidableEq τ]
variable {P : Protocol Host σ Msg β} {O : Observer Host σ Msg β γ τ}
variable {w w' : World Host (σ × γ) (Msg × τ)} {v v' : World Host σ Msg}

theorem bare_erase {wire : List (Packet Host (Msg × τ))} (sent : p ∈ wire) :
    ((wire.erase p).map Packet.bare).Perm ((wire.map Packet.bare).erase p.bare) := by
  have split : (wire.map Packet.bare).Perm (p.bare :: (wire.erase p).map Packet.bare) :=
    (List.perm_cons_erase sent).map Packet.bare
  simpa using (split.erase p.bare).symm

omit [DecidableEq Msg] [DecidableEq τ] in
theorem Shows.update (shown : Shows w v) (h : Host) (s : σ × γ)
    {wire : List (Packet Host (Msg × τ))} {wire' : List (Packet Host Msg)}
    (wires : (wire.map Packet.bare).Perm wire') :
    Shows { node := Function.update w.node h s, wire := wire }
      { node := Function.update v.node h s.1, wire := wire' } where
  node := by
    intro k
    rcases eq_or_ne k h with rfl | other
    · simp
    · simp [Function.update_of_ne other, shown.node k]
  wire := wires

theorem Shows.erase (shown : Shows w v) (sent : p ∈ w.wire) :
    ((w.wire.erase p).map Packet.bare).Perm (v.wire.erase p.bare) :=
  (bare_erase sent).trans (shown.wire.erase p.bare)

omit [DecidableEq Host] [DecidableEq Msg] [DecidableEq τ] in
theorem Shows.mem (shown : Shows w v) (sent : p ∈ w.wire) : p.bare ∈ v.wire :=
  shown.wire.mem_iff.mp (List.mem_map.mpr ⟨p, sent, rfl⟩)

theorem watched_step {a : Action Host (Msg × τ) β} (called : step (P.watched O) w a = some w')
    (shown : Shows w v) : ∃ v', step P v a.bare = some v' ∧ Shows w' v' := by
  rcases step_cases called with ⟨p, s, rfl, sent, runs, received, rfl⟩ | ⟨p, rfl, sent, rfl⟩ |
    ⟨h, b, s, out, rfl, runs, acted, rfl⟩
  · obtain ⟨t, took, rfl⟩ := Option.map_eq_some_iff.mp received
    rw [shown.node] at took
    refine ⟨{ node := Function.update v.node p.dst t, wire := v.wire.erase p.bare }, ?_,
      shown.update p.dst _ (shown.erase sent)⟩
    have there : p.bare ∈ v.wire ∧ p.bare.dst ∈ P.hosts := ⟨shown.mem sent, runs⟩
    simp only [Action.bare, step, if_pos there]
    rw [show v.node p.bare.dst = v.node p.dst from rfl, took]
    rfl
  · refine ⟨{ v with wire := v.wire.erase p.bare }, ?_, shown.node, shown.erase sent⟩
    simp only [Action.bare, step, if_pos (shown.mem sent)]
  · obtain ⟨⟨t, sends⟩, took, same⟩ := Option.map_eq_some_iff.mp acted
    cases same
    rw [shown.node] at took
    have wires : ((sends.map (Packet.marked (O.mark h b (w.node h).1 (w.node h).2)) ++
        w.wire).map Packet.bare).Perm (sends ++ v.wire) := by
      simpa [Function.comp_def] using shown.wire.append_left sends
    refine ⟨{ node := Function.update v.node h t, wire := sends ++ v.wire }, ?_,
      shown.update h _ wires⟩
    simp only [Action.bare, step, show h ∈ P.hosts from runs, if_true, took, Option.map_some]

theorem exists_watched_step {a : Action Host Msg β} (called : step P v a = some v')
    (shown : Shows w v) :
    ∃ a' w', a'.bare = a ∧ step (P.watched O) w a' = some w' ∧ Shows w' v' := by
  -- on the watched wire the packet carries some mark
  have find : ∀ p ∈ v.wire, ∃ q ∈ w.wire, q.bare = p := by
    intro p sent
    simpa using shown.wire.mem_iff.mpr sent
  rcases step_cases called with ⟨p, s, rfl, sent, runs, received, rfl⟩ | ⟨p, rfl, sent, rfl⟩ |
    ⟨h, b, s, out, rfl, runs, acted, rfl⟩
  · obtain ⟨q, marked, rfl⟩ := find p sent
    rw [show v.node q.bare.dst = (w.node q.dst).1 from (shown.node _).symm] at received
    refine ⟨.deliver q, _, rfl, ?_, shown.update q.dst
      (s, O.receive q.bare q.msg.2 (w.node q.dst).1 (w.node q.dst).2) (shown.erase marked)⟩
    have there : q ∈ w.wire ∧ q.dst ∈ P.hosts := ⟨marked, runs⟩
    simp only [step, Protocol.watched, if_pos there, received, Option.map_some]
  · obtain ⟨q, marked, rfl⟩ := find p sent
    exact ⟨.lose q, { w with wire := w.wire.erase q }, rfl, by simp [step, marked], shown.node,
      shown.erase marked⟩
  · rw [← shown.node] at acted
    have wires : ((out.map (Packet.marked (O.mark h b (w.node h).1 (w.node h).2)) ++
        w.wire).map Packet.bare).Perm (out ++ v.wire) := by
      simpa [Function.comp_def] using shown.wire.append_left out
    refine ⟨.act h b, _, rfl, ?_, shown.update h
      (s, O.act h b (w.node h).1 (w.node h).2) wires⟩
    simp only [step, Protocol.watched, if_pos runs, acted, Option.map_some]

theorem exists_watched_run {run : List (Action Host Msg β)}
    (ran : Run.exec (step P) v run = some v') (shown : Shows w v) :
    ∃ watched w', watched.map Action.bare = run ∧
      Run.exec (step (P.watched O)) w watched = some w' ∧ Shows w' v' := by
  induction run generalizing v w with
  | nil =>
    cases ran
    exact ⟨[], w, rfl, rfl, shown⟩
  | cons a run ih =>
    obtain ⟨u, called, onward⟩ := Option.bind_eq_some_iff.mp ran
    obtain ⟨a', t, same, first, next⟩ := exists_watched_step (O := O) called shown
    obtain ⟨watched, w', bares, rest, final⟩ := ih onward next
    exact ⟨a' :: watched, w', by simp [same, bares], by simp [first, rest], final⟩

end Net
