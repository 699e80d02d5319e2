import MemExchange.Mtc.Talks

/-!
# Which branch handles a `p`

A `p` is either the first one of a transfer, from the victim, or the answer to it, from
the victor, and `recv_msg` tells them apart by the global `client` alone: an `x` sets it
and the next broadcast of the tracker itself clears it.
-/
namespace MemExchange.Mtc

abbrev WatchedPacket := Net.Packet Host (Msg × Mark)

/-! ### Trackers that wait for a `p` -/

/-- The victor that a datagram brings closer to the opening `p` of its victim. -/
def openingOnWire (d : WatchedPacket) : Option Host :=
  match d.msg with
  | (.x, _) => some d.src
  | (.p _, .opens _) => some d.dst
  | _ => none

def openingHeld (h : Host) (s : Node × Notes) : Option Host :=
  match s.1.recv, s.2.handling with
  | .xPort src, _ | .xSend src _, _ => some src
  | .pInfo .., .opens _ | .pClient _, .opens _ => some h
  | _, _ => none

/-- The victors to which a `p` that opens a transfer is still to come. -/
def awaitOpening (hosts : List Host) (w : Watched) : List Host :=
  Net.carried openingOnWire openingHeld hosts w

/-- The victim that a datagram brings closer to the answer to its `p`. -/
def answerOnWire (d : WatchedPacket) : Option Host :=
  match d.msg with
  | (.p _, .opens _) => some d.src
  | (.p _, .answers _) => some d.dst
  | _ => none

def answerHeld (h : Host) (s : Node × Notes) : Option Host :=
  match s.1.recv, s.2.handling with
  | .pInfo src _, .opens _ | .pClient src, .opens _ => some src
  | .pListen src, .opens _ | .pSend src _, .opens _ => some src
  | .pInfo .., .answers _ | .pClient _, .answers _ => some h
  | _, _ => none

/-- The victims to which the answer to their `p` is still to come. -/
def awaitAnswer (hosts : List Host) (w : Watched) : List Host :=
  Net.carried answerOnWire answerHeld hosts w

/-- The receiver thread has taken an `x` and has not yet sent its `p`. -/
def takingUp (n : Node) : Bool :=
  match n.recv with
  | .xPort _ | .xSend .. => true
  | _ => false

/-- The receiver thread sends an `x` in its next step. -/
def accepting (n : Node) : Bool :=
  match n.recv with
  | .sReply _ accept => accept
  | _ => false

/-- A tracker takes on one role at a time: an `x` does not reach it while an opening `p`
is still to come, it does not broadcast between an `x` and the answer to its `p`, and it
sends an `x` only while `client` is still false from its last broadcast. -/
def OneRole (hosts : List Host) (w : Watched) : WatchedAction → Prop
  | .deliver d => d.msg.1 = .x → d.dst ∉ awaitOpening hosts w
  | .act h (.send _) => (w.node h).1.send = .hClear →
      h ∉ awaitAnswer hosts w ∧ takingUp (w.node h).1 = false
  | .act h (.recv _) => accepting (w.node h).1 = true → (w.node h).1.client = false
  | _ => True

instance (hosts : List Host) (w : Watched) : DecidablePred (OneRole hosts w)
  | .deliver _ | .act _ (.send _) | .act _ (.recv _) => inferInstanceAs (Decidable (_ → _))
  | .act _ (.tenant _ _) | .lose _ => isTrue trivial

/-- The branch for an answering `p`: the wait is over and nothing is sent. -/
def ClientBranch (h : Host) (w w' : Watched) : Prop :=
  (w'.node h).1.waiting = false ∧ (w'.node h).1.recv = .idle ∧ w'.wire = w.wire

/-- The branch for an opening `p` goes on to its reply and to the min-score reset. -/
def ServerBranch (h src : Host) (w' : Watched) : Prop := (w'.node h).1.recv = .pListen src

instance (h : Host) (w w' : Watched) : Decidable (ClientBranch h w w') :=
  inferInstanceAs (Decidable (_ ∧ _))

instance (h src : Host) (w' : Watched) : Decidable (ServerBranch h src w') :=
  inferInstanceAs (Decidable (_ = _))

/-- If the step decides on the branch for a `p`, then it is the one for that `p`. -/
def Routed (hosts : List Host) (codec : Codec) (w : Watched) (a : WatchedAction) : Prop :=
  match a, watchedStep hosts codec w a with
  | .act h (.recv _), some w' =>
    match (w.node h).1.recv, (w.node h).2.handling with
    | .pClient _, .answers _ => ClientBranch h w w'
    | .pClient src, .opens _ => ServerBranch h src w'
    | _, _ => True
  | _, _ => True

instance (hosts : List Host) (codec : Codec) (w : Watched) :
    DecidablePred (Routed hosts codec w) := by
  intro a
  unfold Routed
  split
  · split <;> infer_instance
  · infer_instance

/-! ### One step -/

section Steps

variable {hosts : List Host} {codec : Codec} {h : Host} {s s' : Node × Notes} {v : Host}
variable {out : List WatchedPacket} {b : Local}

theorem receive_awaited {d : WatchedPacket}
    (received : ((protocol hosts codec).watched observer).receive d s = some s') :
    (openingHeld d.dst s' = some v → openingOnWire d = some v) ∧
      (answerHeld d.dst s' = some v → answerOnWire d = some v) := by
  obtain ⟨took, noted⟩ := Net.watched_receive received
  obtain ⟨src, dst, m, mark⟩ := d
  have handling : s'.2.handling = mark := by rw [noted]; exact noteReceive_handling ..
  obtain ⟨idle, moved⟩ := receive_move took
  obtain ⟨n', g'⟩ := s'
  simp only at handling moved
  clear received took noted
  cases moved <;> rename_i kind <;> cases kind <;> cases mark <;>
    simp [openingHeld, openingOnWire, answerHeld, answerOnWire, idle, handling, Net.Packet.bare]

section Moves

variable {n n' : Node} {g g' : Notes} {sends : List Packet}

variable (moved : RecvMove codec h n n' sends) (same : g'.handling = g.handling)
include moved same

/-- A wait for an opening `p` starts with the `x`; every other step of the receiver
thread passes it on or ends it. -/
theorem recvMove_opening (info : openingHeld h (n', g') = some v ∨
      ∃ d ∈ sends.map (Net.Packet.marked (markOf n g)), openingOnWire d = some v) :
    openingHeld h (n, g) = some v ∨ (accepting n = true ∧ v = h) := by
  cases moved
  case sReply src accept here =>
    right
    cases accept <;>
      simp_all [openingHeld, openingOnWire, Net.Packet.marked, accepting]
  case pInfo | xSend | pSend =>
    left
    rename_i here
    cases mark : g.handling <;>
      simp_all [openingHeld, openingOnWire, Net.Packet.marked, markOf]
  case pPoll | hBlocked => left; simpa [openingHeld, same] using info
  all_goals
    left
    simp_all [openingHeld, openingOnWire, Net.Packet.marked]

theorem recvMove_answer (info : answerHeld h (n', g') = some v ∨
      ∃ d ∈ sends.map (Net.Packet.marked (markOf n g)), answerOnWire d = some v) :
    answerHeld h (n, g) = some v ∨ (takingUp n = true ∧ v = h) := by
  cases moved
  case xSend src port here =>
    right
    cases mark : g.handling <;>
      simp_all [answerHeld, answerOnWire, Net.Packet.marked, markOf, takingUp]
  case sReply src accept here =>
    left
    cases accept <;> simp_all [answerHeld, answerOnWire, Net.Packet.marked]
  case pInfo | pServer | pListen | pSend =>
    left
    rename_i here
    cases mark : g.handling <;>
      simp_all [answerHeld, answerOnWire, Net.Packet.marked, markOf]
  case pPoll | hBlocked => left; simpa [answerHeld, same] using info
  all_goals
    left
    simp_all [answerHeld, answerOnWire, Net.Packet.marked]

end Moves

theorem act_awaited (acted : ((protocol hosts codec).watched observer).act h b s = some (s', out)) :
    (openingHeld h s' = some v ∨ (∃ d ∈ out, openingOnWire d = some v) →
      openingHeld h s = some v ∨ ((∃ fits, b = .recv fits) ∧ accepting s.1 = true ∧ v = h)) ∧
    (answerHeld h s' = some v ∨ (∃ d ∈ out, answerOnWire d = some v) →
      answerHeld h s = some v ∨ ((∃ fits, b = .recv fits) ∧ takingUp s.1 = true ∧ v = h)) := by
  obtain ⟨sends, took, noted, rfl⟩ := Net.watched_act acted
  have same : s'.2.handling = s.2.handling := by rw [noted]; exact noteAct_handling b s.1 s.2
  obtain ⟨n, g⟩ := s
  obtain ⟨n', g'⟩ := s'
  simp only at same
  clear noted acted
  rcases act_cases took with ⟨_, op, rfl, _, rfl, moved⟩ | ⟨fits, rfl, moved⟩ | ⟨_, rfl, moved⟩
  · cases moved
    simp [openingHeld, answerHeld, same]
  · exact ⟨fun info => (recvMove_opening moved same info).imp_right fun made => ⟨⟨fits, rfl⟩, made⟩,
      fun info => (recvMove_answer moved same info).imp_right fun made => ⟨⟨fits, rfl⟩, made⟩⟩
  · clear took
    cases moved <;>
      simp [openingHeld, answerHeld, same, multicast, openingOnWire, answerOnWire,
        Net.Packet.marked, observer]

variable {w w' : Watched} {a : WatchedAction}

theorem awaitOpening_step (called : watchedStep hosts codec w a = some w')
    (after : v ∈ awaitOpening hosts w') : v ∈ awaitOpening hosts w ∨
      ((∃ fits, a = .act v (.recv fits)) ∧ accepting (w.node v).1 = true) := by
  rcases Net.carried_step
      (fun h b s v => (∃ fits, b = .recv fits) ∧ accepting s.1 = true ∧ v = h)
      (fun _ _ _ _ received held => .inr ((receive_awaited received).1 held))
      (fun _ _ _ _ _ _ acted => (act_awaited acted).1) called after with
    still | ⟨h, b, rfl, ⟨fits, rfl⟩, accepts, rfl⟩
  · exact .inl still
  · exact .inr ⟨⟨fits, rfl⟩, accepts⟩

theorem awaitAnswer_step (called : watchedStep hosts codec w a = some w')
    (after : v ∈ awaitAnswer hosts w') : v ∈ awaitAnswer hosts w ∨
      ((∃ fits, a = .act v (.recv fits)) ∧ takingUp (w.node v).1 = true) := by
  rcases Net.carried_step
      (fun h b s v => (∃ fits, b = .recv fits) ∧ takingUp s.1 = true ∧ v = h)
      (fun _ _ _ _ received held => .inr ((receive_awaited received).2 held))
      (fun _ _ _ _ _ _ acted => (act_awaited acted).2) called after with
    still | ⟨h, b, rfl, ⟨fits, rfl⟩, takes, rfl⟩
  · exact .inl still
  · exact .inr ⟨⟨fits, rfl⟩, takes⟩

/-- What a step can do to `client` of host `h`, from `n` to `n'`. -/
inductive RoleStep (h : Host) (a : WatchedAction) (n n' : Node) : Prop
  | keeps (client : n'.client = n.client) (busy : takingUp n' = true → takingUp n = true)
  | takes (d : WatchedPacket) (act : a = .deliver d) (kind : d.msg.1 = .x) (dst : d.dst = h)
    (client : n'.client = true)
  | broadcasts (timedOut : Bool) (act : a = .act h (.send timedOut)) (here : n.send = .hClear)
    (client : n'.client = false) (busy : takingUp n' = takingUp n)

theorem roleStep (called : watchedStep hosts codec w a = some w') :
    ∀ h, RoleStep h a (w.node h).1 (w'.node h).1 := by
  refine Net.forall_node_step (fun h s' => RoleStep h a (w.node h).1 s'.1) called ?_ ?_ ?_
  · intro h
    exact .keeps rfl id
  · rintro d s' rfl _ received
    obtain ⟨took, _⟩ := Net.watched_receive received
    obtain ⟨n', g'⟩ := s'
    obtain ⟨idle, moved⟩ := receive_move took
    cases moved with
    | accepted kind => exact .takes d rfl kind rfl rfl
    | _ => exact .keeps rfl (by simp_all [takingUp])
  · rintro h b s' out rfl acted
    obtain ⟨sends, took, -, rfl⟩ := Net.watched_act acted
    obtain ⟨n', g'⟩ := s'
    rcases act_cases took with ⟨_, op, rfl, _, rfl, same⟩ | ⟨fits, rfl, moved⟩ | ⟨timedOut, rfl, moved⟩
    · cases same
      exact .keeps rfl id
    · cases moved <;> exact .keeps rfl (by simp_all [takingUp])
    · cases moved
      case hClear here => exact .broadcasts timedOut rfl here rfl rfl
      all_goals exact .keeps rfl (by simp [takingUp])

end Steps

/-! ### Whole runs -/

/-- `client` tells the role in which a tracker waits. -/
structure RoleInv (hosts : List Host) (w : Watched) : Prop where
  victor : ∀ v ∈ awaitOpening hosts w, (w.node v).1.client = false
  victim : ∀ v ∈ awaitAnswer hosts w, (w.node v).1.client = true
  taking : ∀ v, takingUp (w.node v).1 = true → (w.node v).1.client = true

variable {hosts : List Host} {codec : Codec}

/-- `client` keeps telling the role while a tracker takes on one at a time. -/
theorem roleInv_step (w : Watched) (a : WatchedAction) (w' : Watched) (inv : RoleInv hosts w)
    (one : OneRole hosts w a) (called : watchedStep hosts codec w a = some w') :
    RoleInv hosts w' where
  victor := by
    intro v after
    rcases awaitOpening_step called after with before | ⟨⟨fits, rfl⟩, accepts⟩
    · cases roleStep called v with
      | keeps client => rw [client, inv.victor v before]
      | takes d act kind dst =>
        subst act dst
        exact absurd before (one kind)
      | broadcasts _ _ _ client => exact client
    · cases roleStep called v with
      | keeps client => rw [client, one accepts]
      | takes _ act => cases act
      | broadcasts _ _ _ client => exact client
  victim := by
    intro v after
    rcases awaitAnswer_step called after with before | ⟨⟨fits, rfl⟩, takes⟩
    · cases roleStep called v with
      | keeps client => rw [client, inv.victim v before]
      | takes _ _ _ _ client => exact client
      | broadcasts _ act here =>
        subst act
        exact absurd before (one here).1
    · cases roleStep called v with
      | keeps client => rw [client, inv.taking v takes]
      | takes _ act => cases act
      | broadcasts _ act => cases act
  taking := by
    intro v busy
    cases roleStep called v with
    | keeps client still => rw [client, inv.taking v (still busy)]
    | takes _ _ _ _ client => exact client
    | broadcasts _ act here _ still =>
      subst act
      simp [still, (one here).2] at busy

theorem roleInv_initial (hosts : List Host) (memAllocated : Host → Nat) (shares : Host → Int → ℚ)
    (slabStart : Host → Int) : RoleInv hosts (Watched.initial memAllocated shares slabStart) where
  victor := fun _ _ => rfl
  victim := by
    intro v awaited
    rcases Net.mem_carried.mp awaited with ⟨d, sent, _⟩ | ⟨h, _, held⟩
    · cases sent
    · cases held
  taking := fun _ busy => nomatch busy

theorem routed_of_roleInv {w : Watched} (a : WatchedAction) (inv : RoleInv hosts w) :
    Routed hosts codec w a := by
  unfold Routed
  split
  · next h fits w' called =>
    rcases Net.step_cases called with ⟨_, _, same, _⟩ | ⟨_, same, _⟩ |
      ⟨k, b, s, out, same, runs, acted, rfl⟩
    · cases same
    · cases same
    cases same
    obtain ⟨sends, took, _, rfl⟩ := Net.watched_act acted
    split
    · next src k here marked =>
      have waits : h ∈ awaitAnswer hosts w :=
        Net.mem_carried.mpr (.inr ⟨h, runs, by simp [answerHeld, here, marked]⟩)
      have role := inv.victim h waits
      simp only [protocol, recvStep, here, role, if_true, Option.some.injEq, Prod.mk.injEq] at took
      simp [ClientBranch, ← took.1, ← took.2]
    · next src k here marked =>
      have waits : h ∈ awaitOpening hosts w :=
        Net.mem_carried.mpr (.inr ⟨h, runs, by simp [openingHeld, here, marked]⟩)
      have role := inv.victor h waits
      simp only [protocol, recvStep, here, role, Bool.false_eq_true, if_false, Option.some.injEq,
        Prod.mk.injEq] at took
      simp [ServerBranch, ← took.1]
    · trivial
  · trivial

/-- **Roles are kept apart.** For any trackers and any order of their steps, of tenants'
calls, of deliveries and losses: if each tracker takes on one role at a time, every `p`
that answers a victim's `p` is handled by the client branch and every `p` that opens a
transfer by the server branch. -/
theorem routed_of_one_role (hosts : List Host) (codec : Codec) (memAllocated : Host → Nat)
    (shares : Host → Int → ℚ) (slabStart : Host → Int) (run : List WatchedAction)
    (one : Run.Along (watchedStep hosts codec) (OneRole hosts)
      (Watched.initial memAllocated shares slabStart) run) :
    Run.Along (watchedStep hosts codec) (Routed hosts codec)
      (Watched.initial memAllocated shares slabStart) run :=
  Run.along_of_invariant roleInv_step (fun _ a inv _ => routed_of_roleInv a inv)
    (roleInv_initial hosts memAllocated shares slabStart) one

/-- A transfer between two trackers, with nothing else going on. -/
theorem routed_when_alone :
    Run.Along (watchedStep [1, 2] plainCodec) (Routed [1, 2] plainCodec) watchedTrackers
      (transferOpened ++ transferAnswered ++ answerHandled) :=
  routed_of_one_role [1, 2] plainCodec _ _ _ _ (by decide +kernel)

/-- The victim broadcasts a request of its own before the answer to its `p` arrives: the
answer is handled by the server branch. -/
theorem answer_handled_by_server :
    ¬ Run.Along (watchedStep [1, 2] plainCodec) (Routed [1, 2] plainCodec) watchedTrackers
      (transferOpened ++ (requestPage 1 5).map (watch .none) ++ transferAnswered ++
        answerHandled) := by
  decide +kernel

end MemExchange.Mtc
