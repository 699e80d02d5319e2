import MemExchange.Mtc.Moves

/-!
# Only answers to the current request

A requester recognises the answers to its latest multicast by one digit, `mc_id`, which
advances when an answer is accepted and at no other time, and which wraps after 9. Messages are
traced from the `H` through the victim that handles it to the `s` and the requester that judges it.
-/
namespace MemExchange.Mtc

/-- A message of the exchange started by an `H`: the requester, the sequence id it was
sent with, and the number of the multicast. -/
structure Exchange where
  requester : Host
  mcId : Nat
  broadcast : Nat
  deriving DecidableEq

def exchangeOnWire (d : Packet) : Option Exchange :=
  match d.msg with
  | .H _ mcId b => some ⟨d.src, mcId, b⟩
  | .s _ mcId b => some ⟨d.dst, mcId, b⟩
  | _ => none

/-- The exchange a receiver thread is working on: a victim on its way from `H` to `s`, or
a requester that has not yet decided on an `s`. -/
def exchangeHeld (h : Host) (n : Node) : Option Exchange :=
  match n.recv with
  | .hScores src _ mcId b | .hPotential src _ mcId b | .hCompare src _ mcId b => some ⟨src, mcId, b⟩
  | .hLock src mcId b | .hReply src mcId b | .hSend src _ mcId b => some ⟨src, mcId, b⟩
  | .sScores _ _ mcId b | .sCompare _ _ mcId b | .sLock _ mcId b => some ⟨h, mcId, b⟩
  | _ => none

/-- The exchanges that can still bring an `s` to its requester. -/
def exchanges (hosts : List Host) (w : World) : List Exchange :=
  Net.carried exchangeOnWire exchangeHeld hosts w

def followingId (mcId : Nat) : Nat := if mcId + 1 > 9 then 0 else mcId + 1

/-- The sequence id the next `s` is compared with. -/
def comingId (n : Node) : Nat :=
  match n.recv with
  | .sAdvance _ => followingId n.mcId
  | _ => n.mcId

/-- The receiver thread accepts an `s` in its next step. -/
def accepts (n : Node) : Bool :=
  match n.recv with
  | .sLock .. => n.tracker.spareLock = false
  | _ => false

/-- The sender thread multicasts an `H` in its next step. -/
def multicasts (n : Node) : Bool :=
  match n.send with
  | .hSend _ => true
  | _ => false

/-- An accepted `s` answers the latest multicast, its request is outstanding, and it is
the first one accepted. -/
def AcceptsCurrent (hosts : List Host) (w : World) : Action → Prop
  | .act h (.recv _) => h ∈ hosts → accepts (w.node h) = true →
      ∀ e ∈ exchangeHeld h (w.node h),
        e.broadcast = (w.node h).history.broadcasts ∧ (w.node h).history.current = true ∧
        (w.node h).history.accepted = false
  | _ => True

instance (hosts : List Host) (w : World) : DecidablePred (AcceptsCurrent hosts w)
  | .act _ (.recv _) => inferInstanceAs (Decidable (_ → _ → ∀ _ ∈ _, _))
  | .act _ (.tenant _ _) | .act _ (.send _) | .deliver _ | .lose _ => isTrue trivial

/-- No exchange of `h` with sequence id `mcId` is left. -/
def Spent (hosts : List Host) (w : World) (h : Host) (mcId : Nat) : Prop :=
  ∀ e ∈ exchanges hosts w, e.requester = h → e.mcId ≠ mcId

instance (hosts : List Host) (w : World) (h : Host) (mcId : Nat) :
    Decidable (Spent hosts w h mcId) := inferInstanceAs (Decidable (∀ _ ∈ _, _))

/-- Whenever a multicast, the end of a request or an acceptance changes what the coming
sequence id stands for, no message with that id is left over; and requests are multicast
while they are outstanding. -/
def ChangesClean (hosts : List Host) (w : World) : Action → Prop
  | .act h (.send _) => multicasts (w.node h) = true →
      (w.node h).history.requesting = true ∧ Spent hosts w h (comingId (w.node h))
  | .act h (.tenant _ .finishBroadcast) => Spent hosts w h (comingId (w.node h))
  | .act h (.recv _) => accepts (w.node h) = true →
      Spent hosts w h (followingId (w.node h).mcId)
  | _ => True

instance (hosts : List Host) (w : World) : DecidablePred (ChangesClean hosts w) := by
  intro a
  unfold ChangesClean
  split <;> infer_instance

/-! ### One step -/

section Steps

variable {hosts : List Host} {codec : Codec} {self : Host} {n n' : Node} {out : List Packet}

variable {e : Exchange} {w w' : World} {a : Action}

theorem recvMove_exchange (moved : RecvMove codec self n n' out)
    (info : exchangeHeld self n' = some e ∨ ∃ d ∈ out, exchangeOnWire d = some e) :
    exchangeHeld self n = some e := by
  cases moved
  case sReply accept here => cases accept <;> simp_all [exchangeHeld, exchangeOnWire]
  all_goals simp_all [exchangeHeld, exchangeOnWire]

/-- An exchange starts with a multicast; every other step passes it on or ends it. -/
theorem act_exchange {b : Local} (acted : (protocol hosts codec).act self b n = some (n', out))
    (info : exchangeHeld self n' = some e ∨ ∃ d ∈ out, exchangeOnWire d = some e) :
    exchangeHeld self n = some e ∨ ((∃ timedOut, b = .send timedOut) ∧ multicasts n = true ∧
      e = ⟨self, n.mcId, n.history.broadcasts + 1⟩) := by
  rcases act_cases acted with ⟨id, op, rfl, _, rfl, rfl⟩ | ⟨fits, rfl, moved⟩ | ⟨t, rfl, moved⟩
  · left
    simpa [exchangeHeld] using info
  · exact .inl (recvMove_exchange moved info)
  · cases moved
    case hSend here =>
      rcases info with held | ⟨d, sent, info⟩
      · exact .inl held
      · obtain ⟨dst, _, rfl⟩ := List.mem_map.mp sent
        exact .inr ⟨⟨t, rfl⟩, by simp [multicasts, here], (Option.some.inj info).symm⟩
    all_goals
      left
      simpa [exchangeHeld, exchangeOnWire, multicast] using info

theorem receive_exchange {d : Packet} (received : receive d n = some n')
    (info : exchangeHeld d.dst n' = some e) :
    exchangeHeld d.dst n = some e ∨ exchangeOnWire d = some e := by
  obtain ⟨idle, moved⟩ := receive_move received
  right
  cases moved <;> simp_all [exchangeHeld, exchangeOnWire]

theorem exchanges_step (called : step hosts codec w a = some w') (after : e ∈ exchanges hosts w') :
    e ∈ exchanges hosts w ∨ ∃ h timedOut, a = .act h (.send timedOut) ∧
      multicasts (w.node h) = true ∧
      e = ⟨h, (w.node h).mcId, (w.node h).history.broadcasts + 1⟩ := by
  rcases Net.carried_step
      (fun h b n e => (∃ timedOut, b = .send timedOut) ∧ multicasts n = true ∧
        e = ⟨h, n.mcId, n.history.broadcasts + 1⟩)
      (fun _ _ _ _ => receive_exchange) (fun _ _ _ _ _ _ => act_exchange) called after with
    still | ⟨h, b, rfl, ⟨t, rfl⟩, sends, same⟩
  · exact .inl still
  · exact .inr ⟨h, t, rfl, sends, same⟩

/-- What a step can do to the record of requests of host `h`, from `n` to `n'`. -/
inductive RequestStep (h : Host) (a : Action) (n n' : Node) : Prop
  | keeps (id : comingId n' = comingId n) (broadcasts : n'.history.broadcasts = n.history.broadcasts)
    (current : n'.history.current = n.history.current)
    (accepted : n'.history.accepted = n.history.accepted)
  | multicasts (timedOut : Bool) (act : a = .act h (.send timedOut)) (sends : multicasts n = true)
    (id : comingId n' = comingId n)
  | finishes (tenant : Int) (act : a = .act h (.tenant tenant .finishBroadcast))
    (id : comingId n' = comingId n)
  | accepts (fits : Bool) (act : a = .act h (.recv fits)) (takes : accepts n = true)
    (id : comingId n' = followingId n.mcId)

theorem recvMove_requestStep {fits : Bool} (moved : RecvMove codec self n n' out) :
    RequestStep self (.act self (.recv fits)) n n' := by
  cases moved
  case sAccept here free => exact .accepts fits rfl (by simp [accepts, here, free]) rfl
  case sAdvance here => exact .keeps (by simp [comingId, here, followingId]) rfl rfl rfl
  all_goals exact .keeps (by simp_all [comingId]) rfl rfl rfl

theorem requestStep (called : step hosts codec w a = some w') :
    ∀ h, RequestStep h a (w.node h) (w'.node h) := by
  refine Net.forall_node_step (fun h n' => RequestStep h a (w.node h) n') called ?_ ?_ ?_
  · intro h
    exact .keeps rfl rfl rfl rfl
  · rintro d n' rfl _ received
    obtain ⟨idle, moved⟩ := receive_move received
    cases moved <;> exact .keeps (by simp_all [comingId]) rfl rfl rfl
  · rintro h b n' out rfl acted
    rcases act_cases acted with ⟨id, op, rfl, _, rfl, rfl⟩ | ⟨fits, rfl, moved⟩ | ⟨t, rfl, moved⟩
    · cases op
      case finishBroadcast => exact .finishes id rfl rfl
      case reqRemSpare =>
        refine .keeps rfl ?_ ?_ ?_
        all_goals
          simp only [History.note]
          split <;> rfl
      all_goals exact .keeps rfl rfl rfl rfl
    · exact recvMove_requestStep moved
    · cases moved
      case hSend here => exact .multicasts t rfl (by simp [multicasts, here]) rfl
      all_goals exact .keeps rfl rfl rfl rfl

theorem multicast_recorded {h : Host} {timedOut : Bool}
    (called : step hosts codec w (.act h (.send timedOut)) = some w')
    (sends : multicasts (w.node h) = true) :
    (w'.node h).history.broadcasts = (w.node h).history.broadcasts + 1 ∧
    (w'.node h).history.current = (w.node h).history.requesting ∧
    (w'.node h).history.accepted = false := by
  unfold multicasts at sends
  split at sends
  · next here =>
    simp only [step, Net.step, protocol, sendStep, here, Option.map_some] at called
    split at called
    · cases called
      simp
    · cases called
  · cases sends

/-- An `s` being judged has passed the comparison with the sequence id. -/
def IdChecked (n : Node) : Prop :=
  match n.recv with
  | .sScores _ _ mcId _ | .sCompare _ _ mcId _ | .sLock _ mcId _ => mcId = n.mcId
  | _ => True

theorem idChecked_step (called : step hosts codec w a = some w')
    (before : ∀ h, IdChecked (w.node h)) : ∀ h, IdChecked (w'.node h) := by
  refine Net.forall_node_step (fun _ => IdChecked) called before ?_ ?_
  · rintro d n' rfl _ received
    obtain ⟨idle, moved⟩ := receive_move received
    cases moved <;> simp_all [IdChecked]
  · rintro h b n' out rfl acted
    have checked := before h
    rcases act_cases acted with ⟨id, op, rfl, _, rfl, rfl⟩ | ⟨fits, rfl, moved⟩ | ⟨t, rfl, moved⟩
    · exact checked
    · cases moved <;> simp_all [IdChecked]
    · cases moved <;> exact checked

end Steps

/-! ### Whole runs -/

/-- What is left of exchanges with the coming sequence id belongs to the latest multicast,
whose request is outstanding and of which nothing was accepted. -/
structure ExchangeInv (hosts : List Host) (w : World) : Prop where
  fresh : ∀ e ∈ exchanges hosts w, e.mcId = comingId (w.node e.requester) →
    e.broadcast = (w.node e.requester).history.broadcasts ∧
    (w.node e.requester).history.current = true ∧
    (w.node e.requester).history.accepted = false
  checked : ∀ h, IdChecked (w.node h)

variable {hosts : List Host}

theorem exchangeInv_step {codec : Codec} (w : World) (a : Action) (w' : World)
    (inv : ExchangeInv hosts w) (clean : ChangesClean hosts w a)
    (called : step hosts codec w a = some w') : ExchangeInv hosts w' where
  fresh := by
    intro e after coming
    rcases exchanges_step called after with before | ⟨h, t, rfl, sends, rfl⟩
    · cases requestStep called e.requester with
      | keeps id broadcasts current accepted =>
        rw [broadcasts, current, accepted]
        exact inv.fresh e before (coming.trans id)
      | multicasts _ act sends id =>
        subst act
        exact absurd (coming.trans id) ((clean sends).2 e before rfl)
      | finishes _ act id =>
        subst act
        exact absurd (coming.trans id) (clean e before rfl)
      | accepts _ act takes id =>
        subst act
        exact absurd (coming.trans id) (clean takes e before rfl)
    · obtain ⟨broadcasts, current, accepted⟩ := multicast_recorded called sends
      exact ⟨broadcasts.symm, current.trans (clean sends).1, accepted⟩
  checked := idChecked_step called inv.checked

theorem acceptsCurrent_of_inv (w : World) (a : Action) (inv : ExchangeInv hosts w) :
    AcceptsCurrent hosts w a := by
  unfold AcceptsCurrent
  split
  · next h _ =>
    intro runs takes e judged
    have member : e ∈ exchanges hosts w := Net.mem_carried.mpr (.inr ⟨h, runs, judged⟩)
    have own : e.requester = h ∧ e.mcId = comingId (w.node h) := by
      have checked := inv.checked h
      unfold accepts at takes
      split at takes
      · next here =>
        simp only [exchangeHeld, here] at judged
        cases judged
        simp_all [IdChecked, comingId]
      · cases takes
    obtain ⟨rfl, coming⟩ := own
    exact inv.fresh e member coming
  · trivial

theorem exchangeInv_initial (hosts : List Host) (memAllocated : Host → Nat)
    (shares : Host → Int → ℚ) (slabStart : Host → Int) :
    ExchangeInv hosts (World.initial memAllocated shares slabStart) where
  fresh := by
    intro e under
    rcases Net.mem_carried.mp under with ⟨d, sent, _⟩ | ⟨h, _, held⟩
    · cases sent
    · cases held
  checked := fun _ => trivial

/-- **Only answers to the current request are accepted.** For any trackers and any order
of steps, deliveries and losses: if each multicast happens while its request is
outstanding, and each multicast, end of a request and acceptance happens when no message
with the sequence id in force afterwards is left over, then every `s` that is accepted
answers the latest multicast of a request that is still outstanding, and is the first
accepted for that multicast. -/
theorem accepts_current_of_clean_changes (hosts : List Host) (codec : Codec)
    (memAllocated : Host → Nat) (shares : Host → Int → ℚ) (slabStart : Host → Int)
    (run : List Action)
    (clean : Run.Along (step hosts codec) (ChangesClean hosts)
      (World.initial memAllocated shares slabStart) run) :
    Run.Along (step hosts codec) (AcceptsCurrent hosts)
      (World.initial memAllocated shares slabStart) run :=
  Run.along_of_invariant exchangeInv_step (fun w a inv _ => acceptsCurrent_of_inv w a inv)
    (exchangeInv_initial hosts memAllocated shares slabStart) clean

/-- The plain course of events: the offer is accepted, the request ends, and a second
request goes out under the next sequence id. -/
theorem accepts_current_when_undisturbed :
    Run.Along (step [1, 2] plainCodec) (AcceptsCurrent [1, 2]) freshTrackers
      (offerTaken ++ [.act 2 (.tenant 11212 .finishBroadcast),
        .act 2 (.tenant 11212 .resetRemoteSpare)] ++ List.replicate 5 (.act 2 (.send false)) ++ requestPage 2 6) :=
  accepts_current_of_clean_changes [1, 2] plainCodec _ _ _ _ (by decide +kernel)

/-- A late answer: the tenant of tracker 2 ends its request while the `s` is in flight,
which leaves the sequence id as it is, and the `s` is accepted all the same. -/
theorem answer_accepted_after_request_ended :
    ¬ Run.Along (step [1, 2] plainCodec) (AcceptsCurrent [1, 2]) freshTrackers
      (candidateOffered ++ [.act 2 (.tenant 11212 .finishBroadcast),
        .deliver ⟨1, 2, .s ((1 : ℚ) : Score) 0 1⟩] ++ receiverSteps 2 3) := by
  decide +kernel

end MemExchange.Mtc
