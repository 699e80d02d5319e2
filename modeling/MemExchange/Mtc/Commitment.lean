import MemExchange.Mtc.Moves

/-!
# One candidate, one commitment

A victim that answers an `H` holds `min_score_lock` for its candidate and sends its port to whoever
says `x`. It keeps no record of the requester the candidate was offered to. Offers are traced from
the `s` through the requester's decision and the `x` back to the victim.
-/
namespace MemExchange.Mtc

variable (hosts : List Host) (w : World) (n : Node)

/-- Since the latest lock, `p` was sent for an `x` only to the requester that was
offered the candidate under that lock. -/
def OneCommitment : Prop :=
  ∀ v ∈ hosts, ∀ r ∈ (w.node v).history.committed, (w.node v).history.offeredTo = some r

instance : DecidablePred (OneCommitment hosts) :=
  fun _ => inferInstanceAs (Decidable (∀ _ ∈ _, _))

/-! ### Offers under way -/

/-- The offer a datagram is part of: victim and requester. -/
def offerOnWire (d : Packet) : Option (Host × Host) :=
  match d.msg with
  | .s .. => some (d.src, d.dst)
  | .x => some (d.dst, d.src)
  | _ => none

/-- The offer a receiver thread is working on: a requester that decides on an `s`, or a
victim that answers an `x`. -/
def offerHeld (h : Host) (n : Node) : Option (Host × Host) :=
  match n.recv with
  | .sScores src .. | .sCompare src .. | .sLock src .. | .sAdvance src => some (src, h)
  | .sReply src true => some (src, h)
  | .xPort src | .xSend src _ => some (h, src)
  | _ => none

/-- The offers whose `s` or `x` is in flight or being handled. -/
def underWay : List (Host × Host) :=
  Net.carried offerOnWire offerHeld hosts w

/-- The receiver thread takes `min_score_lock` in its next step. -/
def acquires : Bool :=
  match n.recv with
  | .hLock .. => n.tracker.lockMinScore.1 = .taken
  | _ => false

/-- The receiver thread sends `s` to `r` in its next step. -/
def Offers (r : Host) : Prop := ∃ sc mcId b, n.recv = .hSend r sc mcId b

/-- The lock is taken only by a victim that has no offer under way. -/
def AcquiresClear : Action → Prop
  | .act v (.recv _) => acquires (w.node v) = true → ∀ o ∈ underWay hosts w, o.1 ≠ v
  | _ => True

instance : DecidablePred (AcquiresClear hosts w)
  | .act _ (.recv _) => inferInstanceAs (Decidable (_ → _))
  | .act _ (.tenant _ _) | .act _ (.send _) | .deliver _ | .lose _ => isTrue trivial

/-! ### One step -/

section Steps

variable {hosts n} {codec : Codec} {self : Host} {n' : Node} {out : List Packet}

variable {w} {o : Host × Host} {w' : World} {a : Action}

/-- An offer starts with the `s`; every other step passes an offer on or ends it. -/
theorem recvMove_offer (moved : RecvMove codec self n n' out)
    (info : offerHeld self n' = some o ∨ ∃ d ∈ out, offerOnWire d = some o) :
    offerHeld self n = some o ∨ (Offers n o.2 ∧ o.1 = self) := by
  cases moved
  case hSend here =>
    right
    simp only [offerHeld, List.mem_singleton, exists_eq_left, offerOnWire, Option.some.injEq,
      reduceCtorEq, false_or] at info
    subst info
    exact ⟨⟨_, _, _, here⟩, rfl⟩
  case sReply accept here => cases accept <;> simp_all [offerHeld, offerOnWire]
  all_goals simp_all [offerHeld, offerOnWire]

theorem act_offer {b : Local} (acted : (protocol hosts codec).act self b n = some (n', out))
    (info : offerHeld self n' = some o ∨ ∃ d ∈ out, offerOnWire d = some o) :
    offerHeld self n = some o ∨ ((∃ fits, b = .recv fits) ∧ Offers n o.2 ∧ o.1 = self) := by
  rcases act_cases acted with ⟨_, op, rfl, _, rfl, rfl⟩ | ⟨fits, rfl, moved⟩ | ⟨_, rfl, moved⟩
  · left
    simpa [offerHeld] using info
  · exact (recvMove_offer moved info).imp id fun made => ⟨⟨fits, rfl⟩, made⟩
  · left
    cases moved <;> simpa [offerHeld, offerOnWire, multicast] using info

theorem receive_offer {d : Packet} (received : receive d n = some n')
    (info : offerHeld d.dst n' = some o) : offerHeld d.dst n = some o ∨ offerOnWire d = some o := by
  obtain ⟨idle, moved⟩ := receive_move received
  right
  cases moved <;> simp_all [offerHeld, offerOnWire]

theorem underWay_step (called : step hosts codec w a = some w') {v r : Host}
    (after : (v, r) ∈ underWay hosts w') :
    (v, r) ∈ underWay hosts w ∨ ((∃ fits, a = .act v (.recv fits)) ∧ Offers (w.node v) r) := by
  rcases Net.carried_step
      (fun h b n o => (∃ fits, b = .recv fits) ∧ Offers n o.2 ∧ o.1 = h)
      (fun _ _ _ _ => receive_offer) (fun _ _ _ _ _ _ => act_offer) called after with
    still | ⟨h, b, rfl, ⟨fits, rfl⟩, offers, rfl⟩
  · exact .inl still
  · exact .inr ⟨⟨fits, rfl⟩, offers⟩

/-- What a step can do to the record of offers of host `h`, from `n` to `n'`. -/
inductive OfferStep (h : Host) (a : Action) (n n' : Node) : Prop
  | keeps (offered : n'.history.offeredTo = n.history.offeredTo)
    (committed : n'.history.committed = n.history.committed) (open_ : replying n' = true → replying n = true)
  | acquires (fits : Bool) (act : a = .act h (.recv fits)) (taken : acquires n = true)
    (offered : n'.history.offeredTo = none) (committed : n'.history.committed = [])
  | offers (fits : Bool) (act : a = .act h (.recv fits)) (r : Host) (sends : Offers n r)
    (offered : n'.history.offeredTo = some r)
    (committed : n'.history.committed = n.history.committed) (closed : replying n' = false)
  | commits (r : Host) (answers : offerHeld h n = some (h, r))
    (offered : n'.history.offeredTo = n.history.offeredTo)
    (committed : n'.history.committed = r :: n.history.committed) (closed : replying n' = false)

theorem recvMove_offerStep {fits : Bool} (moved : RecvMove codec self n n' out) :
    OfferStep self (.act self (.recv fits)) n n' := by
  cases moved
  case hTaken here candidate free =>
    have taken : acquires n = true := by simp [acquires, here, Tracker.lockMinScore, candidate, free]
    exact .acquires fits rfl taken rfl rfl
  case hSend src _ _ _ here =>
    exact .offers fits rfl src ⟨_, _, _, here⟩ rfl rfl (by simp [replying])
  case xSend src _ here =>
    exact .commits src (by simp [offerHeld, here]) rfl rfl (by simp [replying])
  all_goals exact .keeps rfl rfl (by simp_all [replying])

theorem offerStep (called : step hosts codec w a = some w') :
    ∀ h, OfferStep h a (w.node h) (w'.node h) := by
  refine Net.forall_node_step (fun h n' => OfferStep h a (w.node h) n') called ?_ ?_ ?_
  · intro h
    exact .keeps rfl rfl id
  · rintro d n' rfl _ received
    obtain ⟨idle, moved⟩ := receive_move received
    cases moved <;> exact .keeps rfl rfl (by simp_all [replying])
  · rintro h b n' out rfl acted
    rcases act_cases acted with ⟨_, op, rfl, _, rfl, rfl⟩ | ⟨fits, rfl, moved⟩ | ⟨_, rfl, moved⟩
    · refine .keeps ?_ ?_ (by simp [replying])
      all_goals
        unfold History.note
        split <;> (try split) <;> rfl
    · exact recvMove_offerStep moved
    · cases moved <;> exact .keeps rfl rfl (by simp [replying])

theorem offers_recorded {v r : Host} {fits : Bool}
    (called : step hosts codec w (.act v (.recv fits)) = some w') (offers : Offers (w.node v) r) :
    (w'.node v).history.offeredTo = some r := by
  obtain ⟨sc, mcId, b, here⟩ := offers
  simp only [step, Net.step, protocol, recvStep, here, Option.map_some] at called
  split at called
  · cases called
    simp
  · cases called

end Steps

/-! ### Whole runs -/

/-- Offers under way are the ones on record; while an answer to `H` is being prepared
nothing is on record yet; commitments went to the requester on record. -/
structure OfferInv (hosts : List Host) (w : World) : Prop where
  recorded : ∀ v r, (v, r) ∈ underWay hosts w → (w.node v).history.offeredTo = some r
  unrecorded : ∀ v, replying (w.node v) = true → (w.node v).history.offeredTo = none
  committed : OneCommitment hosts w

theorem Offers.replying {n : Node} {r : Host} (offers : Offers n r) : replying n = true := by
  obtain ⟨sc, mcId, b, here⟩ := offers
  simp [Mtc.replying, here]

theorem offerInv_step {hosts : List Host} {codec : Codec} (w : World) (a : Action) (w' : World)
    (inv : OfferInv hosts w) (clear : AcquiresClear hosts w a)
    (called : step hosts codec w a = some w') : OfferInv hosts w' where
  recorded := by
    intro v r after
    rcases underWay_step called after with before | ⟨⟨fits, rfl⟩, offers⟩
    · have onRecord := inv.recorded v r before
      cases offerStep called v with
      | keeps offered => rw [offered, onRecord]
      | acquires fits act taken =>
        subst act
        exact absurd rfl (clear taken (v, r) before)
      | offers _ _ _ sends => simp [inv.unrecorded v sends.replying] at onRecord
      | commits _ _ offered => rw [offered, onRecord]
    · exact offers_recorded called offers
  unrecorded := by
    intro v busy
    cases offerStep called v with
    | keeps offered _ open_ => rw [offered, inv.unrecorded v (open_ busy)]
    | acquires _ _ _ offered => exact offered
    | offers _ _ _ _ _ _ closed | commits _ _ _ _ closed => rw [closed] at busy; cases busy
  committed := by
    intro v runs r member
    cases offerStep called v with
    | keeps offered committed =>
      rw [committed] at member
      rw [offered, inv.committed v runs r member]
    | acquires _ _ _ _ committed => simp [committed] at member
    | offers _ _ _ sends _ committed =>
      -- nothing was committed before the offer: nothing was on record
      rw [committed] at member
      have onRecord := inv.committed v runs r member
      simp [inv.unrecorded v sends.replying] at onRecord
    | commits r' answers offered committed =>
      rw [committed, List.mem_cons] at member
      rw [offered]
      rcases member with rfl | earlier
      · exact inv.recorded v r (Net.mem_carried.mpr (.inr ⟨v, runs, answers⟩))
      · exact inv.committed v runs r earlier

theorem offerInv_initial (memAllocated : Host → Nat) (shares : Host → Int → ℚ)
    (slabStart : Host → Int) : OfferInv hosts (World.initial memAllocated shares slabStart) where
  recorded := by
    intro v r under
    rcases Net.mem_carried.mp under with ⟨d, sent, _⟩ | ⟨h, _, held⟩
    · cases sent
    · cases held
  unrecorded := fun _ _ => rfl
  committed := fun _ _ _ member => nomatch member

/-- **One candidate, one commitment.** For any trackers and any order of their steps, of
tenants' calls, of deliveries and losses: if `min_score_lock` is taken for a request only
while the tracker has no earlier offer under way, then in every state reached the ports
sent since the latest lock all went to the one requester that was offered the candidate
under it. -/
theorem one_commitment_of_clear_acquisitions (hosts : List Host) (codec : Codec)
    (memAllocated : Host → Nat) (shares : Host → Int → ℚ) (slabStart : Host → Int)
    (run : List Action)
    (clear : Run.Along (step hosts codec) (AcquiresClear hosts)
      (World.initial memAllocated shares slabStart) run) :
    Run.Always (step hosts codec) (OneCommitment hosts)
      (World.initial memAllocated shares slabStart) run :=
  Run.always_mono (fun _ inv => inv.committed)
    (Run.always_of_invariant offerInv_step (offerInv_initial hosts memAllocated shares slabStart)
      clear)

/-- The plain course of events: the `x` arrives and the port is sent. -/
theorem one_commitment_when_undisturbed :
    Run.Always (step [1, 2, 3] plainCodec) (OneCommitment [1, 2, 3]) freshTrackers
      (offerTaken ++ [.deliver ⟨2, 1, .x⟩] ++ receiverSteps 1 2) :=
  one_commitment_of_clear_acquisitions [1, 2, 3] plainCodec _ _ _ _ (by decide +kernel)

/-- A late `x`: the offer to tracker 2 times out while its `x` is in flight, the candidate
is locked again for tracker 3, and then the `x` of tracker 2 is answered. -/
theorem late_acceptance_is_answered :
    ¬ Run.Always (step [1, 2, 3] plainCodec) (OneCommitment [1, 2, 3]) freshTrackers
      (offerTaken ++ offerTimesOut 1 ++ requestPage 3 7 ++
        [.deliver ⟨3, 1, .H ((7 : ℚ) : Score) 0 1⟩] ++ receiverSteps 1 7 ++
        [.deliver ⟨2, 1, .x⟩] ++ receiverSteps 1 2) := by
  decide +kernel

end MemExchange.Mtc
