import MemExchange.Mtc.Moves
import MemExchange.Tracker.Frozen

/-!
# A tracker offers its own tenants

`min_id` names the tenant with the lowest score, local or remote, and is -1 after a withdrawal or a
reset. `victim_potential` is meant to say that the candidate is local. It does as long as a remote
score does not take over a local candidate, no candidate is withdrawn under its lock, and the lock
is held from the answer to `H` until the answer to `x`.
-/
namespace MemExchange

namespace Tracker

/-- The candidate, if there is one, is a local tenant. -/
def LocalCandidate (t : Tracker) : Prop := t.minId = -1 ∨ Mtc.IsPort t.minId

variable (sc1 : Score) (sc2 : Score) (t : Tracker)

/-- Either the report leaves the candidate in place or removes it, or it undercuts the
candidate and takes over. -/
theorem setScores_candidate (id : Int) (t : Tracker) :
    (((t.setScores sc1 sc2 id).minId = t.minId ∨ (t.setScores sc1 sc2 id).minId = -1) ∧
      ((t.setScores sc1 sc2 id).victimPotential = true → t.victimPotential = true)) ∨
    (sc2 < t.minScore ∧ t.minScoreLock = false ∧
      ((t.setScores sc1 sc2 id).minId = id ∨ (t.setScores sc1 sc2 id).minId = -1) ∧
      (t.setScores sc1 sc2 id).victimPotential =
        if id < remoteIdBase then true else t.victimPotential) := by
  -- nothing is lower than DBL_MAX, so a withdrawal is not followed by an offer
  have bounded : ∀ x : Score, sc2 < x → sc2 ≠ dblMax := fun _ lower top => not_top_lt (top ▸ lower)
  unfold setScores offerMaxScore dropMinOfMax offerMinScore withdrawCandidate
  grind

/-- A change of the tracker that brings in no remote candidate and none under the lock. -/
structure Steady (t t' : Tracker) : Prop where
  candidate : (t'.minId = t.minId ∧ (t'.victimPotential = true → t.victimPotential = true)) ∨
    t'.LocalCandidate
  locked : t'.minScoreLock = true → t.minScoreLock = true ∧ t'.minId = t.minId

theorem Steady.refl : Steady t t := ⟨.inl ⟨rfl, id⟩, fun locked => ⟨locked, rfl⟩⟩

theorem Steady.localCandidate {t t' : Tracker} (steady : Steady t t') (before : t.LocalCandidate) :
    t'.LocalCandidate := by
  rcases steady.candidate with ⟨same, _⟩ | after
  · rwa [LocalCandidate, same]
  · exact after

/-- A report by a local tenant, or of `__DBL_MAX__` by anyone. -/
def Harmless : TrackerOp → Prop
  | .setScores _ sc2 id => Mtc.IsPort id ∨ sc2 = dblMax
  | _ => True

theorem setScores_harmless (id : Int) (t : Tracker) (harmless : Mtc.IsPort id ∨ sc2 = dblMax) :
    ((t.setScores sc1 sc2 id).minId = t.minId ∧
      ((t.setScores sc1 sc2 id).victimPotential = true → t.victimPotential = true)) ∨
    (t.setScores sc1 sc2 id).LocalCandidate := by
  rcases setScores_candidate sc1 sc2 id t with ⟨same | gone, potential⟩ | ⟨lower, _, taken, _⟩
  · exact .inl ⟨same, potential⟩
  · exact .inr (.inl gone)
  · rcases harmless with port | rfl
    · rcases taken with taken | gone
      · exact .inr (.inr (by rwa [taken]))
      · exact .inr (.inl gone)
    · exact absurd lower not_top_lt

theorem steady_apply (op : TrackerOp) (other : op ≠ .lockMinScore) (harmless : Harmless op)
    (stays : ¬ WithdrawsLocked t op) : Steady t (op.apply t) where
  candidate := by
    by_cases scoring : op.scoring = false
    · obtain ⟨same, _, _, _, _, _, potential⟩ := op.apply_of_not_scoring t scoring
      exact .inl ⟨same, by rw [potential]; exact id⟩
    · cases op <;> simp only [TrackerOp.scoring, not_true_eq_false] at scoring
      case setScores sc1 sc2 id => exact setScores_harmless sc1 sc2 id t harmless
      case lockMinScore => exact absurd rfl other
      case resetMinScore =>
        simp only [TrackerOp.apply, resetMinScore]
        split
        · exact .inr (.inl rfl)
        · exact .inl ⟨rfl, id⟩
      all_goals exact .inl ⟨by simp [TrackerOp.apply, unlockMaxScore, unlockMinScore],
        by simp [TrackerOp.apply, unlockMaxScore, unlockMinScore]⟩
  locked := by
    intro after
    by_cases before : t.minScoreLock = true
    · exact ⟨before, minId_kept t op before stays⟩
    · exact absurd (minScoreLock_set t op (by simpa using before) after).1 other

end Tracker

namespace Mtc

open Tracker

variable (h : Host) (w : World)

/-- Ids made of the digits of an address are remote. -/
theorem senderId_remote : remoteIdBase ≤ senderId h := by
  have digits : 1 ≤ (Nat.toDigits 10 h).length := Nat.length_toDigits_pos
  have power : 10 ^ 1 ≤ 10 ^ (Nat.toDigits 10 h).length := Nat.pow_le_pow_right (by decide) digits
  have power : (10 : Int) ≤ 10 ^ (Nat.toDigits 10 h).length := by exact_mod_cast power
  unfold senderId remoteIdBase
  omega

theorem not_isPort_senderId : ¬ IsPort (senderId h) := by
  intro port
  have remote := senderId_remote h
  have low := port.2
  omega

/-- What `recv_msg` offers is a local tenant: at an `s` the candidate is one, and a `p`
that answers an `x` carries the port of one. -/
def OffersLocal : Action → Prop
  | .act h (.recv _) =>
    match (w.node h).recv with
    | .hSend .. => IsPort (w.node h).tracker.minId
    | .xSend _ port => IsPort port
    | _ => True
  | _ => True

/-- `victim_potential` means that the candidate, if there is one, is a local tenant. -/
def PotentialLocal : Prop :=
  ∀ h, (w.node h).tracker.victimPotential = true → (w.node h).tracker.LocalCandidate

/-- No remote score takes over a local candidate, no locked candidate is withdrawn, an `x`
is answered under the lock, and the lock is not released between `H` and `s`. -/
def KeepsCandidate : Action → Prop
  | .act h (.tenant _ op) => ¬ WithdrawsLocked (w.node h).tracker op ∧
      (op = .unlockMinScore → replying (w.node h) = false)
  | .act h (.send _) => (w.node h).send = .tUnlock → replying (w.node h) = false
  | .act h (.recv _) =>
    match (w.node h).recv with
    | .sScores _ minScore _ _ => ¬ ((w.node h).tracker.victimPotential = true ∧
        (w.node h).tracker.minScoreLock = false ∧ minScore < (w.node h).tracker.minScore)
    | .xPort _ => (w.node h).tracker.minScoreLock = true
    | _ => True
  | _ => True

instance : DecidablePred (OffersLocal w) := fun action => by
  delta OffersLocal
  rcases action with _ | _ | ⟨h, _ | _ | _⟩ <;> try infer_instance
  dsimp only
  rcases (w.node h).recv with _ | _ <;> infer_instance

instance : DecidablePred (KeepsCandidate w) := fun action => by
  delta KeepsCandidate
  rcases action with _ | _ | ⟨h, _ | _ | _⟩ <;> try infer_instance
  dsimp only
  rcases (w.node h).recv with _ | _ <;> infer_instance

/-! ### One step -/

/-- The receiver thread has seen `victim_potential` and has not yet taken the lock. -/
def seeking (n : Node) : Bool :=
  match n.recv with
  | .hCompare .. | .hLock .. => true
  | _ => false

structure CandidateInv (n : Node) : Prop where
  potential : n.tracker.victimPotential = true → n.tracker.LocalCandidate
  locked : n.tracker.minScoreLock = true → IsPort n.tracker.minId
  sought : seeking n = true → n.tracker.LocalCandidate
  replied : replying n = true → n.tracker.minScoreLock = true
  read : ∀ src port, n.recv = .xSend src port → IsPort port

section Steps

variable {hosts : List Host} {codec : Codec} {self : Host} {n n' : Node} {out : List Packet}

/-- A steady change of the tracker keeps what the invariant says of it; what remains is
what the threads know. -/
theorem CandidateInv.steady (inv : CandidateInv n) (change : Steady n.tracker n'.tracker)
    (sought : seeking n' = true → seeking n = true ∨ n'.tracker.LocalCandidate)
    (replied : replying n' = true → n'.tracker.minScoreLock = true)
    (read : ∀ src port, n'.recv = .xSend src port → IsPort port) : CandidateInv n' where
  potential := by
    intro potential
    rcases change.candidate with ⟨same, before⟩ | after
    · rw [LocalCandidate, same]
      exact inv.potential (before potential)
    · exact after
  locked := by
    intro locked
    obtain ⟨before, same⟩ := change.locked locked
    rw [same]
    exact inv.locked before
  sought := by
    intro seeks
    rcases sought seeks with before | after
    · exact change.localCandidate (inv.sought before)
    · exact after
  replied := replied
  read := read

theorem steady_call (t : Tracker) (op : TrackerOp) (other : op ≠ .lockMinScore)
    (silent : ∀ sc1 sc2 id, op ≠ .setScores sc1 sc2 id) : Steady t (op.apply t) := by
  refine steady_apply t op other ?_ ?_
  · cases op <;> first | trivial | exact absurd rfl (silent _ _ _)
  · cases op <;> first | exact id | exact absurd rfl (silent _ _ _)

theorem steady_request (inv : CandidateInv n) (score : Score) (src : Host) :
    Steady n.tracker (n.tracker.setScores score dblMax (senderId src)) := by
  refine steady_apply n.tracker (.setScores score dblMax (senderId src)) (by simp) (.inr rfl) ?_
  rintro ⟨locked, _, same⟩
  exact not_isPort_senderId src (same ▸ inv.locked locked)

theorem CandidateInv.judge {src : Host} {minScore : Score} {mcId b : Nat} (inv : CandidateInv n)
    (keeps : ¬ (n.tracker.victimPotential = true ∧ n.tracker.minScoreLock = false ∧
      minScore < n.tracker.minScore)) : CandidateInv { n with
      tracker := n.tracker.setScores ((-2147483648 : ℚ) : Score) minScore (senderId src)
      recv := .sCompare src minScore mcId b } where
  potential := by
    intro potential
    rcases setScores_candidate ((-2147483648 : ℚ) : Score) minScore (senderId src) n.tracker with
      ⟨same | gone, before⟩ | ⟨lower, free, _, after⟩
    · rw [LocalCandidate, same]
      exact inv.potential (before potential)
    · exact .inl gone
    · rw [after, if_neg (not_lt.mpr (senderId_remote src))] at potential
      exact absurd ⟨potential, free, lower⟩ keeps
  locked := by
    intro locked
    rw [setScores_minScoreLock] at locked
    have port := inv.locked locked
    rw [setScores_minId_of_locked _ _ _ _ locked, if_neg]
    · exact port
    · rintro ⟨_, same⟩
      exact not_isPort_senderId src (same ▸ port)
  sought := by simp [seeking]
  replied := by simp [replying]
  read := by simp

theorem recvMove_candidate (moved : RecvMove codec self n n' out) (inv : CandidateInv n)
    (keeps : match n.recv with
      | .sScores _ minScore _ _ => ¬ (n.tracker.victimPotential = true ∧
          n.tracker.minScoreLock = false ∧ minScore < n.tracker.minScore)
      | .xPort _ => n.tracker.minScoreLock = true
      | _ => True) : CandidateInv n' := by
  cases moved
  case hScores src score _ _ here =>
    exact inv.steady (steady_request inv score src) (by simp [seeking]) (by simp [replying]) (by simp)
  case hCandidates here some =>
    exact inv.steady (.refl _) (fun _ => .inr (inv.potential some)) (by simp [replying]) (by simp)
  case hHigher here =>
    refine inv.steady (steady_call _ (.compareMaxID _ _) (by simp) (by simp)) ?_ (by simp [replying])
      (by simp)
    exact fun _ => .inl (by simp [seeking, here])
  case hTaken here candidate free =>
    have isLocal : n.tracker.LocalCandidate := inv.sought (by simp [seeking, here])
    exact ⟨inv.potential, fun _ => isLocal.resolve_left candidate, by simp [seeking], fun _ => rfl,
      by simp⟩
  case hBlocked here => exact inv
  case hReply here =>
    exact inv.steady (.refl _) (by simp [seeking])
      (fun _ => inv.replied (by simp [replying, here])) (by simp)
  case sScores here =>
    rw [here] at keeps
    exact inv.judge keeps
  case pPoll here => exact inv
  case xPort here =>
    rw [here] at keeps
    refine inv.steady (.refl _) (by simp [seeking]) (by simp [replying]) ?_
    rintro _ _ ⟨rfl, rfl⟩
    exact inv.locked keeps
  case hLower | bLower | bHigher | sNotLowest | sLowest | pInfo | pUnlock | rUnlock | pReset | bUnlock =>
    refine inv.steady ?_ (by simp [seeking]) (by simp [replying]) (by simp)
    first
      | exact steady_call _ (.compareMaxID ..) (by simp) (by simp)
      | exact steady_call _ (.compareMinID ..) (by simp) (by simp)
      | exact steady_call _ (.setRdmaServerInfo ..) (by simp) (by simp)
      | exact steady_call _ .unlockMinScore (by simp) (by simp)
      | exact steady_call _ .resetMinScore (by simp) (by simp)
      | exact steady_call _ .unlockMaxScore (by simp) (by simp)
  all_goals
    exact inv.steady ⟨.inl ⟨rfl, id⟩, fun locked => ⟨locked, rfl⟩⟩ (by simp [seeking])
      (by simp [replying]) (by simp)

theorem receive_candidate {d : Packet} (received : receive d n = some n') (inv : CandidateInv n) :
    CandidateInv n' := by
  cases (receive_move received).2
  case ignored => exact inv
  all_goals
    exact inv.steady (.refl _) (by simp [seeking]) (by simp [replying]) (by simp)

theorem tenant_candidate {op : TrackerOp} (own : tenantCalls op = true) (inv : CandidateInv n)
    (stays : ¬ WithdrawsLocked n.tracker op) (unlocks : op = .unlockMinScore → replying n = false) :
    CandidateInv { n with
      tracker := op.apply n.tracker, history := n.history.note n.tracker op } := by
  have other : op ≠ .lockMinScore := by rintro rfl; cases own
  have harmless : Harmless op := by
    cases op <;> first | trivial | exact .inl (of_decide_eq_true own)
  refine inv.steady (steady_apply n.tracker op other harmless stays) .inl ?_ inv.read
  intro busy
  refine minScoreLock_kept n.tracker op (inv.replied busy) ?_
  intro unlock
  rw [show replying n = true from busy] at unlocks
  cases unlocks unlock

theorem sendMove_candidate (moved : SendMove hosts codec self n n' out) (inv : CandidateInv n)
    (unlocks : n.send = .tUnlock → replying n = false) : CandidateInv n' := by
  cases moved
  case tUnlock here =>
    refine inv.steady (steady_call _ .unlockMinScore (by simp) (by simp)) .inl ?_ inv.read
    intro busy
    rw [show replying n = true from busy] at unlocks
    cases unlocks here
  all_goals
    exact inv.steady ⟨.inl ⟨rfl, id⟩, fun locked => ⟨locked, rfl⟩⟩ .inl inv.replied inv.read

end Steps

/-! ### Whole runs -/

theorem candidateInv_step {hosts : List Host} {codec : Codec} (w : World) (a : Action) (w' : World)
    (inv : ∀ h, CandidateInv (w.node h)) (keeps : KeepsCandidate w a)
    (called : step hosts codec w a = some w') : ∀ h, CandidateInv (w'.node h) := by
  refine Net.forall_node_step (fun _ => CandidateInv) called inv ?_ ?_
  · rintro d n' rfl _ received
    exact receive_candidate received (inv d.dst)
  · rintro h b n' out rfl acted
    rcases act_cases acted with ⟨_, op, rfl, own, _, rfl⟩ | ⟨_, rfl, moved⟩ | ⟨_, rfl, moved⟩
    · exact tenant_candidate own (inv h) keeps.1 keeps.2
    · exact recvMove_candidate moved (inv h) keeps
    · exact sendMove_candidate moved (inv h) keeps

theorem offersLocal_of_inv (a : Action) (inv : ∀ h, CandidateInv (w.node h)) : OffersLocal w a := by
  unfold OffersLocal
  split
  · next h _ =>
    split
    · next here => exact (inv h).locked ((inv h).replied (by simp [replying, here]))
    · next here => exact (inv h).read _ _ here
    · trivial
  · trivial

theorem candidateInv_initial (memAllocated : Nat) (shares : Int → ℚ) (slabStart : Int) :
    CandidateInv (Node.initial memAllocated shares slabStart) where
  potential := fun potential => nomatch potential
  locked := fun locked => nomatch locked
  sought := fun seeks => nomatch seeks
  replied := fun busy => nomatch busy
  read := fun _ _ here => nomatch here

/-- **A tracker offers its own tenants.** For any trackers and any order of steps,
deliveries and losses: if no remote score takes over while `victim_potential` is set, no
candidate is withdrawn under its lock, every `x` is answered while the lock is held, and
the lock is not released between an `H` and its `s`, then every `s` and every `p` that
answers an `x` is sent for a local tenant, and `victim_potential` means in every state
that the candidate is local or there is none. -/
theorem offers_local_of_kept_candidate (hosts : List Host) (codec : Codec)
    (memAllocated : Host → Nat) (shares : Host → Int → ℚ) (slabStart : Host → Int)
    (run : List Action)
    (keeps : Run.Along (step hosts codec) KeepsCandidate
      (World.initial memAllocated shares slabStart) run) :
    Run.Along (step hosts codec) OffersLocal (World.initial memAllocated shares slabStart) run ∧
    Run.Always (step hosts codec) PotentialLocal
      (World.initial memAllocated shares slabStart) run := by
  have start : ∀ h, CandidateInv ((World.initial memAllocated shares slabStart).node h) :=
    fun h => candidateInv_initial (memAllocated h) (shares h) (slabStart h)
  constructor
  · exact Run.along_of_invariant candidateInv_step (fun w a inv _ => offersLocal_of_inv w a inv)
      start keeps
  · exact Run.always_mono (fun _ inv h => (inv h).potential)
      (Run.always_of_invariant candidateInv_step start keeps)

/-- The plain course of events, up to the port of the candidate being sent. -/
theorem offers_local_when_undisturbed :
    Run.Along (step [1, 2, 3] plainCodec) OffersLocal freshTrackers
      (offerTaken ++ [.deliver ⟨2, 1, .x⟩] ++ receiverSteps 1 2) ∧
    Run.Always (step [1, 2, 3] plainCodec) PotentialLocal freshTrackers
      (offerTaken ++ [.deliver ⟨2, 1, .x⟩] ++ receiverSteps 1 2) :=
  offers_local_of_kept_candidate [1, 2, 3] plainCodec _ _ _ _ (by decide +kernel)

/-- Tracker 2 has a candidate of its own with score 4 when the `s` of tracker 1 takes over
with score 1; then tracker 3 asks for a page and tracker 2 answers. -/
def remoteTakesOver : List Action :=
  candidateOffered ++
    [.act 2 (.tenant 11213 (.setScores ((0 : ℚ) : Score) ((4 : ℚ) : Score) 11213)),
      .deliver ⟨1, 2, .s ((1 : ℚ) : Score) 0 1⟩] ++ receiverSteps 2 5 ++
    requestPage 3 7 ++ [.deliver ⟨3, 2, .H ((7 : ℚ) : Score) 0 1⟩] ++ receiverSteps 2 6

/-- A remote candidate is offered on: the `s` to tracker 3 is sent with tracker 1's id in
`min_id`. -/
theorem remote_candidate_offered :
    ¬ (Run.Along (step [1, 2, 3] plainCodec) OffersLocal freshTrackers remoteTakesOver ∧
      Run.Always (step [1, 2, 3] plainCodec) PotentialLocal freshTrackers remoteTakesOver) := by
  rintro ⟨offers, _⟩
  revert offers
  decide +kernel

end Mtc

end MemExchange
