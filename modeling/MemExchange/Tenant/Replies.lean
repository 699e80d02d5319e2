import MemExchange.Mtc.Candidate
import MemExchange.Mtc.Text
import MemExchange.Tenant.Leader

/-!
# The score in a reply

The tracker process answers an `H` with the text of `min_score`, and has 64 bytes for it. A tenant
with nothing to release does report `__DBL_MAX__`, but `set_scores` withdraws that tenant, and
`compare_minID` stores the score that it is called with only if the tenant is the lowest one. So
`min_score` stays between zero and the value of the reset, and the reply always fits.
-/
namespace MemExchange.Tenant

open Mtc (InRange Replies)

def Reportable (score : Score) : Prop := score = dblMax ∨ InRange score

instance : DecidablePred Reportable := fun _ => inferInstanceAs (Decidable (_ ∨ _))

/-- The scores that tenants find, and those that are received as answers, are in their range. -/
def ReportsInRange (_ : Machine) : MachineAction → Prop
  | .tenants (.score _ f) => Reportable f.score2
  | .deliver d =>
    match d.msg with
    | .s minScore _ _ => InRange minScore
    | _ => True
  | _ => True

instance (m : Machine) (a : MachineAction) : Decidable (ReportsInRange m a) := by
  unfold ReportsInRange
  split
  · infer_instance
  · split <;> infer_instance
  · infer_instance

/-! ### What the calls do to the minimum -/

def namesMin : TrackerOp → Bool
  | .setScores .. | .compareMinID .. => true
  | _ => false

structure Calm (t t' : Tracker) : Prop where
  minId : t'.minId = t.minId ∨ t'.minId = -1
  minScore : t'.minScore = t.minScore ∨ t'.minScore = noMinScore

variable {codec : Mtc.Codec} {self : Mtc.Host} {fits : Bool} {n n' : Mtc.Node}
  {out : List Mtc.Packet} {score : Score} (t : Tracker)

theorem Calm.refl : Calm t t := ⟨.inl rfl, .inl rfl⟩

theorem calm_of_op (op : TrackerOp) (aside : namesMin op = false) : Calm t (op.apply t) := by
  by_cases scoring : op.scoring = false
  · obtain ⟨minId, -, -, -, minScore, -⟩ := op.apply_of_not_scoring t scoring
    exact ⟨.inl minId, .inl minScore⟩
  cases op <;> simp only [TrackerOp.scoring, not_true_eq_false] at scoring
  case unlockMaxScore | unlockMinScore => exact ⟨.inl rfl, .inl rfl⟩
  case setScores | compareMinID => cases aside
  case resetMinScore =>
    simp only [TrackerOp.apply, Tracker.resetMinScore]
    split
    · exact ⟨.inr rfl, .inr rfl⟩
    · exact .refl t
  all_goals exact ⟨.inl (by simp [TrackerOp.apply]), .inl (by simp [TrackerOp.apply])⟩

theorem inRange_noMinScore : InRange noMinScore := by decide

theorem Calm.inRange {t t' : Tracker} (calm : Calm t t') (range : InRange t.minScore) :
    InRange t'.minScore := by
  rcases calm.minScore with same | reset
  · rwa [same]
  · rw [reset]
    exact inRange_noMinScore

section Reports

variable (sc1 sc2 : Score) (id : Int) (t : Tracker)

/-- The lowest score after a report: what it was, the value of the reset, or a lower score that is
reported. -/
theorem setScores_minScore : (t.setScores sc1 sc2 id).minScore = t.minScore ∨
    (t.setScores sc1 sc2 id).minScore = noMinScore ∨
    (t.setScores sc1 sc2 id).minScore = sc2 ∧ sc2 ≠ dblMax := by
  unfold Tracker.setScores Tracker.offerMaxScore Tracker.dropMinOfMax Tracker.offerMinScore
    Tracker.withdrawCandidate
  have bounded : ∀ x : Score, sc2 < x → sc2 ≠ dblMax := fun _ lower top => not_top_lt (top ▸ lower)
  grind

theorem setScores_inRange (range : InRange t.minScore) (reportable : Reportable sc2) :
    InRange (t.setScores sc1 sc2 id).minScore := by
  rcases setScores_minScore sc1 sc2 id t with same | reset | ⟨lower, real⟩
  · rwa [same]
  · rw [reset]
    exact inRange_noMinScore
  · rw [lower]
    exact reportable.resolve_left real

/-- Whoever reports the largest double is not the lowest one. -/
theorem setScores_withdraws (real : id ≠ -1) : (t.setScores sc1 dblMax id).minId ≠ id := by
  have never : ¬ t.LowersMin dblMax := fun lowers => not_top_lt lowers.1
  rw [Tracker.setScores_minId]
  grind

/-- A report makes nobody else the lowest one. -/
theorem setScores_minId_other {other : Int} (apart : id ≠ other) (real : other ≠ -1)
    (lowest : (t.setScores sc1 sc2 id).minId = other) : t.minId = other := by
  rw [Tracker.setScores_minId] at lowest
  grind

theorem compareMinID_inRange (range : InRange t.minScore) (reports : id = t.minId → InRange sc2) :
    InRange (t.compareMinID id sc2).2.minScore := by
  unfold Tracker.compareMinID
  split
  · next lowest => exact reports lowest
  · exact range

end Reports

/-! ### What a tenant is going to report -/

/-- A round of `calculate_scores` has begun, and nothing is reported yet. -/
def Pc.unreported : Pc → Option Finding
  | .scores f => some f
  | _ => none

/-- The scores are reported, and `compare_minID` may be called. -/
def Pc.pending : Pc → Option Finding
  | .needed f | .remoteNeeded f | .compareMin f => some f
  | _ => none

/-- A tenant that has reported the largest double is not the lowest one. -/
structure Pc.Sound (t : Tracker) (i : Nat) (pc : Pc) : Prop where
  unreported : ∀ f, pc.unreported = some f → Reportable f.score2
  pending : ∀ f, pc.pending = some f → InRange f.score2 ∨ f.score2 = dblMax ∧ t.minId ≠ port i

theorem Pc.Sound.mono {t t' : Tracker} {i : Nat} {pc : Pc} (sound : pc.Sound t i)
    (lowest : t'.minId = port i → t.minId = port i) : pc.Sound t' i := by
  refine ⟨sound.unreported, fun f here => ?_⟩
  rcases sound.pending f here with range | ⟨largest, apart⟩
  · exact .inl range
  · exact .inr ⟨largest, fun now => apart (lowest now)⟩

theorem port_ne (i : Nat) : port i ≠ -1 := by
  unfold port
  omega

theorem Calm.sound {t t' : Tracker} (calm : Calm t t') {i : Nat} {pc : Pc} (sound : pc.Sound t i) :
    pc.Sound t' i := by
  refine sound.mono fun lowest => ?_
  rcases calm.minId with same | gone
  · rw [← same, lowest]
  · exact absurd (lowest.symm.trans gone) (port_ne i)

def Event.Calm (t : Tracker) : Event → Prop
  | .call op => Tenant.Calm t (op.apply t)
  | _ => True

theorem Event.Calm.apply {w : World} {e : Event} (calm : e.Calm w.tracker) :
    Tenant.Calm w.tracker (w.apply e).tracker := by
  cases e with
  | none => exact .refl _
  | call op => exact calm
  | attach k =>
    simp only [World.apply]
    split <;> exact .refl _

/-- What a step of tenant `i` means for the minimum. -/
inductive MinTurn (i : Nat) (t : Tracker) (n n' : State) : Event → Prop
  | reports {f} (here : n.pc = .scores f) (done : n'.pc.unreported = none)
    (now : ∀ g, n'.pc.pending = some g → g = f) :
    MinTurn i t n n' (.call (.setScores f.score1 f.score2 (port i)))
  | compares {f} (here : n.pc = .compareMin f) (done : n'.pc.unreported = none)
    (now : n'.pc.pending = none) : MinTurn i t n n' (.call (.compareMinID (port i) f.score2))
  | aside {e} (calm : e.Calm t) (done : n'.pc.unreported = none)
    (kept : ∀ f, n'.pc.pending = some f → n.pc.pending = some f) : MinTurn i t n n' e

section Steps

variable {t} {i : Nat} {c : Choice} {n n' : State} {e : Event}

theorem MinTurn.still {pc : Pc} {rts : Rts} {pages : Int} {aborted : Bool} (calm : e.Calm t)
    (done : pc.unreported = none) (now : pc.pending = none) :
    MinTurn i t n { pc, rts, pagesToRequest := pages, aborted } e :=
  .aside calm done fun f pending => by
    simp [show pc.pending = some f from pending] at now

theorem next_minTurn (acted : next i c t n = some (e, n')) : MinTurn i t n n' e := by
  obtain ⟨pc, rts, pages, aborted⟩ := n
  cases pc with
  | idle => cases acted
  | scores =>
    cases acted
    refine .reports rfl (by dsimp only; split <;> rfl) fun g pending => ?_
    dsimp only at pending
    split at pending <;> cases pending
    rfl
  | needed | remoteNeeded =>
    cases acted
    refine .aside trivial ?_ fun g pending => ?_ <;> dsimp only [asVictim] at *
    · (repeat' split) <;> rfl
    · (repeat' split at pending) <;> first | exact pending | cases pending
  | compareMin =>
    cases acted
    exact .compares rfl (by dsimp only; split <;> rfl) (by dsimp only; split <;> rfl)
  | lock r =>
    cases acted
    refine .still (calm_of_op _ _ rfl) ?_ ?_ <;> (split <;> [(cases r <;> rfl); rfl])
  | lockMax => cases acted; split <;> exact .still (calm_of_op _ _ rfl) rfl rfl
  | connect => cases acted; exact .still (by split <;> [exact calm_of_op _ _ rfl; trivial]) rfl rfl
  | received => cases acted; split <;> exact .still trivial rfl rfl
  | attachPage conn => cases conn <;> cases acted; exact .still trivial rfl rfl
  | _ =>
    cases acted
    refine .still ?_ (by (repeat' split) <;> rfl) (by (repeat' split) <;> rfl)
    first
      | trivial
      | exact calm_of_op _ _ rfl

end Steps

/-! ### What the tracker process is going to report -/

/-- The score in an `s` that is being handled -/
def answer : Mtc.RecvPc → Option Score
  | .sScores _ minScore _ _ | .sCompare _ minScore _ _ => some minScore
  | _ => none

section

variable (acted : Mtc.recvStep codec self fits n = some (n', out))
include acted

/-- What a step of the receiver thread means for the minimum. -/
theorem recvStep_min : (∃ sc1 sc2 src, n'.tracker = n.tracker.setScores sc1 sc2 (Mtc.senderId src) ∧
      (sc2 = dblMax ∨ answer n.recv = some sc2)) ∨
    (∃ sc2 src, n'.tracker = (n.tracker.compareMinID (Mtc.senderId src) sc2).2 ∧
      answer n.recv = some sc2) ∨
    Calm n.tracker n'.tracker := by
  have changed := recvStep_tracker acted
  cases here : n.recv <;> rw [here] at changed
  case hScores src score mcId b => exact .inl ⟨score, dblMax, src, changed, .inl rfl⟩
  case sScores src minScore mcId b => exact .inl ⟨_, minScore, src, changed, .inr rfl⟩
  case sCompare src minScore mcId b => exact .inr (.inl ⟨minScore, src, changed, rfl⟩)
  all_goals
    refine .inr (.inr ?_)
    rw [changed]
    dsimp only [recvCall, Option.elim]
    first
      | exact .refl _
      | exact calm_of_op _ _ rfl

/-- An `s` that is being handled is the one that was received. -/
theorem recvStep_answer (now : answer n'.recv = some score) : answer n.recv = some score := by
  cases here : n.recv <;> simp only [Mtc.recvStep, here] at acted
  case idle => cases acted
  case sScores => cases acted; exact now
  case hLock => split at acted <;> cases acted <;> simp [answer] at now
  case sLock | pClient => split at acted <;> cases acted <;> cases now
  case pListen => split at acted <;> cases acted <;> simp [answer, here] at now
  all_goals
    cases acted
    first
      | cases now
      | (dsimp only at now; split at now <;> cases now)

end

theorem receive_answer {d : Mtc.Packet} (received : Mtc.receive d n = some n')
    (now : answer n'.recv = some score) :
    answer n.recv = some score ∨ ∃ mcId b, d.msg = .s score mcId b := by
  obtain ⟨idle, ⟨⟩⟩ := Option.ite_none_right_eq_some.mp received
  split at now
  case h_1 => split at now <;> simp [answer, idle] at now
  case h_2 minScore mcId b sent =>
    split at now
    · cases now
    · cases now
      exact .inr ⟨mcId, b, sent⟩
  all_goals cases now

theorem sendStep_min (hosts : List Mtc.Host) (codec : Mtc.Codec) (self : Mtc.Host) (timedOut : Bool)
    (n : Mtc.Node) : Calm n.tracker (Mtc.sendStep hosts codec self timedOut n).1.tracker ∧
      (Mtc.sendStep hosts codec self timedOut n).1.recv = n.recv := by
  unfold Mtc.sendStep
  split <;> exact ⟨⟨.inl rfl, .inl rfl⟩, rfl⟩

/-! ### The lowest score stays in its range -/

structure Machine.Ranged (tenants : List Nat) (m : Machine) : Prop where
  minScore : InRange m.world.tracker.minScore
  tenant : ∀ i ∈ tenants, (m.world.tenant i).pc.Sound m.world.tracker i
  answer : ∀ score, answer m.process.recv = some score → InRange score

section Ranged

variable {tenants : List Nat} {m : Machine} {w : World} {i : Nat} {n : State}

section

variable (ranged : m.Ranged tenants)
include ranged

theorem Machine.Ranged.moved (holds : Nat → Bool) (minScore : InRange w.tracker.minScore)
    (others : ∀ j, j ≠ i → w.tracker.minId = port j → m.world.tracker.minId = port j)
    (tenant : w.tenant = m.world.tenant) (mover : n.pc.Sound w.tracker i) :
    (m.withWorld (w.setTenant i n) holds).Ranged tenants := by
  refine ⟨minScore, fun j own => ?_, ranged.answer⟩
  show (Function.update w.tenant i n j).pc.Sound w.tracker j
  by_cases same : j = i
  · rwa [same, Function.update_self]
  · rw [Function.update_of_ne same, tenant]
    exact (ranged.tenant j own).mono (others j same)

theorem Machine.Ranged.run (mem : i ∈ tenants) {c : Choice} {e : Event}
    (acted : next i c m.world.tracker (m.world.tenant i) = some (e, n)) (holds : Nat → Bool) :
    (m.withWorld ((m.world.apply e).setTenant i n) holds).Ranged tenants := by
  have sound := ranged.tenant i mem
  cases next_minTurn acted with
  | @reports f here done now =>
    have reportable : Reportable f.score2 := sound.unreported f (by rw [here]; rfl)
    refine ranged.moved holds (setScores_inRange _ _ _ _ ranged.minScore reportable)
      (fun j other => setScores_minId_other _ _ _ _ (fun same => other (port_injective same).symm)
        (port_ne j)) rfl ⟨fun g unreported => ?_, fun g pending => ?_⟩
    · simp [done] at unreported
    · rw [now g pending]
      rcases reportable with largest | range
      · refine .inr ⟨largest, ?_⟩
        show (m.world.tracker.setScores f.score1 f.score2 (port i)).minId ≠ port i
        rw [largest]
        exact setScores_withdraws _ _ _ (port_ne i)
      · exact .inl range
  | @compares f here done now =>
    refine ranged.moved holds (compareMinID_inRange _ _ _ ranged.minScore fun lowest => ?_)
      (fun j _ same => by simpa [World.apply, TrackerOp.apply] using same) rfl ⟨fun g unreported => ?_, fun g pending => ?_⟩
    · rcases sound.pending f (by rw [here]; rfl) with range | ⟨-, apart⟩
      · exact range
      · exact absurd lowest.symm apart
    · simp [done] at unreported
    · simp [now] at pending
  | aside calm done kept =>
    have still := calm.apply
    refine ranged.moved holds (still.inRange ranged.minScore) (fun j _ lowest => ?_)
      (m.world.apply_tenant e) (still.sound ⟨fun g unreported => ?_, fun g pending => ?_⟩)
    · rcases still.minId with same | gone
      · rw [← same, lowest]
      · exact absurd (lowest.symm.trans gone) (port_ne j)
    · simp [done] at unreported
    · exact sound.pending g (kept g pending)

theorem Machine.Ranged.tenantsStep {a : Action} (called : Tenant.step tenants m.world a = some w)
    (own : ∀ op, a ≠ .tracker op) (reported : ReportsInRange m (.tenants a)) (holds : Nat → Bool) :
    (m.withWorld w holds).Ranged tenants := by
  cases a with
  | score i f =>
    obtain ⟨-, ⟨⟩⟩ := Option.ite_none_right_eq_some.mp called
    refine ranged.moved holds ranged.minScore (fun _ _ same => same) rfl
      ⟨fun g unreported => ?_, fun g pending => by cases pending⟩
    cases unreported
    exact reported
  | run i c =>
    obtain ⟨mem, called⟩ := Option.ite_none_right_eq_some.mp called
    obtain ⟨⟨e, n⟩, acted, rfl⟩ := Option.map_eq_some_iff.mp called
    exact ranged.run mem acted holds
  | abort i =>
    obtain ⟨⟨mem, -⟩, ⟨⟩⟩ := Option.ite_none_right_eq_some.mp called
    exact ranged.moved holds ranged.minScore (fun _ _ same => same) rfl (ranged.tenant i mem)
  | copyMr k =>
    obtain ⟨-, ⟨⟩⟩ := Option.ite_none_right_eq_some.mp called
    exact ⟨ranged.minScore, ranged.tenant, ranged.answer⟩
  | receiveMr k =>
    obtain ⟨r, -, rfl⟩ := Option.map_eq_some_iff.mp called
    have calm := calm_of_op m.world.tracker (.receiveRemoteMem k (1024 * 1024) r.2) rfl
    exact ⟨calm.inRange ranged.minScore, fun i mem => calm.sound (ranged.tenant i mem), ranged.answer⟩
  | tracker op => exact absurd rfl (own op)

end

/-- A step of the tracker process that leaves the minimum alone -/
theorem Machine.Ranged.process (ranged : m.Ranged tenants) {n : Mtc.Node}
    (calm : Calm m.process.tracker n.tracker)
    (answered : ∀ score, Tenant.answer n.recv = some score → InRange score) :
    (m.withProcess n).Ranged tenants := by
  rw [m.shared] at calm
  exact ⟨calm.inRange ranged.minScore, fun i mem => calm.sound (ranged.tenant i mem), answered⟩

/-- Ports of tenants are less than the ids of trackers. -/
def Ports (tenants : List Nat) : Prop := ∀ i ∈ tenants, port i < remoteIdBase

instance : DecidablePred Ports := fun tenants => inferInstanceAs (Decidable (∀ i ∈ tenants, _))

theorem Machine.ranged_step {hosts : List Mtc.Host}
    (ports : Ports tenants) (m : Machine) (a : MachineAction) (m' : Machine)
    (ranged : m.Ranged tenants) (reported : ReportsInRange m a)
    (called : m.step tenants hosts codec self a = some m') : m'.Ranged tenants := by
  cases a with
  | tenants a =>
    simp only [Machine.step] at called
    split at called
    · cases called
    · next own =>
      obtain ⟨w, stepped, rfl⟩ := Option.map_eq_some_iff.mp called
      exact ranged.tenantsStep stepped own reported _
  | refused i =>
    simp only [Machine.step] at called
    split at called
    · obtain ⟨-, ⟨⟩⟩ := Option.ite_none_right_eq_some.mp called
      have calm := calm_of_op m.world.tracker .lockMaxScore rfl
      refine ranged.moved _ (calm.inRange ranged.minScore) (fun j _ lowest => ?_) rfl
        ⟨fun _ unreported => (by cases unreported), fun _ pending => (by cases pending)⟩
      rcases calm.minId with same | gone
      · rwa [← same]
      · exact absurd (lowest.symm.trans gone) (port_ne j)
    · cases called
  | deliver d =>
    obtain ⟨n, received, rfl⟩ := Option.map_eq_some_iff.mp called
    refine ranged.process ?_ fun score now => ?_
    · rw [receive_tracker received]
      exact .refl _
    · rcases receive_answer received now with before | ⟨mcId, b, sent⟩
      · exact ranged.answer score before
      · simp only [ReportsInRange, sent] at reported
        exact reported
  | recv fits =>
    obtain ⟨⟨n, out⟩, acted, rfl⟩ := Option.map_eq_some_iff.mp called
    have answered : ∀ score, answer n.recv = some score → InRange score := fun score now =>
      ranged.answer score (recvStep_answer acted now)
    rcases recvStep_min acted with ⟨sc1, sc2, src, now, reports⟩ | ⟨sc2, src, now, compares⟩ | calm
    · have reportable : Reportable sc2 := reports.imp id (ranged.answer sc2)
      rw [m.shared] at now
      refine ⟨?_, fun i mem => (ranged.tenant i mem).mono fun lowest => ?_, answered⟩
      · show InRange n.tracker.minScore
        rw [now]
        exact setScores_inRange _ _ _ _ ranged.minScore reportable
      · have remote := Mtc.senderId_remote src
        have near := ports i mem
        refine setScores_minId_other sc1 sc2 (Mtc.senderId src) _ (by omega) (port_ne i) ?_
        rwa [← now]
    · rw [m.shared] at now
      refine ⟨?_, fun i mem => (ranged.tenant i mem).mono fun lowest => ?_, answered⟩
      · show InRange n.tracker.minScore
        rw [now]
        exact compareMinID_inRange _ _ _ ranged.minScore fun _ => ranged.answer sc2 compares
      · simpa [Machine.withProcess, now] using lowest
    · exact ranged.process calm answered
  | send timedOut =>
    cases called
    obtain ⟨calm, same⟩ := sendStep_min hosts codec self timedOut m.process
    refine ranged.process calm ?_
    rw [same]
    exact ranged.answer

theorem Machine.ranged_initial (tenants : List Nat) (memAllocated : Nat) (shares : Int → ℚ)
    (slabStart : Int) : (Machine.initial memAllocated shares slabStart).Ranged tenants :=
  ⟨inRange_noMinScore, fun _ _ => ⟨fun _ none => (nomatch none), fun _ none => (nomatch none)⟩,
    fun _ none => (nomatch none)⟩

end Ranged

/-- In every run in which the scores that are reported are in their range, whoever reports them and
whenever an `H` is answered, the reply fits, and is read as it was meant. -/
theorem replies_fit_and_round_trip (tenants : List Nat) (ports : Ports tenants)
    (hosts : List Mtc.Host) (codec : Mtc.Codec) (self : Mtc.Host) (memAllocated : Nat)
    (shares : Int → ℚ) (slabStart : Int) (run : List MachineAction)
    (reported : Run.Along (Machine.step tenants hosts codec self) ReportsInRange
      (.initial memAllocated shares slabStart) run) :
    Run.Always (Machine.step tenants hosts codec self) (fun m => Replies m.world.tracker.minScore)
      (.initial memAllocated shares slabStart) run :=
  Run.always_mono (fun _ ranged => Mtc.replies_of_inRange ranged.minScore)
    (Run.always_of_invariant (Machine.ranged_step ports)
      (Machine.ranged_initial tenants memAllocated shares slabStart) reported)

/-- Tenant 0 asks for a page, and tenant 1 becomes the lowest one with score 1. Then tenant 2 reports
that it has nothing to release. -/
def lowestReports : List MachineAction :=
  (victorAsks ++ victimDecides ++ [Action.score 2
    { score1 := ((0 : ℚ) : Score), score2 := dblMax, release := .nothing, request := 0 }] ++
      steps 2 true 3).map .tenants

/-- The reply to a request with sequence id 3 is `s3,1.00000,5000000` after it. -/
theorem lowest_score_replied :
    Run.Along (Machine.step [0, 1, 2] [1, 2] Mtc.plainCodec 1) ReportsInRange freshMachine lowestReports ∧
      (Run.exec (Machine.step [0, 1, 2] [1, 2] Mtc.plainCodec 1) freshMachine lowestReports).map
          (fun m => (m.world.tracker.minId, m.world.tracker.minScore)) = some (11213, ((1 : ℚ) : Score)) ∧
      Mtc.buildReply '3' ((1 : ℚ) : Score) 5000000 = some "s3,1.00000,5000000\n".toList ∧
      Run.Always (Machine.step [0, 1, 2] [1, 2] Mtc.plainCodec 1)
        (fun m => Replies m.world.tracker.minScore) freshMachine lowestReports :=
  ⟨by decide +kernel, by decide +kernel, by decide +kernel,
    replies_fit_and_round_trip [0, 1, 2] (by decide) [1, 2] Mtc.plainCodec 1 _ _ _ _ (by decide +kernel)⟩

end MemExchange.Tenant
