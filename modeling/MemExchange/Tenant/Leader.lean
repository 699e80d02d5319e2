import MemExchange.Tenant.Phase
import MemExchange.Tracker.Extremes
import MemExchange.Mtc.Node

/-!
# The victor and the highest score

A tenant becomes the victor with three calls: `compare_maxID`, `req_spare` and `lock_max_score`. The
lock keeps `max_id` as it is, and in between somebody may report a higher score, a tenant of this
host or, with an `H`, one of another host. The tracker process, told with a `B` that the highest
tenant of another host is done, compares the ids and unlocks with a second call; whoever has taken
the lock in between loses it. Datagrams come from anywhere and with any content.
-/
namespace MemExchange.Tenant

open Function (update_of_ne update_self update)

/-- The tenants and the tracker process of a host. `holds` is kept beside the program: who has taken
`max_score_lock` and has not called `unlock_max_score` since. -/
structure Machine where
  world : World
  process : Mtc.Node
  shared : process.tracker = world.tracker
  holds : Nat → Bool

inductive MachineAction
  | tenants (a : Action)
  /-- The victor's `do_slabs_reassign` is refused, as another move is on. -/
  | refused (i : Nat)
  | deliver (d : Mtc.Packet)
  | recv (fits : Bool)
  | send (timedOut : Bool)

namespace Machine

def initial (memAllocated : Nat) (shares : Int → ℚ) (slabStart : Int) : Machine where
  world := .initial memAllocated shares slabStart
  process := .initial memAllocated shares slabStart
  shared := rfl
  holds := fun _ => false

def withWorld (m : Machine) (w : World) (holds : Nat → Bool) : Machine where
  world := w
  process := { m.process with tracker := w.tracker }
  shared := rfl
  holds := holds

def withProcess (m : Machine) (n : Mtc.Node) : Machine where
  world := { m.world with tracker := n.tracker }
  process := n
  shared := rfl
  holds := m.holds

/-- Who holds the lock after a step of the tenants. -/
def holdsAfter (m : Machine) : Action → Nat → Bool
  | .run i _ =>
    match (m.world.tenant i).pc with
    | .lockMax _ =>
      if m.world.tracker.lockMaxScore.1 then update m.holds i true else m.holds
    | .endMax => update m.holds i false
    | _ => m.holds
  | _ => m.holds

section Step

variable (tenants : List Nat) (hosts : List Mtc.Host) (codec : Mtc.Codec) (self : Mtc.Host)

def step (m : Machine) : MachineAction → Option Machine
  | .tenants a =>
    match a with
    -- the calls of the tracker process are those of its threads
    | .tracker _ => none
    | a => (Tenant.step tenants m.world a).map fun w => m.withWorld w (m.holdsAfter a)
  | .refused i =>
    match (m.world.tenant i).pc with
    | .lockMax pages =>
      if i ∈ tenants ∧ m.world.tracker.lockMaxScore.1 then
        some (m.withWorld
          ((m.world.apply (.call .lockMaxScore)).setTenant i
            { m.world.tenant i with pagesToRequest := pages, rts := .tryToBroadcast, pc := .idle })
          (update m.holds i true))
      else none
    | _ => none
  | .deliver d => (Mtc.receive d m.process).map m.withProcess
  | .recv fits => (Mtc.recvStep codec self fits m.process).map fun r => m.withProcess r.1
  | .send timedOut => some (m.withProcess (Mtc.sendStep hosts codec self timedOut m.process).1)

end Step

end Machine

/-- The tenant is the highest one, so that it is told of a remote page, and a region that arrives is
added to its share. -/
structure Leads (t : Tracker) (i : Nat) : Prop where
  highest : t.maxId = port i
  server : t.rServerAvailable (port i) = t.remoteServerReady
  share : (t.maxId - 11212).tmod 4 = shareIndex i

theorem leads_of_highest {t : Tracker} {i : Nat} (highest : t.maxId = port i) : Leads t i where
  highest := highest
  server := if_pos highest
  share := by
    have offset : port i - 11212 = (i : Int) := by
      unfold port
      omega
    rw [highest, offset, Int.tmod_eq_emod_of_nonneg (by omega)]
    rfl

instance (t : Tracker) (i : Nat) : Decidable (Leads t i) :=
  decidable_of_iff (t.maxId = port i) ⟨leads_of_highest, Leads.highest⟩

def VictorLeads (tenants : List Nat) (m : Machine) : Prop :=
  ∀ i ∈ tenants, m.holds i = true → Leads m.world.tracker i

instance (tenants : List Nat) : DecidablePred (VictorLeads tenants) :=
  fun _ => inferInstanceAs (Decidable (∀ i ∈ tenants, _))

/-- The tenant has been told that it is the highest, and has not called `lock_max_score` yet. -/
def Pc.decided : Pc → Bool
  | .reqSpare _ | .lockMax _ => true
  | _ => false

/-- The score that is reported with the next call, and the id it is reported under -/
def Machine.report (m : Machine) : MachineAction → Option (Score × Int)
  | .tenants (.run i _) =>
    match (m.world.tenant i).pc with
    | .scores f => some (f.score1, port i)
    | _ => none
  | .recv _ =>
    match m.process.recv with
    | .hScores src score _ _ => some (score, Mtc.senderId src)
    | .sScores src _ _ _ => some (((-2147483648 : ℚ) : Score), Mtc.senderId src)
    | _ => none
  | _ => none

/-- The next call is the `unlock_max_score` for a `B`. -/
def Machine.unlocks (m : Machine) : MachineAction → Bool
  | .recv _ => m.process.recv = .bUnlock
  | _ => false

/-- Nobody else reports a new maximum while a tenant is about to take the lock, and a `B` does not
release the lock from then on until the tenant does. -/
def Steady (tenants : List Nat) (m : Machine) (a : MachineAction) : Prop :=
  (∀ r ∈ m.report a, m.world.tracker.RaisesMax r.1 →
    ∀ i ∈ tenants, (m.world.tenant i).pc.decided = true → r.2 = port i) ∧
  (m.unlocks a = true →
    ∀ i ∈ tenants, (m.world.tenant i).pc.decided = false ∧ m.holds i = false)

instance (tenants : List Nat) (m : Machine) (a : MachineAction) : Decidable (Steady tenants m a) :=
  inferInstanceAs (Decidable ((∀ r ∈ m.report a, _) ∧ (_ → ∀ i ∈ tenants, _)))

/-! ### What the calls do to the maximum -/

structure SameMax (t t' : Tracker) : Prop where
  maxId : t'.maxId = t.maxId
  lock : t'.maxScoreLock = t.maxScoreLock

variable {codec : Mtc.Codec} {self : Mtc.Host} {n n' : Mtc.Node} {out : List Mtc.Packet}
  (t : Tracker)

theorem SameMax.refl : SameMax t t := ⟨rfl, rfl⟩

/-- The calls that may change the highest tenant or its lock -/
def movesMax : TrackerOp → Bool
  | .setScores .. | .lockMaxScore | .unlockMaxScore => true
  | _ => false

theorem sameMax_of_op (op : TrackerOp) (aside : movesMax op = false) : SameMax t (op.apply t) := by
  by_cases scoring : op.scoring = false
  · obtain ⟨-, maxId, -, lock, -⟩ := op.apply_of_not_scoring t scoring
    exact ⟨maxId, lock⟩
  cases op <;> simp only [TrackerOp.scoring, not_true_eq_false] at scoring
  case unlockMinScore => exact ⟨rfl, rfl⟩
  case setScores | lockMaxScore | unlockMaxScore => cases aside
  all_goals exact ⟨by simp [TrackerOp.apply], by simp [TrackerOp.apply]⟩

def Event.SameMax (t : Tracker) : Event → Prop
  | .call op => Tenant.SameMax t (op.apply t)
  | _ => True

theorem Event.SameMax.apply {w : World} {e : Event} (same : e.SameMax w.tracker) :
    Tenant.SameMax w.tracker (w.apply e).tracker := by
  cases e with
  | none => exact .refl _
  | call op => exact same
  | attach k =>
    simp only [World.apply]
    split <;> exact .refl _

/-- What a step of tenant `i` means for the maximum. -/
inductive Turn (i : Nat) (t : Tracker) (n n' : State) : Event → Prop
  | reports {f} (here : n.pc = .scores f) (undecided : n'.pc.decided = false)
    (outside : n'.pc.phase = .outside) :
    Turn i t n n' (.call (.setScores f.score1 f.score2 (port i)))
  | wins {pages} (here : n.pc = .lockMax pages) (free : t.maxScoreLock = false)
    (now : n'.pc = .waiting) : Turn i t n n' (.call .lockMaxScore)
  | resigns (here : n.pc = .endMax) (now : n'.pc = .idle) : Turn i t n n' (.call .unlockMaxScore)
  | aside {e} (same : e.SameMax t) (stays : n.pc ≠ .endMax)
    (fails : ∀ pages, n.pc = .lockMax pages → t.lockMaxScore.1 = false)
    (reigns : n'.pc.phase.reigns = n.pc.phase.reigns)
    (decides : n'.pc.decided = true → n.pc.decided = true ∨ t.maxId = port i) : Turn i t n n' e

section Steps

variable {t} {i : Nat} {c : Choice} {n n' : State} {e : Event}

theorem Turn.still {pc pc' : Pc} {rts : Rts} {pages : Int} {aborted : Bool} (here : n.pc = pc)
    (same : e.SameMax t) (stays : pc ≠ .endMax) (undecided : pc.decided = false)
    (reigns : pc'.phase.reigns = pc.phase.reigns) (still : pc'.decided = false) :
    Turn i t n { pc := pc', rts := rts, pagesToRequest := pages, aborted := aborted } e := by
  refine .aside same (by rwa [here]) (fun pages locks => ?_) (by rw [here]; exact reigns)
    (fun decided => ?_)
  · rw [← here, locks] at undecided
    cases undecided
  · simp [still] at decided

theorem asVictim_undecided (n : State) (f : Finding) : (asVictim n f).decided = false := by
  unfold asVictim
  split <;> rfl

theorem next_turn (acted : next i c t n = some (e, n')) : Turn i t n n' e := by
  obtain ⟨pc, rts, pages, aborted⟩ := n
  cases pc with
  | idle => cases acted
  | scores =>
    cases acted
    exact .reports rfl (by dsimp only; split <;> rfl) (by dsimp only; split <;> rfl)
  | needed | remoteNeeded =>
    cases acted
    refine .still rfl trivial (by simp) rfl ?_ ?_
    · split <;> [rw [asVictim_phase]; skip] <;> rfl
    · split <;> [exact asVictim_undecided ..; rfl]
  | lock r =>
    cases acted
    refine .still rfl (sameMax_of_op _ _ rfl) (by simp) rfl ?_ ?_ <;>
      (split <;> [(cases r <;> rfl); rfl])
  | compareMax =>
    cases acted
    refine .aside (sameMax_of_op _ _ rfl) (by simp) (by simp) (by dsimp only; split <;> rfl)
      fun decided => .inr ?_
    -- the counter of somebody else is not told
    dsimp only at decided
    split at decided
    · next first =>
      by_contra other
      simp [Tracker.compareMaxID, Ne.symm other] at first
    · cases decided
  | reqSpare =>
    cases acted
    exact .aside (sameMax_of_op _ _ rfl) (by simp) (by simp) (by dsimp only; split <;> rfl)
      fun _ => .inl rfl
  | lockMax =>
    cases acted
    by_cases free : t.maxScoreLock = false
    · have takes : t.lockMaxScore.1 = true := by simp [Tracker.lockMaxScore, free]
      rw [if_pos takes]
      exact .wins rfl free rfl
    · have fails : t.lockMaxScore = (false, t) := by simp [Tracker.lockMaxScore, free]
      rw [fails, if_neg (by simp)]
      refine .aside ?_ (by simp) (fun _ _ => by rw [fails]) rfl (by simp [Pc.decided])
      show SameMax t t.lockMaxScore.2
      rw [fails]
      exact .refl t
  | connect =>
    cases acted
    exact .still rfl (by split <;> [exact sameMax_of_op _ _ rfl; trivial]) (by simp) rfl rfl rfl
  | endMax => cases acted; exact .resigns rfl rfl
  | received => cases acted; split <;> exact .still rfl trivial (by simp) rfl rfl rfl
  | attachPage conn => cases conn <;> cases acted; exact .still rfl trivial (by simp) rfl rfl rfl
  | _ =>
    cases acted
    refine .still rfl ?_ (by simp) rfl (by (repeat' split) <;> rfl) (by (repeat' split) <;> rfl)
    first
      | trivial
      | exact sameMax_of_op _ _ rfl

end Steps

def recvCall : Mtc.RecvPc → Option TrackerOp
  | .hScores src score _ _ => some (.setScores score dblMax (Mtc.senderId src))
  | .hCompare src score _ _ => some (.compareMaxID (Mtc.senderId src) score)
  | .hLock .. => some .lockMinScore
  | .sScores src minScore _ _ =>
    some (.setScores ((-2147483648 : ℚ) : Score) minScore (Mtc.senderId src))
  | .sCompare src minScore _ _ => some (.compareMinID (Mtc.senderId src) minScore)
  | .sLock .. => some .lockSpare
  | .pInfo src port => some (.setRdmaServerInfo src port)
  | .pUnlock | .rUnlock => some .unlockMinScore
  | .pReset => some .resetMinScore
  | .bCompare src score => some (.compareMaxID (Mtc.senderId src) score)
  | .bUnlock => some .unlockMaxScore
  | _ => none

theorem recvStep_tracker {fits : Bool} (acted : Mtc.recvStep codec self fits n = some (n', out)) :
    n'.tracker = (recvCall n.recv).elim n.tracker (·.apply n.tracker) := by
  cases here : n.recv <;> simp only [Mtc.recvStep, here] at acted
  case idle => cases acted
  case hLock src mcId b | sLock src mcId b =>
    split at acted <;> rename_i called <;> cases acted <;> exact (congrArg Prod.snd called).symm
  case pClient src | pListen src => split at acted <;> (cases acted; rfl)
  all_goals
    cases acted
    rfl

theorem recvStep_max {fits : Bool} (acted : Mtc.recvStep codec self fits n = some (n', out)) :
    (∃ src score mcId b, n.recv = .hScores src score mcId b ∧
      n'.tracker = n.tracker.setScores score dblMax (Mtc.senderId src)) ∨
    (∃ src minScore mcId b, n.recv = .sScores src minScore mcId b ∧
      n'.tracker = n.tracker.setScores ((-2147483648 : ℚ) : Score) minScore (Mtc.senderId src)) ∨
    (n.recv = .bUnlock ∧ n'.tracker = n.tracker.unlockMaxScore) ∨
    (n.recv ≠ .bUnlock ∧ SameMax n.tracker n'.tracker) := by
  have changed := recvStep_tracker acted
  cases here : n.recv <;> rw [here] at changed
  case hScores src score mcId b => exact .inl ⟨src, score, mcId, b, rfl, changed⟩
  case sScores src minScore mcId b => exact .inr (.inl ⟨src, minScore, mcId, b, rfl, changed⟩)
  case bUnlock => exact .inr (.inr (.inl ⟨rfl, changed⟩))
  all_goals
    refine .inr (.inr (.inr ⟨by simp, ?_⟩))
    rw [changed]
    dsimp only [recvCall, Option.elim]
    first
      | exact .refl _
      | exact sameMax_of_op _ _ rfl

theorem sendStep_max (hosts : List Mtc.Host) (codec : Mtc.Codec) (self : Mtc.Host) (timedOut : Bool)
    (n : Mtc.Node) : SameMax n.tracker (Mtc.sendStep hosts codec self timedOut n).1.tracker := by
  unfold Mtc.sendStep
  split <;> exact ⟨rfl, rfl⟩

theorem receive_tracker {d : Mtc.Packet} (received : Mtc.receive d n = some n') :
    n'.tracker = n.tracker := by
  obtain ⟨-, ⟨⟩⟩ := Option.ite_none_right_eq_some.mp received
  split <;> (try split) <;> rfl

/-! ### The machine and the tenants around one tracker -/

/-- The victor is not refused, and the tracker process unlocks no victor: what `Tenant.step` has. -/
def Machine.Plain (m : Machine) (a : MachineAction) : Prop :=
  m.unlocks a = false ∧ ∀ i, a ≠ .refused i

section World

variable {tenants : List Nat} {hosts : List Mtc.Host} {m m' : Machine}

/-- A call of the tracker process is one of `trackerCalls`, which the ledger does not see. -/
theorem Machine.process_world (op : Option TrackerOp) (own : ∀ o ∈ op, trackerCalls o = true)
    (after : n.tracker = op.elim m.process.tracker (·.apply m.process.tracker)) :
    ∃ as, Run.exec (Tenant.step tenants) m.world as = some (m.withProcess n).world := by
  rw [m.shared] at after
  cases op with
  | none => exact ⟨[], by simp [withProcess, after]⟩
  | some op =>
    have unseen : m.world.ledger.observe op = m.world.ledger :=
      observe_of_quietCall op (by cases op <;> first | rfl | cases own _ rfl) _
    exact ⟨[.tracker op], by simp [Tenant.step, own op rfl, withProcess, after, unseen]⟩

theorem Machine.step_world {a : MachineAction} (plain : m.Plain a)
    (called : m.step tenants hosts codec self a = some m') :
    ∃ as, Run.exec (Tenant.step tenants) m.world as = some m'.world := by
  cases a with
  | tenants a =>
    simp only [step] at called
    split at called
    · cases called
    · obtain ⟨w, stepped, rfl⟩ := Option.map_eq_some_iff.mp called
      exact ⟨[a], by simp [stepped, withWorld]⟩
  | refused i => exact absurd rfl (plain.2 i)
  | deliver d =>
    obtain ⟨n, received, rfl⟩ := Option.map_eq_some_iff.mp called
    exact process_world none (by simp) (receive_tracker received)
  | recv fits =>
    obtain ⟨⟨n, out⟩, acted, rfl⟩ := Option.map_eq_some_iff.mp called
    refine process_world (recvCall m.process.recv) ?_ (recvStep_tracker acted)
    have locked := plain.1
    cases here : m.process.recv <;> simp_all [recvCall, trackerCalls, unlocks]
  | send timedOut =>
    cases called
    unfold Mtc.sendStep
    split
    case h_2 => exact process_world (some .stopRDMABroadcast) (by simp [trackerCalls]) rfl
    case h_7 => exact process_world (some .stopRDMAFinishBroadcast) (by simp [trackerCalls]) rfl
    case h_11 => exact process_world (some .unlockMinScore) (by simp [trackerCalls]) rfl
    all_goals exact process_world none (by simp) rfl

/-- What holds of all runs of the tenants around one tracker holds of the machine. -/
theorem Machine.run_world {run : List MachineAction}
    (plain : Run.Along (step tenants hosts codec self) Plain m run)
    (reached : Run.exec (step tenants hosts codec self) m run = some m') :
    ∃ as, Run.exec (Tenant.step tenants) m.world as = some m'.world := by
  induction run generalizing m with
  | nil =>
    cases reached
    exact ⟨[], rfl⟩
  | cons a run ih =>
    obtain ⟨m₁, called, onward⟩ := Option.bind_eq_some_iff.mp reached
    obtain ⟨as, first⟩ := step_world plain.1 called
    obtain ⟨bs, second⟩ := ih (plain.2 m₁ called) onward
    exact ⟨as ++ bs, by rw [Run.exec_append, first]; exact second⟩

end World

/-! ### Who may take the lock -/

/-- The tenants that have decided are the highest, and so are those that hold the lock. -/
structure Secure (tenants : List Nat) (t : Tracker) (decided holds : Nat → Bool) : Prop where
  holder : ∀ i ∈ tenants, holds i = true → t.maxScoreLock = true ∧ t.maxId = port i
  decided : ∀ i ∈ tenants, decided i = true → t.maxId = port i

section Secure

variable {t} {tenants : List Nat} {t' : Tracker} {decided decided' holds : Nat → Bool}

theorem port_injective {i j : Nat} (same : port i = port j) : i = j := by
  unfold port at same
  omega

theorem Secure.same (secure : Secure tenants t decided holds) (same : SameMax t t')
    (decides : ∀ i ∈ tenants, decided' i = true → decided i = true ∨ t.maxId = port i) :
    Secure tenants t' decided' holds := by
  refine ⟨fun i mem held => ?_, fun i mem now => ?_⟩
  · rw [same.lock, same.maxId]
    exact secure.holder i mem held
  · rw [same.maxId]
    rcases decides i mem now with before | highest
    · exact secure.decided i mem before
    · exact highest

variable (secure : Secure tenants t decided holds)
include secure

/-- A report that does not take the maximum from a tenant that is about to lock it -/
theorem Secure.report {sc1 : Score} (sc2 : Score) {id : Int}
    (steady : t.RaisesMax sc1 → ∀ i ∈ tenants, decided i = true → id = port i)
    (decides : ∀ i ∈ tenants, decided' i = true → decided i = true) :
    Secure tenants (t.setScores sc1 sc2 id) decided' holds := by
  refine ⟨fun i mem held => ?_, fun i mem now => ?_⟩
  · obtain ⟨locked, highest⟩ := secure.holder i mem held
    rw [Tracker.setScores_maxScoreLock, Tracker.setScores_maxId_of_locked _ _ _ _ locked]
    exact ⟨locked, highest⟩
  · rw [Tracker.setScores_maxId]
    split
    · next raises => exact steady raises i mem (decides i mem now)
    · exact secure.decided i mem (decides i mem now)

/-- The tenant that takes the lock is the highest, and it is the only one that had decided. -/
theorem Secure.win {i : Nat} (mem : i ∈ tenants) (deciding : decided i = true)
    (free : t.maxScoreLock = false)
    (decides : ∀ j ∈ tenants, decided' j = true → decided j = true) :
    Secure tenants t.lockMaxScore.2 decided' (update holds i true) := by
  rw [Tracker.lockMaxScore_snd]
  refine ⟨fun j own held => ⟨rfl, ?_⟩, fun j own now => secure.decided j own (decides j own now)⟩
  by_cases other : j = i
  · rw [other]
    exact secure.decided i mem deciding
  · rw [update_of_ne other] at held
    have locked := (secure.holder j own held).1
    simp [free] at locked

/-- When the lock is released no other tenant holds it, and nobody is about to take it. -/
theorem Secure.resign {i : Nat} (mem : i ∈ tenants) (held : holds i = true)
    (before : decided i = false) (decides : ∀ j ∈ tenants, decided' j = true → decided j = true) :
    Secure tenants t.unlockMaxScore decided' (update holds i false) := by
  have highest := (secure.holder i mem held).2
  have only : ∀ j, t.maxId = port j → j = i := fun j same =>
    port_injective (same.symm.trans highest)
  refine ⟨fun j own holding => ?_, fun j own now => ?_⟩
  · by_cases other : j = i
    · simp [other, update_self] at holding
    · rw [update_of_ne other] at holding
      exact absurd (only j (secure.holder j own holding).2) other
  · have here := only j (secure.decided j own (decides j own now))
    rw [here] at own
    have := decides i own (here ▸ now)
    simp [before] at this

end Secure

structure Machine.Inv (tenants : List Nat) (m : Machine) : Prop where
  secure : Secure tenants m.world.tracker (fun i => (m.world.tenant i).pc.decided) m.holds
  reigns : ∀ i ∈ tenants, (m.world.phase i).reigns = true → m.holds i = true

section Invariant

variable {tenants : List Nat} {m : Machine}

/-- A step of the tracker process leaves the tenants as they are. -/
theorem Machine.Inv.process (inv : m.Inv tenants)
    (secure : Secure tenants n.tracker (fun i => (m.world.tenant i).pc.decided) m.holds) :
    (m.withProcess n).Inv tenants := ⟨secure, inv.reigns⟩

/-- The tenants other than `i` are where they were. -/
theorem decided_setTenant (w : World) (e : Event) (i : Nat) (n : State) (j : Nat) :
    (((w.apply e).setTenant i n).tenant j).pc.decided
      = if j = i then n.pc.decided else (w.tenant j).pc.decided := by
  unfold World.setTenant
  by_cases same : j = i
  · subst same
    simp
  · simp [same]

variable {e : Event} {i : Nat} {n : State} {w : World}

section

variable (inv : m.Inv tenants)
include inv

/-- A step of tenant `i`: what it says of the lock and of who has decided, and whether the tenant
reigns afterwards. -/
theorem Machine.Inv.moved {holds : Nat → Bool}
    (secure : Secure tenants (m.world.apply e).tracker
      (fun j => if j = i then n.pc.decided else (m.world.tenant j).pc.decided) holds)
    (others : ∀ j, j ≠ i → holds j = m.holds j)
    (mover : i ∈ tenants → n.pc.phase.reigns = true → holds i = true) :
    (m.withWorld ((m.world.apply e).setTenant i n) holds).Inv tenants := by
  constructor
  · show Secure tenants (m.world.apply e).tracker
      (fun j => (((m.world.apply e).setTenant i n).tenant j).pc.decided) holds
    simp only [decided_setTenant]
    exact secure
  · show ∀ j ∈ tenants, (((m.world.apply e).setTenant i n).phase j).reigns = true → holds j = true
    intro j own reigning
    rw [World.phase_move] at reigning
    split at reigning
    · next here =>
      rw [here] at own ⊢
      exact mover own reigning
    · next other =>
      rw [others j other]
      exact inv.reigns j own reigning

theorem Machine.Inv.run (mem : i ∈ tenants) {c : Choice}
    (acted : next i c m.world.tracker (m.world.tenant i) = some (e, n))
    (steady : Steady tenants m (.tenants (.run i c))) :
    (m.withWorld ((m.world.apply e).setTenant i n) (m.holdsAfter (.run i c))).Inv tenants := by
  -- a tenant decides only if it is told so
  have before : n.pc.decided = false → ∀ j ∈ tenants,
      (if j = i then n.pc.decided else (m.world.tenant j).pc.decided) = true →
        (m.world.tenant j).pc.decided = true := by
    intro undecided j _ now
    split at now
    · simp [undecided] at now
    · exact now
  cases next_turn acted with
  | @reports f here undecided outside =>
    have unheld : m.holdsAfter (.run i c) = m.holds := by simp only [Machine.holdsAfter, here]
    rw [unheld]
    refine inv.moved (inv.secure.report f.score2 (fun raises j own decided => ?_) (before undecided))
      (fun _ _ => rfl) fun _ reigning => ?_
    · exact steady.1 (f.score1, port i) (by simp [Machine.report, here]) raises j own decided
    · rw [outside] at reigning
      cases reigning
  | @wins pages here free now =>
    have takes : m.world.tracker.lockMaxScore.1 = true := by simp [Tracker.lockMaxScore, free]
    have held : m.holdsAfter (.run i c) = update m.holds i true := by
      simp only [Machine.holdsAfter, here, takes, if_true]
    rw [held]
    exact inv.moved
      (inv.secure.win mem (by simp [here, Pc.decided]) free (before (by rw [now]; rfl)))
      (fun j other => update_of_ne other ..) fun _ _ => update_self ..
  | resigns here now =>
    have held : m.holdsAfter (.run i c) = update m.holds i false := by
      simp only [Machine.holdsAfter, here]
    rw [held]
    have reigned : m.holds i = true := inv.reigns i mem (by rw [World.phase, here]; rfl)
    refine inv.moved
      (inv.secure.resign mem reigned (by simp [here, Pc.decided]) (before (by rw [now]; rfl)))
      (fun j other => update_of_ne other ..) fun _ reigning => ?_
    rw [now] at reigning
    cases reigning
  | aside same stays fails reigns decides =>
    have unheld : m.holdsAfter (.run i c) = m.holds := by
      simp only [Machine.holdsAfter]
      split
      · next pages here => rw [fails pages here, if_neg (by simp)]
      · next here => exact absurd here stays
      · rfl
    rw [unheld]
    refine inv.moved (inv.secure.same same.apply fun j own now => ?_) (fun _ _ => rfl)
      fun own reigning => inv.reigns i own (reigns ▸ reigning)
    split at now
    · next here =>
      rw [here]
      exact decides now
    · exact .inl now

theorem Machine.Inv.rest (same : SameMax m.world.tracker w.tracker)
    (decided : ∀ j, (w.tenant j).pc.decided = true → (m.world.tenant j).pc.decided = true)
    (phases : w.phase = m.world.phase) : (m.withWorld w m.holds).Inv tenants := by
  refine ⟨inv.secure.same same fun j _ now => .inl (decided j now), fun j own reigning => ?_⟩
  rw [show (m.withWorld w m.holds).world.phase j = m.world.phase j from congrFun phases j] at reigning
  exact inv.reigns j own reigning

theorem Machine.Inv.tenantsStep {a : Action} (called : Tenant.step tenants m.world a = some w)
    (own : ∀ op, a ≠ .tracker op) (steady : Steady tenants m (.tenants a)) :
    (m.withWorld w (m.holdsAfter a)).Inv tenants := by
  cases a with
  | score i f =>
    obtain ⟨⟨-, idle⟩, ⟨⟩⟩ := Option.ite_none_right_eq_some.mp called
    refine inv.rest (.refl _) (fun j now => ?_) (phase_setTenant_of_eq _ _ _ (by rw [idle]; rfl))
    by_cases here : j = i <;> simp_all [World.setTenant, Pc.decided]
  | run i c =>
    obtain ⟨mem, called⟩ := Option.ite_none_right_eq_some.mp called
    obtain ⟨⟨e, n⟩, acted, rfl⟩ := Option.map_eq_some_iff.mp called
    exact inv.run mem acted steady
  | abort i =>
    obtain ⟨-, ⟨⟩⟩ := Option.ite_none_right_eq_some.mp called
    refine inv.rest (.refl _) (fun j now => ?_) (phase_setTenant_of_eq _ _ _ rfl)
    by_cases here : j = i <;> simp_all [World.setTenant]
  | copyMr k =>
    obtain ⟨-, ⟨⟩⟩ := Option.ite_none_right_eq_some.mp called
    exact inv.rest (.refl _) (fun _ now => now) rfl
  | receiveMr k =>
    obtain ⟨r, -, rfl⟩ := Option.map_eq_some_iff.mp called
    exact inv.rest (sameMax_of_op _ (.receiveRemoteMem ..) rfl) (fun _ now => now) rfl
  | tracker op => exact absurd rfl (own op)

end

/-- A steady step leaves the lock with the tenant that took it. -/
theorem Machine.inv_step {hosts : List Mtc.Host} (m : Machine)
    (a : MachineAction) (m' : Machine) (inv : m.Inv tenants) (steady : Steady tenants m a)
    (called : m.step tenants hosts codec self a = some m') : m'.Inv tenants := by
  cases a with
  | tenants a =>
    simp only [Machine.step] at called
    split at called
    · cases called
    · next own =>
      obtain ⟨w, stepped, rfl⟩ := Option.map_eq_some_iff.mp called
      exact inv.tenantsStep stepped own steady
  | refused i =>
    simp only [Machine.step] at called
    split at called
    · next pages here =>
      obtain ⟨⟨mem, takes⟩, ⟨⟩⟩ := Option.ite_none_right_eq_some.mp called
      have free : m.world.tracker.maxScoreLock = false := by
        by_contra held
        simp [Tracker.lockMaxScore, held] at takes
      refine inv.moved (inv.secure.win mem (by simp [here, Pc.decided]) free fun j _ now => ?_)
        (fun j other => update_of_ne other ..) fun _ _ => update_self ..
      split at now
      · cases now
      · exact now
    · cases called
  | deliver d =>
    obtain ⟨n, received, rfl⟩ := Option.map_eq_some_iff.mp called
    refine inv.process ?_
    rw [receive_tracker received, m.shared]
    exact inv.secure
  | recv fits =>
    obtain ⟨⟨n, out⟩, acted, rfl⟩ := Option.map_eq_some_iff.mp called
    refine inv.process ?_
    rcases recvStep_max acted with ⟨src, score, mcId, b, here, now⟩ | ⟨src, minScore, mcId, b, here, now⟩ |
      ⟨here, now⟩ | ⟨-, same⟩
    · rw [now, m.shared]
      exact inv.secure.report _ (steady.1 (score, Mtc.senderId src) (by simp [Machine.report, here]))
        fun _ _ now => now
    · rw [now, m.shared]
      exact inv.secure.report _ (steady.1 (_, Mtc.senderId src) (by simp [Machine.report, here]; rfl))
        fun _ _ now => now
    · -- nobody is there who could be the highest
      have nobody := steady.2 (by simp [Machine.unlocks, here])
      refine ⟨fun i mem held => ?_, fun i mem decided => ?_⟩
      · simp [(nobody i mem).2] at held
      · simp [(nobody i mem).1] at decided
    · rw [m.shared] at same
      exact inv.secure.same same fun _ _ now => .inl now
  | send timedOut =>
    cases called
    refine inv.process (inv.secure.same ?_ fun _ _ now => .inl now)
    have same := sendStep_max hosts codec self timedOut m.process
    rwa [m.shared] at same

theorem Machine.inv_initial (tenants : List Nat) (memAllocated : Nat) (shares : Int → ℚ)
    (slabStart : Int) : (Machine.initial memAllocated shares slabStart).Inv tenants :=
  ⟨⟨fun _ _ held => (nomatch held), fun _ _ decided => (nomatch decided)⟩,
    fun _ _ reigning => (nomatch reigning)⟩

end Invariant

/-- In every run in which nobody takes the maximum from a tenant that is about to lock it, and no
`B` releases the lock of a tenant, the tenant that holds the lock is the highest until it calls
`unlock_max_score`. -/
theorem victor_leads_until_unlock (tenants : List Nat) (hosts : List Mtc.Host) (codec : Mtc.Codec)
    (self : Mtc.Host) (memAllocated : Nat) (shares : Int → ℚ) (slabStart : Int)
    (run : List MachineAction)
    (steady : Run.Along (Machine.step tenants hosts codec self) (Steady tenants)
      (.initial memAllocated shares slabStart) run) :
    Run.Always (Machine.step tenants hosts codec self) (VictorLeads tenants)
      (.initial memAllocated shares slabStart) run :=
  Run.always_mono (fun _ inv i mem held => leads_of_highest (inv.secure.holder i mem held).2)
    (Run.always_of_invariant Machine.inv_step
      (Machine.inv_initial tenants memAllocated shares slabStart) steady)

def freshMachine : Machine := .initial (64 * 1024 * 1024) (fun _ => 1 / 4) 0

/-- Tenant 0 becomes victor, and asks for a remote page. -/
theorem lone_victor_leads :
    Run.Along (Machine.step [0, 1] [1, 2] Mtc.plainCodec 1) (Steady [0, 1]) freshMachine
        ((victorAsks ++ steps 0 false 5).map .tenants) ∧
      (Run.exec (Machine.step [0, 1] [1, 2] Mtc.plainCodec 1) freshMachine
        ((victorAsks ++ steps 0 false 5).map .tenants)).map
          (fun m => (m.holds 0, m.world.tracker.maxId)) = some (true, 11212) ∧
      Run.Always (Machine.step [0, 1] [1, 2] Mtc.plainCodec 1) (VictorLeads [0, 1]) freshMachine
        ((victorAsks ++ steps 0 false 5).map .tenants) :=
  ⟨by decide +kernel, by decide +kernel,
    victor_leads_until_unlock [0, 1] [1, 2] Mtc.plainCodec 1 _ _ _ _ (by decide +kernel)⟩

/-- Tenant 0 has been told eleven times that it is the highest. Before it calls `req_spare` and
`lock_max_score`, tenant 1 reports a higher score. -/
def overtakenVictor : List MachineAction :=
  (victorAsks.dropLast.dropLast ++
    [Action.score 1 { score1 := ((7 : ℚ) : Score), score2 := dblMax, release := .nothing, request := 1 }] ++
    steps 1 true 1 ++ steps 0 true 2).map .tenants

/-- Tracker 2 was the highest with score 3 and is done. Between the two calls for its `B`, tenant 0
becomes the victor. -/
def releasedVictor : List MachineAction :=
  [.deliver ⟨2, 1, .H ((3 : ℚ) : Score) 0 1⟩, .recv true, .recv true,
    .deliver ⟨2, 1, .B ((3 : ℚ) : Score)⟩, .recv true] ++ victorAsks.map .tenants ++ [.recv true]

/-- In the first run tenant 0 holds the lock, and tenant 1 is the highest. In the second the lock of
tenant 0 is released, and nobody is. -/
theorem victor_not_highest :
    ¬ Run.Always (Machine.step [0, 1] [1, 2] Mtc.plainCodec 1) (VictorLeads [0, 1]) freshMachine
        overtakenVictor ∧
      (Run.exec (Machine.step [0, 1] [1, 2] Mtc.plainCodec 1) freshMachine overtakenVictor).map
        (fun m => (m.holds 0, m.world.tracker.maxScoreLock, m.world.tracker.maxId))
        = some (true, true, 11213) ∧
      (Run.exec (Machine.step [0, 1] [1, 2] Mtc.plainCodec 1) freshMachine releasedVictor).map
        (fun m => (m.holds 0, m.world.tracker.maxScoreLock, m.world.tracker.maxId))
        = some (true, false, -1) := by
  decide +kernel

end MemExchange.Tenant
