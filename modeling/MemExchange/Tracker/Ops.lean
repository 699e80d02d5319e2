import MemExchange.Lib.Run
import MemExchange.Tracker.State

/-!
# Tracker operations as actions

Tenants and the tracker process share the record through the functions of
`shm_malloc.c` alone. `TrackerOp` names each state-changing call with its arguments; a
run of the tracker under any interleaving of its users is a list of them.
-/
namespace MemExchange

namespace Tracker

/-! ### What the score functions can change -/

section SetScores

variable (sc1 sc2 : Score) (id : Int) (t : Tracker)

/-- A report changes candidates, scores and counters only. -/
theorem setScores_eq : t.setScores sc1 sc2 id = { t with
    minId := (t.setScores sc1 sc2 id).minId
    minScore := (t.setScores sc1 sc2 id).minScore
    minCounter := (t.setScores sc1 sc2 id).minCounter
    victimPotential := (t.setScores sc1 sc2 id).victimPotential
    maxId := (t.setScores sc1 sc2 id).maxId
    maxScore := (t.setScores sc1 sc2 id).maxScore
    maxCounter := (t.setScores sc1 sc2 id).maxCounter } := by
  unfold setScores offerMaxScore dropMinOfMax offerMinScore withdrawCandidate
  (repeat' split) <;> rfl

@[simp] theorem setScores_minScoreLock :
    (t.setScores sc1 sc2 id).minScoreLock = t.minScoreLock := by rw [setScores_eq]

@[simp] theorem setScores_maxScoreLock :
    (t.setScores sc1 sc2 id).maxScoreLock = t.maxScoreLock := by rw [setScores_eq]

@[simp] theorem setScores_requests : (t.setScores sc1 sc2 id).spareRequested = t.spareRequested ∧
    (t.setScores sc1 sc2 id).spareLock = t.spareLock := by
  rw [setScores_eq]
  exact ⟨rfl, rfl⟩

abbrev RaisesMax (t : Tracker) (sc1 : Score) : Prop := t.maxScore < sc1 ∧ t.maxScoreLock = false

abbrev LowersMin (t : Tracker) (sc2 : Score) : Prop := sc2 < t.minScore ∧ t.minScoreLock = false

theorem setScores_maxId :
    (t.setScores sc1 sc2 id).maxId = if t.RaisesMax sc1 then id else t.maxId := by
  unfold setScores offerMaxScore dropMinOfMax offerMinScore withdrawCandidate
  grind

/-- `min_id` after a report: the withdrawal, then the new minimum, then the new maximum. -/
theorem setScores_minId : (t.setScores sc1 sc2 id).minId =
      (let candidate := if t.LowersMin sc2 then id
        else if sc2 = dblMax ∧ t.minId = id then -1 else t.minId
      if t.RaisesMax sc1 ∧ candidate = id ∧ t.minScoreLock = false then -1 else candidate) := by
  -- nothing is above the largest double
  have bounded : ∀ x : Score, sc2 < x → sc2 ≠ dblMax := fun _ lower top => not_top_lt (top ▸ lower)
  unfold setScores offerMaxScore dropMinOfMax offerMinScore withdrawCandidate
  grind

theorem setScores_minId_of_locked (locked : t.minScoreLock = true) :
    (t.setScores sc1 sc2 id).minId = if sc2 = dblMax ∧ t.minId = id then -1 else t.minId := by
  simp [setScores_minId, LowersMin, locked]

theorem setScores_maxId_of_locked (locked : t.maxScoreLock = true) :
    (t.setScores sc1 sc2 id).maxId = t.maxId := by
  simp [setScores_maxId, RaisesMax, locked]

end SetScores

/-! ### What the other calls leave behind -/

variable (id : Int) (sc : Score) (t : Tracker)

@[simp] theorem compareMinID_snd : (t.compareMinID id sc).2 = { t with
    minScore := if id = t.minId then sc else t.minScore
    minCounter := if id = t.minId then t.minCounter + 1 else t.minCounter } := by
  unfold compareMinID
  split <;> rfl

@[simp] theorem compareMaxID_snd : (t.compareMaxID id sc).2 = { t with
    maxScore := if id = t.maxId then sc else t.maxScore
    maxCounter := if id = t.maxId then t.maxCounter + 1 else t.maxCounter } := by
  unfold compareMaxID
  split <;> rfl

@[simp] theorem lockMaxScore_snd : t.lockMaxScore.2 = { t with maxScoreLock := true } := by
  cases t
  unfold lockMaxScore
  split <;> simp_all

@[simp] theorem lockMinScore_snd : t.lockMinScore.2 =
    { t with minScoreLock := t.minScoreLock || t.minId ≠ -1 } := by
  cases t
  unfold lockMinScore
  (repeat' split) <;> simp_all

@[simp] theorem resetMinScore_eq : t.resetMinScore = { t with
    minScore := if t.minScoreLock = false then noMinScore else t.minScore
    minId := if t.minScoreLock = false then -1 else t.minId } := by
  unfold resetMinScore
  split <;> rfl

@[simp] theorem reqSpare_snd : t.reqSpare.2 = { t with spareRequested := true } := by
  cases t
  unfold reqSpare
  split <;> simp_all

@[simp] theorem reqRemSpare_snd : t.reqRemSpare.2 = { t with
    remoteSpareRequested := true
    rdmaBroadcast := if t.remoteSpareRequested = false then true else t.rdmaBroadcast } := by
  cases t
  unfold reqRemSpare
  split <;> simp_all

@[simp] theorem lockSpare_snd : t.lockSpare.2 = { t with spareLock := true } := by
  cases t
  unfold lockSpare
  split <;> simp_all

/-- `lock_min_score` never writes `min_id`, and takes the lock only over a candidate. -/
theorem lockMinScore_cases : (t.lockMinScore = (.taken, { t with minScoreLock := true }) ∧
      t.minId ≠ -1 ∧ t.minScoreLock = false) ∨
    (t.lockMinScore.1 ≠ .taken ∧ t.lockMinScore.2 = t) := by
  unfold lockMinScore
  split_ifs <;> simp_all

end Tracker

/-- A state-changing call on the tracker. The calls that only read it change nothing and
need no constructor. -/
inductive TrackerOp
  | setScores (sc1 sc2 : Score) (id : Int)
  | compareMinID (id : Int) (sc : Score)
  | compareMaxID (id : Int) (sc : Score)
  | lockMaxScore
  | unlockMaxScore
  | lockMinScore
  | unlockMinScore
  | resetMinScore
  | reqSpare
  | reqRemSpare
  | resetLocks
  | lockSpare
  | unlockSpare
  | setSpareMem (ptr : Int) (n : Nat) (cls id : Int)
  | signalAllocFree (pagesize size : Nat)
  | shmMallocSpare (pagesize n : Nat) (id : Int)
  | receiveRemoteMem (conn n : Nat) (id : Int)
  | setRemoteMem (n : Nat) (id : Int)
  | setRdmaAccessPort (port : Int)
  | stopRDMABroadcast
  | stopRDMAFinishBroadcast
  | finishBroadcast
  | setRdmaServerInfo (peerAddr : Nat) (peerId : Int)
  | resetRemoteSpare
  deriving DecidableEq

def TrackerOp.apply : TrackerOp → Tracker → Tracker
  | .setScores sc1 sc2 id, t => t.setScores sc1 sc2 id
  | .compareMinID id sc, t => (t.compareMinID id sc).2
  | .compareMaxID id sc, t => (t.compareMaxID id sc).2
  | .lockMaxScore, t => t.lockMaxScore.2
  | .unlockMaxScore, t => t.unlockMaxScore
  | .lockMinScore, t => t.lockMinScore.2
  | .unlockMinScore, t => t.unlockMinScore
  | .resetMinScore, t => t.resetMinScore
  | .reqSpare, t => t.reqSpare.2
  | .reqRemSpare, t => t.reqRemSpare.2
  | .resetLocks, t => t.resetLocks
  | .lockSpare, t => t.lockSpare.2
  | .unlockSpare, t => t.unlockSpare
  | .setSpareMem ptr n cls id, t => t.setSpareMem ptr n cls id
  | .signalAllocFree pagesize size, t => (t.signalAllocFree pagesize size).2
  | .shmMallocSpare pagesize n id, t => (t.shmMallocSpare pagesize n id).2
  | .receiveRemoteMem conn n id, t => t.receiveRemoteMem conn n id
  | .setRemoteMem n id, t => t.setRemoteMem n id
  | .setRdmaAccessPort port, t => t.setRdmaAccessPort port
  | .stopRDMABroadcast, t => t.stopRDMABroadcast
  | .stopRDMAFinishBroadcast, t => t.stopRDMAFinishBroadcast
  | .finishBroadcast, t => t.finishBroadcast
  | .setRdmaServerInfo peerAddr peerId, t => t.setRdmaServerInfo peerAddr peerId
  | .resetRemoteSpare, t => t.resetRemoteSpare

/-- The calls that touch the candidates, their scores or their locks. -/
def TrackerOp.scoring : TrackerOp → Bool
  | .setScores .. | .compareMinID .. | .compareMaxID .. => true
  | .lockMaxScore | .unlockMaxScore | .lockMinScore | .unlockMinScore | .resetMinScore => true
  | _ => false

variable (t : Tracker) (op : TrackerOp) (ops : List TrackerOp)

/-- Every other call leaves the candidates alone. -/
theorem TrackerOp.apply_of_not_scoring (other : op.scoring = false) :
    (op.apply t).minId = t.minId ∧ (op.apply t).maxId = t.maxId ∧
    (op.apply t).minScoreLock = t.minScoreLock ∧ (op.apply t).maxScoreLock = t.maxScoreLock ∧
    (op.apply t).minScore = t.minScore ∧ (op.apply t).maxScore = t.maxScore ∧
    (op.apply t).victimPotential = t.victimPotential := by
  cases op <;> simp only [TrackerOp.scoring, Bool.true_eq_false] at other
  all_goals first | exact ⟨rfl, rfl, rfl, rfl, rfl, rfl, rfl⟩ | simp [TrackerOp.apply]

/-- One call, as a step of the shared record: every call is enabled in every state. -/
def trackerStep (t : Tracker) (op : TrackerOp) : Option Tracker := some (op.apply t)

def runTracker (t : Tracker) (ops : List TrackerOp) :
    Tracker := ops.foldl (fun t op => op.apply t) t

@[simp] theorem runTracker_nil : runTracker t [] = t := rfl

@[simp] theorem runTracker_cons : runTracker t (op :: ops) = runTracker (op.apply t) ops := rfl

theorem runTracker_append (xs ys : List TrackerOp) :
    runTracker t (xs ++ ys) = runTracker (runTracker t xs) ys := List.foldl_append

/-- The fold agrees with the general notion of a run. -/
theorem exec_trackerStep : Run.exec trackerStep t ops = some (runTracker t ops) := by
  induction ops generalizing t with
  | nil => rfl
  | cons op ops ih => simpa [trackerStep] using ih (op.apply t)

end MemExchange
