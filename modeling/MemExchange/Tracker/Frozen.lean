import MemExchange.Tracker.Ops

/-!
# Locked candidates

Every writer of `min_id` and `max_id` has to consult `min_score_lock` and `max_score_lock`. All of
them do, except the first branch of `set_scores`: it withdraws a candidate that reports
`__DBL_MAX__` even while the candidate is locked.
-/
namespace MemExchange

open Tracker

/-- The report of `__DBL_MAX__` by the locked candidate itself. -/
def WithdrawsLocked (t : Tracker) : TrackerOp → Prop
  | .setScores _ sc2 id => t.minScoreLock = true ∧ sc2 = dblMax ∧ id = t.minId
  | _ => False

instance : DecidableRel WithdrawsLocked := fun _ op => by
  rcases op with _ | _ <;> delta WithdrawsLocked <;> infer_instance

variable (t : Tracker) (op : TrackerOp) (ops : List TrackerOp)

theorem withdrawsLocked_iff :
    WithdrawsLocked t op ↔ t.minScoreLock = true ∧ ∃ sc1, op = .setScores sc1 dblMax t.minId := by
  cases op <;> simp [WithdrawsLocked]

/-- From every call of `lock_min_score` that takes the lock up to the matching
`unlock_min_score`, `min_id` keeps the value it had when the lock was taken. -/
def MinFrozen (t : Tracker) (ops : List TrackerOp) : Prop :=
  ∀ before held after, ops = before ++ .lockMinScore :: (held ++ after) →
    (runTracker t before).lockMinScore.1 = .taken → TrackerOp.unlockMinScore ∉ held →
    (runTracker t (before ++ .lockMinScore :: held)).minId = (runTracker t before).minId

/-- The same for `max_id` between `lock_max_score` and `unlock_max_score`. -/
def MaxFrozen (t : Tracker) (ops : List TrackerOp) : Prop :=
  ∀ before held after, ops = before ++ .lockMaxScore :: (held ++ after) →
    (runTracker t before).lockMaxScore.1 = true → TrackerOp.unlockMaxScore ∉ held →
    (runTracker t (before ++ .lockMaxScore :: held)).maxId = (runTracker t before).maxId

/-! ### One call -/

/-- Only `lock_min_score` sets the min lock, and only over a candidate. -/
theorem minScoreLock_set (free : t.minScoreLock = false)
    (taken : (op.apply t).minScoreLock = true) :
    op = .lockMinScore ∧ t.lockMinScore.1 = .taken := by
  by_cases scoring : op.scoring = false
  · simp [(op.apply_of_not_scoring t scoring).2.2.1, free] at taken
  · cases op <;> simp only [TrackerOp.scoring, not_true_eq_false] at scoring
    case lockMinScore =>
      have candidate : t.minId ≠ -1 := by simpa [TrackerOp.apply, free] using taken
      exact ⟨rfl, by simp [lockMinScore, candidate, free]⟩
    all_goals simp [TrackerOp.apply, unlockMaxScore, unlockMinScore, free] at taken

/-- Only `unlock_min_score` clears the min lock. -/
theorem minScoreLock_kept (locked : t.minScoreLock = true) (other : op ≠ .unlockMinScore) :
    (op.apply t).minScoreLock = true := by
  by_cases scoring : op.scoring = false
  · rw [(op.apply_of_not_scoring t scoring).2.2.1, locked]
  · cases op <;> simp only [TrackerOp.scoring, not_true_eq_false] at scoring
    case unlockMinScore => exact absurd rfl other
    all_goals simp [TrackerOp.apply, unlockMaxScore, locked]

/-- A call on a locked tracker keeps `min_id`, unless it withdraws the candidate. -/
theorem minId_kept (locked : t.minScoreLock = true) (stays : ¬ WithdrawsLocked t op) :
    (op.apply t).minId = t.minId := by
  by_cases scoring : op.scoring = false
  · exact (op.apply_of_not_scoring t scoring).1
  · cases op <;> simp only [TrackerOp.scoring, not_true_eq_false] at scoring
    case setScores sc1 sc2 id =>
      rw [TrackerOp.apply, setScores_minId_of_locked _ _ _ _ locked, if_neg]
      rintro ⟨rfl, rfl⟩
      exact stays ⟨locked, rfl, rfl⟩
    all_goals simp [TrackerOp.apply, unlockMaxScore, unlockMinScore, locked]

/-- Only `unlock_max_score` clears the max lock, and nothing else touches `max_id`
under it. -/
theorem maxId_kept (locked : t.maxScoreLock = true) (other : op ≠ .unlockMaxScore) :
    (op.apply t).maxScoreLock = true ∧ (op.apply t).maxId = t.maxId := by
  by_cases scoring : op.scoring = false
  · obtain ⟨_, same, _, lock, _⟩ := op.apply_of_not_scoring t scoring
    exact ⟨by rw [lock, locked], same⟩
  · cases op <;> simp only [TrackerOp.scoring, not_true_eq_false] at scoring
    case unlockMaxScore => exact absurd rfl other
    case setScores sc1 sc2 id =>
      exact ⟨by rw [TrackerOp.apply, setScores_maxScoreLock, locked],
        setScores_maxId_of_locked _ _ _ _ locked⟩
    all_goals simp [TrackerOp.apply, unlockMinScore, locked]

/-! ### Whole runs -/

/-- The max lock alone freezes `max_id` over any run without its unlock. -/
theorem maxId_run (locked : t.maxScoreLock = true) (held : TrackerOp.unlockMaxScore ∉ ops) :
    (runTracker t ops).maxId = t.maxId := by
  induction ops generalizing t with
  | nil => rfl
  | cons op ops ih =>
    simp only [List.mem_cons, not_or] at held
    obtain ⟨still, same⟩ := maxId_kept t op locked (Ne.symm held.1)
    rw [runTracker_cons, ih _ still held.2, same]

/-- The min lock freezes `min_id` over any run without its unlock and without a
withdrawal. -/
theorem minId_run (locked : t.minScoreLock = true) (held : TrackerOp.unlockMinScore ∉ ops)
    (stays : Run.Along trackerStep (fun t op => ¬ WithdrawsLocked t op) t ops) :
    (runTracker t ops).minId = t.minId := by
  induction ops generalizing t with
  | nil => rfl
  | cons op ops ih =>
    simp only [List.mem_cons, not_or] at held
    have still := minScoreLock_kept t op locked (Ne.symm held.1)
    rw [runTracker_cons, ih _ still held.2 (stays.2 _ rfl), minId_kept t op locked stays.1]

/-- A held min lock was taken by some call of the run, and not released since. -/
theorem minScoreLock_since (free : t.minScoreLock = false)
    (locked : (runTracker t ops).minScoreLock = true) :
    ∃ before held, ops = before ++ .lockMinScore :: held ∧
      (runTracker t before).lockMinScore.1 = .taken ∧ TrackerOp.unlockMinScore ∉ held := by
  -- read the run backwards: either the last call took the lock, or it kept it
  induction ops using List.reverseRecOn with
  | nil => simp [free] at locked
  | append_singleton ops op ih =>
    rw [runTracker_append, runTracker_cons, runTracker_nil] at locked
    by_cases earlier : (runTracker t ops).minScoreLock = true
    · obtain ⟨before, held, rfl, taken, kept⟩ := ih earlier
      refine ⟨before, held ++ [op], by simp, taken, ?_⟩
      simp only [List.mem_append, List.mem_singleton, not_or]
      refine ⟨kept, ?_⟩
      rintro rfl
      simp [TrackerOp.apply, unlockMinScore] at locked
    · obtain ⟨rfl, taken⟩ := minScoreLock_set _ op (by simpa using earlier) locked
      exact ⟨ops, [], rfl, taken, by simp⟩

theorem maxFrozen : MaxFrozen t ops := by
  rintro before held after rfl taken unlocked
  rw [runTracker_append, runTracker_cons, maxId_run _ held (by simp [TrackerOp.apply]) unlocked]
  simp [TrackerOp.apply]

/-- Taking the min lock leaves `min_id` as it is, on a candidate. -/
theorem lockMinScore_taken (taken : t.lockMinScore.1 = .taken) :
    (TrackerOp.lockMinScore.apply t).minScoreLock = true ∧
    (TrackerOp.lockMinScore.apply t).minId = t.minId ∧ t.minId ≠ -1 := by
  rcases lockMinScore_cases t with ⟨called, candidate, _⟩ | ⟨refused, _⟩
  · simp [TrackerOp.apply, called, candidate]
  · exact absurd taken refused

theorem minFrozen_of_along
    (stays : Run.Along trackerStep (fun t op => ¬ WithdrawsLocked t op) t ops) :
    MinFrozen t ops := by
  rintro before held after rfl taken unlocked
  obtain ⟨locked, same, _⟩ := lockMinScore_taken _ taken
  have during : Run.Along trackerStep (fun t op => ¬ WithdrawsLocked t op)
      (TrackerOp.lockMinScore.apply (runTracker t before)) held := by
    rw [Run.along_iff] at stays ⊢
    intro done op rest u split reached
    refine stays (before ++ .lockMinScore :: done) op (rest ++ after) u ?_ ?_
    · rw [split]; simp
    · rwa [Run.exec_append, exec_trackerStep]
  rw [runTracker_append, runTracker_cons, minId_run _ held locked unlocked during, same]

/-- **Locked candidates are frozen exactly when no locked candidate reports
`__DBL_MAX__`.** Over every run of tracker calls, by any users in any order, `min_id` and
`max_id` keep their values from each lock to its unlock iff no call of the run is a
`set_scores` with `__DBL_MAX__` on behalf of the candidate that is locked at that point. -/
theorem candidates_frozen_iff (memAllocated : Nat) (shares : Int → ℚ) (slabStart : Int)
    (ops : List TrackerOp) : (MinFrozen (initial memAllocated shares slabStart) ops ∧
      MaxFrozen (initial memAllocated shares slabStart) ops) ↔
    Run.Along trackerStep (fun t op => ¬ WithdrawsLocked t op)
      (initial memAllocated shares slabStart) ops := by
  constructor
  · rintro ⟨frozen, _⟩
    rw [Run.along_iff]
    rintro done op rest t rfl reached withdraws
    obtain ⟨locked, sc1, rfl⟩ := (withdrawsLocked_iff t op).mp withdraws
    rw [exec_trackerStep] at reached
    cases reached
    obtain ⟨before, held, rfl, taken, unlocked⟩ := minScoreLock_since _ done rfl locked
    obtain ⟨_, _, candidate⟩ := lockMinScore_taken _ taken
    have here := frozen before held
      (.setScores sc1 dblMax (runTracker (initial memAllocated shares slabStart)
        (before ++ .lockMinScore :: held)).minId :: rest) (by simp) taken unlocked
    have after := frozen before
      (held ++ [.setScores sc1 dblMax (runTracker (initial memAllocated shares slabStart)
        (before ++ .lockMinScore :: held)).minId]) rest (by simp) taken
      (by simpa using unlocked)
    -- the withdrawal leaves `min_id = -1`, which no locked candidate is
    rw [← List.cons_append, ← List.append_assoc, runTracker_append, runTracker_cons, runTracker_nil,
      TrackerOp.apply, setScores_minId_of_locked _ _ _ _ locked, if_pos ⟨rfl, rfl⟩] at after
    exact candidate after.symm
  · intro stays
    exact ⟨minFrozen_of_along _ _ stays, maxFrozen _ _⟩

/-- Freezing fails in this run: tenant 11213 asks for memory, tenant 11212 becomes the
candidate, the tracker locks it, and the candidate's next report withdraws it. -/
theorem locked_candidate_withdrawn :
    let ops : List TrackerOp := [.setScores ((5 : ℚ) : Score) dblMax 11213,
      .setScores ((0 : ℚ) : Score) ((1 : ℚ) : Score) 11212, .lockMinScore,
      .setScores ((0 : ℚ) : Score) dblMax 11212]
    ¬ (MinFrozen (initial (64 * 1024 * 1024) (fun _ => 1 / 4) 0) ops ∧
      MaxFrozen (initial (64 * 1024 * 1024) (fun _ => 1 / 4) 0) ops) := by
  rintro ops ⟨frozen, _⟩
  have kept := frozen (ops.take 2) (ops.drop 3) [] rfl (by decide +kernel) (by decide +kernel)
  revert kept
  decide +kernel

end MemExchange
