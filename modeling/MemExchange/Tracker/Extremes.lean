import MemExchange.Tracker.Ops

/-!
# Highest and lowest tenant

`set_scores` withdraws the lowest tenant when it becomes the highest one. It does not look at
the highest tenant when the minimum alone changes, and it withdraws nobody while the minimum
is locked. These are the two ways in which one tenant becomes both.
-/
namespace MemExchange

namespace Tracker

variable (t : Tracker) (sc1 : Score) (sc2 : Score) (id : Int)

/-- One tenant is not both highest and lowest. -/
def Exclusive : Prop := t.maxId = t.minId → t.maxId = -1 ∧ t.minId = -1

instance : DecidablePred Exclusive := fun t => by unfold Exclusive; infer_instance

/-! ### Staying apart -/

/-- A report of tenant `id` does not raise the maximum while the tenant is the locked minimum
and stays it, and does not lower the minimum alone while the tenant is the maximum. -/
def ReportsExclusive : Prop :=
  if t.RaisesMax sc1 then t.minScoreLock = true → t.minId = id → sc2 = dblMax
  else t.LowersMin sc2 → t.maxId ≠ id

instance : Decidable (t.ReportsExclusive sc1 sc2 id) := by
  unfold ReportsExclusive; infer_instance

theorem setScores_exclusive_iff {t : Tracker} {id : Int} (tenant : id ≠ -1)
    (exclusive : t.Exclusive) :
    (t.setScores sc1 sc2 id).Exclusive ↔ t.ReportsExclusive sc1 sc2 id := by
  have exclusive' : t.maxId = t.minId → t.maxId = -1 ∧ t.minId = -1 := exclusive
  have locked : t.LowersMin sc2 → t.minScoreLock = false := And.right
  have bounded : t.LowersMin sc2 → sc2 ≠ dblMax := fun lowers top => not_top_lt (top ▸ lowers.1)
  unfold Exclusive ReportsExclusive
  rw [setScores_maxId, setScores_minId]
  grind

/-- A report under the id of nobody empties what it takes. -/
theorem setScores_nobody_exclusive {t : Tracker} (exclusive : t.Exclusive) :
    (t.setScores sc1 sc2 (-1)).Exclusive := by
  have exclusive' : t.maxId = t.minId → t.maxId = -1 ∧ t.minId = -1 := exclusive
  unfold Exclusive
  rw [setScores_maxId, setScores_minId]
  grind

end Tracker

open Tracker

variable (t : Tracker) (op : TrackerOp)

/-- The condition on a call: a report of a tenant keeps highest and lowest apart. -/
def KeepsExclusive : TrackerOp → Prop
  | .setScores sc1 sc2 id => id ≠ -1 → t.ReportsExclusive sc1 sc2 id
  | _ => True

instance : DecidableRel KeepsExclusive := fun t op => by
  cases op <;> unfold KeepsExclusive <;> infer_instance

theorem Tracker.Exclusive.congr {t t' : Tracker} (exclusive : t.Exclusive)
    (maxId : t'.maxId = t.maxId) (minId : t'.minId = t.minId) : t'.Exclusive := by
  unfold Exclusive
  rwa [maxId, minId]

/-- The calls that are not reports empty one of the two ids or leave both alone. -/
theorem apply_exclusive (exclusive : t.Exclusive)
    (other : ∀ sc1 sc2 id, op ≠ .setScores sc1 sc2 id) : (op.apply t).Exclusive := by
  by_cases scoring : op.scoring = false
  · obtain ⟨minId, maxId, -⟩ := op.apply_of_not_scoring t scoring
    exact exclusive.congr maxId minId
  cases op <;> simp only [TrackerOp.scoring, not_true_eq_false] at scoring
  case setScores sc1 sc2 id => exact absurd rfl (other sc1 sc2 id)
  case unlockMaxScore => exact fun nobody => ⟨rfl, nobody.symm⟩
  case unlockMinScore => exact exclusive
  case resetMinScore =>
    simp only [TrackerOp.apply, resetMinScore]
    split
    · exact fun nobody => ⟨nobody, rfl⟩
    · exact exclusive
  all_goals exact exclusive.congr (by simp [TrackerOp.apply]) (by simp [TrackerOp.apply])

theorem apply_exclusive_iff (exclusive : t.Exclusive) :
    KeepsExclusive t op ↔ ∀ t', trackerStep t op = some t' → t'.Exclusive := by
  simp only [trackerStep, Option.some.injEq, forall_eq']
  by_cases report : ∃ sc1 sc2 id, op = .setScores sc1 sc2 id
  · obtain ⟨sc1, sc2, id, rfl⟩ := report
    by_cases tenant : id = -1
    · subst tenant
      exact ⟨fun _ => setScores_nobody_exclusive sc1 sc2 exclusive, fun _ tenant => absurd rfl tenant⟩
    · rw [TrackerOp.apply, setScores_exclusive_iff sc1 sc2 tenant exclusive]
      exact ⟨fun keeps => keeps tenant, fun keeps _ => keeps⟩
  · have other : ∀ sc1 sc2 id, op ≠ .setScores sc1 sc2 id := fun sc1 sc2 id same =>
      report ⟨sc1, sc2, id, same⟩
    refine ⟨fun _ => apply_exclusive t op exclusive other, fun _ => ?_⟩
    cases op with
    | setScores sc1 sc2 id => exact absurd rfl (other sc1 sc2 id)
    | _ => trivial

/-- **One tenant is both highest and lowest exactly after a report that does not keep them
apart.** -/
theorem highest_and_lowest_exclusive_iff (memAllocated : Nat) (shares : Int → ℚ) (slabStart : Int)
    (ops : List TrackerOp) :
    Run.Always trackerStep Exclusive (.initial memAllocated shares slabStart) ops ↔
      Run.Along trackerStep KeepsExclusive (.initial memAllocated shares slabStart) ops :=
  Run.always_iff_along apply_exclusive_iff fun _ => ⟨rfl, rfl⟩

/-- A tenant in need of memory reports the highest score. Once it has no misses it reports a low
one: it takes the minimum and stays the maximum. -/
def needPasses : List TrackerOp :=
  [.setScores (10 : ℚ) dblMax 11213, .setScores (0 : ℚ) (1 / 10 : ℚ) 11213]

theorem highest_becomes_lowest : (runTracker (.initial 0 (fun _ => 0) 0) needPasses).maxId = 11213 ∧
    (runTracker (.initial 0 (fun _ => 0) 0) needPasses).minId = 11213 ∧
    ¬ Run.Always trackerStep Exclusive (.initial 0 (fun _ => 0) 0) needPasses := by
  decide +kernel

end MemExchange
