import MemExchange.Lib.Run

/-!
# How many reads may be under way

A call of `get_remote_item` adds one to a counter, and if there were `MAX_OUTSTANDING_RDMA` already,
it takes that back and returns. While an average of the timeouts is too high only a few calls get
that far. All of this is done with atomic operations and no lock, and each of them is one step of a
thread. The counter is a number: it would take `2^63` threads to overflow it.
-/
namespace MemExchange.Rdma

open Function (update update_self update_of_ne)

open scoped BigOperators

/-- `MAX_OUTSTANDING_RDMA` -/
def maxOutstanding : Int := 256

def ppm : UInt32 := 1000000

/-- `ewma_update` with `ALPHA_PPM` -/
def ewmaUpdate (old sample : UInt32) : UInt32 :=
  ((50000 * sample.toUInt64 + (1000000 - 50000) * old.toUInt64) / 1000000).toUInt32

/-- One step of the decay, by `DECAY_FACTOR_PPM` -/
def ewmaDecay (old : UInt32) : UInt32 := ((old.toUInt64 * 980000) / 1000000).toUInt32

/-- Where a thread is in `get_remote_item`: before the atomic operation of that name, with what it
remembers. `result` says whether an item is going to be returned. -/
inductive Pc where
  | out
  | decayLoad
  | decaySwap (now last : UInt64)
  | decayRead
  | decayWrite (old : UInt32)
  | loadEwma
  | loadOverloaded (ewma : UInt32)
  | clearOverloaded
  | setOverloaded
  | probeLoad
  | probeSwap (now last : UInt64)
  | reserve
  | undo
  | post
  | wait
  | sampleRead (sample : UInt32) (result : Bool)
  | sampleWrite (old sample : UInt32) (result : Bool)
  | release (result : Bool)
  deriving DecidableEq, Repr

/-- Whether the present call, or the last one, was given a slot, and how often it has given one
back -/
structure Thread where
  pc : Pc := .out
  reserved : Bool := false
  releases : Nat := 0
  deriving DecidableEq, Repr

structure Counters (n : Nat) where
  outstanding : Int := 0
  overloaded : Bool := false
  ewma : UInt32 := 0
  lastDecay : UInt64 := 0
  lastProbe : UInt64 := 0
  threads : Fin n → Thread := fun _ => {}

inductive Look where
  | notYet
  | ready
  | timeout
  deriving DecidableEq, Repr

/-- What a step finds: the time, whether a weak exchange fails for no reason, whether the adapter
takes the read, and what the look at the item shows. -/
structure Found where
  now : UInt64 := 0
  spurious : Bool := false
  accepted : Bool := true
  look : Look := .ready

namespace Counters

variable {n : Nat}

def goto (s : Counters n) (t : Fin n) (pc : Pc) : Counters n :=
  { s with threads := update s.threads t { s.threads t with pc := pc } }

/-- The next atomic operation of a thread. A thread that is not in `get_remote_item` calls it. -/
def step (s : Counters n) (a : Fin n × Found) : Option (Counters n) :=
  let (t, found) := a
  match (s.threads t).pc with
  | .out => some { s with threads := update s.threads t { pc := .decayLoad } }
  -- `ewma_time_decay`
  | .decayLoad =>
    if found.now - s.lastDecay < 50000000 then some (s.goto t .loadEwma)
    else some (s.goto t (.decaySwap found.now s.lastDecay))
  | .decaySwap now last =>
    if s.lastDecay = last then some { s.goto t .decayRead with lastDecay := now }
    else some (s.goto t .loadEwma)
  | .decayRead => some (s.goto t (.decayWrite s.ewma))
  | .decayWrite old =>
    if s.ewma = old ∧ ¬ found.spurious then some { s.goto t .loadEwma with ewma := ewmaDecay old }
    else some (s.goto t .decayRead)
  -- the latch with its two thresholds
  | .loadEwma => some (s.goto t (.loadOverloaded s.ewma))
  | .loadOverloaded ewma =>
    if s.overloaded then
      if ewma ≤ 50000 then some (s.goto t .clearOverloaded) else some (s.goto t .probeLoad)
    else if 200000 ≤ ewma then some (s.goto t .setOverloaded)
    else some (s.goto t .reserve)
  | .clearOverloaded => some { s.goto t .reserve with overloaded := false }
  | .setOverloaded => some { s.goto t .probeLoad with overloaded := true }
  -- `allow_probe`
  | .probeLoad =>
    if found.now - s.lastProbe < 20000000 then some (s.goto t .out)
    else some (s.goto t (.probeSwap found.now s.lastProbe))
  | .probeSwap now last =>
    if s.lastProbe = last then some { s.goto t .reserve with lastProbe := now }
    else some (s.goto t .out)
  -- `reserve_outstanding_slot`
  | .reserve =>
    if maxOutstanding ≤ s.outstanding then
      some { s.goto t .undo with outstanding := s.outstanding + 1 }
    else
      some { s with
        outstanding := s.outstanding + 1
        threads := update s.threads t { s.threads t with pc := .post, reserved := true } }
  | .undo => some { s.goto t .out with outstanding := s.outstanding - 1 }
  | .post =>
    if found.accepted then some (s.goto t .wait) else some (s.goto t (.sampleRead ppm false))
  | .wait =>
    match found.look with
    | .notYet => some s
    | .ready => some (s.goto t (.sampleRead 0 true))
    | .timeout => some (s.goto t (.sampleRead ppm false))
  -- `ewma_push_sample`
  | .sampleRead sample result => some (s.goto t (.sampleWrite s.ewma sample result))
  | .sampleWrite old sample result =>
    if s.ewma = old ∧ ¬ found.spurious then
      some { s.goto t (.release result) with ewma := ewmaUpdate old sample }
    else some (s.goto t (.sampleRead sample result))
  -- `release_outstanding_slot`, and the return
  | .release _ =>
    some { s with
      outstanding := s.outstanding - 1
      threads := update s.threads t
        { s.threads t with pc := .out, releases := (s.threads t).releases + 1 } }

end Counters

/-- Between a successful `reserve_outstanding_slot` and the release -/
def Thread.Between (th : Thread) : Prop := th.reserved ∧ th.releases = 0

instance (th : Thread) : Decidable th.Between := inferInstanceAs (Decidable (_ ∧ _))

/-- At most `MAX_OUTSTANDING_RDMA` threads have a slot; a call that has returned has released as often
as it was given a slot; and the counter is zero when no thread is in a call. -/
structure Balanced {n : Nat} (s : Counters n) : Prop where
  bound : (Finset.univ.filter fun t => (s.threads t).Between).card ≤ 256
  exits : ∀ t, (s.threads t).pc = .out →
    (s.threads t).releases = if (s.threads t).reserved then 1 else 0
  quiet : (∀ t, (s.threads t).pc = .out) → s.outstanding = 0

/-! ### What a thread has added to the counter -/

def Pc.holds : Pc → Nat
  | .post | .wait | .sampleRead .. | .sampleWrite .. | .release _ => 1
  | _ => 0

def Pc.undoes : Pc → Nat
  | .undo => 1
  | _ => 0

structure Thread.Consistent (th : Thread) : Prop where
  reserved : th.pc ≠ .out → (th.reserved = true ↔ th.pc.holds = 1)
  releases : th.pc ≠ .out → th.releases = 0
  returned : th.pc = .out → th.releases = if th.reserved then 1 else 0

structure Counters.Inv {n : Nat} (s : Counters n) : Prop where
  threads : ∀ t, (s.threads t).Consistent
  counter : s.outstanding
    = (∑ t, (s.threads t).pc.holds : Nat) + (∑ t, (s.threads t).pc.undoes : Nat)
  bound : ∑ t, (s.threads t).pc.holds ≤ 256

section Invariant

variable {n : Nat} {s : Counters n}

theorem sum_update {f : Thread → Nat} (threads : Fin n → Thread) (t : Fin n) (th : Thread) :
    ∑ u, f (update threads t th u) + f (threads t) = ∑ u, f (threads u) + f th := by
  have others : ∑ u ∈ Finset.univ.erase t, f (update threads t th u)
      = ∑ u ∈ Finset.univ.erase t, f (threads u) :=
    Finset.sum_congr rfl fun u mem => by rw [update_of_ne (Finset.ne_of_mem_erase mem)]
  rw [← Finset.add_sum_erase _ _ (Finset.mem_univ t),
    ← Finset.add_sum_erase _ (fun u => f (threads u)) (Finset.mem_univ t), others,
    update_self]
  omega

theorem Counters.Inv.move (inv : s.Inv) (t : Fin n) {th : Thread} {u : Counters n}
    (threads : u.threads = update s.threads t th) (consistent : th.Consistent)
    (counter : u.outstanding + ((s.threads t).pc.holds + (s.threads t).pc.undoes : Nat)
      = s.outstanding + (th.pc.holds + th.pc.undoes : Nat))
    (bound : ∑ v, (s.threads v).pc.holds + th.pc.holds ≤ 256 + (s.threads t).pc.holds) : u.Inv := by
  have holds := sum_update (f := fun th => th.pc.holds) s.threads t th
  have undoes := sum_update (f := fun th => th.pc.undoes) s.threads t th
  have before := inv.counter
  refine ⟨fun v => ?_, ?_, ?_⟩
  · rw [threads]
    by_cases same : v = t
    · rwa [same, update_self]
    · rw [update_of_ne same]
      exact inv.threads v
  · rw [threads]
    omega
  · rw [threads]
    omega

theorem Counters.Inv.goto (inv : s.Inv) (t : Fin n) {pc : Pc} {u : Counters n}
    (threads : u.threads = (s.goto t pc).threads) (counter : u.outstanding = s.outstanding)
    (inside : (s.threads t).pc ≠ .out) (stays : pc ≠ .out)
    (holds : pc.holds = (s.threads t).pc.holds) (undoes : pc.undoes = (s.threads t).pc.undoes) :
    u.Inv := by
  have consistent := inv.threads t
  refine inv.move t threads ⟨fun _ => ?_, fun _ => consistent.releases inside,
    fun out => absurd out stays⟩ ?_ ?_
  · dsimp only
    rw [holds]
    exact consistent.reserved inside
  · dsimp only
    rw [counter, holds, undoes]
  · dsimp only
    rw [holds]
    have := inv.bound
    omega

theorem Counters.Inv.leave (inv : s.Inv) (t : Fin n) {u : Counters n}
    (threads : u.threads = (s.goto t .out).threads)
    (inside : (s.threads t).pc ≠ .out) (holds : (s.threads t).pc.holds = 0)
    (counter : u.outstanding + ((s.threads t).pc.undoes : Nat) = s.outstanding) : u.Inv := by
  have consistent := inv.threads t
  have unreserved : (s.threads t).reserved = false := by
    by_contra some
    have := (consistent.reserved inside).mp (by simpa using some)
    omega
  refine inv.move t threads ⟨fun other => absurd rfl other, fun other => absurd rfl other,
    fun _ => ?_⟩ ?_ ?_
  · dsimp only
    rw [consistent.releases inside, unreserved]
    rfl
  · rw [holds]
    show _ = s.outstanding + ((0 + 0 : Nat) : Int)
    omega
  · show _ + 0 ≤ _
    have := inv.bound
    omega

/-- The counter stays at what the threads hold and what they have yet to undo. -/
theorem Counters.inv_step (s : Counters n) (a : Fin n × Found) (u : Counters n) (inv : s.Inv)
    (called : s.step a = some u) : u.Inv := by
  obtain ⟨t, found⟩ := a
  have consistent := inv.threads t
  have bound := inv.bound
  -- most steps leave the counter alone
  have on : ∀ {pc : Pc} {v : Counters n}, some v = some u → v.threads = (s.goto t pc).threads →
      v.outstanding = s.outstanding → (s.threads t).pc ≠ .out → pc ≠ .out →
      pc.holds = (s.threads t).pc.holds → pc.undoes = (s.threads t).pc.undoes → u.Inv := by
    intro pc v same threads counter inside stays holds undoes
    cases same
    exact inv.goto t threads counter inside stays holds undoes
  cases here : (s.threads t).pc <;> simp only [Counters.step, here] at called <;>
    rw [here] at on
  case out =>
    cases called
    refine inv.move t rfl ⟨by simp [Pc.holds], by simp, by simp⟩ ?_ ?_
    · rw [here]
      simp [Pc.holds, Pc.undoes]
    · rw [here]
      simpa [Pc.holds] using bound
  case decayRead | loadEwma | clearOverloaded | setOverloaded | sampleRead =>
    exact on called rfl rfl (by simp) (by simp) rfl rfl
  case decayLoad | decaySwap | decayWrite | post | sampleWrite =>
    split at called <;> exact on called rfl rfl (by simp) (by simp) rfl rfl
  case loadOverloaded ewma =>
    split at called <;> split at called <;> exact on called rfl rfl (by simp) (by simp) rfl rfl
  case probeLoad =>
    split at called
    · cases called
      exact inv.leave t rfl (by simp [here]) (by rw [here]; rfl) (by rw [here]; exact Int.add_zero _)
    · exact on called rfl rfl (by simp) (by simp) rfl rfl
  case probeSwap now last =>
    split at called
    · exact on called rfl rfl (by simp) (by simp) rfl rfl
    · cases called
      exact inv.leave t rfl (by simp [here]) (by rw [here]; rfl) (by rw [here]; exact Int.add_zero _)
  case reserve =>
    split at called
    · cases called
      refine inv.move t rfl ⟨fun _ => ?_, fun _ => consistent.releases (by simp [here]), by simp⟩ ?_ ?_
      · have := consistent.reserved (by simp [here])
        rw [here] at this
        simpa [Pc.holds] using this
      · rw [here]
        simp [Pc.holds, Pc.undoes]
      · rw [here]
        simpa [Pc.holds] using bound
    · next free =>
      cases called
      refine inv.move t rfl ⟨by simp [Pc.holds], fun _ => consistent.releases (by simp [here]),
        by simp⟩ ?_ ?_
      · rw [here]
        simp [Pc.holds, Pc.undoes]
      · -- the counter is not less than the number of the slots
        have counter := inv.counter
        unfold maxOutstanding at free
        rw [here]
        show _ + 1 ≤ 256 + 0
        omega
  case undo =>
    cases called
    exact inv.leave t rfl (by simp [here]) (by rw [here]; rfl) (by
      rw [here]
      show s.outstanding - 1 + 1 = s.outstanding
      omega)
  case wait =>
    split at called
    · cases called
      exact inv
    · exact on called rfl rfl (by simp) (by simp) rfl rfl
    · exact on called rfl rfl (by simp) (by simp) rfl rfl
  case release result =>
    cases called
    have reserved : (s.threads t).reserved = true :=
      (consistent.reserved (by simp [here])).mpr (by rw [here]; rfl)
    refine inv.move t rfl ⟨by simp, by simp, fun _ => ?_⟩ ?_ ?_
    · dsimp only
      rw [consistent.releases (by simp [here]), reserved]
      rfl
    · rw [here]
      simp only [Pc.holds, Pc.undoes]
      omega
    · rw [here]
      show _ + 0 ≤ 256 + 1
      omega

theorem Counters.inv_initial : Counters.Inv ({} : Counters n) := by
  refine ⟨fun t => ⟨by simp, by simp, by simp⟩, ?_, ?_⟩ <;> simp [Pc.holds, Pc.undoes]

theorem Thread.Consistent.between {th : Thread} (consistent : th.Consistent) (between : th.Between) :
    th.pc.holds = 1 := by
  obtain ⟨reserved, unreleased⟩ := between
  have inside : th.pc ≠ .out := by
    intro out
    have := consistent.returned out
    simp [reserved, unreleased] at this
  exact (consistent.reserved inside).mp reserved

theorem Counters.Inv.balanced (inv : s.Inv) : Balanced s := by
  refine ⟨?_, fun t => (inv.threads t).returned, fun quiet => ?_⟩
  · calc (Finset.univ.filter fun t => (s.threads t).Between).card
        = ∑ t, if (s.threads t).Between then 1 else 0 := Finset.card_filter ..
      _ ≤ ∑ t, (s.threads t).pc.holds := by
        refine Finset.sum_le_sum fun t _ => ?_
        split
        · next between => exact Nat.le_of_eq ((inv.threads t).between between).symm
        · exact Nat.zero_le _
      _ ≤ 256 := inv.bound
  · rw [inv.counter]
    simp [quiet, Pc.holds, Pc.undoes]

end Invariant

/-- However the atomic operations of the calls interleave, no more than `MAX_OUTSTANDING_RDMA` threads
have a slot, every call gives back what it got, and the counter comes back to zero. -/
theorem outstanding_reads_bounded (n : Nat) (as : List (Fin n × Found)) :
    Run.Always Counters.step Balanced ({} : Counters n) as :=
  Run.always_mono (fun _ inv => inv.balanced)
    (Run.always_of_step Counters.inv_step Counters.inv_initial as)

end MemExchange.Rdma
