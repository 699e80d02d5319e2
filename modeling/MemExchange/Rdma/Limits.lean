import MemExchange.Rdma.Outstanding

/-!
# How often a probe or a decay is allowed

A thread reads the clock, loads the time that was stored when the thing was last allowed, and goes on
if its own time is at least an interval later. It then stores its time with an exchange. These are
three steps, and other threads may step in between. A thread that was held up between the first two
may find a later time. The difference is taken without a sign and is huge then, and its exchange puts
the stored time back.
-/
namespace MemExchange.Rdma

inductive Limit where
  | probe
  | decay
  deriving DecidableEq, Repr

/-- `PROBE_INTERVAL_NS` and `DECAY_INTERVAL_NS` -/
def Limit.interval : Limit → UInt64
  | .probe => 20000000
  | .decay => 50000000

/-- At least an interval lies between the two times. -/
def Limit.Apart (limit : Limit) (a b : UInt64) : Prop :=
  a.toNat + limit.interval.toNat ≤ b.toNat ∨ b.toNat + limit.interval.toNat ≤ a.toNat

instance (limit : Limit) : Std.Symm limit.Apart := ⟨fun _ _ h => h.symm⟩

/-- Where a thread is in a call, with what it remembers: before it loads the stored time, before the
exchange, and, with the time it has stored, in the loop that multiplies the average -/
inductive Place where
  | idle
  | load (limit : Limit) (now : UInt64)
  | swap (limit : Limit) (now last : UInt64)
  | read (now : UInt64)
  | write (now : UInt64) (old : UInt32)
  deriving DecidableEq, Repr

/-- The last time `now_ns` has given, `last_probe_ns` and `last_decay_ns`, `ewma_timeout_ppm`, and the
threads. For the record there are the times stored by the calls that were let through, and those of
the calls that have multiplied the average, both with the newest first. -/
structure Limiters (n : Nat) where
  clock : UInt64
  last : Limit → UInt64
  ewma : UInt32
  threads : Fin n → Place
  stored : Limit → List UInt64
  decayed : List UInt64

/-- A thread calls `allow_probe` or `ewma_time_decay` and reads the clock; it takes its next step,
where a weak exchange may fail for no reason; or a sample changes the average. -/
inductive LimitAct (n : Nat) where
  | call (t : Fin n) (limit : Limit) (now : UInt64)
  | go (t : Fin n) (spurious : Bool)
  | sample (ewma : UInt32)
  deriving DecidableEq, Repr

namespace Limiters

variable {n : Nat}

def start (clock : UInt64) : Limiters n where
  clock := clock
  last _ := 0
  ewma := 0
  threads _ := .idle
  stored _ := []
  decayed := []

variable (s : Limiters n) (a : LimitAct n)

def goto (t : Fin n) (place : Place) : Limiters n :=
  { s with threads := Function.update s.threads t place }

def store (limit : Limit) (now : UInt64) : Limiters n :=
  { s with
    last := Function.update s.last limit now
    stored := Function.update s.stored limit (now :: s.stored limit) }

/-- `allow_probe` returns, and `ewma_time_decay` goes on to the average. -/
def granted (now : UInt64) : Limit → Place
  | .probe => .idle
  | .decay => .read now

def step : LimitAct n → Option (Limiters n)
  | .call t limit now =>
    if s.threads t = .idle ∧ s.clock ≤ now then
      some ({ s with clock := now }.goto t (.load limit now))
    else none
  | .go t spurious =>
    match s.threads t with
    | .idle => none
    | .load limit now =>
      if now - s.last limit < limit.interval then some (s.goto t .idle)
      else some (s.goto t (.swap limit now (s.last limit)))
    | .swap limit now last =>
      if s.last limit = last then some ((s.store limit now).goto t (granted now limit))
      else some (s.goto t .idle)
    | .read now => some (s.goto t (.write now s.ewma))
    | .write now old =>
      if s.ewma = old ∧ ¬ spurious then
        some ({ s with ewma := ewmaDecay old, decayed := now :: s.decayed }.goto t .idle)
      else some (s.goto t (.read now))
  | .sample ewma => some { s with ewma := ewma }

/-- A thread that loads the stored time does not find one later than its own. -/
def Timely : LimitAct n → Prop
  | .go t _ =>
    match s.threads t with
    | .load limit now => s.last limit ≤ now
    | _ => True
  | _ => True

instance : Decidable (s.Timely a) := by
  unfold Timely
  split
  · split <;> infer_instance
  · infer_instance

/-- Any two times stored by granted calls are an interval apart, and so are those of any two decays
that were carried out. -/
structure Spaced (s : Limiters n) : Prop where
  stored : ∀ limit, (s.stored limit).Pairwise limit.Apart
  decayed : s.decayed.Pairwise Limit.decay.Apart

def Rises : Prop :=
  ∀ t, s.step a = some t → ∀ limit, s.last limit ≤ t.last limit

end Limiters

/-- The time of a decay that was allowed and is not carried out yet -/
def Place.owed : Place → Option UInt64
  | .read now | .write now _ => some now
  | _ => none

/-- A time that is about to be stored is an interval later than the one it replaces. -/
def Place.Due : Place → Prop
  | .swap limit now last => last.toNat + limit.interval.toNat ≤ now.toNat
  | _ => True

/-- Every allowed decay is owed by one thread or carried out, and not twice. -/
structure Limiters.Inv {n : Nat} (s : Limiters n) : Prop where
  due : ∀ t, (s.threads t).Due
  newest : ∀ limit, ∀ x ∈ s.stored limit, x ≤ s.last limit
  spaced : ∀ limit, (s.stored limit).Pairwise fun later earlier =>
    earlier.toNat + limit.interval.toNat ≤ later.toNat
  owed : ∀ t now, (s.threads t).owed = some now → now ∈ s.stored .decay ∧ now ∉ s.decayed
  once : ∀ t u now, (s.threads t).owed = some now → (s.threads u).owed = some now → t = u
  done : ∀ x ∈ s.decayed, x ∈ s.stored .decay
  distinct : s.decayed.Nodup

namespace Limiters

section Invariant

variable {n : Nat} {s : Limiters n} {limit : Limit} {now : UInt64}

theorem inv_start (clock : UInt64) : (start clock : Limiters n).Inv where
  due _ := trivial
  newest _ _ mem := absurd mem List.not_mem_nil
  spaced _ := List.Pairwise.nil
  owed _ _ h := nomatch h
  once _ _ _ h := nomatch h
  done _ mem := absurd mem List.not_mem_nil
  distinct := List.nodup_nil

section

variable (inv : s.Inv)
include inv

theorem Inv.allApart (limit : Limit) : (s.stored limit).Pairwise limit.Apart :=
  (inv.spaced limit).imp fun h => .inr h

theorem Inv.apart {x y : UInt64} (hx : x ∈ s.stored limit) (hy : y ∈ s.stored limit)
    (ne : x ≠ y) : limit.Apart x y :=
  (inv.allApart limit).forall hx hy ne

theorem Inv.toSpaced : s.Spaced where
  stored := inv.allApart
  decayed := inv.distinct.imp_of_mem fun ha hb ne => inv.apart (inv.done _ ha) (inv.done _ hb) ne

theorem Inv.goto (t : Fin n) {place : Place} (due : place.Due)
    (owed : ∀ now, place.owed = some now → (s.threads t).owed = some now) :
    (s.goto t place).Inv := by
  have still : ∀ u now, ((s.goto t place).threads u).owed = some now →
      (s.threads u).owed = some now := by
    intro u now h
    by_cases same : u = t
    · subst same
      exact owed now (by simpa [Limiters.goto] using h)
    · simpa [Limiters.goto, same] using h
  refine ⟨fun u => ?_, inv.newest, inv.spaced, fun u now h => inv.owed u now (still u now h),
    fun u v now hu hv => inv.once u v now (still u now hu) (still v now hv), inv.done, inv.distinct⟩
  by_cases same : u = t
  · subst same
    simpa [Limiters.goto] using due
  · simpa [Limiters.goto, same] using inv.due u

theorem Inv.fresh (later : (s.last limit).toNat + limit.interval.toNat ≤ now.toNat)
    {x : UInt64} (mem : x ∈ s.stored limit) : x.toNat + limit.interval.toNat ≤ now.toNat := by
  have old := UInt64.le_iff_toNat_le.mp (inv.newest limit x mem)
  omega

end

theorem interval_pos (limit : Limit) : 0 < limit.interval.toNat := by
  cases limit <;> decide

theorem Inv.not_stored (inv : s.Inv)
    (later : (s.last limit).toNat + limit.interval.toNat ≤ now.toNat) : now ∉ s.stored limit := by
  intro mem
  have := inv.fresh later mem
  have := interval_pos limit
  omega

theorem mem_store {x : UInt64} (other : Limit) :
    x ∈ (s.store limit now).stored other ↔ x ∈ s.stored other ∨ other = limit ∧ x = now := by
  by_cases same : other = limit
  · subst same
    simp [store, or_comm]
  · simp [store, same]

theorem Inv.store (inv : s.Inv) (later : (s.last limit).toNat + limit.interval.toNat ≤ now.toNat) :
    (s.store limit now).Inv where
  due := inv.due
  newest := by
    intro other x mem
    by_cases same : other = limit
    · subst same
      simp only [Limiters.store, Function.update_self, List.mem_cons] at mem ⊢
      rcases mem with rfl | mem
      · exact UInt64.le_refl x
      · exact UInt64.le_iff_toNat_le.mpr (by have := inv.fresh later mem; omega)
    · simp only [Limiters.store, Function.update_of_ne same] at mem ⊢
      exact inv.newest other x mem
  spaced := by
    intro other
    by_cases same : other = limit
    · subst same
      simp only [Limiters.store, Function.update_self]
      exact (inv.spaced other).cons fun x mem => inv.fresh later mem
    · simp only [Limiters.store, Function.update_of_ne same]
      exact inv.spaced other
  owed t x h := ⟨(mem_store _).mpr (.inl (inv.owed t x h).1), (inv.owed t x h).2⟩
  once := inv.once
  done x mem := (mem_store _).mpr (.inl (inv.done x mem))
  distinct := inv.distinct

theorem Inv.owes (inv : s.Inv) (t : Fin n) (stored : now ∈ s.stored .decay)
    (undone : now ∉ s.decayed) (unowed : ∀ u, (s.threads u).owed ≠ some now) :
    (s.goto t (.read now)).Inv := by
  have place : ∀ u, (s.goto t (.read now)).threads u = if u = t then .read now else s.threads u := by
    intro u
    simp [Limiters.goto, Function.update_apply]
  refine ⟨fun u => ?_, inv.newest, inv.spaced, fun u x h => ?_, fun u v x hu hv => ?_, inv.done,
    inv.distinct⟩
  · rw [place]
    split
    · trivial
    · exact inv.due u
  · rw [place] at h
    split at h
    · cases h
      exact ⟨stored, undone⟩
    · exact inv.owed u x h
  · -- no other thread owes the time that was just stored
    rw [place] at hu hv
    split at hu <;> split at hv
    · next hu' hv' => rw [hu', hv']
    · cases hu
      exact absurd hv (unowed v)
    · cases hv
      exact absurd hu (unowed u)
    · exact inv.once u v x hu hv

theorem Inv.grant (inv : s.Inv) (t : Fin n)
    (later : (s.last limit).toNat + limit.interval.toNat ≤ now.toNat) :
    ((s.store limit now).goto t (granted now limit)).Inv := by
  have after := inv.store later
  cases limit with
  | probe => exact after.goto t trivial fun _ h => nomatch h
  | decay =>
    have absent := inv.not_stored later
    refine after.owes t ((mem_store _).mpr (.inr ⟨rfl, rfl⟩)) (fun mem => ?_) fun u h => ?_
    · exact absent (inv.done now mem)
    · exact absent (inv.owed u now h).1

theorem Inv.carryOut (inv : s.Inv) (t : Fin n) (owes : (s.threads t).owed = some now)
    (ewma : UInt32) : ({ s with ewma := ewma, decayed := now :: s.decayed }.goto t .idle).Inv := by
  have idle : (s.goto t .idle).Inv := inv.goto t trivial fun _ h => nomatch h
  obtain ⟨stored, undone⟩ := inv.owed t now owes
  refine ⟨idle.due, inv.newest, inv.spaced, fun u x h => ⟨(idle.owed u x h).1, ?_⟩, idle.once,
    fun x mem => ?_, inv.distinct.cons undone⟩
  · -- whoever still owes a time is another thread, and owes another time
    have ne : u ≠ t := by
      rintro rfl
      simp [Limiters.goto, Place.owed] at h
    have owes' : (s.threads u).owed = some x := by simpa [Limiters.goto, ne] using h
    rintro (_ | ⟨_, mem⟩)
    · exact ne (inv.once u t now owes' owes)
    · exact (inv.owed u x owes').2 mem
  · rcases List.mem_cons.mp mem with rfl | mem
    · exact stored
    · exact inv.done x mem

theorem due_of_timely {last : UInt64} (timely : last ≤ now)
    (passed : ¬ now - last < limit.interval) : last.toNat + limit.interval.toNat ≤ now.toNat := by
  have := UInt64.le_iff_toNat_le.mp timely
  rw [UInt64.lt_iff_toNat_lt, UInt64.toNat_sub_of_le _ _ timely] at passed
  omega

/-- A timely step keeps the stored times apart, and each decay owed or done once. -/
theorem inv_step (s : Limiters n) (a : LimitAct n) (t : Limiters n) (inv : s.Inv)
    (timely : s.Timely a) (called : s.step a = some t) : t.Inv := by
  cases a with
  | call u limit now =>
    simp only [step, Option.ite_none_right_eq_some, Option.some.injEq] at called
    obtain ⟨-, rfl⟩ := called
    have moved : (s.goto u (.load limit now)).Inv := inv.goto u trivial fun _ h => nomatch h
    exact ⟨moved.due, inv.newest, inv.spaced, moved.owed, moved.once, inv.done, inv.distinct⟩
  | go u spurious =>
    have due := inv.due u
    simp only [step] at called
    simp only [Timely] at timely
    split at called
    · cases called
    · next limit now at_load =>
      rw [at_load] at timely
      split at called <;> cases called
      · exact inv.goto u trivial fun _ h => nomatch h
      · next passed => exact inv.goto u (due_of_timely timely passed) fun _ h => nomatch h
    · next limit now last at_swap =>
      rw [at_swap] at due
      split at called <;> cases called
      · next found => exact inv.grant u (found ▸ due)
      · exact inv.goto u trivial fun _ h => nomatch h
    · next now at_read =>
      cases called
      exact inv.goto u trivial fun x h => by rw [at_read]; exact h
    · next now old at_write =>
      split at called <;> cases called
      · exact inv.carryOut u (by rw [at_write]; rfl) _
      · exact inv.goto u trivial fun x h => by rw [at_write]; exact h
  | sample ewma =>
    cases called
    exact ⟨inv.due, inv.newest, inv.spaced, inv.owed, inv.once, inv.done, inv.distinct⟩

/-- Only a successful compare-and-swap changes a stored time. -/
theorem last_step {a : LimitAct n} {t : Limiters n} (called : s.step a = some t) (limit : Limit) :
    t.last limit = s.last limit ∨ ∃ u spurious last, a = .go u spurious ∧ s.last limit = last ∧
      s.threads u = .swap limit (t.last limit) last := by
  cases a with
  | call u other now =>
    simp only [step, Option.ite_none_right_eq_some, Option.some.injEq] at called
    obtain ⟨-, rfl⟩ := called
    exact .inl rfl
  | go u spurious =>
    simp only [step] at called
    split at called
    · cases called
    · split at called <;> cases called <;> exact .inl rfl
    · next other now last at_swap =>
      split at called <;> cases called
      · next found =>
        by_cases same : limit = other
        · subst same
          exact .inr ⟨u, spurious, last, rfl, found, by simp [at_swap, Limiters.goto, store]⟩
        · exact .inl (by simp [Limiters.goto, store, same])
      · exact .inl rfl
    · cases called
      exact .inl rfl
    · split at called <;> cases called <;> exact .inl rfl
  | sample ewma =>
    cases called
    exact .inl rfl

theorem Inv.rises (inv : s.Inv) (a : LimitAct n) : s.Rises a := by
  intro t called limit
  rcases last_step called limit with same | ⟨u, _, last, -, found, at_swap⟩
  · rw [same]
    exact UInt64.le_refl _
  · have due := inv.due u
    rw [at_swap] at due
    rw [UInt64.le_iff_toNat_le, found]
    simp only [Place.Due] at due
    omega

end Invariant

variable {n : Nat}

/-- If no thread finds a time later than its own, the limits hold in every run. -/
theorem limits_hold (clock : UInt64) (acts : List (LimitAct n))
    (timely : Run.Along step Timely (start clock) acts) :
    Run.Always step Spaced (start clock) acts ∧ Run.Along step Rises (start clock) acts := by
  have start := inv_start (n := n) clock
  refine ⟨?_, ?_⟩
  · exact Run.always_mono (fun s inv => inv.toSpaced)
      (Run.always_of_invariant inv_step start timely)
  · exact Run.along_of_invariant inv_step (fun s a inv _ => inv.rises a) start timely

/-- A probe is allowed, a second thread comes too early, and a decay is carried out. -/
theorem limits_hold_two_threads :
    let acts : List (LimitAct 2) :=
      [.call 0 .probe 30000000, .go 0 false, .call 1 .probe 40000000, .go 0 false, .go 1 false,
        .call 1 .decay 60000000, .go 1 false, .go 1 false, .go 1 false, .go 1 false]
    Run.Along step Timely (start 0) acts ∧
      Run.Always step Spaced (start 0) acts ∧ Run.Along step Rises (start 0) acts :=
  ⟨by decide +kernel, limits_hold 0 _ (by decide +kernel)⟩

/-- The first thread reads the clock and is held up. The second reads it one nanosecond later and is
let through. The first finds that time, which is later than its own, and is let through as well: two
stored times are one nanosecond apart, and the stored time has gone down. -/
theorem held_up_thread_passes :
    let acts (limit : Limit) : List (LimitAct 2) :=
      [.call 0 limit 100000000, .call 1 limit 100000001, .go 1 false, .go 1 false, .go 0 false]
    let found (limit : Limit) (acts : List (LimitAct 2)) :=
      (Run.exec step (start 0) acts).map fun s => (s.last limit, s.stored limit)
    found .probe (acts .probe) = some (100000001, [100000001]) ∧
      found .probe (acts .probe ++ [.go 0 false]) = some (100000000, [100000000, 100000001]) ∧
      found .decay (acts .decay) = some (100000001, [100000001]) ∧
      found .decay (acts .decay ++ [.go 0 false]) = some (100000000, [100000000, 100000001]) := by
  decide +kernel

end Limiters

end MemExchange.Rdma
