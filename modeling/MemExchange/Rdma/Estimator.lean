import MemExchange.Rdma.Outstanding

/-!
# The average of the timeouts

`ewma_timeout_ppm` is an average in parts per million, kept with integers: a sample moves it by a
twentieth of the way, and a decay takes a fiftieth off. What the divisions cut off never stops it.
`rdma_overloaded` is a latch that is set from `PPM_HIGH` on and cleared from `PPM_LOW` down. The
estimates are for calls one after the other; the threads of `Counters` change the average by the
same events only.
-/
namespace MemExchange.Rdma

def ppmHigh : UInt32 := 200000

def ppmLow : UInt32 := 50000

/-- What changes the average: a sample `PPM`, a sample zero, and `ewma_time_decay` -/
inductive EwmaEvent where
  | timeout
  | success
  | decay
  deriving DecidableEq, Repr

namespace EwmaEvent

def apply : EwmaEvent → UInt32 → UInt32
  | timeout, v => ewmaUpdate v ppm
  | success, v => ewmaUpdate v 0
  | decay, v => ewmaDecay v

theorem apply_timeout (v : UInt32) : timeout.apply v = ewmaUpdate v ppm := rfl

/-- What is divided by `PPM`, as a number -/
def dividend : EwmaEvent → Nat → Nat
  | timeout, v => 50000 * 1000000 + 950000 * v
  | success, v => 950000 * v
  | decay, v => v * 980000

/-- The value after a sequence of events, the first one first -/
def run (v : UInt32) (events : List EwmaEvent) : UInt32 :=
  events.foldl (fun v event => event.apply v) v

/-- The 64-bit dividend and the 32-bit quotient do not overflow. -/
structure Fits (event : EwmaEvent) (v : UInt32) : Prop where
  dividend : event.dividend v.toNat < 2 ^ 64
  quotient : event.dividend v.toNat / 1000000 < 2 ^ 32
  exact : (event.apply v).toNat = event.dividend v.toNat / 1000000

end EwmaEvent

/-! ### One event -/

theorem toNat_ewmaUpdate (old sample : UInt32) :
    (ewmaUpdate old sample).toNat = (50000 * sample.toNat + 950000 * old.toNat) / 1000000 := by
  have hold := old.toNat_lt
  have hsample := sample.toNat_lt
  have factor : ((1000000 : UInt64) - 50000).toNat = 950000 := by decide
  simp only [ewmaUpdate, UInt64.toNat_toUInt32, UInt64.toNat_div, UInt64.toNat_add,
    UInt64.toNat_mul, UInt32.toNat_toUInt64, factor, UInt64.reduceToNat]
  rw [Nat.mod_eq_of_lt (a := 50000 * sample.toNat) (by omega),
    Nat.mod_eq_of_lt (a := 950000 * old.toNat) (by omega),
    Nat.mod_eq_of_lt (a := 50000 * sample.toNat + 950000 * old.toNat) (by omega)]
  exact Nat.mod_eq_of_lt (by omega)

theorem toNat_ewmaDecay (old : UInt32) : (ewmaDecay old).toNat = old.toNat * 980000 / 1000000 := by
  have hold := old.toNat_lt
  simp only [ewmaDecay, UInt64.toNat_toUInt32, UInt64.toNat_div, UInt64.toNat_mul,
    UInt32.toNat_toUInt64, UInt64.reduceToNat]
  rw [Nat.mod_eq_of_lt (a := old.toNat * 980000) (by omega)]
  exact Nat.mod_eq_of_lt (by omega)

namespace EwmaEvent

variable {v : UInt32} (event : EwmaEvent)

theorem toNat_apply (v : UInt32) : (event.apply v).toNat = event.dividend v.toNat / 1000000 := by
  cases event with
  | timeout => exact toNat_ewmaUpdate v ppm
  | success =>
    have exact := toNat_ewmaUpdate v 0
    rwa [UInt32.toNat_zero, Nat.mul_zero, Nat.zero_add] at exact
  | decay => exact toNat_ewmaDecay v

theorem fits (bound : v ≤ ppm) : event.Fits v := by
  have small : v.toNat ≤ 1000000 := UInt32.le_iff_toNat_le.mp bound
  refine ⟨?_, ?_, event.toNat_apply v⟩ <;> cases event <;> simp only [dividend] <;> omega

theorem apply_le (bound : v ≤ ppm) : event.apply v ≤ ppm := by
  have small : v.toNat ≤ 1000000 := UInt32.le_iff_toNat_le.mp bound
  have limit : ppm.toNat = 1000000 := rfl
  rw [UInt32.le_iff_toNat_le, toNat_apply, limit]
  cases event <;> simp only [dividend] <;> omega

theorem run_le (bound : v ≤ ppm) (events : List EwmaEvent) : run v events ≤ ppm := by
  induction events generalizing v with
  | nil => exact bound
  | cons event events ih => exact ih (event.apply_le bound)

theorem success_lt (nonzero : v ≠ 0) : success.apply v < v := by
  have pos : v.toNat ≠ 0 := fun h => nonzero (UInt32.toNat_inj.mp h)
  rw [UInt32.lt_iff_toNat_lt, toNat_apply]
  simp only [dividend]
  omega

theorem decay_lt (nonzero : v ≠ 0) : decay.apply v < v := by
  have pos : v.toNat ≠ 0 := fun h => nonzero (UInt32.toNat_inj.mp h)
  rw [UInt32.lt_iff_toNat_lt, toNat_apply]
  simp only [dividend]
  omega

theorem lt_timeout (below : v < ppmHigh) : v < timeout.apply v := by
  have small : v.toNat < 200000 := UInt32.lt_iff_toNat_lt.mp below
  rw [UInt32.lt_iff_toNat_lt, toNat_apply]
  simp only [dividend]
  omega

/-! ### Many decays, many timeouts -/

variable {w : UInt32} {n : Nat}

theorem apply_mono (le : v ≤ w) : event.apply v ≤ event.apply w := by
  have le' := UInt32.le_iff_toNat_le.mp le
  rw [UInt32.le_iff_toNat_le, toNat_apply, toNat_apply]
  apply Nat.div_le_div_right
  cases event <;> simp only [dividend] <;> omega

theorem run_mono (le : v ≤ w) (events : List EwmaEvent) : run v events ≤ run w events := by
  induction events generalizing v w with
  | nil => exact le
  | cons event events ih => exact ih (event.apply_mono le)

theorem run_append (v : UInt32) (first later : List EwmaEvent) :
    run v (first ++ later) = run (run v first) later :=
  List.foldl_append

theorem decay_le (v : UInt32) : decay.apply v ≤ v := by
  rw [UInt32.le_iff_toNat_le, toNat_apply]
  simp only [dividend]
  omega

theorem run_decay_le (v : UInt32) (n : Nat) : run v (List.replicate n decay) ≤ v := by
  induction n generalizing v with
  | zero => exact UInt32.le_refl v
  | succ n ih => exact UInt32.le_trans (ih (decay.apply v)) (decay_le v)

/-- The highest value is low after 149 decays, so every value is. -/
theorem low_of_decays (bound : v ≤ ppm) (many : 149 ≤ n) :
    run v (List.replicate n decay) ≤ ppmLow := by
  have worst : run ppm (List.replicate 149 decay) ≤ ppmLow := by decide +kernel
  obtain ⟨more, rfl⟩ := Nat.exists_eq_add_of_le many
  rw [← List.replicate_append_replicate, run_append]
  exact UInt32.le_trans (run_decay_le _ more) (UInt32.le_trans (run_mono bound _) worst)

/-- The value after as many timeouts, with a decay before each of them, from zero -/
def worst : Nat → UInt32
  | 0 => 0
  | n + 1 => timeout.apply (decay.apply (worst n))

theorem worst_le_succ (n : Nat) : worst n ≤ worst (n + 1) := by
  induction n with
  | zero => exact UInt32.zero_le
  | succ n ih => exact timeout.apply_mono (decay.apply_mono ih)

/-- After five timeouts a value is high, and still is after one more decay. -/
theorem high_of_worst (many : 5 ≤ n) (le : worst n ≤ v) : ppmHigh ≤ decay.apply v := by
  have fifth : ppmHigh ≤ decay.apply (worst 5) := by decide +kernel
  have grows : worst 5 ≤ worst n := by
    induction n, many using Nat.le_induction with
    | base => exact UInt32.le_refl _
    | succ n _ ih =>
      exact UInt32.le_trans (ih (UInt32.le_trans (worst_le_succ n) le)) (worst_le_succ n)
  exact UInt32.le_trans fifth (decay.apply_mono (UInt32.le_trans grows le))

theorem worst_le_run (v : UInt32) (n : Nat) : worst n ≤ run v (List.replicate n timeout) := by
  induction n with
  | zero => exact UInt32.zero_le
  | succ n ih =>
    rw [List.replicate_succ', run_append]
    exact timeout.apply_mono (UInt32.le_trans (decay_le _) ih)

end EwmaEvent

/-! ### A call -/

/-- The variables that a call of `get_remote_item` reads before it posts a read -/
structure Gate where
  ewma : UInt32 := 0
  overloaded : Bool := false
  lastDecay : UInt64 := 0
  lastProbe : UInt64 := 0
  outstanding : Int := 0
  deriving DecidableEq, Repr

/-- What a call finds: the times that `ewma_time_decay` and `allow_probe` read, whether the adapter
takes the read, and whether the item is there in time -/
structure Call where
  decayNow : UInt64
  probeNow : UInt64
  accepted : Bool
  ready : Bool
  deriving DecidableEq, Repr

/-- An item; `NULL` with a sample `PPM`; or `NULL` before anything was posted -/
inductive Answer where
  | item
  | timeout
  | refused
  deriving DecidableEq, Repr

namespace Gate

/-- `ewma_time_decay` -/
def timeDecay (g : Gate) (now : UInt64) : Gate :=
  if now - g.lastDecay < 50000000 then g
  else { g with lastDecay := now, ewma := ewmaDecay g.ewma }

def allowProbe (g : Gate) (now : UInt64) : Gate × Bool :=
  if now - g.lastProbe < 20000000 then (g, false) else ({ g with lastProbe := now }, true)

/-- The latch with its two thresholds, and whether the call may go on -/
def latch (g : Gate) (now : UInt64) : Gate × Bool :=
  if g.overloaded then
    if g.ewma ≤ ppmLow then ({ g with overloaded := false }, true) else g.allowProbe now
  else if ppmHigh ≤ g.ewma then { g with overloaded := true }.allowProbe now
  else (g, true)

/-- From the reservation of a slot to its release -/
def attempt (g : Gate) (accepted ready : Bool) : Gate × Answer :=
  if maxOutstanding ≤ g.outstanding then (g, .refused)
  else if accepted && ready then ({ g with ewma := ewmaUpdate g.ewma 0 }, .item)
  else ({ g with ewma := ewmaUpdate g.ewma ppm }, .timeout)

def getRemoteItem (g : Gate) (c : Call) : Gate × Answer :=
  let (g, passes) := (g.timeDecay c.decayNow).latch c.probeNow
  if passes then g.attempt c.accepted c.ready else (g, .refused)

/-- A call that ends with a timeout, or with a read that the adapter did not take -/
def timedOut (g : Gate) (c : Call) : Option Gate :=
  if (g.getRemoteItem c).2 = .timeout then some (g.getRemoteItem c).1 else none

variable {g : Gate}

@[simp] theorem overloaded_allowProbe (g : Gate) (now : UInt64) :
    (g.allowProbe now).1.overloaded = g.overloaded := by
  unfold allowProbe
  split <;> rfl

@[simp] theorem ewma_allowProbe (g : Gate) (now : UInt64) : (g.allowProbe now).1.ewma = g.ewma := by
  unfold allowProbe
  split <;> rfl

@[simp] theorem ewma_latch (g : Gate) (now : UInt64) : (g.latch now).1.ewma = g.ewma := by
  unfold latch
  split
  · split
    · rfl
    · exact ewma_allowProbe g now
  · split
    · exact ewma_allowProbe _ now
    · rfl

@[simp] theorem overloaded_attempt (g : Gate) (accepted ready : Bool) :
    (g.attempt accepted ready).1.overloaded = g.overloaded := by
  unfold attempt
  split
  · rfl
  · split <;> rfl

theorem overloaded_getRemoteItem (g : Gate) (c : Call) : (g.getRemoteItem c).1.overloaded =
    ((g.timeDecay c.decayNow).latch c.probeNow).1.overloaded := by
  unfold getRemoteItem
  dsimp only
  split
  · exact overloaded_attempt _ _ _
  · rfl

theorem ewma_timeDecay (g : Gate) (now : UInt64) : (g.timeDecay now).ewma = g.ewma ∨
      (g.timeDecay now).ewma = EwmaEvent.decay.apply g.ewma := by
  unfold timeDecay
  split
  · exact .inl rfl
  · exact .inr rfl

theorem ewma_timeDecay_le (g : Gate) (now : UInt64) : (g.timeDecay now).ewma ≤ g.ewma := by
  rcases g.ewma_timeDecay now with same | decayed
  · rw [same]
    exact UInt32.le_refl _
  · rw [decayed]
    exact EwmaEvent.decay_le g.ewma

theorem decay_le_ewma_timeDecay (g : Gate) (now : UInt64) :
    EwmaEvent.decay.apply g.ewma ≤ (g.timeDecay now).ewma := by
  rcases g.ewma_timeDecay now with same | decayed
  · rw [same]
    exact EwmaEvent.decay_le g.ewma
  · rw [decayed]
    exact UInt32.le_refl _

theorem latch_of_low (low : g.ewma ≤ ppmLow) (now : UInt64) :
    (g.latch now).1.overloaded = false := by
  have below : ¬ ppmHigh ≤ g.ewma := fun high =>
    absurd (UInt32.le_trans high low) (by decide)
  unfold latch
  by_cases set : g.overloaded
  · rw [if_pos set, if_pos low]
  · rw [if_neg set, if_neg below]
    exact Bool.eq_false_of_not_eq_true set

theorem latch_of_high (high : ppmHigh ≤ g.ewma) (now : UInt64) :
    (g.latch now).1.overloaded = true := by
  have above : ¬ g.ewma ≤ ppmLow := fun low =>
    absurd (UInt32.le_trans high low) (by decide)
  unfold latch
  by_cases set : g.overloaded
  · rw [if_pos set, if_neg above, overloaded_allowProbe, set]
  · rw [if_neg set, if_pos high, overloaded_allowProbe]

theorem clears (low : g.ewma ≤ ppmLow) (c : Call) : (g.getRemoteItem c).1.overloaded = false := by
  rw [overloaded_getRemoteItem]
  exact latch_of_low (UInt32.le_trans (g.ewma_timeDecay_le _) low) _

theorem sets (high : ppmHigh ≤ EwmaEvent.decay.apply g.ewma) (c : Call) :
    (g.getRemoteItem c).1.overloaded = true := by
  rw [overloaded_getRemoteItem]
  exact latch_of_high (UInt32.le_trans high (g.decay_le_ewma_timeDecay _)) _

theorem ewma_attempt {accepted ready : Bool} (out : (g.attempt accepted ready).2 = .timeout) :
    (g.attempt accepted ready).1.ewma = EwmaEvent.timeout.apply g.ewma := by
  unfold attempt at out ⊢
  split at out
  · cases out
  · split at out
    · cases out
    · next slot failed =>
      rw [if_neg slot, if_neg failed, EwmaEvent.apply_timeout]

theorem ewma_timedOut {c : Call} {g' : Gate} (out : g.timedOut c = some g') :
    EwmaEvent.timeout.apply (EwmaEvent.decay.apply g.ewma) ≤ g'.ewma := by
  simp only [timedOut, Option.ite_none_right_eq_some, Option.some.injEq] at out
  obtain ⟨answer, rfl⟩ := out
  have decayed := g.decay_le_ewma_timeDecay c.decayNow
  rw [← ewma_latch (g.timeDecay c.decayNow) c.probeNow] at decayed
  unfold getRemoteItem at answer ⊢
  dsimp only at answer ⊢
  split at answer
  · next passes =>
    rw [if_pos passes, ewma_attempt answer]
    exact EwmaEvent.timeout.apply_mono decayed
  · cases answer

theorem worst_le_timedOut {calls : List Call} {g' : Gate} {n : Nat}
    (before : EwmaEvent.worst n ≤ g.ewma) (out : Run.exec timedOut g calls = some g') :
    EwmaEvent.worst (n + calls.length) ≤ g'.ewma := by
  induction calls generalizing g n with
  | nil =>
    cases out
    exact before
  | cons c calls ih =>
    rw [Run.exec_cons, Option.bind_eq_some_iff] at out
    obtain ⟨u, here, later⟩ := out
    have after : EwmaEvent.worst (n + 1) ≤ u.ewma := by
      rw [EwmaEvent.worst]
      have decayed := EwmaEvent.decay.apply_mono before
      exact UInt32.le_trans (EwmaEvent.timeout.apply_mono decayed) (ewma_timedOut here)
    have := ih after later
    rwa [Nat.add_right_comm, Nat.add_assoc] at this

end Gate

/-- The average stays in its range and every value is computed exactly; each event makes progress; so
after enough decays the next call clears the latch, and after enough timeouts it sets it, whether the
timeouts follow each other directly or are those of whole calls. -/
theorem estimator_bounded_and_recovers : (∀ events, EwmaEvent.run 0 events ≤ ppm ∧
      ∀ event : EwmaEvent, event.Fits (EwmaEvent.run 0 events)) ∧
    (∀ v, v ≠ 0 → EwmaEvent.success.apply v < v ∧ EwmaEvent.decay.apply v < v) ∧
    (∀ v, v < ppmHigh → v < EwmaEvent.timeout.apply v) ∧
    (∃ bound, ∀ g : Gate, g.ewma ≤ ppm → ∀ n, bound ≤ n →
      let low := EwmaEvent.run g.ewma (List.replicate n .decay)
      low ≤ ppmLow ∧ ∀ c, (({ g with ewma := low } : Gate).getRemoteItem c).1.overloaded = false) ∧
    (∃ bound, ∀ g : Gate,
      (∀ n, bound ≤ n → ∀ c, (({ g with
        ewma := EwmaEvent.run g.ewma (List.replicate n .timeout) } : Gate).getRemoteItem
          c).1.overloaded = true) ∧
      (∀ calls g', bound ≤ calls.length → Run.exec Gate.timedOut g calls = some g' →
        ∀ c, (g'.getRemoteItem c).1.overloaded = true)) := by
  refine ⟨fun events => ?_, fun v nonzero => ?_, fun v => EwmaEvent.lt_timeout, ⟨149, ?_⟩, ⟨5, ?_⟩⟩
  · have bound := EwmaEvent.run_le (v := 0) (by decide) events
    exact ⟨bound, fun event => event.fits bound⟩
  · exact ⟨EwmaEvent.success_lt nonzero, EwmaEvent.decay_lt nonzero⟩
  · intro g bound n many
    have low := EwmaEvent.low_of_decays bound many
    exact ⟨low, fun c => Gate.clears low c⟩
  · intro g
    refine ⟨fun n many c => ?_, fun calls g' many out c => ?_⟩
    · exact Gate.sets (EwmaEvent.high_of_worst many (EwmaEvent.worst_le_run g.ewma n)) c
    · have worst := Gate.worst_le_timedOut (n := 0) UInt32.zero_le out
      rw [Nat.zero_add] at worst
      exact Gate.sets (EwmaEvent.high_of_worst many worst) c

-- from the initial state five calls can time out one after the other
example : (Run.exec Gate.timedOut {} (List.replicate 5 ⟨0, 0, true, false⟩)).isSome := by
  decide +kernel

/-! ### The average under threads -/

/-- The samples that a thread may push -/
def Pc.Honest : Pc → Prop
  | .sampleRead sample _ | .sampleWrite _ sample _ => sample = 0 ∨ sample = ppm
  | _ => True

namespace Counters

variable {n : Nat} {s u : Counters n}

/-- The average changes by an event, or not at all. -/
def Moves (s u : Counters n) : Prop :=
  u.ewma = s.ewma ∨ ∃ event : EwmaEvent, u.ewma = event.apply s.ewma

theorem honest_goto (honest : ∀ t, (s.threads t).pc.Honest) (t : Fin n) {th : Thread}
    (here : th.pc.Honest) (v : Fin n) : (Function.update s.threads t th v).pc.Honest := by
  by_cases same : v = t
  · rwa [same, Function.update_self]
  · rw [Function.update_of_ne same]
    exact honest v

theorem moves_step {a : Fin n × Found} (honest : ∀ t, (s.threads t).pc.Honest)
    (called : s.step a = some u) : s.Moves u ∧ ∀ t, (u.threads t).pc.Honest := by
  obtain ⟨t, found⟩ := a
  have own := honest t
  -- most steps leave the average alone
  have on : ∀ {th : Thread} {v : Counters n}, some v = some u → v.ewma = s.ewma →
      v.threads = Function.update s.threads t th → th.pc.Honest →
      s.Moves u ∧ ∀ t, (u.threads t).pc.Honest := by
    intro th v same ewma threads honestly
    cases same
    exact ⟨.inl ewma, threads ▸ honest_goto honest t honestly⟩
  cases here : (s.threads t).pc <;> simp only [Counters.step, here] at called <;>
    rw [here] at own
  case decayWrite old =>
    split at called
    · next swapped =>
      cases called
      exact ⟨.inr ⟨.decay, swapped.1 ▸ rfl⟩, honest_goto honest t trivial⟩
    · exact on called rfl rfl trivial
  case post =>
    split at called
    · exact on called rfl rfl trivial
    · exact on called rfl rfl (.inr rfl)
  case wait =>
    split at called
    · cases called
      exact ⟨.inl rfl, honest⟩
    · exact on called rfl rfl (.inl rfl)
    · exact on called rfl rfl (.inr rfl)
  case sampleRead sample result => exact on called rfl rfl own
  case sampleWrite old sample result =>
    split at called
    · next swapped =>
      cases called
      refine ⟨.inr ?_, honest_goto honest t trivial⟩
      rcases own with rfl | rfl
      · exact ⟨.success, swapped.1 ▸ rfl⟩
      · exact ⟨.timeout, swapped.1 ▸ rfl⟩
    · exact on called rfl rfl own
  all_goals
    repeat' split at called
  all_goals exact on called rfl rfl trivial

theorem ewma_le_ppm (acts : List (Fin n × Found)) :
    Run.Always step (fun s => s.ewma ≤ ppm) ({} : Counters n) acts := by
  have both : Run.Always step (fun s => s.ewma ≤ ppm ∧ ∀ t, (s.threads t).pc.Honest)
      ({} : Counters n) acts := by
    refine Run.always_of_step (fun s a u inv called => ?_) ⟨UInt32.zero_le, fun _ => trivial⟩ acts
    obtain ⟨moves, honest⟩ := moves_step inv.2 called
    refine ⟨?_, honest⟩
    rcases moves with same | ⟨event, moved⟩
    · rw [same]
      exact inv.1
    · rw [moved]
      exact event.apply_le inv.1
  exact Run.always_mono (fun _ inv => inv.1) both

end Counters

end MemExchange.Rdma
