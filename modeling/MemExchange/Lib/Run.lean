import Mathlib

/-!
# Runs of a partial step function

A system is a function `step : σ → α → Option σ`; `none` means that the action is not
enabled. Actions carry every choice the environment makes, so a run is the list of its
actions.
-/
namespace Run

variable {σ α : Type}

/-- Execute the actions in order, stopping at the first one that is not enabled. -/
def exec (step : σ → α → Option σ) : σ → List α → Option σ
  | s, [] => some s
  | s, a :: as => (step s a).bind fun t => exec step t as

variable {P : σ → Prop} (step : σ → α → Option σ) (s : σ)

@[simp] theorem exec_nil : exec step s [] = some s := rfl

@[simp] theorem exec_cons (a : α) (as : List α) :
    exec step s (a :: as) = (step s a).bind fun t => exec step t as := rfl

theorem exec_append (as bs : List α) :
    exec step s (as ++ bs) = (exec step s as).bind fun t => exec step t bs := by
  induction as generalizing s with
  | nil => rfl
  | cons a as ih =>
    cases called : step s a with
    | none => simp [called]
    | some t => simp [called, ih]

/-- Every action of the run satisfies `cond` in the state it is taken from. -/
def Along (step : σ → α → Option σ) (cond : σ → α → Prop) : σ → List α → Prop
  | _, [] => True
  | s, a :: as => cond s a ∧ ∀ t, step s a = some t → Along step cond t as

/-- Every state the run visits, the first one included, satisfies `P`. -/
def Always (step : σ → α → Option σ) (P : σ → Prop) : σ → List α → Prop
  | s, [] => P s
  | s, a :: as => P s ∧ ∀ t, step s a = some t → Always step P t as

theorem Always.here {step : σ → α → Option σ} {s : σ} {as : List α} (all : Always step P s as) :
    P s := by
  cases as with
  | nil => exact all
  | cons a as => exact all.1

theorem Always.last {step : σ → α → Option σ} {s t : σ} {as : List α} (all : Always step P s as)
    (reached : exec step s as = some t) : P t := by
  induction as generalizing s with
  | nil =>
    cases reached
    exact all
  | cons a as ih =>
    obtain ⟨u, called, onward⟩ := Option.bind_eq_some_iff.mp reached
    exact ih (all.2 u called) onward

theorem along_iff (cond : σ → α → Prop) (s : σ) (as : List α) : Along step cond s as ↔
      ∀ done a rest t, as = done ++ a :: rest → exec step s done = some t → cond t a := by
  induction as generalizing s with
  | nil => simp [Along]
  | cons a as ih =>
    constructor
    · rintro ⟨here, later⟩ done b rest t split reached
      cases done with
      | nil =>
        simp only [List.nil_append, List.cons.injEq] at split
        obtain ⟨rfl, rfl⟩ := split
        cases reached
        exact here
      | cons d done =>
        simp only [List.cons_append, List.cons.injEq] at split
        obtain ⟨rfl, rfl⟩ := split
        obtain ⟨u, called, onward⟩ := Option.bind_eq_some_iff.mp reached
        exact (ih u).mp (later u called) done b rest t rfl onward
    · intro all
      refine ⟨all [] a as s rfl rfl, fun u called => (ih u).mpr ?_⟩
      intro done b rest t split reached
      exact all (a :: done) b rest t (by rw [split]; rfl) (by simp [called, reached])

/-! ### Two systems -/

section Extension

variable {step s} {step' : σ → α → Option σ} {t : σ} {as : List α}

theorem along_extend (more : ∀ s a t, step s a = some t → step' s a = some t) {cond : σ → α → Prop}
    (reached : exec step s as = some t) (meets : Along step cond s as) : Along step' cond s as := by
  induction as generalizing s with
  | nil => trivial
  | cons a as ih =>
    obtain ⟨u, called, onward⟩ := Option.bind_eq_some_iff.mp reached
    refine ⟨meets.1, fun v called' => ?_⟩
    cases (more s a u called).symm.trans called'
    exact ih onward (meets.2 u called)

end Extension

/-! ### Checking a given run -/

section Decidable

variable {step}

instance decidableAlong {cond : σ → α → Prop} [∀ s a, Decidable (cond s a)] :
    ∀ s as, Decidable (Along step cond s as)
  | _, [] => isTrue trivial
  | s, a :: as =>
    match called : step s a with
    | none => decidable_of_iff (cond s a) (by simp [Along, called])
    | some t =>
      have : Decidable (Along step cond t as) := decidableAlong t as
      decidable_of_iff (cond s a ∧ Along step cond t as) (by simp [Along, called])

instance decidableAlways {P : σ → Prop} [DecidablePred P] : ∀ s as, Decidable (Always step P s as)
  | s, [] => inferInstanceAs (Decidable (P s))
  | s, a :: as =>
    match called : step s a with
    | none => decidable_of_iff (P s) (by simp [Always, called])
    | some t =>
      have : Decidable (Always step P t as) := decidableAlways t as
      decidable_of_iff (P s ∧ Always step P t as) (by simp [Always, called])

end Decidable

/-! ### Invariants -/

section Invariants

variable {step s} {cond : σ → α → Prop} {Inv : σ → Prop} {as : List α}

theorem always_of_invariant (keeps : ∀ s a t, Inv s → cond s a → step s a = some t → Inv t)
    (start : Inv s) (meets : Along step cond s as) : Always step Inv s as := by
  induction as generalizing s with
  | nil => exact start
  | cons a as ih =>
    exact ⟨start, fun t called => ih (keeps s a t start meets.1 called) (meets.2 t called)⟩

/-- What every step keeps holds in all states of a run. -/
theorem always_of_step (keeps : ∀ s a t, Inv s → step s a = some t → Inv t) (start : Inv s)
    (as : List α) : Always step Inv s as := by
  induction as generalizing s with
  | nil => exact start
  | cons a as ih => exact ⟨start, fun t called => ih (keeps s a t start called)⟩

/-- An invariant that every step meeting `cond` keeps justifies a verdict on each step. -/
theorem along_of_invariant {verdict : σ → α → Prop}
    (keeps : ∀ s a t, Inv s → cond s a → step s a = some t → Inv t)
    (judges : ∀ s a, Inv s → cond s a → verdict s a) (start : Inv s)
    (meets : Along step cond s as) : Along step verdict s as := by
  induction as generalizing s with
  | nil => trivial
  | cons a as ih =>
    exact ⟨judges s a start meets.1,
      fun t called => ih (keeps s a t start meets.1 called) (meets.2 t called)⟩

/-- If from every state with `P` the steps that meet `cond` are exactly those that lead to `P`,
then `P` holds in every visited state exactly if every step meets `cond`. -/
theorem always_iff_along
    (exact : ∀ s a, P s → (cond s a ↔ ∀ t, step s a = some t → P t)) (start : P s) :
    Always step P s as ↔ Along step cond s as := by
  induction as generalizing s with
  | nil => exact ⟨fun _ => trivial, fun _ => start⟩
  | cons a as ih =>
    constructor
    · rintro ⟨-, later⟩
      refine ⟨(exact s a start).mpr fun t called => (later t called).here, fun t called => ?_⟩
      exact (ih (later t called).here).mp (later t called)
    · rintro ⟨meets, later⟩
      refine ⟨start, fun t called => ?_⟩
      exact (ih ((exact s a start).mp meets t called)).mpr (later t called)

theorem always_mono {Q : σ → Prop} (weaken : ∀ s, P s → Q s) (all : Always step P s as) :
    Always step Q s as := by
  induction as generalizing s with
  | nil => exact weaken s all
  | cons a as ih => exact ⟨weaken s all.1, fun t called => ih (all.2 t called)⟩

end Invariants

end Run
