import MemExchange.Slabs.Removal

/-!
# Page allocations that fail

`shm_malloc` and `shm_malloc_spare` return early in between taking the semaphore of the tracker and
giving it back: the next access of any tenant waits forever, the first of all the `get_tracker` with
which `memory_allocate` goes on in a greedy tenant. A tenant that is not greedy comes back from
`memory_allocate`, which has counted the page as allocated.
-/
namespace MemExchange.Slabs

open Tracker (adjustSize)

/-! ### Calls that may fail -/

/-- A call returns, waits for the semaphore forever, or follows a pointer that was not set. -/
inductive Outcome (α : Type) where
  | returns (a : α)
  | blocks
  | crashes
  deriving DecidableEq, Repr

namespace Outcome

variable {α β : Type}

def bind : Outcome α → (α → Outcome β) → Outcome β
  | .returns a, f => f a
  | .blocks, _ => .blocks
  | .crashes, _ => .crashes

def answer : Outcome α → Option α
  | .returns a => some a
  | _ => none

def isBlocked : Outcome α → Bool
  | .blocks => true
  | _ => false

instance : Monad Outcome where
  pure := .returns
  bind := bind

variable (a : α) (f : α → Outcome β)

@[simp] theorem returns_bind : (Outcome.returns a >>= f) = f a := rfl

@[simp] theorem blocks_bind : (Outcome.blocks >>= f) = .blocks := rfl

@[simp] theorem crashes_bind : (Outcome.crashes >>= f) = .crashes := rfl

@[simp] theorem pure_eq : (pure a : Outcome α) = .returns a := rfl

theorem bind_eq_returns {x : Outcome α} {f : α → Outcome β} {b : β}
    (done : (x >>= f) = .returns b) : ∃ a, x = .returns a ∧ f a = .returns b := by
  cases x with
  | returns a => exact ⟨a, rfl, done⟩
  | blocks => cases done
  | crashes => cases done

end Outcome

/-- How the system calls of one access to the shared memory end. -/
structure SysCalls where
  /-- `shm_open` and `mmap` of the tracker. -/
  openTracker : Bool := true
  mapTracker : Bool := true
  /-- `shm_open` and `write` of the slab file. -/
  openSlabs : Bool := true
  write : Bool := true
  /-- The address `mmap` of the slab file returns. -/
  map : Option Int
  deriving DecidableEq, Repr

structure Shm where
  sem : Nat
  tracker : Tracker

variable (cfg : Config) (calls : SysCalls) (s : Shm) (greedy : Bool)

def SysCalls.tracks : Bool := calls.openTracker && calls.mapTracker

/-- `init_trck_access`: `sem_wait`, and then a pointer to the tracker, which the caller does not
test. -/
def initTrckAccess : Outcome (Bool × Shm) :=
  if s.sem = 0 then .blocks else .returns (calls.tracks, { s with sem := s.sem - 1 })

def termTrckAccess : Shm := { s with sem := s.sem + 1 }

def followTrack (track : Bool) : Outcome Unit := if track then .returns () else .crashes

def getTracker : Outcome (Tracker × Shm) := do
  let (track, s) ← initTrckAccess calls s
  followTrack track
  pure (s.tracker, termTrckAccess s)

/-- `shm_malloc`. Each `none` is a return with the semaphore taken. -/
def shmMalloc (pagesize n : Nat) (calls : SysCalls) (s : Shm) : Outcome (Option Int × Shm) := do
  let (track, s) ← initTrckAccess calls s
  if calls.openSlabs then
    followTrack track
    let n := adjustSize pagesize n
    match calls.write, calls.map with
    | false, _ => pure (none, s)
    | true, none => pure (none, s)
    | true, some rptr =>
      if s.tracker.maxSize < s.tracker.usedSize + n then pure (none, s)
      else
        let t := { s.tracker with
          startAddress := s.tracker.startAddress - n
          usedSize := s.tracker.usedSize + n }
        pure (some rptr, termTrckAccess { s with tracker := t })
  else pure (none, s)

def shmMallocSpare (pagesize n : Nat) (id : Int) (calls : SysCalls) (s : Shm) :
    Outcome (Option Int × Shm) := do
  let (track, s) ← initTrckAccess calls s
  if calls.openSlabs then
    followTrack track
    match calls.map with
    | none => pure (none, s)
    | some rptr =>
      pure (some rptr, termTrckAccess { s with tracker := (s.tracker.shmMallocSpare pagesize n id).2 })
  else pure (none, s)

/-! ### The tenant -/

structure Host where
  world : World
  sem : Nat

/-- The system calls of `do_slabs_newslab`: its own look at the tracker, `shm_malloc`, and the
look at the end of `memory_allocate`. -/
structure PageCalls where
  limit : SysCalls
  alloc : SysCalls
  after : SysCalls
  deriving DecidableEq, Repr

namespace Host

variable (calls : PageCalls) (h : Host)

def shm : Shm := ⟨h.sem, h.world.tracker⟩

def put (s : Shm) : Host := ⟨{ h.world with tracker := s.tracker }, s.sem⟩

def setWorld (f : World → World) : Host := { h with world := f h.world }

/-- A greedy tenant reads its limit from the tracker. -/
def refresh (look : SysCalls) : Outcome Host :=
  if greedy then do
    let (_, s) ← getTracker look h.shm
    pure ((h.put s).setWorld (·.readLimit cfg))
  else pure h

def memoryAllocate (size : Nat) : Outcome (Option Nat × Host) :=
  if cfg.prealloc then
    if size > h.world.account.memAvail then pure (none, h)
    else do
      let (page, w) := h.world.mapPage h.world.account.memCurrent 0
      let size := if size % 8 ≠ 0 then size + (8 - size % 8) else size
      let w := w.setAccount fun a =>
        { a with
          memCurrent := a.memCurrent + size
          memAvail := if size < a.memAvail then a.memAvail - size else 0 }
      let h ← refresh cfg greedy { h with world := w } calls.after
      pure (some page, h)
  else do
    let (ret, s) ← shmMalloc cfg.pagesize size calls.alloc h.shm
    let size := adjustSize cfg.pagesize size
    let (page, w) := match ret with
      | none => (none, (h.put s).world)
      | some addr =>
        let (page, w) := (h.put s).world.mapPage addr size
        (some page, w)
    -- the size is counted whether or not there is a page
    let w := w.setAccount fun a => { a with memMalloced := a.memMalloced + size }
    let h ← refresh cfg greedy { h.put s with world := w } calls.after
    pure (page, h)

/-- `do_slabs_newslab` up to its request for memory: its answer, or the tenant that asks. -/
def untilMemory (id : Int) : Outcome ((Bool × Host) ⊕ Host) := do
  let h ← (if h.world.account.memLimitReached then pure h else refresh cfg greedy h calls.limit)
  if h.world.limitHit cfg id then
    pure (.inl (false, h.setWorld (·.setAccount fun a => { a with memLimitReached := true })))
  else if h.world.account.memLimitReached then pure (.inl (false, h))
  else
    match h.world.getPageFromGlobalPool with
    | (some page, w) => pure (.inl (true, { h with world := w.addPage cfg page id }))
    | (none, _) => pure (.inr h)

def doSlabsNewslab (id : Int) : Outcome (Bool × Host) := do
  match ← h.untilMemory cfg greedy calls id with
  | .inl answer => pure answer
  | .inr h =>
    let (ret, h) ← h.memoryAllocate cfg greedy calls (cfg.len id)
    match ret with
    | none => pure (false, h)
    | some page => pure (true, h.setWorld (·.addPage cfg page id))

end Host

/-! ### Failures -/

inductive PageCall where
  | shmMalloc (n : Nat)
  | shmMallocSpare (n : Nat) (id : Int)
  | memoryAllocate (size : Nat)
  | doSlabsNewslab (id : Int)
  deriving DecidableEq, Repr

/-- The semaphore, the tracker, what the tenant has allocated, and its pages and free lists. -/
structure Unchanged (h h' : Host) : Prop where
  sem : h'.sem = h.sem
  tracker : h'.world.tracker = h.world.tracker
  memMalloced : h'.world.account.memMalloced = h.world.account.memMalloced
  cls : h'.world.cls = h.world.cls

/-- If the tracker's memory is refused, nothing changes, and the callers report the failure. -/
def FailsCleanly (calls : PageCalls) (h : Host) : PageCall → Prop
  | .shmMalloc n => ∀ s, shmMalloc cfg.pagesize n calls.alloc h.shm = .returns (none, s) → s = h.shm
  | .shmMallocSpare n id =>
    ∀ s, shmMallocSpare cfg.pagesize n id calls.alloc h.shm = .returns (none, s) → s = h.shm
  | .memoryAllocate size => cfg.prealloc = false → ∀ s,
    shmMalloc cfg.pagesize size calls.alloc h.shm = .returns (none, s) → s = h.shm ∧
      ∃ h', h.memoryAllocate cfg greedy calls size = .returns (none, h') ∧ Unchanged h h'
  | .doSlabsNewslab id => cfg.prealloc = false → ∀ h₁ s,
    h.untilMemory cfg greedy calls id = .returns (.inr h₁) →
    shmMalloc cfg.pagesize (cfg.len id) calls.alloc h₁.shm = .returns (none, s) → s = h₁.shm ∧
      ∃ h', h.doSlabsNewslab cfg greedy calls id = .returns (false, h') ∧ Unchanged h h'

/-- `shm_malloc` does not return `NULL`: it waits for the semaphore, it crashes on a tracker that
is not mapped, or its calls succeed and the size fits. -/
def Serves (pagesize n : Nat) (calls : SysCalls) (s : Shm) : Prop :=
  s.sem = 0 ∨ calls.openSlabs = true ∧ (calls.tracks = false ∨ calls.write = true ∧
    calls.map ≠ none ∧ s.tracker.usedSize + adjustSize pagesize n ≤ s.tracker.maxSize)

/-- The same for `shm_malloc_spare`. -/
def ServesSpare : Prop :=
  s.sem = 0 ∨ calls.openSlabs = true ∧ (calls.tracks = false ∨ calls.map ≠ none)

def Served (calls : PageCalls) (h : Host) : PageCall → Prop
  | .shmMalloc n => Serves cfg.pagesize n calls.alloc h.shm
  | .shmMallocSpare _ _ => ServesSpare calls.alloc h.shm
  | .memoryAllocate size => cfg.prealloc = false → Serves cfg.pagesize size calls.alloc h.shm
  | .doSlabsNewslab id => cfg.prealloc = false → ∀ h₁,
    h.untilMemory cfg greedy calls id = .returns (.inr h₁) →
      Serves cfg.pagesize (cfg.len id) calls.alloc h.shm

section Failures

variable {calls s} {pagesize n : Nat} {id : Int} {s' : Shm}

theorem shmMalloc_none_iff : shmMalloc pagesize n calls s = .returns (none, s') ↔
    ¬ Serves pagesize n calls s ∧ { s with sem := s.sem - 1 } = s' := by
  unfold shmMalloc initTrckAccess Serves followTrack
  by_cases taken : s.sem = 0
  · simp [taken]
  cases opened : calls.openSlabs with
  | false => simp [taken]
  | true =>
    cases tracked : calls.tracks with
    | false => simp [taken]
    | true =>
      -- the tracker is mapped: `write`, `mmap` and the size are left
      cases written : calls.write with
      | false => simp [taken]
      | true =>
        cases mapped : calls.map with
        | none => simp [taken]
        | some rptr =>
          by_cases full : s.tracker.maxSize < s.tracker.usedSize + adjustSize pagesize n
          · simp [taken, full]
          · simp [taken, full, Nat.le_of_not_lt full]

theorem shmMallocSpare_none_iff : shmMallocSpare pagesize n id calls s = .returns (none, s') ↔
    ¬ ServesSpare calls s ∧ { s with sem := s.sem - 1 } = s' := by
  unfold shmMallocSpare initTrckAccess ServesSpare followTrack
  by_cases taken : s.sem = 0
  · simp [taken]
  cases opened : calls.openSlabs with
  | false => simp [taken]
  | true =>
    cases tracked : calls.tracks with
    | false => simp [taken]
    | true => cases mapped : calls.map <;> simp [taken]

theorem keeps_semaphore (refused : ¬ s.sem = 0) : ({ s with sem := s.sem - 1 } : Shm) ≠ s := by
  intro same
  have : s.sem - 1 = s.sem := congrArg Shm.sem same
  omega

variable {cfg greedy} {pageCalls : PageCalls} {h h₁ : Host} {look : SysCalls}

theorem refresh_shm (done : Host.refresh cfg greedy h look = .returns h₁) : h₁.shm = h.shm := by
  unfold Host.refresh at done
  split at done
  · obtain ⟨⟨t, s⟩, looked, done⟩ := Outcome.bind_eq_returns done
    obtain ⟨⟨track, s₁⟩, waited, looked⟩ := Outcome.bind_eq_returns looked
    obtain ⟨-, -, looked⟩ := Outcome.bind_eq_returns looked
    cases done
    cases looked
    unfold initTrckAccess at waited
    split at waited
    · cases waited
    next free =>
      cases waited
      have back : h.shm.sem - 1 + 1 = h.sem := Nat.succ_pred free
      change Shm.mk (h.shm.sem - 1 + 1) h.world.tracker = _
      rw [back]
      rfl
  · cases done
    rfl

theorem untilMemory_shm
    (asks : h.untilMemory cfg greedy pageCalls id = .returns (.inr h₁)) : h₁.shm = h.shm := by
  obtain ⟨h₂, looked, asks⟩ := Outcome.bind_eq_returns asks
  have same : h₂.shm = h.shm := by
    split at looked
    · cases looked; rfl
    · exact refresh_shm looked
  split at asks
  · cases asks
  · split at asks
    · cases asks
    · split at asks
      · cases asks
      · cases asks
        exact same

/-! ### What the callers do about it -/

theorem refresh_of_taken (taken : h.sem = 0) : Host.refresh cfg true h look = .blocks := by
  have waits : initTrckAccess look h.shm = .blocks := if_pos taken
  simp only [Host.refresh, if_true, getTracker, waits, Outcome.blocks_bind]

theorem refresh_of_free (free : h.sem ≠ 0) (tracked : look.tracks = true) :
    Host.refresh cfg true h look = .returns (h.setWorld (·.readLimit cfg)) := by
  have waits : initTrckAccess look h.shm = .returns (true, ⟨h.sem - 1, h.world.tracker⟩) := by
    rw [initTrckAccess, if_neg (show ¬ h.shm.sem = 0 from free), tracked]
    rfl
  have back : h.sem - 1 + 1 = h.sem := Nat.succ_pred free
  simp only [Host.refresh, if_true, getTracker, waits, followTrack, Outcome.returns_bind,
    Outcome.pure_eq, termTrckAccess, Host.put, back, Host.setWorld]

theorem shmMalloc_of_room {rptr : Int} (free : s.sem ≠ 0) (opened : calls.openSlabs = true)
    (tracked : calls.tracks = true) (written : calls.write = true) (mapped : calls.map = some rptr)
    (room : ¬ s.tracker.maxSize < s.tracker.usedSize + adjustSize pagesize n) :
    shmMalloc pagesize n calls s = .returns (some rptr, ⟨s.sem, { s.tracker with
      startAddress := s.tracker.startAddress - adjustSize pagesize n
      usedSize := s.tracker.usedSize + adjustSize pagesize n }⟩) := by
  have back : s.sem - 1 + 1 = s.sem := Nat.succ_pred free
  simp only [shmMalloc, initTrckAccess, if_neg free, Outcome.returns_bind, opened, if_true, followTrack,
    tracked, written, mapped, if_neg room, Outcome.pure_eq, termTrckAccess, back]

theorem memoryAllocate_blocks {size : Nat} (fresh : cfg.prealloc = false) (one : h.sem = 1)
    (refused : ¬ Serves cfg.pagesize size pageCalls.alloc h.shm) :
    h.memoryAllocate cfg true pageCalls size = .blocks := by
  have answer := shmMalloc_none_iff.mpr ⟨refused, rfl⟩
  have zero : h.shm.sem - 1 = 0 := by
    change h.sem - 1 = 0
    omega
  simp only [Host.memoryAllocate, fresh, Bool.false_eq_true, if_false, answer, Outcome.returns_bind]
  rw [refresh_of_taken zero, Outcome.blocks_bind]

/-- Where the system calls succeed and `mmap` returns the address it was asked for, this is the
`memory_allocate` of a greedy tenant whose failing `shm_malloc` has no result. -/
theorem memoryAllocate_eq {size : Nat} (fresh : cfg.prealloc = false) (one : h.sem = 1)
    (opened : pageCalls.alloc.openSlabs = true) (tracked : pageCalls.alloc.tracks = true)
    (written : pageCalls.alloc.write = true)
    (mapped : pageCalls.alloc.map = some h.world.tracker.startAddress)
    (looks : pageCalls.after.tracks = true) : h.memoryAllocate cfg true pageCalls size =
      match h.world.memoryAllocate cfg size with
      | none => .blocks
      | some (page, w) => .returns (page, { h with world := w }) := by
  have free : h.sem ≠ 0 := by omega
  by_cases full : h.world.tracker.maxSize < h.world.tracker.usedSize + adjustSize cfg.pagesize size
  · have refused : ¬ Serves cfg.pagesize size pageCalls.alloc h.shm := by
      rintro (zero | ⟨-, untracked | ⟨-, -, fits⟩⟩)
      · exact free zero
      · simp [tracked] at untracked
      · exact absurd full (Nat.not_lt.mpr fits)
    rw [memoryAllocate_blocks fresh one refused]
    simp only [World.memoryAllocate, fresh, Bool.false_eq_true, if_false, Tracker.shmMalloc, full,
      if_true]
  · have answer := shmMalloc_of_room (s := h.shm) free opened tracked written mapped full
    simp only [Host.memoryAllocate, fresh, Bool.false_eq_true, if_false, answer, Outcome.returns_bind,
      World.memoryAllocate, Tracker.shmMalloc, full]
    have looked : ∀ w sem, sem ≠ 0 →
        Host.refresh cfg true ⟨w, sem⟩ pageCalls.after = .returns ⟨w.readLimit cfg, sem⟩ :=
      fun _ _ free => refresh_of_free free looks
    rw [looked]
    · rfl
    · exact free

/-- **A failed page allocation keeps the semaphore.** Nothing changes exactly if the memory is not
refused. -/
theorem failed_allocation_clean_iff (cfg : Config) (greedy : Bool) (calls : PageCalls) (h : Host)
    (call : PageCall) : FailsCleanly cfg greedy calls h call ↔ Served cfg greedy calls h call := by
  -- a refused request has taken the semaphore, so it was free
  have refused : ∀ {n : Nat} {s : Shm}, ¬ Serves cfg.pagesize n calls.alloc s →
      ({ s with sem := s.sem - 1 } : Shm) ≠ s := fun no => keeps_semaphore fun zero => no (.inl zero)
  have answers : ∀ {n : Nat} {s : Shm}, ¬ Serves cfg.pagesize n calls.alloc s →
      shmMalloc cfg.pagesize n calls.alloc s = .returns (none, { s with sem := s.sem - 1 }) :=
    fun no => shmMalloc_none_iff.mpr ⟨no, rfl⟩
  cases call with
  | shmMalloc n =>
    constructor
    · intro clean
      by_contra no
      exact refused no (clean _ (answers no))
    · intro served s failed
      exact absurd served (shmMalloc_none_iff.mp failed).1
  | shmMallocSpare n id =>
    constructor
    · intro clean
      by_contra no
      exact keeps_semaphore (fun zero => no (.inl zero)) (clean _ (shmMallocSpare_none_iff.mpr ⟨no, rfl⟩))
    · intro served s failed
      exact absurd served (shmMallocSpare_none_iff.mp failed).1
  | memoryAllocate size =>
    constructor
    · intro clean fresh
      by_contra no
      exact refused no (clean fresh _ (answers no)).1
    · intro served fresh s failed
      exact absurd (served fresh) (shmMalloc_none_iff.mp failed).1
  | doSlabsNewslab id =>
    constructor
    · intro clean fresh h₁ asks
      by_contra no
      rw [← untilMemory_shm asks] at no
      exact refused no (clean fresh h₁ _ asks (answers no)).1
    · intro served fresh h₁ s asks failed
      have serves := served fresh h₁ asks
      rw [← untilMemory_shm asks] at serves
      exact absurd serves (shmMalloc_none_iff.mp failed).1

end Failures

/-! ### A full tracker -/

/-- A tracker whose memory is used up. -/
def fullHost : Host := ⟨blank (halves true) 0, 1⟩

/-- Nothing is wrong with the system calls. -/
def goodCalls : PageCalls := ⟨⟨true, true, true, true, none⟩, ⟨true, true, true, true, some 0⟩,
  ⟨true, true, true, true, none⟩⟩

/-- The first page of a class is asked for. The semaphore is kept, so that every later call waits;
a tenant that is not greedy is told and counts the page nevertheless. -/
theorem full_tracker_keeps_semaphore :
    ¬ FailsCleanly (halves true) true goodCalls fullHost (.shmMalloc 1048576) ∧
      ((shmMalloc 4096 1048576 goodCalls.alloc fullHost.shm).answer.map fun (ret, s) =>
        (ret, s.sem, (getTracker goodCalls.after s).isBlocked)) = some (none, 0, true) ∧
      (fullHost.doSlabsNewslab (halves true) true goodCalls 1).isBlocked = true ∧
      ((fullHost.doSlabsNewslab (halves true) false goodCalls 1).answer.map fun (made, h) =>
        (made, h.world.account.memMalloced)) = some (false, 1052672) := by
  refine ⟨fun clean => ?_, by decide +kernel, by decide +kernel, by decide +kernel⟩
  have kept : (⟨0, fullHost.world.tracker⟩ : Shm) = fullHost.shm := clean _ rfl
  exact absurd (congrArg Shm.sem kept) (by decide)

end MemExchange.Slabs
