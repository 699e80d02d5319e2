import MemExchange.Slabs.Removal
import MemExchange.Tenant.Thread

/-!
# A round of scores

`calculate_scores` takes `spare_lock` as a victim, `spare_requested` and `max_score_lock` as the
victor, sets the globals of the mover and calls `do_slabs_reassign`, whose result it ignores. So
whatever stops the round leaves behind what was taken before. A step is one call on the tracker, or
the statements between two of them.
-/
namespace MemExchange.Slabs.Scoring

open Tenant (Rts)

/-! ### What a round may leave behind -/

/-- The requests, locks and globals. -/
structure Held where
  spareRequested : Bool
  spareLock : Bool
  maxScoreLock : Bool
  source : Tenancy
  destination : Tenancy
  slabToRelease : Int
  pagesToRequest : Int
  deriving DecidableEq, Repr

/-- The fields somebody else has just changed have their values now. -/
def Held.follow (h old new : Held) : Held where
  spareRequested := if new.spareRequested = old.spareRequested then h.spareRequested else new.spareRequested
  spareLock := if new.spareLock = old.spareLock then h.spareLock else new.spareLock
  maxScoreLock := if new.maxScoreLock = old.maxScoreLock then h.maxScoreLock else new.maxScoreLock
  source := if new.source = old.source then h.source else new.source
  destination := if new.destination = old.destination then h.destination else new.destination
  slabToRelease := if new.slabToRelease = old.slabToRelease then h.slabToRelease else new.slabToRelease
  pagesToRequest :=
    if new.pagesToRequest = old.pagesToRequest then h.pagesToRequest else new.pagesToRequest

/-- What `calculate_scores` would release: `cls_id2` and `page_id2`. -/
inductive Release where
  | nothing
  | freeSpace
  | page (id page : Int)
  deriving DecidableEq, Repr

/-- The result of scanning the slab classes: both scores, what to release, and the class and
number of the shadow page to ask for (`cls_id` and `shadow_page_id`); and whether this is the fifth
call without misses. -/
structure Finding where
  score1 : Score
  score2 : Score
  release : Release
  request : Option (Int × Nat)
  givesUp : Bool
  deriving DecidableEq

/-- Program points stand before the call that is made next. -/
inductive Pc where
  | enter (f : Finding)
  | scores (f : Finding)
  | spareNeeded (f : Finding)
  | remoteSpareNeeded (f : Finding)
  | compareMinID (f : Finding)
  | newMemAvailable (f : Finding)
  | lockSpare (r : Release)
  -- free space is released
  | freeRemote
  | freeNeeded
  | newslab
  | signalAllocFree
  | setSpareMem (ptr : Int) (n : Nat)
  | getTracker
  | unlockSpare
  -- a page is released
  | pageRemote (id : Int)
  | pageNeeded (id : Int)
  | reassign (src : Int)
  -- pages are asked for
  | compareMaxID (f : Finding)
  | reqSpare (id : Int) (page : Nat)
  | lockMaxScore (id : Int) (page : Nat)
  | reassignWaiting (id : Int)
  /-- The call is over, with a reassignment in progress or without. -/
  | ended (moving : Bool)
  deriving DecidableEq

/-- A tenant in the middle of a round. `before` is what was held before the call, with what
others have changed since; the program does not have it. -/
structure Round where
  world : World
  rts : Rts
  pagesToRequest : Int
  pc : Pc
  before : Held

namespace Round

variable (cfg : Config) (port : Int) (r : Round)

def held : Held where
  spareRequested := r.world.tracker.spareRequested
  spareLock := r.world.tracker.spareLock
  maxScoreLock := r.world.tracker.maxScoreLock
  source := r.world.rebal.source
  destination := r.world.rebal.destination
  slabToRelease := r.world.rebal.slabToRelease
  pagesToRequest := r.pagesToRequest

variable (world : World)

def begin (rts : Rts) (pagesToRequest : Int) (f : Finding) : Round :=
  let r : Round := ⟨world, rts, pagesToRequest, .enter f, ⟨false, false, false, .slab, .slab, 0, 0⟩⟩
  { r with before := r.held }

def goes (pc : Pc) : Round := { r with pc := pc }

def call (op : TrackerOp) (pc : Pc) :
    Round := { r with world := r.world.callTracker op.apply, pc := pc }

def setRebal (f : Rebal → Rebal) : Round := { r with world := r.world.setRebal f }

/-- Where a tenant without misses goes on that was told memory is needed. -/
def asVictim (f : Finding) : Pc := if r.rts = .done then .compareMinID f else .compareMaxID f

/-- `do_slabs_reassign`, at the end of the call. -/
def asks (src dst : Int) : Round :=
  { r with world := (r.world.doSlabsReassign cfg src dst).2
           pc := .ended (r.world.doSlabsReassign cfg src dst).1 }

def next : Option Round :=
  let t := r.world.tracker
  match r.pc with
  | .enter f =>
    -- during a reassignment the call only gives up the request of a waiting victor
    some (if r.world.rebal.signal = .idle then r.goes (.scores f)
      else { r.goes (.ended true) with
        pagesToRequest := if r.world.rebal.signal = .waiting ∧ f.givesUp then 0 else r.pagesToRequest })
  | .scores f =>
    some (r.call (.setScores f.score1 f.score2 port)
      (if f.score1 = ((0 : ℚ) : Score) then .spareNeeded f else .compareMaxID f))
  | .spareNeeded f => some (r.goes (if t.spareNeeded then r.asVictim f else .remoteSpareNeeded f))
  | .remoteSpareNeeded f =>
    some (r.goes (if t.remoteSpareNeeded port then r.asVictim f else .compareMaxID f))
  | .compareMinID f =>
    some (r.call (.compareMinID port f.score2)
      (if (t.compareMinID port f.score2).1 > 3 then .newMemAvailable f else .ended false))
  | .newMemAvailable f =>
    some (r.goes (if t.newMemAvailable ∨ f.release = .nothing then .ended false
      else .lockSpare f.release))
  | .lockSpare release =>
    if t.lockSpare.1 then
      match release with
      | .nothing => none
      | .freeSpace => some (r.call .lockSpare .freeRemote)
      | .page id page =>
        some ((r.call .lockSpare (.pageRemote id)).setRebal fun b =>
          { b with destination := .localTenant, slabToRelease := page, prevVictim := id })
    else some (r.goes (.ended false))
  | .freeRemote => some (r.goes (if t.remoteSpareNeeded port then .freeNeeded else .signalAllocFree))
  | .freeNeeded => some (r.goes (if t.spareNeeded then .signalAllocFree else .newslab))
  | .newslab =>
    -- the page that is released is the first one of class 1, whether or not there is a new one
    (r.world.doSlabsNewslab cfg 1).map fun w =>
      ({ r with world := w, pc := .reassign 1 } : Round).setRebal fun b =>
        { b with destination := .remoteTenant, slabToRelease := 0 }
  | .signalAllocFree =>
    let (ptr, n) := (t.signalAllocFree cfg.pagesize freeSpaceBytes).1
    some (r.call (.signalAllocFree cfg.pagesize freeSpaceBytes) (.setSpareMem ptr n))
  | .setSpareMem ptr n => some (r.call (.setSpareMem ptr n 1 cfg.slot) .getTracker)
  | .getTracker => some { r with world := r.world.readLimit cfg, pc := .unlockSpare }
  | .unlockSpare => some (r.call .unlockSpare (.ended false))
  | .pageRemote id => some (r.goes (if t.remoteSpareNeeded port then .pageNeeded id else .reassign id))
  | .pageNeeded id =>
    some ((r.goes (.reassign id)).setRebal fun b =>
      if t.spareNeeded then b else { b with destination := .remoteTenant })
  | .reassign src => some (r.asks cfg src (-2))
  | .compareMaxID f =>
    some (r.call (.compareMaxID port f.score1)
      (match f.request with
        | some (id, page) =>
          if (t.compareMaxID port f.score1).1 > 10 ∧ f.score1 ≠ ((0 : ℚ) : Score) then .reqSpare id page
          else .ended false
        | none => .ended false))
  | .reqSpare id page =>
    some (r.call .reqSpare (if t.reqSpare.1 then .lockMaxScore id page else .ended false))
  | .lockMaxScore id page =>
    some (if t.lockMaxScore.1 then
      { r.call .lockMaxScore (.reassignWaiting id) with
        pagesToRequest := page + 1
        rts := .tryToBroadcast }
    else r.goes (.ended false))
  | .reassignWaiting id => some (r.asks cfg 1000 id)
  | .ended _ => none

/-- Somebody else has changed the tenant or the tracker. -/
def meanwhile : Round :=
  { r with world := world, before := r.before.follow r.held { r with world := world }.held }

/-- `slab_rebalance_start` in the mover's thread. A request that fails is over. -/
def start : Option Round :=
  (r.world.slabRebalanceStart cfg).map fun w =>
    { r with
      world := w
      pc := if r.pc = .ended true ∧ w.rebal.signal = .idle then .ended false else r.pc }

end Round

/-- The call itself, other users of the tracker, the threads of this tenant that ask for moves, and
the mover. -/
inductive Action where
  | next
  | other (op : TrackerOp)
  | slabsReassign (src dst : Int)
  | forceReassign (d : Int)
  | start
  deriving DecidableEq

variable (cfg : Config) (r : Round) (w : World) (src : Int)

def step (port : Int) (r : Round) : Action → Option Round
  | .next => r.next cfg port
  | .other op => some (r.meanwhile (r.world.callTracker op.apply))
  | .slabsReassign src dst => some (r.meanwhile (r.world.doSlabsReassign cfg src dst).2)
  | .forceReassign d => some (r.meanwhile (r.world.forceReassign cfg d).2)
  | .start => r.start cfg

/-- A round without a move leaves nothing behind. -/
def LeavesNothing : Prop := r.pc = .ended false → r.held = r.before

instance : DecidablePred LeavesNothing := fun r => by unfold LeavesNothing; infer_instance

/-! ### Undisturbed rounds -/

/-- What the call has taken: nothing, or it has given it back; `spare_lock`, which it will release;
that and the globals of a release; a request and the lock of the highest score; or a reassignment is
in progress. -/
inductive Kind where
  | clear
  | freeing
  | releasing
  | asking
  | moving
  deriving DecidableEq, Repr

def Pc.kind : Pc → Kind
  | .freeRemote | .freeNeeded | .newslab | .signalAllocFree | .setSpareMem _ _ | .getTracker => .freeing
  | .unlockSpare => .freeing
  | .pageRemote _ | .pageNeeded _ | .reassign _ => .releasing
  | .lockMaxScore _ _ | .reassignWaiting _ => .asking
  | .ended true => .moving
  | .enter _ | .scores _ | .spareNeeded _ | .remoteSpareNeeded _ | .compareMinID _ => .clear
  | .newMemAvailable _ | .lockSpare _ | .compareMaxID _ | .reqSpare _ _ | .ended false => .clear

/-- `do_slabs_reassign` agrees to release a page of class `src`. -/
def MayRelease : Prop :=
  w.rebal.signal = .idle ∧ w.rebal.source = .slab ∧ cfg.isClass src = true ∧
    (src = 1 ∨ 2 ≤ (w.pages src).slabs)

instance : Decidable (MayRelease cfg w src) := by
  unfold MayRelease; infer_instance

/-- The next step of the call does not stop it after it has taken something. -/
def Proceeds : Pc → Prop
  | .lockMaxScore _ _ => w.tracker.maxScoreLock = false
  | .reassignWaiting _ => w.rebal.signal = .idle
  | .reassign src => MayRelease cfg w src
  | _ => True

instance : DecidablePred (Proceeds cfg w) := fun pc => by
  cases pc <;> unfold Proceeds <;> infer_instance

/-- The condition on a step: the call is not stopped after it has taken something, nobody else
releases the `spare_lock` it has, and nobody resets the globals of a release before the mover has
begun it. -/
def Undisturbed : Action → Prop
  | .next => Proceeds cfg r.world r.pc
  | .other op => r.pc.kind = .freeing → op ≠ .unlockSpare
  | .forceReassign _ => r.pc.kind ≠ .releasing ∧ r.pc.kind ≠ .moving
  | _ => True

instance : DecidableRel (Undisturbed cfg) := fun r action => by
  cases action <;> unfold Undisturbed <;> infer_instance

/-- What is held at each point of the call. While the call is asking for pages nothing need be known,
as its steps then only lead to a reassignment. -/
structure Inv (r : Round) : Prop where
  clear : r.pc.kind = .clear → r.held = r.before
  freeing : r.pc.kind = .freeing →
    r.before.spareLock = false ∧ r.held = { r.before with spareLock := true }
  releasing : r.pc.kind = .releasing → r.world.rebal.destination ≠ .slab
  moving : r.pc.kind = .moving → r.world.rebal.signal ≠ .idle ∧
    (r.world.rebal.signal = .requested → r.world.rebal.destination ≠ .slab ∨ r.held = r.before)

section Steps

variable {cfg r w} {port : Int} {r' : Round}

theorem Inv.ofClear (kind : r.pc.kind = .clear) (same : r.held = r.before) : Inv r := by
  refine ⟨fun _ => same, ?_, ?_, ?_⟩ <;> rw [kind] <;> intro other <;> cases other

theorem Inv.ofFreeing (kind : r.pc.kind = .freeing) (free : r.before.spareLock = false)
    (has : r.held = { r.before with spareLock := true }) : Inv r := by
  refine ⟨?_, fun _ => ⟨free, has⟩, ?_, ?_⟩ <;> rw [kind] <;> intro other <;> cases other

theorem Inv.ofReleasing (kind : r.pc.kind = .releasing)
    (leaves : r.world.rebal.destination ≠ .slab) : Inv r := by
  refine ⟨?_, ?_, fun _ => leaves, ?_⟩ <;> rw [kind] <;> intro other <;> cases other

theorem Inv.ofAsking (kind : r.pc.kind = .asking) : Inv r := by
  constructor <;> rw [kind] <;> intro other <;> cases other

theorem Inv.ofMoving (kind : r.pc.kind = .moving) (busy : r.world.rebal.signal ≠ .idle)
    (asked : r.world.rebal.signal = .requested →
      r.world.rebal.destination ≠ .slab ∨ r.held = r.before) : Inv r := by
  refine ⟨?_, ?_, ?_, fun _ => ⟨busy, asked⟩⟩ <;> rw [kind] <;> intro other <;> cases other

/-! ### Steps of others -/

theorem keep_or {α : Type} [DecidableEq α] (a b : α) : (if b = a then a else b) = b := by
  split
  next same => exact same.symm
  · rfl

/-- What was held before and is held now changes alike. -/
theorem follow_self (old new : Held) : old.follow old new = new := by
  simp only [Held.follow, keep_or]

/-- The same while the call has `spare_lock` and nobody releases it. -/
theorem follow_locked {h new : Held} (free : h.spareLock = false) (locked : new.spareLock = true) :
    (h.follow { h with spareLock := true } new).spareLock = false ∧
      new = { h.follow { h with spareLock := true } new with spareLock := true } := by
  simp only [Held.follow, keep_or, locked, if_true, free, true_and]
  rw [← locked]

theorem Inv.meanwhile (inv : Inv r) (locked : r.pc.kind = .freeing → w.tracker.spareLock = true)
    (destination : r.pc.kind = .releasing ∨ r.pc.kind = .moving →
      w.rebal.destination = r.world.rebal.destination)
    (signal : r.pc.kind = .moving → w.rebal.signal = r.world.rebal.signal) :
    Inv (r.meanwhile w) := by
  have clear : r.held = r.before → (r.meanwhile w).held = (r.meanwhile w).before := by
    intro same
    change { r with world := w }.held = r.before.follow r.held { r with world := w }.held
    rw [← same, follow_self]
  refine ⟨fun point => clear (inv.clear point), fun point => ?_, fun point => ?_, fun point => ?_⟩
  · obtain ⟨free, has⟩ := inv.freeing point
    have taken : { r with world := w }.held.spareLock = true := locked point
    have followed := follow_locked free taken
    rwa [← has] at followed
  · change w.rebal.destination ≠ .slab
    rw [destination (.inl point)]
    exact inv.releasing point
  · obtain ⟨busy, asked⟩ := inv.moving point
    change w.rebal.signal ≠ .idle ∧ (w.rebal.signal = .requested → w.rebal.destination ≠ .slab ∨ _)
    rw [signal point, destination (.inr point)]
    exact ⟨busy, fun requested => (asked requested).imp_right clear⟩

variable {src} {op : TrackerOp} {pc : Pc}

theorem spareLock_apply {t : Tracker} (locked : t.spareLock = true) (other : op ≠ .unlockSpare) :
    (op.apply t).spareLock = true := by
  cases op
  case unlockSpare => exact absurd rfl other
  all_goals first | exact locked | simp [TrackerOp.apply, locked]

theorem Inv.other (inv : Inv r) (quiet : r.pc.kind = .freeing → op ≠ .unlockSpare) :
    Inv (r.meanwhile (r.world.callTracker op.apply)) := by
  refine inv.meanwhile (fun point => ?_) (fun _ => rfl) fun _ => rfl
  have locked : r.world.tracker.spareLock = true := congrArg Held.spareLock (inv.freeing point).2
  exact spareLock_apply locked (quiet point)

theorem doSlabsReassign_frame (cfg : Config) (w : World) (src dst : Int) :
    (w.doSlabsReassign cfg src dst).2.tracker = w.tracker ∧
    (w.doSlabsReassign cfg src dst).2.rebal.source = w.rebal.source ∧
    (w.doSlabsReassign cfg src dst).2.rebal.destination = w.rebal.destination ∧
    (w.doSlabsReassign cfg src dst).2.rebal.slabToRelease = w.rebal.slabToRelease ∧
    (w.rebal.signal ≠ .idle → (w.doSlabsReassign cfg src dst).2.rebal.signal = w.rebal.signal) := by
  rcases w.doSlabsReassign_cases cfg src dst with
    ⟨-, cur, eq⟩ | ⟨-, idle, -, eq⟩ | ⟨-, idle, -, rest⟩
  · rw [eq]
    exact ⟨rfl, rfl, rfl, rfl, fun _ => rfl⟩
  · rw [eq]
    exact ⟨rfl, rfl, rfl, rfl, fun busy => absurd idle busy⟩
  · obtain ⟨src', cur, -, -, eq⟩ := rest
    rw [eq]
    exact ⟨rfl, rfl, rfl, rfl, fun busy => absurd idle busy⟩

theorem Inv.slabsReassign (inv : Inv r) (src dst : Int) :
    Inv (r.meanwhile (r.world.doSlabsReassign cfg src dst).2) := by
  obtain ⟨tracker, -, destination, -, signal⟩ := doSlabsReassign_frame cfg r.world src dst
  refine inv.meanwhile (fun point => ?_) (fun _ => destination) fun point => signal (inv.moving point).1
  rw [tracker]
  exact congrArg Held.spareLock (inv.freeing point).2

theorem Inv.forceReassign (inv : Inv r) (quiet : r.pc.kind ≠ .releasing ∧ r.pc.kind ≠ .moving)
    (d : Int) : Inv (r.meanwhile (r.world.forceReassign cfg d).2) := by
  refine inv.meanwhile (fun point => ?_) (fun point => ?_) fun point => absurd point quiet.2
  · rw [World.forceReassign, (doSlabsReassign_frame ..).1]
    exact congrArg Held.spareLock (inv.freeing point).2
  · exact (point.elim quiet.1 quiet.2).elim

/-! ### The mover -/

/-- The mover begins what was asked of it, or the request was for a move between two classes. -/
theorem slabRebalanceStart_cases (called : r.world.slabRebalanceStart cfg = some w) :
    w.tracker = r.world.tracker ∧ w.rebal.source = r.world.rebal.source ∧
    w.rebal.destination = r.world.rebal.destination ∧
    w.rebal.slabToRelease = r.world.rebal.slabToRelease ∧ r.world.rebal.signal = .requested ∧
    (w.rebal.signal = .moving ∨ w.rebal.signal = .idle ∧ r.world.rebal.destination = .slab) := by
  obtain ⟨requested, called⟩ := Option.ite_none_left_eq_some.mp called
  have requested := not_not.mp requested
  split at called
  next refused =>
    cases called
    exact ⟨rfl, rfl, rfl, rfl, requested, .inr ⟨rfl, refused.2.1⟩⟩
  · cases called
    exact ⟨rfl, rfl, rfl, rfl, requested, .inl rfl⟩

theorem kind_moving (kind : pc.kind = .moving) : pc = .ended true := by
  cases pc with
  | ended moving => cases moving <;> first | rfl | cases kind
  | _ => cases kind

theorem Inv.start (inv : Inv r) (called : r.start cfg = some r') : Inv r' := by
  obtain ⟨w, started, rfl⟩ := Option.map_eq_some_iff.mp called
  obtain ⟨tracker, source, destination, page, requested, ends⟩ := slabRebalanceStart_cases started
  -- whatever the mover does, it changes nothing that is held
  have held : ∀ pc, ({ r with world := w, pc := pc } : Round).held = r.held := fun pc => by
    simp only [Round.held, tracker, source, destination, page]
  by_cases failed : r.pc = .ended true ∧ w.rebal.signal = .idle
  · simp only [if_pos failed]
    refine .ofClear rfl ?_
    rcases ends with moving | ⟨-, stays⟩
    · rw [moving] at failed
      cases failed.2
    · have kind : r.pc.kind = .moving := by rw [failed.1]; rfl
      have same := ((inv.moving kind).2 requested).resolve_left (absurd stays ·)
      exact (held _).trans same
  · simp only [if_neg failed]
    refine ⟨fun point => ?_, fun point => ?_, fun point => ?_, fun point => ?_⟩
    · exact (held _).trans (inv.clear point)
    · exact ⟨(inv.freeing point).1, (held _).trans (inv.freeing point).2⟩
    · change w.rebal.destination ≠ .slab
      rw [destination]
      exact inv.releasing point
    · have ended : r.pc = .ended true := kind_moving point
      have moving : w.rebal.signal = .moving := ends.resolve_right fun idle => failed ⟨ended, idle.1⟩
      exact ⟨fun idle => failed ⟨ended, idle⟩, fun asked => (by rw [moving] at asked; cases asked)⟩

/-! ### The call -/

theorem doSlabsReassign_accepts (may : MayRelease cfg w src)
    (leaves : w.rebal.destination ≠ .slab) : (w.doSlabsReassign cfg src (-2)).1 = true ∧
      (w.doSlabsReassign cfg src (-2)).2.rebal.signal = .requested := by
  obtain ⟨idle, local_, isClass, pages⟩ := may
  have range : 1 ≤ src ∧ src ≤ cfg.powerLargest := by simpa [Config.isClass] using isClass
  have few := cfg.few
  have accepts : w.acceptsReassign cfg src (-2) = true := by
    simp only [World.acceptsReassign, local_, leaves, ne_eq, not_true_eq_false, if_false,
      not_false_eq_true, if_true, isClass, true_and, decide_eq_true_eq, not_and, not_lt]
    exact fun other => pages.resolve_left other
  have named : src ≠ 1000 ∧ src ≠ -2 ∧ src ≠ -1 := by omega
  have accepts' : (w.setRebal fun b => { b with cur := w.rebal.cur }).acceptsReassign cfg src (-2) = true :=
    accepts
  simp only [World.doSlabsReassign, idle, ne_eq, not_true_eq_false, if_false, named, false_and, accepts',
    if_true]
  exact ⟨trivial, rfl⟩

theorem Inv.asks_release (inv : Inv r) (kind : r.pc.kind = .releasing)
    (may : MayRelease cfg r.world src) : Inv (r.asks cfg src (-2)) := by
  have leaves := inv.releasing kind
  obtain ⟨accepted, signal⟩ := doSlabsReassign_accepts may leaves
  obtain ⟨-, -, destination, -⟩ := doSlabsReassign_frame cfg r.world src (-2)
  refine .ofMoving ?_ ?_ fun _ => .inl ?_
  · rw [Round.asks, accepted]
    rfl
  · change (r.world.doSlabsReassign cfg src (-2)).2.rebal.signal ≠ .idle
    rw [signal]
    simp
  · change (r.world.doSlabsReassign cfg src (-2)).2.rebal.destination ≠ .slab
    rwa [destination]

theorem inv_asks_pages {id : Int} (idle : r.world.rebal.signal = .idle) :
    Inv (r.asks cfg 1000 id) := by
  have waits : r.world.doSlabsReassign cfg 1000 id =
      (true, r.world.setRebal fun b => { b with signal := .waiting, dClsid := id }) := by
    rw [World.doSlabsReassign, if_neg (not_not.mpr idle), if_pos rfl]
  rw [Round.asks, waits]
  exact .ofMoving rfl (by simp [World.setRebal]) fun asked => (by cases asked)

theorem asVictim_kind (f : Finding) : (r.asVictim f).kind = .clear := by
  unfold Round.asVictim
  split <;> rfl

section

variable (inv : Inv r)
include inv

/-- A step of a round that has taken nothing, up to the first lock. -/
theorem Inv.looks (kind : r.pc.kind = .clear) (still : pc.kind = .clear) :
    Inv (r.goes pc) :=
  .ofClear still (inv.clear kind)

theorem Inv.reports (kind : r.pc.kind = .clear) (still : pc.kind = .clear)
    (same : (r.call op pc).held = r.held) : Inv (r.call op pc) :=
  .ofClear still (same.trans (inv.clear kind))

/-- A step of a round that will release `spare_lock`. -/
theorem Inv.frees (kind : r.pc.kind = .freeing) (still : r'.pc.kind = .freeing)
    (before : r'.before = r.before) (same : r'.held = r.held) : Inv r' := by
  obtain ⟨free, has⟩ := inv.freeing kind
  exact .ofFreeing still (by rw [before]; exact free) (by rw [before, same]; exact has)

theorem Inv.enter {f : Finding} (at_ : r.pc = .enter f) :
    Inv (if r.world.rebal.signal = .idle then r.goes (.scores f)
      else { r.goes (.ended true) with
        pagesToRequest :=
          if r.world.rebal.signal = .waiting ∧ f.givesUp then 0 else r.pagesToRequest }) := by
  have kind : r.pc.kind = .clear := by rw [at_]; rfl
  split
  · exact inv.looks kind rfl
  next busy =>
    refine .ofMoving rfl busy fun asked => .inr ?_
    have kept : ¬ (r.world.rebal.signal = .waiting ∧ f.givesUp = true) := by
      rintro ⟨waiting, -⟩
      cases waiting.symm.trans asked
    simp only [if_neg kept]
    exact inv.clear kind

theorem Inv.lockSpare {release : Release} (at_ : r.pc = .lockSpare release)
    (called : r.next cfg port = some r') : Inv r' := by
  have kind : r.pc.kind = .clear := by rw [at_]; rfl
  simp only [Round.next, at_] at called
  split at called
  next got =>
    have free : r.world.tracker.spareLock = false := by
      by_contra taken
      simp [Tracker.lockSpare, taken] at got
    cases release with
    | nothing => cases called
    | freeSpace =>
      cases called
      have same := inv.clear kind
      refine .ofFreeing rfl ?_ ?_
      · exact (congrArg Held.spareLock same).symm.trans free
      · change (r.call .lockSpare .freeRemote).held = { r.before with spareLock := true }
        rw [← same]
        simp [Round.held, Round.call, World.callTracker, TrackerOp.apply]
    | page id page =>
      cases called
      exact .ofReleasing rfl (by simp [Round.setRebal, World.setRebal])
  · cases called
    exact inv.looks kind rfl

theorem Inv.unlockSpare (kind : r.pc.kind = .freeing) :
    Inv (r.call .unlockSpare (.ended false)) := by
  obtain ⟨free, has⟩ := inv.freeing kind
  have gives : (r.call .unlockSpare (.ended false)).held = { r.held with spareLock := false } := rfl
  refine .ofClear rfl ?_
  rw [gives, has]
  change { r.before with spareLock := false } = r.before
  rw [← free]

theorem Inv.reqSpare {id : Int} {page : Nat} (at_ : r.pc = .reqSpare id page) :
    Inv (r.call .reqSpare
      (if r.world.tracker.reqSpare.1 then .lockMaxScore id page else .ended false)) := by
  split
  · exact .ofAsking rfl
  next refused =>
    have taken : r.world.tracker.spareRequested = true := by
      by_contra free
      simp_all [Tracker.reqSpare]
    refine inv.reports (by rw [at_]; rfl) rfl ?_
    simp [Round.held, Round.call, World.callTracker, TrackerOp.apply, taken]

theorem Inv.next (proceeds : Proceeds cfg r.world r.pc)
    (called : r.next cfg port = some r') : Inv r' := by
  cases at_ : r.pc
  case lockSpare release => exact inv.lockSpare at_ called
  all_goals
    rw [at_] at proceeds
    have kind : r.pc.kind = _ := congrArg Pc.kind at_
    simp only [Round.next, at_] at called
  case enter f => cases called; exact inv.enter at_
  case spareNeeded f | remoteSpareNeeded f =>
    cases called
    exact inv.looks kind (by split; exact asVictim_kind f; rfl)
  case newMemAvailable f => cases called; exact inv.looks kind (by split <;> rfl)
  case freeRemote | freeNeeded =>
    cases called; exact inv.frees kind (by dsimp only [Round.goes]; split <;> rfl) rfl rfl
  case newslab =>
    obtain ⟨w, -, rfl⟩ := Option.map_eq_some_iff.mp called
    exact .ofReleasing rfl (by simp [Round.setRebal, World.setRebal])
  case signalAllocFree | setSpareMem ptr n | getTracker =>
    cases called; exact inv.frees kind rfl rfl rfl
  case unlockSpare => cases called; exact inv.unlockSpare kind
  case pageRemote id =>
    cases called
    exact .ofReleasing (by dsimp only [Round.goes]; split <;> rfl) (inv.releasing kind)
  case pageNeeded id =>
    cases called
    refine .ofReleasing rfl ?_
    simp only [Round.setRebal, World.setRebal, Round.goes]
    split
    · exact inv.releasing kind
    · simp
  case reassign src => cases called; exact inv.asks_release kind proceeds
  case scores f | compareMinID f | compareMaxID f =>
    cases called
    refine inv.reports kind (by (repeat' split) <;> rfl) ?_
    simp [Round.held, Round.call, World.callTracker, TrackerOp.apply]
  case reqSpare id page => cases called; exact inv.reqSpare at_
  case lockMaxScore id page =>
    have got : r.world.tracker.lockMaxScore.1 = true := by
      rw [Tracker.lockMaxScore, if_pos (show r.world.tracker.maxScoreLock = false from proceeds)]
    rw [if_pos got] at called
    cases called
    exact .ofAsking rfl
  case reassignWaiting id => cases called; exact inv_asks_pages proceeds
  case ended moving => cases called

end

end Steps

/-- An undisturbed step keeps what is known of the locks at each point. -/
theorem inv_step {cfg : Config} {port : Int} (r : Round) (action : Action) (r' : Round)
    (inv : Inv r) (quiet : Undisturbed cfg r action) (called : step cfg port r action = some r') :
    Inv r' := by
  cases action with
  | next => exact inv.next quiet called
  | other op => cases called; exact inv.other quiet
  | slabsReassign src dst => cases called; exact inv.slabsReassign src dst
  | forceReassign d => cases called; exact inv.forceReassign quiet d
  | start => exact inv.start called

/-- **A round that is not disturbed leaves nothing behind**, unless a reassignment is in progress
after it. -/
theorem round_leaves_nothing_of_undisturbed (cfg : Config) (port : Int) (w : World) (rts : Rts)
    (pagesToRequest : Int) (f : Finding) (run : List Action)
    (quiet : Run.Along (step cfg port) (Undisturbed cfg) (.begin w rts pagesToRequest f) run) :
    Run.Always (step cfg port) LeavesNothing (.begin w rts pagesToRequest f) run := by
  have start : Inv (.begin w rts pagesToRequest f) := .ofClear rfl rfl
  refine Run.always_mono (fun r inv ended => ?_) (Run.always_of_invariant inv_step start quiet)
  exact inv.clear (by rw [ended]; rfl)

/-! ### Two rounds -/

/-- A tenant with this tracker and all pages unused. -/
def tenantWith (t : Tracker) : World := { blank (halves true) 0 with tracker := t }

/-- The lowest tenant is asked for memory by a local victor and has free space. -/
def victimRound : Round :=
  .begin (tenantWith { quarterOf 67108864 with
      minId := 11212, minCounter := 3, spareRequested := true
      maxId := 11213, maxScore := ((9 : ℚ) : Score), maxScoreLock := true })
    .done (-1) ⟨(0 : ℚ), (1 : ℚ), .freeSpace, none, false⟩

/-- It releases free space, while another tenant reports its scores and tries for the lock. -/
def releasesFreeSpace : List Action :=
  [.next, .next, .next, .next, .next, .next, .other .lockSpare, .next, .next, .next,
    .other (.setScores (7 : ℚ) dblMax 11213), .next, .next]

theorem round_leaves_nothing_when_freeing :
    (Run.exec (step (halves true) 11212) victimRound releasesFreeSpace).map
        (fun r => (r.pc, r.held.spareLock, r.world.tracker.spareMemAvail))
      = some (.ended false, false, true) ∧
    Run.Always (step (halves true) 11212) LeavesNothing victimRound releasesFreeSpace :=
  ⟨by decide +kernel,
    round_leaves_nothing_of_undisturbed (halves true) 11212 _ _ _ _ releasesFreeSpace (by decide +kernel)⟩

/-- The highest tenant needs two pages for class 3 while the lock of the highest score is taken. -/
def victorRound : Round :=
  .begin (tenantWith { quarterOf 67108864 with maxId := 11212, maxCounter := 10, maxScoreLock := true })
    .done (-1) ⟨(5 : ℚ), dblMax, .nothing, some (3, 1), false⟩

/-- `req_spare` succeeds, `lock_max_score` fails, and the request stays. -/
theorem failed_lock_leaves_request :
    (Run.exec (step (halves true) 11212) victorRound [.next, .next, .next, .next, .next]).map
        (fun r => (r.pc, r.before.spareRequested, r.held.spareRequested))
      = some (.ended false, false, true) ∧
    ¬ Run.Always (step (halves true) 11212) LeavesNothing victorRound
      [.next, .next, .next, .next, .next] := by
  decide +kernel

end MemExchange.Slabs.Scoring
