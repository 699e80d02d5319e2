import MemExchange.Lib.Watch
import MemExchange.Mtc.Moves

/-!
# Whose negotiation a datagram belongs to

An observer of the trackers numbers the acquisitions of `min_score_lock` at each tracker, marks the
`s` sent under the lock with that number, the `x` or `r` that answers it, the `p` a victim sends for
the `x` and the `p` the victor answers with, and follows the negotiation that holds the lock.
-/
namespace MemExchange.Mtc

/-- The part a datagram has in a negotiation of the victim with that number. -/
inductive Mark
  | none
  | offer (number : Nat)     -- an `s`, and the `x` or `r` that answers it
  | opens (number : Nat)     -- the `p` of the victim
  | answers (number : Nat)   -- the `p` of the victor
  deriving DecidableEq

inductive Stage
  /-- The lock is taken, the `s` not yet sent. -/
  | replying
  | offered
  /-- An `r` to the `s` arrived. -/
  | rejected
  /-- The victor's `p` arrived: a page release follows. -/
  | connected
  /-- The candidate has given its page away in `slab_rebalance_finish`. -/
  | released (id : Int)
  deriving DecidableEq

/-- A negotiation that holds `min_score_lock`. -/
structure Lease where
  number : Nat
  stage : Stage
  /-- `sender_routine` found it timed out. -/
  expired : Bool
  deriving DecidableEq

structure Notes where
  /-- The number of times the lock was taken. -/
  taken : Nat
  /-- The negotiation that took the lock last, until it ends. -/
  lease : Option Lease
  /-- The mark of the datagram `recv_msg` works on. -/
  handling : Mark

def Notes.initial : Notes := { taken := 0, lease := none, handling := .none }

/-- The negotiation ends if it is one of those `ends` says. -/
def Notes.finish (ends : Lease → Bool) (g : Notes) : Notes :=
  { g with lease := g.lease.filter fun l => !ends l }

def Notes.advance (change : Lease → Lease) (g : Notes) : Notes :=
  { g with lease := g.lease.map change }

def Lease.moveTo (stage : Stage) (l : Lease) : Lease := { l with stage }

/-- Only the negotiation with this number goes on to `stage`. -/
def Lease.moveNumber (number : Nat) (stage : Stage) (l : Lease) : Lease :=
  if l.number = number then { l with stage } else l

variable (d : Packet) (b : Local) (n : Node)

/-- Taking a datagram: an `r` that answers the `s` of the current negotiation rejects it. -/
def noteReceive (mark : Mark) (g : Notes) : Notes :=
  match d.msg, mark with
  | .r, .offer k => { g.advance (Lease.moveNumber k .rejected) with handling := mark }
  | _, _ => { g with handling := mark }

/-- A step of `recv_msg`. A reply that does not fit its buffer ends the negotiation, and
so does the `unlock_min_score` for its `r`. -/
def noteRecv (fits : Bool) (n : Node) (g : Notes) : Notes :=
  match n.recv with
  | .hLock .. =>
    if n.tracker.lockMinScore.1 = .taken then
      { g with
        taken := g.taken + 1
        lease := some { number := g.taken, stage := .replying, expired := false } }
    else g
  | .hReply .. => if fits then g else { g with lease := none }
  | .hSend .. => g.advance (Lease.moveTo .offered)
  | .pClient _ =>
    match n.client, g.handling with
    | true, .answers k => g.advance (Lease.moveNumber k .connected)
    | _, _ => g
  | .rUnlock => g.finish fun l => l.stage = .rejected
  | _ => g

/-- A step of `sender_routine`: the timeout of the current negotiation, found and carried
out. -/
def noteSend (timedOut : Bool) (n : Node) (g : Notes) : Notes :=
  match n.send with
  | .timeout =>
    if n.waiting && timedOut then g.advance fun l => { l with expired := true } else g
  | .tUnlock => g.finish Lease.expired
  | _ => g

/-- A negotiation that led to a page release goes on when the candidate gives the page away. -/
def Lease.release (id : Int) (l : Lease) : Lease :=
  if l.stage = .connected then { l with stage := .released id } else l

/-- A call of the tenant `id`: the candidate's `set_remote_mem` is the page release the negotiation
led to, and the `unlock_min_score` of the same tenant completes it. -/
def noteTenant (id : Int) (op : TrackerOp) (n : Node) (g : Notes) : Notes :=
  match op with
  | .setRemoteMem _ _ => if n.tracker.minId = id then g.advance (Lease.release id) else g
  | .unlockMinScore => g.finish fun l => l.stage = .released id
  | _ => g

variable (g : Notes)

def noteAct : Notes :=
  match b with
  | .recv fits => noteRecv fits n g
  | .send timedOut => noteSend timedOut n g
  | .tenant id op => noteTenant id op n g

/-- The mark of what `recv_msg` sends next. -/
def markOf : Mark :=
  match n.recv, g.handling with
  | .hSend .., _ => match g.lease with | some l => .offer l.number | none => .none
  | .sReply .., mark => mark
  | .xSend .., .offer k => .opens k
  | .pSend .., .opens k => .answers k
  | _, _ => .none

def observer : Net.Observer Host Node Msg Local Notes Mark where
  receive d mark _ := noteReceive d mark
  act _ := noteAct
  mark _ b n g := match b with
    | .recv _ => markOf n g
    | _ => .none

abbrev Watched := Net.World Host (Node × Notes) (Msg × Mark)
abbrev WatchedAction := Net.Action Host (Msg × Mark) Local

def watchedStep (hosts : List Host) (codec : Codec) : Watched → WatchedAction → Option Watched :=
  Net.step ((protocol hosts codec).watched observer)

def Watched.initial (memAllocated : Host → Nat) (shares : Host → Int → ℚ) (slabStart : Host → Int) :
    Watched where
  node h := (Node.initial (memAllocated h) (shares h) (slabStart h), .initial)
  wire := []

@[simp] theorem noteReceive_handling (mark : Mark) (g : Notes) :
    (noteReceive d mark g).handling = mark := by
  unfold noteReceive
  split <;> rfl

@[simp] theorem noteAct_handling : (noteAct b n g).handling = g.handling := by
  cases b with
  | recv fits => unfold noteAct noteRecv; dsimp only; split <;> (try split) <;> rfl
  | send timedOut => unfold noteAct noteSend; dsimp only; split <;> (try split) <;> rfl
  | tenant id op => unfold noteAct noteTenant; dsimp only; split <;> (try split) <;> rfl

theorem exists_watched_run {hosts : List Host} {codec : Codec} {memAllocated : Host → Nat}
    {shares : Host → Int → ℚ} {slabStart : Host → Int} {run : List Action} {v : World}
    (ran : Run.exec (step hosts codec) (.initial memAllocated shares slabStart) run = some v) :
    ∃ watched w, watched.map Net.Action.bare = run ∧
      Run.exec (watchedStep hosts codec) (.initial memAllocated shares slabStart) watched = some w ∧
      Net.Shows w v :=
  Net.exists_watched_run ran ⟨fun _ => rfl, .refl _⟩

theorem watched_run {hosts : List Host} {codec : Codec} {w w' : Watched} {v : World}
    {run : List WatchedAction} (shown : Net.Shows w v)
    (ran : Run.exec (watchedStep hosts codec) w run = some w') :
    ∃ v', Run.exec (step hosts codec) v (run.map Net.Action.bare) = some v' ∧ Net.Shows w' v' := by
  induction run generalizing w v with
  | nil =>
    cases ran
    exact ⟨v, rfl, shown⟩
  | cons a run ih =>
    obtain ⟨u, called, onward⟩ := Option.bind_eq_some_iff.mp ran
    obtain ⟨t, first, after⟩ := Net.watched_step called shown
    obtain ⟨v', rest, final⟩ := ih after onward
    exact ⟨v', by simp [step, first, ← rest], final⟩

/-! ### Fragments of runs -/

def watchedTrackers : Watched :=
  .initial (fun _ => 64 * 1024 * 1024) (fun _ _ => 1 / 4) fun _ => 0

def watch (mark : Mark) : Action → WatchedAction
  | .deliver d => .deliver (d.marked mark)
  | .lose d => .lose (d.marked mark)
  | .act h b => .act h b

/-- Tracker 1 offers its candidate to tracker 2 and waits. -/
def watchedOffer : List WatchedAction := candidateOffered.map (watch .none)

/-- Tracker 2 takes the candidate and tracker 1 sends its port. -/
def transferOpened : List WatchedAction :=
  watchedOffer ++ List.map (watch (.offer 0))
    ([.deliver ⟨1, 2, .s ((1 : ℚ) : Score) 0 1⟩] ++ receiverSteps 2 5 ++
      [.deliver ⟨2, 1, .x⟩] ++ receiverSteps 1 2)

/-- Tracker 2 answers with the port its tenant listens on. -/
def transferAnswered : List WatchedAction :=
  List.map (watch (.opens 0))
    ([.act 2 (.tenant 11212 (.setRdmaAccessPort 7000)), .deliver ⟨1, 2, .p 11212⟩] ++
      receiverSteps 2 6)

/-- The answer reaches tracker 1, which decides on the branch. -/
def answerHandled : List WatchedAction :=
  List.map (watch (.answers 0)) ([.deliver ⟨2, 1, .p 7000⟩] ++ receiverSteps 1 2)

end MemExchange.Mtc
