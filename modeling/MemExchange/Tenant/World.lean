import MemExchange.Tenant.Thread

/-!
# Tenants around one tracker

The tenants of a host, the completion handlers of their RDMA connections and the other
users of the tracker take steps in any order. A ledger beside the program follows each
page and each remote region; nothing in the program reads it.
-/
namespace MemExchange.Tenant

/-- Pages are numbered in the order `set_spare_mem` publishes them, so the page in the
spare slot is always number `published`; regions are numbered by their message. -/
structure Ledger where
  published : Nat
  /-- The published page has been neither mapped nor taken out of the slot. -/
  waiting : Bool
  mapped : List Nat
  overwritten : List Nat
  cleared : List Nat
  /-- The regions whose bytes `receive_remote_mem` has added to a share. -/
  counted : List Nat
  /-- The region announced by `remote_spare_received` and not yet attached. -/
  pending : Option Nat
  attached : List Nat
  /-- Regions that were attached while another message, or none, was pending. -/
  misattached : List Nat

namespace Ledger

def initial : Ledger where
  published := 0
  waiting := false
  mapped := []
  overwritten := []
  cleared := []
  counted := []
  pending := none
  attached := []
  misattached := []

def observe (op : TrackerOp) (l : Ledger) : Ledger :=
  match op with
  | .setSpareMem .. =>
    { l with
      published := l.published + 1
      waiting := true
      overwritten := if l.waiting then l.published :: l.overwritten else l.overwritten }
  | .resetLocks =>
    { l with
      waiting := false
      cleared := if l.waiting then l.published :: l.cleared else l.cleared }
  | .shmMallocSpare .. =>
    { l with
      waiting := false
      mapped := if l.published = 0 then l.mapped else l.published :: l.mapped }
  | .resetRemoteSpare => { l with pending := none }
  | _ => l

def receive (m : Nat) (l : Ledger) : Ledger :=
  { l with counted := m :: l.counted, pending := some m }

def attach (m : Nat) (l : Ledger) : Ledger :=
  { l with
    attached := m :: l.attached
    misattached := if l.pending = some m then l.misattached else m :: l.misattached
    pending := none }

end Ledger

structure World where
  tracker : Tracker
  tenant : Nat → State
  /-- The region `peer_mr` of each connection holds. -/
  peerMr : Nat → Option Nat
  /-- A completion handler between its copy of the region and `receive_remote_mem`: the
  message and the share it will credit. -/
  handler : Nat → Option (Nat × Int)
  messages : Nat
  ledger : Ledger

def World.initial (memAllocated : Nat) (shares : Int → ℚ) (slabStart : Int) : World where
  tracker := .initial memAllocated shares slabStart
  tenant := fun _ => .initial
  peerMr := fun _ => none
  handler := fun _ => none
  messages := 0
  ledger := .initial

/-- `slab_rebalance_signal` is 10: the victor is in its waiting routine. -/
def signalled : Pc → Bool
  | .waiting | .endBroadcast | .endLocks | .endRemote | .endMax => true
  | .timeoutReady | .timeoutLocks | .timeoutRemote | .timeoutSpare | .timeoutMin | .timeoutReset => true
  | .dispatch | .tryRemote | .trySpare | .serverAvailable | .startServer => true
  | .localAvailable | .localLock | .localClsid | .received => true
  | _ => false

/-- The calls of the tracker process. It also releases the lock of a remote victor that is done
(`unlock_max_score`); that call is left out here, and `Machine` has it. -/
def trackerCalls : TrackerOp → Bool
  | .setScores .. | .compareMinID .. | .compareMaxID .. => true
  | .lockMinScore | .unlockMinScore | .resetMinScore | .lockSpare => true
  | .setRdmaServerInfo .. | .stopRDMABroadcast | .stopRDMAFinishBroadcast => true
  | _ => false

inductive Action
  /-- A round of `calculate_scores` begins in tenant `i` with this finding. -/
  | score (i : Nat) (f : Finding)
  | run (i : Nat) (c : Choice)
  /-- `calculate_scores` sees no misses while tenant `i` is waiting. -/
  | abort (i : Nat)
  /-- `on_completion` of a region message on connection `k`, in its two parts. -/
  | copyMr (k : Nat)
  | receiveMr (k : Nat)
  | tracker (op : TrackerOp)

/-- The effect of a tenant's event on tracker and ledger. -/
def World.apply (w : World) : Event → World
  | .none => w
  | .call op => { w with tracker := op.apply w.tracker, ledger := w.ledger.observe op }
  | .attach k =>
    match w.peerMr k with
    | none => w
    | some m => { w with ledger := w.ledger.attach m }

def World.setTenant (w : World) (i : Nat) (n : State) : World :=
  { w with tenant := Function.update w.tenant i n }

def step (tenants : List Nat) (w : World) : Action → Option World
  | .score i f =>
    if i ∈ tenants ∧ (w.tenant i).pc = .idle then
      some (w.setTenant i { w.tenant i with pc := .scores f })
    else none
  | .run i c =>
    if i ∈ tenants then
      (next i c w.tracker (w.tenant i)).map fun r => (w.apply r.1).setTenant i r.2
    else none
  | .abort i =>
    if i ∈ tenants ∧ signalled (w.tenant i).pc then
      some (w.setTenant i { w.tenant i with pagesToRequest := 0, aborted := true })
    else none
  | .copyMr k =>
    if w.handler k = none then
      some { w with
        peerMr := Function.update w.peerMr k (some (w.messages + 1))
        handler := Function.update w.handler k
          (some (w.messages + 1, (w.tracker.maxId - 11212).tmod 4))
        messages := w.messages + 1 }
    else none
  | .receiveMr k =>
    (w.handler k).map fun r =>
      { w with
        tracker := w.tracker.receiveRemoteMem k (1024 * 1024) r.2
        handler := Function.update w.handler k none
        ledger := w.ledger.receive r.1 }
  | .tracker op =>
    if trackerCalls op then
      some { w with tracker := op.apply w.tracker, ledger := w.ledger.observe op }
    else none

/-! ### Fragments of runs -/

def freshWorld : World := .initial (64 * 1024 * 1024) (fun _ => 1 / 4) 0

/-- Tenant `i` takes this many steps, answering its questions with `yes`. -/
def steps (i : Nat) (yes : Bool) (count : Nat) : List Action :=
  List.replicate count (.run i { yes, want := 1048576, port := 20000 })

/-- Tenant 0 reports score 5 until it is sure to be the highest, eleven rounds, and then
asks for one page. -/
def victorAsks : List Action :=
  let round := .score 0 { score1 := ((5 : ℚ) : Score), score2 := dblMax, release := .nothing, request := 1 }
    :: steps 0 true 2
  (List.replicate 11 round).flatten ++ steps 0 true 2

/-- Tenant 1 reports score 1 until it is sure to be the lowest, four rounds, and releases
a page: it is about to take `spare_lock`. -/
def victimDecides : List Action :=
  let round := .score 1
    { score1 := ((0 : ℚ) : Score), score2 := ((1 : ℚ) : Score), release := .page 4096 1048576 5
      request := 0 } :: steps 1 true 3
  (List.replicate 4 round).flatten ++ steps 1 true 1

end MemExchange.Tenant
