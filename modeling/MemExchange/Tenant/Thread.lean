import MemExchange.Tracker.Ops

/-!
# A tenant's part in the exchange of pages

The marginal-utility thread runs `calculate_scores`, which makes the tenant a victim or the victor.
The rebalancer thread moves the page and ends with `slab_rebalance_finish`, or it runs
`victor_waiting_routine`. `calculate_scores` decides only while `slab_rebalance_signal` is 0 and the
rebalancer works only while it is not, so one program point per tenant covers both; what
`calculate_scores` does to a waiting victor is the separate `abort`.
-/
namespace MemExchange.Tenant

/-- `enum rts`, of which `slabs.c` has its own copy. -/
inductive Rts
  | tryToBroadcast
  | broadcasting
  | broadcastingFailed
  | pageTransferInProgress
  | done
  deriving DecidableEq

/-- What `calculate_scores` would release: `cls_id2` and `page_id2`. -/
inductive Release
  | nothing
  | freeSpace
  | page (ptr : Int) (n : Nat) (cls : Int)
  deriving DecidableEq

/-- The result of scanning the slab classes: both scores, what to release, and the number
of pages to ask for (`shadow_page_id + 1`; zero if no class needs one). -/
structure Finding where
  score1 : Score
  score2 : Score
  release : Release
  request : Nat
  deriving DecidableEq

inductive Pc
  | idle
  -- calculate_scores
  | scores (f : Finding)
  | needed (f : Finding)
  | remoteNeeded (f : Finding)
  | compareMin (f : Finding)
  | available (f : Finding)
  | lock (r : Release)
  -- the victim releases unused memory
  | freeRemote
  | freeNeeded
  | freeAlloc
  | freePublish (ptr : Int) (n : Nat)
  | freeTracker
  | freeUnlock
  -- the victim releases a page: do_slabs_reassign, slab_rebalance_move, _finish
  | pageRemote (ptr : Int) (n : Nat) (cls : Int)
  | pageNeeded (ptr : Int) (n : Nat) (cls : Int)
  | moving (ptr : Int) (n : Nat) (cls : Int)
  | publish (ptr : Int) (n : Nat) (cls : Int)
  | movingRemote (n : Nat)
  | giveRemote (n : Nat)
  | connect
  | givenTracker (remote : Bool)
  | givenUnlock (remote : Bool)
  | givenReset
  | givenMin
  | givenResetMin
  -- calculate_scores, for the victor
  | compareMax (f : Finding)
  | reqSpare (pages : Nat)
  | lockMax (pages : Nat)
  -- victor_waiting_routine
  | waiting
  | endBroadcast
  | endLocks
  | endRemote
  | endMax
  | timeoutReady
  | timeoutLocks
  | timeoutRemote
  | timeoutSpare
  | timeoutMin
  | timeoutReset
  | dispatch
  | tryRemote
  | trySpare
  | serverAvailable
  | startServer
  | localAvailable
  | localLock
  | localClsid
  | received
  -- slab_rebalance_finish for a page of a local tenant
  | receiveLocal
  | mapTracker
  | mapSpare (si : Nat)
  | mapAccount
  | mapUnlock
  | mapLocks
  -- slab_rebalance_finish for a page of a remote tenant
  | receiveRemote
  | attachTracker
  | attachPage (conn : Option Nat)
  | attachAccount
  | attachUnlock
  | attachLocks
  | attachReset
  deriving DecidableEq

/-- The globals of `slabs.c` that steer the exchange. -/
structure State where
  pc : Pc
  rts : Rts
  pagesToRequest : Int
  aborted : Bool

def State.initial : State where
  pc := .idle
  rts := .done
  pagesToRequest := -1
  aborted := false

/-- What a step does to the world outside the tenant. -/
inductive Event
  | none
  | call (op : TrackerOp)
  /-- The slots of the region of `conn` are pushed on the free list of a slab class. -/
  | attach (conn : Nat)

/-- What the step depends on besides the tracker and the globals. `yes` answers the
question the program point asks: whether five seconds have passed, whether
`do_slabs_reassign` agrees, whether the connection exists already. -/
structure Choice where
  yes : Bool
  want : Nat
  port : Int

def pageSize : Nat := 4096

variable (i : Nat) (c : Choice) (t : Tracker) (n : State)

/-- `settings.port` of the tenants: consecutive ports from 11212. -/
def port : Int := 11212 + i

/-- `(settings.port - 11212) % 4`. -/
def shareIndex : Int := (i % 4 : Nat)

/-- Where a tenant with `score1 = 0` goes on that was told memory is needed: only outside
a remote transfer can it be a victim. -/
def asVictim (f : Finding) : Pc := if n.rts = .done then .compareMin f else .compareMax f

/-- `calculate_scores` of tenant `i` up to the decision to give or to ask for memory. -/
def scoreStep : Option (Event × State) :=
  match n.pc with
  | .scores f =>
    some (.call (.setScores f.score1 f.score2 (port i)),
      { n with pc := if f.score1 = ((0 : ℚ) : Score) then .needed f else .compareMax f })
  | .needed f => some (.none, { n with pc := if t.spareNeeded then asVictim n f else .remoteNeeded f })
  | .remoteNeeded f =>
    some (.none, { n with pc := if t.remoteSpareNeeded (port i) then asVictim n f else .compareMax f })
  | .compareMin f =>
    some (.call (.compareMinID (port i) f.score2),
      { n with pc := if (t.compareMinID (port i) f.score2).1 > 3 then .available f else .idle })
  | .available f =>
    some (.none, { n with
      pc := if t.newMemAvailable ∨ f.release = .nothing then .idle else .lock f.release })
  | .lock r =>
    some (.call .lockSpare, { n with
      pc := if t.lockSpare.1 then
          match r with
          | .nothing => .idle
          | .freeSpace => .freeRemote
          | .page ptr size cls => .pageRemote ptr size cls
        else .idle })
  | .compareMax f =>
    some (.call (.compareMaxID (port i) f.score1), { n with
      pc := if (t.compareMaxID (port i) f.score1).1 > 10 ∧ f.score1 ≠ ((0 : ℚ) : Score) ∧ f.request ≠ 0
        then .reqSpare f.request else .idle })
  | .reqSpare pages =>
    some (.call .reqSpare, { n with pc := if t.reqSpare.1 then .lockMax pages else .idle })
  | .lockMax pages =>
    some (.call .lockMaxScore,
      if t.lockMaxScore.1 then
        { n with pagesToRequest := pages, rts := .tryToBroadcast, pc := .waiting }
      else { n with pc := .idle })
  | _ => none

/-- The victim, from `lock_spare` on: it releases unused memory or a page, to a local
victor unless only a remote one asks. -/
def releaseStep : Option (Event × State) :=
  match n.pc with
  | .freeRemote =>
    some (.none, { n with pc := if t.remoteSpareNeeded (port i) then .freeNeeded else .freeAlloc })
  | .freeNeeded =>
    -- do_slabs_newslab(1) makes the page that is then released from class 1
    some (.none, { n with pc := if t.spareNeeded then .freeAlloc else .movingRemote c.want })
  | .freeAlloc =>
    let (ptr, size) := (t.signalAllocFree pageSize 1047840).1
    some (.call (.signalAllocFree pageSize 1047840), { n with pc := .freePublish ptr size })
  | .freePublish ptr size =>
    some (.call (.setSpareMem ptr size 1 (shareIndex i)), { n with pc := .freeTracker })
  | .freeTracker => some (.none, { n with pc := .freeUnlock })
  | .freeUnlock => some (.call .unlockSpare, { n with pc := .idle })
  | .pageRemote ptr size cls =>
    some (.none, { n with
      pc := if t.remoteSpareNeeded (port i) then .pageNeeded ptr size cls else .moving ptr size cls })
  | .pageNeeded ptr size cls =>
    some (.none, { n with pc := if t.spareNeeded then .moving ptr size cls else .movingRemote size })
  | .moving ptr size cls =>
    some (.none, { n with pc := if c.yes then .publish ptr size cls else .idle })
  | .publish ptr size cls =>
    some (.call (.setSpareMem ptr size cls (shareIndex i)), { n with pc := .givenTracker false })
  | .movingRemote size => some (.none, { n with pc := if c.yes then .giveRemote size else .idle })
  | .giveRemote size => some (.call (.setRemoteMem size (shareIndex i)), { n with pc := .connect })
  | .connect =>
    -- start_rdma_client tells its port only over a connection that exists
    some (if c.yes then .call (.setRdmaAccessPort c.port) else .none,
      { n with rts := .pageTransferInProgress, pc := .givenTracker true })
  | .givenTracker remote => some (.none, { n with pc := .givenUnlock remote })
  | .givenUnlock remote =>
    some (.call .unlockSpare, { n with pc := if remote then .givenReset else .givenMin })
  | .givenReset => some (.call .resetRemoteSpare, { n with pc := .givenMin })
  | .givenMin => some (.call .unlockMinScore, { n with pc := .givenResetMin })
  | .givenResetMin => some (.call .resetMinScore, { n with rts := .done, pc := .idle })
  | _ => none

/-- `victor_waiting_routine`, with `check_timeout` inlined. -/
def waitingStep : Option (Event × State) :=
  match n.pc with
  | .waiting =>
    some (.none, { n with
      pc := if n.pagesToRequest = 0 ∨ n.aborted then .endBroadcast
        else if c.yes then .timeoutReady else .dispatch })
  | .endBroadcast =>
    some (.call .finishBroadcast, { n with aborted := false, rts := .done, pc := .endLocks })
  | .endLocks => some (.call .resetLocks, { n with pc := .endRemote })
  | .endRemote => some (.call .resetRemoteSpare, { n with pc := .endMax })
  | .endMax => some (.call .unlockMaxScore, { n with pc := .idle })
  | .timeoutReady =>
    some (.none, { n with
      pc := if n.pagesToRequest ≠ 0 ∧ (t.remoteServerReady = false ∨ n.rts = .pageTransferInProgress)
        then .timeoutLocks else .dispatch })
  | .timeoutLocks => some (.call .resetLocks, { n with pc := .timeoutRemote })
  | .timeoutRemote => some (.call .resetRemoteSpare, { n with pc := .timeoutSpare })
  | .timeoutSpare => some (.call .unlockSpare, { n with pc := .timeoutMin })
  | .timeoutMin => some (.call .unlockMinScore, { n with pc := .timeoutReset })
  | .timeoutReset => some (.call .resetMinScore, { n with rts := .tryToBroadcast, pc := .dispatch })
  | .dispatch =>
    some (.none, { n with
      pc := match n.rts with
        | .tryToBroadcast => .tryRemote
        | .broadcasting => .serverAvailable
        | .broadcastingFailed => .localAvailable
        | .pageTransferInProgress => .received
        | .done => .waiting })
  | .tryRemote => some (.call .reqRemSpare, { n with rts := .broadcasting, pc := .trySpare })
  | .trySpare => some (.call .reqSpare, { n with pc := .waiting })
  | .serverAvailable =>
    some (.none, { n with
      pc := if t.rServerAvailable (port i) then .startServer else .localAvailable })
  | .startServer =>
    -- the case has no break: a local page is looked for in any event
    some (.call (.setRdmaAccessPort c.port),
      { n with rts := .pageTransferInProgress, pc := .localAvailable })
  | .localAvailable => some (.none, { n with pc := if t.newMemAvailable then .localLock else .waiting })
  | .localLock =>
    -- the result of lock_spare is not looked at
    some (.call .lockSpare, { n with pagesToRequest := n.pagesToRequest - 1, pc := .localClsid })
  | .localClsid => some (.none, { n with pc := .receiveLocal })
  | .received =>
    some (.none,
      if t.rMemReceived then
        { n with pagesToRequest := n.pagesToRequest - 1, pc := .receiveRemote }
      else { n with pc := .waiting })
  | _ => none

/-- `slab_rebalance_finish` on the victor's side. -/
def finishStep : Option (Event × State) :=
  match n.pc with
  | .receiveLocal => some (.none, { n with pc := .mapTracker })
  | .mapTracker =>
    some (.none, { n with pc := .mapSpare (if t.spareSize < c.want then t.spareSize else c.want) })
  | .mapSpare si =>
    some (.call (.shmMallocSpare pageSize si (shareIndex i)), { n with pc := .mapAccount })
  | .mapAccount => some (.none, { n with pc := .mapUnlock })
  | .mapUnlock => some (.call .unlockSpare, { n with pc := .mapLocks })
  | .mapLocks => some (.call .resetLocks, { n with rts := .tryToBroadcast, pc := .waiting })
  | .receiveRemote => some (.none, { n with pc := .attachTracker })
  | .attachTracker => some (.none, { n with pc := .attachPage t.latestConn })
  | .attachPage (some conn) => some (.attach conn, { n with pc := .attachAccount })
  | .attachAccount => some (.none, { n with pc := .attachUnlock })
  | .attachUnlock => some (.call .unlockSpare, { n with pc := .attachLocks })
  | .attachLocks => some (.call .resetLocks, { n with pc := .attachReset })
  | .attachReset => some (.call .resetRemoteSpare, { n with rts := .tryToBroadcast, pc := .waiting })
  | _ => none

/-- The next step of tenant `i`. An idle tenant has none, and neither has one that is
about to follow a null `latest_conn`. -/
def next : Option (Event × State) :=
  (scoreStep i t n).or ((releaseStep i c t n).or ((waitingStep i c t n).or (finishStep i c t n)))

end MemExchange.Tenant
