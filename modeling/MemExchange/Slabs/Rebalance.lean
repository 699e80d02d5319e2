import MemExchange.Lib.Run
import MemExchange.Slabs.State

/-!
# The page mover

`do_slabs_reassign` asks for a page to be moved, `slab_rebalance_start` picks it,
`slab_rebalance_move` empties it and `slab_rebalance_finish` takes it out of its class and gives it
away. Whether the page goes to another class or tenant, or comes from one, is told by
`realloc_source`, `realloc_destination` and `slab_to_release`.
-/
namespace MemExchange.Slabs

open Tracker (adjustSize)

namespace World

variable (cfg : Config) (w : World)

/-! ### Requests -/

/-- `slabs_reassign_pick_any`, with `tries` left. -/
def slabsReassignPickAny (dst cur : Int) : Nat → Int × Int
  | 0 => (-1, cur)
  | tries + 1 =>
    let cur := if cur + 1 > cfg.powerLargest then 1 else cur + 1
    if cur ≠ dst ∧ (w.pages cur).slabs > 1 then (cur, cur)
    else slabsReassignPickAny dst cur tries

variable (src : Int) (dst : Int) (id : Int) (page : Int) (it : Chunk)

/-- The class checks of `do_slabs_reassign`. -/
def acceptsReassign : Bool :=
  if w.rebal.source ≠ .slab then 0 ≤ dst ∧ dst ≤ cfg.powerLargest
  else if w.rebal.destination ≠ .slab then
    cfg.isClass src ∧ ¬ (src ≠ 1 ∧ (w.pages src).slabs < 2)
  else
    cfg.isClass src ∧ 0 ≤ dst ∧ dst ≤ cfg.powerLargest ∧ ¬ (src ≠ 1 ∧ (w.pages src).slabs < 2)

/-- `do_slabs_reassign`: whether it answers `REASSIGN_OK`, and the tenant after it. Source
1000 stands for a page that another tenant still has to release, and -1 for any class. -/
def doSlabsReassign : Bool × World :=
  if w.rebal.signal ≠ .idle then (false, w)
  else if src = 1000 then (true, w.setRebal fun r => { r with signal := .waiting, dClsid := dst })
  else if src = dst ∧ w.rebal.source = .slab then (false, w)
  else
    let (src, cur) :=
      if src = -1 then w.slabsReassignPickAny cfg dst w.rebal.cur cfg.powerLargest.toNat
      else (src, w.rebal.cur)
    let w := w.setRebal fun r => { r with cur := cur }
    if w.acceptsReassign cfg src dst then
      (true, w.setRebal fun r => { r with sClsid := src, dClsid := dst, signal := .requested })
    else (false, w)

/-- The search of `force_reassign` for the next class with pages to spare. -/
def nextVictim (d victim : Int) : Nat → Int
  | 0 => victim
  | tries + 1 =>
    let victim := (victim + 1 - 1) % cfg.powerLargest + 1
    if victim = d ∨ (w.pages victim).slabs ≤ 1 then nextVictim d victim tries else victim

/-- `force_reassign`. It sets the two globals whether or not a move is under way. -/
def forceReassign (d : Int) : Bool × World :=
  let w := w.setRebal fun r =>
    { r with
      source := .slab
      destination := .slab
      prevVictim := w.nextVictim cfg d r.prevVictim (cfg.powerLargest.toNat + 1) }
  w.doSlabsReassign cfg w.rebal.prevVictim d

/-- The choice of `calculate_scores` to release page `page` of class `id`: one of the first
pages of a class with more than ten of them, local, while there is little free memory. -/
def mayRelease : Bool :=
  w.rebal.signal = .idle ∧ cfg.isClass id ∧ id ≠ w.rebal.prevVictim ∧ (w.pages id).slabs > 10 ∧
    0 ≤ page ∧ page ≤ (w.pages id).slabs - 10 ∧ (w.pages id).conn page = none ∧
    w.account.memAvail ≤ 2000000

/-- The release of a page in `calculate_scores`. -/
def releasePage (toRemote : Bool) : Option World :=
  if w.mayRelease cfg id page then
    let w := w.setRebal fun r =>
      { r with
        destination := if toRemote then .remoteTenant else .localTenant
        slabToRelease := page
        prevVictim := id }
    some (w.doSlabsReassign cfg id (-2)).2
  else none

/-- The release of free space to a remote tenant in `calculate_scores`: a new page for
class 1, of which then the first page is released. -/
def releaseFreeRemote : Option World :=
  if w.rebal.signal = .idle ∧ w.account.memAvail > 2000000 then
    (w.doSlabsNewslab cfg 1).map fun w =>
      let w := w.setRebal fun r => { r with destination := .remoteTenant, slabToRelease := 0 }
      (w.doSlabsReassign cfg 1 (-2)).2
  else none

/-- The release of free space to a local tenant in `calculate_scores`. -/
def releaseFreeLocal : Option World :=
  if w.rebal.signal = .idle ∧ w.account.memAvail > 2000000 then
    let w := w.callTracker (·.releaseFreeSpace cfg.pagesize cfg.slot)
    some ((w.readLimit cfg).callTracker (·.unlockSpare))
  else none

/-! ### `victor_waiting_routine` -/

def receiveLocal : Option World :=
  if w.rebal.signal = .waiting ∧ w.tracker.newMemAvailable then
    some ((w.callTracker (·.lockSpare.2)).setRebal fun r =>
      { r with
        sClsid := w.tracker.getSpareClsid
        source := .localTenant
        destination := .slab
        signal := .requested })
  else none

def receiveRemote : Option World :=
  if w.rebal.signal = .waiting ∧ w.tracker.rMemReceived then
    some (w.setRebal fun r =>
      { r with source := .remoteTenant, destination := .slab, signal := .requested })
  else none

/-- Enough pages were received, or the request is given up. -/
def endWaiting : Option World :=
  if w.rebal.signal = .waiting then
    let w := w.callTracker fun t => t.finishBroadcast.resetLocks.resetRemoteSpare.unlockMaxScore
    some (w.setRebal fun r =>
      { r with source := .slab, destination := .slab, signal := .idle })
  else none

/-! ### `slab_rebalance_start` -/

def canMove (s d : Int) : Bool :=
  cfg.isClass s ∧ 0 ≤ d ∧ d ≤ cfg.powerLargest ∧ s ≠ d ∧ ¬ (w.pages s).slabs < 2

def slabRebalanceStart : Option World :=
  if w.rebal.signal ≠ .requested then none
  else if w.rebal.source = .slab ∧ w.rebal.destination = .slab ∧
      ¬ w.canMove cfg w.rebal.sClsid w.rebal.dClsid then
    some (w.setRebal fun r => { r with signal := .idle })
  else
    -- a receiver without pages of the source class looks at the class it fills
    let chosen := if w.rebal.source ≠ .slab ∧ (w.pages w.rebal.sClsid).slabs = 0 then w.rebal.dClsid
      else w.rebal.sClsid
    let index := if w.rebal.destination ≠ .slab then w.rebal.slabToRelease else 0
    some (w.setRebal fun r =>
      { r with
        slabStart := (w.pages chosen).slabList index
        slabPos := 0
        done := false
        signal := .moving })

/-! ### `slab_rebalance_move` -/

/-- The page is `slab_start` and the chunk lies before `slab_end`. -/
def inRange (c : Chunk) : Bool :=
  match c with
  | .cell page x => w.rebal.slabStart = some page ∧ x < cfg.perslab w.rebal.sClsid
  | .temp _ => false

/-- `slab_rebalance_alloc`, with `tries` left: chunks of the page itself are cleared on the
way. The outer `none` is a read through a null pointer. -/
def slabRebalanceAlloc (w : World) : Nat → Option (Option Chunk × World)
  | 0 => some (none, w)
  | tries + 1 =>
    if (w.cls w.rebal.sClsid).slCurr = 0 then some (none, w)
    else
      match w.doSlabsAlloc cfg w.rebal.sClsid true with
      | none => none
      | some (none, w) => some (none, w)
      | some (some it, w) =>
        if w.inRange cfg it then
          slabRebalanceAlloc (w.setHeader it fun h => { h with flag := .cleared }) tries
        else some (some it, w)

/-- `slab_rebalance_cut_free`, and the mark the mover leaves. The links of the chunk are
written again before anyone follows them. -/
def slabRebalanceCutFree : World :=
  (w.setClass w.rebal.sClsid fun p =>
    { p with slots := p.slots.unlink it, slCurr := p.slCurr - 1 }).setHeader it fun h =>
      { h with flag := .cleared }

/-- What the mover finds about a linked item: somebody else has it or its lock, it has
expired or been flushed, or it is to be kept. -/
inductive Found
  | busy
  | expired
  | alive
  deriving DecidableEq, Repr

variable (found : Found)

/-- The item is copied to another chunk, header and all, and replaced by the copy. -/
def rescue (new : Chunk) : World :=
  (w.setHeader new fun _ => w.header it).setHeader it fun h => { h with flag := .cleared }

def markBusy : World := w.setRebal fun r => { r with busyItems := r.busyItems + 1 }

/-- The item is unlinked and freed; the mover comes back for its chunk. -/
def evict : World := (w.doSlabsFree cfg it w.rebal.sClsid).markBusy

/-- What `slab_rebalance_move` does about one chunk. -/
def emptyChunk : Option World :=
  match (w.header it).flag with
  | .cleared => some w
  | .slabbed => some (w.slabRebalanceCutFree it)
  | .used => some w.markBusy
  | .linked =>
    match found with
    | .busy => some w.markBusy
    | .expired => some (w.evict cfg it)
    | .alive =>
      match w.slabRebalanceAlloc cfg (cfg.perslab w.rebal.sClsid) with
      | none => none
      | some (none, w) => some (w.evict cfg it)
      | some (some new, w) => some (w.rescue it new)

/-- The end of a round: on to the next chunk, and behind the last one either back to the
start, if some were busy, or done. -/
def advance : World :=
  w.setRebal fun r =>
    if r.slabPos + 1 < cfg.perslab r.sClsid then { r with slabPos := r.slabPos + 1 }
    else if r.busyItems ≠ 0 then { r with slabPos := 0, busyItems := 0 }
    else { r with slabPos := r.slabPos + 1, done := true }

/-- `slab_rebalance_move`, one chunk a call. -/
def slabRebalanceMove : Option World :=
  if w.rebal.signal ≠ .moving ∨ w.rebal.done then none
  else
    match w.rebal.slabStart with
    | none => none
    | some page =>
      if w.rebal.source ≠ .slab then some (w.setRebal fun r => { r with done := true })
      else (w.emptyChunk cfg (.cell page w.rebal.slabPos) found).map fun w => w.advance cfg

/-! ### `slab_rebalance_finish` -/

/-- The chunks of a shifted page, or its remote items, learn their new index. -/
def renumber (x : Int) : World :=
  let t := w.pages id
  let lower := fun n : UInt16 => if n > 0 then n - 1 else n
  if t.conn x = none then
    { w with
      header := fun c =>
        match c with
        | .cell page y =>
          if t.slabList x = some page ∧ y < cfg.perslab id then
            { w.header c with pageId := lower (w.header c).pageId }
          else w.header c
        | .temp _ => w.header c }
  else
    { w with
      remote := fun r =>
        if t.slabList x = some r.page ∧ r.index < cfg.perslab id then
          { w.remote r with pageId := lower (w.remote r).pageId }
        else w.remote r }

/-- `n` rounds of the loop that closes the gap in the page list. -/
def shiftPages (w : World) (id : Int) (x : Int) : Nat → World
  | 0 => w
  | n + 1 => shiftPages ((w.setPages id (·.copyDown x)).renumber cfg id x) id (x + 1) n

/-- Take entry `idx` out of the page list of a class. -/
def removePage (idx : Int) : World :=
  let slabs := (w.pages id).slabs
  let w := w.setPages id fun t => { t with slabs := decr slabs }
  (w.shiftPages cfg id idx (PageTable.rounds slabs idx)).setPages id (·.clear (decr slabs))

/-- The page that was taken out is announced to the local or the remote tenant. -/
def giveAway (page : Option Nat) : World :=
  let s := w.rebal.sClsid
  let size := adjustSize cfg.pagesize (cfg.pageBytes s)
  match w.rebal.destination with
  | .slab => w
  | .localTenant =>
    (w.callTracker (·.setSpareMem ((page.map w.addr).getD 0) size s cfg.slot)).uncharge page
  | .remoteTenant => (w.callTracker (·.setRemoteMem size cfg.slot)).uncharge page

/-- The source side of `slab_rebalance_finish`. -/
def finishSource : World :=
  if w.rebal.source ≠ .slab then w
  else
    let page := (w.pages w.rebal.sClsid).slabList w.rebal.slabToRelease
    (w.removePage cfg w.rebal.sClsid w.rebal.slabToRelease).giveAway cfg page

def receivedBytes : Nat :=
  min (adjustSize cfg.pagesize (cfg.pageBytes w.rebal.dClsid)) w.tracker.spareSize

/-- A page of a local tenant is mapped and split. -/
def attachLocal : World :=
  let d := w.rebal.dClsid
  let si := w.receivedBytes cfg
  let counted := min (adjustSize cfg.pagesize (cfg.pageBytes w.rebal.sClsid)) w.tracker.spareSize
  let (page, w) := w.mapPage w.tracker.spareMemStart counted
  let w := w.callTracker fun t => (t.shmMallocSpare cfg.pagesize si cfg.slot).2
  ((w.zeroPage page).setPages d (·.attach (some page) 0 none)).splitSlabPageIntoFreelist cfg page d si

def attachRemote : Option World :=
  let d := w.rebal.dClsid
  let si := w.receivedBytes cfg
  w.tracker.latestConn.map fun conn =>
    let mr := w.peerMr conn
    let (page, w) := w.mapPage 0 0
    if cfg.countsFirst then
      (w.setPages d (·.attach (some page) mr.rkey (some conn))).splitRemotePageIntoFreelist cfg page
        conn mr d si
    else
      (w.splitRemotePageIntoFreelist cfg page conn mr d si).setPages d
        (·.attach (some page) mr.rkey (some conn))

/-- `memory_release`, with at most `n` pages in the pool. -/
def memoryRelease (w : World) : Nat → World
  | 0 => w
  | n + 1 =>
    if cfg.prealloc ∨ ¬ cfg.slabReassign ∨ w.account.memMalloced ≤ w.account.memLimit then w
    else
      match w.getPageFromGlobalPool with
      | (none, w) => w
      | (some page, w) =>
        memoryRelease ((w.setAccount (·.subMalloced cfg.itemSizeMax)).uncharge (some page)) n

/-- A page of another class is appended, and split unless it goes to the pool. -/
def attachMoved : World :=
  let d := w.rebal.dClsid
  let bytes := cfg.pageBytes w.rebal.sClsid
  let placed := w.setPages d (·.place w.rebal.slabStart)
  match w.rebal.slabStart with
  | none => placed
  | some page =>
    if d > 0 then (placed.zeroPage page).splitSlabPageIntoFreelist cfg page d bytes
    else if d = 0 then placed.memoryRelease cfg (placed.pages 0).slabs
    else placed

/-- The destination side of `slab_rebalance_finish`. The class `d_cls` is not set for the
destination -2; using it then is a read through a wild pointer. -/
def finishDestination : Option World :=
  if w.rebal.destination ≠ .slab then some w
  else if w.rebal.dClsid = -2 then none
  else
    match w.rebal.source with
    | .slab => some (w.attachMoved cfg)
    | .localTenant => some (w.attachLocal cfg)
    | .remoteTenant => w.attachRemote cfg

/-- The adjustment of the memory limit in `slab_rebalance_finish`. -/
def finishAccount : World :=
  if w.rebal.source = .slab ∧ w.rebal.destination = .slab then w
  else
    let si := adjustSize cfg.pagesize (cfg.pageBytes w.rebal.sClsid)
    let w := w.setAccount fun a =>
      match w.rebal.source with
      | .localTenant => { a with memMalloced := a.memMalloced + min si w.tracker.spareSize }
      | .remoteTenant => { a with memMallocedRemote := a.memMallocedRemote + 1024 * 1024 }
      | .slab => a.subMalloced si
    (w.readLimit cfg).callTracker (·.unlockSpare)

def finishReset : World :=
  let r := w.rebal
  if r.source ≠ .slab then
    let w := w.callTracker fun t =>
      if r.source = .remoteTenant then t.resetLocks.resetRemoteSpare else t.resetLocks
    w.setRebal fun r =>
      { r with
        done := false
        sClsid := 0
        slabStart := none
        signal := .waiting
        source := .slab
        destination := .slab }
  else
    let w := w.callTracker fun t =>
      (if r.destination = .remoteTenant then t.resetRemoteSpare else t).unlockMinScore.resetMinScore
    w.setRebal fun r =>
      { r with
        done := false
        sClsid := 0
        dClsid := 0
        slabStart := none
        slabToRelease := -1
        signal := .idle
        source := .slab
        destination := .slab }

def slabRebalanceFinish : Option World :=
  if w.rebal.done then
    ((w.finishSource cfg).finishDestination cfg).map fun w => (w.finishAccount cfg).finishReset
  else none

def doSlabsAdjustMemLimit (limit : Nat) : World :=
  if cfg.prealloc then w
  else
    (w.setAccount fun a => { a with memLimit := limit, memLimitReached := false }).memoryRelease cfg
      (w.pages 0).slabs

end World

/-! ### Steps -/

/-- What can happen to the allocator. `preallocate` is one round of `slabs_preallocate`,
`other` is a call on the tracker by somebody else. -/
inductive Action
  | preallocate (id : Int)
  | alloc (id : Int) (noNewPage : Bool)
  | link (c : Chunk)
  | itemFree (c : Chunk)
  | storeRemote (c : Chunk)
  | hit (id : Int) (page : UInt8)
  | reassign (src dst : Int)
  | forceReassign (d : Int)
  | releasePage (id : Int) (page : Int) (toRemote : Bool)
  | releaseFreeRemote
  | releaseFreeLocal
  | receiveLocal
  | receiveRemote
  | endWaiting
  | start
  | move (found : World.Found)
  | finish
  | adjustMemLimit (limit : Nat)
  | other (op : TrackerOp)
  | copyMr (conn : Nat) (mr : Mr)
  deriving DecidableEq

/-- The calls by which a tenant lowers its own share. -/
def lowersShare (slot : Int) : TrackerOp → Bool
  | .setSpareMem _ _ _ id => id = slot
  | .setRemoteMem _ id => id = slot
  | _ => false

/-- One step; `none` if it is not enabled or does not return. Others do not lower the share
of this tenant. -/
def step (cfg : Config) (w : World) : Action → Option World
  | .preallocate id => if cfg.prealloc ∧ cfg.isClass id then w.doSlabsNewslab cfg id else none
  | .alloc id noNewPage => (w.doSlabsAlloc cfg id noNewPage).map Prod.snd
  | .link c => w.link c
  | .itemFree c => w.itemFree cfg c
  | .storeRemote c => w.storeRemote c
  | .hit id page => some (w.incrSlabHits id page.toNat)
  | .reassign src dst => some (w.doSlabsReassign cfg src dst).2
  | .forceReassign d => some (w.forceReassign cfg d).2
  | .releasePage id page toRemote => w.releasePage cfg id page toRemote
  | .releaseFreeRemote => w.releaseFreeRemote cfg
  | .releaseFreeLocal => w.releaseFreeLocal cfg
  | .receiveLocal => w.receiveLocal
  | .receiveRemote => w.receiveRemote
  | .endWaiting => w.endWaiting
  | .start => w.slabRebalanceStart cfg
  | .move found => w.slabRebalanceMove cfg found
  | .finish => w.slabRebalanceFinish cfg
  | .adjustMemLimit limit => some (w.doSlabsAdjustMemLimit cfg limit)
  | .other op => if lowersShare cfg.slot op then none else some (w.callTracker op.apply)
  | .copyMr conn mr => some { w with peerMr := Function.update w.peerMr conn mr }

/-- The tenant in `slabs_init`, before any class has a page. The arrays of the page tables
are allocated without being cleared: `junk` is what they happen to contain. -/
def World.initial (cfg : Config) (limit : Nat) (t : Tracker) (junk : Int → PageTable) : World :=
  let account : Account := { memLimit := limit }
  { cls := fun id => { pages := { junk id with slabs := 0, hits := fun _ => 0 } }
    account := if cfg.prealloc then account.readLimit (t.presetShare cfg.slot) else account
    tracker := t }

end MemExchange.Slabs
