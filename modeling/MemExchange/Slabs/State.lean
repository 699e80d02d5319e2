import MemExchange.Lib.Dll
import MemExchange.Slabs.Pages
import MemExchange.Tracker.Ops
import MemExchange.Tracker.Regions
import MemExchange.Tracker.Trade

/-!
# The slab allocator

The state of `slabs.c` in one greedy tenant. An address inside a page is the page and the number of
the chunk. Every function runs under `slabs_lock`, or in the one thread that calculates scores, and
is one step. The size of a request is not modelled (`requested` is a statistic), nor are items of
several chunks; system calls other than the mapping of shared memory succeed.
-/
namespace MemExchange.Slabs

open Function (update)

open Tracker (adjustSize)

/-! ### Items and classes -/

/-- What `it_flags` says about a chunk: on a free list, cleared for the mover
(`ITEM_SLABBED|ITEM_FETCHED`), handed out, or handed out and linked. A cell that was not cut
yet counts as cleared; in the source its header is zero, and the mover would call it busy. -/
inductive Flag
  | slabbed
  | cleared
  | used
  | linked
  deriving DecidableEq, Repr

/-- The address of an item: a cell of a page, or memory of its own that was allocated to
stand for a remote slot. -/
inductive Chunk
  | cell (page : Nat) (index : Nat)
  | temp (n : Nat)
  deriving DecidableEq, Repr

/-- A `remote_item`, by the array it belongs to and its place there. -/
structure RSlot where
  page : Nat
  index : Nat
  deriving DecidableEq, Repr

structure Header where
  flag : Flag := .cleared
  pageId : UInt16 := 0
  rIt : Option RSlot := none
  clsid : Int := 0
  deriving DecidableEq, Repr

/-- A memory region of a peer: where it begins and its key. -/
structure Mr where
  addr : Nat
  rkey : Nat
  deriving DecidableEq, Repr

/-- The fields of a `remote_item` that some function reads, and the connection and region
it was cut from. -/
structure RemoteItem where
  pageId : UInt16 := 0
  address : Nat := 0
  origin : Option (Nat × Mr) := none
  deriving DecidableEq, Repr

structure SlabClass where
  slots : Dll Chunk := {}
  slCurr : Nat := 0
  rslots : List RSlot := []
  slCurrR : Nat := 0
  pages : PageTable := {}

/-! ### Settings -/

/-- The settings, and what `slabs_init` made of them. Class ids run from 1 to
`power_largest`; class 0 is the pool of unassigned pages. -/
structure Config where
  pagesize : Nat
  powerLargest : Int
  dims : Int → SlabDims
  slabPageSize : Nat
  itemSizeMax : Nat
  slabReassign : Bool
  /-- `slab_chunk_size_max` differs from `slab_page_size`. -/
  chunked : Bool
  /-- All memory was taken in one piece at the start (`mem_base` is set). -/
  prealloc : Bool
  /-- The index of this tenant in `preset_share`. -/
  slot : Int
  /-- In `slab_list[slabs++] = split_remote_page_into_freelist(..)` the compiler is free to
  increment before or after the call. -/
  countsFirst : Bool
  few : powerLargest < 64
  pageSize_lt : slabPageSize < 2 ^ 31
  size_pos : ∀ id, 1 ≤ id → id ≤ powerLargest → 0 < (dims id).size.toNat
  perslab_pos : ∀ id, 1 ≤ id → id ≤ powerLargest → 0 < (dims id).perslab.toNat
  perslab_eq : ∀ id, 1 ≤ id → id ≤ powerLargest →
    (dims id).perslab.toNat = slabPageSize / (dims id).size.toNat

namespace Config

variable (cfg : Config) (id : Int)

def size : Nat := (cfg.dims id).size.toNat

def perslab : Nat := (cfg.dims id).perslab.toNat

/-- `(size_t)(p->size * p->perslab)`. -/
def pageBytes : Nat := (cfg.dims id).pageBytes

/-- `len` of `do_slabs_newslab`. -/
def len : Nat :=
  if cfg.slabReassign ∨ cfg.chunked then cfg.slabPageSize else cfg.pageBytes id

def isClass : Bool := 1 ≤ id ∧ id ≤ cfg.powerLargest

end Config

/-! ### Accounting -/

/-- `a - b` in a `size_t`. -/
def sizeSub (a b : Nat) : Nat := if b ≤ a then a - b else 2 ^ 64 + a - b

/-- The memory counters. `wrapped` records that some subtraction among them went below zero; the
program does not know. Sums of them are not reduced: without a wrap they are far below `2 ^ 64`, and
after one they are no longer followed. -/
structure Account where
  memLimit : Nat
  memMalloced : Nat := 0
  memMallocedRemote : Nat := 0
  memAvail : Nat := 0
  memLimitReached : Bool := false
  memCurrent : Int := 0
  wrapped : Bool := false

namespace Account

def total (a : Account) : Nat := a.memMalloced + a.memMallocedRemote

/-- `mem_limit = preset_share[..]; mem_avail = mem_limit - (mem_malloced + mem_malloced_remote)`.
The share is a double and is truncated. -/
def readLimit (share : ℚ) (a : Account) : Account :=
  let limit := share.floor.toNat
  { a with
    memLimit := limit
    memAvail := sizeSub limit a.total
    wrapped := a.wrapped || limit < a.total }

/-- `mem_malloced -= n`. -/
def subMalloced (n : Nat) (a : Account) : Account :=
  { a with
    memMalloced := sizeSub a.memMalloced n
    wrapped := a.wrapped || a.memMalloced < n }

end Account

/-! ### The mover -/

/-- `slab_rebalance_signal`. -/
inductive Signal
  | idle       -- 0
  | requested  -- 1
  | moving     -- 2
  | waiting    -- 10
  deriving DecidableEq, Repr

/-- `enum realloc_dest_type`. -/
inductive Tenancy
  | slab
  | localTenant
  | remoteTenant
  deriving DecidableEq, Repr

/-- `slab_rebal` and the globals the mover is told its work by. -/
structure Rebal where
  signal : Signal := .idle
  sClsid : Int := 0
  dClsid : Int := 0
  slabStart : Option Nat := none
  /-- `slab_pos`, as the number of the chunk. -/
  slabPos : Nat := 0
  busyItems : Nat := 0
  done : Bool := false
  slabToRelease : Int := -1
  source : Tenancy := .slab
  destination : Tenancy := .slab
  prevVictim : Int := 1
  /-- `cur` of `slabs_reassign_pick_any`. -/
  cur : Int := 0
  deriving DecidableEq, Repr

/-- One tenant. `nextPage` and `nextTemp` name what is mapped and allocated next; `cut` is
how many chunks a page was split into, `charge` how much of `mem_malloced` is for it. -/
structure World where
  cls : Int → SlabClass := fun _ => {}
  header : Chunk → Header := fun _ => {}
  remote : RSlot → RemoteItem := fun _ => {}
  /-- The remote items in the index of remote keys. -/
  index : List RSlot := []
  /-- The temporary items that are being filled. -/
  temps : List Nat := []
  rebal : Rebal := {}
  account : Account
  tracker : Tracker
  peerMr : Nat → Mr := fun _ => ⟨0, 0⟩
  addr : Nat → Int := fun _ => 0
  cut : Nat → Nat := fun _ => 0
  charge : Nat → Nat := fun _ => 0
  nextPage : Nat := 0
  nextTemp : Nat := 0

namespace World

variable (cfg : Config) (w : World)

variable (c : Chunk) (page : Nat) (conn : Nat) (mr : Mr) (id : Int) (x : Nat) (sizee : Nat)

def pages : PageTable := (w.cls id).pages

def share : ℚ := w.tracker.presetShare cfg.slot

def setClass (f : SlabClass → SlabClass) : World :=
  { w with cls := update w.cls id (f (w.cls id)) }

def setPages (f : PageTable → PageTable) : World :=
  w.setClass id fun p => { p with pages := f p.pages }

def setHeader (f : Header → Header) : World :=
  { w with header := update w.header c (f (w.header c)) }

def setRebal (f : Rebal → Rebal) : World := { w with rebal := f w.rebal }

def setAccount (f : Account → Account) : World := { w with account := f w.account }

def callTracker (f : Tracker → Tracker) : World := { w with tracker := f w.tracker }

def readLimit : World := w.setAccount (·.readLimit (w.share cfg))

/-! ### Free lists -/

/-- `do_slabs_free` of an item of one chunk. -/
def doSlabsFree : World :=
  if cfg.isClass id then
    (w.setHeader c fun h => { h with flag := .slabbed, clsid := 0 }).setClass id fun p =>
      { p with slots := p.slots.push c, slCurr := p.slCurr + 1 }
  else w

/-- `p->slabs - 1`, as it is stored in a `uint16_t`. -/
def lastIndex : UInt16 := UInt16.ofNat (decr (w.pages id).slabs)

/-- One round of `split_slab_page_into_freelist`. -/
def splitChunk : World :=
  (w.doSlabsFree cfg (.cell page x) id).setHeader (.cell page x) fun h =>
    { h with pageId := w.lastIndex id }

def splitSlabPageIntoFreelist : World :=
  { (List.range (sizee / cfg.size id)).foldl (fun w x => w.splitChunk cfg page id x) w with
    cut := update w.cut page (sizee / cfg.size id) }

/-- `memset` of a page. -/
def zeroPage : World :=
  { w with
    header := fun c =>
      match c with
      | .cell p _ => if p = page then {} else w.header c
      | .temp _ => w.header c }

/-- One round of `split_remote_page_into_freelist`. -/
def splitRemoteChunk : World :=
  { w with
    remote := update w.remote ⟨page, x⟩
      ⟨w.lastIndex id, mr.addr + x * cfg.size id, some (conn, mr)⟩ }.setClass id fun p =>
        { p with rslots := ⟨page, x⟩ :: p.rslots, slCurrR := p.slCurrR + 1 }

def splitRemotePageIntoFreelist : World :=
  { (List.range (sizee / cfg.size id)).foldl
      (fun w x => w.splitRemoteChunk cfg page conn mr id x) w with
    cut := update w.cut page (sizee / cfg.size id) }

/-! ### New pages -/

def mapPage (addr : Int) (charge : Nat) : Nat × World :=
  (w.nextPage,
    { w with
      nextPage := w.nextPage + 1
      addr := update w.addr w.nextPage addr
      charge := update w.charge w.nextPage charge })

/-- Nothing is counted for a page that was given back. -/
def uncharge (page : Option Nat) : World :=
  { w with charge := fun p => if some p = page then 0 else w.charge p }

def getPageFromGlobalPool : Option Nat × World :=
  let p := w.pages 0
  if p.slabs < 1 then (none, w)
  else (p.slabList (p.slabs - 1), w.setPages 0 fun p => { p with slabs := p.slabs - 1 })

/-- `memory_allocate`. A `shm_malloc` that fails keeps the semaphore, and `get_tracker` then
waits for it forever: the result is `none`. -/
def memoryAllocate (size : Nat) : Option (Option Nat × World) :=
  if cfg.prealloc then
    if size > w.account.memAvail then some (none, w)
    else
      let (page, w) := w.mapPage w.account.memCurrent 0
      let size := if size % 8 ≠ 0 then size + (8 - size % 8) else size
      let w := w.setAccount fun a =>
        { a with
          memCurrent := a.memCurrent + size
          memAvail := if size < a.memAvail then a.memAvail - size else 0 }
      some (some page, w.readLimit cfg)
  else
    match w.tracker.shmMalloc cfg.pagesize size with
    | (none, _) => none
    | (some r, t) =>
      let size := adjustSize cfg.pagesize size
      let (page, w) := w.mapPage r.addr size
      let w := (w.callTracker fun _ => t).setAccount fun a =>
        { a with memMalloced := a.memMalloced + size }
      some (some page, w.readLimit cfg)

/-- The limit test of `do_slabs_newslab`, which the first page of a class passes. -/
def limitHit : Bool :=
  w.account.memLimit ≠ 0 ∧ w.account.total + cfg.len id > w.account.memLimit ∧
    (w.pages id).slabs > 0 ∧ (w.pages 0).slabs = 0

/-- The end of `do_slabs_newslab`: the page is split while the class does not have it yet. -/
def addPage : World :=
  ((w.zeroPage page).splitSlabPageIntoFreelist cfg page id (cfg.len id)).setPages id
    (·.attach (some page) 0 none)

def doSlabsNewslab : Option World :=
  let w := if w.account.memLimitReached then w else w.readLimit cfg
  if w.limitHit cfg id then some (w.setAccount fun a => { a with memLimitReached := true })
  else if w.account.memLimitReached then some w
  else
    match w.getPageFromGlobalPool with
    | (some page, w) => some (w.addPage cfg page id)
    | (none, w) =>
      match w.memoryAllocate cfg (cfg.len id) with
      | none => none
      | some (none, w) => some w
      | some (some page, w) => some (w.addPage cfg page id)

/-! ### Allocation -/

def takeSlot : Option (Chunk × World) :=
  (w.cls id).slots.head.map fun it =>
    (it, (w.setHeader it fun h => { h with flag := .used, clsid := id }).setClass id fun p =>
      { p with slots := p.slots.unlink it, slCurr := p.slCurr - 1 })

/-- Hand out a temporary item for the head of the remote free list. -/
def takeRemoteSlot : Option (Chunk × World) :=
  match (w.cls id).rslots with
  | [] => none
  | r :: rest =>
    let it := Chunk.temp w.nextTemp
    some (it,
      { w with
        header := update w.header it ⟨.used, (w.remote r).pageId, some r, id⟩
        temps := w.nextTemp :: w.temps
        nextTemp := w.nextTemp + 1 }.setClass id fun p =>
          { p with rslots := rest, slCurrR := p.slCurrR - 1 })

/-- `do_slabs_alloc` after its attempt at a new page. The outer `none` is a read through a
null pointer. -/
def takeChunk : Option (Option Chunk × World) :=
  if (w.cls id).slCurr ≠ 0 then (w.takeSlot id).map fun (it, w) => (some it, w)
  else if (w.cls id).slCurrR ≠ 0 then (w.takeRemoteSlot id).map fun (it, w) => (some it, w)
  else some (none, w)

/-- `do_slabs_alloc`. The class that `do_item_alloc` writes into the item is written here. -/
def doSlabsAlloc (noNewPage : Bool) : Option (Option Chunk × World) :=
  if cfg.isClass id then
    if (w.cls id).slCurr = 0 ∧ noNewPage = false then
      (w.doSlabsNewslab cfg id).bind fun w => w.takeChunk id
    else w.takeChunk id
  else some (none, w)

/-! ### What items go through -/

def link : Option World :=
  if (w.header c).flag = .used then some (w.setHeader c fun h => { h with flag := .linked })
  else none

/-- The last reference to an item is dropped: `item_remove`, `item_free`, `slabs_free`. -/
def itemFree : Option World :=
  if (w.header c).flag = .used ∨ (w.header c).flag = .linked then
    let w' := w.doSlabsFree cfg c (w.header c).clsid
    some { w' with temps := w.temps.filter fun n => c ≠ .temp n }
  else none

/-- The end of a binary store of a temporary item: its slot enters the index of remote
keys and the item is freed with `free`. -/
def storeRemote : Option World :=
  match (w.header c).rIt with
  | none => none
  | some r =>
    if (w.header c).flag = .used then
      some { w.setHeader c fun _ => {} with
        index := r :: w.index
        temps := w.temps.filter fun n => c ≠ .temp n }
    else none

/-- `incr_slab_hits`. The counters have 32 bits. -/
def incrSlabHits (page : Int) : World :=
  if page < 3999 then
    w.setPages id fun t =>
      { t with hits := update t.hits page ((t.hits page + 1) % 2 ^ 32) }
  else w

end World

end MemExchange.Slabs
