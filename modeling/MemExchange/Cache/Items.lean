import MemExchange.Cache.State

/-!
# Items: allocation, links and the lazy lookup

Reference counts are not kept: one command runs at a time, so an item that is unlinked loses its
last reference before the command ends. Which items `lru_pull_tail` throws out, and whether an
asynchronous LRU bump finds room in its buffer, are arguments.
-/
namespace MemExchange.Cache

variable (cfg : Settings)

/-! ### Links -/

variable (c : State) (now : Nat) (it : Item) (locked : Option Bytes) (key : Bytes) (exptime : Nat)

/-- `do_item_link`: the access time is now and, with CAS on, the number is a new one. -/
def doItemLink : State :=
  let cas := if cfg.useCas then c.casId + 1 else 0
  { c.assocInsert cfg { it with time := c.currentTime, cas } with
    casId := if cfg.useCas then c.casId + 1 else c.casId }

/-- `do_item_unlink` followed by the release of the last reference. -/
def doItemUnlink : State := doSlabsFree (c.assocDelete cfg it.key) it

def doItemReplace (newIt : Item) : State :=
  doItemLink cfg (doItemUnlink cfg c it) newIt

/-- `do_item_update`, as a change to the item at the time `now`. -/
def doItemUpdate : Item :=
  if cfg.lruSegmented then
    if it.lru = .cold ∧ it.active then { it with time := now, lru := .warm, active := false }
    else if it.time < now - itemUpdateInterval then { it with time := now } else it
  else if it.time < now - itemUpdateInterval then { it with time := now } else it

/-- The hit markers of `do_item_get`. `bumped` says whether `lru_bump_async` took the item. -/
def markFetched (bumped : Bool) (it : Item) : Item :=
  if cfg.lruSegmented then
    if it.active then it
    else if it.fetched then
      if it.lru ≠ .cold then doItemUpdate cfg now { it with active := true }
      else { it with active := bumped }
    else { it with fetched := true }
  else doItemUpdate cfg now { it with fetched := true }

/-- `do_item_get`: the lookup with the lazy expiration logic. `update` is `none` for
`DONT_UPDATE` and the outcome of a bump for `DO_UPDATE`. -/
def doItemGet (update : Option Bool) : Option Item × State :=
  match c.assocFind cfg key with
  | none => (none, c)
  | some it =>
    if itemIsFlushed c it then (none, doItemUnlink cfg c it)
    else if isExpired c it.exptime then (none, doItemUnlink cfg c it)
    else
      match update with
      | none => (some it, c)
      | some bumped =>
        (some (markFetched cfg c.currentTime bumped it),
          c.modify cfg key (markFetched cfg c.currentTime bumped))

def doItemTouch (bumped : Bool) : Option Item × State :=
  match doItemGet cfg c key (some bumped) with
  | (none, c) => (none, c)
  | (some it, c) =>
    (some { it with exptime }, c.modify cfg key fun it => { it with exptime })

/-! ### Allocation -/

/-- The items `lru_pull_tail` unlinks. It skips an item whose lock the caller holds. -/
def lruPullTail (keys : List Bytes) : State :=
  keys.foldl (fun c key =>
    if locked = some key then c
    else
      match c.assocFind cfg key with
      | none => c
      | some it => doItemUnlink cfg c it) c

/-- One round of `do_item_alloc_pull`: what is reclaimed before the attempt (without LRU
segments only), whether a new page is granted, and what is evicted when the attempt fails. -/
structure Pull where
  reclaimed : List Bytes := []
  newPage : Bool := false
  evicted : List Bytes := []

/-- The loop of `do_item_alloc_pull`. -/
def allocPull (id : Nat) (locked : Option Bytes) : State → List Pull → Option Chunk × State
  | c, [] => (none, c)
  | c, pull :: pulls =>
    let c := if cfg.lruSegmented then c else lruPullTail cfg c locked pull.reclaimed
    match doSlabsAlloc c id pull.newPage with
    | some (chunk, c) => (some chunk, c)
    | none => allocPull id locked (lruPullTail cfg c locked pull.evicted) pulls

/-- `do_item_alloc_pull` makes at most ten attempts. -/
def doItemAllocPull (id : Nat) (locked : Option Bytes) (pulls : List Pull) : Option Chunk × State :=
  allocPull cfg id locked c (pulls.take 10)

/-- The LRU segment of a new item. The difference of times is taken on unsigned words, so
an item that never expires is not a temporary one. -/
def firstLru : Lru :=
  if cfg.tempLru ∧ (exptime + 2 ^ 32 - now % 2 ^ 32) % 2 ^ 32 ≤ cfg.temporaryTtl then .temp
  else if cfg.lruSegmented then .hot
  else .cold

/-- The item `do_item_alloc` makes of a chunk. The data the connection reads into it later
is already part of it. -/
def newItem (clsid : Nat) (chunk : Chunk) (key value : Bytes) (flags exptime : Nat) : Item :=
  { key, value, flags, exptime, clsid
    time := chunk.time
    lru := firstLru cfg now exptime
    rIt := chunk.rIt }

/-- `do_item_alloc`, for flat items: larger ones, with `ITEM_CHUNKED` and a chain of chunks, are left
out here and in all that calls this. -/
def doItemAlloc (pulls : List Pull) (key value : Bytes) (flags exptime : Nat) :
    Option Item × State :=
  let id := slabsClsid cfg c.classes (itemMakeHeader cfg key.length flags (value.length + 2))
  if id = 0 then (none, c)
  else
    match doItemAllocPull cfg c id locked pulls with
    | (none, c) => (none, c)
    | (some chunk, c) => (some (newItem cfg c.currentTime id chunk key value flags exptime), c)

end MemExchange.Cache
