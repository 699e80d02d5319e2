import MemExchange.Cache.Items

/-!
# The binary protocol commands

The store, get, touch, delete and flush commands, from `process_bin_update` and its siblings to
`complete_update_bin`. An item in a local chunk goes through `do_store_item`; a temporary item for
a remote slot is indexed in `remoteAssoc` and written to the slot, whatever the command was.
-/
namespace MemExchange.Cache

variable (cfg : Settings)

inductive Command where
  | add
  | set
  | replace
  | append
  | prepend
  deriving DecidableEq, Repr

/-- The `NREAD_*` kinds the store logic works with. -/
inductive Nread where
  | add
  | set
  | replace
  | append
  | prepend
  | cas
  deriving DecidableEq, Repr

inductive StoreItemType where
  | notStored
  | stored
  | exists
  | notFound
  deriving DecidableEq, Repr

inductive Status where
  | success
  | keyEnoent
  | keyEexists
  | e2big
  | notStored
  | enomem
  | authError
  deriving DecidableEq, Repr

/-- A store request. APPEND and PREPEND carry neither flags nor an expiry time. -/
structure Request where
  cmd : Command
  key : Bytes
  value : Bytes
  flags : Nat := 0
  exptime : Nat := 0
  cas : Nat := 0
  deriving Repr

/-- What the environment decides during a store: the two allocations, and whether the value
arrives before the connection closes. -/
structure Choice where
  alloc : List Pull := [{}]
  join : List Pull := [{}]
  arrives : Bool := true

/-! ### Stores -/

variable (c : State) (it : Item) (comm : Nread) (pulls : List Pull) (r : RemoteItem) (req : Request)
  (key : Bytes)

/-- `_store_item_copy_data` on flat items. -/
def storeItemCopyData (old added : Bytes) : Bytes :=
  if comm = .append then old ++ added else added ++ old

/-- The APPEND and PREPEND branch of `do_store_item`, for the item found. -/
def joinItem (old : Item) (comm : Nread) (pulls : List Pull) : StoreItemType × State :=
  if it.cas ≠ 0 ∧ it.cas ≠ old.cas then (.exists, c)
  else
    match doItemAlloc cfg c (some it.key) pulls it.key
        (storeItemCopyData comm old.value it.value) old.flags old.exptime with
    | (none, c) => (.notStored, c)
    | (some newIt, c) => (.stored, doItemReplace cfg c old newIt)

def doStoreItem : StoreItemType × State :=
  let (oldIt, c) := doItemGet cfg c it.key none
  match comm, oldIt with
  | .add, some _ => (.notStored, c.modify cfg it.key (doItemUpdate cfg c.currentTime))
  | .replace, none => (.notStored, c)
  | .append, none => (.notStored, c)
  | .prepend, none => (.notStored, c)
  | .cas, none => (.notFound, c)
  | .cas, some old => if it.cas = old.cas then (.stored, doItemReplace cfg c old it) else (.exists, c)
  | .append, some old => joinItem cfg c it old .append pulls
  | .prepend, some old => joinItem cfg c it old .prepend pulls
  | .set, some old => (.stored, doItemReplace cfg c old it)
  | .replace, some old => (.stored, doItemReplace cfg c old it)
  | .set, none => (.stored, doItemLink cfg c it)
  | .add, none => (.stored, doItemLink cfg c it)

/-- An APPEND or PREPEND links a third item, not the one the request came in. -/
def Nread.joins : Nread → Bool
  | .append => true
  | .prepend => true
  | _ => false

/-- `set_remote_item`: RDMA_WRITE of the whole item to the slot. -/
def setRemoteItem (it : Item) : State :=
  { c with remoteMem := Function.update c.remoteMem r.slot it }

/-- The remote branch of `complete_update_bin`. -/
def storeRemote (it : Item) : State :=
  let r := { r with key := it.key, nbytes := it.nbytes }
  setRemoteItem (c.remoteAssocInsert cfg r) r it

/-- `complete_update_bin`. At its end the temporary item is freed, or the reference to the
local one is released; that frees its chunk unless it was linked. -/
def completeUpdateBin : StoreItemType × State :=
  match it.rIt with
  | some r => (.stored, storeRemote cfg c r it)
  | none =>
    match doStoreItem cfg c it comm pulls with
    | (ret, c) => (ret, if ret = .stored ∧ ¬ comm.joins then c else doSlabsFree c it)

/-- The status `complete_update_bin` answers. -/
def storeStatus : StoreItemType → Status
  | .stored => .success
  | .exists => .keyEexists
  | .notFound => .keyEnoent
  | .notStored =>
    match comm with
    | .add => .keyEexists
    | .replace => .keyEnoent
    | _ => .notStored

/-- The kind of store a request asks for: ADD, SET and REPLACE with a CAS number compare. -/
def Request.nread : Nread :=
  match req.cmd with
  | .append => .append
  | .prepend => .prepend
  | .add => if cfg.useCas ∧ req.cas ≠ 0 then .cas else .add
  | .set => if cfg.useCas ∧ req.cas ≠ 0 then .cas else .set
  | .replace => if cfg.useCas ∧ req.cas ≠ 0 then .cas else .replace

/-- The flags and expiry time of the item a request allocates. -/
def Request.header (now : Nat) : Nat × Nat :=
  match req.cmd with
  | .append => (0, 0)
  | .prepend => (0, 0)
  | _ => (req.flags, realtime cfg now req.exptime)

/-- The item a request is read into: `item_alloc`, then `ITEM_set_cas`. -/
def allocRequest (pulls : List Pull) : Option Item × State :=
  let (flags, exptime) := req.header cfg c.currentTime
  match doItemAlloc cfg c none pulls req.key req.value flags exptime with
  | (none, c) => (none, c)
  | (some it, c) => (some { it with cas := if cfg.useCas then req.cas else 0 }, c)

/-- The answer to a failed allocation. A SET also drops the item it could not replace. -/
def storeFailed : Status × State :=
  let (flags, _) := req.header cfg c.currentTime
  let status := if itemSizeOk cfg c req.key.length flags (req.value.length + 2) then
    Status.enomem else .e2big
  if req.cmd = .set then
    match doItemGet cfg c req.key none with
    | (none, c) => (status, c)
    | (some it, c) => (status, doItemUnlink cfg c it)
  else (status, c)

/-- `process_bin_update` and `process_bin_append_prepend`, up to the answer. When the
connection closes before the value is complete, the item is released without an answer. -/
def processBinUpdate (choice : Choice) : Option Status × State :=
  match allocRequest cfg c req choice.alloc with
  | (none, c) =>
    let (status, c) := storeFailed cfg c req
    (some status, c)
  | (some it, c) =>
    if choice.arrives then
      let (ret, c) := completeUpdateBin cfg c it (req.nread cfg) choice.join
      (some (storeStatus (req.nread cfg) ret), c)
    else (none, doSlabsFree c it)

/-! ### The other commands -/

/-- `get_remote_item`: RDMA_READ of the slot, or nothing when the read is not admitted or
does not complete in time. -/
def getRemoteItem (completes : Bool) : Option Item :=
  if completes then some (c.remoteMem r.slot) else none

/-- `process_bin_get_or_touch`: the local index first, then the remote one. `touch` is the
expiry time of a TOUCH or GAT. -/
def processBinGetOrTouch (touch : Option Nat) (bumped completes : Bool) : Option Item × State :=
  let (it, c) :=
    match touch with
    | some exptime => doItemTouch cfg c key (realtime cfg c.currentTime exptime) bumped
    | none => doItemGet cfg c key (some bumped)
  match it with
  | some it => (some it, c)
  | none =>
    match c.remoteAssocFind cfg key with
    | some r => (getRemoteItem c r completes, c)
    | none => (none, c)

def processBinDelete (cas : Nat) : Status × State :=
  match doItemGet cfg c key none with
  | (none, c) => (.keyEnoent, c)
  | (some it, c) =>
    if cas = 0 ∨ cas = it.cas then (.success, doItemUnlink cfg c it) else (.keyEexists, c)

def processBinFlush (exptime : Nat) : Status × State :=
  if cfg.flushEnabled then
    let newOldest := if exptime > 0 then realtime cfg c.currentTime exptime else c.currentTime
    if cfg.useCas then
      if newOldest - 1 ≤ c.currentTime then
        (.success, { c with
          oldestLive := newOldest - 1, oldestCas := c.casId + 1, casId := c.casId + 1 })
      else (.success, { c with oldestLive := newOldest - 1 })
    else (.success, { c with oldestLive := newOldest })
  else (.authError, c)

end MemExchange.Cache
