import MemExchange.Lib.Chain

/-!
# The state of one tenant's cache

Local items live in slab chunks and are indexed by `assoc`. Remote items live in slots of pages
lent by a peer and are indexed by `remoteAssoc`; the tenant keeps a `remote_item` for each slot.
Each slab class has a free list for either kind. Time is counted in seconds since the process
started and does not wrap; neither do CAS numbers.
-/
namespace MemExchange.Cache

abbrev Bytes := List UInt8

/-- A slot of a remote page: the class it was cut for, the page and the peer's address. -/
structure Slot where
  clsid : Nat
  pageId : Nat
  address : Nat
  deriving DecidableEq, Repr

/-- `remote_item`: one slot, and the key of what was last written to it. -/
structure RemoteItem where
  slot : Slot
  key : Bytes := []
  nbytes : Nat := 0
  deriving DecidableEq, Repr

inductive Lru where
  | hot
  | warm
  | cold
  | temp
  deriving DecidableEq, Repr

/-- `item`. The value is the data without its closing CRLF. `rIt` is set in the temporary
items that stand for a remote slot, and stays set when such an item is freed. -/
structure Item where
  key : Bytes
  value : Bytes
  flags : Nat := 0
  exptime : Nat := 0
  time : Nat := 0
  cas : Nat := 0
  clsid : Nat := 0
  lru : Lru := .hot
  fetched : Bool := false
  active : Bool := false
  rIt : Option RemoteItem := none
  deriving DecidableEq, Repr

def Item.nbytes (it : Item) : Nat := it.value.length + 2

/-- A free chunk: what `do_slabs_free` leaves in the header and no allocation resets. -/
structure Chunk where
  rIt : Option RemoteItem := none
  time : Nat := 0
  deriving DecidableEq, Repr

/-- `slabclass_t`: chunk size, chunks per page, and the two free lists. -/
structure SlabClass where
  size : Nat
  perslab : Nat
  slots : List Chunk := []
  rslots : List RemoteItem := []
  deriving Repr

/-- The settings the cache operations read, and the hash function of both indexes. -/
structure Settings where
  hash : Bytes → Nat
  useCas : Bool := true
  lruSegmented : Bool := false
  tempLru : Bool := false
  temporaryTtl : Nat := 61
  inlineAsciiResponse : Bool := true
  flushEnabled : Bool := true
  itemSizeMax : Nat := 1024 * 1024
  processStarted : Nat

/-- The cache. `classes` is indexed by class id; id 0 is not a size class. `oldestLive` and
`oldestCas` are the two settings that flush commands change. -/
structure State where
  assoc : Chain Item
  remoteAssoc : Chain RemoteItem
  remoteMem : Slot → Item
  classes : List SlabClass
  currentTime : Nat
  casId : Nat := 0
  oldestLive : Nat := 0
  oldestCas : Nat := 0

variable (cfg : Settings)

namespace State

variable (c : State) (key : Bytes)

def assocFind : Option Item := c.assoc.find cfg.hash Item.key key

def assocInsert (it : Item) : State :=
  { c with assoc := c.assoc.insert cfg.hash Item.key it }

def assocDelete : State :=
  { c with assoc := c.assoc.delete cfg.hash Item.key key }

/-- A change to the header of the item indexed under the key. -/
def modify (change : Item → Item) : State :=
  { c with assoc := c.assoc.update cfg.hash Item.key key change }

/-- `remote_assoc_find`, as `slabs_remoteq_lookup` calls it. The table never grows: its
maintenance thread is not started. -/
def remoteAssocFind : Option RemoteItem :=
  c.remoteAssoc.find cfg.hash RemoteItem.key key

/-- `remote_assoc_insert`, as `slabs_rdma_insert` calls it. -/
def remoteAssocInsert (r : RemoteItem) : State :=
  { c with remoteAssoc := c.remoteAssoc.insert cfg.hash RemoteItem.key r }

end State

/-! ### Time -/

/-- `REALTIME_MAXDELTA`: thirty days. -/
def realtimeMaxdelta : Nat := 60 * 60 * 24 * 30

def itemUpdateInterval : Nat := 0

/-- `realtime`: an expiry time of a request, relative to the start of the process. -/
def realtime (now exptime : Nat) : Nat :=
  if exptime = 0 then 0
  else if exptime > realtimeMaxdelta then
    if exptime ≤ cfg.processStarted then 1 else exptime - cfg.processStarted
  else exptime + now

variable (c : State) (it : Item) (id : Nat) (l : Slot)

def itemIsFlushed : Bool :=
  if c.oldestLive = 0 ∨ c.oldestLive > c.currentTime then false
  else it.time ≤ c.oldestLive ∨ (c.oldestCas ≠ 0 ∧ it.cas ≠ 0 ∧ it.cas < c.oldestCas)

/-- The expiry test of `do_item_get`. -/
def isExpired (exptime : Nat) : Bool := exptime ≠ 0 ∧ exptime ≤ c.currentTime

/-- What the lazy expiration of `do_item_get` discards. -/
def isDead : Bool := itemIsFlushed c it || isExpired c it.exptime

/-! ### Sizes -/

/-- `sizeof(item)`. -/
def sizeofItem : Nat := 56

/-- The length of the suffix `item_make_header` writes: the text `" flags length\r\n"`, or
the flags as four bytes. -/
def nsuffix (flags nbytes : Nat) : Nat :=
  if cfg.inlineAsciiResponse then
    (Nat.toDigits 10 flags).length + (Nat.toDigits 10 (nbytes - 2)).length + 4
  else 4

/-- The size `do_item_alloc` asks for: header, key with its NUL, suffix, data and CAS. -/
def itemMakeHeader (nkey flags nbytes : Nat) : Nat :=
  sizeofItem + (nkey + 1) + nsuffix cfg flags nbytes + nbytes + if cfg.useCas then 8 else 0

/-- `slabs_clsid`: the smallest class the size fits in, or the largest class; 0 for sizes
that are refused. -/
def slabsClsid (classes : List SlabClass) (size : Nat) : Nat :=
  if size = 0 ∨ size > cfg.itemSizeMax then 0
  else min (1 + (classes.drop 1).findIdx fun p => size ≤ p.size) (classes.length - 1)

def itemSizeOk (nkey flags nbytes : Nat) : Bool :=
  slabsClsid cfg c.classes (itemMakeHeader cfg nkey flags nbytes) ≠ 0

/-! ### Chunks -/

/-- `do_slabs_alloc`: the head of the local free list, after trying for a new page if that
list is empty; else a zeroed temporary item for the head of the remote free list. Whether
`do_slabs_newslab` gets its page is the environment's choice. -/
def doSlabsAlloc (newPage : Bool) : Option (Chunk × State) :=
  if id < 1 then none
  else
    match c.classes[id]? with
    | none => none
    | some p =>
      let slots := if p.slots = [] ∧ newPage then List.replicate p.perslab {} else p.slots
      match slots, p.rslots with
      | chunk :: rest, _ =>
        some (chunk, { c with classes := c.classes.modify id fun p => { p with slots := rest } })
      | [], r :: rest =>
        some (⟨some r, 0⟩,
          { c with classes := c.classes.modify id fun p => { p with slots := [], rslots := rest } })
      | [], [] => none

/-- `do_slabs_free`: the chunk of an item goes to the head of its class's local free list,
also when it was a temporary item for a remote slot. -/
def doSlabsFree : State :=
  { c with
    classes := c.classes.modify it.clsid fun p => { p with slots := ⟨it.rIt, it.time⟩ :: p.slots } }

def SlabClass.pageSlots (p : SlabClass) (id pageId base : Nat) : List Slot :=
  (List.range p.perslab).map fun x => ⟨id, pageId, base + x * p.size⟩

/-- `split_remote_page_into_freelist`: a page of a peer joins the remote free list of a
class, its last slot first. -/
def splitRemotePage (pageId base : Nat) : State :=
  { c with
    classes := c.classes.modify id fun p =>
      { p with rslots := ((p.pageSlots id pageId base).map fun slot => { slot }).reverse ++ p.rslots } }

/-! ### Slots -/

/-- How often a remote slot is on the free lists of a class. -/
def SlabClass.spare (l : Slot) (p : SlabClass) : Nat :=
  (p.slots.countP fun chunk => chunk.rIt.any fun r => r.slot = l)
    + p.rslots.countP fun r => r.slot = l

/-- How often a remote slot is on a free list or hangs on a linked local item. These are the
places from which a later store can write to it. -/
def State.spare (c : State) (l : Slot) : Nat :=
  (c.classes.map (SlabClass.spare l)).sum
    + c.assoc.total fun it => it.rIt.any fun r => r.slot = l

/-- The slot is spare or holds an indexed remote item. -/
def State.knows : Prop :=
  c.spare l ≠ 0 ∨ c.remoteAssoc.total (fun r => r.slot = l) ≠ 0

instance : Decidable (c.knows l) := by unfold State.knows; infer_instance

end MemExchange.Cache
