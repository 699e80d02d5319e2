import MemExchange.Lib.Run
import MemExchange.Cache.Binary

/-!
# Runs of a cache, with the record of what was stored

Beside the cache a world keeps a `record`: one map from keys to the last store that was answered
with success. No operation reads it; the theorems compare what a get answers with it.
-/
namespace MemExchange.Cache

variable (cfg : Settings)

inductive Op where
  | store (req : Request) (choice : Choice)
  | get (key : Bytes) (touch : Option Nat) (bumped completes : Bool)
  | delete (key : Bytes) (cas : Nat)
  | flush (exptime : Nat)
  /-- The clock advances. -/
  | tick (seconds : Nat)
  /-- `lru_pull_tail` or the crawler unlinks an item. -/
  | evict (key : Bytes)
  /-- The LRU maintainer carries out an asynchronous bump. -/
  | bump (key : Bytes)
  /-- The LRU maintainer moves an item between segments. -/
  | shuffle (key : Bytes) (lru : Lru) (active : Bool)
  /-- A page received from a peer is cut into remote slots of a class. -/
  | attach (id pageId base : Nat)

inductive Answer where
  | status (status : Status)
  | item (it : Option Item)
  | silent

variable (c : State) (key : Bytes) (req : Request)

/-- A page is attached at most once: none of the slots it brings is known. -/
def State.canAttach (id pageId base : Nat) : Prop :=
  match c.classes[id]? with
  | none => False
  | some p => (p.pageSlots id pageId base).Nodup ∧ ∀ l ∈ p.pageSlots id pageId base, ¬ c.knows l

instance (id pageId base : Nat) : Decidable (c.canAttach id pageId base) := by
  unfold State.canAttach; split <;> infer_instance

/-- What an operation answers and the cache it leaves. -/
def State.apply : Op → Option (Answer × State)
  | .store req choice =>
    match processBinUpdate cfg c req choice with
    | (some status, c) => some (.status status, c)
    | (none, c) => some (.silent, c)
  | .get key touch bumped completes =>
    let (it, c) := processBinGetOrTouch cfg c key touch bumped completes
    some (.item it, c)
  | .delete key cas =>
    let (status, c) := processBinDelete cfg c key cas
    some (.status status, c)
  | .flush exptime =>
    let (status, c) := processBinFlush cfg c exptime
    some (.status status, c)
  | .tick seconds => some (.silent, { c with currentTime := c.currentTime + seconds })
  | .evict key => some (.silent, lruPullTail cfg c none [key])
  | .bump key => some (.silent, c.modify cfg key (doItemUpdate cfg c.currentTime))
  | .shuffle key lru active =>
    some (.silent, c.modify cfg key fun it => { it with lru, active })
  | .attach id pageId base =>
    if c.canAttach id pageId base then some (.silent, splitRemotePage c id pageId base) else none

/-- The key and the item of an operation that reads one. -/
def State.readBy : Op → Option (Bytes × Item)
  | .get key touch bumped completes =>
    (processBinGetOrTouch cfg c key touch bumped completes).1.map fun it => (key, it)
  | _ => none

/-! ### The record -/

/-- The last successful store of a key: the value it left, the expiry time, the remote slot
if it went to one, and whether the key has been deleted, flushed or has expired since. -/
structure Stored where
  value : Bytes
  exptime : Nat
  slot : Option Slot
  gone : Bool := false

variable (st : Stored)

def State.lookup : Option Item := (doItemGet cfg c key none).1

/-- The value a store leaves: its own, or the joined one for APPEND and PREPEND. -/
def Request.result (found : Option Bytes) : Bytes :=
  match req.cmd with
  | .append => found.getD [] ++ req.value
  | .prepend => req.value ++ found.getD []
  | _ => req.value

/-- The expiry time a store leaves: APPEND and PREPEND keep the one they find. -/
def Request.expiry (now : Nat) (found : Option Nat) : Nat :=
  match req.cmd with
  | .append => found.getD 0
  | .prepend => found.getD 0
  | _ => realtime cfg now req.exptime

/-- Where the item of a request is allocated: nowhere, in a local chunk, or for a remote
slot. -/
def State.servedBy (choice : Choice) : Option (Option RemoteItem) :=
  (allocRequest cfg c req choice.alloc).1.map Item.rIt

abbrev Record := Bytes → Option Stored

/-- What a store, a touch or a delete changes in the record. -/
def Record.note (record : Record) (c : State) : Op → Answer → Record
  | .store req choice, .status .success =>
    Function.update record req.key (some
      { value := req.result ((c.lookup cfg req.key).map Item.value)
        exptime := req.expiry cfg c.currentTime ((c.lookup cfg req.key).map Item.exptime)
        slot := (c.servedBy cfg req choice).join.map RemoteItem.slot })
  | .get key (some touch) _ _, .item (some _) =>
    if (c.lookup cfg key).isSome then
      Function.update record key ((record key).map fun st =>
        if st.slot = none then { st with exptime := realtime cfg c.currentTime touch } else st)
    else record
  | .delete key _, .status .success =>
    Function.update record key ((record key).map fun st => { st with gone := true })
  | _, _ => record

/-- `item_is_flushed` of the item the last store left: in its slot, or in the local index. -/
def Stored.flushed : Bool :=
  match st.slot with
  | some l => itemIsFlushed c (c.remoteMem l)
  | none => (c.assocFind cfg key).any (itemIsFlushed c)

/-- A key that has expired or been flushed is gone from then on. -/
def Stored.mark : Stored :=
  { st with gone := st.gone || isExpired c st.exptime || st.flushed cfg c key }

structure World where
  cache : State
  record : Record

def step (w : World) (op : Op) : Option World :=
  (w.cache.apply cfg op).map fun (answer, c) =>
    ⟨c, fun key => (w.record.note cfg w.cache op answer key).map (Stored.mark cfg c key)⟩

/-- The cache after start-up: classes of the given chunk sizes and chunks per page, no pages,
empty indexes. The clock starts at two. -/
def State.initial (sizes : List (Nat × Nat)) (buckets remoteBuckets : Nat) : State where
  assoc := Chain.empty buckets
  remoteAssoc := Chain.empty remoteBuckets
  remoteMem := fun _ => { key := [], value := [] }
  classes := sizes.map fun (size, perslab) => { size, perslab }
  currentTime := 2

def World.initial (sizes : List (Nat × Nat)) (buckets remoteBuckets : Nat) : World where
  cache := State.initial sizes buckets remoteBuckets
  record := fun _ => none

/-! ### Pieces of runs

Two size classes, with two and one chunks to a page of one MiB; small items go to the first. -/

def plainSettings : Settings where
  hash := List.length
  processStarted := 1700000000

def freshWorld : World := World.initial [(0, 0), (524288, 2), (1048576, 1)] 0 0

def remotePage : Op := .attach 1 0 4096

/-- A SET that finds no free chunk gets a new page if `page` is set. -/
def setValue (key value : UInt8) (page : Bool) (exptime : Nat) : Op :=
  .store { cmd := .set, key := [key], value := [value], exptime } { alloc := [{ newPage := page }] }

def getValue (key : UInt8) : Op := .get [key] none true true

end MemExchange.Cache
