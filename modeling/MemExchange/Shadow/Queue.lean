import MemExchange.Lib.Run
import MemExchange.Lib.Chain
import MemExchange.Lib.Dll
import MemExchange.Shadow.Tree

/-!
# The shadow queue of a slab class

Keys evicted from a class live on as shadow items: in a queue with the most recently seen item
in front, in the tree of last accesses, and in a hash table. A miss that finds its key there is
counted in `shadowq_hits` under the number of pages the class would have needed to keep it.
-/
namespace MemExchange.Shadow

abbrev Key := List UInt8

structure Settings where
  hash : Key → Nat
  perslab : UInt32
  maxItems : UInt32
  fuel : Nat
  perslab_pos : 0 < perslab

/-- `shadow_item`; its queue links are kept in the queue. -/
structure ShadowItem where
  key : Key
  lastSeenTime : Timeval := ⟨0, 0⟩
  treeNode : Ptr := none
  refcnt : UInt32 := 1
  dead : Bool := false
  deriving DecidableEq, Repr

structure Entry where
  id : ItemId
  key : Key
  deriving DecidableEq, Repr

structure State where
  items : ItemId → Option ShadowItem := fun _ => none
  fresh : ItemId := 0
  queue : Dll ItemId := {}
  size : UInt32 := 0
  tree : Tree := {}
  assoc : Chain Entry
  hits : Nat → UInt32 := fun _ => 0
  misses : UInt32 := 0
  now : Timeval

namespace State

variable (s : State) (e : ItemId)

def item : Result ShadowItem :=
  match s.items e with
  | some it => .ok it
  | none => .error .null

def setItem (f : ShadowItem → ShadowItem) : State :=
  { s with items := Function.update s.items e ((s.items e).map f) }

def freeItem : State := { s with items := Function.update s.items e none }

end State

variable (cfg : Settings) (s : State) (key : Key) (e : ItemId) (time : Timeval)

def shadowAssocFind : Option Entry := s.assoc.find cfg.hash Entry.key key

def shadowAssocInsert (entry : Entry) : State :=
  { s with assoc := s.assoc.insert cfg.hash Entry.key entry }

/-- `shadow_assoc_delete`: the first item with the key, whichever it is. -/
def shadowAssocDelete : State :=
  { s with assoc := s.assoc.delete cfg.hash Entry.key key }

def createShadowItem : ItemId × State :=
  (s.fresh,
    { s with items := Function.update s.items s.fresh (some { key }), fresh := s.fresh + 1 })

def removeShadowqItemLocked : State :=
  { s with queue := s.queue.unlink e, size := s.size - 1 }

def insertShadowqItemLocked : State :=
  { s with queue := s.queue.push e, size := s.size + 1 }

/-- An item is seen now: it gets a new node in the tree. -/
def addTreeNode : Result State := do
  let tn := s.tree.fresh
  let s := { s.setItem e fun it => { it with lastSeenTime := time, treeNode := some tn } with
    now := time }
  let t ← insertTreeNode cfg.fuel (s.tree.malloc { time, shadowItem := e }) tn
  pure { s with tree := t }

def dropTreeNode (node : NodeId) : Result State := do
  let t ← fixWeights s.tree.root cfg.fuel s.tree (some node)
  let t ← deleteTreeNode cfg.fuel t node
  pure { s.setItem e fun it => { it with treeNode := none } with tree := t }

def evictShadowqItemLocked (victim : ItemId) : Result State := do
  let it ← s.item victim
  if it.dead then pure s
  else
    let s := removeShadowqItemLocked s victim
    let s ← match it.treeNode with
      | some node => dropTreeNode cfg s victim node
      | none => pure s
    let s := s.setItem victim fun it => { it with dead := true }
    let s := shadowAssocDelete cfg s it.key
    let s := s.setItem victim fun it => { it with refcnt := it.refcnt - 1 }
    pure (if it.refcnt = 1 then s.freeItem victim else s)

def insertShadowqItem : Result State := do
  let s ← addTreeNode cfg s e time
  let s := insertShadowqItemLocked s e
  if s.size > cfg.maxItems then
    match s.queue.tail with
    | some victim => evictShadowqItemLocked cfg s victim
    | none => pure s
  else pure s

def shadowFindAndPin : Result (Option ItemId × State) :=
  match shadowAssocFind cfg s key with
  | none => .ok (none, s)
  | some entry => do
    let it ← s.item entry.id
    if it.dead then pure (none, s)
    else pure (some entry.id, s.setItem entry.id fun it => { it with refcnt := it.refcnt + 1 })

def shadowRelease : Result State := do
  let it ← s.item e
  let s := s.setItem e fun it => { it with refcnt := it.refcnt - 1 }
  pure (if it.refcnt = 1 ∧ it.dead = true then s.freeItem e else s)

/-- `int x = y / p->perslab`: the division is one of unsigned numbers. -/
def bucket (y : Int) : Int := ((Int32.ofInt y).toUInt32 / cfg.perslab).toInt32.toInt

/-- The counters of a hit in bucket `x`. -/
def countHit (x : Int) : State :=
  { s with
    hits := if 0 ≤ x ∧ x ≤ 3999 then
        Function.update s.hits x.toNat (s.hits x.toNat + 1) else s.hits
    misses := s.misses + 1 }

/-- What `slabs_shadowq_lookup` does with the item it has pinned. It answers the distance and
the bucket, if the item has a node. -/
def lookupPinned : Result (Option (Int × Int) × State) := do
  let it ← s.item e
  match it.treeNode with
  | none => pure (none, s)
  | some node => do
    let y ← calculateReuseDistance cfg.fuel s.tree s.tree.root (some node)
    let x := bucket cfg y
    let s ← dropTreeNode cfg s e node
    let s := removeShadowqItemLocked s e
    let s ← addTreeNode cfg s e time
    let s := insertShadowqItemLocked s e
    pure (some (y, x), countHit s x)

def slabsShadowqLookup : Result (Option ItemId × State) := do
  let (found, s) ← shadowFindAndPin cfg s key
  match found with
  | none => pure (none, s)
  | some e => do
    let (hit, s) ← lookupPinned cfg s e time
    let s ← shadowRelease s e
    pure (hit.map fun _ => e, s)

/-! ### Runs -/

inductive Op where
  /-- A key is evicted from the class: `lru_pull_tail` makes it a shadow item. -/
  | insert (key : Key) (time : Timeval)
  /-- A miss of a key. -/
  | lookup (key : Key) (time : Timeval)
  /-- A store of a key that has no item: `do_store_item` takes its shadow item out. -/
  | evict (key : Key)
  deriving DecidableEq, Repr

/-- The branch of `do_store_item` that evicts. -/
def evictStored : Result State := do
  let (found, s) ← shadowFindAndPin cfg s key
  match found with
  | none => pure s
  | some e => do
    let s ← evictShadowqItemLocked cfg s e
    shadowRelease s e

def State.apply : Op → Result State
  | .insert key time => do
    let (e, s) := createShadowItem s key
    let s := shadowAssocInsert cfg s { id := e, key }
    insertShadowqItem cfg s e time
  | .lookup key time => (slabsShadowqLookup cfg s key time).map Prod.snd
  | .evict key => evictStored cfg s key

def Op.inTime (now : Timeval) : Op → Bool
  | .insert _ time => now.before time
  | .lookup _ time => now.before time
  | .evict _ => true

def step (op : Op) : Option State :=
  if op.inTime s.now then (s.apply cfg op).toOption else none

def State.initial (buckets : Nat) (now : Timeval) : State := { assoc := Chain.empty buckets, now }

def State.order : List ItemId := s.queue.toList s.size.toNat

end MemExchange.Shadow
