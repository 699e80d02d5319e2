import MemExchange.Shadow.Queue
import MemExchange.Shadow.Shapes

/-!
# Threads on the shadow queue of a class

The queue, the tree and the hash table of a class have locks of their own, and a step of a thread is
one critical section. An eviction keeps `shadowq_lock` while it goes to the tree and then to the hash
table, so it is three steps. A thread that follows a pointer to a freed item goes no further.
-/
namespace MemExchange.Shadow

/-- The settings of a class and the number of threads. There are fewer threads than the counter
of references can count; `shadowq_max_items` is a quotient by the size of a chunk. -/
structure Pool extends Settings where
  threads : Nat
  threads_lt : threads < 2 ^ 31
  maxItems_lt : maxItems.toNat + 1 < 2 ^ 32

/-- What a thread does next. `stored` tells which of the two callers an eviction has. -/
inductive Pc where
  | idle
  /-- `lru_pull_tail`: the item is in the hash table. -/
  | insertTree (e : ItemId)
  /-- The item has a node too. -/
  | insertQueue (e : ItemId)
  /-- `slabs_shadowq_lookup` has pinned the item. -/
  | lookupMove (e : ItemId)
  | lookupRelease (e : ItemId)
  /-- `do_store_item` has pinned the item. -/
  | storeEvict (e : ItemId)
  | storeRelease (e : ItemId)
  /-- `evict_shadowq_item_locked` has unlinked the item. -/
  | evictTree (victim : ItemId) (stored : Bool)
  | evictHash (victim : ItemId) (stored : Bool)
  deriving DecidableEq, Repr

namespace Pc

def item : Pc → Option ItemId
  | .idle => none
  | .insertTree e | .insertQueue e | .lookupMove e | .lookupRelease e | .storeEvict e
  | .storeRelease e | .evictTree e _ | .evictHash e _ => some e

def pin : Pc → Option ItemId
  | .lookupMove e | .lookupRelease e | .storeEvict e | .storeRelease e => some e
  | .evictTree e stored | .evictHash e stored => if stored then some e else none
  | _ => none

/-- The thread holds `shadowq_lock` between its steps. -/
def holdsQueue : Pc → Bool
  | .evictTree _ _ | .evictHash _ _ => true
  | _ => false

/-- The thread is somewhere between the hash insert and the end of `insert_shadowq_item`. -/
def inserting : Pc → Bool
  | .insertTree _ | .insertQueue _ => true
  | .evictTree _ stored | .evictHash _ stored => !stored
  | _ => false

end Pc

/-- A class and the threads on it. `freed` lists the items that were freed; nobody reads it. -/
structure World (cfg : Pool) where
  state : State
  pc : Fin cfg.threads → Pc := fun _ => .idle
  freed : List ItemId := []

/-! ### Critical sections -/

section Sections

variable (cfg : Settings) (s : State) (e : ItemId) (victim : ItemId)

/-- The first part of `insert_shadowq_item`. -/
def insertIntoTree (time : Timeval) : Result State := do
  let _ ← s.item e
  addTreeNode cfg s e time

/-- The part of an eviction before the tree: the victim leaves the queue, unless it is dead. -/
def unlinkVictim : Result (State × Option ItemId) := do
  let it ← s.item victim
  if it.dead then pure (s, none) else pure (removeShadowqItemLocked s victim, some victim)

/-- The second part of `insert_shadowq_item`, up to the tree lock of the eviction. -/
def insertIntoQueue : Result (State × Option ItemId) := do
  let _ ← s.item e
  let s := insertShadowqItemLocked s e
  if s.size > cfg.maxItems then
    match s.queue.tail with
    | some victim => unlinkVictim s victim
    | none => pure (s, none)
  else pure (s, none)

/-- The part of an eviction under the lock of the tree. -/
def evictFromTree : Result State := do
  let it ← s.item victim
  match it.treeNode with
  | some node => dropTreeNode cfg s victim node
  | none => pure s

/-- The part of an eviction under the lock of the hash table. -/
def evictFromHash : Result State := do
  let it ← s.item victim
  let s := s.setItem victim fun it => { it with dead := true }
  let s := shadowAssocDelete cfg s it.key
  let s := s.setItem victim fun it => { it with refcnt := it.refcnt - 1 }
  pure (if it.refcnt = 1 then s.freeItem victim else s)

theorem evict_eq_parts : evictShadowqItemLocked cfg s victim =
    unlinkVictim s victim >>= fun (s, unlinked) =>
      match unlinked with
      | none => pure s
      | some v => evictFromTree cfg s v >>= fun s => evictFromHash cfg s v := by
  unfold evictShadowqItemLocked unlinkVictim
  cases found : s.item victim with
  | error fault => rfl
  | ok it =>
    have here : s.items victim = some it := by
      unfold State.item at found
      split at found
      · cases found; assumption
      · cases found
    have still : (removeShadowqItemLocked s victim).item victim = .ok it := found
    cases dead : it.dead with
    | true => simp only [ok_bind, dead, if_true]; rfl
    | false =>
      simp only [ok_bind, dead, Bool.false_eq_true, if_false, pure_bind, evictFromTree, still]
      cases it.treeNode with
      | none => simp only [pure_bind, evictFromHash, still, ok_bind]
      | some node =>
        simp only [dropTreeNode, bind_assoc, pure_bind]
        cases fixWeights (removeShadowqItemLocked s victim).tree.root cfg.fuel
            (removeShadowqItemLocked s victim).tree (some node) with
        | error fault => rfl
        | ok t =>
          simp only [ok_bind]
          cases deleteTreeNode cfg.fuel t node with
          | error fault => rfl
          | ok t =>
            -- the node of the item is cleared, its key and its count are not touched
            simp only [ok_bind, evictFromHash, State.item, State.setItem, removeShadowqItemLocked,
              here, Option.map_some, Function.update_self]

end Sections

/-! ### Steps -/

namespace World

variable {cfg : Pool} (w : World cfg)

/-- Some thread holds `shadowq_lock`. -/
def queueLocked : Bool := decide (∃ t, (w.pc t).holdsQueue = true)

def inserting : Bool := decide (∃ t, (w.pc t).inserting = true)

variable (t : Fin cfg.threads) (s : State)

/-- Thread `t` has done a step. -/
def goes (pc : Pc) : World cfg :=
  { w with state := s, pc := Function.update w.pc t pc }

/-- Thread `t` has dropped a reference to `e`. -/
def drops (e : ItemId) (pc : Pc) : World cfg :=
  { w.goes t s pc with freed := if (s.items e).isNone then e :: w.freed else w.freed }

/-- The hash insert of `lru_pull_tail`. -/
def pull (key : Key) : World cfg :=
  let (e, s) := createShadowItem w.state key
  w.goes t (shadowAssocInsert cfg.toSettings s { id := e, key }) (.insertTree e)

/-- `shadow_find_and_pin`, before what the caller does with the item. -/
def pinFor (next : ItemId → Pc) (t : Fin cfg.threads) (key : Key) : Option (World cfg) :=
  (shadowFindAndPin cfg.toSettings w.state key).toOption.map fun (found, s) =>
    w.goes t s ((found.map next).getD .idle)

/-- The next critical section of a thread that is in the middle of something. -/
def next (time : Timeval) : Option (World cfg) :=
  match w.pc t with
  | .idle => none
  | .insertTree e =>
    (insertIntoTree cfg.toSettings w.state e time).toOption.map fun s => w.goes t s (.insertQueue e)
  | .insertQueue e =>
    if w.queueLocked then none
    else (insertIntoQueue cfg.toSettings w.state e).toOption.map fun (s, victim) =>
      w.goes t s (match victim with | some v => .evictTree v false | none => .idle)
  | .lookupMove e =>
    if w.queueLocked then none
    else (lookupPinned cfg.toSettings w.state e time).toOption.map fun (_, s) =>
      w.goes t s (.lookupRelease e)
  | .lookupRelease e | .storeRelease e =>
    (shadowRelease w.state e).toOption.map fun s => w.drops t s e .idle
  | .storeEvict e =>
    if w.queueLocked then none
    else (unlinkVictim w.state e).toOption.map fun (s, victim) =>
      w.goes t s (match victim with | some v => .evictTree v true | none => .storeRelease e)
  | .evictTree v stored =>
    (evictFromTree cfg.toSettings w.state v).toOption.map fun s => w.goes t s (.evictHash v stored)
  | .evictHash v stored =>
    (evictFromHash cfg.toSettings w.state v).toOption.map fun s =>
      w.drops t s v (if stored then .storeRelease v else .idle)

end World

/-- What a thread can do: begin to insert an evicted key, to look up a missed key, or to take
the key it stores out, and go on with what it has begun. -/
inductive Action (threads : Nat) where
  | pull (t : Fin threads) (key : Key)
  | lookup (t : Fin threads) (key : Key)
  | store (t : Fin threads) (key : Key)
  | next (t : Fin threads) (time : Timeval)
  deriving DecidableEq

variable (cfg : Pool) (s : State) (pc : Pc) (w : World cfg) (e : ItemId)

def threadStep : Action cfg.threads → Option (World cfg)
  | .pull t key => if w.pc t = .idle then some (w.pull t key) else none
  | .lookup t key => if w.pc t = .idle then w.pinFor .lookupMove t key else none
  | .store t key => if w.pc t = .idle then w.pinFor .storeEvict t key else none
  | .next t time => w.next t time

def World.initial (buckets : Nat) (now : Timeval) : World cfg :=
  { state := .initial buckets now }

/-! ### What is to hold -/

/-- The queue is a list of the counted length, within its bound between insertions. -/
def QueueIsList : Prop :=
  w.state.queue.Rep w.state.order ∧ w.state.order.length = w.state.size.toNat ∧
    (w.inserting = false → w.state.size ≤ cfg.maxItems)

instance : DecidablePred (QueueIsList cfg) := fun w => by
  unfold QueueIsList; infer_instance

/-- What a thread takes out of the queue is in it. -/
def UnlinksQueuedAt : Pc → Prop
  | .lookupMove e => ∀ it ∈ s.items e, it.treeNode ≠ none → e ∈ s.order
  | .storeEvict e => ∀ it ∈ s.items e, it.dead = false → e ∈ s.order
  | .insertQueue e => (insertShadowqItemLocked s e).size > cfg.maxItems →
      ∀ victim ∈ (insertShadowqItemLocked s e).queue.tail, victim ∈ (insertShadowqItemLocked s e).order
  | _ => True

instance : DecidablePred (UnlinksQueuedAt cfg s) := fun pc => by
  cases pc <;> unfold UnlinksQueuedAt <;> infer_instance

def UnlinksQueued : Action cfg.threads → Prop
  | .next t _ => w.queueLocked = false → UnlinksQueuedAt cfg w.state (w.pc t)
  | _ => True

instance : DecidableRel (UnlinksQueued cfg) := fun w action => by
  cases action <;> unfold UnlinksQueued <;> infer_instance

/-- No structure and no thread has the item. What can be reached in the queue is reached within
as many steps as there are items; a node that can be reached in the tree is in memory. -/
def Forgotten : Prop :=
  (∀ t, (w.pc t).item ≠ some e) ∧ (∀ bucket ∈ w.state.assoc.buckets, ∀ x ∈ bucket, x.id ≠ e) ∧
  (e ∉ w.state.queue.toList w.state.fresh ∧ w.state.queue.tail ≠ some e) ∧
  ∀ a < w.state.tree.fresh, ∀ n ∈ w.state.tree.mem a, n.shadowItem ≠ e

instance : Decidable (Forgotten cfg w e) := by
  unfold Forgotten; infer_instance

def FindsAllocated : Action cfg.threads → Prop
  | .next t _ => ∀ e ∈ (w.pc t).item, w.state.items e ≠ none
  | .lookup _ key | .store _ key =>
      ∀ x ∈ shadowAssocFind cfg.toSettings w.state key, w.state.items x.id ≠ none
  | .pull _ _ => True

instance : DecidableRel (FindsAllocated cfg) := fun w action => by
  cases action <;> unfold FindsAllocated <;> infer_instance

/-- A step finds its items in memory, frees no item again, and an item that it frees had one
reference left and is forgotten. -/
def FreesForgotten (action : Action cfg.threads) : Prop :=
  FindsAllocated cfg w action ∧
  ∀ w' ∈ threadStep cfg w action, w'.freed.Nodup ∧ ∀ e ∈ w'.freed, e ∉ w.freed →
    (∃ it ∈ w.state.items e, it.refcnt = 1) ∧ Forgotten cfg w' e

instance : DecidableRel (FreesForgotten cfg) := fun w action => by
  unfold FreesForgotten; infer_instance

/-- A lookup does not move an item whose insertion has not come to the queue yet, and a store
does not evict one. -/
def Pc.undisturbed : Pc → Prop
  | .lookupMove e => pc ≠ .insertQueue e
  | .storeEvict e => pc ≠ .insertTree e ∧ pc ≠ .insertQueue e
  | _ => True

instance : DecidablePred pc.undisturbed := fun other => by
  cases other <;> unfold Pc.undisturbed <;> infer_instance

/-- The condition on a step: a key is inserted while no item has it, and insertions are not
disturbed. -/
def Undisturbed : Action cfg.threads → Prop
  | .pull _ key => shadowAssocFind cfg.toSettings w.state key = none
  | .next t _ => ∀ t', (w.pc t').undisturbed (w.pc t)
  | _ => True

instance : DecidableRel (Undisturbed cfg) := fun w action => by
  cases action <;> unfold Undisturbed <;> infer_instance

end MemExchange.Shadow
