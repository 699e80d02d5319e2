import MemExchange.Cache.State
import MemExchange.Lib.Lists
import MemExchange.Lib.Run

/-!
# The LRU lists

Every slab class has four LRU lists, and `slabs_clsid` of a linked item says which one it is in:
the class in the low six bits, the segment in the two high ones. A call holds the lock of its item
and is one step. Time and the settings are what each call finds.
-/
namespace MemExchange.Segments

open Cache (Lru)
open Function (update_of_ne update_self update)

/-- `it_flags`, without the flag of the chunks of a large item. -/
structure Flags where
  linked : Bool := false
  cas : Bool := false
  slabbed : Bool := false
  fetched : Bool := false
  active : Bool := false
  chunked : Bool := false
  deriving DecidableEq, Repr

/-- The header of an item, or of a free chunk. `nbytes` is an `int` that is not negative. -/
structure Item where
  flags : Flags := {}
  refcount : UInt16 := 0
  slabsClsid : UInt8 := 0
  time : UInt32 := 0
  exptime : UInt32 := 0
  nkey : UInt8 := 0
  nsuffix : UInt8 := 0
  nbytes : Fin (2 ^ 31) := 0
  deriving DecidableEq

namespace Item

/-- `ITEM_ntotal`; the header has 56 bytes. -/
def ntotal (it : Item) : Nat :=
  56 + it.nkey.toNat + 1 + it.nsuffix.toNat + it.nbytes + if it.flags.cas then 8 else 0

/-- `ITEM_clsid` -/
def clsid (it : Item) : UInt8 := it.slabsClsid &&& 63

/-- `ITEM_lruid` -/
def lruid (it : Item) : UInt8 := it.slabsClsid &&& 192

/-- The crawler is in the lists as an item without key and data. -/
def isCrawler (it : Item) : Bool := it.nbytes = 0 ∧ it.nkey = 0 ∧ it.flags = { linked := true }

end Item

/-- `HOT_LRU`, `WARM_LRU`, `COLD_LRU` and `TEMP_LRU` -/
def bits : Lru → UInt8
  | .hot => 0
  | .warm => 64
  | .cold => 128
  | .temp => 192

structure Settings where
  lruSegmented : Bool
  tempLru : Bool := false
  temporaryTtl : UInt32 := 61
  tailRepairTime : UInt32 := 0
  hotLruPct : UInt32 := 32
  warmLruPct : UInt32 := 32
  evictToFree : Bool := true
  useCas : Bool := true

/-- What a call finds: the settings, `current_time`, and which items were flushed. -/
structure Moment (n : Nat) where
  settings : Settings
  now : UInt32
  flushed : Fin n → Bool := fun _ => false

/-- The headers of `n` chunks and the lists. In the beginning all chunks are free. The free lists
go through the same links as the LRU lists. -/
structure Memory (n : Nat) where
  items : Fin n → Item := fun _ => { flags := { slabbed := true } }
  lists : Dlls UInt8 (Fin n) := {}
  sizes : UInt8 → UInt32 := fun _ => 0
  sizesBytes : UInt8 → UInt64 := fun _ => 0

variable {n : Nat}

namespace Memory

variable (s : Memory n) (e : Fin n)

def modify (g : Item → Item) : Memory n :=
  { s with items := update s.items e (g (s.items e)) }

@[simp] theorem modify_self (g : Item → Item) : (s.modify e g).items e = g (s.items e) :=
  update_self ..

theorem modify_of_ne {x : Fin n} (other : x ≠ e) (g : Item → Item) :
    (s.modify e g).items x = s.items x := update_of_ne other ..

/-! ### Linking -/

/-- `do_item_link_q`. The item is the new head of its list. -/
def doItemLinkQ : Memory n :=
  let it := s.items e
  { s with
    lists := s.lists.link it.slabsClsid e
    sizes := update s.sizes it.slabsClsid (s.sizes it.slabsClsid + 1)
    sizesBytes := update s.sizesBytes it.slabsClsid
      (s.sizesBytes it.slabsClsid + UInt64.ofNat it.ntotal) }

def doItemUnlinkQ : Memory n :=
  let it := s.items e
  { s with
    lists := s.lists.unlink it.slabsClsid e
    sizes := update s.sizes it.slabsClsid (s.sizes it.slabsClsid - 1)
    sizesBytes := update s.sizesBytes it.slabsClsid
      (s.sizesBytes it.slabsClsid - UInt64.ofNat it.ntotal) }

@[simp] theorem doItemLinkQ_items : (s.doItemLinkQ e).items = s.items := rfl

@[simp] theorem doItemUnlinkQ_items : (s.doItemUnlinkQ e).items = s.items := rfl

def refcountIncr : Memory n := s.modify e fun it => { it with refcount := it.refcount + 1 }

/-- `item_free`, as far as it writes the header. -/
def itemFree : Memory n :=
  s.modify e fun it => { it with flags := { slabbed := true }, slabsClsid := 0 }

def doItemRemove : Memory n :=
  let s := s.modify e fun it => { it with refcount := it.refcount - 1 }
  if (s.items e).refcount = 0 then s.itemFree e else s

def doItemLink (now : UInt32) : Memory n :=
  let s := s.modify e fun it => { it with flags := { it.flags with linked := true }, time := now }
  (s.doItemLinkQ e).refcountIncr e

/-- `do_item_unlink`, and `do_item_unlink_nolock` for a caller that holds the lock of the list. -/
def doItemUnlink : Memory n :=
  if (s.items e).flags.linked then
    let s := s.modify e fun it => { it with flags := { it.flags with linked := false } }
    (s.doItemUnlinkQ e).doItemRemove e
  else s

def doItemReplace (old new : Fin n) (now : UInt32) : Memory n := (s.doItemUnlink old).doItemLink new now

/-! ### Updating -/

/-- `it->time < current_time - ITEM_UPDATE_INTERVAL`, for unsigned numbers. -/
def stale (now : UInt32) : Bool := (s.items e).time < now - 0

def doItemUpdateNolock (now : UInt32) : Memory n :=
  if s.stale e now ∧ (s.items e).flags.linked then
    let s := s.doItemUnlinkQ e
    let s := s.modify e fun it => { it with time := now }
    s.doItemLinkQ e
  else s

/-- Hits on the cold segment move an active item to the warm one; without segments an item goes to
the head of its list. -/
def doItemUpdate (m : Moment n) : Memory n :=
  let it := s.items e
  if m.settings.lruSegmented then
    if it.flags.linked then
      if it.lruid = bits .cold ∧ it.flags.active then
        let s := s.modify e fun it => { it with time := m.now }
        let s := s.doItemUnlinkQ e
        let s := s.modify e fun it => { it with
          slabsClsid := it.clsid ||| bits .warm
          flags := { it.flags with active := false } }
        s.doItemLinkQ e
      else if s.stale e m.now then s.modify e fun it => { it with time := m.now }
      else s
    else s
  else if s.stale e m.now ∧ it.flags.linked then
    let s := s.modify e fun it => { it with time := m.now }
    (s.doItemUnlinkQ e).doItemLinkQ e
  else s

/-- `do_item_get` for the item that was found, with `DO_UPDATE` or without. Also whether the item
is returned, and whether it is queued for a bump; `room` says whether the buffer takes it. -/
def doItemGet (m : Moment n) (doUpdate room : Bool) : Memory n × Bool × Bool :=
  let s := s.refcountIncr e
  let it := s.items e
  if m.flushed e ∨ (it.exptime ≠ 0 ∧ it.exptime ≤ m.now) then
    ((s.doItemUnlink e).doItemRemove e, false, false)
  else if ¬ doUpdate then (s, true, false)
  else if m.settings.lruSegmented then
    if it.flags.active then (s, true, false)
    else if ¬ it.flags.fetched then
      (s.modify e fun it => { it with flags := { it.flags with fetched := true } }, true, false)
    else
      let active := s.modify e fun it => { it with flags := { it.flags with active := true } }
      if it.lruid ≠ bits .cold then (active.doItemUpdate e m, true, false)
      -- `lru_bump_async` takes a reference of its own
      else if room then (active.refcountIncr e, true, true)
      else (active.modify e fun it => { it with flags := { it.flags with active := false } }, true, false)
  else
    let s := s.modify e fun it => { it with flags := { it.flags with fetched := true } }
    (s.doItemUpdate e m, true, false)

/-- A bump that `lru_maintainer_bumps` takes out of a buffer. -/
def bump (m : Moment n) : Memory n := (s.doItemUpdate e m).doItemRemove e

end Memory

/-! ### Pulling the tail -/

/-- A call of `lru_pull_tail`. `locked i` says whether the lock of the item is taken when `i` more
items may be visited. -/
structure Pull where
  origId : UInt8
  curLru : Lru
  totalBytes : UInt64
  evict : Bool := false
  crawlBlocks : Bool := false
  maxAge : UInt32 := 0
  locked : Nat → Bool := fun _ => false

namespace Pull

def id (p : Pull) : UInt8 := p.origId ||| bits p.curLru

/-- Over this many bytes a list gives items to the cold one. -/
def limit (p : Pull) (cfg : Settings) : UInt64 :=
  let hot := if p.curLru = .hot then p.totalBytes * cfg.hotLruPct.toUInt64 / 100 else 0
  if hot = 0 then p.totalBytes * cfg.warmLruPct.toUInt64 / 100 else hot

end Pull

/-- What comes of an item that is visited: the walk goes on, or it ends with the item, which may
have been taken out of its list to be moved. -/
inductive Visit (n : Nat) where
  | goOn (s : Memory n) (removed : Nat)
  | stop (s : Memory n) (moveTo : Option Lru) (removed : Nat)

namespace Memory

variable (s : Memory n)

/-- The body of the loop of `lru_pull_tail`, for an item whose lock was free. -/
def visit (m : Moment n) (p : Pull) (search : Fin n) : Visit n :=
  let s := s.refcountIncr search
  let it := s.items search
  if it.refcount ≠ 2 ∧ m.settings.tailRepairTime ≠ 0 ∧ it.time + m.settings.tailRepairTime < m.now then
    let s := s.modify search fun it => { it with refcount := 1 }
    .goOn (s.doItemUnlink search) 0
  else if (it.exptime ≠ 0 ∧ it.exptime < m.now) ∨ m.flushed search then
    .goOn ((s.doItemUnlink search).doItemRemove search) 1
  else
    let passive := s.modify search fun it => { it with flags := { it.flags with active := false } }
    match p.curLru with
    | .hot | .warm =>
      if it.flags.active then
        if p.curLru = .warm then
          .goOn ((passive.doItemUpdateNolock search m.now).doItemRemove search) 0
        else .stop (passive.doItemUnlinkQ search) (some .warm) 1
      else if s.sizesBytes p.id > p.limit m.settings ∨ m.now - it.time > p.maxAge then
        .stop (s.doItemUnlinkQ search) (some .cold) 1
      else .stop s none 0
    | .cold =>
      if p.evict then
        if m.settings.evictToFree then .stop (s.doItemUnlink search) none 1 else .stop s none 0
      else if it.flags.active ∧ m.settings.lruSegmented then
        .stop (passive.doItemUnlinkQ search) (some .warm) 1
      else .stop s none 0
    | .temp => .stop s none 0

/-- What is left to do for the item that ended the walk. -/
def settle (it : Fin n) (moveTo : Option Lru) : Memory n :=
  let s := match moveTo with
    | some lru => (s.modify it fun h => { h with slabsClsid := h.clsid ||| bits lru }).doItemLinkQ it
    | none => s
  s.doItemRemove it

/-- The loop. A crawler does not count as a try, so the walk is bounded by `fuel` as well. -/
def pullLoop (m : Moment n) (p : Pull) : Nat → Nat → Option (Fin n) → Memory n → Nat → Memory n × Nat
  | fuel + 1, tries + 1, some search, s, removed =>
    let nextIt := s.lists.prev search
    if (s.items search).isCrawler then
      if p.crawlBlocks then (s, 0) else pullLoop m p fuel (tries + 1) nextIt s removed
    else if p.locked tries then pullLoop m p fuel tries nextIt s removed
    else match s.visit m p search with
      | .goOn s more => pullLoop m p fuel tries nextIt s (removed + more)
      | .stop s moveTo more => (s.settle search moveTo, removed + more)
  | _, _, _, s, removed => (s, removed)

/-- `lru_pull_tail`, with the number of items it has removed. -/
def lruPullTail (m : Moment n) (p : Pull) (fuel : Nat) : Memory n × Nat :=
  if p.origId = 0 then (s, 0) else pullLoop m p fuel 5 (s.lists.tails p.id) s 0

end Memory

/-! ### Runs -/

/-- What `do_item_alloc` is asked for: the class, and the fields of the header. -/
structure Request where
  id : UInt8
  nkey : UInt8
  nsuffix : UInt8
  nbytes : Fin (2 ^ 31)
  exptime : UInt32 := 0
  chunked : Bool := false

def Request.lru (r : Request) (m : Moment n) : Lru :=
  if m.settings.tempLru ∧ r.exptime - m.now ≤ m.settings.temporaryTtl then .temp
  else if m.settings.lruSegmented then .hot
  else .cold

def Memory.doItemAlloc (s : Memory n) (e : Fin n) (m : Moment n) (r : Request) : Memory n :=
  { s.modify e fun it => { it with
      flags := { it.flags with
        slabbed := false
        chunked := it.flags.chunked || r.chunked
        cas := it.flags.cas || m.settings.useCas }
      refcount := 1
      slabsClsid := r.id ||| bits (r.lru m)
      nkey := r.nkey
      nsuffix := r.nsuffix
      nbytes := r.nbytes
      exptime := r.exptime } with
    lists := { s.lists with
      prev := update s.lists.prev e none
      next := update s.lists.next e none } }

/-- The slab mover copies an item into a free chunk, to put it in the place of the item. -/
def Memory.copy (s : Memory n) (old e : Fin n) : Memory n :=
  let it := s.items old
  { s.modify e fun _ => { it with flags := { it.flags with linked := false }, refcount := 0 } with
    lists := { s.lists with
      prev := update s.lists.prev e none
      next := update s.lists.next e none } }

/-- The memory, the references that connections and threads hold, and those in the buffers of
asynchronous bumps. -/
structure World (n : Nat) where
  mem : Memory n := {}
  held : Fin n → Nat := fun _ => 0
  bumps : List (Fin n) := []

def World.refs (w : World n) (e : Fin n) : Nat := w.held e + w.bumps.count e

inductive Action (n : Nat) where
  /-- A free chunk becomes an item. -/
  | alloc (e : Fin n) (m : Moment n) (r : Request)
  | copy (old e : Fin n)
  /-- The slab allocator writes the links of free chunks. -/
  | slots (prev next : Fin n → Option (Fin n))
  | link (e : Fin n) (now : UInt32)
  | unlink (e : Fin n)
  | update (e : Fin n) (m : Moment n)
  | replace (old new : Fin n) (now : UInt32)
  | pull (m : Moment n) (p : Pull) (fuel : Nat)
  /-- An item that is found in the hash table. -/
  | get (e : Fin n) (m : Moment n) (doUpdate room : Bool)
  | touch (e : Fin n) (exptime : UInt32)
  /-- A reference is given up. -/
  | remove (e : Fin n)
  /-- A queued bump is done. -/
  | bump (e : Fin n) (m : Moment n)

/-- An item that a caller may link: it is neither linked nor free. -/
def Memory.loose (s : Memory n) (e : Fin n) : Bool :=
  ¬ (s.items e).flags.linked ∧ ¬ (s.items e).flags.slabbed

def Memory.rewire (s : Memory n) (prev next : Fin n → Option (Fin n)) : Memory n :=
  { s with
    lists := { s.lists with
      prev := fun e => if (s.items e).flags.slabbed then prev e else s.lists.prev e
      next := fun e => if (s.items e).flags.slabbed then next e else s.lists.next e } }

def step (w : World n) : Action n → Option (World n)
  | .alloc e m r =>
    if (w.mem.items e).flags.slabbed then
      some { w with mem := w.mem.doItemAlloc e m r, held := update w.held e 1 }
    else none
  | .copy old e =>
    if (w.mem.items old).flags.linked ∧ (w.mem.items e).flags.slabbed then
      some { w with mem := w.mem.copy old e }
    else none
  | .slots prev next => some { w with mem := w.mem.rewire prev next }
  | .link e now => if w.mem.loose e then some { w with mem := w.mem.doItemLink e now } else none
  | .unlink e => some { w with mem := w.mem.doItemUnlink e }
  | .update e m => some { w with mem := w.mem.doItemUpdate e m }
  | .replace old new now =>
    if w.mem.loose new then some { w with mem := w.mem.doItemReplace old new now } else none
  | .pull m p fuel => some { w with mem := (w.mem.lruPullTail m p fuel).1 }
  | .get e m doUpdate room =>
    if (w.mem.items e).flags.linked then
      let (mem, found, bumped) := w.mem.doItemGet e m doUpdate room
      some {
        mem := mem
        held := if found then update w.held e (w.held e + 1) else w.held
        bumps := if bumped then w.bumps ++ [e] else w.bumps }
    else none
  | .touch e exptime =>
    if 0 < w.held e then
      some { w with mem := w.mem.modify e fun it => { it with exptime := exptime } }
    else none
  | .remove e =>
    if 0 < w.held e then
      some { w with mem := w.mem.doItemRemove e, held := update w.held e (w.held e - 1) }
    else none
  | .bump e m =>
    if e ∈ w.bumps then some { w with mem := w.mem.bump e m, bumps := w.bumps.erase e } else none

/-! ### What is to hold -/

def Memory.order (s : Memory n) (i : UInt8) : List (Fin n) :=
  (s.lists.list i).toList (s.sizes i).toNat

/-- The lists are well formed and counted, a linked item is in the one list of its `slabs_clsid`, and
no free chunk is in any. -/
structure Listed (s : Memory n) : Prop where
  wellFormed : ∀ i, (s.lists.list i).Rep (s.order i)
  size : ∀ i, (s.sizes i).toNat = (s.order i).length
  bytes : ∀ i, (s.sizesBytes i).toNat = ((s.order i).map fun e => (s.items e).ntotal).sum
  linked : ∀ e, (s.items e).flags.linked = true → ∀ i, e ∈ s.order i ↔ i = (s.items e).slabsClsid
  free : ∀ e, (s.items e).flags.slabbed = true → ∀ i, e ∉ s.order i

/-- No item that somebody has a reference to is old enough for `tail_repair_time`. -/
def Unrepaired (w : World n) : Action n → Prop
  | .pull m p _ => m.settings.tailRepairTime ≠ 0 →
      ¬ m.now + m.settings.tailRepairTime < m.now ∧
        ∀ e, (w.mem.items e).slabsClsid = p.id → 0 < w.refs e →
          ¬ (w.mem.items e).time + m.settings.tailRepairTime < m.now
  | _ => True

/-- The 16 bits of `refcount` are enough, and the tail is not repaired under a reference. -/
def Careful (w : World n) (a : Action n) : Prop :=
  (∀ e, (w.mem.items e).refcount.toNat + 2 < 2 ^ 16) ∧ Unrepaired w a

instance (w : World n) : ∀ a, Decidable (Unrepaired w a)
  | .pull m p _ => inferInstanceAs (Decidable (m.settings.tailRepairTime ≠ 0 →
      ¬ m.now + m.settings.tailRepairTime < m.now ∧
        ∀ e, (w.mem.items e).slabsClsid = p.id → 0 < w.refs e →
          ¬ (w.mem.items e).time + m.settings.tailRepairTime < m.now))
  | .alloc .. | .copy .. | .slots .. | .link .. | .unlink .. | .update .. | .replace .. | .get ..
  | .touch .. | .remove .. | .bump .. => isTrue trivial

instance (w : World n) (a : Action n) : Decidable (Careful w a) :=
  inferInstanceAs (Decidable ((∀ e, (w.mem.items e).refcount.toNat + 2 < 2 ^ 16) ∧ Unrepaired w a))

end MemExchange.Segments
