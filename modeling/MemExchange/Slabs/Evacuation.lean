import MemExchange.Lib.Run

/-!
# Emptying a page

The slab mover empties a page while the other threads allocate, store, read and free. A large item
is a header with further chunks, each of which points back to the header and is moved on its own.
The free lists, the chain of chunks of a large item and the table of the items are a list each. What
is done under one lock is one step: the mover looks at a chunk under `slabs_lock`, gives that up, and
copies or throws out under the lock of the item.
-/
namespace MemExchange.Evacuation

open Function (update)

abbrev Bytes := List UInt8

/-- A chunk, by its page and its place in the page. -/
structure Chunk where
  page : Nat
  index : Nat
  deriving DecidableEq, Repr

/-- The settings. `lockOf` is the item lock that the hash of a key selects. -/
structure Config where
  pagesize : Nat
  slabPageSize : Nat
  size : Nat → Nat
  lockOf : Bytes → Nat := fun _ => 0
  pagesize_pos : 0 < pagesize
  size_pos : ∀ c, 0 < size c

namespace Config

variable (cfg : Config)

def perslab (c : Nat) : Nat := cfg.slabPageSize / cfg.size c

def adjustSize (si : Nat) : Nat := (si / cfg.pagesize + 1) * cfg.pagesize

theorem lt_adjustSize (si : Nat) : si < cfg.adjustSize si := by
  rw [adjustSize, Nat.mul_comm]
  exact Nat.lt_mul_div_succ si cfg.pagesize_pos

end Config

/-- What `it_flags` says of a chunk: `ITEM_SLABBED`, that together with `ITEM_FETCHED`, no flag that
the mover looks at, `ITEM_LINKED`, or `ITEM_CHUNK` with the header it belongs to. -/
inductive Role where
  | slabbed
  | cleared
  | plain
  | linked
  | chunk (head : Chunk)
  deriving DecidableEq, Repr

/-- The header of a chunk and the data behind it. `chunks` is the chain of a large item. Memory that
was never cut counts as cleared. -/
structure Item where
  role : Role := .cleared
  refcount : Nat := 0
  key : Bytes := []
  flags : UInt32 := 0
  exptime : UInt32 := 0
  data : Bytes := []
  chunks : List Chunk := []
  deriving DecidableEq

/-- The pages and what is in them. Of the page `p`, `owner p` is the class it was cut for, `cut p`
the number of its chunks, and `mapped p` bytes are mapped from `base p` on. Class 0 is the pool of
pages without a class. -/
structure Memory where
  items : Chunk → Item := fun _ => {}
  slots : Nat → List Chunk := fun _ => []
  assoc : Bytes → Option Chunk := fun _ => none
  owner : Nat → Nat := fun _ => 0
  cut : Nat → Nat := fun _ => 0
  base : Nat → Nat := fun _ => 0
  mapped : Nat → Nat := fun _ => 0
  slabList : Nat → List Nat := fun _ => []
  pages : Nat := 0

variable (refcount : Nat) (cfg : Config)

/-- `refcount_incr` and `refcount_decr`, on an `unsigned short` -/
def refcountIncr : Nat := (refcount + 1) % 2 ^ 16

@[inherit_doc refcountIncr]
def refcountDecr : Nat := (refcount + (2 ^ 16 - 1)) % 2 ^ 16

namespace Memory

variable (s : Memory) (it : Chunk) (cfg : Config) (c : Nat) (x : Chunk) (base : Nat)

def modify (f : Item → Item) : Memory :=
  { s with items := update s.items x (f (s.items x)) }

/-! ### Free lists -/

/-- One chunk goes to the head of the free list of its class. `slabs_clsid`, which was set when the
chunk was handed out, is the class of its page. -/
def giveBack : Memory :=
  let c := s.owner x.page
  { s.modify x fun it => { it with role := .slabbed, chunks := [] } with
    slots := update s.slots c (x :: s.slots c) }

/-- `do_slabs_free` and `do_slabs_free_chunked`. The header goes first, then the chain. -/
def slabsFree : Memory :=
  (it :: (s.items it).chunks).foldl giveBack s

/-- `do_slabs_alloc` from the free list of the class -/
def slabsAlloc : Option (Chunk × Memory) :=
  match s.slots c with
  | [] => none
  | x :: rest =>
    some (x, { s.modify x fun it => { it with role := .plain, refcount := 1 } with
      slots := update s.slots c rest })

/-- `split_slab_page_into_freelist`, on a page that has just been zeroed -/
def split (p c sizee : Nat) : Memory :=
  let n := sizee / cfg.size c
  ((List.range n).map (Chunk.mk p)).foldl giveBack
    { s with
      items := fun x => if x.page = p then {} else s.items x
      owner := update s.owner p c
      cut := update s.cut p n }

/-! ### Items -/

/-- `do_item_link`, without the LRU lists -/
def doItemLink : Memory :=
  { s.modify it fun i => { i with role := .linked, refcount := refcountIncr i.refcount } with
    assoc := update s.assoc (s.items it).key (some it) }

def doItemRemove : Memory :=
  let s := s.modify it fun i => { i with refcount := refcountDecr i.refcount }
  if (s.items it).refcount = 0 then s.slabsFree it else s

/-- `do_item_unlink`, without the LRU lists -/
def doItemUnlink : Memory :=
  if (s.items it).role = .linked then
    doItemRemove
      { s.modify it fun i => { i with role := .plain } with
        assoc := update s.assoc (s.items it).key none } it
  else s

/-- `do_item_alloc_chunk`: the new chunk is the last of the chain. -/
def attach : Memory :=
  (s.modify x fun i => { i with role := .chunk it }).modify it
    fun i => { i with chunks := i.chunks ++ [x] }

/-! ### The mover's changes -/

/-- The chunk is marked as emptied. Nothing reads the links of such a chunk. -/
def clear : Memory :=
  s.modify x fun it => { it with role := .cleared, refcount := 0, chunks := [] }

/-- `slab_rebalance_cut_free`, and the mark -/
def cutFree : Memory :=
  { s.clear x with slots := update s.slots c ((s.slots c).erase x) }

/-- `slab_rebalance_alloc`: up to `tries` chunks are taken from the free list, and those in the
first `perslab` places of the page are marked instead of used. -/
def rebalanceAlloc (c page perslab : Nat) : Nat → Memory → Option Chunk × Memory
  | 0, s => (none, s)
  | tries + 1, s =>
    match s.slabsAlloc c with
    | none => (none, s)
    | some (x, t) =>
      if x.page = page ∧ x.index < perslab then
        rebalanceAlloc c page perslab tries (t.clear x)
      else (some x, t)

/-- An item is copied to a fresh chunk, which takes its place: `memcpy`, `do_item_replace`, and the
chain is told of its new header. -/
def rescue (new : Chunk) : Memory :=
  let copied := s.modify new fun _ => { s.items it with role := .plain, refcount := 0 }
  let replaced := (copied.doItemUnlink it).doItemLink new
  let repointed := (replaced.items new).chunks.foldl
    (fun s c => s.modify c fun i => { i with role := .chunk new }) replaced
  repointed.clear it

/-- One chunk of a large item is copied to a fresh one, which takes its place in the chain. -/
def rescueChunk (ch new : Chunk) : Memory :=
  let copied := s.modify new fun _ => s.items ch
  let relinked := copied.modify it fun i =>
    { i with
      refcount := refcountDecr i.refcount
      chunks := i.chunks.map fun c => if c = ch then new else c }
  relinked.clear ch

/-- An item that cannot be kept is unlinked and freed. -/
def throwOut : Memory := (s.doItemUnlink it).slabsFree it

/-! ### What a request finds -/

/-- The client flags, the expiry time and the value under a key -/
def find (k : Bytes) : Option (UInt32 × UInt32 × Bytes) :=
  (s.assoc k).map fun it =>
    ((s.items it).flags, (s.items it).exptime,
      (s.items it).data ++ (s.items it).chunks.flatMap fun c => (s.items c).data)

/-- Some bytes of the chunk are among the `len` bytes from `start` on. -/
def Overlaps (start len : Nat) : Prop :=
  let size := cfg.size (s.owner x.page)
  s.base x.page + x.index * size < start + len ∧ start < s.base x.page + (x.index + 1) * size

/-- The bytes from `base` on are not mapped. -/
def Unmapped (len : Nat) : Prop :=
  ∀ p < s.pages, s.mapped p = 0 ∨ base + len ≤ s.base p ∨ s.base p + s.mapped p ≤ base

instance (len : Nat) : Decidable (s.Unmapped base len) :=
  inferInstanceAs (Decidable (∀ p < s.pages, _))

/-- A page that the class does not have yet is mapped. -/
def map (len : Nat) : Memory :=
  { s with
    base := update s.base s.pages base
    mapped := update s.mapped s.pages len
    pages := s.pages + 1 }

def append (p : Nat) : Memory :=
  { s with slabList := update s.slabList c (s.slabList c ++ [p]) }

/-- `do_slabs_newslab`. A page of the pool is used first. -/
def newslab : Option Memory :=
  match (s.slabList 0).getLast? with
  | some p =>
    some (({ s with slabList := update s.slabList 0 (s.slabList 0).dropLast }.split
      cfg p c cfg.slabPageSize).append c p)
  | none =>
    let len := cfg.adjustSize cfg.slabPageSize
    if s.Unmapped base len then
      some (((s.map base len).split cfg s.pages c cfg.slabPageSize).append c s.pages)
    else none

/-- `slab_rebalance_finish` on the side that receives a page of `spare` bytes from a tenant on this
machine. `shm_malloc_spare` rounds up once more and stays within the spare memory. -/
def receive (spare : Nat) : Option Memory :=
  let si := min (cfg.adjustSize (cfg.size c * cfg.perslab c)) spare
  let len := min (cfg.adjustSize si) spare
  if s.Unmapped base len then
    some (((s.map base len).split cfg s.pages c si).append c s.pages)
  else none

/-- The same for a page on another machine: it has no chunk in local memory. -/
def receiveRemote : Memory :=
  ({ s with owner := update s.owner s.pages c, pages := s.pages + 1 }).append c s.pages

end Memory

/-! ### The mover -/

inductive Dest where
  | slabClass (d : Nat)
  | localTenant
  | remoteTenant
  deriving DecidableEq, Repr

/-- The item the mover has locked and holds a reference to, the chunk of it that is to be moved if
that is not the header, and the fresh chunk, if there was one. -/
structure Hold where
  it : Chunk
  ch : Option Chunk
  new : Option Chunk
  deriving DecidableEq, Repr

/-- `slab_rebal`. `index` is `slab_to_release`, for a page that goes to a tenant; `pos` counts
chunks. -/
structure Mover where
  sClsid : Nat
  dest : Dest
  index : Nat
  page : Nat
  pos : Nat := 0
  busyItems : Nat := 0
  done : Bool := false
  hold : Option Hold := none
  deriving DecidableEq, Repr

/-- `held` counts the references that connections have to an item. -/
structure World where
  mem : Memory := {}
  held : Chunk → Nat := fun _ => 0
  mover : Option Mover := none

variable (w : World)

namespace Mover

variable (m : Mover)

/-- To the next chunk. At the end of the page the scan starts over if an item was busy. -/
def advance (busy : Nat) : Mover :=
  let m := { m with pos := m.pos + 1, busyItems := m.busyItems + busy, hold := none }
  if cfg.perslab m.sClsid ≤ m.pos then
    if m.busyItems = 0 then { m with done := true } else { m with pos := 0, busyItems := 0 }
  else m

def handed : Nat :=
  let bytes := cfg.size m.sClsid * cfg.perslab m.sClsid
  match m.dest with
  | .slabClass _ => bytes
  | _ => cfg.adjustSize bytes

/-- The page that is handed out. A tenant gets the page at `slab_to_release`, which is looked up
again. -/
def handedPage (s : Memory) : Option Nat :=
  match m.dest with
  | .slabClass _ => some m.page
  | _ => (s.slabList m.sClsid)[m.index]?

end Mover

namespace World

variable (k : Bytes) (m : Mover)

/-- The mover does not hold the lock of the key. -/
def Unlocked : Prop :=
  ∀ m ∈ w.mover, ∀ h ∈ m.hold, cfg.lockOf k ≠ cfg.lockOf (w.mem.items h.it).key

instance : Decidable (w.Unlocked cfg k) :=
  inferInstanceAs (Decidable (∀ m ∈ w.mover, ∀ h ∈ m.hold, _))

/-- `slab_rebalance_start`. A page for a tenant is chosen by `slab_to_release`. -/
def start (c index : Nat) (dest : Dest) : Option World :=
  let go (page : Nat) : World :=
    { w with mover := some { sClsid := c, dest := dest, index := index, page := page } }
  if w.mover = none ∧ 1 ≤ c then
    match dest with
    | .slabClass d =>
      if c ≠ d ∧ 2 ≤ (w.mem.slabList c).length then (w.mem.slabList c)[0]?.map go else none
    | _ => (w.mem.slabList c)[index]?.map go
  else none

/-- The mover looks at a chunk. `locked` says that another thread has the lock of the item. -/
def look (locked : Bool) (now : UInt32) (flushed : Bool) : Option World :=
  let at_ : Chunk := ⟨m.page, m.pos⟩
  let busy : World := { w with mover := some (m.advance cfg 1) }
  -- behind the last chunk there is nothing to look at
  if m.done = false ∧ m.hold = none ∧ w.mem.owner m.page = m.sClsid ∧ m.pos < w.mem.cut m.page then
    let (it, ch) := match (w.mem.items at_).role with
      | .chunk head => (head, some at_)
      | _ => (at_, none)
    match (w.mem.items it).role with
    | .cleared => some { w with mover := some (m.advance cfg 0) }
    | .slabbed =>
      -- `assert(ch == NULL)`
      if ch = none then
        some { w with mem := w.mem.cutFree m.sClsid it, mover := some (m.advance cfg 0) }
      else none
    | .plain | .chunk _ => some busy
    | .linked =>
      let refcount := refcountIncr (w.mem.items it).refcount
      if locked ∨ refcount ≠ 2 then some busy
      else
        let mem := w.mem.modify it fun i => { i with refcount := refcount }
        let i := mem.items it
        let (new, mem) :=
          if (i.exptime ≠ 0 ∧ i.exptime < now) ∨ flushed then (none, mem)
          else
            mem.rebalanceAlloc m.sClsid m.page (cfg.perslab m.sClsid) (cfg.perslab m.sClsid)
        some { w with mem := mem, mover := some { m with hold := some ⟨it, ch, new⟩ } }
  else none

/-- The mover moves or throws out the item it has locked. -/
def act : Option World :=
  match m.hold with
  | none => none
  | some ⟨it, none, some new⟩ =>
    some { w with mem := w.mem.rescue it new, mover := some (m.advance cfg 0) }
  | some ⟨it, some ch, some new⟩ =>
    some { w with mem := w.mem.rescueChunk it ch new, mover := some (m.advance cfg 0) }
  | some ⟨it, _, none⟩ =>
    some { w with mem := w.mem.throwOut it, mover := some (m.advance cfg 1) }

/-- `slab_rebalance_finish` on the side that gives a page. If the page stays here, `slab_to_release`
is -1: the loop over the page list does not run, and the last entry is dropped. -/
def finish : Option World :=
  let s := w.mem
  if m.done then
    match m.dest with
    | .slabClass d =>
      let s := { s with
        slabList := update s.slabList m.sClsid (s.slabList m.sClsid).dropLast }
      let s := s.append d m.page
      -- a page in the pool is not cut
      if 0 < d then
        some { w with
          mem := s.split cfg m.page d (cfg.size m.sClsid * cfg.perslab m.sClsid)
          mover := none }
      else
        some { w with
          mem := { s with
            owner := update s.owner m.page 0
            cut := update s.cut m.page 0 }
          mover := none }
    | dest =>
      (m.handedPage s).map fun p =>
        { w with
          mem := { s with
            slabList :=
              update s.slabList m.sClsid ((s.slabList m.sClsid).eraseIdx m.index)
            cut := update s.cut p 0
            mapped := if dest = .localTenant then update s.mapped p 0 else s.mapped }
          mover := none }
  else none

end World

/-- What happens: connections allocate, fill, link, read, release and unlink items, the class gets
pages, and the mover works. -/
inductive Action where
  | alloc (c : Nat)
  | attach (it x : Chunk)
  | fill (it : Chunk) (key : Bytes) (flags exptime : UInt32) (data : Bytes)
  | fillChunk (x : Chunk) (data : Bytes)
  | link (it : Chunk)
  | get (key : Bytes)
  | rewrite (key : Bytes) (exptime : UInt32) (data : Bytes)
  | remove (it : Chunk)
  | unlink (key : Bytes)
  | repair (key : Bytes)
  | newslab (c base : Nat)
  | receive (c base spare : Nat)
  | receiveRemote (c : Nat)
  | start (c index : Nat) (dest : Dest)
  | look (locked : Bool) (now : UInt32) (flushed : Bool)
  | act
  | finish
  deriving DecidableEq, Repr

/-- One step. A connection works on items that it holds and that are not linked yet; on linked ones
it needs the lock. -/
def step : Action → Option World
  | .alloc c => (w.mem.slabsAlloc c).map fun (x, s) =>
      { w with mem := s, held := update w.held x 1 }
  | .attach it x =>
    if it ≠ x ∧ (w.mem.items it).role = .plain ∧ 0 < w.held it ∧
        (w.mem.items x).role = .plain ∧ w.held x = 1 ∧ (w.mem.items x).chunks = [] then
      some { w with
        mem := w.mem.attach it x
        held := update w.held x 0 }
    else none
  | .fill it key flags exptime data =>
    if (w.mem.items it).role = .plain ∧ 0 < w.held it then
      some { w with mem := w.mem.modify it fun i =>
        { i with key := key, flags := flags, exptime := exptime, data := data } }
    else none
  | .fillChunk x data =>
    match (w.mem.items x).role with
    | .chunk it =>
      if (w.mem.items it).role = .plain ∧ 0 < w.held it then
        some { w with mem := w.mem.modify x fun i => { i with data := data } }
      else none
    | _ => none
  | .link it =>
    let key := (w.mem.items it).key
    if (w.mem.items it).role = .plain ∧ 0 < w.held it ∧ w.Unlocked cfg key then
      -- `do_item_replace` if the key is taken
      let s := match w.mem.assoc key with
        | some old => w.mem.doItemUnlink old
        | none => w.mem
      some { w with mem := s.doItemLink it }
    else none
  | .get key =>
    match w.mem.assoc key with
    | some it =>
      if w.Unlocked cfg key then
        some { w with
          mem := w.mem.modify it fun i => { i with refcount := refcountIncr i.refcount }
          held := update w.held it (w.held it + 1) }
      else none
    | none => none
  | .rewrite key exptime data =>
    -- a touch, or a number that is counted up in place
    match w.mem.assoc key with
    | some it =>
      if w.Unlocked cfg key then
        some { w with mem := w.mem.modify it fun i => { i with exptime := exptime, data := data } }
      else none
    | none => none
  | .remove it =>
    if 0 < w.held it ∧ w.Unlocked cfg (w.mem.items it).key then
      some { w with
        mem := w.mem.doItemRemove it
        held := update w.held it (w.held it - 1) }
    else none
  | .unlink key =>
    match w.mem.assoc key with
    | some it => if w.Unlocked cfg key then some { w with mem := w.mem.doItemUnlink it } else none
    | none => none
  | .repair key =>
    -- `tail_repair_time`: the references are taken to have leaked
    match w.mem.assoc key with
    | some it =>
      if w.Unlocked cfg key then
        some { w with
          mem := (w.mem.modify it fun i => { i with refcount := 1 }).doItemUnlink it }
      else none
    | none => none
  | .newslab c base =>
    if 1 ≤ c then (w.mem.newslab cfg c base).map fun s => { w with mem := s } else none
  | .receive c base spare =>
    if 1 ≤ c then (w.mem.receive cfg c base spare).map fun s => { w with mem := s } else none
  | .receiveRemote c => if 1 ≤ c then some { w with mem := w.mem.receiveRemote c } else none
  | .start c index dest => w.start c index dest
  | .look locked now flushed => w.mover.bind fun m => w.look cfg m locked now flushed
  | .act => w.mover.bind fun m => w.act cfg m
  | .finish => w.mover.bind fun m => w.finish cfg m

/-! ### What is claimed of a page that is handed out -/

/-- No chunk with bytes among those handed out is in a free list, is linked, or belongs to a large
item. -/
def Unreferenced (s : Memory) (start len : Nat) : Prop :=
  ∀ x, s.Overlaps cfg x start len →
    (∀ c, x ∉ s.slots c) ∧ (s.items x).role ≠ .linked ∧ (∀ k, s.assoc k ≠ some x) ∧
      (∀ head, (s.items x).role ≠ .chunk head) ∧ ∀ it, x ∉ (s.items it).chunks

/-- Under every key there is what was there before, unless an item with bytes in the page was thrown
out. -/
def Kept (page : Nat) (s t : Memory) : Prop :=
  ∀ k, t.find k = s.find k ∨
    t.find k = none ∧ ∃ it, s.assoc k = some it ∧
      (it.page = page ∨ ∃ c ∈ (s.items it).chunks, c.page = page)

/-- The mover changes nothing but by throwing out items of its page, and when it hands out a page,
the page is unreferenced. -/
def Vacates (a : Action) : Prop :=
  ∀ m ∈ w.mover, ∀ t, step cfg w a = some t →
    match a with
    | .look .. | .act => Kept m.page w.mem t.mem
    | .finish =>
      Kept m.page w.mem t.mem ∧
        ∀ p ∈ m.handedPage w.mem, Unreferenced cfg w.mem (w.mem.base p) (m.handed cfg)
    | _ => True

/-- The page that is picked was cut for the class, and into as many chunks as will be scanned; if it
goes to a tenant, the bytes that will be handed out are all mapped. A page from the pool has the
length of a new one. References to an item are few enough to be counted, and are not taken for
leaked. -/
def Even : Action → Prop
  | .start c index dest =>
    let bytes := cfg.size c * cfg.perslab c
    let even (p : Nat) : Prop := w.mem.owner p = c ∧ w.mem.cut p = cfg.perslab c
    match dest with
    | .slabClass _ => ∀ p ∈ (w.mem.slabList c)[0]?, even p
    | _ => ∀ p ∈ (w.mem.slabList c)[index]?, even p ∧ cfg.adjustSize bytes ≤ w.mem.mapped p
  | .newslab _ _ => ∀ p ∈ (w.mem.slabList 0).getLast?, cfg.slabPageSize ≤ w.mem.mapped p
  | .get key => ∀ it ∈ w.mem.assoc key, (w.mem.items it).refcount + 1 < 2 ^ 16
  | .repair key => ∀ it ∈ w.mem.assoc key, w.held it = 0
  | _ => True

instance : ∀ a, Decidable (Even cfg w a)
  | .start c _ (.slabClass _) => inferInstanceAs (Decidable (∀ p ∈ (w.mem.slabList c)[0]?, _ ∧ _))
  | .start c index .localTenant =>
    inferInstanceAs (Decidable (∀ p ∈ (w.mem.slabList c)[index]?, (_ ∧ _) ∧ _))
  | .start c index .remoteTenant =>
    inferInstanceAs (Decidable (∀ p ∈ (w.mem.slabList c)[index]?, (_ ∧ _) ∧ _))
  | .newslab _ _ => inferInstanceAs (Decidable (∀ p ∈ (w.mem.slabList 0).getLast?, _))
  | .get key => inferInstanceAs (Decidable (∀ it ∈ w.mem.assoc key, _))
  | .repair key => inferInstanceAs (Decidable (∀ it ∈ w.mem.assoc key, _))
  | .alloc _ | .attach _ _ | .fill _ _ _ _ _ | .fillChunk _ _ | .link _ | .rewrite _ _ _
  | .remove _ | .unlink _ | .receive _ _ _ | .receiveRemote _ | .look _ _ _ | .act | .finish =>
    isTrue trivial

end MemExchange.Evacuation
