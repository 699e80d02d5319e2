import MemExchange.Cache.Binary
import MemExchange.Shadow.Linked
import MemExchange.Shadow.Races

/-!
# The shadow index beside the items

The hash table of shadow items is one for all classes. A key that is evicted leaves a shadow item in
the class it was evicted from, and a store that links a key takes its shadow item out, whatever class
that is in. Stores and evictions hold the lock of the key and are one step each; a lookup of a missed
key holds no such lock and is three steps.
-/
namespace MemExchange.Shadow

open Function (update_of_ne update_self update_apply update_eq_self update_idem update)

abbrev ClassId := UInt8

/-- What all classes share, the sizes of each, and the number of threads. -/
structure Setup where
  hash : Key → Nat
  perslab : ClassId → UInt32
  maxItems : ClassId → UInt32
  fuel : Nat
  threads : Nat
  perslab_pos : ∀ c, 0 < perslab c
  maxItems_lt : ∀ c, (maxItems c).toNat + 1 < 2 ^ 32
  threads_lt : threads < 2 ^ 31

def Setup.of (cfg : Setup) (c : ClassId) : Settings where
  hash := cfg.hash
  perslab := cfg.perslab c
  maxItems := cfg.maxItems c
  fuel := cfg.fuel
  perslab_pos := cfg.perslab_pos c

structure Part where
  queue : Dll ItemId := {}
  size : UInt32 := 0
  tree : Tree := {}
  hits : Nat → UInt32 := fun _ => 0
  misses : UInt32 := 0
  now : Timeval := ⟨0, 0⟩

/-- The shadow items of all classes, and the class of the linked item of each key. `clsid` is the
field `slabs_clsid` of the shadow items. -/
structure Mirror (cfg : Setup) where
  items : ItemId → Option ShadowItem := fun _ => none
  clsid : ItemId → ClassId := fun _ => 0
  fresh : ItemId := 0
  assoc : Chain Entry
  parts : ClassId → Part := fun _ => {}
  linked : Key → Option ClassId := fun _ => none
  pc : Fin cfg.threads → Pc := fun _ => .idle

namespace Mirror

variable {cfg : Setup} (m : Mirror cfg) (key : Key) (c : ClassId)

def of : State where
  items := m.items
  fresh := m.fresh
  queue := (m.parts c).queue
  size := (m.parts c).size
  tree := (m.parts c).tree
  assoc := m.assoc
  hits := (m.parts c).hits
  misses := (m.parts c).misses
  now := (m.parts c).now

def put (s : State) : Mirror cfg :=
  { m with
    items := s.items
    fresh := s.fresh
    assoc := s.assoc
    parts := update m.parts c
      { queue := s.queue, size := s.size, tree := s.tree, hits := s.hits, misses := s.misses,
        now := s.now } }

/-- The class of the shadow item that is found for a key. -/
def classOf : ClassId :=
  match m.assoc.find cfg.hash Entry.key key with
  | some x => m.clsid x.id
  | none => 0

/-! ### Stores and evictions -/

/-- The end of `lru_pull_tail` for a linked item in the last segment: it gets a shadow item in its
class and is unlinked. -/
def lruPullTail (time : Timeval) : Option (Mirror cfg) :=
  (m.linked key).bind fun c =>
    ((m.of c).apply (cfg.of c) (.insert key time)).toOption.map fun s =>
      { m.put c s with
        clsid := update m.clsid m.fresh c
        linked := update m.linked key none }

/-- The part of `do_store_item` for a key that has no item: its shadow item is taken out. -/
def takeOut : Option (Mirror cfg) :=
  (evictStored (cfg.of (m.classOf key)) (m.of (m.classOf key)) key).toOption.map
    (m.put (m.classOf key))

def link : Mirror cfg :=
  { m with linked := update m.linked key (some c) }

def unlink : Mirror cfg := { m with linked := update m.linked key none }

end Mirror

/-- A call of `do_store_item`. What it finds out about the item that is linked under the key: that
it has expired or been flushed, and how the CAS numbers compare. For APPEND and PREPEND the class
of the joined item, if one can be allocated, and the items of other keys that are evicted for it. -/
structure Store where
  comm : Cache.Nread
  key : Key
  clsid : ClassId
  gone : Bool := false
  casGiven : Bool := false
  casEqual : Bool := false
  joined : Option ClassId := none
  evicted : List (Key × Timeval) := []

namespace Mirror

variable {cfg : Setup} (m : Mirror cfg)

/-- The evictions of an allocation skip the key whose lock is held. -/
def pulls (locked : Key) : Mirror cfg → List (Key × Timeval) → Option (Mirror cfg)
  | m, [] => some m
  | m, (key, time) :: rest =>
    if key = locked then pulls locked m rest
    else (m.lruPullTail key time).bind fun m => pulls locked m rest

variable (st : Store) (t : Fin cfg.threads)

/-- The APPEND and PREPEND branch, for the item found. -/
def join : Option (Mirror cfg) :=
  if st.casGiven ∧ ¬ st.casEqual then some m
  else (pulls st.key m st.evicted).map fun m =>
    match st.joined with
    | some c => m.link st.key c
    | none => m

/-- `do_store_item`. A replaced item is unlinked and the new one linked under the same key. -/
def doStoreItem : Option (Mirror cfg) :=
  let m := if st.gone then m.unlink st.key else m
  match st.comm, m.linked st.key with
  | .add, some _ => some m
  | .replace, none | .append, none | .prepend, none | .cas, none => some m
  | .cas, some _ => some (if st.casEqual then m.link st.key st.clsid else m)
  | .append, some _ | .prepend, some _ => m.join st
  | .set, some _ | .replace, some _ => some (m.link st.key st.clsid)
  | .set, none | .add, none => (m.takeOut st.key).map (·.link st.key st.clsid)

/-! ### Lookups -/

/-- `slabs_shadowq_lookup` pins the shadow item of a key. -/
def lookup (key : Key) : Option (Mirror cfg) :=
  (shadowFindAndPin (cfg.of (m.classOf key)) (m.of (m.classOf key)) key).toOption.map
    fun (found, s) =>
      { m.put (m.classOf key) s with
        pc := update m.pc t ((found.map Pc.lookupMove).getD .idle) }

/-- It moves the item in its class, and then releases it. -/
def next (time : Timeval) : Option (Mirror cfg) :=
  match m.pc t with
  | .lookupMove e =>
    (lookupPinned (cfg.of (m.clsid e)) (m.of (m.clsid e)) e time).toOption.map fun (_, s) =>
      { m.put (m.clsid e) s with pc := update m.pc t (.lookupRelease e) }
  | .lookupRelease e =>
    (shadowRelease (m.of (m.clsid e)) e).toOption.map fun s =>
      { m.put (m.clsid e) s with pc := update m.pc t .idle }
  | _ => none

end Mirror

/-! ### Runs -/

inductive MirrorAction (threads : Nat) where
  | store (st : Store)
  /-- The linked item of a key is evicted. -/
  | evict (key : Key) (time : Timeval)
  /-- A delete, an expiration, a flush, or an item that is in the way of the slab mover. -/
  | unlink (key : Key)
  /-- An increment that does not fit, or an item that the slab mover copies: another item is linked
  under the same key. -/
  | replace (key : Key) (c : ClassId)
  /-- A miss of a key. -/
  | lookup (t : Fin threads) (key : Key)
  | next (t : Fin threads) (time : Timeval)

def mirrorStep {cfg : Setup} (m : Mirror cfg) : MirrorAction cfg.threads → Option (Mirror cfg)
  | .store st => m.doStoreItem st
  | .evict key time => m.lruPullTail key time
  | .unlink key => some (m.unlink key)
  | .replace key c => (m.linked key).map fun _ => m.link key c
  | .lookup t key => if m.pc t = .idle then m.lookup t key else none
  | .next t time => m.next t time

def Mirror.initial (cfg : Setup) (buckets : Nat) : Mirror cfg := { assoc := Chain.empty buckets }

/-! ### What is to hold -/

namespace Mirror

variable {cfg : Setup} (m : Mirror cfg) (e : ItemId)

def inHash : Prop := m.assoc.total (fun x => x.id = e) ≠ 0

def inQueue : Prop := e ∈ (m.of (m.clsid e)).order

def inTree : Prop :=
  ∃ a n, (m.parts (m.clsid e)).tree.Reaches a ∧ (m.parts (m.clsid e)).tree.mem a = some n ∧
    n.shadowItem = e

/-- An eviction of the item takes its own entry out of the table and nothing else. -/
def RemovesOwn (it : ShadowItem) : Prop :=
  (∀ x, (m.assoc.delete cfg.hash Entry.key it.key).total (· = x) + (if x = ⟨e, it.key⟩ then 1 else 0)
      = m.assoc.total (· = x)) ∧
    ∀ s, evictShadowqItemLocked (cfg.of (m.clsid e)) (m.of (m.clsid e)) e = .ok s →
      s.assoc = m.assoc.delete cfg.hash Entry.key it.key

end Mirror

/-- The table has at most one entry for a key and none for a key that is linked, an eviction removes
the entry of its victim, and a live item is in all three structures or in none. -/
structure Mirrors {cfg : Setup} (m : Mirror cfg) : Prop where
  once : ∀ k, m.assoc.total (fun x => x.key = k) ≤ 1
  apart : ∀ k, m.linked k ≠ none → m.assoc.total (fun x => x.key = k) = 0
  removes : ∀ e it, m.items e = some it → it.dead = false → m.RemovesOwn e it
  together : ∀ e it, m.items e = some it → it.dead = false →
    (m.inHash e ∧ m.inQueue e ∧ m.inTree e) ∨ (¬ m.inHash e ∧ ¬ m.inQueue e ∧ ¬ m.inTree e)

/-! ### One class -/

/-- The nodes of the tree belong to items of the class, and the items of the class have their nodes
in it. -/
structure Noded (mine : ItemId → Prop) (items : ItemId → Option ShadowItem) (tree : Tree) : Prop where
  owned : ∀ {e it a}, items e = some it → mine e → it.treeNode = some a → tree.owner a = some e
  home : ∀ {a e}, tree.owner a = some e → mine e

/-- A class in the middle of an operation: `Shared` for the items of all classes, and the tree. -/
structure Kept (cfg : Settings) (mine : ItemId → Prop) (place : ItemId → Place)
    (pins : ItemId → Nat) (s : State) : Prop where
  shared : Shared cfg place pins s
  noded : Noded mine s.items s.tree
  whole : s.tree.Whole

section Class

variable {cfg : Settings} {mine : ItemId → Prop} {place : ItemId → Place} {pins₁ pins' : ItemId → Nat}
  {s s' : State} {e : ItemId} {it it' : ShadowItem} {items : ItemId → Option ShadowItem} {tree t : Tree}

section

variable (noded : Noded mine items tree)
include noded

theorem Noded.replace {o : Option ShadowItem}
    (keeps : ∀ it a, o = some it → it.treeNode = some a → (items e).bind ShadowItem.treeNode = some a) :
    Noded mine (update items e o) tree := by
  refine ⟨fun {x it a} found own has => ?_, noded.home⟩
  by_cases equal : x = e
  · subst equal
    rw [update_self] at found
    obtain ⟨old, here, has⟩ := Option.bind_eq_some_iff.mp (keeps it a found has)
    exact noded.owned here own has
  · rw [update_of_ne equal] at found
    exact noded.owned found own has

theorem Noded.plant (planted : Planted tree t e) (own : mine e)
    (named : tree.owner tree.fresh = none) (here : it.treeNode = some tree.fresh) :
    Noded mine (update items e (some it)) t := by
  refine ⟨fun {x it' a} found own' has => ?_, fun {a x} owner => ?_⟩
  · rw [planted.owner]
    by_cases equal : x = e
    · subst equal
      rw [update_self] at found
      cases found
      rw [here] at has
      cases has
      rw [if_pos rfl]
    · rw [update_of_ne equal] at found
      have owner := noded.owned found own' has
      have old : a ≠ tree.fresh := by
        rintro rfl
        simp [named] at owner
      rwa [if_neg old]
  · rw [planted.owner] at owner
    split at owner
    · cases owner
      exact own
    · exact noded.home owner

theorem Noded.prune {node : NodeId} (pruned : Pruned tree t node) (here : items e = some it)
    (own : mine e) (has : it.treeNode = some node) (bare : it'.treeNode = none) :
    Noded mine (update items e (some it')) t := by
  have owner := noded.owned here own has
  refine ⟨fun {x it'' a} found own' has' => ?_, fun {a x} owner' => ?_⟩
  · have notE : x ≠ e := by
      rintro rfl
      rw [update_self] at found
      cases found
      rw [bare] at has'
      cases has'
    rw [update_of_ne notE] at found
    have owner' := noded.owned found own' has'
    have other : a ≠ node := by
      rintro rfl
      rw [owner] at owner'
      exact notE (Option.some.inj owner').symm
    rwa [pruned.owner, if_neg other]
  · rw [pruned.owner] at owner'
    split at owner'
    · cases owner'
    · exact noded.home owner'

end

variable {p : Place} {time : Timeval} {hit : Option (Int × Int)}

theorem Place.queued_of_alive (rests : p.transient = false) (alive : p.alive = true) :
    p = .queued := by
  cases p <;> first | rfl | exact absurd rests (by decide) | exact absurd alive (by decide)

theorem Kept.plant (kept : Kept cfg mine place pins₁ s) (own : mine e)
    (at_ : place e = .hashed) (done : addTreeNode cfg s e time = .ok s') :
    Kept cfg mine (update place e .treed) pins₁ s' := by
  obtain ⟨it, here⟩ := kept.shared.stored.here (e := e) (by rw [at_]; simp)
  have whole := addTreeNode_whole kept.whole done
  obtain ⟨t, planted, rfl⟩ := addTreeNode_spec done
  have same : s.setItem e (fun it => { it with lastSeenTime := time, treeNode := some s.tree.fresh }) =
      { s with
        items := update s.items e
          (some { it with lastSeenTime := time, treeNode := some s.tree.fresh }) } := by
    simp only [State.setItem, here, Option.map_some]
  rw [same]
  exact ⟨kept.shared.plant here at_ planted,
    kept.noded.plant planted own (kept.shared.rooted.named _ le_rfl) rfl, by rw [same] at whole; exact whole⟩

/-- What an operation that moves one item leaves as it was. -/
structure Spares (e : ItemId) (s s' : State) : Prop where
  fresh : s'.fresh = s.fresh
  items : ∀ x, x ≠ e → s'.items x = s.items x

/-- An item of the class that comes to rest leaves those of others where they are. -/
theorem Spares.rest (spares : Spares e s s') (mine : ItemId → Prop) (place : ItemId → Place)
    (own : mine e) (resting : p.transient = false) :
    (∀ x, ¬ mine x → update place e p x = place x ∧ s'.items x = s.items x) ∧
      ∀ x, (place x).transient = false → (update place e p x).transient = false := by
  refine ⟨fun x foreign => ?_, fun x before => ?_⟩
  · have other : x ≠ e := by
      rintro rfl
      exact foreign own
    exact ⟨update_of_ne other .., spares.items x other⟩
  · rw [update_apply]
    split
    · exact resting
    · exact before

theorem Kept.evict (kept : Kept cfg mine place pins₁ s) (own : mine e) (at_ : place e = .queued)
    (done : evictShadowqItemLocked cfg s e = .ok s') :
    ∃ it p, s.items e = some it ∧ (p = .absent ∨ p = .dead) ∧
      Kept cfg mine (update place e p) pins₁ s' ∧ s'.size = s.size - 1 ∧
      s'.assoc = s.assoc.delete cfg.hash Entry.key it.key ∧ Spares e s s' := by
  rw [evict_eq_parts] at done
  obtain ⟨⟨s₁, unlinked⟩, first, done⟩ := bind_eq_ok done
  obtain ⟨it, here, ⟨dead, -⟩ | ⟨-, rfl, rfl⟩⟩ := unlinkVictim_spec first
  · -- a queued item is not dead
    have deadPlace := (kept.shared.stored.fits here).dead.mp dead
    simp [at_] at deadPlace
  have shared₁ := kept.shared.dequeue at_
  have fits := shared₁.stored.fits here
  rw [update_self] at fits
  obtain ⟨s₂, second, third⟩ := bind_eq_ok done
  obtain ⟨_, here', ⟨bare, -⟩ | ⟨node, t, has, pruned, rfl⟩⟩ := evictFromTree_spec second
  · cases here.symm.trans here'
    have node := fits.node
    rw [bare] at node
    cases node
  cases here.symm.trans here'
  have whole : t.Whole := by
    obtain ⟨_, read, second⟩ := bind_eq_ok second
    cases read.symm.trans (item_eq_ok.mpr here)
    rw [has] at second
    have dropped : dropTreeNode cfg (removeShadowqItemLocked s e) e node = .ok _ := second
    have before : (removeShadowqItemLocked s e).tree.Whole := kept.whole
    exact dropTreeNode_whole before dropped
  have shared₂ := shared₁.prune here (update_self ..) has pruned
  obtain ⟨_, here'', rfl⟩ := evictFromHash_spec third
  have shared₃ := shared₂.kill here'' (update_self ..)
  rw [update_idem, update_idem] at shared₃
  dsimp only at here''
  rw [update_self] at here''
  cases here''
  refine ⟨it, _, here, ?_, ⟨shared₃, ?_, whole⟩, rfl, rfl, rfl, fun x other => ?_⟩
  · split
    · exact .inl rfl
    · exact .inr rfl
  · refine (kept.noded.prune pruned here own has rfl).replace fun it' a is has' => ?_
    split at is
    · cases is
    · cases is
      cases has'
  · dsimp only
    rw [update_of_ne other, update_of_ne other]
    rfl

theorem addTreeNode_spares (done : addTreeNode cfg s e time = .ok s') :
    Spares e s s' ∧ s'.size = s.size ∧ s'.assoc = s.assoc := by
  obtain ⟨t, -, rfl⟩ := addTreeNode_spec done
  exact ⟨⟨rfl, fun x other => update_of_ne other ..⟩, rfl, rfl⟩

/-- The end of `insert_shadowq_item`: the last item of a queue that is too long goes. -/
theorem Kept.overflow (kept : Kept cfg mine place pins₁ s)
    (queued : ∀ x, place x = .queued → mine x) (nonempty : place e = .queued)
    (bound : s.size.toNat ≤ cfg.maxItems.toNat + 1)
    (done : (if s.size > cfg.maxItems then
        match s.queue.tail with
        | some victim => evictShadowqItemLocked cfg s victim
        | none => pure s
      else pure s) = .ok s') :
    ∃ place', Kept cfg mine place' pins₁ s' ∧ s'.size ≤ cfg.maxItems ∧ s'.fresh = s.fresh ∧
      (∀ x, ¬ mine x → place' x = place x ∧ s'.items x = s.items x) ∧
      (∀ x, (place x).transient = false → (place' x).transient = false) ∧
      ∀ k, s.assoc.find cfg.hash Entry.key k = none → s'.assoc.find cfg.hash Entry.key k = none := by
  split at done
  next long =>
    split at done
    next victim last =>
      have at_ := kept.shared.tail last
      have own := queued victim at_
      obtain ⟨it, p, -, leaves, kept', size, assoc, spares⟩ := kept.evict own at_ done
      have resting : p.transient = false := by rcases leaves with rfl | rfl <;> rfl
      obtain ⟨foreign, rests⟩ := spares.rest mine place own resting
      refine ⟨_, kept', ?_, spares.fresh, foreign, rests, fun k none_ => ?_⟩
      · rw [UInt32.le_iff_toNat_le, size]
        have above := UInt32.lt_iff_toNat_lt.mp long
        have one : (1 : UInt32) ≤ s.size := by
          rw [UInt32.le_iff_toNat_le]
          exact Nat.succ_le_of_lt (Nat.lt_of_le_of_lt (Nat.zero_le _) above)
        rw [UInt32.toNat_sub_of_le _ _ one]
        exact Nat.sub_le_of_le_add bound
      · rw [assoc]
        exact Chain.find_delete_of_none _ none_
    next empty =>
      -- the item that has just come is in the queue
      obtain ⟨l, line⟩ := kept.shared.line
      have none_ : l.getLast? = none := line.rep.tail.symm.trans empty
      rw [List.getLast?_eq_none_iff] at none_
      have member := (line.mem e).mpr nonempty
      simp [none_] at member
  next fits =>
    cases done
    refine ⟨place, kept, ?_, rfl, fun _ _ => ⟨rfl, rfl⟩, fun _ rests => rests, fun _ none_ => none_⟩
    exact Nat.le_of_not_lt fits

structure Inserted (cfg : Settings) (mine : ItemId → Prop) (place place' : ItemId → Place)
    (key : Key) (s s' : State) : Prop where
  bound : s'.size ≤ cfg.maxItems
  fresh : s'.fresh = s.fresh + 1
  foreign : ∀ x, ¬ mine x → place' x = place x ∧ s'.items x = s.items x
  rests : ∀ x, (place x).transient = false → (place' x).transient = false
  absent : ∀ k, k ≠ key → s.assoc.find cfg.hash Entry.key k = none →
    s'.assoc.find cfg.hash Entry.key k = none

section

variable (kept : Kept cfg mine place pins₁ s)
include kept

theorem Kept.insert {key : Key}
    (own : mine s.fresh) (queued : ∀ x, place x = .queued → mine x)
    (free : shadowAssocFind cfg s key = none) (bound : s.size ≤ cfg.maxItems)
    (small : cfg.maxItems.toNat + 1 < 2 ^ 32) (done : s.apply cfg (.insert key time) = .ok s') :
    ∃ place', Kept cfg mine place' pins₁ s' ∧ Inserted cfg mine place place' key s s' := by
  have pulled : Kept cfg mine (update place s.fresh .hashed) pins₁
      (shadowAssocInsert cfg (createShadowItem s key).2 ⟨s.fresh, key⟩) := by
    refine ⟨kept.shared.pull free, kept.noded.replace fun it a is has => ?_, kept.whole⟩
    cases is
    cases has
  obtain ⟨s₁, added, done⟩ := bind_eq_ok done
  have planted := pulled.plant own (update_self ..) added
  obtain ⟨spares, size, assoc⟩ := addTreeNode_spares added
  have size₁ : s₁.size = s.size := size
  have below := UInt32.le_iff_toNat_le.mp bound
  have entered : Kept cfg mine (update place s.fresh .queued) pins₁
      (insertShadowqItemLocked s₁ s.fresh) := by
    have shared := planted.shared.enqueue (update_self ..) (by rw [size₁]; omega)
    rw [update_idem, update_idem] at shared
    exact ⟨shared, planted.noded, planted.whole⟩
  have queued' : ∀ x, update place s.fresh .queued x = .queued → mine x := by
    intro x at_
    by_cases equal : x = s.fresh
    · exact equal ▸ own
    · rw [update_of_ne equal] at at_
      exact queued x at_
  have longer : (insertShadowqItemLocked s₁ s.fresh).size.toNat ≤ cfg.maxItems.toNat + 1 := by
    change (s₁.size + 1).toNat ≤ _
    rw [size₁, UInt32.toNat_add]
    exact (Nat.mod_le _ _).trans (Nat.succ_le_succ below)
  obtain ⟨place', kept', bound', fresh, foreign, rests, absent⟩ :=
    entered.overflow queued' (update_self ..) longer done
  have made : Spares s.fresh s { s₁ with fresh := s.fresh } :=
    ⟨rfl, fun x other => (spares.items x other).trans (update_of_ne other ..)⟩
  obtain ⟨foreign₁, rests₁⟩ := made.rest mine place own (p := .queued) rfl
  refine ⟨place', kept', bound', fresh.trans spares.fresh, fun x notMine => ?_,
    fun x rest => rests x (rests₁ x rest), fun k other none_ => absent k ?_⟩
  · exact ⟨(foreign x notMine).1.trans (foreign₁ x notMine).1,
      (foreign x notMine).2.trans (foreign₁ x notMine).2⟩
  · change s₁.assoc.find cfg.hash Entry.key k = none
    rw [assoc]
    change (s.assoc.insert cfg.hash Entry.key ⟨s.fresh, key⟩).find cfg.hash Entry.key k = none
    rwa [Chain.find_insert, if_neg (Ne.symm other)]

theorem Kept.pin (here : s.items e = some it)
    (more : pins' e = pins₁ e + 1) (others : ∀ x, x ≠ e → pins' x = pins₁ x)
    (few : pins₁ e + 2 < 2 ^ 32) : Kept cfg mine place pins'
      { s with items := update s.items e (some { it with refcnt := it.refcnt + 1 }) } := by
  have after : Fits (place e) (pins' e) { it with refcnt := it.refcnt + 1 } := by
    rw [more]
    exact (kept.shared.stored.fits here).pin few
  refine ⟨kept.shared.touch here others after rfl rfl, kept.noded.replace fun it' a is has => ?_,
    kept.whole⟩
  cases is
  rwa [here]

theorem Kept.release (fewer : pins' e + 1 = pins₁ e)
    (others : ∀ x, x ≠ e → pins' x = pins₁ x) (done : shadowRelease s e = .ok s') :
    ∃ p, Kept cfg mine (update place e p) pins' s' ∧
      (p = place e ∨ place e = .dead ∧ p = .absent) ∧ s'.size = s.size ∧ s'.assoc = s.assoc ∧
      Spares e s s' := by
  have released := kept.shared.release fewer others done
  obtain ⟨it, here, rfl⟩ := shadowRelease_spec done
  have noded : Noded mine (update s.items e (if it.refcnt = 1 ∧ it.dead = true then none else
      some { it with refcnt := it.refcnt - 1 })) s.tree := by
    refine kept.noded.replace fun it' a is has => ?_
    split at is
    · cases is
    · cases is
      rwa [here]
  have spares : Spares e s { s with
      items := update s.items e (if it.refcnt = 1 ∧ it.dead = true then none else
        some { it with refcnt := it.refcnt - 1 }) } :=
    ⟨rfl, fun x other => update_of_ne other ..⟩
  rcases released with ⟨dead, shared⟩ | shared
  · exact ⟨.absent, ⟨shared, noded, kept.whole⟩, .inr ⟨dead, rfl⟩, rfl, rfl, spares⟩
  · refine ⟨place e, ⟨?_, noded, kept.whole⟩, .inl rfl, rfl, rfl, spares⟩
    rwa [update_eq_self]

end

theorem lookupPinned_whole (whole : s.tree.Whole)
    (done : lookupPinned cfg s e time = .ok (hit, s')) : s'.tree.Whole := by
  obtain ⟨it, -, done⟩ := bind_eq_ok done
  split at done
  · cases done
    exact whole
  next node _ =>
    obtain ⟨y, -, done⟩ := bind_eq_ok done
    obtain ⟨s₁, dropped, done⟩ := bind_eq_ok done
    obtain ⟨s₂, added, done⟩ := bind_eq_ok done
    cases done
    have between := dropTreeNode_whole whole dropped
    have before : (removeShadowqItemLocked s₁ e).tree.Whole := between
    have after := addTreeNode_whole before added
    exact after

variable (kept : Kept cfg mine place pins₁ s)
include kept

theorem Kept.lookup (own : mine e) (rests : (place e).transient = false)
    (done : lookupPinned cfg s e time = .ok (hit, s')) :
    Kept cfg mine place pins₁ s' ∧ s'.size = s.size ∧ s'.assoc = s.assoc ∧ Spares e s s' := by
  have whole := lookupPinned_whole kept.whole done
  obtain ⟨it, here, ⟨-, rfl⟩ | ⟨node, t₁, t, hits, misses, has, pruned, planted, rfl⟩⟩ :=
    lookupPinned_spec done
  · exact ⟨kept, rfl, rfl, rfl, fun _ _ => rfl⟩
  have fits := kept.shared.stored.fits here
  have at_ : place e = .queued := by
    refine Place.queued_of_alive rests ?_
    have node := fits.node
    rw [has] at node
    cases p : place e <;> rw [p] at node <;> simp_all [Place.hasNode, Place.alive]
  refine ⟨⟨kept.shared.refresh here at_ has pruned planted, ?_, whole⟩,
    UInt32.sub_add_cancel .., rfl, rfl, fun x other => update_of_ne other ..⟩
  have named : t₁.owner t₁.fresh = none := by
    rw [pruned.owner, pruned.fresh, kept.shared.rooted.named _ le_rfl]
    split <;> rfl
  have bare : Noded mine (update s.items e (some { it with treeNode := none })) t₁ :=
    kept.noded.prune pruned here own has rfl
  have again : Noded mine (update (update s.items e _) e
      (some { it with lastSeenTime := time, treeNode := some t₁.fresh })) t :=
    bare.plant planted own named rfl
  rwa [update_idem] at again

theorem Kept.takeOut {key : Key} (own : ∀ x, shadowAssocFind cfg s key = some x → mine x.id)
    (rests : ∀ x, mine x → (place x).transient = false) (few : ∀ x, pins₁ x + 2 < 2 ^ 32)
    (done : evictStored cfg s key = .ok s') :
    ∃ place', Kept cfg mine place' pins₁ s' ∧ s'.size ≤ s.size ∧
      s'.fresh = s.fresh ∧ (∀ x, ¬ mine x → place' x = place x ∧ s'.items x = s.items x) ∧
      (∀ x, mine x → (place' x).transient = false) ∧
      (∀ k, s.assoc.find cfg.hash Entry.key k = none → s'.assoc.find cfg.hash Entry.key k = none) ∧
      s'.assoc.find cfg.hash Entry.key key = none := by
  obtain ⟨⟨found, s₁⟩, pinned, rest⟩ := bind_eq_ok done
  cases got : shadowAssocFind cfg s key with
  | none =>
    rw [shadowFindAndPin, got] at pinned
    cases pinned
    cases rest
    exact ⟨place, kept, UInt32.le_refl _, rfl, fun _ _ => ⟨rfl, rfl⟩, rests, fun _ none_ => none_, got⟩
  | some x =>
    have own := own x got
    obtain ⟨alive, hasKey⟩ := kept.shared.indexed.found got
    have at_ := Place.queued_of_alive (rests x.id own) alive
    obtain ⟨it, here⟩ := kept.shared.stored.here (e := x.id) (by rw [at_]; simp)
    have living : it.dead = false := by
      have fits := kept.shared.stored.fits here
      rw [at_] at fits
      simpa using fits.dead
    have pins : shadowFindAndPin cfg s key = .ok (some x.id,
        { s with items := update s.items x.id (some { it with refcnt := it.refcnt + 1 }) }) := by
      simp only [shadowFindAndPin, got, item_eq_ok.mpr here, ok_bind, State.setItem, here]
      rw [if_neg (by rw [living]; simp)]
      rfl
    cases pinned.symm.trans pins
    obtain ⟨s₂, evicted, released⟩ := bind_eq_ok rest
    -- the pin is held while the item is evicted
    have pinnedKept : Kept cfg mine place (update pins₁ x.id (pins₁ x.id + 1)) _ :=
      kept.pin here (update_self ..) (fun _ other => update_of_ne other ..) (few x.id)
    obtain ⟨it', p, here', leaves, kept₂, size₂, assoc₂, spares₂⟩ := pinnedKept.evict own at_ evicted
    obtain ⟨p', kept₃, leaves', size₃, assoc₃, spares₃⟩ := kept₂.release
      (by rw [update_self]) (fun _ other => (update_of_ne other ..).symm) released
    rw [update_idem] at kept₃
    dsimp only at here'
    rw [update_self] at here' leaves'
    cases here'
    rw [here, Option.map_some] at hasKey
    have isKey : it.key = key := Option.some.inj hasKey
    have table : s'.assoc = s.assoc.delete cfg.hash Entry.key key := by
      rw [assoc₃, assoc₂, ← isKey]
    have smaller : s'.size ≤ s.size := by
      obtain ⟨l, line⟩ := kept.shared.line
      rw [size₃, size₂, UInt32.le_iff_toNat_le]
      exact (UInt32.toNat_sub_of_le _ _ (line.one_le at_)).trans_le (Nat.sub_le ..)
    have spares : Spares x.id s s' := ⟨spares₃.fresh.trans spares₂.fresh, fun y other =>
      (spares₃.items y other).trans ((spares₂.items y other).trans (update_of_ne other ..))⟩
    have rest : p'.transient = false := by
      rcases leaves' with rfl | ⟨-, rfl⟩ <;> rcases leaves with rfl | rfl <;> rfl
    obtain ⟨foreign, resting⟩ := spares.rest mine place own rest
    refine ⟨_, kept₃, smaller, spares.fresh, foreign, fun y mineY => resting y (rests y mineY),
      fun k none_ => ?_, ?_⟩
    · rw [table]
      exact Chain.find_delete_of_none _ none_
    · rw [table]
      exact Chain.find_delete_self (kept.shared.indexed.once key)

end Class

/-! ### All classes -/

namespace Place

/-- How the functions on other classes see an item: it is in no queue of theirs. -/
def view : Place → Place
  | .queued => .treed
  | p => p

variable (p : Place)

theorem view_view : p.view.view = p.view := by cases p <;> rfl

theorem alive_view : p.view.alive = p.alive := by cases p <;> rfl

theorem view_ne_queued : p.view ≠ .queued := by cases p <;> simp [view]

theorem view_eq_absent {p : Place} : p.view = .absent ↔ p = .absent := by cases p <;> simp [view]

end Place

def placeIn (clsid : ItemId → ClassId) (place : ItemId → Place) (c : ClassId) (e : ItemId) :
    Place :=
  if clsid e = c then place e else (place e).view

structure MirrorInv {cfg : Setup} (place : ItemId → Place) (m : Mirror cfg) : Prop where
  kept : ∀ c, Kept (cfg.of c) (fun e => m.clsid e = c) (placeIn m.clsid place c) (pins m.pc) (m.of c)
  rests : ∀ e, (place e).transient = false
  bound : ∀ c, (m.parts c).size ≤ cfg.maxItems c
  free : ∀ k, m.linked k ≠ none → m.assoc.find cfg.hash Entry.key k = none

section Frame

variable {cfg : Setup} {m : Mirror cfg} {place place' : ItemId → Place} {c : ClassId} {s : State}
  {e : ItemId}

theorem placeIn_view (clsid : ItemId → ClassId) (place : ItemId → Place) (c : ClassId)
    (e : ItemId) : (placeIn clsid place c e).view = (place e).view := by
  unfold placeIn
  split
  · rfl
  · exact Place.view_view _

variable {clsid : ItemId → ClassId}

theorem placeIn_own (place : ItemId → Place) (own : clsid e = c) :
    placeIn clsid place c e = place e := if_pos own

theorem placeIn_eq_absent : placeIn clsid place c e = .absent ↔ place e = .absent := by
  rw [← Place.view_eq_absent, placeIn_view, Place.view_eq_absent]

theorem placeIn_eq_queued :
    placeIn clsid place c e = .queued ↔ clsid e = c ∧ place e = .queued := by
  unfold placeIn
  split
  next own => simp only [own, true_and]
  next foreign =>
    simp only [foreign, false_and, iff_false]
    exact Place.view_ne_queued _

theorem Fits.alike {p q : Place} {n : Nat} {it : ShadowItem} (fits : Fits p n it)
    (alike : q.view = p.view) : Fits q n it := by
  have alive : q.alive = p.alive := by rw [← q.alive_view, alike, p.alive_view]
  have node : q.hasNode = p.hasNode := by cases p <;> cases q <;> first | rfl | cases alike
  have dead : q = .dead ↔ p = .dead := by cases p <;> cases q <;> first | (cases alike; done) | simp
  refine ⟨fun absent => fits.present (Place.view_eq_absent.mp ?_), fits.dead.trans dead.symm,
    fits.node.trans node.symm, by rw [alive]; exact fits.refcnt, fun isDead => fits.pinned (dead.mp isDead)⟩
  rw [← alike, absent]
  rfl

theorem Stored.alike {items : ItemId → Option ShadowItem} {pins₁ : ItemId → Nat}
    (stored : Stored place pins₁ items) (alike : ∀ e, (place' e).view = (place e).view) :
    Stored place' pins₁ items := by
  refine ⟨fun e none_ => ?_, fun {e it} found => (stored.fits found).alike (alike e)⟩
  obtain ⟨absent, unpinned⟩ := stored.gone e none_
  rw [← Place.view_eq_absent, alike, Place.view_eq_absent]
  exact ⟨absent, unpinned⟩

section

variable (inv : MirrorInv place m)
include inv

theorem MirrorInv.absent (none_ : m.items e = none) : place e = .absent :=
  placeIn_eq_absent.mp ((inv.kept 0).shared.stored.gone e none_).1

theorem MirrorInv.rests_in (x : ItemId) (own : m.clsid x = c) :
    (placeIn m.clsid place c x).transient = false := by
  rw [placeIn_own place own]
  exact inv.rests x

theorem MirrorInv.owner {a : NodeId}
    (owner : (m.parts c).tree.owner a = some e) : m.clsid e = c ∧ m.items e ≠ none := by
  refine ⟨(inv.kept c).noded.home owner, fun none_ => ?_⟩
  have node : (m.items e).bind ShadowItem.treeNode = some a := (inv.kept c).shared.rooted.node owner
  simp [none_] at node

theorem MirrorInv.named (named : ∀ x, m.items x ≠ none → clsid x = m.clsid x) :
    MirrorInv place { m with clsid := clsid } := by
  refine ⟨fun c => ?_, inv.rests, inv.bound, inv.free⟩
  have same : placeIn clsid place c = placeIn m.clsid place c := by
    funext x
    by_cases here : m.items x = none
    · rw [placeIn_eq_absent.mpr (inv.absent here), placeIn_eq_absent.mpr (inv.absent here)]
    · simp only [placeIn, named x here]
  obtain ⟨shared, noded, whole⟩ := inv.kept c
  refine ⟨by rw [same]; exact shared, ⟨fun {x it a} here own has => ?_, fun {a x} owner => ?_⟩, whole⟩
  · have known : m.items x = some it := here
    exact noded.owned here ((named x (by rw [known]; simp)).symm.trans own) has
  · obtain ⟨own, here⟩ := inv.owner owner
    exact (named x here).trans own

/-- An operation on class `c` is, for another class, one on items that are not its own. -/
theorem MirrorInv.frame {c' : ClassId} {pins' : ItemId → Nat}
    {after : ItemId → Place} (other : c' ≠ c) (shared : Shared (cfg.of c) place' pins' s)
    (foreign : ∀ x, m.clsid x ≠ c → place' x = placeIn m.clsid place c x ∧ s.items x = m.items x)
    (after_own : ∀ x, m.clsid x = c → after x = place' x)
    (after_foreign : ∀ x, m.clsid x ≠ c → after x = place x) :
    Kept (cfg.of c') (fun e => m.clsid e = c') (placeIn m.clsid after c') pins'
      { m.of c' with items := s.items, fresh := s.fresh, assoc := s.assoc } := by
  obtain ⟨shared', noded, whole⟩ := inv.kept c'
  have alike : ∀ x, (placeIn m.clsid after c' x).view = (place' x).view := by
    intro x
    rw [placeIn_view]
    by_cases isC : m.clsid x = c
    · rw [after_own x isC]
    · rw [after_foreign x isC, (foreign x isC).1, placeIn_view]
  have alive : ∀ x, (placeIn m.clsid after c' x).alive = (place' x).alive := fun x => by
    rw [← Place.alive_view, alike, Place.alive_view]
  have notC : ∀ {x}, m.clsid x = c' → m.clsid x ≠ c := fun own isC => other (own.symm.trans isC)
  refine ⟨⟨shared.stored.alike alike, ?_, ?_, ⟨fun {a x} owner => ?_, shared'.rooted.named⟩, fun x new => ?_⟩,
    ⟨fun {x it a} here own has => ?_, noded.home⟩, whole⟩
  · obtain ⟨l, line⟩ := shared'.line
    refine ⟨l, line.congr fun x => ?_⟩
    rw [placeIn_eq_queued, placeIn_eq_queued]
    refine and_congr_right fun own => ?_
    rw [after_foreign x (notC own)]
  · -- the table is the same one for both classes
    have indexed := shared.indexed.congr alive fun _ _ => rfl
    exact ⟨indexed.once, indexed.found, indexed.listed, indexed.total⟩
  · have same := (foreign x (notC (inv.owner owner).1)).2
    have node := shared'.rooted.node owner
    exact (congrArg (Option.bind · ShadowItem.treeNode) same).trans node
  · rw [← Place.view_eq_absent, alike, Place.view_eq_absent]
    exact shared.known x new
  · have same := (foreign x (notC own)).2
    exact noded.owned (same.symm.trans here) own has

theorem MirrorInv.put {pc : Fin cfg.threads → Pc}
    {linked : Key → Option ClassId}
    (kept : Kept (cfg.of c) (fun e => m.clsid e = c) place' (pins pc) s)
    (foreign : ∀ x, m.clsid x ≠ c → place' x = placeIn m.clsid place c x ∧ s.items x = m.items x)
    (rests : ∀ x, m.clsid x = c → (place' x).transient = false) (bound : s.size ≤ cfg.maxItems c)
    (free : ∀ k, linked k ≠ none → s.assoc.find cfg.hash Entry.key k = none) :
    ∃ after, MirrorInv after { m.put c s with pc := pc, linked := linked } := by
  set after : ItemId → Place := fun x => if m.clsid x = c then place' x else place x
  have after_own : ∀ x, m.clsid x = c → after x = place' x := fun x own => if_pos own
  have after_foreign : ∀ x, m.clsid x ≠ c → after x = place x := fun x notC => if_neg notC
  refine ⟨after, fun c' => ?_, fun x => ?_, fun c' => ?_, free⟩
  · by_cases same : c' = c
    · subst same
      have mine : placeIn m.clsid after c' = place' := by
        funext x
        by_cases own : m.clsid x = c'
        · rw [placeIn_own after own, after_own x own]
        · rw [placeIn, if_neg own, after_foreign x own, (foreign x own).1, placeIn, if_neg own]
      have state : ({ m.put c' s with pc := pc, linked := linked } : Mirror cfg).of c' = s := by
        simp only [Mirror.of, Mirror.put, update_self]
      rw [state]
      rwa [← mine] at kept
    · have state : ({ m.put c s with pc := pc, linked := linked } : Mirror cfg).of c' =
          { m.of c' with items := s.items, fresh := s.fresh, assoc := s.assoc } := by
        simp only [Mirror.of, Mirror.put, update_of_ne same]
      rw [state]
      exact inv.frame same kept.shared foreign after_own after_foreign
  · by_cases own : m.clsid x = c
    · rw [after_own x own]
      exact rests x own
    · rw [after_foreign x own]
      exact inv.rests x
  · by_cases same : c' = c
    · subst same
      simpa [Mirror.put] using bound
    · simpa [Mirror.put, same] using inv.bound c'

end

end Frame

/-! ### The steps -/

section Steps

variable {cfg : Setup} {m m' : Mirror cfg} {place : ItemId → Place} {key : Key} {t : Fin cfg.threads}

/-- Only the linked items change, and no key with a shadow item is among them. -/
theorem MirrorInv.relink (inv : MirrorInv place m) {linked : Key → Option ClassId}
    (free : ∀ k, linked k ≠ none → m.assoc.find cfg.hash Entry.key k = none) :
    MirrorInv place { m with linked := linked } :=
  ⟨inv.kept, inv.rests, inv.bound, free⟩

theorem MirrorInv.link (inv : MirrorInv place m) (free : m.assoc.find cfg.hash Entry.key key = none)
    (c : ClassId) : MirrorInv place (m.link key c) := by
  refine inv.relink fun k linked => ?_
  by_cases equal : k = key
  · rwa [equal]
  · rw [update_of_ne equal] at linked
    exact inv.free k linked

theorem ne_of_unlinked {linked : Key → Option ClassId} {k : Key}
    (still : update linked key none k ≠ none) : k ≠ key ∧ linked k ≠ none := by
  have other : k ≠ key := by
    rintro rfl
    exact still (update_self ..)
  exact ⟨other, fun none_ => still ((update_of_ne other ..).trans none_)⟩

theorem MirrorInv.unlink (inv : MirrorInv place m) (key : Key) : MirrorInv place (m.unlink key) :=
  inv.relink fun k linked => inv.free k (ne_of_unlinked linked).2

theorem MirrorInv.lruPullTail {time : Timeval} (inv : MirrorInv place m)
    (done : m.lruPullTail key time = some m') : ∃ place', MirrorInv place' m' := by
  obtain ⟨c, linked, done⟩ := Option.bind_eq_some_iff.mp done
  obtain ⟨s, called, rfl⟩ := Option.map_eq_some_iff.mp done
  have inserted := toOption_eq_some called
  have free := inv.free key (by rw [linked]; simp)
  -- the new item is of the class before it is made
  have known : ∀ x, m.items x ≠ none → update m.clsid m.fresh c x = m.clsid x := by
    intro x here
    refine update_of_ne (fun new => here ?_) ..
    have absent := (inv.kept 0).shared.known x (new ▸ le_rfl)
    exact (inv.kept 0).shared.stored.none_of_absent absent
  have inv' := inv.named known
  obtain ⟨place', kept, bound, -, foreign, rests, absent⟩ := (inv'.kept c).insert
    (update_self ..) (fun x queued => (placeIn_eq_queued.mp queued).1) free (inv'.bound c)
    (cfg.maxItems_lt c) inserted
  refine inv'.put kept foreign (fun x own => rests x (inv'.rests_in x own)) bound fun k isLinked => ?_
  obtain ⟨other, before⟩ := ne_of_unlinked isLinked
  exact absent k other (inv.free k before)

theorem MirrorInv.few (_ : MirrorInv place m) (x : ItemId) : pins m.pc x + 2 < 2 ^ 32 := by
  have most := pins_le m.pc x
  have := cfg.threads_lt
  omega

variable {x : Entry}

theorem classOf_found (found : m.assoc.find cfg.hash Entry.key key = some x) :
    m.clsid x.id = m.classOf key := by
  rw [Mirror.classOf, found]

section

variable (inv : MirrorInv place m)
include inv

theorem MirrorInv.takeOut (done : m.takeOut key = some m') :
    ∃ place', MirrorInv place' m' ∧ m'.assoc.find cfg.hash Entry.key key = none := by
  obtain ⟨s, called, rfl⟩ := Option.map_eq_some_iff.mp done
  obtain ⟨place', kept, size, -, foreign, rests, absent, gone⟩ := (inv.kept (m.classOf key)).takeOut
    (fun x found => classOf_found found) inv.rests_in inv.few (toOption_eq_some called)
  obtain ⟨after, inv'⟩ := inv.put kept foreign rests (UInt32.le_trans size (inv.bound _))
    fun k linked => absent k (inv.free k linked)
  exact ⟨after, inv', gone⟩

theorem MirrorInv.pulls {evicted : List (Key × Timeval)}
    (done : Mirror.pulls key m evicted = some m') :
    (∃ place', MirrorInv place' m') ∧ m'.linked key = m.linked key := by
  induction evicted generalizing m place with
  | nil =>
    cases done
    exact ⟨⟨place, inv⟩, rfl⟩
  | cons victim rest ih =>
    obtain ⟨key', time⟩ := victim
    rw [Mirror.pulls] at done
    split at done
    · exact ih inv done
    next other =>
      obtain ⟨m₁, pulled, done⟩ := Option.bind_eq_some_iff.mp done
      obtain ⟨place₁, inv₁⟩ := inv.lruPullTail pulled
      obtain ⟨later, same⟩ := ih inv₁ done
      refine ⟨later, same.trans ?_⟩
      obtain ⟨c, -, pulled⟩ := Option.bind_eq_some_iff.mp pulled
      obtain ⟨s, -, rfl⟩ := Option.map_eq_some_iff.mp pulled
      exact update_of_ne (Ne.symm other) ..

theorem MirrorInv.join {st : Store} (linked : m.linked st.key ≠ none)
    (done : m.join st = some m') : ∃ place', MirrorInv place' m' := by
  unfold Mirror.join at done
  split at done
  · cases done
    exact ⟨place, inv⟩
  · obtain ⟨m₁, pulled, rfl⟩ := Option.map_eq_some_iff.mp done
    obtain ⟨⟨place₁, inv₁⟩, same⟩ := inv.pulls pulled
    cases st.joined with
    | none => exact ⟨place₁, inv₁⟩
    | some c => exact ⟨place₁, inv₁.link (inv₁.free _ (by rw [same]; exact linked)) c⟩

theorem MirrorInv.doStoreItem {st : Store}
    (done : m.doStoreItem st = some m') : ∃ place', MirrorInv place' m' := by
  obtain ⟨m₁, start, inv₁⟩ : ∃ m₁ : Mirror cfg,
      m₁ = (if st.gone then m.unlink st.key else m) ∧ MirrorInv place m₁ := by
    refine ⟨_, rfl, ?_⟩
    split
    · exact inv.unlink st.key
    · exact inv
  simp only [Mirror.doStoreItem, ← start] at done
  have relink : m₁.linked st.key ≠ none → MirrorInv place (m₁.link st.key st.clsid) := fun linked =>
    inv₁.link (inv₁.free _ linked) st.clsid
  have fresh : ∀ {m₂ : Mirror cfg}, (m₁.takeOut st.key).map (·.link st.key st.clsid) = some m₂ →
      ∃ place', MirrorInv place' m₂ := by
    intro m₂ done
    obtain ⟨m₃, taken, rfl⟩ := Option.map_eq_some_iff.mp done
    obtain ⟨place', inv', free⟩ := inv₁.takeOut taken
    exact ⟨place', inv'.link free st.clsid⟩
  cases linked : m₁.linked st.key with
  | none =>
    rw [linked] at done
    cases comm : st.comm with
    | set | add =>
      rw [comm] at done
      exact fresh done
    | replace | append | prepend | cas =>
      rw [comm] at done
      cases done
      exact ⟨place, inv₁⟩
  | some c =>
    have isLinked : m₁.linked st.key ≠ none := by rw [linked]; simp
    rw [linked] at done
    cases comm : st.comm with
    | add =>
      rw [comm] at done
      cases done
      exact ⟨place, inv₁⟩
    | set | replace =>
      rw [comm] at done
      cases done
      exact ⟨place, relink isLinked⟩
    | append | prepend =>
      rw [comm] at done
      exact inv₁.join isLinked done
    | cas =>
      rw [comm] at done
      cases done
      split
      · exact ⟨place, relink isLinked⟩
      · exact ⟨place, inv₁⟩

theorem MirrorInv.lookup (idle : m.pc t = .idle)
    (done : m.lookup t key = some m') : ∃ place', MirrorInv place' m' := by
  obtain ⟨⟨found, s⟩, called, rfl⟩ := Option.map_eq_some_iff.mp done
  set c := m.classOf key
  obtain ⟨rfl, rfl⟩ | ⟨x, it, found, here, -, rfl, rfl⟩ := shadowFindAndPin_spec (toOption_eq_some called)
  · have same : pins (update m.pc t .idle) = pins m.pc := pins_same (by rw [idle])
    have kept := inv.kept c
    rw [← same] at kept
    exact inv.put kept (fun _ _ => ⟨rfl, rfl⟩) inv.rests_in (inv.bound c) inv.free
  · have without : (m.pc t).pin = none := by rw [idle]; rfl
    obtain ⟨more, others⟩ := pins_take (p := .lookupMove x.id) without rfl
    refine inv.put ((inv.kept c).pin here more others (inv.few x.id)) (fun y notC => ⟨rfl, ?_⟩)
      inv.rests_in (inv.bound c) inv.free
    refine update_of_ne ?_ ..
    rintro rfl
    exact notC (classOf_found found)

theorem MirrorInv.next {time : Timeval} (done : m.next t time = some m') :
    ∃ place', MirrorInv place' m' := by
  unfold Mirror.next at done
  split at done
  next e at_ =>
    obtain ⟨⟨hit, s⟩, called, rfl⟩ := Option.map_eq_some_iff.mp done
    obtain ⟨kept, size, assoc, spares⟩ := (inv.kept (m.clsid e)).lookup rfl (inv.rests_in e rfl)
      (toOption_eq_some called)
    have same : pins (update m.pc t (.lookupRelease e)) = pins m.pc :=
      pins_same (by rw [at_]; rfl)
    rw [← same] at kept
    refine inv.put kept (fun x notC => ⟨rfl, spares.items x ?_⟩) inv.rests_in
      (by rw [size]; exact inv.bound _) fun k linked => by rw [assoc]; exact inv.free k linked
    rintro rfl
    exact notC rfl
  next e at_ =>
    obtain ⟨s, called, rfl⟩ := Option.map_eq_some_iff.mp done
    have had : (m.pc t).pin = some e := by rw [at_]; rfl
    obtain ⟨fewer, others⟩ := pins_drop (p := .idle) had rfl
    obtain ⟨p, kept, leaves, size, assoc, spares⟩ := (inv.kept (m.clsid e)).release fewer others
      (toOption_eq_some called)
    have resting : p.transient = false := by
      rcases leaves with rfl | ⟨-, rfl⟩
      · exact inv.rests_in e rfl
      · rfl
    obtain ⟨foreign, rests⟩ := spares.rest (m.clsid · = m.clsid e) _ rfl resting
    exact inv.put kept foreign (fun x own => rests x (inv.rests_in x own))
      (by rw [size]; exact inv.bound _) fun k linked => by rw [assoc]; exact inv.free k linked
  · cases done

end

/-- A step may give items other places, in which the invariant holds again. -/
theorem mirrorInv_step (m : Mirror cfg) (action : MirrorAction cfg.threads) (m' : Mirror cfg)
    (inv : ∃ place, MirrorInv place m) (called : mirrorStep m action = some m') :
    ∃ place, MirrorInv place m' := by
  obtain ⟨place, inv⟩ := inv
  cases action with
  | store st => exact inv.doStoreItem called
  | evict key time => exact inv.lruPullTail called
  | unlink key =>
    cases called
    exact ⟨place, inv.unlink key⟩
  | replace key c =>
    obtain ⟨c', linked, rfl⟩ := Option.map_eq_some_iff.mp called
    exact ⟨place, inv.link (inv.free key (by rw [linked]; simp)) c⟩
  | lookup t key =>
    obtain ⟨idle, called⟩ := Option.ite_none_right_eq_some.mp called
    exact inv.lookup idle called
  | next t time => exact inv.next called

/-! ### What the invariant gives -/

theorem Indexed.find_entry {cfg : Settings} {items : ItemId → Option ShadowItem}
    {assoc : Chain Entry} (indexed : Indexed cfg place items assoc)
    (stored : ∀ e, place e ≠ .absent → items e ≠ none) {bucket : List Entry}
    (inside : bucket ∈ assoc.buckets) (member : x ∈ bucket) :
    assoc.find cfg.hash Entry.key x.key = some x := by
  have counted : ∀ {p : Entry → Bool}, p x = true → assoc.total p ≠ 0 := by
    intro p passes none_
    have fails := Chain.total_eq_zero_iff.mp none_ bucket inside x member
    simp [passes] at fails
  have one := indexed.total x.id
  have alive : (place x.id).alive = true := by
    by_contra dead
    rw [if_neg dead] at one
    exact counted (decide_eq_true rfl) one
  rw [if_pos alive] at one
  obtain ⟨it, here⟩ := Option.ne_none_iff_exists'.mp
    (stored x.id fun absent => by rw [absent] at alive; cases alive)
  have listed := indexed.listed alive (congrArg (Option.map ShadowItem.key) here)
  -- the entry that is found for the item's key is the only one of the item
  have same : (⟨x.id, it.key⟩ : Entry) = x := by
    by_contra other
    have left := Chain.total_delete cfg.hash Entry.key (fun y => decide (y.id = x.id)) assoc it.key
    have kept := Chain.total_delete cfg.hash Entry.key (fun y => decide (y = x)) assoc it.key
    rw [listed, Option.any_some, if_pos (decide_eq_true rfl), one] at left
    rw [listed, Option.any_some, if_neg (by simpa using other)] at kept
    have fewer : (assoc.delete cfg.hash Entry.key it.key).total (fun y => decide (y = x)) ≤
        (assoc.delete cfg.hash Entry.key it.key).total (fun y => decide (y.id = x.id)) :=
      Chain.total_mono fun _ _ y _ equal => by
        rw [of_decide_eq_true equal]
        exact decide_eq_true rfl
    exact counted (p := fun y => decide (y = x)) (decide_eq_true rfl) (by omega)
  rwa [← same]

section

variable (inv : MirrorInv place m)
include inv

theorem MirrorInv.find_entry {bucket : List Entry} (inside : bucket ∈ m.assoc.buckets)
    (member : x ∈ bucket) : m.assoc.find cfg.hash Entry.key x.key = some x := by
  refine (inv.kept 0).shared.indexed.find_entry (fun e present none_ => present ?_) inside member
  exact ((inv.kept 0).shared.stored.gone e none_).1

theorem MirrorInv.total_of_none (none_ : m.assoc.find cfg.hash Entry.key key = none) :
    m.assoc.total (fun x => x.key = key) = 0 := by
  refine Chain.total_eq_zero_iff.mpr fun bucket inside x member => decide_eq_false ?_
  rintro rfl
  cases none_.symm.trans (inv.find_entry inside member)

theorem MirrorInv.once (key : Key) : m.assoc.total (fun x => x.key = key) ≤ 1 := by
  cases found : m.assoc.find cfg.hash Entry.key key with
  | none => exact (inv.total_of_none found).trans_le (Nat.zero_le 1)
  | some x =>
    calc m.assoc.total (fun y => decide (y.key = key))
        ≤ m.assoc.total (fun y => decide (y.id = x.id)) := Chain.total_mono fun bucket inside y member same => by
          have again := inv.find_entry inside member
          rw [of_decide_eq_true same, found] at again
          cases again
          exact decide_eq_true rfl
      _ = if (placeIn m.clsid place 0 x.id).alive then 1 else 0 := (inv.kept 0).shared.indexed.total x.id
      _ ≤ 1 := by split <;> simp

theorem MirrorInv.queued {e : ItemId} {it : ShadowItem} (here : m.items e = some it)
    (living : it.dead = false) : place e = .queued := by
  have fits := (inv.kept (m.clsid e)).shared.stored.fits here
  rw [placeIn_own place rfl] at fits
  refine Place.queued_of_alive (inv.rests e) ?_
  have present := fits.present
  have dead := fits.dead
  rw [living] at dead
  cases at_ : place e <;> rw [at_] at present dead <;> simp_all [Place.alive]

theorem MirrorInv.mirrors : Mirrors m := by
  refine ⟨inv.once, fun k linked => inv.total_of_none (inv.free k linked), fun e it here living => ?_,
    fun e it here living => .inl ?_⟩
  all_goals
    have at_ : placeIn m.clsid place (m.clsid e) e = .queued := by
      rw [placeIn_own place rfl]
      exact inv.queued here living
    obtain ⟨shared, noded, whole⟩ := inv.kept (m.clsid e)
    have listed : m.assoc.find cfg.hash Entry.key it.key = some ⟨e, it.key⟩ :=
      shared.indexed.listed (by rw [at_]; rfl) (congrArg (Option.map ShadowItem.key) here)
  · refine ⟨fun x => ?_, fun s done => ?_⟩
    · have deleted := Chain.total_delete cfg.hash Entry.key (fun y => decide (y = x)) m.assoc it.key
      rw [listed, Option.any_some] at deleted
      simp only [decide_eq_true_eq] at deleted
      simp only [eq_comm (a := x)]
      exact deleted
    · obtain ⟨it', p, here', -, -, -, assoc, -⟩ := (inv.kept (m.clsid e)).evict rfl at_ done
      cases here.symm.trans here'
      exact assoc
  · refine ⟨Chain.total_ne_zero_of_find listed (decide_eq_true rfl), ?_, ?_⟩
    · exact shared.mem_order at_
    · have node := (shared.stored.fits here).node
      rw [at_] at node
      obtain ⟨a, has⟩ := Option.isSome_iff_exists.mp node
      obtain ⟨n, inMem, owner⟩ := Option.map_eq_some_iff.mp (noded.owned here rfl has)
      exact ⟨a, n, whole.reaches inMem, inMem, owner⟩

end

theorem mirrorInv_initial (cfg : Setup) (buckets : Nat) :
    ∃ place, MirrorInv place (Mirror.initial cfg buckets) := by
  refine ⟨fun _ => .absent, fun c => ⟨?_, ⟨fun here => (by cases here), fun owner => (by cases owner)⟩,
    Tree.Whole.empty⟩, fun _ => rfl, fun _ => UInt32.zero_le, fun _ _ => Chain.find_empty ..⟩
  have absent : placeIn (Mirror.initial cfg buckets).clsid (fun _ => .absent) c = fun _ => .absent := by
    funext x
    exact placeIn_eq_absent.mpr rfl
  rw [absent]
  exact .initial (cfg.of c) pins_idle buckets ⟨0, 0⟩

/-- In every run the table of shadow items has at most one entry for a key and none for a key that
is linked, an eviction takes out the entry of its victim, and a live item is in the table, its queue
and its tree. -/
theorem shadow_index_mirrors (cfg : Setup) (buckets : Nat) (run : List (MirrorAction cfg.threads)) :
    Run.Always mirrorStep Mirrors (Mirror.initial cfg buckets) run :=
  Run.always_mono (fun _ ⟨_, inv⟩ => inv.mirrors)
    (Run.always_of_step mirrorInv_step (mirrorInv_initial cfg buckets) run)

/-- In every run the count of a shadow item is the number of threads that have pinned it, with one
more until it is dead; what is freed is not pinned; and no queue is longer than allowed. -/
theorem shadow_pins_counted (cfg : Setup) (buckets : Nat) (run : List (MirrorAction cfg.threads)) :
    Run.Always mirrorStep (fun m => (∀ e, m.items e = none → pins m.pc e = 0) ∧
      (∀ e it, m.items e = some it → it.refcnt.toNat = (if it.dead then 0 else 1) + pins m.pc e) ∧
      ∀ c, (m.parts c).size ≤ cfg.maxItems c) (Mirror.initial cfg buckets) run := by
  have always := Run.always_of_step mirrorInv_step (mirrorInv_initial cfg buckets) run
  refine Run.always_mono (fun m ⟨place, inv⟩ => ⟨fun e gone => ?_, fun e it here => ?_, inv.bound⟩) always
  · exact ((inv.kept 0).shared.stored.gone e gone).2
  · have fits := (inv.kept (m.clsid e)).shared.stored.fits here
    rw [placeIn_own place rfl] at fits
    rw [fits.refcnt]
    cases dead : it.dead with
    | true => simp [fits.dead.mp dead, Place.alive]
    | false => simp [inv.queued here dead, Place.alive]

end Steps

end MemExchange.Shadow
