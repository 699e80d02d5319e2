import MemExchange.Shadow.Sections

/-!
# The places of a shadow item

An item is made and put into the hash table, gets a node in the tree, enters the queue, leaves
the queue, loses its node, leaves the hash table and dies, and is freed when the last pin goes.
At the places on the way there is one thread that takes it further.
-/
namespace MemExchange.Shadow

open Function (update_of_ne update_self update_idem update)

inductive Place where
  | absent
  | hashed
  | treed
  | queued
  | unlinked
  | untreed
  | dead
  deriving DecidableEq, Repr

namespace Place

/-- A thread is about to move the item on. -/
def transient : Place → Bool
  | .hashed | .treed | .unlinked | .untreed => true
  | .absent | .queued | .dead => false

/-- The item is in the hash table. -/
def alive : Place → Bool
  | .absent | .dead => false
  | .hashed | .treed | .queued | .unlinked | .untreed => true

/-- The item has a node. -/
def hasNode : Place → Bool
  | .treed | .queued | .unlinked => true
  | .absent | .hashed | .untreed | .dead => false

end Place

/-- The item a thread is to move on, and where it is. -/
def Pc.stage : Pc → Option (ItemId × Place)
  | .insertTree e => some (e, .hashed)
  | .insertQueue e => some (e, .treed)
  | .evictTree e _ => some (e, .unlinked)
  | .evictHash e _ => some (e, .untreed)
  | .idle | .lookupMove _ | .lookupRelease _ | .storeEvict _ | .storeRelease _ => none

/-- How many threads have pinned an item. -/
def pins {n : Nat} (pc : Fin n → Pc) (e : ItemId) : Nat :=
  ∑ t, if (pc t).pin = some e then 1 else 0

/-! ### Structures with every item at its place -/

/-- What an item looks like at a place, with `n` pins. -/
structure Fits (p : Place) (n : Nat) (it : ShadowItem) : Prop where
  present : p ≠ .absent
  dead : it.dead = true ↔ p = .dead
  node : it.treeNode.isSome = p.hasNode
  refcnt : it.refcnt.toNat = (if p.alive then 1 else 0) + n
  pinned : p = .dead → 0 < n

structure Stored (place : ItemId → Place) (pins : ItemId → Nat)
    (items : ItemId → Option ShadowItem) : Prop where
  gone : ∀ e, items e = none → place e = .absent ∧ pins e = 0
  fits : ∀ {e it}, items e = some it → Fits (place e) (pins e) it

/-- The queue is the list `l` of the queued items, and is counted. -/
structure InLine (place : ItemId → Place) (queue : Dll ItemId) (size : UInt32) (l : List ItemId) :
    Prop where
  rep : queue.Rep l
  size : size.toNat = l.length
  mem : ∀ e, e ∈ l ↔ place e = .queued

/-- The hash table has one entry for every item that is alive and no other, and no key twice. -/
structure Indexed (cfg : Settings) (place : ItemId → Place) (items : ItemId → Option ShadowItem)
    (assoc : Chain Entry) : Prop where
  once : ∀ k, assoc.copies cfg.hash Entry.key k ≤ 1
  found : ∀ {k x}, assoc.find cfg.hash Entry.key k = some x →
    (place x.id).alive = true ∧ (items x.id).map ShadowItem.key = some k
  listed : ∀ {e k}, (place e).alive = true → (items e).map ShadowItem.key = some k →
    assoc.find cfg.hash Entry.key k = some ⟨e, k⟩
  total : ∀ e, assoc.total (fun x => x.id = e) = if (place e).alive then 1 else 0

/-- A node in memory is the node of its item. -/
structure Rooted (items : ItemId → Option ShadowItem) (tree : Tree) : Prop where
  node : ∀ {a e}, tree.owner a = some e → (items e).bind ShadowItem.treeNode = some a
  named : ∀ a, tree.fresh ≤ a → tree.owner a = none

structure Shared (cfg : Settings) (place : ItemId → Place) (pins : ItemId → Nat) (s : State) :
    Prop where
  stored : Stored place pins s.items
  line : ∃ l, InLine place s.queue s.size l
  indexed : Indexed cfg place s.items s.assoc
  rooted : Rooted s.items s.tree
  known : ∀ e, s.fresh ≤ e → place e = .absent

/-- Every item on the way has one thread, which knows where the item is, and at most one
thread holds `shadowq_lock`. -/
structure Staffed {n : Nat} (place : ItemId → Place) (pc : Fin n → Pc) : Prop where
  works : ∀ {t e p}, (pc t).stage = some (e, p) → place e = p
  owned : ∀ {e}, (place e).transient = true → ∃ t, (pc t).stage = some (e, place e)
  once : ∀ {t t' e p p'}, (pc t).stage = some (e, p) → (pc t').stage = some (e, p') → t = t'
  lock : ∀ {t t'}, (pc t).holdsQueue = true → (pc t').holdsQueue = true → t = t'

section Places

variable {cfg : Settings} {place place' : ItemId → Place} {pins' : ItemId → Nat} {s : State} {e : ItemId}
  {it : ShadowItem} {n : Nat}

/-! ### Pins -/

theorem pins_update (pc : Fin n → Pc) (t : Fin n) (p : Pc) (e : ItemId) :
    pins (update pc t p) e + (if (pc t).pin = some e then 1 else 0) =
      pins pc e + (if p.pin = some e then 1 else 0) := by
  set counts : Pc → Nat := fun p => if p.pin = some e then 1 else 0 with counts_eq
  have split : ∑ t', counts (pc t') = counts (pc t) + ∑ t' ∈ Finset.univ \ {t}, counts (pc t') :=
    Finset.sum_eq_add_sum_sdiff_singleton_of_mem (Finset.mem_univ t) fun t' => counts (pc t')
  have updated : ∑ t', counts (update pc t p t') =
      counts p + ∑ t' ∈ Finset.univ \ {t}, counts (pc t') := by
    have pointwise : (fun t' => counts (update pc t p t')) =
        update (fun t' => counts (pc t')) t (counts p) := by
      funext t'
      exact Function.apply_update (fun _ => counts) pc t p t'
    rw [pointwise, Finset.sum_update_of_mem (Finset.mem_univ t)]
  change (∑ t', counts (update pc t p t')) + counts (pc t) = (∑ t', counts (pc t')) + counts p
  rw [updated, split]
  omega

variable {pc : Fin n → Pc} {t : Fin n} {p : Pc} {items : ItemId → Option ShadowItem}
  {pins₁ : ItemId → Nat}

theorem pins_same (same : p.pin = (pc t).pin) : pins (update pc t p) = pins pc := by
  funext e
  have updated := pins_update pc t p e
  rw [same] at updated
  omega

theorem pins_of_ne (before : (pc t).pin ≠ some e) (after : p.pin ≠ some e) :
    pins (update pc t p) e = pins pc e := by
  have updated := pins_update pc t p e
  rwa [if_neg before, if_neg after] at updated

theorem pins_take (without : (pc t).pin = none) (takes : p.pin = some e) :
    pins (update pc t p) e = pins pc e + 1 ∧
      ∀ x, x ≠ e → pins (update pc t p) x = pins pc x := by
  refine ⟨?_, fun x other => pins_of_ne (by simp [without]) (by simp [takes, other.symm])⟩
  have updated := pins_update pc t p e
  rwa [without, takes, if_pos rfl, if_neg (by simp)] at updated

theorem pins_drop (had : (pc t).pin = some e) (drops : p.pin = none) :
    pins (update pc t p) e + 1 = pins pc e ∧
      ∀ x, x ≠ e → pins (update pc t p) x = pins pc x := by
  refine ⟨?_, fun x other => pins_of_ne (by simp [had, other.symm]) (by simp [drops])⟩
  have updated := pins_update pc t p e
  rwa [had, drops, if_pos rfl, if_neg (by simp)] at updated

theorem pins_le (pc : Fin n → Pc) (e : ItemId) : pins pc e ≤ n := by
  calc pins pc e ≤ ∑ _t : Fin n, 1 := Finset.sum_le_sum fun t _ => by split <;> omega
    _ = n := by simp

theorem pins_pos (pinned : (pc t).pin = some e) : 0 < pins pc e := by
  have one : (if (pc t).pin = some e then 1 else 0) ≤ pins pc e :=
    Finset.single_le_sum (f := fun t => if (pc t).pin = some e then 1 else 0)
      (fun _ _ => Nat.zero_le _) (Finset.mem_univ t)
  rwa [if_pos pinned] at one

theorem pins_idle (e : ItemId) : pins (fun _ : Fin n => Pc.idle) e = 0 := by
  simp [pins, Pc.pin]

/-! ### Items -/

theorem Stored.here (stored : Stored place pins' s.items) (present : place e ≠ .absent) :
    ∃ it, s.items e = some it := by
  cases found : s.items e with
  | none => exact absurd (stored.gone e found).1 present
  | some it => exact ⟨it, rfl⟩

theorem Stored.none_of_absent (stored : Stored place pins' s.items) (absent : place e = .absent) :
    s.items e = none := by
  cases found : s.items e with
  | none => rfl
  | some it => exact absurd absent (stored.fits found).present

section

variable (stored : Stored place pins₁ items) (others : ∀ x, x ≠ e → pins' x = pins₁ x)
include stored others

/-- One item is replaced, or freed. -/
theorem Stored.replace {p : Place} {o : Option ShadowItem}
    (gone : o = none → p = .absent ∧ pins' e = 0) (fits : ∀ {it}, o = some it → Fits p (pins' e) it) :
    Stored (update place e p) pins' (update items e o) := by
  refine ⟨fun x none_ => ?_, fun {x it'} found => ?_⟩ <;> by_cases equal : x = e
  · subst equal
    rw [update_self] at none_ ⊢
    exact gone none_
  · rw [update_of_ne equal] at none_ ⊢
    rw [others x equal]
    exact stored.gone x none_
  · subst equal
    rw [update_self] at found ⊢
    exact fits found
  · rw [update_of_ne equal] at found ⊢
    rw [others x equal]
    exact stored.fits found

theorem Stored.set {p : Place} (fits : Fits p (pins' e) it) :
    Stored (update place e p) pins' (update items e (some it)) :=
  stored.replace others (fun gone => by cases gone) fun found => by cases found; exact fits

theorem Stored.free (unpinned : pins' e = 0) :
    Stored (update place e .absent) pins' (update items e none) :=
  stored.replace others (fun _ => ⟨rfl, unpinned⟩) fun found => by cases found

end

/-! ### The queue -/

section Line

variable {queue : Dll ItemId} {size : UInt32} {l : List ItemId}

section

variable (line : InLine place queue size l)
include line

theorem InLine.congr
    (same : ∀ e, place' e = .queued ↔ place e = .queued) : InLine place' queue size l :=
  ⟨line.rep, line.size, fun e => by rw [line.mem, same]⟩

theorem InLine.push (new : place e ≠ .queued)
    (room : size.toNat + 1 < 2 ^ 32) :
    InLine (update place e .queued) (queue.push e) (size + 1) (e :: l) := by
  refine ⟨line.rep.push fun member => new ((line.mem e).mp member), ?_, fun x => ?_⟩
  · rw [UInt32.toNat_add, List.length_cons, ← line.size]
    exact Nat.mod_eq_of_lt room
  · rw [List.mem_cons, line.mem]
    by_cases equal : x = e
    · simp only [equal, true_or, update_self]
    · simp only [equal, false_or, update_of_ne equal]

theorem InLine.one_le (member : place e = .queued) :
    1 ≤ size := by
  rw [UInt32.le_iff_toNat_le, line.size]
  exact List.length_pos_of_mem ((line.mem e).mpr member)

theorem InLine.unlink {p : Place} (member : place e = .queued)
    (leaves : p ≠ .queued) : InLine (update place e p) (queue.unlink e) (size - 1) (l.erase e) := by
  have inside : e ∈ l := (line.mem e).mpr member
  refine ⟨line.rep.unlink inside, ?_, fun x => ?_⟩
  · rw [UInt32.toNat_sub_of_le _ _ (line.one_le member), line.size, List.length_erase_of_mem inside]
    rfl
  · rw [line.rep.nodup.mem_erase_iff, line.mem]
    by_cases equal : x = e
    · simp only [equal, ne_eq, not_true_eq_false, false_and, update_self, leaves]
    · simp only [equal, ne_eq, not_false_eq_true, true_and, update_of_ne equal]

theorem InLine.toList : queue.toList size.toNat = l := by
  rw [line.size]
  exact line.rep.toList

end

end Line

/-! ### The hash table -/

section Index

variable {items' : ItemId → Option ShadowItem} {assoc : Chain Entry} {key : Key}

section

variable (indexed : Indexed cfg place items assoc)
include indexed

theorem Indexed.congr (alive : ∀ e, (place' e).alive = (place e).alive)
    (keys : ∀ e, (place e).alive = true →
      (items' e).map ShadowItem.key = (items e).map ShadowItem.key) :
    Indexed cfg place' items' assoc := by
  refine ⟨indexed.once, fun {k x} found => ?_, fun {e k} isAlive has => ?_, fun e => ?_⟩
  · obtain ⟨isAlive, has⟩ := indexed.found found
    rw [alive, keys _ isAlive]
    exact ⟨isAlive, has⟩
  · rw [alive] at isAlive
    rw [keys e isAlive] at has
    exact indexed.listed isAlive has
  · rw [indexed.total, alive]

theorem Indexed.insert (new : place e = .absent)
    (free : assoc.find cfg.hash Entry.key key = none) (has : it.key = key) :
    Indexed cfg (update place e .hashed) (update items e (some it))
      (assoc.insert cfg.hash Entry.key ⟨e, key⟩) := by
  have unknown : ∀ {k x}, assoc.find cfg.hash Entry.key k = some x → x.id ≠ e := by
    intro k x found same
    have isAlive := (indexed.found found).1
    rw [same, new] at isAlive
    cases isAlive
  refine ⟨fun k => ?_, fun {k x} found => ?_, fun {x k} isAlive hasKey => ?_, fun x => ?_⟩
  · rw [Chain.copies_insert]
    have before := indexed.once k
    split
    next same =>
      rw [← same, Chain.find_eq_none_iff.mp free]
    · exact before
  · rw [Chain.find_insert] at found
    split at found
    next same =>
      cases found
      change key = k at same
      rw [update_self, update_self, Option.map_some, has, same]
      exact ⟨rfl, rfl⟩
    · rw [update_of_ne (unknown found), update_of_ne (unknown found)]
      exact indexed.found found
  · rw [Chain.find_insert]
    by_cases equal : x = e
    · subst equal
      rw [update_self, Option.map_some, has] at hasKey
      cases hasKey
      rw [if_pos rfl]
    · rw [update_of_ne equal] at isAlive hasKey
      have listed := indexed.listed isAlive hasKey
      -- no item had the new key
      have other : ¬ key = k := by
        rintro rfl
        simp [free] at listed
      rwa [if_neg other]
  · rw [Chain.total_insert, indexed.total]
    by_cases equal : x = e
    · subst equal
      rw [new, update_self]
      simp [Place.alive]
    · have : ¬ e = x := fun same => equal same.symm
      rw [update_of_ne equal]
      simp [this]

theorem Indexed.delete {p : Place}
    (isAlive : (place e).alive = true) (has : (items e).map ShadowItem.key = some key)
    (dies : p.alive = false) (others : ∀ x, x ≠ e → items' x = items x) :
    Indexed cfg (update place e p) items' (assoc.delete cfg.hash Entry.key key) := by
  have mine := indexed.listed isAlive has
  refine ⟨fun k => ?_, fun {k x} found => ?_, fun {x k} alive hasKey => ?_, fun x => ?_⟩
  · exact (Chain.copies_delete_le assoc key k).trans (indexed.once k)
  · have other : k ≠ key := by
      rintro rfl
      simp [Chain.find_delete_self (indexed.once k)] at found
    rw [Chain.find_delete_of_ne assoc other] at found
    obtain ⟨alive, hasKey⟩ := indexed.found found
    have notMine : x.id ≠ e := by
      intro same
      rw [same, has] at hasKey
      exact other (Option.some.inj hasKey).symm
    rw [update_of_ne notMine, others _ notMine]
    exact ⟨alive, hasKey⟩
  · have notMine : x ≠ e := by
      rintro rfl
      simp [update_self, dies] at alive
    rw [update_of_ne notMine] at alive
    rw [others x notMine] at hasKey
    have listed := indexed.listed alive hasKey
    have other : k ≠ key := by
      rintro rfl
      rw [mine] at listed
      exact notMine (Entry.mk.inj (Option.some.inj listed)).1.symm
    rwa [Chain.find_delete_of_ne assoc other]
  · have deleted := Chain.total_delete cfg.hash Entry.key (fun x' => decide (x'.id = x)) assoc key
    rw [mine, indexed.total, Option.any_some] at deleted
    by_cases equal : x = e
    · subst equal
      rw [isAlive] at deleted
      rw [update_self, dies]
      simp only [decide_true, if_true] at deleted
      simp only [Bool.false_eq_true, if_false]
      omega
    · have : ¬ e = x := fun same => equal same.symm
      rw [update_of_ne equal]
      simp only [this, decide_false, Bool.false_eq_true, if_false] at deleted
      exact deleted

end

end Index

/-! ### The tree -/

section Root

variable {tree t : Tree}

variable (rooted : Rooted items tree)
include rooted

theorem Rooted.replace {o : Option ShadowItem}
    (keeps : ∀ a, (items e).bind ShadowItem.treeNode = some a →
      o.bind ShadowItem.treeNode = some a) : Rooted (update items e o) tree := by
  refine ⟨fun {a x} has => ?_, rooted.named⟩
  have before := rooted.node has
  by_cases equal : x = e
  · subst equal
    rw [update_self]
    exact keeps a before
  · rwa [update_of_ne equal]

theorem Rooted.plant (planted : Planted tree t e) (bare : (items e).bind ShadowItem.treeNode = none)
    (here : it.treeNode = some tree.fresh) : Rooted (update items e (some it)) t := by
  refine ⟨fun {a x} has => ?_, fun a beyond => ?_⟩
  · rw [planted.owner] at has
    split at has
    next new =>
      cases has
      rw [update_self, Option.bind_some, here, new]
    next old =>
      have before := rooted.node has
      have other : x ≠ e := by
        rintro rfl
        simp [bare] at before
      rwa [update_of_ne other]
  · rw [planted.fresh] at beyond
    have later : tree.fresh < a := beyond
    rw [planted.owner, if_neg (Nat.ne_of_gt later)]
    exact rooted.named a (Nat.le_of_lt later)

theorem Rooted.prune {node : NodeId} (pruned : Pruned tree t node)
    (has : (items e).bind ShadowItem.treeNode = some node) :
    Rooted (update items e (some it)) t := by
  refine ⟨fun {a x} owner => ?_, fun a beyond => ?_⟩
  · rw [pruned.owner] at owner
    split at owner
    · cases owner
    next other =>
      have before := rooted.node owner
      have notE : x ≠ e := by
        rintro rfl
        rw [has] at before
        exact other (Option.some.inj before).symm
      rwa [update_of_ne notE]
  · rw [pruned.fresh] at beyond
    rw [pruned.owner]
    split
    · rfl
    · exact rooted.named a beyond

end Root

/-! ### The threads -/

section Staff

variable {next : Pc} {p q : Place}

theorem stage_of_update (done : next.stage = none) {t' : Fin n} {x : ItemId × Place}
    (stage : (update pc t next t').stage = some x) : t' ≠ t ∧ (pc t').stage = some x := by
  by_cases equal : t' = t
  · simp [equal, update_self, done] at stage
  · rw [update_of_ne equal] at stage
    exact ⟨equal, stage⟩

theorem stage_update {t' : Fin n} {x : ItemId × Place} (stage : (pc t').stage = some x)
    (mine : (pc t).stage ≠ some x) : (update pc t next t').stage = some x := by
  have other : t' ≠ t := by
    rintro rfl
    exact mine stage
  rwa [update_of_ne other]

/-- What one thread at most has is so still, if `t` takes it only while no other thread has it. -/
theorem unique_update {P : Pc → Prop} (once : ∀ {t' t''}, P (pc t') → P (pc t'') → t' = t'')
    (alone : P next → ∀ t', t' ≠ t → ¬ P (pc t')) {t' t'' : Fin n}
    (one : P (update pc t next t')) (two : P (update pc t next t'')) : t' = t'' := by
  by_cases first : t' = t <;> by_cases second : t'' = t
  · rw [first, second]
  · rw [first, update_self] at one
    rw [update_of_ne second] at two
    exact absurd two (alone one t'' second)
  · rw [update_of_ne first] at one
    rw [second, update_self] at two
    exact absurd one (alone two t' first)
  · rw [update_of_ne first] at one
    rw [update_of_ne second] at two
    exact once one two

variable (staffed : Staffed place pc)
include staffed

/-- An item with a thread is on the way. -/
theorem Staffed.moves (stage : (pc t).stage = some (e, q)) : (place e).transient = true := by
  rw [staffed.works stage]
  cases at_ : pc t <;> rw [at_] at stage <;> cases stage <;> rfl

/-- A thread that has nothing to move on, before and after its step, may be anywhere. -/
theorem Staffed.elsewhere (idle : (pc t).stage = none) (done : next.stage = none)
    (free : next.holdsQueue = false) : Staffed place (update pc t next) := by
  refine ⟨fun stage => staffed.works (stage_of_update done stage).2, fun {x} moves => ?_,
    fun one two => staffed.once (stage_of_update done one).2 (stage_of_update done two).2,
    unique_update (P := fun c => c.holdsQueue = true) staffed.lock (by simp [free])⟩
  obtain ⟨t', stage⟩ := staffed.owned moves
  exact ⟨t', stage_update stage (by simp [idle])⟩

/-- A thread has nothing to move on after its step, and nobody moves `e`. -/
theorem Staffed.settle (done : next.stage = none) (free : next.holdsQueue = false)
    (mine : ∀ {x q}, (pc t).stage = some (x, q) → x = e)
    (alone : ∀ {t' q}, (pc t').stage = some (e, q) → t' = t) (rests : p.transient = false) :
    Staffed (update place e p) (update pc t next) := by
  refine ⟨fun {t' x r} stage => ?_, fun {x} moves => ?_,
    fun one two => staffed.once (stage_of_update done one).2 (stage_of_update done two).2,
    unique_update (P := fun c => c.holdsQueue = true) staffed.lock (by simp [free])⟩
  · obtain ⟨other, before⟩ := stage_of_update done stage
    have notE : x ≠ e := by
      rintro rfl
      exact other (alone before)
    rw [update_of_ne notE]
    exact staffed.works before
  · have notE : x ≠ e := by
      rintro rfl
      simp [update_self, rests] at moves
    rw [update_of_ne notE] at moves ⊢
    obtain ⟨t', stage⟩ := staffed.owned moves
    exact ⟨t', stage_update stage fun own => notE (mine own)⟩

/-- The thread of an item on the way brings it to a place where it rests. -/
theorem Staffed.finish (had : (pc t).stage = some (e, q)) (done : next.stage = none)
    (free : next.holdsQueue = false) (rests : p.transient = false) :
    Staffed (update place e p) (update pc t next) :=
  staffed.settle done free (fun stage => (Prod.mk.inj (Option.some.inj (stage.symm.trans had))).1)
    (fun stage => staffed.once stage had) rests

section

variable (idle : (pc t).stage = none) (rested : (place e).transient = false)
include idle rested

/-- A thread that moves nothing on leaves an item that rests where it is, or at another place
to rest. -/
theorem Staffed.stay (done : next.stage = none) (free : next.holdsQueue = false)
    (rests : p.transient = false) : Staffed (update place e p) (update pc t next) := by
  refine staffed.settle done free (fun stage => ?_) (fun stage => ?_) rests
  · simp [idle] at stage
  · simp [staffed.moves stage] at rested

theorem Staffed.begin (starts : next.stage = some (e, q))
    (lock : next.holdsQueue = true → ∀ t', t' ≠ t → (pc t').holdsQueue = false) :
    Staffed (update place e q) (update pc t next) := by
  have nobody : ∀ {t' r}, (pc t').stage ≠ some (e, r) := fun stage => by
    simp [staffed.moves stage] at rested
  refine ⟨fun {t' x r} stage => ?_, fun {x} moves => ?_, fun {t' t'' x r r'} one two => ?_,
    unique_update (P := fun c => c.holdsQueue = true) staffed.lock fun holds t' other => by simp [lock holds t' other]⟩
  · by_cases equal : t' = t
    · rw [equal, update_self, starts] at stage
      cases stage
      rw [update_self]
    · rw [update_of_ne equal] at stage
      have notE : x ≠ e := by
        rintro rfl
        exact nobody stage
      rw [update_of_ne notE]
      exact staffed.works stage
  · by_cases equal : x = e
    · subst equal
      exact ⟨t, by rw [update_self, update_self]; exact starts⟩
    · rw [update_of_ne equal] at moves ⊢
      obtain ⟨t', stage⟩ := staffed.owned moves
      exact ⟨t', stage_update stage (by simp [idle])⟩
  · refine unique_update (P := fun c => ∃ r, c.stage = some (x, r))
      (fun ⟨_, one⟩ ⟨_, two⟩ => staffed.once one two) (fun ⟨_, mine⟩ t' _ ⟨_, stage⟩ => ?_)
      ⟨r, one⟩ ⟨r', two⟩
    rw [starts] at mine
    cases mine
    exact nobody stage

end

/-- The thread of an item takes it one place further. -/
theorem Staffed.carry (had : (pc t).stage = some (e, p)) (goes : next.stage = some (e, q))
    (lock : next.holdsQueue = true → (pc t).holdsQueue = true) :
    Staffed (update place e q) (update pc t next) := by
  -- as if it put the item down and took it up again
  have down : Staffed (update place e .queued) (update pc t .idle) :=
    staffed.finish had rfl rfl rfl
  have others : next.holdsQueue = true → ∀ t', t' ≠ t →
      (update pc t .idle t').holdsQueue = false := by
    intro holds t' other
    rw [update_of_ne other]
    cases holds' : (pc t').holdsQueue with
    | false => rfl
    | true => exact absurd (staffed.lock holds' (lock holds)) other
  have up : Staffed (update (update place e .queued) e q)
      (update (update pc t .idle) t next) :=
    down.begin (by rw [update_self]; rfl) (by rw [update_self]; rfl) goes others
  rwa [update_idem, update_idem] at up

end Staff

end Places

end MemExchange.Shadow
