import MemExchange.Cache.World

/-!
# What lookups and allocations may do to the cache

Apart from linking an item and writing to a slot, every function of the store only trims:
it unlinks items, refreshes the marks of items that are alive, and moves chunks between the
free lists.
-/
namespace MemExchange.Cache

variable {cfg : Settings}

/-- Every key is indexed at most once. -/
def State.Single (cfg : Settings) (c : State) : Prop :=
  ∀ key, c.assoc.copies cfg.hash Item.key key ≤ 1

/-- An item stays as it is, or was alive and only its marks and access time change. -/
def Kept (c : State) (it it' : Item) : Prop :=
  it' = it ∨ (isDead c it = false ∧
    it'.value = it.value ∧ it'.exptime = it.exptime ∧ it'.cas = it.cas)

/-- Everything but the local index and the free lists is left alone. -/
structure Frame (c c' : State) : Prop where
  remote : c'.remoteAssoc = c.remoteAssoc
  mem : c'.remoteMem = c.remoteMem
  clock : c'.currentTime = c.currentTime
  oldestLive : c'.oldestLive = c.oldestLive
  oldestCas : c'.oldestCas = c.oldestCas
  casId : c'.casId = c.casId

structure Trimmed (cfg : Settings) (c c' : State) : Prop extends Frame c c' where
  found : ∀ key it', c'.assocFind cfg key = some it' →
    ∃ it, c.assocFind cfg key = some it ∧ Kept c it it'
  copies : ∀ key, c'.assoc.copies cfg.hash Item.key key ≤ c.assoc.copies cfg.hash Item.key key
  spare : ∀ l, c'.spare l ≤ c.spare l

namespace Frame

variable {c c' c'' : State}

theorem refl (c : State) : Frame c c := ⟨rfl, rfl, rfl, rfl, rfl, rfl⟩

theorem trans (first : Frame c c') (second : Frame c' c'') : Frame c c'' :=
  ⟨second.remote.trans first.remote, second.mem.trans first.mem,
    second.clock.trans first.clock, second.oldestLive.trans first.oldestLive,
    second.oldestCas.trans first.oldestCas, second.casId.trans first.casId⟩

theorem remoteAssocFind (frame : Frame c c') (key : Bytes) :
    c'.remoteAssocFind cfg key = c.remoteAssocFind cfg key := by
  rw [State.remoteAssocFind, frame.remote, ← State.remoteAssocFind]

end Frame

theorem isDead_congr {c c' : State} (clock : c'.currentTime = c.currentTime)
    (live : c'.oldestLive = c.oldestLive) (cas : c'.oldestCas = c.oldestCas) (it : Item) :
    isDead c' it = isDead c it := by
  simp only [isDead, itemIsFlushed, isExpired, clock, live, cas]

theorem Frame.isDead {c c' : State} (frame : Frame c c') (it : Item) :
    Cache.isDead c' it = Cache.isDead c it :=
  isDead_congr frame.clock frame.oldestLive frame.oldestCas it

namespace Trimmed

variable {c c' c'' : State}

theorem refl (c : State) : Trimmed cfg c c where
  toFrame := .refl c
  found := fun _ it found => ⟨it, found, .inl rfl⟩
  copies := fun _ => Nat.le_refl _
  spare := fun _ => Nat.le_refl _

theorem trans (first : Trimmed cfg c c') (second : Trimmed cfg c' c'') : Trimmed cfg c c'' where
  toFrame := first.toFrame.trans second.toFrame
  copies := fun key => (second.copies key).trans (first.copies key)
  spare := fun l => (second.spare l).trans (first.spare l)
  found := by
    intro key it'' found
    obtain ⟨it', found', kept'⟩ := second.found key it'' found
    obtain ⟨it, found, kept⟩ := first.found key it' found'
    refine ⟨it, found, ?_⟩
    rcases kept' with rfl | ⟨alive', value', expiry', cas'⟩
    · exact kept
    · rcases kept with rfl | ⟨alive, value, expiry, cas⟩
      · exact .inr ⟨first.isDead _ ▸ alive', value', expiry', cas'⟩
      · exact .inr ⟨alive, value'.trans value, expiry'.trans expiry, cas'.trans cas⟩

theorem single (trim : Trimmed cfg c c') (single : c.Single cfg) : c'.Single cfg :=
  fun key => (trim.copies key).trans (single key)

theorem missing (trim : Trimmed cfg c c') {key : Bytes} (absent : c.assocFind cfg key = none) :
    c'.assocFind cfg key = none := by
  cases found : c'.assocFind cfg key with
  | none => rfl
  | some it' =>
    obtain ⟨it, was, -⟩ := trim.found key it' found
    simp [absent] at was

end Trimmed

/-! ### Slots on the free lists -/

/-- A slot hangs on an item or chunk in hand. -/
def held (l : Slot) (rIt : Option RemoteItem) :
    Nat := if rIt.any (fun r => r.slot = l) then 1 else 0

@[simp] theorem held_none (l : Slot) : held l none = 0 := rfl

section Spare

variable (c : State) (l : Slot)

theorem spare_classes (id : Nat) (p : SlabClass) (here : c.classes[id]? = some p)
    (f : SlabClass → SlabClass) :
    ({ c with classes := c.classes.modify id f } : State).spare l + p.spare l
      = c.spare l + (f p).spare l := by
  obtain ⟨inside, read⟩ := List.getElem?_eq_some_iff.mp here
  have moved := List.sum_map_modify (SlabClass.spare l) f c.classes id inside
  rw [read] at moved
  simp only [State.spare]
  omega

theorem spare_doSlabsFree (it : Item) : (doSlabsFree c it).spare l ≤ c.spare l + held l it.rIt := by
  cases here : c.classes[it.clsid]? with
  | none =>
    have outside := List.getElem?_eq_none_iff.mp here
    have same : doSlabsFree c it = c := by
      simp only [doSlabsFree, List.modify_eq_self outside]
    rw [same]
    exact Nat.le_add_right _ _
  | some p =>
    have moved := spare_classes c l it.clsid p here
      fun p => { p with slots := ⟨it.rIt, it.time⟩ :: p.slots }
    simp only [SlabClass.spare, List.countP_cons] at moved
    simp only [doSlabsFree, held]
    omega

theorem spare_assocDelete {key : Bytes} {it : Item} (found : c.assocFind cfg key = some it) :
    (c.assocDelete cfg key).spare l + held l it.rIt = c.spare l := by
  have deleted := Chain.total_delete cfg.hash Item.key
    (fun it => it.rIt.any fun r => r.slot = l) c.assoc key
  rw [State.assocFind] at found
  rw [found, Option.any_some] at deleted
  simp only [State.spare, State.assocDelete, held]
  omega

theorem spare_assocInsert (it : Item) :
    (c.assocInsert cfg it).spare l = c.spare l + held l it.rIt := by
  have inserted := Chain.total_insert cfg.hash Item.key
    (fun it => it.rIt.any fun r => r.slot = l) c.assoc it
  simp only [State.spare, State.assocInsert, held]
  omega

theorem spare_modify (key : Bytes) {change : Item → Item} (keeps : ∀ it, (change it).rIt = it.rIt) :
    (c.modify cfg key change).spare l = c.spare l := by
  have updated := Chain.total_update cfg.hash Item.key
    (fun it => it.rIt.any fun r => r.slot = l) c.assoc key (g := change)
    (fun it => by rw [keeps])
  simp only [State.spare, State.modify]
  omega

end Spare

/-! ### Links -/

section Links

variable {c : State}

theorem assocFind_key {key : Bytes} {it : Item} (found : c.assocFind cfg key = some it) :
    it.key = key :=
  Chain.find_key found

theorem unlink_trimmed (single : c.Single cfg) {it : Item}
    (found : c.assocFind cfg it.key = some it) : Trimmed cfg c (doItemUnlink cfg c it) where
  toFrame := ⟨rfl, rfl, rfl, rfl, rfl, rfl⟩
  copies := fun key => Chain.copies_delete_le c.assoc it.key key
  spare := fun l => by
    have deleted := spare_assocDelete c l found
    have freed := spare_doSlabsFree (c.assocDelete cfg it.key) l it
    rw [doItemUnlink]
    omega
  found := by
    intro key it' found'
    have read : (c.assoc.delete cfg.hash Item.key it.key).find cfg.hash Item.key key
        = some it' := found'
    by_cases same : key = it.key
    · simp [same, Chain.find_delete_self (single it.key)] at read
    · rw [Chain.find_delete_of_ne _ same] at read
      exact ⟨it', read, .inl rfl⟩

theorem assocFind_unlink (single : c.Single cfg) (it : Item) :
    (doItemUnlink cfg c it).assocFind cfg it.key = none :=
  Chain.find_delete_self (single it.key)

variable (it : Item) (key : Bytes)

theorem assocFind_unlink_of_ne {key : Bytes} (other : key ≠ it.key) :
    (doItemUnlink cfg c it).assocFind cfg key = c.assocFind cfg key :=
  Chain.find_delete_of_ne _ other

theorem assocFind_link (cfg : Settings) (c : State) (it : Item) (key : Bytes) :
    (doItemLink cfg c it).assocFind cfg key = if it.key = key
      then some { it with
        time := c.currentTime, cas := if cfg.useCas then c.casId + 1 else 0 }
      else c.assocFind cfg key :=
  Chain.find_insert c.assoc _ key

theorem copies_link : (doItemLink cfg c it).assoc.copies cfg.hash Item.key key
      = c.assoc.copies cfg.hash Item.key key + if it.key = key then 1 else 0 :=
  Chain.copies_insert c.assoc _ key

theorem remoteAssocFind_store (r : RemoteItem) (it : Item) (key : Bytes) :
    (storeRemote cfg c r it).remoteAssocFind cfg key = if it.key = key
      then some { r with key := it.key, nbytes := it.nbytes }
      else c.remoteAssocFind cfg key :=
  Chain.find_insert c.remoteAssoc _ key

theorem assocFind_modify (change : Item → Item) (key key' : Bytes)
    (keeps : ∀ it, (change it).key = it.key) : (c.modify cfg key change).assocFind cfg key'
      = if key' = key then (c.assocFind cfg key).map change else c.assocFind cfg key' :=
  Chain.find_update c.assoc key key' keeps

theorem modify_trimmed {change : Item → Item}
    (keeps : ∀ it, (change it).key = it.key ∧ (change it).rIt = it.rIt)
    (here : ∀ it, c.assocFind cfg key = some it → Kept c it (change it)) :
    Trimmed cfg c (c.modify cfg key change) where
  toFrame := ⟨rfl, rfl, rfl, rfl, rfl, rfl⟩
  copies := fun key' => (Chain.copies_update c.assoc key key' fun it => (keeps it).1).le
  spare := fun l => (spare_modify c l key fun it => (keeps it).2).le
  found := by
    intro key' it' found'
    rw [assocFind_modify change key key' fun it => (keeps it).1] at found'
    split at found'
    · next same =>
      obtain ⟨it, found, rfl⟩ := Option.map_eq_some_iff.mp found'
      exact ⟨it, same ▸ found, here it found⟩
    · exact ⟨it', found', .inl rfl⟩

end Links

/-! ### The marks of an item -/

section Marks

variable (cfg) (now : Nat) (it : Item)

theorem doItemUpdate_fields : (doItemUpdate cfg now it).key = it.key ∧
    (doItemUpdate cfg now it).rIt = it.rIt ∧ (doItemUpdate cfg now it).value = it.value ∧
    (doItemUpdate cfg now it).exptime = it.exptime ∧ (doItemUpdate cfg now it).cas = it.cas := by
  unfold doItemUpdate
  repeat' split
  all_goals exact ⟨rfl, rfl, rfl, rfl, rfl⟩

theorem markFetched_fields (bumped : Bool) : (markFetched cfg now bumped it).key = it.key ∧
    (markFetched cfg now bumped it).rIt = it.rIt ∧
    (markFetched cfg now bumped it).value = it.value ∧
    (markFetched cfg now bumped it).exptime = it.exptime ∧
    (markFetched cfg now bumped it).cas = it.cas := by
  unfold markFetched
  repeat' split
  all_goals first
    | exact ⟨rfl, rfl, rfl, rfl, rfl⟩
    | exact doItemUpdate_fields cfg now _

end Marks

/-! ### Lookup -/

section Lookup

variable {c : State} {key : Bytes}

/-- What `do_item_get` does: nothing is indexed, a dead item is unlinked, or an item that is
alive is answered with its marks set. -/
inductive GetMove (cfg : Settings) (c : State) (key : Bytes) (update : Option Bool) :
    Option Item × State → Prop
  | absent (missing : c.assocFind cfg key = none) : GetMove cfg c key update (none, c)
  | dead (it : Item) (found : c.assocFind cfg key = some it) (dead : isDead c it = true) :
      GetMove cfg c key update (none, doItemUnlink cfg c it)
  | alive (it : Item) (found : c.assocFind cfg key = some it) (alive : isDead c it = false)
      (quiet : update = none) : GetMove cfg c key update (some it, c)
  | marked (it : Item) (bumped : Bool) (found : c.assocFind cfg key = some it)
      (alive : isDead c it = false) (quiet : update = some bumped) :
      GetMove cfg c key update (some (markFetched cfg c.currentTime bumped it),
        c.modify cfg key (markFetched cfg c.currentTime bumped))

theorem doItemGet_move (cfg : Settings) (c : State) (key : Bytes) (update : Option Bool) :
    GetMove cfg c key update (doItemGet cfg c key update) := by
  unfold doItemGet
  cases found : c.assocFind cfg key with
  | none => exact .absent found
  | some it =>
    by_cases flushed : itemIsFlushed c it = true
    · simp only [flushed, if_true]
      exact .dead it found (by simp [isDead, flushed])
    · by_cases expired : isExpired c it.exptime = true
      · simp only [flushed, expired, if_true]
        exact .dead it found (by simp [isDead, expired])
      · have alive : isDead c it = false := by simp [isDead, flushed, expired]
        simp only [flushed, expired]
        cases update with
        | none => exact .alive it found alive rfl
        | some bumped => exact .marked it bumped found alive rfl

theorem doItemGet_trimmed (single : c.Single cfg) (key : Bytes) (update : Option Bool) :
    Trimmed cfg c (doItemGet cfg c key update).2 := by
  have move := doItemGet_move cfg c key update
  generalize doItemGet cfg c key update = got at move
  cases move with
  | absent missing => exact .refl c
  | dead it found dead =>
    exact unlink_trimmed single (by rw [assocFind_key found]; exact found)
  | alive it found alive quiet => exact .refl c
  | marked it bumped found alive quiet =>
    refine modify_trimmed key (fun it => ?_) fun it' found' => ?_
    · have same := markFetched_fields cfg c.currentTime it bumped
      exact ⟨same.1, same.2.1⟩
    · rw [found] at found'
      cases found'
      have same := markFetched_fields cfg c.currentTime it bumped
      exact .inr ⟨alive, same.2.2⟩

end Lookup

/-! ### Allocation -/

section Allocation

variable {c c' : State}

/-- An allocation trims, takes the slot of what it hands out off the free lists, and leaves
the item of a locked key alone. -/
structure Allocated (cfg : Settings) (c c' : State) (locked : Option Bytes)
    (rIt : Option RemoteItem) : Prop where
  trimmed : Trimmed cfg c c'
  taken : ∀ l, c'.spare l + held l rIt ≤ c.spare l
  keeps : ∀ key, locked = some key → c'.assocFind cfg key = c.assocFind cfg key

theorem lruPullTail_trimmed (single : c.Single cfg) (locked : Option Bytes) (keys : List Bytes) :
    Trimmed cfg c (lruPullTail cfg c locked keys) := by
  induction keys generalizing c with
  | nil => exact .refl c
  | cons key keys ih =>
    rw [lruPullTail, List.foldl_cons, ← lruPullTail]
    split
    · exact ih single
    · cases found : c.assocFind cfg key with
      | none => exact ih single
      | some it =>
        have here := unlink_trimmed single (by rw [assocFind_key found]; exact found)
        exact here.trans (ih (here.single single))

theorem assocFind_lruPullTail_locked (key : Bytes) (keys : List Bytes) :
    (lruPullTail cfg c (some key) keys).assocFind cfg key = c.assocFind cfg key := by
  induction keys generalizing c with
  | nil => rfl
  | cons evicted keys ih =>
    rw [lruPullTail, List.foldl_cons, ← lruPullTail]
    split
    · exact ih
    · next other =>
      cases found : c.assocFind cfg evicted with
      | none => exact ih
      | some it =>
        have apart : key ≠ it.key := by
          rw [assocFind_key found]
          exact fun same => other (by rw [same])
        exact ih.trans (assocFind_unlink_of_ne it apart)

variable {locked : Option Bytes} {classes : List SlabClass}

theorem lruPullTail_keeps (keys : List Bytes) (key : Bytes) (here : locked = some key) :
    (lruPullTail cfg c locked keys).assocFind cfg key = c.assocFind cfg key := by
  rw [here]
  exact assocFind_lruPullTail_locked key keys

theorem classes_trimmed (fewer : ∀ l, ({ c with classes } : State).spare l ≤ c.spare l) :
    Trimmed cfg c { c with classes } where
  toFrame := ⟨rfl, rfl, rfl, rfl, rfl, rfl⟩
  copies := fun _ => Nat.le_refl _
  spare := fewer
  found := fun _ it found => ⟨it, found, .inl rfl⟩

theorem classes_allocated {rIt : Option RemoteItem}
    (taken : ∀ l, ({ c with classes } : State).spare l + held l rIt ≤ c.spare l)
    (locked : Option Bytes) : Allocated cfg c { c with classes } locked rIt where
  trimmed := classes_trimmed fun l => (Nat.le_add_right _ _).trans (taken l)
  taken := taken
  keeps := fun _ _ => rfl

theorem countP_newPage (p : SlabClass) (newPage : Bool) (l : Slot) :
    (if p.slots = [] ∧ newPage then List.replicate p.perslab {} else p.slots).countP
        (fun chunk : Chunk => chunk.rIt.any fun r => r.slot = l)
      = p.slots.countP fun chunk => chunk.rIt.any fun r => r.slot = l := by
  split
  · next granted => simp [granted.1, List.countP_replicate]
  · rfl

theorem doSlabsAlloc_allocated (cfg : Settings) {id : Nat} {newPage : Bool} {chunk : Chunk}
    (served : doSlabsAlloc c id newPage = some (chunk, c')) (locked : Option Bytes) :
    Allocated cfg c c' locked chunk.rIt := by
  obtain ⟨-, served⟩ := Option.ite_none_left_eq_some.mp served
  cases here : c.classes[id]? with
  | none => simp [here] at served
  | some p =>
    simp only [here] at served
    have same := countP_newPage p newPage
    generalize (if p.slots = [] ∧ newPage then List.replicate p.perslab {} else p.slots)
      = slots at served same
    split at served
    · next head rest =>
      -- the head of the local list, which may carry the slot of an earlier temporary item
      cases served
      refine classes_allocated (fun l => ?_) locked
      have moved := spare_classes c l id p here fun p => { p with slots := rest }
      have counted := same l
      simp only [SlabClass.spare, List.countP_cons] at moved counted
      simp only [held]
      omega
    · next before r rest remote =>
      cases served
      refine classes_allocated (fun l => ?_) locked
      have moved := spare_classes c l id p here fun p => { p with slots := [], rslots := rest }
      simp only [SlabClass.spare, remote, List.countP_cons, List.countP_nil] at moved
      simp only [held, Option.any_some]
      omega
    · cases served

theorem allocPull_allocated (single : c.Single cfg) (id : Nat) (locked : Option Bytes)
    (pulls : List Pull) : Allocated cfg c (allocPull cfg id locked c pulls).2 locked
      ((allocPull cfg id locked c pulls).1.bind Chunk.rIt) := by
  induction pulls generalizing c with
  | nil => exact ⟨.refl c, fun _ => Nat.le_refl _, fun _ _ => rfl⟩
  | cons pull pulls ih =>
    rw [allocPull]
    have first : Trimmed cfg c
          (if cfg.lruSegmented then c else lruPullTail cfg c locked pull.reclaimed) ∧
        ∀ key, locked = some key →
          (if cfg.lruSegmented then c
            else lruPullTail cfg c locked pull.reclaimed).assocFind cfg key
            = c.assocFind cfg key := by
      split
      · exact ⟨.refl c, fun _ _ => rfl⟩
      · exact ⟨lruPullTail_trimmed single locked _, lruPullTail_keeps _⟩
    generalize (if cfg.lruSegmented then c else lruPullTail cfg c locked pull.reclaimed)
      = c₁ at first
    obtain ⟨trim, keeps⟩ := first
    cases served : doSlabsAlloc c₁ id pull.newPage with
    | some got =>
      have here := doSlabsAlloc_allocated cfg served locked
      exact ⟨trim.trans here.trimmed, fun l => (here.taken l).trans (trim.spare l),
        fun key lock => (here.keeps key lock).trans (keeps key lock)⟩
    | none =>
      have pulled := lruPullTail_trimmed (trim.single single) locked pull.evicted
      have rest := ih (pulled.single (trim.single single))
      exact ⟨(trim.trans pulled).trans rest.trimmed,
        fun l => (rest.taken l).trans ((trim.trans pulled).spare l),
        fun key lock => ((rest.keeps key lock).trans
          (lruPullTail_keeps _ key lock)).trans (keeps key lock)⟩

theorem doItemAlloc_fields {pulls : List Pull} {key value : Bytes} {flags exptime : Nat} {it : Item}
    (served : (doItemAlloc cfg c locked pulls key value flags exptime).1 = some it) :
    it.key = key ∧ it.value = value ∧ it.flags = flags ∧ it.exptime = exptime := by
  unfold doItemAlloc at served
  dsimp only at served
  split at served
  · cases served
  · split at served
    · cases served
    · cases served
      exact ⟨rfl, rfl, rfl, rfl⟩

theorem doItemAlloc_allocated (single : c.Single cfg) (locked : Option Bytes) (pulls : List Pull)
    (key value : Bytes) (flags exptime : Nat) :
    Allocated cfg c (doItemAlloc cfg c locked pulls key value flags exptime).2 locked
      ((doItemAlloc cfg c locked pulls key value flags exptime).1.bind Item.rIt) := by
  unfold doItemAlloc
  dsimp only
  split
  · exact ⟨.refl c, fun _ => Nat.le_refl _, fun _ _ => rfl⟩
  · have pulled := allocPull_allocated single
      (slabsClsid cfg c.classes (itemMakeHeader cfg key.length flags (value.length + 2)))
      locked (pulls.take 10)
    rw [← doItemAllocPull] at pulled
    split
    · next c₁ none =>
      rwa [none] at pulled
    · next chunk c₁ some =>
      rwa [some] at pulled

end Allocation

end MemExchange.Cache
