import MemExchange.Cache.Moves

/-!
# Conditional stores and the place of the chunk

Whether a store finds a local chunk or a remote slot is up to the allocator. `do_store_item` has a
branch for each command, presence and CAS number; the remote branch of `complete_update_bin` has
one: it stores. Both are run on the same cache and request, and the outcomes are compared.
-/
namespace MemExchange.Cache

variable {cfg : Settings} {c c' : State}

def Request.casOf (cfg : Settings) (req : Request) : Nat := if cfg.useCas then req.cas else 0

/-- The item a request is read into, for a given chunk. -/
def requestItem (cfg : Settings) (now clsid : Nat) (req : Request) (chunk : Chunk) : Item :=
  { newItem cfg now clsid chunk req.key req.value (req.header cfg now).1 (req.header cfg now).2
    with cas := req.casOf cfg }

/-- The value a get answers for a key when reads complete. -/
def State.valueOf (cfg : Settings) (c : State) (key : Bytes) : Option Bytes :=
  (processBinGetOrTouch cfg c key none false true).1.map Item.value

/-- The value in the slot the remote index answers for a key. -/
def State.farValue (cfg : Settings) (c : State) (key : Bytes) : Option Bytes :=
  (c.remoteAssocFind cfg key).map fun r => (c.remoteMem r.slot).value

/-- An item linked now would be dead at once: it is expired, or the flush in effect covers
the current second. -/
def State.bornDead (cfg : Settings) (c : State) (exptime : Nat) : Bool :=
  itemIsFlushed c { key := [], value := [], time := c.currentTime
                    cas := if cfg.useCas then c.casId + 1 else 0 } || isExpired c exptime

/-- What an APPEND or PREPEND asks of the item it extends: its CAS number, if one is given,
and room for the joined item. -/
def Joinable (cfg : Settings) (c : State) (comm : Nread) (key value : Bytes) (cas : Nat)
    (pulls : List Pull) (old : Item) : Prop :=
  (cas = 0 ∨ cas = old.cas) ∧
    (doItemAlloc cfg c (some key) pulls key (storeItemCopyData comm old.value value)
      old.flags old.exptime).1.isSome

/-- What `do_store_item` asks of the live item of the key before it stores. -/
def Nread.Accepts (cfg : Settings) (c : State) (comm : Nread) (key value : Bytes) (cas : Nat)
    (pulls : List Pull) : Prop :=
  match comm, c.lookup cfg key with
  | .set, _ => True
  | .add, none => True
  | .replace, some _ => True
  | .cas, some old => cas = old.cas
  | .append, some old => Joinable cfg c .append key value cas pulls old
  | .prepend, some old => Joinable cfg c .prepend key value cas pulls old
  | _, _ => False

/-- The place does not matter. Without a live local item of the key, for SET and ADD: unless
the item would be dead at once, when the remote index must already answer the value. With one:
if the command accepts it and has nothing to change in it, as an equal value or nothing to
join; or, for an item that would be dead at once, if the remote index answers its value. -/
def PlaceIrrelevant (cfg : Settings) (c : State) (req : Request) (pulls : List Pull) : Prop :=
  match c.lookup cfg req.key with
  | none =>
    (req.nread cfg = .set ∨ req.nread cfg = .add) ∧
      (c.bornDead cfg (req.expiry cfg c.currentTime none) = true →
        c.farValue cfg req.key = some req.value)
  | some old =>
    (req.nread cfg).Accepts cfg c req.key req.value (req.casOf cfg) pulls ∧
      if c.bornDead cfg (req.expiry cfg c.currentTime (some old.exptime))
      then c.farValue cfg req.key = some old.value
      else req.value = if (req.nread cfg).joins then [] else old.value

/-! ### Allocation leaves the rest alone -/

theorem frame_free (c : State) (it : Item) : Frame c (doSlabsFree c it) :=
  ⟨rfl, rfl, rfl, rfl, rfl, rfl⟩

theorem frame_unlink (c : State) (it : Item) : Frame c (doItemUnlink cfg c it) :=
  ⟨rfl, rfl, rfl, rfl, rfl, rfl⟩

theorem lruPullTail_frame (locked : Option Bytes) (keys : List Bytes) :
    Frame c (lruPullTail cfg c locked keys) := by
  induction keys generalizing c with
  | nil => exact .refl c
  | cons key keys ih =>
    rw [lruPullTail, List.foldl_cons, ← lruPullTail]
    split
    · exact ih
    · cases found : c.assocFind cfg key with
      | none => exact ih
      | some it => exact (frame_unlink c it).trans ih

theorem doSlabsAlloc_frame {id : Nat} {newPage : Bool} {chunk : Chunk}
    (served : doSlabsAlloc c id newPage = some (chunk, c')) : Frame c c' := by
  obtain ⟨-, served⟩ := Option.ite_none_left_eq_some.mp served
  split at served
  · cases served
  · dsimp only at served
    split at served
    · cases served
      exact ⟨rfl, rfl, rfl, rfl, rfl, rfl⟩
    · cases served
      exact ⟨rfl, rfl, rfl, rfl, rfl, rfl⟩
    · cases served

theorem allocPull_frame (id : Nat) (locked : Option Bytes) (pulls : List Pull) :
    Frame c (allocPull cfg id locked c pulls).2 := by
  induction pulls generalizing c with
  | nil => exact .refl c
  | cons pull pulls ih =>
    rw [allocPull]
    have first : Frame c
        (if cfg.lruSegmented then c else lruPullTail cfg c locked pull.reclaimed) := by
      split
      · exact .refl c
      · exact lruPullTail_frame locked _
    generalize (if cfg.lruSegmented then c else lruPullTail cfg c locked pull.reclaimed)
      = c₁ at first
    cases served : doSlabsAlloc c₁ id pull.newPage with
    | some got => exact first.trans (doSlabsAlloc_frame served)
    | none => exact first.trans ((lruPullTail_frame locked pull.evicted).trans ih)

theorem doItemAlloc_frame (cfg : Settings) (c : State) (locked : Option Bytes) (pulls : List Pull)
    (key value : Bytes) (flags exptime : Nat) :
    Frame c (doItemAlloc cfg c locked pulls key value flags exptime).2 := by
  unfold doItemAlloc
  dsimp only
  split
  · exact .refl c
  · have pulled : Frame c (doItemAllocPull cfg c
        (slabsClsid cfg c.classes (itemMakeHeader cfg key.length flags (value.length + 2)))
        locked pulls).2 := allocPull_frame _ _ _
    split
    · next missed =>
      rwa [missed] at pulled
    · next served =>
      rwa [served] at pulled

/-! ### What a get answers -/

theorem valueOf_eq (cfg : Settings) (c : State) (key : Bytes) :
    c.valueOf cfg key = ((c.lookup cfg key).map Item.value).or (c.farValue cfg key) := by
  have move := doItemGet_move cfg c key (some false)
  -- a dead item is unlinked on the way, which the remote index does not notice
  have remote : ∀ (c₁ : State) (out : Option Item × State), c₁.remoteAssoc = c.remoteAssoc →
      c₁.remoteMem = c.remoteMem → (c₁.remoteAssocFind cfg key = none → out = (none, c₁)) →
      (∀ r, c₁.remoteAssocFind cfg key = some r → out = (getRemoteItem c₁ r true, c₁)) →
      out.1.map Item.value = c.farValue cfg key := by
    intro c₁ out index mem absent present
    rw [State.remoteAssocFind, index, ← State.remoteAssocFind] at absent present
    rw [State.farValue]
    cases found : c.remoteAssocFind cfg key with
    | none =>
      rw [absent found]
      rfl
    | some r =>
      rw [present r found]
      simp [getRemoteItem, mem]
  unfold State.valueOf processBinGetOrTouch
  dsimp only
  generalize doItemGet cfg c key (some false) = got at move
  cases move with
  | absent missing =>
    rw [lookup_eq_none_of_assocFind missing, Option.map_none, Option.none_or]
    exact remote c _ rfl rfl (fun found => by rw [found]) fun r found => by rw [found]
  | dead it found dead =>
    have missed : c.lookup cfg key = none := lookup_eq_none_of_dead found dead
    rw [missed, Option.map_none, Option.none_or]
    exact remote (doItemUnlink cfg c it) _ rfl rfl (fun found => by rw [found]) fun r found => by
      rw [found]
  | alive it found alive quiet => cases quiet
  | marked it bumped found alive quiet =>
    rw [lookup_eq_some_iff.mpr ⟨found, alive⟩]
    exact congrArg some (markFetched_fields cfg c.currentTime it bumped).2.2.1

theorem lookup_link (it : Item) : (doItemLink cfg c it).lookup cfg it.key
    = if c.bornDead cfg it.exptime then none
      else some { it with
        time := c.currentTime, cas := if cfg.useCas then c.casId + 1 else 0 } := by
  have found := (assocFind_link cfg c it it.key).trans (if_pos rfl)
  have judged : isDead (doItemLink cfg c it) { it with
      time := c.currentTime, cas := if cfg.useCas then c.casId + 1 else 0 }
      = c.bornDead cfg it.exptime := rfl
  cases dead : c.bornDead cfg it.exptime with
  | true => exact lookup_eq_none_of_dead found (judged.trans dead)
  | false => exact lookup_eq_some_iff.mpr ⟨found, judged.trans dead⟩

/-- A get after a local link answers the new item, or the remote index if it was born dead. -/
theorem valueOf_link (cfg : Settings) (c : State) (it : Item) :
    (doItemLink cfg c it).valueOf cfg it.key
      = if c.bornDead cfg it.exptime then c.farValue cfg it.key else some it.value := by
  have far : (doItemLink cfg c it).farValue cfg it.key = c.farValue cfg it.key := rfl
  rw [valueOf_eq, lookup_link, far]
  split <;> simp

/-- A get after a remote store answers the live local item, and only without one the new
value. -/
theorem valueOf_storeRemote (r : RemoteItem) (it : Item) :
    (storeRemote cfg c r it).valueOf cfg it.key
      = some (((c.lookup cfg it.key).map Item.value).getD it.value) := by
  have same : (storeRemote cfg c r it).lookup cfg it.key = c.lookup cfg it.key :=
    lookup_congr (show (storeRemote cfg c r it).assoc = c.assoc from rfl) rfl rfl rfl it.key
  have far : (storeRemote cfg c r it).farValue cfg it.key = some it.value := by
    rw [State.farValue, remoteAssocFind_store, if_pos rfl, Option.map_some]
    exact congrArg (fun stored : Item => some stored.value) (Function.update_self ..)
  rw [valueOf_eq, same, far]
  cases c.lookup cfg it.key <;> simp

/-! ### The local store -/

/-- A local store that stores: what it links, and from which state. -/
structure Placed (cfg : Settings) (c c₁ : State) (it newIt : Item) (comm : Nread) : Prop where
  frame : Frame c c₁
  key : newIt.key = it.key
  value : newIt.value = comm.result ((c.lookup cfg it.key).map Item.value) it.value
  expiry : newIt.exptime = comm.expiry ((c.lookup cfg it.key).map Item.exptime) it.exptime

variable {it old : Item} {comm : Nread} {pulls : List Pull}

theorem placed_direct (frame : Frame c c') (direct : comm.joins = false) :
    Placed cfg c c' it it comm := by
  refine ⟨frame, rfl, ?_, ?_⟩ <;> cases comm <;> first | rfl | cases direct

theorem joinItem_stored (live : c.lookup cfg it.key = some old) (joins : comm.joins = true)
    (joinable : Joinable cfg c comm it.key it.value it.cas pulls old) :
    ∃ c₁ newIt, joinItem cfg c it old comm pulls = (.stored, doItemLink cfg c₁ newIt) ∧
      Placed cfg c c₁ it newIt comm := by
  obtain ⟨compared, room⟩ := joinable
  have frame := doItemAlloc_frame cfg c (some it.key) pulls it.key
    (storeItemCopyData comm old.value it.value) old.flags old.exptime
  obtain ⟨newIt, served⟩ := Option.isSome_iff_exists.mp room
  obtain ⟨newKey, newValue, -, newExpiry⟩ := doItemAlloc_fields served
  unfold joinItem
  rw [if_neg (by omega)]
  generalize doItemAlloc cfg c (some it.key) pulls it.key
    (storeItemCopyData comm old.value it.value) old.flags old.exptime = got at frame served
  obtain ⟨answer, c₁⟩ := got
  cases served
  refine ⟨doItemUnlink cfg c₁ old, newIt, rfl, frame.trans (frame_unlink c₁ old),
    newKey, ?_, ?_⟩
  · rw [newValue, live]
    cases comm <;> first | rfl | cases joins
  · rw [newExpiry, live]
    cases comm <;> first | rfl | cases joins

theorem joinable_of_stored (stored : (joinItem cfg c it old comm pulls).1 = .stored) :
    Joinable cfg c comm it.key it.value it.cas pulls old := by
  unfold joinItem at stored
  split at stored
  · cases stored
  · next compared =>
    refine ⟨by omega, ?_⟩
    split at stored
    · cases stored
    · next served => rw [served]; rfl

theorem doStoreItem_of_missing (missed : c.lookup cfg it.key = none) (comm : Nread)
    (pulls : List Pull) : ∃ c₁, Frame c c₁ ∧ doStoreItem cfg c it comm pulls =
      match comm with
      | .set => (.stored, doItemLink cfg c₁ it)
      | .add => (.stored, doItemLink cfg c₁ it)
      | .cas => (.notFound, c₁)
      | _ => (.notStored, c₁) := by
  have move := doItemGet_move cfg c it.key none
  unfold doStoreItem
  rw [State.lookup] at missed
  generalize doItemGet cfg c it.key none = got at move missed
  cases move with
  | absent missing => exact ⟨c, .refl c, by cases comm <;> rfl⟩
  | dead old found dead =>
    exact ⟨doItemUnlink cfg c old, frame_unlink c old, by cases comm <;> rfl⟩
  | alive old found alive quiet => cases missed
  | marked old bumped found alive quiet => cases quiet

theorem doStoreItem_of_live (live : c.lookup cfg it.key = some old) (comm : Nread)
    (pulls : List Pull) : doStoreItem cfg c it comm pulls =
      match comm with
      | .set => (.stored, doItemReplace cfg c old it)
      | .replace => (.stored, doItemReplace cfg c old it)
      | .cas => if it.cas = old.cas then (.stored, doItemReplace cfg c old it) else (.exists, c)
      | .add => (.notStored, c.modify cfg it.key (doItemUpdate cfg c.currentTime))
      | comm => joinItem cfg c it old comm pulls := by
  have move := doItemGet_move cfg c it.key none
  unfold doStoreItem
  rw [State.lookup] at live
  generalize doItemGet cfg c it.key none = got at move live
  cases move with
  | absent missing => cases live
  | dead old' found dead => cases live
  | alive old' found alive quiet =>
    cases live
    cases comm <;> rfl
  | marked old' bumped found alive quiet => cases quiet

theorem doStoreItem_stored (accepts : comm.Accepts cfg c it.key it.value it.cas pulls) :
    ∃ c₁ newIt, doStoreItem cfg c it comm pulls = (.stored, doItemLink cfg c₁ newIt) ∧
      Placed cfg c c₁ it newIt comm := by
  unfold Nread.Accepts at accepts
  cases live : c.lookup cfg it.key with
  | none =>
    obtain ⟨c₁, frame, eq⟩ := doStoreItem_of_missing live comm pulls
    rw [eq]
    cases comm with
    | set | add => exact ⟨c₁, it, rfl, placed_direct frame rfl⟩
    | replace | append | prepend | cas => simp [live] at accepts
  | some old =>
    have unlinked : Frame c (doItemUnlink cfg c old) := frame_unlink c old
    rw [doStoreItem_of_live live comm pulls]
    cases comm with
    | set | replace => exact ⟨_, it, rfl, placed_direct unlinked rfl⟩
    | cas =>
      simp only [live] at accepts
      exact ⟨_, it, if_pos accepts, placed_direct unlinked rfl⟩
    | add => simp [live] at accepts
    | append | prepend =>
      simp only [live] at accepts
      exact joinItem_stored live rfl accepts

theorem accepts_of_stored (stored : (doStoreItem cfg c it comm pulls).1 = .stored) :
    comm.Accepts cfg c it.key it.value it.cas pulls := by
  unfold Nread.Accepts
  cases live : c.lookup cfg it.key with
  | none =>
    obtain ⟨c₁, -, eq⟩ := doStoreItem_of_missing live comm pulls
    rw [eq] at stored
    cases comm with
    | set | add => trivial
    | replace | append | prepend | cas => cases stored
  | some old =>
    rw [doStoreItem_of_live live comm pulls] at stored
    cases comm with
    | set | replace => trivial
    | cas =>
      dsimp only at stored
      split at stored
      · next same => exact same
      · cases stored
    | add => cases stored
    | append | prepend => exact joinable_of_stored stored

/-! ### The comparison -/

theorem completeUpdateBin_stored (plain : it.rIt = none)
    (accepts : comm.Accepts cfg c it.key it.value it.cas pulls) :
    ∃ c₁ newIt, completeUpdateBin cfg c it comm pulls = (.stored, doItemLink cfg c₁ newIt) ∧
      Placed cfg c c₁ it newIt comm := by
  obtain ⟨c₁, newIt, eq, placed⟩ := doStoreItem_stored accepts
  unfold completeUpdateBin
  simp only [plain, eq]
  split
  · exact ⟨c₁, newIt, rfl, placed⟩
  · exact ⟨doSlabsFree c₁ it, newIt, rfl,
      { placed with frame := placed.frame.trans (frame_free c₁ it) }⟩

theorem completeUpdateBin_accepts (plain : it.rIt = none)
    (stored : (completeUpdateBin cfg c it comm pulls).1 = .stored) :
    comm.Accepts cfg c it.key it.value it.cas pulls := by
  unfold completeUpdateBin at stored
  simp only [plain] at stored
  exact accepts_of_stored stored

theorem Frame.bornDead (frame : Frame c c') (exptime : Nat) :
    c'.bornDead cfg exptime = c.bornDead cfg exptime := by
  simp only [State.bornDead, itemIsFlushed, isExpired, frame.clock, frame.casId,
    frame.oldestLive, frame.oldestCas]

theorem Placed.valueOf {c₁ : State} {newIt : Item} (placed : Placed cfg c c₁ it newIt comm) :
    (doItemLink cfg c₁ newIt).valueOf cfg it.key
      = if c.bornDead cfg (comm.expiry ((c.lookup cfg it.key).map Item.exptime) it.exptime)
        then c.farValue cfg it.key
        else some (comm.result ((c.lookup cfg it.key).map Item.value) it.value) := by
  have far : c₁.farValue cfg it.key = c.farValue cfg it.key := by
    rw [State.farValue, placed.frame.remoteAssocFind, placed.frame.mem, ← State.farValue]
  have read := valueOf_link cfg c₁ newIt
  rwa [placed.key, placed.expiry, placed.value, placed.frame.bornDead, far] at read

/-- A command changes nothing in the live item exactly if it joins nothing or writes the same
value again. -/
theorem Nread.result_eq_self_iff (comm : Nread) (old added : Bytes) :
    comm.result (some old) added = old ↔ added = if comm.joins then [] else old := by
  cases comm <;> simp [Nread.result, Nread.joins]

/-- The two reads agree: after the local store the new item or, if it was born dead, the
remote index; after the remote store the live local item or else the new value. -/
theorem placeIrrelevant_iff {req : Request} : PlaceIrrelevant cfg c req pulls ↔
      (req.nread cfg).Accepts cfg c req.key req.value (req.casOf cfg) pulls ∧
        (if c.bornDead cfg (req.expiry cfg c.currentTime
            ((c.lookup cfg req.key).map Item.exptime)) then c.farValue cfg req.key
          else some (req.result ((c.lookup cfg req.key).map Item.value)))
        = some (((c.lookup cfg req.key).map Item.value).getD req.value) := by
  unfold PlaceIrrelevant
  rw [← Request.nread_result cfg]
  cases live : c.lookup cfg req.key with
  | none =>
    have accepts : (req.nread cfg).Accepts cfg c req.key req.value (req.casOf cfg) pulls ↔
        req.nread cfg = .set ∨ req.nread cfg = .add := by
      unfold Nread.Accepts
      rw [live]
      cases req.nread cfg <;> simp
    rw [accepts]
    refine and_congr_right fun direct => ?_
    have plain : (req.nread cfg).result none req.value = req.value := by
      rcases direct with direct | direct <;> rw [direct] <;> rfl
    simp only [Option.map_none, Option.getD_none, plain]
    split <;> simp_all
  | some old =>
    refine and_congr_right fun _ => ?_
    simp only [Option.map_some, Option.getD_some]
    split
    · rfl
    · rw [Option.some_inj, Nread.result_eq_self_iff]

/-- **The place of the chunk matters, except where `PlaceIrrelevant` holds.** For every cache,
request, class, chunk and remote slot: the local and the remote path of `complete_update_bin`
have the same outcome and leave the same value under the key if and only if the key has no
live local item and the command is a SET or ADD, or it has one that the command accepts and
does not change, up to items that would be dead at once. -/
theorem conditional_store_agrees_iff (cfg : Settings) (c : State) (req : Request) (clsid time : Nat)
    (r : RemoteItem) (pulls : List Pull) :
    (completeUpdateBin cfg c (requestItem cfg c.currentTime clsid req ⟨none, time⟩)
          (req.nread cfg) pulls).1
        = (completeUpdateBin cfg c (requestItem cfg c.currentTime clsid req ⟨some r, 0⟩)
          (req.nread cfg) pulls).1 ∧
      (completeUpdateBin cfg c (requestItem cfg c.currentTime clsid req ⟨none, time⟩)
          (req.nread cfg) pulls).2.valueOf cfg req.key
        = (completeUpdateBin cfg c (requestItem cfg c.currentTime clsid req ⟨some r, 0⟩)
          (req.nread cfg) pulls).2.valueOf cfg req.key ↔
    PlaceIrrelevant cfg c req pulls := by
  have there : completeUpdateBin cfg c (requestItem cfg c.currentTime clsid req ⟨some r, 0⟩)
      (req.nread cfg) pulls = (.stored,
        storeRemote cfg c r (requestItem cfg c.currentTime clsid req ⟨some r, 0⟩)) := rfl
  have far : (storeRemote cfg c r
      (requestItem cfg c.currentTime clsid req ⟨some r, 0⟩)).valueOf cfg req.key
      = some (((c.lookup cfg req.key).map Item.value).getD req.value) := valueOf_storeRemote r _
  rw [there, far, placeIrrelevant_iff]
  generalize here : requestItem cfg c.currentTime clsid req ⟨none, time⟩ = it
  have plain : it.rIt = none := by rw [← here]; rfl
  have key : it.key = req.key := by rw [← here]; rfl
  have value : it.value = req.value := by rw [← here]; rfl
  have cas : it.cas = req.casOf cfg := by rw [← here]; rfl
  have expiry : it.exptime = (req.header cfg c.currentTime).2 := by rw [← here]; rfl
  -- what a local store that stores leaves, in terms of the request
  have near : ∀ {c₁ newIt}, Placed cfg c c₁ it newIt (req.nread cfg) →
      (doItemLink cfg c₁ newIt).valueOf cfg req.key
        = if c.bornDead cfg (req.expiry cfg c.currentTime
            ((c.lookup cfg req.key).map Item.exptime)) then c.farValue cfg req.key
          else some (req.result ((c.lookup cfg req.key).map Item.value)) := by
    intro c₁ newIt placed
    have read := placed.valueOf
    rwa [key, value, expiry, Request.nread_expiry, Request.nread_result] at read
  constructor
  · rintro ⟨outcome, same⟩
    have accepts := completeUpdateBin_accepts plain outcome
    obtain ⟨c₁, newIt, eq, placed⟩ := completeUpdateBin_stored plain accepts
    rw [eq, near placed] at same
    rw [key, value, cas] at accepts
    exact ⟨accepts, same⟩
  · rintro ⟨accepts, same⟩
    rw [← key, ← value, ← cas] at accepts
    obtain ⟨c₁, newIt, eq, placed⟩ := completeUpdateBin_stored plain accepts
    rw [eq, near placed]
    exact ⟨rfl, same⟩

/-- A cache that holds 10 under key 1, in a local chunk, with the page of a peer attached. -/
def oneLocalItem : State :=
  (Run.exec (step plainSettings) freshWorld [remotePage, setValue 1 10 true 0]).elim
    freshWorld.cache World.cache

/-- The outcome of a store of 11 under key 1 into that cache, and the value read afterwards. -/
def storeEleven (cmd : Command) (chunk : Chunk) : StoreItemType × Option Bytes :=
  let req : Request := { cmd, key := [1], value := [11] }
  let (ret, c) := completeUpdateBin plainSettings oneLocalItem
    (requestItem plainSettings oneLocalItem.currentTime 1 req chunk) (req.nread plainSettings) []
  (ret, c.valueOf plainSettings [1])

/-- An ADD of the key is refused in a local chunk and answered STORED in a remote slot; a
REPLACE is stored in both, and a get reads the new value or the old one. -/
theorem conditional_store_depends_on_place : storeEleven .add ⟨none, 0⟩ = (.notStored, some [10]) ∧
    storeEleven .add ⟨some { slot := ⟨1, 0, 4096⟩ }, 0⟩ = (.stored, some [10]) ∧
    storeEleven .replace ⟨none, 0⟩ = (.stored, some [11]) ∧
    storeEleven .replace ⟨some { slot := ⟨1, 0, 4096⟩ }, 0⟩ = (.stored, some [10]) := by
  decide +kernel

end MemExchange.Cache
