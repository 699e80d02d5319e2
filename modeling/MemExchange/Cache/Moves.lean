import MemExchange.Cache.Trim

/-!
# The outcomes of a command

Inversion of the commands, stated once. A store is refused, and then only trims; or it links
a new local item under a key that is not indexed at that moment; or it writes to a remote
slot. A get misses, answers the live local item, or answers a remote slot.
-/
namespace MemExchange.Cache

variable {cfg : Settings} {c c' : State}

/-! ### Releasing an item -/

variable {it old : Item} {key : Bytes} {comm : Nread}

theorem Allocated.freed {locked : Option Bytes} (got : Allocated cfg c c' locked it.rIt) :
    Trimmed cfg c (doSlabsFree c' it) :=
  { got.trimmed with
    spare := fun l => (spare_doSlabsFree c' l it).trans (got.taken l) }

theorem Trimmed.freed (trim : Trimmed cfg c c') (plain : it.rIt = none) :
    Trimmed cfg c (doSlabsFree c' it) :=
  { trim with
    spare := fun l => by
      have freed := spare_doSlabsFree c' l it
      rw [plain, held_none] at freed
      exact freed.trans (trim.spare l) }

/-! ### The live item of a key -/

theorem lookup_eq_some_iff :
    c.lookup cfg key = some it ↔ c.assocFind cfg key = some it ∧ isDead c it = false := by
  have move := doItemGet_move cfg c key none
  rw [State.lookup]
  generalize doItemGet cfg c key none = got at move
  cases move with
  | absent missing => simp [missing]
  | dead it' found dead =>
    constructor
    · intro answered
      cases answered
    · rintro ⟨same, alive⟩
      rw [found] at same
      cases same
      simp [dead] at alive
  | alive it' found alive quiet =>
    constructor
    · intro answered
      cases answered
      exact ⟨found, alive⟩
    · rintro ⟨same, -⟩
      exact found.symm.trans same
  | marked it' bumped found alive quiet => cases quiet

theorem lookup_eq_none_of_assocFind (missing : c.assocFind cfg key = none) :
    c.lookup cfg key = none := by
  cases answered : c.lookup cfg key with
  | none => rfl
  | some it =>
    simp [(lookup_eq_some_iff.mp answered).1] at missing

theorem lookup_eq_none_of_dead (found : c.assocFind cfg key = some it) (dead : isDead c it = true) :
    c.lookup cfg key = none := by
  cases answered : c.lookup cfg key with
  | none => rfl
  | some it' =>
    obtain ⟨found', alive⟩ := lookup_eq_some_iff.mp answered
    rw [found] at found'
    cases found'
    simp [dead] at alive

theorem lookup_congr (index : c'.assoc = c.assoc) (clock : c'.currentTime = c.currentTime)
    (live : c'.oldestLive = c.oldestLive) (cas : c'.oldestCas = c.oldestCas) (key : Bytes) :
    c'.lookup cfg key = c.lookup cfg key := by
  refine Option.ext fun it => ?_
  rw [lookup_eq_some_iff, lookup_eq_some_iff, State.assocFind, State.assocFind, index,
    isDead_congr clock live cas]

theorem Trimmed.lookup (trim : Trimmed cfg c c') {it' : Item}
    (now : c'.lookup cfg key = some it') :
    ∃ it, c.lookup cfg key = some it ∧ it'.value = it.value ∧ it'.exptime = it.exptime := by
  obtain ⟨found', alive'⟩ := lookup_eq_some_iff.mp now
  obtain ⟨it, found, kept⟩ := trim.found key it' found'
  rw [trim.isDead] at alive'
  rcases kept with rfl | ⟨alive, value, expiry, -⟩
  · exact ⟨it', lookup_eq_some_iff.mpr ⟨found, alive'⟩, rfl, rfl⟩
  · exact ⟨it, lookup_eq_some_iff.mpr ⟨found, alive⟩, value, expiry⟩

/-! ### Stores into a local chunk -/

/-- The value an `NREAD_*` store leaves, given the live item's. -/
def Nread.result (comm : Nread) (found : Option Bytes) (added : Bytes) : Bytes :=
  match comm with
  | .append => found.getD [] ++ added
  | .prepend => added ++ found.getD []
  | _ => added

def Nread.expiry (comm : Nread) (found : Option Nat) (exptime : Nat) : Nat :=
  match comm with
  | .append => found.getD 0
  | .prepend => found.getD 0
  | _ => exptime

/-- The item a local store links in place of what the key held, seen from the state before
the store. -/
structure Linking (cfg : Settings) (c c₁ : State) (it newIt : Item) (comm : Nread) : Prop where
  trimmed : Trimmed cfg c c₁
  absent : c₁.assocFind cfg it.key = none
  key : newIt.key = it.key
  live : comm.joins = true → (c.lookup cfg it.key).isSome
  value : newIt.value = comm.result ((c.lookup cfg it.key).map Item.value) it.value
  expiry : newIt.exptime = comm.expiry ((c.lookup cfg it.key).map Item.exptime) it.exptime
  taken : ∀ l, c₁.spare l + held l newIt.rIt ≤ c.spare l

inductive StoreMove (cfg : Settings) (c : State) (it : Item) (comm : Nread) :
    StoreItemType × State → Prop
  | refused (ret : StoreItemType) (c₁ : State) (answer : ret ≠ .stored)
      (trim : Trimmed cfg c c₁) : StoreMove cfg c it comm (ret, c₁)
  | linked (c₁ : State) (newIt : Item) (link : Linking cfg c c₁ it newIt comm) :
      StoreMove cfg c it comm (.stored, doItemLink cfg c₁ newIt)

theorem storeMove_replace (single : c.Single cfg) (plain : it.rIt = none)
    (found : c.assocFind cfg it.key = some old) (direct : comm.joins = false) :
    StoreMove cfg c it comm (.stored, doItemReplace cfg c old it) := by
  have key := assocFind_key found
  have trim := unlink_trimmed single (by rw [key]; exact found)
  refine .linked _ it ⟨trim, ?_, rfl, by simp [direct], ?_, ?_, fun l => ?_⟩
  · rw [← key]
    exact assocFind_unlink single old
  · cases comm <;> first | rfl | cases direct
  · cases comm <;> first | rfl | cases direct
  · rw [plain, held_none]
    exact trim.spare l

theorem storeMove_link (plain : it.rIt = none) (trim : Trimmed cfg c c')
    (absent : c'.assocFind cfg it.key = none) (direct : comm.joins = false) :
    StoreMove cfg c it comm (.stored, doItemLink cfg c' it) := by
  refine .linked _ it ⟨trim, absent, rfl, by simp [direct], ?_, ?_, fun l => ?_⟩
  · cases comm <;> first | rfl | cases direct
  · cases comm <;> first | rfl | cases direct
  · rw [plain, held_none]
    exact trim.spare l

/-- The joined item takes the place of the one it extends. The allocation in between cannot
evict that one: its lock is held. -/
theorem joinItem_move (single : c.Single cfg) (pulls : List Pull)
    (live : c.lookup cfg it.key = some old) (joins : comm.joins = true) :
    StoreMove cfg c it comm (joinItem cfg c it old comm pulls) := by
  obtain ⟨found, alive⟩ := lookup_eq_some_iff.mp live
  have key := assocFind_key found
  unfold joinItem
  split
  · exact .refused _ _ (by decide) (.refl c)
  · have got := doItemAlloc_allocated single (some it.key) pulls it.key
      (storeItemCopyData comm old.value it.value) old.flags old.exptime
    have fields : ∀ {newIt}, (doItemAlloc cfg c (some it.key) pulls it.key
        (storeItemCopyData comm old.value it.value) old.flags old.exptime).1 = some newIt → _ :=
      fun served => doItemAlloc_fields served
    generalize doItemAlloc cfg c (some it.key) pulls it.key
      (storeItemCopyData comm old.value it.value) old.flags old.exptime = served at got fields
    obtain ⟨answer, c₁⟩ := served
    cases answer with
    | none => exact .refused _ _ (by decide) got.trimmed
    | some newIt =>
      obtain ⟨newKey, newValue, -, newExpiry⟩ := fields rfl
      have got : Allocated cfg c c₁ (some it.key) newIt.rIt := got
      have found₁ : c₁.assocFind cfg old.key = some old := by
        rw [key]
        exact (got.keeps it.key rfl).trans found
      have single₁ := got.trimmed.single single
      have unlinked := unlink_trimmed single₁ found₁
      refine .linked _ newIt
        ⟨got.trimmed.trans unlinked, ?_, newKey, by simp [live], ?_, ?_, fun l => ?_⟩
      · rw [← key]
        exact assocFind_unlink single₁ old
      · rw [newValue, live]
        cases comm <;> first | rfl | cases joins
      · rw [newExpiry, live]
        cases comm <;> first | rfl | cases joins
      · have taken := got.taken l
        have freed := unlinked.spare l
        omega

theorem doStoreItem_move (single : c.Single cfg) (comm : Nread) (pulls : List Pull)
    (plain : it.rIt = none) : StoreMove cfg c it comm (doStoreItem cfg c it comm pulls) := by
  have move := doItemGet_move cfg c it.key none
  have trim := doItemGet_trimmed single it.key none
  unfold doStoreItem
  generalize doItemGet cfg c it.key none = got at move trim
  cases move with
  | absent missing =>
    cases comm with
    | add | set => exact storeMove_link plain (.refl c) missing rfl
    | replace | append | prepend | cas => exact .refused _ _ (by decide) (.refl c)
  | dead old found dead =>
    have key := assocFind_key found
    have missing : (doItemUnlink cfg c old).assocFind cfg it.key = none := by
      rw [← key]
      exact assocFind_unlink single old
    cases comm with
    | add | set => exact storeMove_link plain trim missing rfl
    | replace | append | prepend | cas => exact .refused _ _ (by decide) trim
  | alive old found alive quiet =>
    have live := lookup_eq_some_iff.mpr ⟨found, alive⟩
    cases comm with
    | add =>
      refine .refused _ _ (by decide) (modify_trimmed _ (fun old => ?_) fun old' found' => ?_)
      · have same := doItemUpdate_fields cfg c.currentTime old
        exact ⟨same.1, same.2.1⟩
      · rw [found] at found'
        cases found'
        exact .inr ⟨alive, (doItemUpdate_fields cfg c.currentTime old).2.2⟩
    | set | replace => exact storeMove_replace single plain found rfl
    | append | prepend => exact joinItem_move single pulls live rfl
    | cas =>
      dsimp only
      split
      · exact storeMove_replace single plain found rfl
      · exact .refused _ _ (by decide) (.refl c)
  | marked old bumped found alive quiet => cases quiet

/-- The reference `complete_update_bin` releases at its end frees no chunk with a slot. -/
theorem completeUpdateBin_move (single : c.Single cfg) (comm : Nread) (pulls : List Pull)
    (plain : it.rIt = none) : StoreMove cfg c it comm (completeUpdateBin cfg c it comm pulls) := by
  have move := doStoreItem_move single comm pulls plain
  unfold completeUpdateBin
  simp only [plain]
  generalize doStoreItem cfg c it comm pulls = got at move
  cases move with
  | refused ret c₁ answer trim =>
    have freed : (if ret = .stored ∧ ¬ comm.joins then c₁ else doSlabsFree c₁ it)
        = doSlabsFree c₁ it := if_neg fun both => answer both.1
    rw [freed]
    exact .refused _ _ answer (trim.freed plain)
  | linked c₁ newIt link =>
    dsimp only
    split
    · exact .linked c₁ newIt link
    · -- linking and freeing touch different fields, so the order does not matter
      refine .linked (doSlabsFree c₁ it) newIt
        { link with trimmed := link.trimmed.freed plain, taken := fun l => ?_ }
      have freed := spare_doSlabsFree c₁ l it
      have taken := link.taken l
      rw [plain, held_none] at freed
      omega

/-- The value and expiry time a local store leaves do not depend on what an allocation
before it trimmed: if the store joins, the item it extends was alive all along. -/
theorem Linking.result_of_trimmed {c₁ c₂ : State} {newIt : Item}
    (link : Linking cfg c₁ c₂ it newIt comm) (trim : Trimmed cfg c c₁) :
    newIt.value = comm.result ((c.lookup cfg it.key).map Item.value) it.value ∧
      newIt.exptime = comm.expiry ((c.lookup cfg it.key).map Item.exptime) it.exptime := by
  rw [link.value, link.expiry]
  cases joins : comm.joins with
  | false => cases comm <;> first | exact ⟨rfl, rfl⟩ | cases joins
  | true =>
    obtain ⟨old, here⟩ := Option.isSome_iff_exists.mp (link.live joins)
    obtain ⟨before, was, value, expiry⟩ := trim.lookup here
    simp only [here, was, Option.map_some, value, expiry, and_self]

/-! ### Store commands -/

/-- What a store command does, seen from the state before it. -/
inductive UpdateMove (cfg : Settings) (c : State) (req : Request) (choice : Choice) :
    Option Status × State → Prop
  | refused (answer : Option Status) (c₁ : State) (failed : answer ≠ some .success)
      (trim : Trimmed cfg c c₁) : UpdateMove cfg c req choice (answer, c₁)
  | near (c₁ : State) (newIt : Item) (served : c.servedBy cfg req choice = some none)
      (trim : Trimmed cfg c c₁) (absent : c₁.assocFind cfg req.key = none)
      (key : newIt.key = req.key)
      (value : newIt.value = req.result ((c.lookup cfg req.key).map Item.value))
      (expiry : newIt.exptime
        = req.expiry cfg c.currentTime ((c.lookup cfg req.key).map Item.exptime))
      (taken : ∀ l, c₁.spare l + held l newIt.rIt ≤ c.spare l) :
      UpdateMove cfg c req choice (some .success, doItemLink cfg c₁ newIt)
  | far (c₁ : State) (r : RemoteItem) (it : Item)
      (served : c.servedBy cfg req choice = some (some r)) (trim : Trimmed cfg c c₁)
      (key : it.key = req.key) (value : it.value = req.value)
      (expiry : it.exptime = (req.header cfg c.currentTime).2)
      (taken : ∀ l, c₁.spare l + held l (some r) ≤ c.spare l) :
      UpdateMove cfg c req choice (some .success, storeRemote cfg c₁ r it)

theorem storeStatus_ne_success (comm : Nread) {ret : StoreItemType} (refused : ret ≠ .stored) :
    storeStatus comm ret ≠ .success := by
  cases ret <;> cases comm <;> simp_all [storeStatus]

theorem Request.nread_result (cfg : Settings) (req : Request) (found : Option Bytes) :
    (req.nread cfg).result found req.value = req.result found := by
  unfold Request.nread Request.result
  cases req.cmd <;> dsimp only <;> (try split) <;> rfl

theorem Request.nread_expiry (req : Request) (now : Nat) (found : Option Nat) :
    (req.nread cfg).expiry found (req.header cfg now).2 = req.expiry cfg now found := by
  unfold Request.nread Request.expiry Request.header
  cases req.cmd <;> dsimp only <;> (try split) <;> rfl

theorem storeFailed_move (single : c.Single cfg) (req : Request) :
    (storeFailed cfg c req).1 ≠ .success ∧ Trimmed cfg c (storeFailed cfg c req).2 := by
  have failed : (if itemSizeOk cfg c req.key.length (req.header cfg c.currentTime).1
      (req.value.length + 2) then Status.enomem else .e2big) ≠ .success := by
    split <;> decide
  unfold storeFailed
  dsimp only
  split
  · have move := doItemGet_move cfg c req.key none
    have trim := doItemGet_trimmed single req.key none
    generalize doItemGet cfg c req.key none = got at move trim
    cases move with
    | absent missing => exact ⟨failed, trim⟩
    | dead old found dead => exact ⟨failed, trim⟩
    | alive old found alive quiet =>
      exact ⟨failed, unlink_trimmed single (by rw [assocFind_key found]; exact found)⟩
    | marked old bumped found alive quiet => cases quiet
  · exact ⟨failed, .refl c⟩

theorem allocRequest_fields {req : Request} {pulls : List Pull}
    (served : (allocRequest cfg c req pulls).1 = some it) :
    it.key = req.key ∧ it.value = req.value ∧
      it.exptime = (req.header cfg c.currentTime).2 := by
  unfold allocRequest at served
  dsimp only at served
  split at served
  · cases served
  · next made c₁ allocated =>
    have fields := doItemAlloc_fields (congrArg Prod.fst allocated)
    cases served
    exact ⟨fields.1, fields.2.1, fields.2.2.2⟩

theorem allocRequest_allocated (single : c.Single cfg) (req : Request) (pulls : List Pull) :
    Allocated cfg c (allocRequest cfg c req pulls).2 none
      ((allocRequest cfg c req pulls).1.bind Item.rIt) := by
  have got := doItemAlloc_allocated single none pulls req.key req.value
    (req.header cfg c.currentTime).1 (req.header cfg c.currentTime).2
  unfold allocRequest
  dsimp only
  split
  · next c₁ allocated =>
    rwa [allocated] at got
  · next made c₁ allocated =>
    rwa [allocated] at got

/-- What a binary update can do to the cache. -/
theorem processBinUpdate_move (single : c.Single cfg) (req : Request) (choice : Choice) :
    UpdateMove cfg c req choice (processBinUpdate cfg c req choice) := by
  have got := allocRequest_allocated single req choice.alloc
  have fields : ∀ {it}, (allocRequest cfg c req choice.alloc).1 = some it → _ :=
    fun served => allocRequest_fields served
  have place : c.servedBy cfg req choice
      = (allocRequest cfg c req choice.alloc).1.map Item.rIt := rfl
  unfold processBinUpdate
  generalize allocRequest cfg c req choice.alloc = served at got fields place
  obtain ⟨answer, c₁⟩ := served
  have single₁ := got.trimmed.single single
  cases answer with
  | none =>
    have move := storeFailed_move single₁ req
    exact .refused _ _ (fun same => move.1 (Option.some.inj same)) (got.trimmed.trans move.2)
  | some it =>
    have got : Allocated cfg c c₁ none it.rIt := got
    have place : c.servedBy cfg req choice = some it.rIt := place
    obtain ⟨key, value, expiry⟩ := fields rfl
    dsimp only
    split
    · cases mine : it.rIt with
      | some r =>
        have stored : completeUpdateBin cfg c₁ it (req.nread cfg) choice.join
            = (.stored, storeRemote cfg c₁ r it) := by simp only [completeUpdateBin, mine]
        rw [stored]
        exact .far c₁ r it (by rw [place, mine]) got.trimmed key value expiry
          (by rw [← mine]; exact got.taken)
      | none =>
        have move := completeUpdateBin_move single₁ (req.nread cfg) choice.join mine
        generalize completeUpdateBin cfg c₁ it (req.nread cfg) choice.join = done at move
        cases move with
        | refused ret c₂ answer trim =>
          have failed := storeStatus_ne_success (req.nread cfg) answer
          exact .refused _ _ (fun same => failed (Option.some.inj same)) (got.trimmed.trans trim)
        | linked c₂ newIt link =>
          have same := link.result_of_trimmed got.trimmed
          refine .near c₂ newIt (by rw [place, mine]) (got.trimmed.trans link.trimmed)
            (key ▸ link.absent) (link.key.trans key) ?_ ?_
            (fun l => (link.taken l).trans (got.trimmed.spare l))
          · rw [same.1, key, value, Request.nread_result]
          · rw [same.2, key, expiry, Request.nread_expiry]
    · exact .refused _ _ (by decide) got.freed

/-! ### Gets and deletes -/

/-- What a get or touch does. A touch that hits a local item also sets its expiry time. -/
inductive ReadMove (cfg : Settings) (c : State) (key : Bytes) (touch : Option Nat) :
    Option Item × State → Prop
  | miss (c₁ : State) (trim : Trimmed cfg c c₁) (missed : c.lookup cfg key = none) :
      ReadMove cfg c key touch (none, c₁)
  | near (c₁ : State) (it answer : Item) (trim : Trimmed cfg c c₁)
      (live : c.lookup cfg key = some it) (value : answer.value = it.value)
      (quiet : touch = none) : ReadMove cfg c key touch (some answer, c₁)
  | touched (c₁ : State) (it answer : Item) (exptime : Nat) (trim : Trimmed cfg c c₁)
      (live : c.lookup cfg key = some it) (indexed : c₁.assocFind cfg key ≠ none)
      (value : answer.value = it.value) (asked : touch = some exptime) :
      ReadMove cfg c key touch (some answer, c₁.modify cfg key fun it =>
        { it with exptime := realtime cfg c.currentTime exptime })
  | far (c₁ : State) (r : RemoteItem) (trim : Trimmed cfg c c₁) (missed : c.lookup cfg key = none)
      (found : c.remoteAssocFind cfg key = some r) :
      ReadMove cfg c key touch (some (c.remoteMem r.slot), c₁)

section

variable (single : c.Single cfg)
include single

theorem doItemGet_bumped (key : Bytes) (bumped : Bool) :
    (∃ c₁, doItemGet cfg c key (some bumped) = (none, c₁) ∧ Trimmed cfg c c₁ ∧
      c.lookup cfg key = none) ∨
    (∃ it answer c₁, doItemGet cfg c key (some bumped) = (some answer, c₁) ∧ Trimmed cfg c c₁ ∧
      c.lookup cfg key = some it ∧ c₁.assocFind cfg key ≠ none ∧ answer.value = it.value) := by
  have move := doItemGet_move cfg c key (some bumped)
  have trim := doItemGet_trimmed single key (some bumped)
  generalize doItemGet cfg c key (some bumped) = got at move trim
  cases move with
  | absent missing => exact .inl ⟨_, rfl, trim, lookup_eq_none_of_assocFind missing⟩
  | dead it found dead => exact .inl ⟨_, rfl, trim, lookup_eq_none_of_dead found dead⟩
  | alive it found alive quiet => cases quiet
  | marked it bumped found alive quiet =>
    have same := markFetched_fields cfg c.currentTime it bumped
    refine .inr ⟨it, _, _, rfl, trim, lookup_eq_some_iff.mpr ⟨found, alive⟩, ?_, same.2.2.1⟩
    rw [assocFind_modify _ key key fun it => (markFetched_fields cfg c.currentTime it bumped).1,
      if_pos rfl, found]
    exact Option.some_ne_none _

/-- What a binary get or touch can do to the cache. -/
theorem processBinGetOrTouch_move (key : Bytes) (touch : Option Nat) (bumped completes : Bool) :
    ReadMove cfg c key touch (processBinGetOrTouch cfg c key touch bumped completes) := by
  -- the part after a local miss is the same for a get and for a touch
  have remote : ∀ c₁ out, Trimmed cfg c c₁ → c.lookup cfg key = none →
      (c₁.remoteAssocFind cfg key = none → out = (none, c₁)) →
      (∀ r, c₁.remoteAssocFind cfg key = some r → out = (getRemoteItem c₁ r completes, c₁)) →
      ReadMove cfg c key touch out := by
    intro c₁ out trim missed absent present
    rw [trim.remoteAssocFind key] at absent present
    cases found : c.remoteAssocFind cfg key with
    | none =>
      rw [absent found]
      exact .miss c₁ trim missed
    | some r =>
      rw [present r found]
      cases completes with
      | false => exact .miss c₁ trim missed
      | true =>
        have read : getRemoteItem c₁ r true = some (c.remoteMem r.slot) := by
          simp [getRemoteItem, trim.mem]
        simp only [read]
        exact .far c₁ r trim missed found
  unfold processBinGetOrTouch
  rcases doItemGet_bumped single key bumped with
    ⟨c₁, got, trim, missed⟩ | ⟨it, answer, c₁, got, trim, live, indexed, value⟩
  · cases touch with
    | none =>
      simp only [got]
      exact remote c₁ _ trim missed (fun found => by rw [found]) fun r found => by rw [found]
    | some exptime =>
      simp only [doItemTouch, got]
      exact remote c₁ _ trim missed (fun found => by rw [found]) fun r found => by rw [found]
  · cases touch with
    | none =>
      simp only [got]
      exact .near c₁ it answer trim live value rfl
    | some exptime =>
      simp only [doItemTouch, got]
      exact .touched c₁ it _ exptime trim live indexed value rfl

theorem readBy_cases {op : Op} {answer : Item} (read : c.readBy cfg op = some (key, answer)) :
    (∃ it, c.lookup cfg key = some it ∧ answer.value = it.value) ∨
      (∃ r, c.remoteAssocFind cfg key = some r ∧ answer = c.remoteMem r.slot) := by
  cases op with
  | get key' touch bumped completes =>
    have move := processBinGetOrTouch_move single key' touch bumped completes
    simp only [State.readBy] at read
    generalize processBinGetOrTouch cfg c key' touch bumped completes = got at move read
    cases move with
    | miss c₁ trim missed => cases read
    | near c₁ it answer' trim live value quiet
    | touched c₁ it answer' exptime trim live indexed value asked =>
      cases read
      exact .inl ⟨it, live, value⟩
    | far c₁ r trim missed found =>
      cases read
      exact .inr ⟨r, found, rfl⟩
  | store | delete | flush | tick | evict | bump | shuffle | attach => cases read

/-- A delete that succeeds leaves no item of the key. -/
theorem processBinDelete_move (key : Bytes) (cas : Nat) :
    Trimmed cfg c (processBinDelete cfg c key cas).2 ∧
      ((processBinDelete cfg c key cas).1 = .success →
        c.assocFind cfg key ≠ none ∧
          (processBinDelete cfg c key cas).2.assocFind cfg key = none) := by
  have move := doItemGet_move cfg c key none
  have trim := doItemGet_trimmed single key none
  unfold processBinDelete
  generalize doItemGet cfg c key none = got at move trim
  cases move with
  | absent missing | dead it found dead => exact ⟨trim, fun answer => by cases answer⟩
  | alive it found alive quiet =>
    have itKey := assocFind_key found
    dsimp only
    split
    · refine ⟨unlink_trimmed single (by rw [itKey]; exact found), fun _ => ⟨by simp [found], ?_⟩⟩
      rw [← itKey]
      exact assocFind_unlink single it
    · exact ⟨trim, fun answer => by cases answer⟩
  | marked it bumped found alive quiet => cases quiet

end

theorem processBinFlush_fields (cfg : Settings) (c : State) (exptime : Nat) :
    ∃ casId oldestLive oldestCas, c.casId ≤ casId ∧
      (processBinFlush cfg c exptime).2 = { c with casId, oldestLive, oldestCas } := by
  unfold processBinFlush
  dsimp only
  repeat' split
  all_goals first
    | exact ⟨_, _, _, Nat.le_succ _, rfl⟩
    | exact ⟨_, _, _, Nat.le_refl _, rfl⟩

end MemExchange.Cache
