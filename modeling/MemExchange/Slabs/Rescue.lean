import MemExchange.Slabs.Upkeep

/-!
# What the mover does to the chunks

The mover takes chunks from the free list, copies an item or a part of one to a fresh chunk, and
throws out what it cannot keep. What a request finds under a key is the same afterwards, if the item
was not thrown out.
-/
namespace MemExchange.Evacuation

open Memory
open Function (update_of_ne update_self update_apply update_eq_self update_idem update)

variable {refs : Chunk → Nat} {s : Memory}

/-! ### An item -/

theorem foldl_repoint (new : Chunk) (l : List Chunk) (s : Memory) :
    let t := l.foldl (fun s c => s.modify c fun i => { i with role := .chunk new }) s
    t.book = s.book ∧ t.slots = s.slots ∧ t.assoc = s.assoc ∧
      ∀ y, t.items y = if y ∈ l then { s.items y with role := .chunk new } else s.items y := by
  induction l generalizing s with
  | nil => simp
  | cons x l ih =>
    obtain ⟨book, slots, assoc, items⟩ := ih (s.modify x fun i => { i with role := .chunk new })
    refine ⟨book, slots, assoc, fun y => ?_⟩
    rw [List.foldl_cons, items y, modify_items]
    by_cases same : y = x
    · subst same
      by_cases later : y ∈ l <;> simp [later]
    · by_cases later : y ∈ l <;> simp [same, later]

/-- From `s` to `t`, the item at `it` has gone to `new` with its chain. -/
structure Rescued (it new : Chunk) (s t : Memory) : Prop where
  book : t.book = s.book
  slots : t.slots = s.slots
  assoc : t.assoc = update s.assoc (s.items it).key (some new)
  gone : t.items it = { s.items it with role := .cleared, refcount := 0, chunks := [] }
  copy : t.items new = { s.items it with role := .linked, refcount := 1 }
  parts : ∀ c ∈ (s.items it).chunks, t.items c = { s.items c with role := .chunk new }
  others : ∀ y, y ≠ it → y ≠ new → y ∉ (s.items it).chunks → t.items y = s.items y

variable {it new : Chunk} {p : Nat} {t : Memory} {k : Bytes}

theorem Sound.rescue_spec (sound : Sound refs s) (linked : (s.items it).role = .linked)
    (mine : refs it = 1) (fresh : (s.items new).role = .plain) :
    Rescued it new s (s.rescue it new) := by
  have other : new ≠ it := by
    rintro rfl
    simp [linked] at fresh
  have two : (s.items it).refcount = 2 := by
    rw [sound.count it (by simp [linked, Role.isItem_linked]), linked, mine]
    rfl
  -- the copy is linked in the place of the item
  have replaced : ((s.modify new fun _ =>
      { s.items it with role := .plain, refcount := 0 }).doItemUnlink it).doItemLink new =
      { s with
        items := update (update s.items it
          { s.items it with role := .plain, refcount := 1 }) new
          { s.items it with role := .linked, refcount := 1 }
        assoc := update s.assoc (s.items it).key (some new) } := by
    simp only [Memory.doItemLink, Memory.modify, Memory.doItemUnlink, ne_eq, other.symm,
      not_false_eq_true, update_of_ne, linked, ↓reduceIte, Memory.doItemRemove, two,
      update_self, refcountDecr, Nat.reducePow, Nat.add_one_sub_one, Nat.reduceAdd,
      Nat.reduceMod, update_idem, Nat.succ_ne_self, refcountIncr, other, Nat.zero_add,
      Nat.one_mod, mk.injEq, and_self, and_true]
    rw [Function.update_comm other, update_idem]
  have own := sound.not_mem_own it
  have apart : new ∉ (s.items it).chunks := sound.not_mem_chunks it (by simp [fresh])
  unfold Memory.rescue
  dsimp only
  rw [replaced]
  have chain : (update (update s.items it
      { s.items it with role := .plain, refcount := 1 }) new
      { s.items it with role := .linked, refcount := 1 } new).chunks = (s.items it).chunks := by
    rw [update_self]
  rw [chain]
  obtain ⟨book, slots, assoc, items⟩ := foldl_repoint new (s.items it).chunks
    { s with
      items := update (update s.items it
        { s.items it with role := .plain, refcount := 1 }) new
        { s.items it with role := .linked, refcount := 1 }
      assoc := update s.assoc (s.items it).key (some new) }
  refine ⟨book, slots, assoc, ?_, ?_, fun c mem => ?_, fun y notOld notNew notPart => ?_⟩
  · simp [Memory.clear, items, own, other.symm]
  · simp [Memory.clear, modify_of_ne _ _ _ other, items, apart]
  · have notOld : c ≠ it := fun same => own (same ▸ mem)
    have notNew : c ≠ new := fun same => apart (same ▸ mem)
    simp [Memory.clear, modify_of_ne _ _ _ notOld, items, mem, notOld, notNew]
  · simp [Memory.clear, modify_of_ne _ _ _ notOld, items, notPart, notOld, notNew]

theorem Sound.rescue (sound : Sound refs s) (linked : (s.items it).role = .linked)
    (mine : refs it = 1) (fresh : (s.items new).role = .plain) (chain : (s.items new).chunks = []) :
    Sound (update (update refs it 0) new 0) (s.rescue it new) := by
  have other : new ≠ it := by
    rintro rfl
    simp [linked] at fresh
  have moved := sound.rescue_spec linked mine fresh
  generalize s.rescue it new = t at moved
  have own := sound.not_mem_own it
  have apart : ∀ h, new ∉ (s.items h).chunks := fun h => sound.not_mem_chunks h (by simp [fresh])
  have owner : t.owner = s.owner := congrArg (·.1) moved.book
  have cut : t.cut = s.cut := congrArg (·.2.1) moved.book
  have part : ∀ {x}, x ∈ (s.items it).chunks → (s.items x).role = .chunk it :=
    fun {x} => (sound.chunk x it).mpr
  -- every chunk is the old header, the new one, a part, or none of these
  have split : ∀ x, x = it ∨ x = new ∨ (x ≠ it ∧ x ≠ new ∧ x ∈ (s.items it).chunks) ∨
      (x ≠ it ∧ x ≠ new ∧ x ∉ (s.items it).chunks) := by
    intro x
    by_cases x = it <;> by_cases x = new <;> by_cases x ∈ (s.items it).chunks <;> simp [*]
  have chains : ∀ h, (t.items h).chunks =
      if h = it then [] else if h = new then (s.items it).chunks else (s.items h).chunks := by
    intro h
    rcases split h with rfl | rfl | ⟨notOld, notNew, mem⟩ | ⟨notOld, notNew, mem⟩
    · simp [moved.gone]
    · simp [moved.copy, other]
    · simp [moved.parts h mem, notOld, notNew]
    · simp [moved.others h notOld notNew mem, notOld, notNew]
  refine sound_of_told (fun c => moved.slots ▸ sound.nodup c) (fun x h => ?_) fun x => ?_
  · rw [chains]
    rcases split x with rfl | rfl | ⟨notOld, notNew, mem⟩ | ⟨notOld, notNew, mem⟩
    · have alone : ∀ h, x ∉ (s.items h).chunks := fun h => sound.not_mem_chunks h (by simp [linked])
      rw [moved.gone]
      split
      · simp
      · split <;> simp [alone]
    · rw [moved.copy]
      split
      · simp
      · split <;> simp [apart]
    · rw [moved.parts x mem]
      split
      · next same => simp [same, other]
      · next notHead =>
        split
        · next same => simp [same, mem]
        · next notCopy =>
          rw [← sound.chunk, part mem]
          simp [Ne.symm notCopy, Ne.symm notHead]
    · rw [moved.others x notOld notNew mem, sound.chunk]
      split
      · next same => simp [same, mem]
      · split
        · next same => simp [same, chain, mem]
        · rfl
  have mineOnly := (sound.assoc _ it).mpr ⟨linked, rfl⟩
  have table : ∀ k, t.assoc k = some x ↔
      if (s.items it).key = k then x = new else s.assoc k = some x := by
    intro k
    rw [moved.assoc, update_apply]
    simp only [eq_comm (a := k)]
    split <;> simp [eq_comm]
  rcases split x with rfl | rfl | ⟨notOld, notNew, mem⟩ | ⟨notOld, notNew, mem⟩
  · rw [update_of_ne other.symm, update_self]
    constructor <;> simp [moved.gone, moved.slots, sound.slots, linked, table, sound.assoc, other.symm]
  · have placed := sound.placed x (by simp [fresh])
    rw [update_self]
    constructor <;> simp [moved.copy, moved.slots, sound.slots, fresh, table, sound.assoc, owner, cut,
      placed, sound.distinct, Role.isItem_linked, Role.links]
  · have placed := sound.placed x (by simp [part mem])
    rw [update_of_ne notNew, update_of_ne notOld,
      sound.refs_eq_zero (x := x) (by simp [part mem])]
    constructor <;> simp [moved.parts x mem, moved.slots, sound.slots, part mem, table, sound.assoc,
      owner, cut, placed, notNew, sound.chunks_eq_nil (x := x) (by simp [part mem])]
  · rw [update_of_ne notNew, update_of_ne notOld]
    refine (sound.told x).frame (moved.others x notOld notNew mem) moved.book
      (fun c => by rw [moved.slots]) fun k => ?_
    rw [table]
    split
    · next same => simp [← same, mineOnly, notNew, Ne.symm notOld]
    · rfl

/-! ### A part of a large item -/

/-- From `s` to `t`, the part `ch` of the item at `it` has gone to `new`. -/
structure Swapped (it ch new : Chunk) (s t : Memory) : Prop where
  book : t.book = s.book
  slots : t.slots = s.slots
  assoc : t.assoc = s.assoc
  head : t.items it = { s.items it with
    refcount := 1
    chunks := (s.items it).chunks.map fun c => if c = ch then new else c }
  gone : t.items ch = { s.items ch with role := .cleared, refcount := 0, chunks := [] }
  copy : t.items new = s.items ch
  others : ∀ y, y ≠ it → y ≠ ch → y ≠ new → t.items y = s.items y

theorem Sound.rescueChunk_spec (sound : Sound refs s) {ch : Chunk}
    (linked : (s.items it).role = .linked) (mine : refs it = 1)
    (part : (s.items ch).role = .chunk it) (fresh : (s.items new).role = .plain) :
    Swapped it ch new s (s.rescueChunk it ch new) := by
  have two : (s.items it).refcount = 2 := by
    rw [sound.count it (by simp [linked, Role.isItem_linked]), linked, mine]
    rfl
  have headNew : it ≠ new := by
    rintro rfl
    simp [linked] at fresh
  have headPart : it ≠ ch := by
    rintro rfl
    simp [linked] at part
  have partNew : ch ≠ new := by
    rintro rfl
    simp [part] at fresh
  refine ⟨rfl, rfl, rfl, ?_, ?_, ?_, fun y notHead notPart notNew => ?_⟩
  · simp [Memory.rescueChunk, Memory.clear, modify_of_ne _ _ _ headPart,
      modify_of_ne _ _ _ headNew, two, refcountDecr]
  · simp [Memory.rescueChunk, Memory.clear, modify_of_ne _ _ _ headPart.symm,
      modify_of_ne _ _ _ partNew]
  · simp [Memory.rescueChunk, Memory.clear, modify_of_ne _ _ _ headNew.symm,
      modify_of_ne _ _ _ partNew.symm]
  · simp [Memory.rescueChunk, Memory.clear, modify_of_ne _ _ _ notHead, modify_of_ne _ _ _ notPart,
      modify_of_ne _ _ _ notNew]

theorem Sound.rescueChunk (sound : Sound refs s) {ch : Chunk}
    (linked : (s.items it).role = .linked) (mine : refs it = 1)
    (part : (s.items ch).role = .chunk it) (fresh : (s.items new).role = .plain)
    (chain : (s.items new).chunks = []) :
    Sound (update (update refs it 0) new 0) (s.rescueChunk it ch new) := by
  have swapped := sound.rescueChunk_spec linked mine part fresh
  generalize s.rescueChunk it ch new = t at swapped
  have headNew : it ≠ new := by
    rintro rfl
    simp [linked] at fresh
  have partNew : ch ≠ new := by
    rintro rfl
    simp [part] at fresh
  have inside := (sound.chunk ch it).mp part
  have noParts : (s.items ch).chunks = [] := sound.chunks_eq_nil (by simp [part])
  have apart : ∀ h, new ∉ (s.items h).chunks := fun h => sound.not_mem_chunks h (by simp [fresh])
  have owner : t.owner = s.owner := congrArg (·.1) swapped.book
  have cut : t.cut = s.cut := congrArg (·.2.1) swapped.book
  have split : ∀ x, x = it ∨ x = ch ∨ x = new ∨ (x ≠ it ∧ x ≠ ch ∧ x ≠ new) := by
    intro x
    by_cases x = it <;> by_cases x = ch <;> by_cases x = new <;> simp [*]
  -- in every chain, `new` is where `ch` was
  have chains : ∀ x h, x ∈ (t.items h).chunks ↔
      if x = new then h = it else x ≠ ch ∧ x ∈ (s.items h).chunks := by
    intro x h
    have elsewhere : h ≠ it → ch ∉ (s.items h).chunks := by
      intro notHead mem
      have role := (sound.chunk ch h).mpr mem
      rw [part, Role.chunk.injEq] at role
      exact notHead role.symm
    rcases split h with rfl | rfl | rfl | ⟨notHead, notPart, notNew⟩
    · rw [swapped.head, List.mem_map]
      constructor
      · rintro ⟨c, mem, rfl⟩
        by_cases same : c = ch
        · simp [same]
        · have notNew : c ≠ new := fun same => apart h (same ▸ mem)
          simp [same, notNew, mem]
      · split
        · next same => exact fun _ => ⟨ch, inside, by simp [same]⟩
        · exact fun mem => ⟨x, mem.2, if_neg mem.1⟩
    · have notHead : h ≠ it := fun same => by simp [same, linked] at part
      simp [swapped.gone, noParts, notHead]
    · simp [swapped.copy, noParts, chain, headNew.symm]
    · rw [swapped.others h notHead notPart notNew]
      split
      · next same => simp [same, apart h, notHead]
      · refine (and_iff_right_of_imp fun mem same => elsewhere notHead ?_).symm
        rwa [same] at mem
  refine sound_of_told (fun c => swapped.slots ▸ sound.nodup c) (fun x h => ?_) fun x => ?_
  · rw [chains]
    rcases split x with rfl | rfl | rfl | ⟨notHead, notPart, notNew⟩
    · simp [swapped.head, linked, headNew, sound.not_mem_chunks (x := x) h (by simp [linked])]
    · simp [swapped.gone, partNew]
    · simp [swapped.copy, part, eq_comm]
    · simp [swapped.others x notHead notPart notNew, notNew, notPart, sound.chunk]
  rcases split x with rfl | rfl | rfl | ⟨notHead, notPart, notNew⟩
  · have placed := sound.placed x (by simp [linked])
    have distinct : ((s.items x).chunks.map fun c => if c = ch then new else c).Nodup := by
      refine (sound.distinct x).map_on fun a memA b memB same => ?_
      have notA : a ≠ new := fun same => apart x (same ▸ memA)
      have notB : b ≠ new := fun same => apart x (same ▸ memB)
      by_cases isA : a = ch <;> by_cases isB : b = ch <;> simp_all
    rw [update_of_ne headNew, update_self]
    constructor <;> simp [swapped.head, swapped.slots, swapped.assoc, sound.slots, sound.assoc, linked,
      owner, cut, placed, distinct, Role.isItem_linked, Role.links]
  · have notHead : x ≠ it := fun same => by simp [same, linked] at part
    rw [update_of_ne partNew, update_of_ne notHead,
      sound.refs_eq_zero (x := x) (by simp [part])]
    constructor <;> simp [swapped.gone, swapped.slots, swapped.assoc, sound.slots, sound.assoc, part]
  · have placed := sound.placed x (by simp [fresh])
    rw [update_self]
    constructor <;> simp [swapped.copy, swapped.slots, swapped.assoc, sound.slots, sound.assoc, fresh,
      part, noParts, owner, cut, placed]
  · rw [update_of_ne notNew, update_of_ne notHead]
    exact (sound.told x).frame (swapped.others x notHead notPart notNew) swapped.book
      (fun c => by rw [swapped.slots]) fun k => by rw [swapped.assoc]

/-! ### Chunks for the copies -/

/-- What `slab_rebalance_alloc` leaves and returns -/
structure Provided (c page perslab : Nat) (refs : Chunk → Nat) (s : Memory)
    (r : Option Chunk × Memory) : Prop where
  sound : Sound (match r.1 with | none => refs | some x => update refs x 1) r.2
  book : r.2.book = s.book
  assoc : r.2.assoc = s.assoc
  items : ∀ x, (s.items x).role ≠ .slabbed → r.2.items x = s.items x
  fresh : ∀ x ∈ r.1, (s.items x).role = .slabbed ∧ s.owner x.page = c ∧
    ¬ (x.page = page ∧ x.index < perslab) ∧ (r.2.items x).role = .plain ∧ (r.2.items x).chunks = []

theorem Sound.rebalanceAlloc (c page perslab tries : Nat) (sound : Sound refs s) :
    Provided c page perslab refs s (rebalanceAlloc c page perslab tries s) := by
  induction tries generalizing s with
  | zero => exact ⟨sound, rfl, rfl, fun _ _ => rfl, by simp [Memory.rebalanceAlloc]⟩
  | succ tries ih =>
    unfold Memory.rebalanceAlloc
    split
    · exact ⟨sound, rfl, rfl, fun _ _ => rfl, by simp⟩
    next x t called =>
    obtain ⟨⟨taken, touched, assoc⟩, free, owner, plain, chain⟩ := sound.slabsAlloc called
    have alone := sound.role_ne_chunk (x := x) (by simp [free])
    have items : ∀ y, (s.items y).role ≠ .slabbed → t.items y = s.items y := by
      intro y notFree
      exact touched.items y (fun same => notFree (same ▸ free)) (alone y)
    split
    · -- the chunk is in the page: it is marked, and the next one is tried
      obtain ⟨cleared, frame⟩ := taken.clear plain chain
      rw [update_idem, ← sound.refs_eq_zero (x := x) (by simp [free]),
        update_eq_self] at cleared
      have rest := ih cleared
      have later : ∀ y, (s.items y).role ≠ .slabbed → (t.clear x).items y = s.items y := by
        intro y notFree
        rw [frame.items y (fun same => notFree (same ▸ free)) (by rw [items y notFree]; exact alone y),
          items y notFree]
      refine ⟨rest.sound, rest.book.trans (frame.book.trans touched.book),
        rest.assoc.trans assoc, fun y notFree => ?_, fun y mem => ?_⟩
      · rw [rest.items y (by rwa [later y notFree]), later y notFree]
      · obtain ⟨role, own, outside⟩ := rest.fresh y mem
        rw [frame.owner, touched.owner] at own
        refine ⟨?_, own, outside⟩
        by_contra notFree
        rw [later y notFree] at role
        exact notFree role
    · next outside =>
      exact ⟨taken, touched.book, assoc, items, by
        rintro y ⟨⟩
        exact ⟨free, owner, outside, plain, chain⟩⟩

theorem Sound.throwOut (sound : Sound refs s) (linked : (s.items it).role = .linked)
    (mine : refs it = 1) : Sound (update refs it 0) (s.throwOut it) ∧ Touched it s (s.throwOut it) ∧
      (s.throwOut it).assoc = update s.assoc (s.items it).key none := by
  obtain ⟨out, touched⟩ := sound.delinked linked
  have unlinked := sound.doItemUnlink_eq linked
  rw [mine, if_neg (by decide)] at unlinked
  rw [mine] at out touched
  obtain ⟨freed, frame⟩ := out.slabsFree it (by simp [Memory.delinked])
  unfold Memory.throwOut
  rw [unlinked]
  exact ⟨freed, touched.trans frame, (foldl_giveBack _ _).2.1⟩

/-! ### A page is cut anew -/

theorem split_book (s : Memory) (cfg : Config) (p c sizee : Nat) :
    (s.split cfg p c sizee).book = (update s.owner p c,
      update s.cut p (sizee / cfg.size c), s.base, s.mapped, s.slabList, s.pages) :=
  (foldl_giveBack _ _).1

theorem split_assoc (s : Memory) (cfg : Config) (p c sizee : Nat) :
    (s.split cfg p c sizee).assoc = s.assoc := (foldl_giveBack _ _).2.1

theorem split_items (s : Memory) (cfg : Config) (p c sizee : Nat) {x : Chunk} (other : x.page ≠ p) :
    (s.split cfg p c sizee).items x = s.items x := by
  refine ((foldl_giveBack _ _).2.2.1 x).trans ?_
  have outside : x ∉ (List.range (sizee / cfg.size c)).map (Chunk.mk p) := by
    intro mem
    obtain ⟨i, -, rfl⟩ := List.mem_map.mp mem
    exact other rfl
  rw [if_neg outside]
  exact if_neg other

theorem Sound.rebook (sound : Sound refs s) (c n : Nat)
    (empty : ∀ x, x.page = p → (s.items x).role = .cleared) :
    Sound refs { s with owner := update s.owner p c, cut := update s.cut p n } := by
  have other : ∀ {x : Chunk}, (s.items x).role ≠ .cleared → x.page ≠ p :=
    fun {x} used here => used (empty x here)
  refine { sound with slots := fun d x => (sound.slots d x).trans ?_, placed := fun x used => ?_ }
  · refine and_congr_right fun free => ?_
    dsimp only
    rw [update_of_ne (other (x := x) (by simp [free]))]
  · dsimp only
    rw [update_of_ne (other used), update_of_ne (other used)]
    exact sound.placed x used

theorem Sound.zero (sound : Sound refs s) (empty : ∀ x, x.page = p → (s.items x).role = .cleared) :
    Sound refs { s with items := fun x => if x.page = p then {} else s.items x } := by
  have unused : ∀ x, x.page = p → refs x = 0 := fun x here => sound.refs_eq_zero (by simp [empty x here])
  have chains : ∀ x, x.page = p → (s.items x).chunks = [] := fun x here =>
    sound.chunks_eq_nil (by simp [empty x here])
  refine sound_of_told sound.nodup (fun x h => ?_) fun x => ?_
  · have told := sound.chunk x h
    dsimp only
    split <;> split <;> simp_all
  by_cases here : x.page = p
  · rw [unused x here]
    constructor <;> simp [here, sound.slots, sound.assoc, empty x here]
  · exact (sound.told x).frame (if_neg here) rfl (fun _ => .rfl) fun _ => .rfl

theorem Sound.split {c : Nat} (sound : Sound refs s) (cfg : Config) (sizee : Nat)
    (empty : ∀ x, x.page = p → (s.items x).role = .cleared) (real : 1 ≤ c) :
    Sound refs (s.split cfg p c sizee) := by
  have zeroed : Sound refs { s with
      items := fun x => if x.page = p then {} else s.items x
      owner := update s.owner p c
      cut := update s.cut p (sizee / cfg.size c) } :=
    (sound.zero empty).rebook c _ fun x here => by simp [here]
  refine zeroed.giveBack ?_ ?_ ?_ ?_ ?_ ?_
  · refine List.nodup_range.map fun i j same => ?_
    simpa using same
  · intro x mem
    obtain ⟨i, -, rfl⟩ := List.mem_map.mp mem
    simp
  · intro x mem
    obtain ⟨i, inside, rfl⟩ := List.mem_map.mp mem
    simpa using ⟨List.mem_range.mp inside, real⟩
  · intro x h chained
    have head := zeroed.heads h (List.ne_nil_of_mem chained)
    have role := (zeroed.chunk x h).mpr chained
    dsimp only at head role
    have notHere : x.page ≠ p := fun here => by simp [here] at role
    have headElsewhere : h.page ≠ p := fun here => by simp [here] at head
    constructor
    · intro mem
      obtain ⟨i, -, rfl⟩ := List.mem_map.mp mem
      exact absurd rfl notHere
    · intro mem
      obtain ⟨i, -, rfl⟩ := List.mem_map.mp mem
      exact absurd rfl headElsewhere
  · intro x mem
    obtain ⟨i, -, rfl⟩ := List.mem_map.mp mem
    exact sound.refs_eq_zero (by simp [empty])
  · exact fun _ _ => rfl

/-! ### What a request finds -/

theorem find_congr (here : s.assoc k = some it) (assoc : t.assoc k = some it)
    (head : t.items it = s.items it) (parts : ∀ c ∈ (s.items it).chunks, t.items c = s.items c) :
    t.find k = s.find k := by
  unfold Memory.find
  rw [here, assoc]
  simp only [Option.map_some, head, Option.some.injEq, Prod.mk.injEq, true_and]
  congr 1
  exact List.flatMap_congr fun c mem => by rw [parts c mem]

theorem Sound.find_touched (sound : Sound refs s) {y : Chunk} (touched : Touched y s t)
    (assoc : t.assoc k = s.assoc k) (apart : ∀ h, (s.items y).role ≠ .chunk h)
    (other : s.assoc k ≠ some y) : t.find k = s.find k := by
  cases here : s.assoc k with
  | none => simp [Memory.find, here, assoc]
  | some it =>
    rw [here] at assoc other
    have notY : it ≠ y := fun same => other (by rw [same])
    obtain ⟨linked, -⟩ := (sound.assoc k it).mp here
    refine find_congr here assoc (touched.items it notY (by simp [linked])) fun c mem => ?_
    have role := (sound.chunk c it).mpr mem
    refine touched.items c (fun same => apart it (same ▸ role)) ?_
    rw [role]
    simpa using notY

theorem find_refcount (s : Memory) (x : Chunk) (n : Nat) (k : Bytes) :
    (s.modify x fun i => { i with refcount := n }).find k = s.find k := by
  have same : ∀ y, let i := (s.modify x fun i => { i with refcount := n }).items y
      i.flags = (s.items y).flags ∧ i.exptime = (s.items y).exptime ∧
        i.data = (s.items y).data ∧ i.chunks = (s.items y).chunks := by
    intro y
    rw [modify_items]
    split
    · next here => simp [here]
    · simp
  unfold Memory.find
  simp only [same]
  rfl

theorem Sound.find_rescue (sound : Sound refs s) (linked : (s.items it).role = .linked)
    (mine : refs it = 1) (fresh : (s.items new).role = .plain) (k : Bytes) :
    (s.rescue it new).find k = s.find k := by
  have moved := sound.rescue_spec linked mine fresh
  generalize s.rescue it new = t at moved
  by_cases taken : k = (s.items it).key
  · -- the copy is found, with the same parts
    have before : s.assoc k = some it := (sound.assoc k it).mpr ⟨linked, taken.symm⟩
    have after : t.assoc k = some new := by rw [moved.assoc, taken, update_self]
    unfold Memory.find
    rw [before, after]
    simp only [Option.map_some, moved.copy, Option.some.injEq, Prod.mk.injEq, true_and]
    congr 1
    exact List.flatMap_congr fun c mem => by rw [moved.parts c mem]
  · have assoc : t.assoc k = s.assoc k := by rw [moved.assoc, update_of_ne taken]
    cases here : s.assoc k with
    | none => simp [Memory.find, here, assoc]
    | some other =>
      obtain ⟨role, key⟩ := (sound.assoc k other).mp here
      have notIt : other ≠ it := fun same => taken (by rw [← key, same])
      refine find_congr here (assoc.trans here) (moved.others other notIt ?_ ?_) fun c mem => ?_
      · rintro rfl
        simp [role] at fresh
      · exact sound.not_mem_chunks it (by simp [role])
      · have part := (sound.chunk c other).mpr mem
        refine moved.others c ?_ ?_ fun mine => ?_
        · rintro rfl
          simp [part] at linked
        · rintro rfl
          simp [part] at fresh
        · rw [(sound.chunk c it).mpr mine, Role.chunk.injEq] at part
          exact notIt part.symm

theorem Sound.find_rescueChunk (sound : Sound refs s) {ch : Chunk}
    (linked : (s.items it).role = .linked) (mine : refs it = 1)
    (part : (s.items ch).role = .chunk it) (fresh : (s.items new).role = .plain) (k : Bytes) :
    (s.rescueChunk it ch new).find k = s.find k := by
  have swapped := sound.rescueChunk_spec linked mine part fresh
  generalize s.rescueChunk it ch new = t at swapped
  cases here : s.assoc k with
  | none => simp [Memory.find, here, swapped.assoc]
  | some other =>
    have assoc : t.assoc k = some other := by rw [swapped.assoc, here]
    -- a chunk that is no item and not `ch` is where it was
    have stays : ∀ c h, (s.items c).role = .chunk h → c ≠ ch → t.items c = s.items c := by
      intro c h role notPart
      refine swapped.others c ?_ notPart ?_
      · rintro rfl
        simp [role] at linked
      · rintro rfl
        simp [role] at fresh
    by_cases same : other = it
    · subst same
      unfold Memory.find
      rw [here, assoc]
      simp only [Option.map_some, swapped.head, Option.some.injEq, Prod.mk.injEq, true_and]
      congr 1
      rw [List.flatMap_map]
      refine List.flatMap_congr fun c mem => ?_
      by_cases moved : c = ch
      · simp [moved, swapped.copy]
      · simp [moved, stays c other ((sound.chunk c other).mpr mem) moved]
    · obtain ⟨role, -⟩ := (sound.assoc k other).mp here
      refine find_congr here assoc (swapped.others other same ?_ ?_) fun c mem => ?_
      · rintro rfl
        simp [role] at part
      · rintro rfl
        simp [role] at fresh
      · have belongs := (sound.chunk c other).mpr mem
        refine stays c other belongs fun moved => ?_
        rw [moved, part, Role.chunk.injEq] at belongs
        exact same belongs.symm

theorem Provided.find {c page perslab : Nat} {r : Option Chunk × Memory}
    (provided : Provided c page perslab refs s r) (sound : Sound refs s) (k : Bytes) :
    r.2.find k = s.find k := by
  cases here : s.assoc k with
  | none => simp [Memory.find, here, provided.assoc]
  | some it =>
    obtain ⟨linked, -⟩ := (sound.assoc k it).mp here
    refine find_congr here (by rw [provided.assoc, here]) (provided.items it (by simp [linked]))
      fun c mem => provided.items c ?_
    rw [(sound.chunk c it).mpr mem]
    simp

end MemExchange.Evacuation
