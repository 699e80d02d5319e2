import MemExchange.Slabs.Evacuation

/-!
# What the chunks of the pages agree on

Every chunk is in the free list of its class, or an item, or a part of one, or emptied. `Sound` says
that the free lists, the table and the chains of large items tell the same as the headers do, and
that the refcount of an item counts the references to it.
-/
namespace MemExchange.Evacuation

open Function (update_of_ne update_self update_eq_self update_idem update)

def Role.IsItem (r : Role) : Prop := r = .plain ∨ r = .linked

theorem Role.isItem_plain : Role.plain.IsItem := .inl rfl

theorem Role.isItem_linked : Role.linked.IsItem := .inr rfl

@[simp] theorem Role.not_isItem_slabbed : ¬ Role.slabbed.IsItem := by simp [Role.IsItem]

@[simp] theorem Role.not_isItem_cleared : ¬ Role.cleared.IsItem := by simp [Role.IsItem]

@[simp] theorem Role.not_isItem_chunk (h : Chunk) : ¬ (Role.chunk h).IsItem := by
  simp [Role.IsItem]

def Role.links : Role → Nat
  | .linked => 1
  | _ => 0

theorem Role.links_le (r : Role) : r.links ≤ 1 := by
  cases r <;> simp [Role.links]

variable {n : Nat} {refs : Chunk → Nat} {s : Memory}

theorem refcountIncr_of_lt (few : n + 1 < 2 ^ 16) : refcountIncr n = n + 1 :=
  Nat.mod_eq_of_lt few

theorem refcountDecr_succ (few : n < 2 ^ 16) : refcountDecr (n + 1) = n := by
  unfold refcountDecr
  omega

namespace Memory

/-- Everything but the chunks: where the pages are and whose they are -/
def book (s : Memory) :=
  (s.owner, s.cut, s.base, s.mapped, s.slabList, s.pages)

section Modify

variable (s) (x : Chunk) (f : Item → Item)

@[simp] theorem modify_self : (s.modify x f).items x = f (s.items x) := update_self ..

theorem modify_of_ne {y : Chunk} (other : y ≠ x) : (s.modify x f).items y = s.items y :=
  update_of_ne other ..

theorem modify_items (y : Chunk) :
    (s.modify x f).items y = if y = x then f (s.items x) else s.items y := by
  split
  · next same => rw [same, modify_self]
  · next other => exact modify_of_ne s x f other

end Modify

/-- From `s` to `t`, only the chunk `y` and those that belonged to it have changed. -/
structure Touched (y : Chunk) (s t : Memory) : Prop where
  book : t.book = s.book
  items : ∀ x, x ≠ y → (s.items x).role ≠ .chunk y → t.items x = s.items x

theorem touched_modify (s : Memory) (y : Chunk) (f : Item → Item) : Touched y s (s.modify y f) :=
  ⟨rfl, fun _ other _ => modify_of_ne s y f other⟩

section Touched

variable {t u : Memory} {y : Chunk}

theorem Touched.owner (touched : Touched y s t) : t.owner = s.owner :=
  congrArg (·.1) touched.book

theorem Touched.cut (touched : Touched y s t) : t.cut = s.cut :=
  congrArg (·.2.1) touched.book

theorem Touched.trans (first : Touched y s t) (second : Touched y t u) : Touched y s u := by
  refine ⟨second.book.trans first.book, fun x other apart => ?_⟩
  have same := first.items x other apart
  rw [second.items x other (by rwa [same]), same]

end Touched

/-- A linked item out of the table, with `n` references left -/
def delinked (s : Memory) (it : Chunk) (n : Nat) : Memory :=
  { s.modify it fun i => { i with role := .plain, refcount := n } with
    assoc := update s.assoc (s.items it).key none }

/-! ### Giving back a number of chunks -/

theorem foldl_giveBack (l : List Chunk) (s : Memory) :
    (l.foldl giveBack s).book = s.book ∧ (l.foldl giveBack s).assoc = s.assoc ∧
      (∀ y, (l.foldl giveBack s).items y =
        if y ∈ l then { s.items y with role := .slabbed, chunks := [] } else s.items y) ∧
      ∀ c, (l.foldl giveBack s).slots c
        = (l.filter fun y => s.owner y.page = c).reverse ++ s.slots c := by
  induction l generalizing s with
  | nil => simp
  | cons x l ih =>
    obtain ⟨book, assoc, items, slots⟩ := ih (s.giveBack x)
    refine ⟨book, assoc, fun y => ?_, fun c => ?_⟩
    · rw [List.foldl_cons, items y]
      have first : (s.giveBack x).items y = (s.modify x fun it =>
        { it with role := .slabbed, chunks := [] }).items y := rfl
      rw [first, modify_items]
      by_cases same : y = x
      · subst same
        by_cases later : y ∈ l <;> simp [later]
      · by_cases later : y ∈ l <;> simp [same, later]
    · rw [List.foldl_cons, slots c]
      have pushed : (s.giveBack x).slots c
          = if s.owner x.page = c then x :: s.slots c else s.slots c := by
        by_cases mine : s.owner x.page = c
        · subst mine
          simp [giveBack]
        · simp [giveBack, mine, update_of_ne (Ne.symm mine)]
      have owner : (s.giveBack x).owner = s.owner := rfl
      rw [pushed, owner, List.filter_cons]
      by_cases mine : s.owner x.page = c <;> simp [mine]

end Memory

open Memory

/-- The roles of the chunks, told in several places. `refs` counts who refers to a chunk, the table
apart. -/
structure Sound (refs : Chunk → Nat) (s : Memory) : Prop where
  slots : ∀ c x, x ∈ s.slots c ↔ (s.items x).role = .slabbed ∧ s.owner x.page = c
  nodup : ∀ c, (s.slots c).Nodup
  assoc : ∀ k x, s.assoc k = some x ↔ (s.items x).role = .linked ∧ (s.items x).key = k
  chunk : ∀ x h, (s.items x).role = .chunk h ↔ x ∈ (s.items h).chunks
  heads : ∀ h, (s.items h).chunks ≠ [] → (s.items h).role.IsItem
  distinct : ∀ h, (s.items h).chunks.Nodup
  count : ∀ x, (s.items x).role.IsItem →
    (s.items x).refcount = refs x + (s.items x).role.links
  idle : ∀ x, 0 < refs x → (s.items x).role.IsItem
  few : ∀ x, refs x + 1 < 2 ^ 16
  placed : ∀ x, (s.items x).role ≠ .cleared → x.index < s.cut x.page ∧ 1 ≤ s.owner x.page

/-- What `Sound` says of the chunk `x`, to which `n` refer. -/
structure Told (n : Nat) (s : Memory) (x : Chunk) : Prop where
  slots : ∀ c, x ∈ s.slots c ↔ (s.items x).role = .slabbed ∧ s.owner x.page = c
  assoc : ∀ k, s.assoc k = some x ↔ (s.items x).role = .linked ∧ (s.items x).key = k
  heads : (s.items x).chunks ≠ [] → (s.items x).role.IsItem
  distinct : (s.items x).chunks.Nodup
  count : (s.items x).role.IsItem → (s.items x).refcount = n + (s.items x).role.links
  idle : 0 < n → (s.items x).role.IsItem
  few : n + 1 < 2 ^ 16
  placed : (s.items x).role ≠ .cleared → x.index < s.cut x.page ∧ 1 ≤ s.owner x.page

theorem Sound.told (sound : Sound refs s) (x : Chunk) : Told (refs x) s x :=
  ⟨(sound.slots · x), (sound.assoc · x), sound.heads x, sound.distinct x, sound.count x, sound.idle x,
    sound.few x, sound.placed x⟩

theorem sound_of_told (nodup : ∀ c, (s.slots c).Nodup)
    (chunk : ∀ x h, (s.items x).role = .chunk h ↔ x ∈ (s.items h).chunks)
    (told : ∀ x, Told (refs x) s x) : Sound refs s :=
  ⟨fun c x => (told x).slots c, nodup, fun k x => (told x).assoc k, chunk, fun x => (told x).heads,
    fun x => (told x).distinct, fun x => (told x).count, fun x => (told x).idle,
    fun x => (told x).few, fun x => (told x).placed⟩

theorem Told.frame {t : Memory} {x : Chunk} (told : Told n s x) (items : t.items x = s.items x)
    (book : t.book = s.book) (slots : ∀ c, x ∈ t.slots c ↔ x ∈ s.slots c)
    (assoc : ∀ k, t.assoc k = some x ↔ s.assoc k = some x) : Told n t x := by
  have owner : t.owner = s.owner := congrArg (·.1) book
  have cut : t.cut = s.cut := congrArg (·.2.1) book
  obtain ⟨free, table, heads, distinct, count, idle, few, placed⟩ := told
  constructor <;> (try simp only [items, owner, cut, slots, assoc]) <;> assumption

theorem sound_empty : Sound (fun _ => 0) {} := by
  constructor <;> simp

namespace Sound

variable {x y it : Chunk} {i : Item} {f : Item → Item}

section

variable (sound : Sound refs s)
include sound

section

variable (unused : ¬ (s.items x).role.IsItem)
include unused

theorem refs_eq_zero : refs x = 0 := by
  by_contra positive
  exact unused (sound.idle x (by omega))

theorem chunks_eq_nil : (s.items x).chunks = [] := by
  by_contra some
  exact unused (sound.heads x some)

theorem role_ne_chunk (y : Chunk) : (s.items y).role ≠ .chunk x := by
  intro part
  have mem := (sound.chunk y x).mp part
  simp [sound.chunks_eq_nil unused] at mem

end

theorem not_mem_own (x : Chunk) : x ∉ (s.items x).chunks := by
  intro mem
  have item := sound.heads x (List.ne_nil_of_mem mem)
  rw [(sound.chunk x x).mpr mem] at item
  exact Role.not_isItem_chunk x item

theorem not_mem_chunks (h : Chunk) (role : ∀ h, (s.items x).role ≠ .chunk h) :
    x ∉ (s.items h).chunks :=
  fun mem => role h ((sound.chunk x h).mpr mem)

/-! ### One header changes -/

/-- A header gets other contents and perhaps another role, its chain stays what it was and so does
the chain it is in, and the free lists and the table are told. -/
theorem change (y : Chunk) {t : Memory} (items : t.items = update s.items y i)
    (book : t.book = s.book)
    (free : ∀ c x, x ∈ t.slots c ↔
      if x = y then i.role = .slabbed ∧ s.owner y.page = c else x ∈ s.slots c)
    (nodup : ∀ c, (t.slots c).Nodup)
    (table : ∀ k x, t.assoc k = some x ↔
      if x = y then i.role = .linked ∧ i.key = k else s.assoc k = some x)
    (part : ∀ h, i.role = .chunk h ↔ (s.items y).role = .chunk h)
    (chunks : i.chunks = (s.items y).chunks) (head : i.chunks ≠ [] → i.role.IsItem)
    (count : i.role.IsItem → i.refcount = n + i.role.links) (idle : 0 < n → i.role.IsItem)
    (few : n + 1 < 2 ^ 16)
    (place : i.role ≠ .cleared → y.index < s.cut y.page ∧ 1 ≤ s.owner y.page) :
    Sound (update refs y n) t ∧ Touched y s t := by
  have here : t.items y = i := by rw [items, update_self]
  have there : ∀ x, x ≠ y → t.items x = s.items x := by
    intro x other
    rw [items, update_of_ne other]
  have touched : Touched y s t := ⟨book, fun x other _ => there x other⟩
  have chains : ∀ h, (t.items h).chunks = (s.items h).chunks := by
    intro h
    by_cases same : h = y
    · subst same
      rw [here, chunks]
    · rw [there h same]
  have parts : ∀ x h, (t.items x).role = .chunk h ↔ (s.items x).role = .chunk h := by
    intro x h
    by_cases same : x = y
    · subst same
      rw [here, part]
    · rw [there x same]
  refine ⟨sound_of_told nodup (fun x h => ?_) fun x => ?_, touched⟩
  · rw [parts, chains, sound.chunk x h]
  by_cases same : x = y
  · subst same
    rw [update_self]
    constructor <;> (try simp only [here, touched.owner, touched.cut, free, table, if_true, implies_true])
    exacts [head, chunks ▸ sound.distinct x, count, idle, few, place]
  · rw [update_of_ne same]
    exact (sound.told x).frame (there x same) book (fun c => by rw [free, if_neg same])
      fun k => by rw [table, if_neg same]

theorem slots_same (before : (s.items y).role ≠ .slabbed) (after : i.role ≠ .slabbed) (c : Nat)
    (x : Chunk) :
    x ∈ s.slots c ↔ if x = y then i.role = .slabbed ∧ s.owner y.page = c else x ∈ s.slots c := by
  split
  · next same => simp [same, sound.slots, before, after]
  · rfl

theorem assoc_same (before : (s.items y).role ≠ .linked) (after : i.role ≠ .linked) (k : Bytes)
    (x : Chunk) :
    s.assoc k = some x ↔ if x = y then i.role = .linked ∧ i.key = k else s.assoc k = some x := by
  split
  · next same => simp [same, sound.assoc, before, after]
  · rfl

theorem mem_slots_erase (i : Item) (role : i.role ≠ .slabbed) (c : Nat) (x : Chunk) :
    x ∈ update s.slots (s.owner y.page) ((s.slots (s.owner y.page)).erase y) c ↔
      if x = y then i.role = .slabbed ∧ s.owner y.page = c else x ∈ s.slots c := by
  by_cases mine : c = s.owner y.page
  · subst mine
    rw [update_self, (sound.nodup _).mem_erase_iff]
    by_cases same : x = y <;> simp [same, role]
  · rw [update_of_ne mine]
    by_cases same : x = y
    · subst same
      simp [role, sound.slots, Ne.symm mine]
    · simp [same]

theorem nodup_slots_erase (y : Chunk) (d c : Nat) :
    (update s.slots d ((s.slots d).erase y) c).Nodup := by
  by_cases mine : c = d
  · subst mine
    rw [update_self]
    exact (sound.nodup c).erase y
  · rw [update_of_ne mine]
    exact sound.nodup c

theorem touch (y : Chunk) (role : (f (s.items y)).role = (s.items y).role)
    (chunks : (f (s.items y)).chunks = (s.items y).chunks)
    (key : (s.items y).role = .linked → (f (s.items y)).key = (s.items y).key)
    (count : (s.items y).role.IsItem → (f (s.items y)).refcount = n + (s.items y).role.links)
    (idle : 0 < n → (s.items y).role.IsItem) (few : n + 1 < 2 ^ 16) :
    Sound (update refs y n) (s.modify y f) ∧ Touched y s (s.modify y f) := by
  refine sound.change y rfl rfl (fun c x => ?_) sound.nodup (fun k x => ?_) (fun h => by rw [role])
    chunks ?_ (by rw [role]; exact count) (by rw [role]; exact idle) few
    (by rw [role]; exact sound.placed y)
  · show x ∈ s.slots c ↔ _
    rw [role]
    split
    · next same => rw [same, sound.slots]
    · rfl
  · show s.assoc k = some x ↔ _
    rw [role]
    split
    · next same =>
      rw [same, sound.assoc]
      exact and_congr_right fun linked => by rw [key linked]
    · rfl
  · rw [role, chunks]
    exact sound.heads y

theorem write (y : Chunk) (role : (f (s.items y)).role = (s.items y).role)
    (chunks : (f (s.items y)).chunks = (s.items y).chunks)
    (key : (s.items y).role = .linked → (f (s.items y)).key = (s.items y).key)
    (refcount : (f (s.items y)).refcount = (s.items y).refcount) :
    Sound refs (s.modify y f) ∧ Touched y s (s.modify y f) := by
  have := sound.touch y role chunks key (fun item => refcount.trans (sound.count y item))
    (sound.idle y) (sound.few y)
  rwa [update_eq_self] at this

end

/-! ### Free lists -/

section

variable (sound : Sound refs s)
include sound

/-- Chunks that are neither free nor linked may be given back by whoever refers to them, a header
always with its chain. -/
theorem giveBack {l : List Chunk} {left : Chunk → Nat} (nodup : l.Nodup)
    (unused : ∀ x ∈ l, (s.items x).role ≠ .slabbed ∧ (s.items x).role ≠ .linked)
    (places : ∀ x ∈ l, x.index < s.cut x.page ∧ 1 ≤ s.owner x.page)
    (whole : ∀ x h, x ∈ (s.items h).chunks → (x ∈ l ↔ h ∈ l)) (gone : ∀ x ∈ l, left x = 0)
    (rest : ∀ x, x ∉ l → left x = refs x) : Sound left (l.foldl Memory.giveBack s) := by
  obtain ⟨book, assoc, items, slots⟩ := foldl_giveBack l s
  have owner : (l.foldl Memory.giveBack s).owner = s.owner := congrArg (·.1) book
  have cut : (l.foldl Memory.giveBack s).cut = s.cut := congrArg (·.2.1) book
  have free : ∀ c x, x ∈ (l.foldl Memory.giveBack s).slots c ↔
      x ∈ l ∧ s.owner x.page = c ∨ x ∈ s.slots c := by
    intro c x
    simp [slots c]
  refine sound_of_told (fun c => ?_) (fun x h => ?_) fun x => ?_
  · rw [slots c, List.nodup_append]
    refine ⟨(List.reverse_perm _).nodup_iff.mpr (nodup.filter _), sound.nodup c, fun x given y old same => ?_⟩
    subst same
    have mem := (List.mem_filter.mp (List.mem_reverse.mp given)).1
    exact (unused x mem).1 ((sound.slots c x).mp old).1
  · rw [items x, items h]
    by_cases head : h ∈ l <;> by_cases mem : x ∈ l <;> simp only [head, mem, if_true, if_false]
    · simp
    · rw [sound.chunk x h]
      simpa using fun chained => mem ((whole x h chained).mpr head)
    · simpa using fun chained => head ((whole x h chained).mp mem)
    · exact sound.chunk x h
  by_cases mem : x ∈ l
  · rw [gone x mem]
    constructor <;> simp [items x, mem, free, owner, cut, assoc, sound.slots, sound.assoc, unused x mem,
      places x mem]
  · rw [rest x mem]
    exact (sound.told x).frame (by rw [items x, if_neg mem]) book (fun c => by simp [free, mem])
      fun k => by rw [assoc]

theorem slabsFree (it : Chunk) (plain : (s.items it).role = .plain) :
    Sound (update refs it 0) (s.slabsFree it) ∧ Touched it s (s.slabsFree it) := by
  have part : ∀ x ∈ (s.items it).chunks, (s.items x).role = .chunk it :=
    fun x => (sound.chunk x it).mpr
  constructor
  · refine sound.giveBack ?_ ?_ ?_ ?_ ?_ ?_
    · exact List.nodup_cons.mpr ⟨sound.not_mem_own it, sound.distinct it⟩
    · intro x mem
      rcases List.mem_cons.mp mem with rfl | mem
      · simp [plain]
      · simp [part x mem]
    · intro x mem
      apply sound.placed
      rcases List.mem_cons.mp mem with rfl | mem
      · simp [plain]
      · simp [part x mem]
    · intro x h chained
      have role := (sound.chunk x h).mpr chained
      simp only [List.mem_cons]
      constructor
      · rintro (rfl | mine)
        · simp [role] at plain
        · have := part x mine
          rw [role] at this
          exact .inl (by simpa using this)
      · rintro (rfl | mine)
        · exact .inr chained
        · -- a header is not part of a chain
          have item := sound.heads h (List.ne_nil_of_mem chained)
          rw [part h mine] at item
          exact absurd item (Role.not_isItem_chunk it)
    · intro x mem
      rcases List.mem_cons.mp mem with rfl | mem
      · exact update_self ..
      · have other : x ≠ it := fun same => sound.not_mem_own it (same ▸ mem)
        rw [update_of_ne other]
        exact sound.refs_eq_zero (by simp [part x mem])
    · intro x notMem
      have other : x ≠ it := fun same => notMem (by simp [same])
      exact update_of_ne other ..
  · obtain ⟨book, -, items, -⟩ := foldl_giveBack (it :: (s.items it).chunks) s
    refine ⟨book, fun x other apart => ?_⟩
    refine (items x).trans (if_neg fun mem => ?_)
    rcases List.mem_cons.mp mem with rfl | mem
    · exact other rfl
    · exact apart (part x mem)

theorem slabsAlloc {c : Nat} {t : Memory}
    (called : s.slabsAlloc c = some (x, t)) :
    (Sound (update refs x 1) t ∧ Touched x s t ∧ t.assoc = s.assoc) ∧
      (s.items x).role = .slabbed ∧ s.owner x.page = c ∧ (t.items x).role = .plain ∧
      (t.items x).chunks = [] := by
  unfold Memory.slabsAlloc at called
  split at called
  · cases called
  next y rest first =>
  simp only [Option.some.injEq, Prod.mk.injEq] at called
  obtain ⟨rfl, rfl⟩ := called
  obtain ⟨free, rfl⟩ := (sound.slots c y).mp (by simp [first])
  have chain : (s.items y).chunks = [] := sound.chunks_eq_nil (by simp [free])
  have rest_eq : rest = (s.slots (s.owner y.page)).erase y := by simp [first]
  subst rest_eq
  have self : (s.modify y fun it => { it with role := .plain, refcount := 1 }).items y
      = { s.items y with role := .plain, refcount := 1 } := modify_self ..
  refine ⟨?_, free, rfl, by rw [self], by rw [self]; exact chain⟩
  refine and_assoc.mp ⟨?_, rfl⟩
  exact sound.change y rfl rfl (sound.mem_slots_erase _ (by simp)) (sound.nodup_slots_erase y _)
    (sound.assoc_same (by simp [free]) (by simp)) (by simp [free]) rfl
    (fun _ => Role.isItem_plain) (by simp [Role.links]) (fun _ => Role.isItem_plain) (by simp)
    (fun _ => sound.placed y (by simp [free]))

theorem cutFree (free : (s.items x).role = .slabbed) :
    Sound refs (s.cutFree (s.owner x.page) x) ∧ Touched x s (s.cutFree (s.owner x.page) x) := by
  have chain : (s.items x).chunks = [] := sound.chunks_eq_nil (by simp [free])
  have same : update refs x 0 = refs := by
    rw [← sound.refs_eq_zero (x := x) (by simp [free]), update_eq_self]
  rw [← same]
  exact sound.change x rfl rfl (sound.mem_slots_erase _ (by simp)) (sound.nodup_slots_erase x _)
    (sound.assoc_same (by simp [free]) (by simp)) (by simp [free]) (by simp [chain]) (by simp)
    (by simp) (by simp) (by simp) (by simp)

theorem clear (plain : (s.items x).role = .plain)
    (chain : (s.items x).chunks = []) :
    Sound (update refs x 0) (s.clear x) ∧ Touched x s (s.clear x) :=
  sound.change x rfl rfl (sound.slots_same (by simp [plain]) (by simp)) sound.nodup
    (sound.assoc_same (by simp [plain]) (by simp)) (by simp [plain]) (by simp [chain]) (by simp)
    (by simp) (by simp) (by simp) (by simp)

end

/-! ### Items -/

section

variable (sound : Sound refs s)
include sound

theorem doItemLink (plain : (s.items it).role = .plain)
    (vacant : s.assoc (s.items it).key = none) :
    Sound refs (s.doItemLink it) ∧ Touched it s (s.doItemLink it) := by
  have few := sound.few it
  have counted : (s.items it).refcount = refs it := by
    rw [sound.count it (by simp [plain, Role.isItem_plain]), plain]
    rfl
  have same : update refs it (refs it) = refs := update_eq_self ..
  rw [← same]
  refine sound.change it rfl rfl (sound.slots_same (by simp [plain]) (by simp)) sound.nodup
    (fun k x => ?_) (by simp [plain]) rfl (fun _ => Role.isItem_linked)
    (fun _ => by dsimp only; rw [counted, refcountIncr_of_lt few]; rfl) (fun _ => Role.isItem_linked) few
    (fun _ => sound.placed it (by simp [plain]))
  show update s.assoc (s.items it).key (some it) k = some x ↔ _
  by_cases taken : k = (s.items it).key
  · subst taken
    by_cases same : x = it
    · simp [same]
    · simp [same, vacant, Ne.symm same]
  · rw [update_of_ne taken]
    by_cases same : x = it
    · simp [same, sound.assoc, plain, Ne.symm taken]
    · simp [same]

/-- One reference less. With the last one an item that is not linked is freed. -/
theorem doItemRemove (it : Chunk) (counted : refs it = n + 1) :
    Sound (update refs it n) (s.doItemRemove it) ∧ Touched it s (s.doItemRemove it) := by
  have item := sound.idle it (by omega)
  have few := sound.few it
  have less : refcountDecr (s.items it).refcount = n + (s.items it).role.links := by
    have := (s.items it).role.links_le
    rw [sound.count it item, counted, Nat.add_right_comm]
    exact refcountDecr_succ (by omega)
  obtain ⟨lowered, touched⟩ := sound.touch it
    (f := fun i => { i with refcount := refcountDecr i.refcount })
    (n := n) rfl rfl (fun _ => rfl) (fun _ => less) (fun _ => item) (by omega)
  unfold Memory.doItemRemove
  dsimp only
  split
  · next last =>
    rw [modify_self] at last
    dsimp only at last
    rw [less] at last
    obtain ⟨gone, unlinked⟩ := Nat.add_eq_zero_iff.mp last
    have plain : (s.items it).role = .plain := by
      rcases item with plain | linked
      · exact plain
      · simp [linked, Role.links] at unlinked
    obtain ⟨freed, frame⟩ := lowered.slabsFree it (by rw [modify_self]; exact plain)
    rw [update_idem, ← gone] at freed
    exact ⟨freed, touched.trans frame⟩
  · exact ⟨lowered, touched⟩

section

variable (linked : (s.items it).role = .linked)
include linked

theorem delinked :
    Sound refs (s.delinked it (refs it)) ∧ Touched it s (s.delinked it (refs it)) := by
  suffices out : Sound (update refs it (refs it)) (s.delinked it (refs it)) ∧
      Touched it s (s.delinked it (refs it)) by
    rwa [update_eq_self] at out
  refine sound.change it rfl rfl (sound.slots_same (by simp [linked]) (by simp)) sound.nodup
    (fun k x => ?_) (by simp [linked]) rfl (fun _ => Role.isItem_plain) (fun _ => rfl)
    (fun _ => Role.isItem_plain) (sound.few it) (fun _ => sound.placed it (by simp [linked]))
  show update s.assoc (s.items it).key none k = some x ↔ _
  have mine := (sound.assoc _ it).mpr ⟨linked, rfl⟩
  by_cases taken : k = (s.items it).key
  · subst taken
    simp only [update_self, mine, Option.some.injEq]
    by_cases same : x = it
    · simp [same]
    · simp [same, Ne.symm same]
  · rw [update_of_ne taken]
    by_cases same : x = it
    · simp [same, sound.assoc, Ne.symm taken]
    · simp [same]

theorem doItemUnlink_eq :
    s.doItemUnlink it = if refs it = 0 then (s.delinked it (refs it)).slabsFree it
      else s.delinked it (refs it) := by
  have few := sound.few it
  have less : refcountDecr (s.items it).refcount = refs it := by
    rw [sound.count it (by simp [linked, Role.isItem_linked]), linked]
    exact refcountDecr_succ (by omega)
  simp [Memory.doItemUnlink, linked, Memory.doItemRemove, Memory.delinked, Memory.modify, less]

theorem doItemUnlink :
    Sound refs (s.doItemUnlink it) ∧ Touched it s (s.doItemUnlink it) := by
  obtain ⟨out, touched⟩ := sound.delinked linked
  rw [sound.doItemUnlink_eq linked]
  split
  · next last =>
    obtain ⟨freed, frame⟩ := out.slabsFree it (by simp [Memory.delinked])
    rw [← last, update_eq_self] at freed
    exact ⟨freed, touched.trans frame⟩
  · exact ⟨out, touched⟩

theorem doItemUnlink_assoc :
    (s.doItemUnlink it).assoc = update s.assoc (s.items it).key none := by
  rw [sound.doItemUnlink_eq linked]
  split
  · exact (foldl_giveBack _ _).2.1
  · rfl

end

end

/-! ### Large items -/

theorem attach (sound : Sound refs s) (other : it ≠ x)
    (head : (s.items it).role = .plain) (plain : (s.items x).role = .plain)
    (chain : (s.items x).chunks = []) : Sound (update refs x 0) (s.attach it x) := by
  have atHead : (s.attach it x).items it = { s.items it with chunks := (s.items it).chunks ++ [x] } := by
    simp [Memory.attach, modify_of_ne _ _ _ other]
  have atPart : (s.attach it x).items x = { s.items x with role := .chunk it } := by
    simp [Memory.attach, modify_of_ne _ _ _ other.symm]
  have there : ∀ y, y ≠ it → y ≠ x → (s.attach it x).items y = s.items y := by
    intro y notHead notPart
    simp [Memory.attach, modify_of_ne _ _ _ notHead, modify_of_ne _ _ _ notPart]
  have roles : ∀ y, y ≠ x → ((s.attach it x).items y).role = (s.items y).role := by
    intro y notPart
    by_cases same : y = it
    · rw [same, atHead]
    · rw [there y same notPart]
  have apart : ∀ h, x ∉ (s.items h).chunks := fun h => sound.not_mem_chunks h (by simp [plain])
  have chains : ∀ y h, y ∈ ((s.attach it x).items h).chunks ↔ y ∈ (s.items h).chunks ∨ h = it ∧ y = x := by
    intro y h
    by_cases same : h = it
    · simp [same, atHead]
    · by_cases part : h = x
      · simp [part, atPart, other.symm]
      · simp [there h same part, same]
  refine sound_of_told sound.nodup (fun y h => ?_) fun y => ?_
  · rw [chains]
    by_cases part : y = x
    · simp [part, atPart, apart h, eq_comm]
    · simp [roles y part, sound.chunk y h, part]
  by_cases part : y = x
  · subst part
    have placed := sound.placed y (by simp [plain])
    have same : (s.attach it y).slots = s.slots ∧ (s.attach it y).assoc = s.assoc ∧
        (s.attach it y).cut = s.cut ∧ (s.attach it y).owner = s.owner := ⟨rfl, rfl, rfl, rfl⟩
    rw [update_self]
    constructor <;> simp [atPart, chain, sound.slots, sound.assoc, plain, same, placed]
  rw [update_of_ne part]
  by_cases same : y = it
  · subst same
    have told := sound.told y
    constructor <;> (try rw [atHead])
    exacts [told.slots, told.assoc, fun _ => by simp [head, Role.isItem_plain],
      List.nodup_append.mpr ⟨told.distinct, by simp, by
        rintro z old w fresh rfl
        exact apart y (List.mem_singleton.mp fresh ▸ old)⟩,
      told.count, told.idle, told.few, told.placed]
  · exact (sound.told y).frame (there y same part) rfl (fun _ => .rfl) fun _ => .rfl

end Sound

end MemExchange.Evacuation
