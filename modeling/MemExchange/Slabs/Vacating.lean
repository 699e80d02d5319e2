import MemExchange.Slabs.Rescue

/-!
# What connections and new pages do to the mover's page

The invariant of a run: the chunks agree, the pages do not overlap, what the mover has passed without
meeting a busy item is emptied, and the item in its hands is the mover's alone. Connections need the
lock of an item or a reference to it.
-/
namespace MemExchange.Evacuation

open Memory
open Function (update_of_ne update_self update_eq_self update)

/-! ### Who refers to a chunk -/

/-- The references of the mover: to the item it has locked, and to the fresh chunk -/
def Hold.counts (h : Option Hold) (x : Chunk) : Nat :=
  match h with
  | none => 0
  | some h => (if x = h.it then 1 else 0) + if h.new = some x then 1 else 0

namespace World

def hold (w : World) : Option Hold := w.mover.bind Mover.hold

def refs (w : World) (x : Chunk) : Nat := w.held x + Hold.counts w.hold x

def Free (w : World) (x : Chunk) : Prop := ∀ h ∈ w.hold, x ≠ h.it ∧ h.new ≠ some x

theorem Free.counts {w : World} {x : Chunk} (free : w.Free x) : Hold.counts w.hold x = 0 := by
  unfold Hold.counts
  split
  · rfl
  · next h here =>
    obtain ⟨notIt, notNew⟩ := free h here
    simp [notIt, notNew]

theorem Free.refs {w : World} {x : Chunk} (free : w.Free x) : w.refs x = w.held x := by
  rw [World.refs, free.counts, Nat.add_zero]

theorem Free.refs_update {w : World} {x : Chunk} (free : w.Free x) (s : Memory) (n : Nat) :
    World.refs { w with mem := s, held := update w.held x n }
      = update w.refs x n := by
  funext y
  by_cases same : y = x
  · subst same
    have counts : Hold.counts (World.hold { w with mem := s, held := update w.held y n }) y
        = 0 := free.counts
    rw [World.refs, counts, update_self]
    exact update_self ..
  · rw [update_of_ne same, World.refs, World.refs]
    show update w.held x n y + _ = _
    rw [update_of_ne same]
    rfl

end World

/-! ### The pages -/

/-- The pages do not overlap, and every page holds its chunks. The pages of the pool belong to no
class. -/
structure Laid (cfg : Config) (s : Memory) : Prop where
  within : ∀ p, s.cut p * cfg.size (s.owner p) ≤ s.mapped p
  apart : ∀ p q, p < s.pages → q < s.pages → p ≠ q → s.mapped p = 0 ∨ s.mapped q = 0 ∨
    s.base p + s.mapped p ≤ s.base q ∨ s.base q + s.mapped q ≤ s.base p
  fresh : ∀ p, s.pages ≤ p → s.cut p = 0 ∧ s.mapped p = 0
  listed : ∀ c, ∀ p ∈ s.slabList c, p < s.pages
  pool : ∀ p ∈ s.slabList 0, s.owner p = 0
  nodup : (s.slabList 0).Nodup

theorem Laid.congr {cfg : Config} {s t : Memory} (laid : Laid cfg s) (book : t.book = s.book) :
    Laid cfg t := by
  simp only [Memory.book, Prod.mk.injEq] at book
  obtain ⟨owner, cut, base, mapped, slabList, pages⟩ := book
  obtain ⟨within, apart, fresh, listed, pool, nodup⟩ := laid
  constructor <;> simp only [owner, cut, base, mapped, slabList, pages] <;> assumption

theorem laid_empty (cfg : Config) : Laid cfg {} := by
  constructor <;> simp

/-! ### The scan -/

section Scan

variable {cfg : Config} {s t : Memory} {held : Chunk → Nat} {m : Mover}

/-- The page is the class's own and cut into as many chunks as are scanned, and as long as nothing
was busy, the chunks before the position are emptied. -/
structure Scanning (cfg : Config) (s : Memory) (m : Mover) : Prop where
  owner : s.owner m.page = m.sClsid
  real : 1 ≤ m.sClsid
  cut : s.cut m.page = cfg.perslab m.sClsid
  known : m.page < s.pages
  tenant : (∀ d, m.dest ≠ .slabClass d) → (s.slabList m.sClsid)[m.index]? = some m.page ∧
    cfg.adjustSize (cfg.size m.sClsid * cfg.perslab m.sClsid) ≤ s.mapped m.page
  behind : m.busyItems = 0 → ∀ y < m.pos, (s.items ⟨m.page, y⟩).role = .cleared
  finished : m.done → 0 < cfg.perslab m.sClsid ∧
    ∀ y < cfg.perslab m.sClsid, (s.items ⟨m.page, y⟩).role = .cleared

/-- The item is the one at the position, or a part of it is there, and nobody else refers to it; the
fresh chunk is outside of the page. -/
structure Holds (s : Memory) (held : Chunk → Nat) (m : Mover) (h : Hold) : Prop where
  linked : (s.items h.it).role = .linked
  alone : held h.it = 0
  place : match h.ch with
    | none => h.it = ⟨m.page, m.pos⟩
    | some ch => ch = ⟨m.page, m.pos⟩ ∧ (s.items ch).role = .chunk h.it
  fresh : ∀ x ∈ h.new, (s.items x).role = .plain ∧ held x = 0 ∧ (s.items x).chunks = [] ∧
    x.page ≠ m.page

/-- What the scan relies on: where the pages are, and that emptied chunks stay so. -/
theorem Scanning.frame (scan : Scanning cfg s m) (book : t.book = s.book)
    (empty : ∀ x, (s.items x).role = .cleared → (t.items x).role = .cleared) :
    Scanning cfg t m := by
  simp only [Memory.book, Prod.mk.injEq] at book
  obtain ⟨owner, cut, -, mapped, slabList, pages⟩ := book
  refine ⟨?_, scan.real, ?_, ?_, fun outside => ?_, fun idle y before => ?_, fun done => ?_⟩
  · rw [owner]
    exact scan.owner
  · rw [cut]
    exact scan.cut
  · rw [pages]
    exact scan.known
  · rw [slabList, mapped]
    exact scan.tenant outside
  · exact empty _ (scan.behind idle y before)
  · exact ⟨(scan.finished done).1, fun y before => empty _ ((scan.finished done).2 y before)⟩

theorem Scanning.advance (scan : Scanning cfg s m) (running : m.done = false)
    (inside : m.pos < cfg.perslab m.sClsid) {busy : Nat}
    (emptied : busy = 0 → (s.items ⟨m.page, m.pos⟩).role = .cleared) :
    Scanning cfg s (m.advance cfg busy) := by
  have behind : m.busyItems + busy = 0 → ∀ y < m.pos + 1, (s.items ⟨m.page, y⟩).role = .cleared := by
    intro idle y before
    rcases Nat.lt_succ_iff_lt_or_eq.mp before with before | rfl
    · exact scan.behind (by omega) y before
    · exact emptied (by omega)
  unfold Mover.advance
  dsimp only
  split
  · next last =>
    split
    · next idle =>
      refine { scan with behind := fun _ => behind idle, finished := fun _ => ?_ }
      exact ⟨Nat.zero_lt_of_lt inside,
        fun y before => behind idle y (Nat.lt_of_lt_of_le before last)⟩
    · exact { scan with
        behind := fun _ y before => absurd before (Nat.not_lt_zero y)
        finished := fun done => by simp [running] at done }
  · exact { scan with
      behind := behind
      finished := fun done => by simp [running] at done }

theorem advance_hold (m : Mover) (busy : Nat) : (m.advance cfg busy).hold = none := by
  unfold Mover.advance
  dsimp only
  split
  · split <;> rfl
  · rfl

/-- What another thread does to one chunk, or to one item, does not matter to the mover if it is
not the item that the mover has locked. -/
theorem Holds.touched {h : Hold} {y : Chunk} {held' : Chunk → Nat} (holds : Holds s held m h)
    (touched : Touched y s t) (free : y ≠ h.it ∧ h.new ≠ some y)
    (notPart : (s.items y).role ≠ .chunk h.it) (same : ∀ x, x ≠ y → held' x = held x) :
    Holds t held' m h := by
  have head : t.items h.it = s.items h.it :=
    touched.items h.it free.1.symm (by simp [holds.linked])
  refine ⟨by rw [head]; exact holds.linked, by rw [same _ free.1.symm]; exact holds.alone, ?_, ?_⟩
  · have place := holds.place
    split
    · next none => simpa [none] using place
    · next ch part =>
      simp only [part] at place
      refine ⟨place.1, ?_⟩
      rw [touched.items ch (fun same => notPart (same ▸ place.2))]
      · exact place.2
      · rw [place.2]
        simpa using free.1.symm
  · intro x mem
    obtain ⟨plain, alone, chain, outside⟩ := holds.fresh x mem
    have other : x ≠ y := fun same => free.2 (same ▸ mem)
    rw [touched.items x other (by simp [plain]), same x other]
    exact ⟨plain, alone, chain, outside⟩

end Scan

/-! ### The invariant -/

structure Inv (cfg : Config) (w : World) : Prop where
  sound : Sound w.refs w.mem
  laid : Laid cfg w.mem
  scan : ∀ m ∈ w.mover, Scanning cfg w.mem m
  hold : ∀ m ∈ w.mover, ∀ h ∈ m.hold, Holds w.mem w.held m h
  rest : ∀ m ∈ w.mover, m.done → m.hold = none

theorem inv_initial (cfg : Config) : Inv cfg {} where
  sound := sound_empty
  laid := laid_empty cfg
  scan := by simp
  hold := by simp
  rest := by simp

section Connections

variable {cfg : Config} {w : World}

theorem World.mem_hold {h : Hold} : h ∈ w.hold ↔ ∃ m ∈ w.mover, h ∈ m.hold := by
  simp [World.hold, Option.mem_def, Option.bind_eq_some_iff]

variable {y it : Chunk} {k data : Bytes} {exptime : UInt32}

section

variable (inv : Inv cfg w)
include inv

/-- Chunks that are not items are no concern of the mover. -/
theorem Inv.free_of_role (notItem : ¬ (w.mem.items y).role.IsItem) :
    w.Free y := by
  intro h mem
  obtain ⟨m, moving, mem⟩ := World.mem_hold.mp mem
  have holds := inv.hold m moving h mem
  constructor
  · rintro rfl
    exact notItem (.inr holds.linked)
  · intro same
    exact notItem (.inl (holds.fresh y same).1)

/-- Neither are those that a connection refers to. -/
theorem Inv.free_of_held (used : 0 < w.held y) : w.Free y := by
  intro h mem
  obtain ⟨m, moving, mem⟩ := World.mem_hold.mp mem
  have holds := inv.hold m moving h mem
  constructor
  · rintro rfl
    have := holds.alone
    omega
  · intro same
    have := (holds.fresh y same).2.1
    omega

/-- Neither is an item whose lock is free. -/
theorem Inv.free_of_unlocked (here : w.mem.assoc k = some y)
    (unlocked : w.Unlocked cfg k) : w.Free y := by
  obtain ⟨linked, key⟩ := (inv.sound.assoc k y).mp here
  intro h mem
  obtain ⟨m, moving, mem⟩ := World.mem_hold.mp mem
  constructor
  · rintro rfl
    exact unlocked m moving h mem (by rw [key])
  · intro same
    have plain := ((inv.hold m moving h mem).fresh y same).1
    simp [linked] at plain

theorem Inv.other {s : Memory} {n : Nat}
    (sound : Sound (update w.refs y n) s) (touched : Touched y w.mem s) (free : w.Free y)
    (used : (w.mem.items y).role ≠ .cleared)
    (notPart : ∀ h ∈ w.hold, (w.mem.items y).role ≠ .chunk h.it) :
    Inv cfg { w with mem := s, held := update w.held y n } := by
  refine ⟨?_, inv.laid.congr touched.book, fun m moving => ?_, fun m moving h mem => ?_, inv.rest⟩
  · rwa [free.refs_update]
  · refine (inv.scan m moving).frame touched.book fun x empty => ?_
    rwa [touched.items x (fun same => used (same ▸ empty)) (by simp [empty])]
  · have mem' : h ∈ w.hold := World.mem_hold.mpr ⟨m, moving, mem⟩
    exact (inv.hold m moving h mem).touched touched (free h mem') (notPart h mem')
      fun x other => update_of_ne other ..

theorem Inv.item {s : Memory} (changed : Sound w.refs s ∧ Touched y w.mem s)
    (free : w.Free y) (used : (w.mem.items y).role.IsItem) : Inv cfg { w with mem := s } := by
  have notCleared : (w.mem.items y).role ≠ .cleared := fun role => by simp [role] at used
  have next := inv.other (y := y) (n := w.held y)
    (by rw [← free.refs, update_eq_self]; exact changed.1) changed.2 free notCleared
    (fun h _ part => by simp [part] at used)
  rwa [update_eq_self] at next

end

/-! ### What connections do -/

variable {t : World}

theorem Inv.alloc (inv : Inv cfg w) {c : Nat} (called : step cfg w (.alloc c) = some t) :
    Inv cfg t := by
  obtain ⟨⟨x, s⟩, taken, rfl⟩ := Option.map_eq_some_iff.mp called
  obtain ⟨⟨sound, touched, -⟩, free, -⟩ := inv.sound.slabsAlloc taken
  exact inv.other sound touched (inv.free_of_role (by simp [free])) (by simp [free])
    (by simp [free])

theorem Inv.attach {x : Chunk} (inv : Inv cfg w) (called : step cfg w (.attach it x) = some t) :
    Inv cfg t := by
  obtain ⟨⟨other, head, headHeld, plain, held, chain⟩, ⟨⟩⟩ :=
    Option.ite_none_right_eq_some.mp called
  have freeHead := inv.free_of_held headHeld
  have freePart := inv.free_of_held (y := x) (by omega)
  have first := touched_modify w.mem x fun i => { i with role := .chunk it }
  have second : Touched it (w.mem.modify x fun i => { i with role := .chunk it })
      (w.mem.attach it x) := touched_modify ..
  have headRole : ((w.mem.modify x fun i => { i with role := .chunk it }).items it).role = .plain := by
    rwa [modify_of_ne _ _ _ other]
  refine ⟨?_, (inv.laid.congr first.book).congr second.book, fun m moving => ?_,
    fun m moving h mem => ?_, inv.rest⟩
  · rw [freePart.refs_update]
    exact inv.sound.attach other head plain chain
  · refine ((inv.scan m moving).frame first.book fun y empty => ?_).frame second.book
      fun y empty => ?_
    · rwa [first.items y (fun same => by simp [same, plain] at empty) (by simp [empty])]
    · show ((w.mem.attach it x).items y).role = .cleared
      rwa [second.items y (fun same => by simp [same, headRole] at empty) (by simp [empty])]
  · have mem' : h ∈ w.hold := World.mem_hold.mpr ⟨m, moving, mem⟩
    have held' : ∀ y, y ≠ x → update w.held x 0 y = w.held y :=
      fun y other => update_of_ne other ..
    exact ((inv.hold m moving h mem).touched first (freePart h mem') (by simp [plain])
      held').touched second (freeHead h mem') (by simp [headRole]) fun _ _ => rfl

variable (inv : Inv cfg w)
include inv

theorem Inv.fill {key : Bytes} {flags : UInt32}
    (called : step cfg w (.fill it key flags exptime data) = some t) : Inv cfg t := by
  obtain ⟨⟨plain, held⟩, ⟨⟩⟩ := Option.ite_none_right_eq_some.mp called
  exact inv.item (inv.sound.write it rfl rfl (by simp [plain]) rfl) (inv.free_of_held held)
    (.inl plain)

theorem Inv.fillChunk {x : Chunk} (called : step cfg w (.fillChunk x data) = some t) :
    Inv cfg t := by
  simp only [step] at called
  split at called
  · next it role =>
    obtain ⟨⟨plain, held⟩, ⟨⟩⟩ := Option.ite_none_right_eq_some.mp called
    obtain ⟨sound, touched⟩ := inv.sound.write x
      (f := fun i => { i with data := data }) rfl rfl (fun _ => rfl) rfl
    have free := inv.free_of_role (y := x) (by simp [role])
    have next := inv.other (y := x) (n := w.held x)
      (by rw [← free.refs, update_eq_self]; exact sound) touched free (by simp [role]) ?_
    · rwa [update_eq_self] at next
    · -- the header is not linked, so it is not the mover's
      intro h mem part
      rw [role, Role.chunk.injEq] at part
      exact (inv.free_of_held held h mem).1 part
  · cases called

theorem Inv.unlink_of (here : w.mem.assoc k = some it) (unlocked : w.Unlocked cfg k) :
    Inv cfg { w with mem := w.mem.doItemUnlink it } := by
  obtain ⟨linked, -⟩ := (inv.sound.assoc k it).mp here
  exact inv.item (inv.sound.doItemUnlink linked) (inv.free_of_unlocked here unlocked) (.inr linked)

theorem Inv.link (called : step cfg w (.link it) = some t) : Inv cfg t := by
  obtain ⟨⟨plain, held, unlocked⟩, called⟩ := Option.ite_none_right_eq_some.mp called
  split at called
  · next old here =>
    cases called
    obtain ⟨linked, key⟩ := (inv.sound.assoc _ old).mp here
    obtain ⟨-, touched⟩ := inv.sound.doItemUnlink linked
    have between := inv.unlink_of here unlocked
    -- the new item is not touched when the old one goes
    have same : (w.mem.doItemUnlink old).items it = w.mem.items it :=
      touched.items it (fun same => by simp [same, linked] at plain) (by simp [plain])
    have vacant : (w.mem.doItemUnlink old).assoc ((w.mem.doItemUnlink old).items it).key = none := by
      rw [inv.sound.doItemUnlink_assoc linked, same, ← key, update_self]
    exact between.item (between.sound.doItemLink (by rw [same]; exact plain) vacant)
      (between.free_of_held held) (by rw [same]; exact .inl plain)
  · next vacant =>
    cases called
    exact inv.item (inv.sound.doItemLink plain vacant) (inv.free_of_held held) (.inl plain)

theorem Inv.get (even : Even cfg w (.get k)) (called : step cfg w (.get k) = some t) :
    Inv cfg t := by
  simp only [step] at called
  split at called
  · next it here =>
    obtain ⟨unlocked, ⟨⟩⟩ := Option.ite_none_right_eq_some.mp called
    obtain ⟨linked, -⟩ := (inv.sound.assoc k it).mp here
    have free := inv.free_of_unlocked here unlocked
    have room : (w.mem.items it).refcount + 1 < 2 ^ 16 := even it here
    have counted := inv.sound.count it (.inr linked)
    rw [linked, free.refs] at counted
    change _ = w.held it + 1 at counted
    obtain ⟨sound, touched⟩ := inv.sound.touch it (n := w.held it + 1)
      (f := fun i => { i with refcount := refcountIncr i.refcount }) rfl rfl (fun _ => rfl)
      (fun _ => by dsimp only; rw [refcountIncr_of_lt room, counted, linked]; rfl)
      (fun _ => .inr linked) (by omega)
    exact inv.other sound touched free (by simp [linked]) (by simp [linked])
  · cases called

theorem Inv.rewrite (called : step cfg w (.rewrite k exptime data) = some t) : Inv cfg t := by
  simp only [step] at called
  split at called
  · next it here =>
    obtain ⟨unlocked, ⟨⟩⟩ := Option.ite_none_right_eq_some.mp called
    obtain ⟨linked, -⟩ := (inv.sound.assoc k it).mp here
    exact inv.item (inv.sound.write it rfl rfl (fun _ => rfl) rfl)
      (inv.free_of_unlocked here unlocked) (.inr linked)
  · cases called

theorem Inv.remove (called : step cfg w (.remove it) = some t) : Inv cfg t := by
  obtain ⟨⟨held, -⟩, ⟨⟩⟩ := Option.ite_none_right_eq_some.mp called
  have free := inv.free_of_held held
  have item := inv.sound.idle it (by rw [free.refs]; exact held)
  obtain ⟨sound, touched⟩ := inv.sound.doItemRemove it (n := w.held it - 1)
    (by rw [free.refs]; omega)
  exact inv.other sound touched free (fun role => by simp [role] at item)
    (fun h _ part => by simp [part] at item)

theorem Inv.unlink (called : step cfg w (.unlink k) = some t) : Inv cfg t := by
  simp only [step] at called
  split at called
  · next it here =>
    obtain ⟨unlocked, ⟨⟩⟩ := Option.ite_none_right_eq_some.mp called
    exact inv.unlink_of here unlocked
  · cases called

/-- Without a reference of a connection there is nothing to repair, and the item is just unlinked. -/
theorem Inv.repair (even : Even cfg w (.repair k)) (called : step cfg w (.repair k) = some t) :
    Inv cfg t := by
  simp only [step] at called
  split at called
  · next it here =>
    obtain ⟨unlocked, ⟨⟩⟩ := Option.ite_none_right_eq_some.mp called
    obtain ⟨linked, -⟩ := (inv.sound.assoc k it).mp here
    have counted := inv.sound.count it (.inr linked)
    rw [linked, (inv.free_of_unlocked here unlocked).refs, even it here] at counted
    change _ = 1 at counted
    have same : (w.mem.modify it fun i => { i with refcount := 1 }) = w.mem := by
      rw [Memory.modify, ← counted]
      exact congrArg (fun items => { w.mem with items := items }) (update_eq_self ..)
    rw [same]
    exact inv.unlink_of here unlocked
  · cases called

end Connections

/-! ### New pages -/

section Pages

variable {cfg : Config} {w : World} {s : Memory} {refs : Chunk → Nat} {l : Nat → List Nat} {p : Nat}

theorem mem_update_append {c d q : Nat} (mem : q ∈ update l c (l c ++ [p]) d) :
    q ∈ l d ∨ q = p := by
  by_cases mine : d = c
  · subst mine
    simpa using mem
  · rw [update_of_ne mine] at mem
    exact .inl mem

theorem mem_of_mem_update {c d q : Nat} {fewer : List Nat} (subset : ∀ q ∈ fewer, q ∈ l c)
    (mem : q ∈ update l c fewer d) : q ∈ l d := by
  by_cases mine : d = c
  · subst mine
    rw [update_self] at mem
    exact subset q mem
  · rwa [update_of_ne mine] at mem

theorem prefix_update_append (l : Nat → List Nat) (c p d : Nat) :
    l d <+: update l c (l c ++ [p]) d := by
  by_cases mine : d = c
  · subst mine
    rw [update_self]
    exact List.prefix_append ..
  · have same : update l c (l c ++ [p]) d = l d := update_of_ne mine ..
    exact same.symm ▸ List.prefix_rfl

/-- The chunks, without where the pages are and which class lists them -/
def Memory.contents (s : Memory) := (s.items, s.slots, s.assoc, s.owner, s.cut)

theorem Sound.congr (sound : Sound refs s) {t : Memory} (same : t.contents = s.contents) :
    Sound refs t := by
  simp only [Memory.contents, Prod.mk.injEq] at same
  obtain ⟨items, slots, assoc, owner, cut⟩ := same
  obtain ⟨inSlots, nodup, inTable, chunk, heads, distinct, count, idle, few, placed⟩ := sound
  constructor <;> (try simp only [items, slots, assoc, owner, cut]) <;> assumption

/-- From `s` to `t`, the page `p` without a chunk in use was given to a class. -/
structure Grown (p : Nat) (s t : Memory) : Prop where
  empty : ∀ x, x.page = p → (s.items x).role = .cleared
  items : ∀ x, x.page ≠ p → t.items x = s.items x
  owner : ∀ q, q ≠ p → t.owner q = s.owner q
  cut : ∀ q, q ≠ p → t.cut q = s.cut q
  mapped : ∀ q, q ≠ p → t.mapped q = s.mapped q
  slabList : ∀ c, 1 ≤ c → s.slabList c <+: t.slabList c
  pages : s.pages ≤ t.pages

theorem Inv.grow (inv : Inv cfg w) (grown : Grown p w.mem s) (elsewhere : ∀ m ∈ w.mover, m.page ≠ p)
    (sound : Sound w.refs s) (laid : Laid cfg s) : Inv cfg { w with mem := s } := by
  -- a chunk in use is in another page
  have stays : ∀ x, (w.mem.items x).role ≠ .cleared → s.items x = w.mem.items x :=
    fun x used => grown.items x fun here => used (grown.empty x here)
  refine ⟨sound, laid, fun m moving => ?_, fun m moving h mem => ?_, inv.rest⟩
  · have other := elsewhere m moving
    have scan := inv.scan m moving
    refine ⟨?_, scan.real, ?_, ?_, fun outside => ?_, fun idle y before => ?_, fun done => ?_⟩
    · rw [grown.owner _ other]
      exact scan.owner
    · rw [grown.cut _ other]
      exact scan.cut
    · exact Nat.lt_of_lt_of_le scan.known grown.pages
    · obtain ⟨listed, room⟩ := scan.tenant outside
      obtain ⟨more, same⟩ := grown.slabList m.sClsid scan.real
      rw [grown.mapped _ other]
      refine ⟨?_, room⟩
      show (s.slabList m.sClsid)[m.index]? = some m.page
      rwa [← same, List.getElem?_append_left (List.getElem?_eq_some_iff.mp listed).1]
    · dsimp only
      rw [grown.items _ other]
      exact scan.behind idle y before
    · refine ⟨(scan.finished done).1, fun y before => ?_⟩
      dsimp only
      rw [grown.items _ other]
      exact (scan.finished done).2 y before
  · have holds := inv.hold m moving h mem
    have head := stays h.it (by simp [holds.linked])
    refine ⟨by rw [head]; exact holds.linked, holds.alone, ?_, fun x new => ?_⟩
    · have place := holds.place
      split
      · next none => simpa [none] using place
      · next ch part =>
        simp only [part] at place
        dsimp only
        rwa [stays ch (by simp [place.2])]
    · have fresh := holds.fresh x new
      dsimp only
      rwa [stays x (by simp [fresh.1])]

theorem Laid.map (laid : Laid cfg s) {base len : Nat} (unmapped : len = 0 ∨ s.Unmapped base len) :
    Laid cfg (s.map base len) := by
  have others : ∀ {p}, p < s.pages → p ≠ s.pages := fun known => Nat.ne_of_lt known
  refine ⟨fun p => ?_, fun p q knownP knownQ other => ?_, fun p beyond => ?_, fun c p mem => ?_,
    laid.pool, laid.nodup⟩
  · by_cases new : p = s.pages
    · have none := (laid.fresh p (Nat.le_of_eq new.symm)).1
      show s.cut p * _ ≤ _
      rw [none, Nat.zero_mul]
      exact Nat.zero_le _
    · show _ ≤ update s.mapped s.pages len p
      rw [update_of_ne new]
      exact laid.within p
  · simp only [Memory.map] at knownP knownQ ⊢
    by_cases newP : p = s.pages
    · have oldQ : q < s.pages := by omega
      rw [newP, update_self, update_self, update_of_ne (others oldQ),
        update_of_ne (others oldQ)]
      rcases unmapped with nothing | unmapped
      · exact .inl nothing
      rcases unmapped q oldQ with none | before | after
      · exact .inr (.inl none)
      · exact .inr (.inr (.inl before))
      · exact .inr (.inr (.inr after))
    · have oldP : p < s.pages := by omega
      rw [update_of_ne newP, update_of_ne newP]
      by_cases newQ : q = s.pages
      · rw [newQ, update_self, update_self]
        rcases unmapped with nothing | unmapped
        · exact .inr (.inl nothing)
        rcases unmapped p oldP with none | before | after
        · exact .inl none
        · exact .inr (.inr (.inr before))
        · exact .inr (.inr (.inl after))
      · rw [update_of_ne newQ, update_of_ne newQ]
        exact laid.apart p q oldP (by omega) other
  · have beyond : s.pages + 1 ≤ p := beyond
    obtain ⟨none, nothing⟩ := laid.fresh p (by omega)
    refine ⟨none, ?_⟩
    show update s.mapped s.pages len p = 0
    rwa [update_of_ne (by omega)]
  · exact Nat.lt_succ_of_lt (laid.listed c p mem)

theorem Laid.cutPage (laid : Laid cfg s) {t : Memory} {c n : Nat}
    (book : t.book = (update s.owner p c, update s.cut p n, s.base, s.mapped, l, s.pages))
    (room : n * cfg.size c ≤ s.mapped p) (known : p < s.pages)
    (listed : ∀ d, ∀ q ∈ l d, q ∈ s.slabList d ∨ q = p) (pool : p ∈ l 0 → c = 0)
    (nodup : (l 0).Nodup) : Laid cfg t := by
  simp only [Memory.book, Prod.mk.injEq] at book
  obtain ⟨owner, cut, base, mapped, slabList, pages⟩ := book
  refine ⟨fun q => ?_, ?_, fun q beyond => ?_, fun d q mem => ?_, fun q mem => ?_, ?_⟩
  · rw [owner, cut, mapped]
    by_cases same : q = p
    · rwa [same, update_self, update_self]
    · rw [update_of_ne same, update_of_ne same]
      exact laid.within q
  · rw [base, mapped, pages]
    exact laid.apart
  · rw [pages] at beyond
    rw [cut, mapped, update_of_ne (by omega)]
    exact laid.fresh q beyond
  · rw [slabList] at mem
    rw [pages]
    rcases listed d q mem with old | rfl
    · exact laid.listed d q old
    · exact known
  · rw [slabList] at mem
    rw [owner]
    by_cases same : q = p
    · subst same
      rw [update_self]
      exact pool mem
    · rw [update_of_ne same]
      exact laid.pool q ((listed 0 q mem).resolve_right same)
  · rwa [slabList]

theorem book_split_append (s : Memory) (cfg : Config) (p c sizee : Nat) :
    ((s.split cfg p c sizee).append c p).book = (update s.owner p c,
      update s.cut p (sizee / cfg.size c), s.base, s.mapped,
      update s.slabList c (s.slabList c ++ [p]), s.pages) := by
  have book := split_book s cfg p c sizee
  simp only [Memory.book, Prod.mk.injEq] at book
  obtain ⟨owner, cut, base, mapped, slabList, pages⟩ := book
  simp only [Memory.book, Memory.append, owner, cut, base, mapped, slabList, pages]

theorem div_mul_size_le (cfg : Config) (sizee c : Nat) : sizee / cfg.size c * cfg.size c ≤ sizee :=
  Nat.div_mul_le_self sizee (cfg.size c)

theorem Inv.cutPage {c sizee : Nat} (inv : Inv cfg w) (same : s.contents = w.mem.contents)
    (laid : Laid cfg s) (real : 1 ≤ c) (room : sizee ≤ s.mapped p) (known : p < s.pages)
    (empty : ∀ x : Chunk, x.page = p → (w.mem.items x).role = .cleared)
    (elsewhere : ∀ m ∈ w.mover, m.page ≠ p) (unlisted : p ∉ s.slabList 0)
    (maps : ∀ q, q ≠ p → s.mapped q = w.mem.mapped q)
    (lists : ∀ d, 1 ≤ d → s.slabList d = w.mem.slabList d) (more : w.mem.pages ≤ s.pages) :
    Inv cfg { w with mem := (s.split cfg p c sizee).append c p } := by
  have sound := inv.sound.congr same
  simp only [Memory.contents, Prod.mk.injEq] at same
  obtain ⟨items, -, -, owners, cuts⟩ := same
  have book := book_split_append s cfg p c sizee
  have pool : update s.slabList c (s.slabList c ++ [p]) 0 = s.slabList 0 :=
    update_of_ne (by omega) ..
  have next : Laid cfg ((s.split cfg p c sizee).append c p) := by
    refine laid.cutPage book (Nat.le_trans (div_mul_size_le cfg sizee c) room) known
      (fun d q mem => mem_update_append mem) (fun mem => ?_) ?_
    · rw [pool] at mem
      exact absurd mem unlisted
    · rw [pool]
      exact laid.nodup
  simp only [Memory.book, Prod.mk.injEq] at book
  obtain ⟨owner, cut, -, mapped, slabList, pages⟩ := book
  have cutSound : Sound w.refs ((s.split cfg p c sizee).append c p) :=
    (sound.split cfg sizee (by rw [items]; exact empty) real).congr rfl
  refine inv.grow ⟨empty, fun x other => ?_, fun q other => ?_, fun q other => ?_,
    fun q other => ?_, fun d real => ?_, ?_⟩ elsewhere cutSound next
  · exact (split_items s cfg p c sizee other).trans (by rw [items])
  · rw [owner, update_of_ne other, owners]
  · rw [cut, update_of_ne other, cuts]
  · rw [mapped]
    exact maps q other
  · rw [slabList, ← lists d real]
    exact prefix_update_append ..
  · rwa [pages]

theorem Inv.cutMapped (inv : Inv cfg w) {c base len sizee : Nat} (real : 1 ≤ c) (room : sizee ≤ len)
    (unmapped : w.mem.Unmapped base len) : Inv cfg { w with
      mem := ((w.mem.map base len).split cfg w.mem.pages c sizee).append c w.mem.pages } := by
  have laid := inv.laid
  refine inv.cutPage rfl (laid.map (.inr unmapped)) real ?_ (Nat.lt_succ_self _) (fun x here => ?_)
    (fun m moving => Nat.ne_of_lt (inv.scan m moving).known) (fun mem => ?_) (fun q other => ?_)
    (fun _ _ => rfl) (Nat.le_succ _)
  · show sizee ≤ update w.mem.mapped w.mem.pages len w.mem.pages
    rwa [update_self]
  · by_contra used
    have := (inv.sound.placed x used).1
    rw [here, (laid.fresh _ (Nat.le_refl _)).1] at this
    exact Nat.not_lt_zero _ this
  · exact Nat.lt_irrefl _ (laid.listed 0 _ mem)
  · exact update_of_ne other ..

variable {t : World}

theorem Inv.newslab (inv : Inv cfg w) {c base : Nat} (even : Even cfg w (.newslab c base))
    (called : step cfg w (.newslab c base) = some t) : Inv cfg t := by
  obtain ⟨real, called⟩ := Option.ite_none_right_eq_some.mp called
  obtain ⟨s, made, rfl⟩ := Option.map_eq_some_iff.mp called
  have laid := inv.laid
  unfold Memory.newslab at made
  split at made
  · next p last =>
    cases made
    -- nothing in a page of the pool is in use
    have mem := List.mem_of_getLast? last
    have owner := laid.pool p mem
    have parts := List.dropLast_append_getLast? p last
    have nodup := laid.nodup
    rw [← parts, List.nodup_append] at nodup
    have pool : update w.mem.slabList 0 (w.mem.slabList 0).dropLast 0
        = (w.mem.slabList 0).dropLast := update_self ..
    refine inv.cutPage rfl ⟨laid.within, laid.apart, laid.fresh, fun d q mem => ?_, fun q mem => ?_, ?_⟩
      real (even p last) (laid.listed 0 p mem) (fun x here => ?_) (fun m moving same => ?_)
      (fun mem => ?_) (fun _ _ => rfl) (fun d real => ?_) (Nat.le_refl _)
    · by_cases none : d = 0
      · subst none
        dsimp only at mem
        rw [pool] at mem
        exact laid.listed 0 q (List.dropLast_subset _ mem)
      · dsimp only at mem
        rw [update_of_ne none] at mem
        exact laid.listed d q mem
    · dsimp only at mem
      rw [pool] at mem
      exact laid.pool q (List.dropLast_subset _ mem)
    · dsimp only
      rw [pool]
      exact nodup.1
    · by_contra used
      have := (inv.sound.placed x used).2
      rw [here, owner] at this
      omega
    · have scan := inv.scan m moving
      have := scan.real
      rw [← scan.owner, same, owner] at this
      omega
    · dsimp only at mem
      rw [pool] at mem
      exact nodup.2.2 p mem p (by simp) rfl
    · exact update_of_ne (by omega) ..
  · dsimp only at made
    obtain ⟨unmapped, ⟨⟩⟩ := Option.ite_none_right_eq_some.mp made
    exact inv.cutMapped real (Nat.le_of_lt (cfg.lt_adjustSize _)) unmapped

theorem Inv.receive (inv : Inv cfg w) {c base spare : Nat}
    (called : step cfg w (.receive c base spare) = some t) : Inv cfg t := by
  obtain ⟨real, called⟩ := Option.ite_none_right_eq_some.mp called
  obtain ⟨s, made, rfl⟩ := Option.map_eq_some_iff.mp called
  obtain ⟨unmapped, ⟨⟩⟩ := Option.ite_none_right_eq_some.mp made
  refine inv.cutMapped real ?_ unmapped
  exact Nat.le_min.mpr ⟨Nat.le_of_lt (cfg.lt_adjustSize _), Nat.min_le_right ..⟩

theorem Inv.receiveRemote (inv : Inv cfg w) {c : Nat}
    (called : step cfg w (.receiveRemote c) = some t) : Inv cfg t := by
  obtain ⟨real, ⟨⟩⟩ := Option.ite_none_right_eq_some.mp called
  have laid := inv.laid
  obtain ⟨none, nothing⟩ := laid.fresh _ (Nat.le_refl w.mem.pages)
  have empty : ∀ x : Chunk, x.page = w.mem.pages → (w.mem.items x).role = .cleared := by
    intro x here
    by_contra used
    have := (inv.sound.placed x used).1
    rw [here, none] at this
    exact Nat.not_lt_zero _ this
  have sound := inv.sound.rebook c (w.mem.cut w.mem.pages) empty
  rw [update_eq_self] at sound
  have pool : update w.mem.slabList c (w.mem.slabList c ++ [w.mem.pages]) 0
      = w.mem.slabList 0 := update_of_ne (by omega) ..
  have same : (w.mem.receiveRemote c).book = (update w.mem.owner w.mem.pages c,
      update w.mem.cut w.mem.pages 0,
      update w.mem.base w.mem.pages (w.mem.base w.mem.pages),
      update w.mem.mapped w.mem.pages 0,
      update w.mem.slabList c (w.mem.slabList c ++ [w.mem.pages]), w.mem.pages + 1) := by
    nth_rw 1 [← none, ← nothing]
    simp only [update_eq_self]
    rfl
  have next : Laid cfg (w.mem.receiveRemote c) := by
    have extended : Laid cfg (w.mem.map (w.mem.base w.mem.pages) 0) := laid.map (.inl rfl)
    refine extended.cutPage same (by simp) (Nat.lt_succ_self _)
      (fun d q mem => mem_update_append mem) (fun mem => ?_) ?_
    · rw [pool] at mem
      exact absurd (laid.listed 0 _ mem) (Nat.lt_irrefl _)
    · rw [pool]
      exact laid.nodup
  refine inv.grow ⟨empty, fun _ _ => rfl, fun q other => update_of_ne other ..,
    fun _ _ => rfl, fun _ _ => rfl, fun d _ => prefix_update_append .., Nat.le_succ _⟩
    (fun m moving => Nat.ne_of_lt (inv.scan m moving).known) (sound.congr rfl) next

end Pages

end MemExchange.Evacuation
