import MemExchange.Slabs.Attach

/-!
# Local free lists

The free list of a class has exactly the chunks of its local pages that are flagged
`ITEM_SLABBED`, each once, and a chunk that is handed out knows the class it came from.
-/
namespace MemExchange.Slabs

/-- Chunk `y` of page `page` belongs to an entry of class `id` whose connection is as `ok`
says. -/
def Holds (w : World) (id : Int) (ok : Option Nat → Prop) (page y : Nat) : Prop :=
  ∃ i, Lists w id i page ∧ ok ((w.pages id).conn i) ∧ y < w.cut page

/-- The chunk is one of those that a local page of the class was split into. -/
def InClass (w : World) (id : Int) : Chunk → Prop
  | .cell page y => Holds w id (· = none) page y
  | .temp _ => False

/-- The free list of class `id` is `l`. -/
structure FreeList (w : World) (id : Int) (l : List Chunk) : Prop where
  rep : (w.cls id).slots.Rep l
  length : l.length = (w.cls id).slCurr
  mem : ∀ c, c ∈ l ↔ InClass w id c ∧ (w.header c).flag = .slabbed

def Flag.taken (f : Flag) : Prop := f = .used ∨ f = .linked

structure Stocked (cfg : Config) (w : World) : Prop where
  free : ∀ id, cfg.isClass id = true → ∃ l, FreeList w id l
  taken : ∀ page y, (w.header (.cell page y)).flag.taken →
    cfg.isClass (w.header (.cell page y)).clsid = true ∧
      InClass w (w.header (.cell page y)).clsid (.cell page y)

section Stocked

variable {cfg : Config} {w w' : World}

/-! ### Chunks and page tables -/

variable {ok : Option Nat → Prop} {p y page n idx : Nat} {s : Int} {c it : Chunk} {number : UInt16}
  {id : Int}
  {mr : Mr}

theorem holds_congr (pages : w'.pages id = w.pages id) (cut : w'.cut = w.cut) :
    Holds w' id ok p y ↔ Holds w id ok p y := by
  simp only [Holds, Lists, pages, cut]

theorem Quiet.holds (quiet : Quiet w w') (class_ : id ≠ 0) (ok : Option Nat → Prop)
    (p y : Nat) : Holds w' id ok p y ↔ Holds w id ok p y := by
  simp only [Holds, Lists, quiet.slabs id class_, quiet.slabList, quiet.conn, quiet.cut]

theorem Layout.holds_unique (layout : Layout cfg w) {id id' : Int} {ok' : Option Nat → Prop}
    {y' : Nat} (one : Holds w id ok p y) (two : Holds w id' ok' p y') :
    id = id' ∧ ∃ c, ok c ∧ ok' c := by
  obtain ⟨i, lists, isOk, -⟩ := one
  obtain ⟨j, lists', isOk', -⟩ := two
  obtain ⟨rfl, rfl⟩ := layout.apart lists lists'
  exact ⟨rfl, _, isOk, isOk'⟩

theorem holds_attach {rkey : Nat} {conn : Option Nat}
    (pages : ∀ other, w'.pages other =
      if other = id then (w.pages id).attach (some page) rkey conn else w.pages other)
    (cut : w'.cut = Function.update w.cut page n) (fresh : Fresh w page) (other : Int)
    (ok : Option Nat → Prop) (p y : Nat) :
    Holds w' other ok p y ↔ Holds w other ok p y ∨ (other = id ∧ ok conn ∧ p = page ∧ y < n) := by
  have conn' : ∀ i, (w'.pages other).conn i = if other = id ∧ i = (w.pages id).slabs then conn
      else (w.pages other).conn i := by
    intro i
    rw [pages]
    by_cases here : other = id
    · subst here
      simp only [if_true, true_and, PageTable.attach, Function.update_apply]
    · simp only [here, if_false, false_and]
  have cut' : w'.cut p = if p = page then n else w.cut p := by
    rw [cut, Function.update_apply]
  simp only [Holds, lists_attach pages, conn', cut']
  constructor
  · rintro ⟨i, old | ⟨rfl, rfl, rfl⟩, isOk, inside⟩
    · have different : p ≠ page := fun same => fresh.free other i (same ▸ old)
      rw [if_neg different] at inside
      split at isOk
      next last =>
        obtain ⟨rfl, same⟩ := last
        have := old.1
        omega
      next => exact .inl ⟨i, old, isOk, inside⟩
    · rw [if_pos ⟨rfl, rfl⟩] at isOk
      rw [if_pos rfl] at inside
      exact .inr ⟨rfl, isOk, rfl, inside⟩
  · rintro (⟨i, old, isOk, inside⟩ | ⟨rfl, isOk, rfl, inside⟩)
    · have different : p ≠ page := fun same => fresh.free other i (same ▸ old)
      refine ⟨i, .inl old, ?_, by rw [if_neg different]; exact inside⟩
      split
      next last =>
        obtain ⟨rfl, same⟩ := last
        have := old.1
        omega
      next => exact isOk
    · exact ⟨_, .inr ⟨rfl, rfl, rfl⟩, by rw [if_pos ⟨rfl, rfl⟩]; exact isOk,
        by rw [if_pos rfl]; exact inside⟩

theorem removePage_conn (inside : idx < (w.pages s).slabs) (id : Int) {i : Nat}
    (inUse : i < ((w.removePage cfg s idx).pages id).slabs) :
    ((w.removePage cfg s idx).pages id).conn i =
      (w.pages id).conn (if id = s ∧ ¬ i < idx then i + 1 else i : Nat) := by
  rw [World.removePage_pages] at inUse ⊢
  by_cases here : id = s
  · subst here
    rw [if_pos rfl, PageTable.remove_slabs, decr, if_neg (by omega)] at inUse
    have entry := congrArg Entry.conn ((w.pages id).remove_entry inside inUse)
    rw [if_pos rfl]
    simp only [PageTable.entry] at entry
    rw [entry]
    by_cases before : i < idx
    · rw [if_pos before, if_neg (fun both => both.2 before)]
    · rw [if_neg before, if_pos ⟨rfl, before⟩]
  · rw [if_neg here, if_neg fun both => here both.1]

theorem holds_remove (layout : Layout cfg w) (lists : Lists w s idx page) (id : Int)
    (ok : Option Nat → Prop) (p y : Nat) :
    Holds (w.removePage cfg s idx) id ok p y ↔ Holds w id ok p y ∧ p ≠ page := by
  have inside := lists.1
  have tables := lists_remove inside (w.removePage_pages cfg s idx)
  have cut : (w.removePage cfg s idx).cut = w.cut := (shiftPages_cut _ _ _).1
  simp only [Holds, cut]
  constructor
  · rintro ⟨i, there, isOk, bound⟩
    rw [removePage_conn inside id there.1] at isOk
    have before := (tables id i p).mp there
    refine ⟨⟨_, before, isOk, bound⟩, ?_⟩
    rintro rfl
    obtain ⟨rfl, same⟩ := layout.apart before lists
    split at same <;> omega
  · rintro ⟨⟨i, before, isOk, bound⟩, different⟩
    have other : id = s → i ≠ idx := by
      rintro rfl rfl
      exact different (Option.some.inj (before.2.symm.trans lists.2))
    -- where the entry of the page is now
    let now := if id = s ∧ idx < i then i - 1 else i
    have back : (if id = s ∧ ¬ now < idx then now + 1 else now) = i := by
      simp only [now]
      by_cases here : id = s
      · have := other here
        simp only [here, true_and]
        split <;> split <;> omega
      · simp only [here, false_and, if_false]
    have there : Lists (w.removePage cfg s idx) id now p := by
      rwa [tables id now p, back]
    exact ⟨now, there, by rw [removePage_conn inside id there.1, back]; exact isOk, bound⟩

theorem Fresh.not_holds (fresh : Fresh w page) (id : Int) (ok : Option Nat → Prop) (y : Nat) :
    ¬ Holds w id ok page y := fun ⟨i, lists, _⟩ => fresh.free id i lists

/-! ### Free lists -/

theorem inClass_cell : InClass w id (.cell p y) ↔ Holds w id (· = none) p y := Iff.rfl

theorem Fresh.not_inClass (fresh : Fresh w page) (id : Int) (y : Nat) :
    ¬ InClass w id (.cell page y) := by
  rw [inClass_cell]
  exact fresh.not_holds id _ y

theorem InClass.congr (inClass : InClass w id c) (pages : w'.pages id = w.pages id)
    (cut : w'.cut = w.cut) : InClass w' id c := by
  cases c with
  | temp n => exact inClass
  | cell page y => exact (holds_congr pages cut).mpr (inClass_cell.mp inClass)

theorem inClass_iff (c : Chunk) (pages : w'.pages id = w.pages id)
    (cut : w'.cut = w.cut) : InClass w' id c ↔ InClass w id c :=
  ⟨fun there => there.congr pages.symm cut.symm, fun there => there.congr pages cut⟩

theorem Layout.inClass_unique (layout : Layout cfg w) {id id' : Int} (one : InClass w id c)
    (two : InClass w id' c) : id = id' := by
  cases c with
  | temp n => exact one.elim
  | cell page y => exact (layout.holds_unique (inClass_cell.mp one) (inClass_cell.mp two)).1

theorem FreeList.congr {l : List Chunk} (list : FreeList w id l)
    (pages : w'.pages id = w.pages id) (cut : w'.cut = w.cut)
    (slots : (w'.cls id).slots = (w.cls id).slots) (slCurr : (w'.cls id).slCurr = (w.cls id).slCurr)
    (flags : ∀ c, InClass w id c → ((w'.header c).flag = .slabbed ↔ (w.header c).flag = .slabbed)) :
    FreeList w' id l where
  rep := by rw [slots]; exact list.rep
  length := by rw [slCurr]; exact list.length
  mem c := by
    rw [list.mem, inClass_iff c pages cut]
    exact and_congr_right fun inClass => (flags c inClass).symm

theorem Stocked.keep (stocked : Stocked cfg w) (same : SamePages w w')
    (slots : ∀ id, (w'.cls id).slots = (w.cls id).slots)
    (slCurr : ∀ id, (w'.cls id).slCurr = (w.cls id).slCurr)
    (flags : ∀ page y, (w'.header (.cell page y)).flag = .slabbed ↔
      (w.header (.cell page y)).flag = .slabbed)
    (taken : ∀ page y, (w'.header (.cell page y)).flag.taken →
      cfg.isClass (w'.header (.cell page y)).clsid = true ∧
        InClass w (w'.header (.cell page y)).clsid (.cell page y)) : Stocked cfg w' where
  free id isClass := by
    obtain ⟨l, list⟩ := stocked.free id isClass
    refine ⟨l, list.congr (same.pages id) same.cut (slots id) (slCurr id) fun c inClass => ?_⟩
    cases c with
    | temp n => exact inClass.elim
    | cell page y => exact flags page y
  taken page y out := by
    obtain ⟨isClass, inClass⟩ := taken page y out
    exact ⟨isClass, inClass.congr (same.pages _) same.cut⟩

theorem Quiet.inClass (quiet : Quiet w w') (class_ : id ≠ 0) (c : Chunk) :
    InClass w' id c ↔ InClass w id c := by
  cases c with
  | temp n => exact Iff.rfl
  | cell page y => rw [inClass_cell, inClass_cell, quiet.holds class_]

theorem Stocked.quiet (stocked : Stocked cfg w) (quiet : Quiet w w') : Stocked cfg w' where
  free id isClass := by
    obtain ⟨l, list⟩ := stocked.free id isClass
    refine ⟨l, by rw [quiet.slots]; exact list.rep, by rw [quiet.slCurr]; exact list.length, fun c => ?_⟩
    rw [list.mem, quiet.inClass (ne_zero_of_isClass isClass), quiet.header]
  taken page y out := by
    rw [quiet.header] at out ⊢
    obtain ⟨isClass, inClass⟩ := stocked.taken page y out
    exact ⟨isClass, (quiet.inClass (ne_zero_of_isClass isClass) _).mpr inClass⟩

/-! ### One chunk -/

theorem Stocked.relist (stocked : Stocked cfg w) (layout : Layout cfg w) (here : InClass w s c)
    (same : SamePages w w')
    (others : ∀ id, id ≠ s → (w'.cls id).slots = (w.cls id).slots ∧
      (w'.cls id).slCurr = (w.cls id).slCurr) (headers : ∀ x, x ≠ c → w'.header x = w.header x)
    (list : ∃ l, FreeList w' s l)
    (taken : (w'.header c).flag.taken → cfg.isClass (w'.header c).clsid = true ∧
      InClass w (w'.header c).clsid c) : Stocked cfg w' where
  free id isClass := by
    by_cases this : id = s
    · rw [this]; exact list
    obtain ⟨l, old⟩ := stocked.free id isClass
    refine ⟨l, old.congr (same.pages id) same.cut (others id this).1 (others id this).2 ?_⟩
    intro x inClass
    rw [headers x fun equal => this (layout.inClass_unique inClass (equal ▸ here))]
  taken page y out := by
    have both : cfg.isClass (w'.header (.cell page y)).clsid = true ∧
        InClass w (w'.header (.cell page y)).clsid (.cell page y) := by
      by_cases equal : Chunk.cell page y = c
      · rw [equal] at out ⊢
        exact taken out
      · rw [headers _ equal] at out ⊢
        exact stocked.taken page y out
    exact ⟨both.1, both.2.congr (same.pages _) same.cut⟩

theorem doSlabsFree_header (cfg : Config) (w : World) (c x : Chunk)
    (isClass : cfg.isClass id = true) : (w.doSlabsFree cfg c id).header x =
      if x = c then { w.header c with flag := .slabbed, clsid := 0 } else w.header x := by
  rw [World.doSlabsFree, if_pos isClass, World.setClass_header, World.setHeader_header]

theorem doSlabsFree_cls (cfg : Config) (w : World) (c : Chunk)
    (isClass : cfg.isClass id = true) (other : Int) : (w.doSlabsFree cfg c id).cls other =
      if other = id then
        { w.cls id with slots := (w.cls id).slots.push c, slCurr := (w.cls id).slCurr + 1 }
      else w.cls other := by
  rw [World.doSlabsFree, if_pos isClass, World.setClass_cls, World.setHeader_cls]

theorem Stocked.doSlabsFree (stocked : Stocked cfg w) (layout : Layout cfg w)
    (isClass : cfg.isClass id = true) (here : InClass w id c) (out : (w.header c).flag ≠ .slabbed) :
    Stocked cfg (w.doSlabsFree cfg c id) := by
  have header x := doSlabsFree_header cfg w c x isClass
  have cls := doSlabsFree_cls cfg w c isClass
  have same := (w.doSlabsFree_uncut cfg c id).samePages
  obtain ⟨l, list⟩ := stocked.free id isClass
  refine stocked.relist layout here same (fun other not_ => ?_) (fun x not_ => ?_)
    ⟨c :: l, ?_, ?_, fun x => ?_⟩ fun taken => ?_
  · rw [cls, if_neg not_]
    exact ⟨rfl, rfl⟩
  · rw [header x, if_neg not_]
  · rw [cls, if_pos rfl]
    exact list.rep.push fun member => out ((list.mem c).mp member).2
  · rw [cls, if_pos rfl, List.length_cons, list.length]
  · rw [List.mem_cons, list.mem, inClass_iff x (same.pages id) same.cut, header x]
    by_cases equal : x = c
    · simp only [equal, true_or, if_true, here, and_self]
    · simp only [equal, false_or, if_false]
  · rw [header c, if_pos rfl] at taken
    simp [Flag.taken] at taken

theorem FreeList.unlink {l : List Chunk} (list : FreeList w id l)
    (member : c ∈ l) (same : SamePages w w') (slots : (w'.cls id).slots = (w.cls id).slots.unlink c)
    (slCurr : (w'.cls id).slCurr = (w.cls id).slCurr - 1)
    (headers : ∀ x, x ≠ c → w'.header x = w.header x) (gone : (w'.header c).flag ≠ .slabbed) :
    FreeList w' id (l.erase c) where
  rep := by rw [slots]; exact list.rep.unlink member
  length := by rw [slCurr, List.length_erase_of_mem member, list.length]
  mem x := by
    rw [list.rep.nodup.mem_erase_iff, list.mem, inClass_iff x (same.pages id) same.cut]
    by_cases equal : x = c
    · simp only [equal, ne_eq, not_true_eq_false, false_and, gone, and_false]
    · rw [headers x equal]
      exact ⟨fun both => both.2, fun both => ⟨equal, both⟩⟩

/-- The head of the free list is taken and marked as used. -/
theorem takeSlot_spec (taken : w.takeSlot id = some (it, w')) :
    (w.cls id).slots.head = some it ∧
    (∀ x, w'.header x = if x = it then { w.header it with flag := .used, clsid := id } else w.header x) ∧
    (∀ other, w'.cls other = if other = id then
      { w.cls id with slots := (w.cls id).slots.unlink it, slCurr := (w.cls id).slCurr - 1 }
      else w.cls other) ∧ SamePages w w' := by
  have samePages := (w.takeSlot_uncut taken).samePages
  obtain ⟨head, first, same⟩ := Option.map_eq_some_iff.mp taken
  cases same
  refine ⟨first, fun x => ?_, fun other => ?_, samePages⟩
  · rw [World.setClass_header, World.setHeader_header]
  · rw [World.setClass_cls, World.setHeader_cls]

theorem Stocked.takeSlot (stocked : Stocked cfg w) (layout : Layout cfg w)
    (isClass : cfg.isClass id = true) (taken : w.takeSlot id = some (it, w')) :
    Stocked cfg w' ∧ InClass w id it ∧ (w.header it).flag = .slabbed := by
  obtain ⟨head, header, cls, same⟩ := takeSlot_spec taken
  obtain ⟨l, list⟩ := stocked.free id isClass
  have member : it ∈ l := by
    have first := list.rep.head
    rw [head] at first
    exact List.mem_of_head? first.symm
  obtain ⟨here, free⟩ := (list.mem it).mp member
  have headers : ∀ x, x ≠ it → w'.header x = w.header x := fun x not_ => by rw [header, if_neg not_]
  refine ⟨stocked.relist layout here same (fun other not_ => ?_) headers ⟨l.erase it, ?_⟩ fun _ => ?_,
    here, free⟩
  · rw [cls, if_neg not_]
    exact ⟨rfl, rfl⟩
  · exact list.unlink member same (by rw [cls, if_pos rfl]) (by rw [cls, if_pos rfl]) headers
      (by rw [header, if_pos rfl]; simp)
  · rw [header, if_pos rfl]
    exact ⟨isClass, here⟩

theorem cutFree_spec (w : World) (it : Chunk) : (∀ x, (w.slabRebalanceCutFree it).header x =
      if x = it then { w.header it with flag := .cleared } else w.header x) ∧
    (∀ other, (w.slabRebalanceCutFree it).cls other = if other = w.rebal.sClsid then
      { w.cls w.rebal.sClsid with
        slots := (w.cls w.rebal.sClsid).slots.unlink it
        slCurr := (w.cls w.rebal.sClsid).slCurr - 1 }
      else w.cls other) ∧ SamePages w (w.slabRebalanceCutFree it) := by
  refine ⟨fun x => ?_, fun other => ?_, (w.slabRebalanceCutFree_uncut it).samePages⟩
  · rw [World.slabRebalanceCutFree, World.setHeader_header]
    rfl
  · rw [World.slabRebalanceCutFree, World.setHeader_cls, World.setClass_cls]

theorem Stocked.cutFree (stocked : Stocked cfg w) (layout : Layout cfg w)
    (isClass : cfg.isClass w.rebal.sClsid = true) (here : InClass w w.rebal.sClsid it)
    (free : (w.header it).flag = .slabbed) : Stocked cfg (w.slabRebalanceCutFree it) := by
  obtain ⟨header, cls, same⟩ := cutFree_spec w it
  obtain ⟨l, list⟩ := stocked.free _ isClass
  have member : it ∈ l := (list.mem it).mpr ⟨here, free⟩
  have headers : ∀ x, x ≠ it → (w.slabRebalanceCutFree it).header x = w.header x :=
    fun x not_ => by rw [header, if_neg not_]
  refine stocked.relist layout here same (fun other not_ => ?_) headers ⟨l.erase it, ?_⟩ fun taken => ?_
  · rw [cls, if_neg not_]
    exact ⟨rfl, rfl⟩
  · exact list.unlink member same (by rw [cls, if_pos rfl]) (by rw [cls, if_pos rfl]) headers
      (by rw [header, if_pos rfl]; simp)
  · rw [header, if_pos rfl] at taken
    simp [Flag.taken] at taken

/-! ### Pages -/

theorem AddsLocal.inClass (adds : AddsLocal cfg w w' id page n number)
    (fresh : Fresh w page) (other : Int) (p y : Nat) : InClass w' other (.cell p y) ↔
      InClass w other (.cell p y) ∨ (other = id ∧ p = page ∧ y < n) := by
  rw [inClass_cell, inClass_cell, holds_attach adds.pages adds.cut fresh]
  simp only [true_and]

theorem Stocked.addsLocal (stocked : Stocked cfg w) (fresh : Fresh w page)
    (adds : AddsLocal cfg w w' id page n number) : Stocked cfg w' := by
  have inClass := adds.inClass fresh
  have old : ∀ {other : Int} {c : Chunk}, InClass w other c → ∀ y, c ≠ .cell page y :=
    fun there y same => fresh.not_inClass _ y (same ▸ there)
  refine ⟨fun other isClass => ?_, fun p y out => ?_⟩
  · obtain ⟨l, list⟩ := stocked.free other isClass
    by_cases here : other = id
    · subst here
      -- the new chunks go in front, last one first
      set new := (List.range n).map (Chunk.cell page) with new_eq
      have mem_new : ∀ c, c ∈ new ↔ ∃ y < n, c = .cell page y := by
        intro c
        simp only [new_eq, List.mem_map, List.mem_range, eq_comm]
      have nodup : new.Nodup := List.nodup_range.map fun a b same => by cases same; rfl
      refine ⟨new.reverse ++ l, ?_, ?_, fun c => ?_⟩
      · rw [adds.slots, if_pos ⟨rfl, isClass⟩]
        refine list.rep.pushAll nodup fun c member inside => ?_
        obtain ⟨y, -, rfl⟩ := (mem_new c).mp member
        exact fresh.not_inClass _ y ((list.mem _).mp inside).1
      · rw [adds.slCurr, if_pos ⟨rfl, isClass⟩, List.length_append, List.length_reverse, list.length,
          new_eq, List.length_map, List.length_range, Nat.add_comm]
      · rw [List.mem_append, List.mem_reverse, mem_new, list.mem]
        cases c with
        | temp k => simp [InClass]
        | cell p y =>
          rw [inClass]
          by_cases same : p = page
          · subst same
            rw [adds.cells]
            have none_ := fresh.not_inClass other y
            simp only [Chunk.cell.injEq, true_and, none_, false_and, or_false, false_or]
            constructor
            · rintro ⟨y', inside, rfl⟩
              refine ⟨inside, ?_⟩
              rw [if_pos inside, isClass]
              rfl
            · rintro ⟨inside, -⟩
              exact ⟨y, inside, rfl⟩
          · have kept := adds.others (.cell p y) fun y' equal => same (by cases equal; rfl)
            simp only [Chunk.cell.injEq, same, false_and, and_false, exists_false, or_false, false_or, kept]
    · refine ⟨l, ?_, ?_, fun c => ?_⟩
      · rw [adds.slots, if_neg fun both => here both.1]; exact list.rep
      · rw [adds.slCurr, if_neg fun both => here both.1]; exact list.length
      · rw [list.mem]
        cases c with
        | temp k => simp [InClass]
        | cell p y =>
          rw [inClass]
          simp only [here, false_and, or_false]
          exact and_congr_right fun there => by rw [adds.others _ (old there)]
  · have different : ∀ y', Chunk.cell p y ≠ .cell page y' := by
      intro y' same
      cases same
      rw [adds.cells] at out
      -- the chunks of the new page are all free
      split at out
      · cases isClass : cfg.isClass id <;> simp [isClass, stamp, Flag.taken] at out
      · simp [Flag.taken] at out
    rw [adds.others _ different] at out ⊢
    obtain ⟨isClass, there⟩ := stocked.taken p y out
    exact ⟨isClass, (inClass _ p y).mpr (.inl there)⟩

theorem AddsRemote.inClass {c : Nat} (adds : AddsRemote cfg w w' id page n number c mr)
    (fresh : Fresh w page) (other : Int) (p y : Nat) :
    InClass w' other (.cell p y) ↔ InClass w other (.cell p y) := by
  rw [inClass_cell, inClass_cell, holds_attach adds.pages adds.cut fresh]
  simp only [reduceCtorEq, false_and, and_false, or_false]

theorem Stocked.addsRemote (stocked : Stocked cfg w) {c : Nat} (fresh : Fresh w page)
    (adds : AddsRemote cfg w w' id page n number c mr) : Stocked cfg w' := by
  have inClass := adds.inClass fresh
  refine ⟨fun other isClass => ?_, fun p y out => ?_⟩
  · obtain ⟨l, list⟩ := stocked.free other isClass
    refine ⟨l, by rw [adds.slots]; exact list.rep, by rw [adds.slCurr]; exact list.length, fun c => ?_⟩
    rw [list.mem, adds.header]
    cases c with
    | temp k => exact Iff.rfl
    | cell p y => rw [inClass]
  · rw [adds.header] at out ⊢
    obtain ⟨isClass, there⟩ := stocked.taken p y out
    exact ⟨isClass, (inClass _ p y).mpr there⟩

/-- The free lists stay as they are, and of the chunks all but their numbers. -/
structure SameChunks (w w' : World) : Prop where
  headers : ∀ c, (w'.header c).flag = (w.header c).flag ∧ (w'.header c).clsid = (w.header c).clsid ∧
    (w'.header c).rIt = (w.header c).rIt
  lists : ∀ id, (w'.cls id).slots = (w.cls id).slots ∧ (w'.cls id).slCurr = (w.cls id).slCurr ∧
    (w'.cls id).rslots = (w.cls id).rslots ∧ (w'.cls id).slCurrR = (w.cls id).slCurrR
  index : w'.index = w.index
  temps : w'.temps = w.temps
  nextTemp : w'.nextTemp = w.nextTemp

theorem shiftPages_chunks (cfg : Config) (w : World) (s x : Int) (n : Nat) :
    SameChunks w (w.shiftPages cfg s x n) := by
  induction n generalizing w x with
  | zero => exact ⟨fun _ => ⟨rfl, rfl, rfl⟩, fun _ => ⟨rfl, rfl, rfl, rfl⟩, rfl, rfl, rfl⟩
  | succ n ih =>
    set copied := w.setPages s (·.copyDown x) with copied_eq
    obtain ⟨headers, lists, index, temps, nextTemp⟩ := ih (copied.renumber cfg s x) (x + 1)
    have lists' := fun id => setPages_slots w s id (·.copyDown x)
    rw [World.shiftPages]
    refine ⟨fun c => ?_, fun id => ?_, index.trans ?_, temps.trans ?_, nextTemp.trans ?_⟩
    · obtain ⟨flag, clsid, rIt⟩ := headers c
      rw [flag, clsid, rIt, World.renumber]
      simp only
      split
      · cases c with
        | temp k => exact ⟨rfl, rfl, rfl⟩
        | cell p y => simp only; split <;> exact ⟨rfl, rfl, rfl⟩
      · exact ⟨rfl, rfl, rfl⟩
    · obtain ⟨slots, slCurr, rslots, slCurrR⟩ := lists id
      obtain ⟨slots', slCurr', rslots', slCurrR'⟩ := lists' id
      rw [slots, slCurr, rslots, slCurrR, ← slots', ← slCurr', ← rslots', ← slCurrR', World.renumber]
      simp only
      split <;> exact ⟨rfl, rfl, rfl, rfl⟩
    all_goals
      rw [World.renumber]
      simp only
      split <;> rfl

theorem removePage_chunks (cfg : Config) (w : World) (s idx : Int) :
    SameChunks w (w.removePage cfg s idx) := by
  obtain ⟨headers, lists, index, temps, nextTemp⟩ := shiftPages_chunks cfg
    (w.setPages s fun t => { t with slabs := decr (w.pages s).slabs }) s idx
    (PageTable.rounds (w.pages s).slabs idx)
  refine ⟨headers, fun id => ?_, index, temps, nextTemp⟩
  obtain ⟨slots, slCurr, rslots, slCurrR⟩ := lists id
  rw [World.removePage, (setPages_slots _ s id _).1, (setPages_slots _ s id _).2.1,
    (setPages_slots _ s id _).2.2.1, (setPages_slots _ s id _).2.2.2, slots, slCurr, rslots, slCurrR]
  exact setPages_slots _ s id _

theorem Stocked.remove (stocked : Stocked cfg w) (layout : Layout cfg w)
    (lists : Lists w s idx page)
    (cleared : ∀ y < w.cut page, (w.header (.cell page y)).flag = .cleared) :
    Stocked cfg (w.removePage cfg s idx) := by
  obtain ⟨headers, classes⟩ := removePage_chunks cfg w s idx
  -- a chunk of the page is neither free nor taken
  have stays : ∀ id y, InClass w id (.cell page y) → (w.header (.cell page y)).flag = .cleared :=
    fun id y ⟨i, _, _, bound⟩ => cleared y bound
  refine ⟨fun id isClass => ?_, fun p y out => ?_⟩
  · obtain ⟨l, list⟩ := stocked.free id isClass
    refine ⟨l, by rw [(classes id).1]; exact list.rep, by rw [(classes id).2.1]; exact list.length,
      fun c => ?_⟩
    rw [list.mem, (headers c).1]
    cases c with
    | temp k => exact Iff.rfl
    | cell p y =>
      rw [inClass_cell, inClass_cell, holds_remove layout lists]
      refine ⟨fun ⟨there, free⟩ => ⟨⟨there, ?_⟩, free⟩, fun ⟨⟨there, _⟩, free⟩ => ⟨there, free⟩⟩
      rintro rfl
      simp [stays id y there] at free
  · rw [(headers _).1] at out
    rw [(headers _).2.1]
    obtain ⟨isClass, there⟩ := stocked.taken p y out
    refine ⟨isClass, inClass_cell.mpr ((holds_remove layout lists _ _ p y).mpr ⟨there, ?_⟩)⟩
    rintro rfl
    rw [stays _ y there] at out
    simp [Flag.taken] at out

end Stocked

end MemExchange.Slabs
