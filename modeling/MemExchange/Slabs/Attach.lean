import MemExchange.Slabs.Layout

/-!
# Pages that are attached

The three ways for a page to enter a class: a new page, a page of a local tenant and a region of a
remote tenant. They differ in the number that is written into the chunks, which is taken from
`slabs` before or after the page is counted, and in how many chunks there are.
-/
namespace MemExchange.Slabs

open Tracker (adjustSize)

/-! ### Splitting -/

variable (isClass : Bool) (number : UInt16) (h : Header)

/-- A header after its chunk was put on the free list of a class and numbered. -/
def stamp : Header :=
  if isClass then { h with flag := .slabbed, clsid := 0, pageId := number }
  else { h with pageId := number }

theorem stamp_stamp : stamp isClass number (stamp isClass number h) = stamp isClass number h := by
  cases isClass <;> rfl

namespace World

variable (cfg : Config) (w : World)

theorem lastIndex_of_pages {w w' : World} {id : Int} (pages : w'.pages id = w.pages id) :
    w'.lastIndex id = w.lastIndex id := by
  rw [lastIndex, pages, lastIndex]

variable (page : Nat) (id : Int) (x : Nat) (xs : List Nat) (c : Chunk) (other : Int)

theorem splitChunk_header : (w.splitChunk cfg page id x).header c =
      if c = .cell page x then stamp (cfg.isClass id) (w.lastIndex id) (w.header c)
      else w.header c := by
  simp only [splitChunk, doSlabsFree, setHeader_header, stamp]
  by_cases here : c = .cell page x
  · subst here
    simp only [if_true]
    split <;> simp [setHeader, setClass]
  · simp only [if_neg here]
    split
    · rw [setClass_header, setHeader_header, if_neg here]
    · rfl

theorem splitChunk_slots : ((w.splitChunk cfg page id x).cls other).slots =
        (if other = id ∧ cfg.isClass id = true then (w.cls id).slots.push (.cell page x)
          else (w.cls other).slots) ∧
      ((w.splitChunk cfg page id x).cls other).slCurr =
        if other = id ∧ cfg.isClass id = true then (w.cls id).slCurr + 1 else (w.cls other).slCurr := by
  rw [splitChunk, setHeader_cls, doSlabsFree]
  by_cases isClass : cfg.isClass id = true
  · rw [if_pos isClass, setClass_cls, setHeader_cls]
    by_cases here : other = id
    · simp [here, isClass]
    · simp [here]
  · simp [isClass]

theorem splitChunks_header : (xs.foldl (fun w x => w.splitChunk cfg page id x) w).header c =
      if ∃ y ∈ xs, c = .cell page y then stamp (cfg.isClass id) (w.lastIndex id) (w.header c)
      else w.header c := by
  induction xs generalizing w with
  | nil => simp
  | cons x xs ih =>
    have number := lastIndex_of_pages ((w.splitChunk_uncut cfg page id x).pages id)
    rw [List.foldl_cons, ih, number, splitChunk_header]
    by_cases here : c = .cell page x
    · simp only [here, if_true, stamp_stamp, List.mem_cons, exists_eq_or_imp, true_or, ite_self]
    · simp only [here, if_false, List.mem_cons, exists_eq_or_imp, false_or]

theorem splitChunks_slots : ((xs.foldl (fun w x => w.splitChunk cfg page id x) w).cls other).slots =
        (if other = id ∧ cfg.isClass id = true then
          (xs.map (Chunk.cell page)).foldl Dll.push (w.cls id).slots else (w.cls other).slots) ∧
      ((xs.foldl (fun w x => w.splitChunk cfg page id x) w).cls other).slCurr =
        if other = id ∧ cfg.isClass id = true then (w.cls id).slCurr + xs.length
        else (w.cls other).slCurr := by
  induction xs generalizing w with
  | nil => constructor <;> (split <;> simp_all)
  | cons x xs ih =>
    obtain ⟨slots, slCurr⟩ := ih (w.splitChunk cfg page id x)
    obtain ⟨slots', slCurr'⟩ := w.splitChunk_slots cfg page id x other
    obtain ⟨here, here'⟩ := w.splitChunk_slots cfg page id x id
    rw [List.foldl_cons, slots, slCurr, slots', slCurr', here, here']
    by_cases inside : other = id ∧ cfg.isClass id = true
    · simp only [inside, and_self, if_true, List.map_cons, List.foldl_cons, List.length_cons, true_and]
      omega
    · simp only [inside, if_false, and_self]

theorem splitRemoteChunks_remote (conn : Nat) (mr : Mr) (id : Int) (xs : List Nat) (r : RSlot) :
    (xs.foldl (fun w x => w.splitRemoteChunk cfg page conn mr id x) w).remote r =
      if r.page = page ∧ r.index ∈ xs then
        ⟨w.lastIndex id, mr.addr + r.index * cfg.size id, some (conn, mr)⟩
      else w.remote r := by
  induction xs generalizing w with
  | nil => simp
  | cons x xs ih =>
    have pages : (w.splitRemoteChunk cfg page conn mr id x).pages id = w.pages id := by
      simp only [splitRemoteChunk, pages, setClass_cls, if_true]
    rw [List.foldl_cons, ih, lastIndex_of_pages pages]
    simp only [splitRemoteChunk, setClass, Function.update_apply]
    by_cases inside : r.page = page ∧ r.index ∈ xs
    · rw [if_pos inside, if_pos ⟨inside.1, List.mem_cons_of_mem _ inside.2⟩]
    · rw [if_neg inside]
      by_cases here : r = ⟨page, x⟩
      · subst here
        simp
      · rw [if_neg here, if_neg]
        rintro ⟨samePage, member⟩
        rcases List.mem_cons.mp member with same | later
        · exact here (by cases r; simp_all)
        · exact inside ⟨samePage, later⟩

theorem splitRemoteChunks_rslots (page conn : Nat) (mr : Mr) (id : Int) (xs : List Nat)
    (other : Int) :
    let after := (xs.foldl (fun w x => w.splitRemoteChunk cfg page conn mr id x) w).cls other
    after.slots = (w.cls other).slots ∧ after.slCurr = (w.cls other).slCurr ∧
      after.pages = (w.cls other).pages ∧
      after.rslots = (if other = id then (xs.map (RSlot.mk page)).reverse ++ (w.cls id).rslots
        else (w.cls other).rslots) ∧
      after.slCurrR = if other = id then (w.cls id).slCurrR + xs.length else (w.cls other).slCurrR := by
  induction xs generalizing w with
  | nil =>
    refine ⟨rfl, rfl, rfl, ?_, ?_⟩ <;> (split <;> simp_all)
  | cons x xs ih =>
    obtain ⟨slots, slCurr, pages, rslots, slCurrR⟩ := ih (w.splitRemoteChunk cfg page conn mr id x)
    have cls : ∀ other, (w.splitRemoteChunk cfg page conn mr id x).cls other =
        if other = id then { w.cls id with
          rslots := ⟨page, x⟩ :: (w.cls id).rslots, slCurrR := (w.cls id).slCurrR + 1 }
        else w.cls other := fun other => setClass_cls ..
    simp only [List.foldl_cons, slots, slCurr, pages, rslots, slCurrR, cls]
    by_cases here : other = id
    · subst here
      simp only [if_true, List.map_cons, List.reverse_cons, List.append_assoc, List.singleton_append,
        List.length_cons, true_and]
      omega
    · simp only [if_neg here, and_self]

end World

/-! ### What an attached page changes -/

/-- Page `page` is attached to class `id` as a local page of `n` chunks that are all free and
have the number `number`. -/
structure AddsLocal (cfg : Config) (w w' : World) (id : Int) (page n : Nat) (number : UInt16) :
    Prop where
  pages : ∀ other, w'.pages other =
    if other = id then (w.pages id).attach (some page) 0 none else w.pages other
  cut : w'.cut = Function.update w.cut page n
  cells : ∀ y, w'.header (.cell page y) = if y < n then stamp (cfg.isClass id) number {} else {}
  others : ∀ c, (∀ y, c ≠ .cell page y) → w'.header c = w.header c
  slots : ∀ other, (w'.cls other).slots = if other = id ∧ cfg.isClass id = true then
    ((List.range n).map (Chunk.cell page)).foldl Dll.push (w.cls id).slots else (w.cls other).slots
  slCurr : ∀ other, (w'.cls other).slCurr =
    if other = id ∧ cfg.isClass id = true then (w.cls id).slCurr + n else (w.cls other).slCurr
  rslots : ∀ other, (w'.cls other).rslots = (w.cls other).rslots
  slCurrR : ∀ other, (w'.cls other).slCurrR = (w.cls other).slCurrR
  remote : w'.remote = w.remote
  index : w'.index = w.index
  temps : w'.temps = w.temps
  rebal : w'.rebal = w.rebal
  nextPage : w'.nextPage = w.nextPage
  nextTemp : w'.nextTemp = w.nextTemp

/-- Page `page` is attached to class `id` as `n` slots of a region of a peer. -/
structure AddsRemote (cfg : Config) (w w' : World) (id : Int) (page n : Nat) (number : UInt16)
    (conn : Nat) (mr : Mr) : Prop where
  pages : ∀ other, w'.pages other =
    if other = id then (w.pages id).attach (some page) mr.rkey (some conn) else w.pages other
  cut : w'.cut = Function.update w.cut page n
  remote : ∀ r, w'.remote r = if r.page = page ∧ r.index < n then
    ⟨number, mr.addr + r.index * cfg.size id, some (conn, mr)⟩ else w.remote r
  rslots : ∀ other, (w'.cls other).rslots = if other = id then
    ((List.range n).map (RSlot.mk page)).reverse ++ (w.cls id).rslots else (w.cls other).rslots
  slCurrR : ∀ other, (w'.cls other).slCurrR =
    if other = id then (w.cls id).slCurrR + n else (w.cls other).slCurrR
  slots : ∀ other, (w'.cls other).slots = (w.cls other).slots
  slCurr : ∀ other, (w'.cls other).slCurr = (w.cls other).slCurr
  header : w'.header = w.header
  index : w'.index = w.index
  temps : w'.temps = w.temps
  rebal : w'.rebal = w.rebal
  nextPage : w'.nextPage = w.nextPage
  nextTemp : w'.nextTemp = w.nextTemp

section Adds

variable (cfg : Config) (w : World)

theorem zeroPage_others (page : Nat) {c : Chunk} (other : ∀ y, c ≠ .cell page y) :
    (w.zeroPage page).header c = w.header c := by
  cases c with
  | cell p y => exact if_neg fun same => other y (by rw [same])
  | temp n => rfl

theorem setPages_slots (id other : Int) (f : PageTable → PageTable) :
    ((w.setPages id f).cls other).slots = (w.cls other).slots ∧
    ((w.setPages id f).cls other).slCurr = (w.cls other).slCurr ∧
    ((w.setPages id f).cls other).rslots = (w.cls other).rslots ∧
    ((w.setPages id f).cls other).slCurrR = (w.cls other).slCurrR := by
  rw [World.setPages, World.setClass_cls]
  split
  next here => subst here; exact ⟨rfl, rfl, rfl, rfl⟩
  next => exact ⟨rfl, rfl, rfl, rfl⟩

theorem split_cells {page : Nat} (zeroed : ∀ y, w.header (.cell page y) = {}) (id : Int)
    (sizee y : Nat) : (w.splitSlabPageIntoFreelist cfg page id sizee).header (.cell page y) =
      if y < sizee / cfg.size id then stamp (cfg.isClass id) (w.lastIndex id) {} else {} := by
  change ((List.range (sizee / cfg.size id)).foldl _ w).header _ = _
  rw [World.splitChunks_header, zeroed]
  simp only [List.mem_range, Chunk.cell.injEq, true_and, exists_eq_right']

theorem split_others (id : Int) (page sizee : Nat) {c : Chunk} (other : ∀ y, c ≠ .cell page y) :
    (w.splitSlabPageIntoFreelist cfg page id sizee).header c = w.header c := by
  change ((List.range (sizee / cfg.size id)).foldl _ w).header _ = _
  rw [World.splitChunks_header, if_neg]
  rintro ⟨y, -, same⟩
  exact other y same

theorem addPage_adds (id : Int) (page : Nat) :
    AddsLocal cfg w (w.addPage cfg page id) id page (cfg.len id / cfg.size id) (w.lastIndex id) := by
  have only := (w.zeroPage_chunksOnly page).trans (World.split_chunksOnly cfg _ page id (cfg.len id))
  have lists := (w.zeroPage page).splitChunks_slots cfg page id (List.range (cfg.len id / cfg.size id))
  exact {
    pages := w.addPage_pages cfg page id
    cut := rfl
    cells := fun y => split_cells cfg _ (fun _ => if_pos rfl) id _ y
    others := fun c other => (split_others cfg _ id page _ other).trans (zeroPage_others w page other)
    slots := fun other => (setPages_slots _ id other _).1.trans (lists other).1
    slCurr := fun other => by
      refine (setPages_slots _ id other _).2.1.trans ((lists other).2.trans ?_)
      rw [List.length_range]
      rfl
    rslots := fun other => (setPages_slots _ id other _).2.2.1.trans (only.rslots other)
    slCurrR := fun other => (setPages_slots _ id other _).2.2.2.trans (only.slCurrR other)
    remote := only.remote
    index := only.index
    temps := only.temps
    rebal := only.rebal
    nextPage := only.nextPage
    nextTemp := only.nextTemp }

theorem attachLocal_adds (fresh : ∀ id i, ¬ Lists w id i w.nextPage) :
    ∃ w₁, Quiet w w₁ ∧ w₁.rebal = w.rebal ∧ Fresh w₁ w.nextPage ∧
      AddsLocal cfg w₁ (w.attachLocal cfg) w.rebal.dClsid w.nextPage
        (w.receivedBytes cfg / cfg.size w.rebal.dClsid)
        (UInt16.ofNat (w.pages w.rebal.dClsid).slabs) := by
  set d := w.rebal.dClsid with d_eq
  set page := w.nextPage with page_eq
  let counted := min (adjustSize cfg.pagesize (cfg.pageBytes w.rebal.sClsid)) w.tracker.spareSize
  let w₁ := (w.mapPage w.tracker.spareMemStart counted).2.callTracker fun t =>
    (t.shmMallocSpare cfg.pagesize (w.receivedBytes cfg) cfg.slot).2
  let attached := (w₁.zeroPage page).setPages d (·.attach (some page) 0 none)
  have pages : ∀ other, attached.pages other =
      if other = d then (w.pages d).attach (some page) 0 none else w.pages other :=
    fun other => World.setPages_pages ..
  have split := World.split_chunksOnly cfg attached page d (w.receivedBytes cfg)
  have lists := attached.splitChunks_slots cfg page d
    (List.range (w.receivedBytes cfg / cfg.size d))
  have number : attached.lastIndex d = UInt16.ofNat (w.pages d).slabs := by
    rw [World.lastIndex, pages, if_pos rfl]
    exact congrArg UInt16.ofNat (if_neg (Nat.succ_ne_zero _))
  have before := fun other => setPages_slots (w₁.zeroPage page) d other (·.attach (some page) 0 none)
  refine ⟨w₁, .of_cls rfl rfl rfl rfl rfl rfl (Nat.le_succ _) rfl, rfl,
    ⟨Nat.lt_succ_self _, fresh⟩, ?_⟩
  change AddsLocal cfg w₁ (attached.splitSlabPageIntoFreelist cfg page d (w.receivedBytes cfg)) d page
    _ _
  exact {
    pages := fun other => (split.pages other).trans (pages other)
    cut := rfl
    cells := fun y => by rw [← number]; exact split_cells cfg attached (fun _ => if_pos rfl) d _ y
    others := fun c other =>
      (split_others cfg attached d page _ other).trans (zeroPage_others w₁ page other)
    slots := fun other => by
      refine (lists other).1.trans ?_
      rw [(before d).1, (before other).1]
      rfl
    slCurr := fun other => by
      refine (lists other).2.trans ?_
      rw [(before d).2.1, (before other).2.1, List.length_range]
      rfl
    rslots := fun other => (split.rslots other).trans (before other).2.2.1
    slCurrR := fun other => (split.slCurrR other).trans (before other).2.2.2
    remote := split.remote
    index := split.index
    temps := split.temps
    rebal := split.rebal
    nextPage := split.nextPage
    nextTemp := split.nextTemp }

theorem splitRemote_keeps (page conn : Nat) (mr : Mr) (id : Int) (xs : List Nat) :
    let after := xs.foldl (fun w x => w.splitRemoteChunk cfg page conn mr id x) w
    after.header = w.header ∧ after.index = w.index ∧ after.temps = w.temps ∧
      after.rebal = w.rebal ∧ after.cut = w.cut ∧ after.nextPage = w.nextPage ∧
      after.nextTemp = w.nextTemp := by
  induction xs generalizing w with
  | nil => exact ⟨rfl, rfl, rfl, rfl, rfl, rfl, rfl⟩
  | cons x xs ih => exact ih (w.splitRemoteChunk cfg page conn mr id x)

/-- A region of a remote tenant has its own number if the page is counted before it is
split, and that of the page before it otherwise. -/
theorem attachRemote_adds (fresh : ∀ id i, ¬ Lists w id i w.nextPage) {w' : World}
    (called : w.attachRemote cfg = some w') :
    ∃ w₁ conn, w.tracker.latestConn = some conn ∧ Quiet w w₁ ∧ w₁.rebal = w.rebal ∧
      Fresh w₁ w.nextPage ∧
      AddsRemote cfg w₁ w' w.rebal.dClsid w.nextPage
        (w.receivedBytes cfg / cfg.size w.rebal.dClsid)
        (if cfg.countsFirst then UInt16.ofNat (w.pages w.rebal.dClsid).slabs
          else w.lastIndex w.rebal.dClsid) conn (w.peerMr conn) := by
  obtain ⟨conn, latest, rfl⟩ := Option.map_eq_some_iff.mp called
  set d := w.rebal.dClsid with d_eq
  set page := w.nextPage with page_eq
  set mr := w.peerMr conn with mr_eq
  set n := w.receivedBytes cfg / cfg.size d with n_eq
  let w₁ := (w.mapPage 0 0).2
  refine ⟨w₁, conn, latest, .of_cls rfl rfl rfl rfl rfl rfl (Nat.le_succ _) rfl, rfl,
    ⟨Nat.lt_succ_self _, fresh⟩, ?_⟩
  by_cases first : cfg.countsFirst = true
  · let attached := w₁.setPages d (·.attach (some page) mr.rkey (some conn))
    have pages : ∀ other, attached.pages other =
        if other = d then (w.pages d).attach (some page) mr.rkey (some conn) else w.pages other :=
      fun other => World.setPages_pages ..
    have number : attached.lastIndex d = UInt16.ofNat (w.pages d).slabs := by
      rw [World.lastIndex, pages, if_pos rfl]
      exact congrArg UInt16.ofNat (if_neg (Nat.succ_ne_zero _))
    have before := fun other =>
      setPages_slots w₁ d other (·.attach (some page) mr.rkey (some conn))
    have lists := attached.splitRemoteChunks_rslots cfg page conn mr d (List.range n)
    have remote := attached.splitRemoteChunks_remote cfg page conn mr d (List.range n)
    obtain ⟨header, index, temps, rebal, -, nextPage, nextTemp⟩ :=
      splitRemote_keeps cfg attached page conn mr d (List.range n)
    simp only [first, if_true]
    change AddsRemote cfg w₁ (attached.splitRemotePageIntoFreelist cfg page conn mr d _) d page n _ _ _
    exact {
      pages := fun other => (lists other).2.2.1.trans (pages other)
      cut := rfl
      remote := fun r => by
        rw [← number]
        simp only [← List.mem_range]
        exact remote r
      rslots := fun other => by
        refine (lists other).2.2.2.1.trans ?_
        rw [(before d).2.2.1, (before other).2.2.1]
      slCurrR := fun other => by
        refine (lists other).2.2.2.2.trans ?_
        rw [(before d).2.2.2, (before other).2.2.2, List.length_range]
      slots := fun other => (lists other).1.trans (before other).1
      slCurr := fun other => (lists other).2.1.trans (before other).2.1
      header, index, temps, rebal, nextPage, nextTemp }
  · have lists := w₁.splitRemoteChunks_rslots cfg page conn mr d (List.range n)
    have remote := w₁.splitRemoteChunks_remote cfg page conn mr d (List.range n)
    obtain ⟨header, index, temps, rebal, -, nextPage, nextTemp⟩ :=
      splitRemote_keeps cfg w₁ page conn mr d (List.range n)
    let splitUp := w₁.splitRemotePageIntoFreelist cfg page conn mr d (w.receivedBytes cfg)
    have after := fun other =>
      setPages_slots splitUp d other (·.attach (some page) mr.rkey (some conn))
    simp only [first, Bool.false_eq_true, if_false]
    change AddsRemote cfg w₁ (splitUp.setPages d _) d page n _ _ _
    exact {
      pages := fun other => by
        rw [World.setPages_pages]
        have same : ∀ other, splitUp.pages other = w.pages other := fun other => (lists other).2.2.1
        rw [same, same]
        rfl
      cut := rfl
      remote := fun r => by
        simp only [← List.mem_range]
        exact remote r
      rslots := fun other => (after other).2.2.1.trans (lists other).2.2.2.1
      slCurrR := fun other => by
        refine (after other).2.2.2.trans ((lists other).2.2.2.2.trans ?_)
        rw [List.length_range]
      slots := fun other => (after other).1.trans (lists other).1
      slCurr := fun other => (after other).2.1.trans (lists other).2.1
      header, index, temps, rebal, nextPage, nextTemp }

end Adds

/-! ### What `slab_rebalance_finish` does -/

section Finish

variable {cfg : Config} {w w' : World}

theorem Layout.fresh (layout : Layout cfg w) (id : Int) (i : Nat) : ¬ Lists w id i w.nextPage :=
  fun lists => lt_irrefl _ (layout.named lists)

/-- With a page that was picked, the finish either removes that page, or attaches a page
of another tenant, or only writes counters and flags. -/
theorem finish_cases (layout : Layout cfg w) (pick : PickInv cfg w)
    (called : w.slabRebalanceFinish cfg = some w') : w.rebal.done = true ∧
    ((w.rebal.source = .slab ∧ Picked cfg w ∧ w.rebal.signal = .moving ∧
        Quiet (w.removePage cfg w.rebal.sClsid w.rebal.slabToRelease) w') ∨
      (w.rebal.source ≠ .slab ∧ Quiet w w') ∨
      (w.rebal.source = .localTenant ∧ ∃ w₁ w₂, Quiet w w₁ ∧ Fresh w₁ w.nextPage ∧
        AddsLocal cfg w₁ w₂ w.rebal.dClsid w.nextPage
          (w.receivedBytes cfg / cfg.size w.rebal.dClsid)
          (UInt16.ofNat (w.pages w.rebal.dClsid).slabs) ∧ Quiet w₂ w') ∨
      (w.rebal.source = .remoteTenant ∧ ∃ w₁ w₂ conn, Quiet w w₁ ∧ Fresh w₁ w.nextPage ∧
        AddsRemote cfg w₁ w₂ w.rebal.dClsid w.nextPage
          (w.receivedBytes cfg / cfg.size w.rebal.dClsid)
          (if cfg.countsFirst then UInt16.ofNat (w.pages w.rebal.dClsid).slabs
            else w.lastIndex w.rebal.dClsid) conn (w.peerMr conn) ∧ Quiet w₂ w')) := by
  obtain ⟨done, called⟩ := Option.ite_none_right_eq_some.mp called
  refine ⟨done, ?_⟩
  obtain ⟨w₁, there, rfl⟩ := Option.map_eq_some_iff.mp called
  have closing : Quiet w₁ (w₁.finishAccount cfg).finishReset :=
    (Quiet.finishAccount cfg w₁).trans (.finishReset _)
  rw [World.finishDestination, finishSource_rebal] at there
  by_cases source : w.rebal.source = .slab
  · have moving := pick.done done
    have picked := pick.picked (.inr moving) source
    rw [if_pos picked.leaves] at there
    cases there
    refine .inl ⟨source, picked, moving, ?_⟩
    rw [World.finishSource, if_neg (not_not.mpr source)] at closing ⊢
    exact (Quiet.giveAway cfg _ _).trans closing
  have unmoved : w.finishSource cfg = w := if_pos source
  rw [unmoved] at there
  split at there
  · cases there
    exact .inr (.inl ⟨source, closing⟩)
  split at there
  · cases there
  cases whose : w.rebal.source with
  | slab => exact absurd whose source
  | localTenant =>
    simp only [whose] at there
    cases there
    obtain ⟨w₁, quiet, -, fresh, adds⟩ := attachLocal_adds cfg w layout.fresh
    exact .inr (.inr (.inl ⟨rfl, w₁, _, quiet, fresh, adds, closing⟩))
  | remoteTenant =>
    simp only [whose] at there
    obtain ⟨w₂, conn, -, quiet, -, fresh, adds⟩ := attachRemote_adds cfg w layout.fresh there
    exact .inr (.inr (.inr ⟨rfl, w₂, w₁, conn, quiet, fresh, adds, closing⟩))

/-! ### The layout along runs -/

/-- Page tables, names and splits of pages stay as they are. -/
structure SamePages (w w' : World) : Prop where
  pages : ∀ id, w'.pages id = w.pages id
  cut : w'.cut = w.cut
  nextPage : w'.nextPage = w.nextPage

theorem Layout.samePages (layout : Layout cfg w) (same : SamePages w w') : Layout cfg w' :=
  layout.shrink (fun id => (congrArg PageTable.slabs (same.pages id)).le)
    (fun id => congrArg PageTable.slabList (same.pages id)) same.cut same.nextPage.ge

theorem Uncut.samePages (uncut : Uncut w w') : SamePages w w' :=
  ⟨uncut.pages, uncut.cut, uncut.nextPage⟩

theorem takeChunk_samePages {id : Int} {found : Option Chunk}
    (taken : w.takeChunk id = some (found, w')) : SamePages w w' := by
  have pages := (w.takeChunk_keeps taken).2
  rcases w.takeChunk_cases taken with ⟨-, it, -, slot⟩ | ⟨-, it, -, slot⟩ | ⟨-, rfl⟩
  · exact (w.takeSlot_uncut slot).samePages
  · obtain ⟨r, rest, -, -, rfl⟩ := w.takeRemoteSlot_eq slot
    exact ⟨pages, rfl, rfl⟩
  · exact ⟨pages, rfl, rfl⟩

theorem move_samePages {found : World.Found} (called : w.slabRebalanceMove cfg found = some w') :
    SamePages w w' := by
  obtain ⟨w₁, r, only, -, rfl⟩ := slabRebalanceMove_uncut called
  exact ⟨only.pages, only.cut, only.nextPage⟩

theorem shiftPages_cut (id x : Int) (n : Nat) :
    (w.shiftPages cfg id x n).cut = w.cut ∧ (w.shiftPages cfg id x n).nextPage = w.nextPage := by
  induction n generalizing w x with
  | zero => exact ⟨rfl, rfl⟩
  | succ n ih =>
    obtain ⟨cut, nextPage⟩ :=
      ih (w := (w.setPages id (·.copyDown x)).renumber cfg id x) (x + 1)
    rw [World.shiftPages, cut, nextPage, World.renumber]
    simp only
    split <;> exact ⟨rfl, rfl⟩

theorem Layout.adds (layout : Layout cfg w) {id : Int} {page n : Nat} {number : UInt16}
    (fresh : Fresh w page) (adds : AddsLocal cfg w w' id page n number)
    (even : cfg.isClass id = true → n = cfg.perslab id) : Layout cfg w' :=
  layout.attach fresh adds.pages (fun p other => by rw [adds.cut, Function.update_of_ne other])
    (fun isClass => by rw [adds.cut, Function.update_self, even isClass]) adds.nextPage

section

variable (layout : Layout cfg w)
include layout

theorem Layout.addsRemote {id : Int} {page n : Nat} {number : UInt16} {conn : Nat} {mr : Mr}
    (fresh : Fresh w page) (adds : AddsRemote cfg w w' id page n number conn mr)
    (even : cfg.isClass id = true → n = cfg.perslab id) : Layout cfg w' :=
  layout.attach fresh adds.pages (fun p other => by rw [adds.cut, Function.update_of_ne other])
    (fun isClass => by rw [adds.cut, Function.update_self, even isClass]) adds.nextPage

theorem Layout.newslab {id : Int} (called : w.doSlabsNewslab cfg id = some w') : Layout cfg w' := by
  rcases newslab_adds layout called with quiet | ⟨w₁, page, quiet, fresh, rfl⟩
  · exact layout.quiet quiet
  · exact (layout.quiet quiet).adds fresh (addPage_adds cfg w₁ id page) (len_div_size cfg)

theorem Layout.finish (pick : PickInv cfg w) (even : SplitsEvenly cfg w .finish)
    (called : w.slabRebalanceFinish cfg = some w') : Layout cfg w' := by
  obtain ⟨done, ⟨source, picked, moving, quiet⟩ | ⟨-, quiet⟩ | ⟨source, w₁, w₂, quiet, fresh, adds, after⟩ |
    ⟨source, w₁, w₂, conn, quiet, fresh, adds, after⟩⟩ := finish_cases layout pick called
  · obtain ⟨idx, toRelease, inside, -⟩ := picked.inside
    rw [toRelease] at quiet
    refine (layout.remove inside (w.removePage_pages cfg _ _) ?_ ?_).quiet quiet
    · exact (shiftPages_cut _ _ _).1
    · exact (shiftPages_cut _ _ _).2
  · exact layout.quiet quiet
  · exact ((layout.quiet quiet).adds fresh adds (even done (by rw [source]; simp))).quiet after
  · exact ((layout.quiet quiet).addsRemote fresh adds (even done (by rw [source]; simp))).quiet after

/-- Pages stay listed once and split as their class counts on. -/
theorem layout_step (pick : PickInv cfg w) {action : Action} (even : SplitsEvenly cfg w action)
    (called : step cfg w action = some w') : Layout cfg w' := by
  by_cases quiet : action.touchesChunks = false
  · exact layout.quiet (quiet_step quiet called)
  cases action <;> simp only [Action.touchesChunks, not_true_eq_false] at quiet
  case preallocate id =>
    obtain ⟨-, called⟩ := Option.ite_none_right_eq_some.mp called
    exact layout.newslab called
  case alloc id noNewPage =>
    obtain ⟨⟨found, after⟩, alloc, rfl⟩ := Option.map_eq_some_iff.mp called
    simp only [World.doSlabsAlloc] at alloc
    split at alloc
    · split at alloc
      · obtain ⟨w₁, newslab, taken⟩ := Option.bind_eq_some_iff.mp alloc
        exact (layout.newslab newslab).samePages (takeChunk_samePages taken)
      · exact layout.samePages (takeChunk_samePages alloc)
    · cases alloc
      exact layout
  case link c =>
    obtain ⟨-, ⟨⟩⟩ := Option.ite_none_right_eq_some.mp called
    exact layout.samePages ⟨fun _ => rfl, rfl, rfl⟩
  case itemFree c =>
    obtain ⟨-, ⟨⟩⟩ := Option.ite_none_right_eq_some.mp called
    have uncut := w.doSlabsFree_uncut cfg c (w.header c).clsid
    exact layout.samePages ⟨uncut.pages, uncut.cut, uncut.nextPage⟩
  case storeRemote c =>
    simp only [step, World.storeRemote] at called
    split at called
    · cases called
    split at called <;> cases called
    exact layout.samePages ⟨fun _ => rfl, rfl, rfl⟩
  case releaseFreeRemote =>
    obtain ⟨-, called⟩ := Option.ite_none_right_eq_some.mp called
    obtain ⟨w₁, newslab, rfl⟩ := Option.map_eq_some_iff.mp called
    exact (layout.newslab newslab).quiet (((Quiet.refl w₁).setRebal _).trans (.reassign ..))
  case move found => exact layout.samePages (move_samePages called)
  case finish => exact layout.finish pick even called

end

theorem layout_initial (cfg : Config) (limit : Nat) (t : Tracker) (junk : Int → PageTable) :
    Layout cfg (.initial cfg limit t junk) := by
  have empty : ∀ id i page, ¬ Lists (.initial cfg limit t junk) id i page :=
    fun id i page lists => absurd lists.1 (Nat.not_lt_zero i)
  exact ⟨fun id i inUse => absurd inUse (Nat.not_lt_zero i), fun lists => absurd lists (empty _ _ _),
    fun lists => absurd lists (empty _ _ _), fun _ lists => absurd lists (empty _ _ _)⟩

end Finish

end MemExchange.Slabs
