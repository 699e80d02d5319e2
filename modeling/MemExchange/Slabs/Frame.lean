import MemExchange.Slabs.Rebalance

/-!
# What the allocator leaves alone

Most functions of the allocator touch headers of chunks and local free lists only. They are
collected under one relation.
-/
namespace MemExchange.Slabs

/-- `w'` differs from `w` in headers, local free lists and the cut of pages at most. -/
structure ChunksOnly (w w' : World) : Prop where
  pages : ∀ id, w'.pages id = w.pages id
  rslots : ∀ id, (w'.cls id).rslots = (w.cls id).rslots
  slCurrR : ∀ id, (w'.cls id).slCurrR = (w.cls id).slCurrR
  remote : w'.remote = w.remote
  index : w'.index = w.index
  temps : w'.temps = w.temps
  rebal : w'.rebal = w.rebal
  account : w'.account = w.account
  tracker : w'.tracker = w.tracker
  charge : w'.charge = w.charge
  nextPage : w'.nextPage = w.nextPage
  nextTemp : w'.nextTemp = w.nextTemp

namespace ChunksOnly

variable {w w' w'' : World}

theorem refl (w : World) : ChunksOnly w w where
  pages _ := rfl
  rslots _ := rfl
  slCurrR _ := rfl
  remote := rfl
  index := rfl
  temps := rfl
  rebal := rfl
  account := rfl
  tracker := rfl
  charge := rfl
  nextPage := rfl
  nextTemp := rfl

theorem trans (first : ChunksOnly w w') (second : ChunksOnly w' w'') : ChunksOnly w w'' where
  pages id := (second.pages id).trans (first.pages id)
  rslots id := (second.rslots id).trans (first.rslots id)
  slCurrR id := (second.slCurrR id).trans (first.slCurrR id)
  remote := second.remote.trans first.remote
  index := second.index.trans first.index
  temps := second.temps.trans first.temps
  rebal := second.rebal.trans first.rebal
  account := second.account.trans first.account
  tracker := second.tracker.trans first.tracker
  charge := second.charge.trans first.charge
  nextPage := second.nextPage.trans first.nextPage
  nextTemp := second.nextTemp.trans first.nextTemp

end ChunksOnly

/-- And no page is cut. -/
structure Uncut (w w' : World) : Prop extends ChunksOnly w w' where
  cut : w'.cut = w.cut

theorem Uncut.refl (w : World) : Uncut w w := ⟨.refl w, rfl⟩

theorem Uncut.trans {w w' w'' : World} (first : Uncut w w') (second : Uncut w' w'') : Uncut w w'' :=
  ⟨first.toChunksOnly.trans second.toChunksOnly, second.cut.trans first.cut⟩

namespace World

variable (cfg : Config) (w : World)

variable {it : Chunk} {w' : World} {found : Option Chunk} (c : Chunk) (page : Nat) (id : Int)
  (f : Header → Header)

@[simp] theorem setClass_cls (other : Int) (f : SlabClass → SlabClass) :
    (w.setClass id f).cls other = if other = id then f (w.cls id) else w.cls other := by
  simp only [setClass, Function.update_apply]

@[simp] theorem setHeader_header (other : Chunk) (f : Header → Header) :
    (w.setHeader c f).header other = if other = c then f (w.header c) else w.header other := by
  simp only [setHeader, Function.update_apply]

@[simp] theorem setClass_header (f : SlabClass → SlabClass) :
    (w.setClass id f).header = w.header := rfl

@[simp] theorem setHeader_cls : (w.setHeader c f).cls = w.cls := rfl

theorem setPages_pages (other : Int) (f : PageTable → PageTable) :
    (w.setPages id f).pages other = if other = id then f (w.pages id) else w.pages other := by
  simp only [setPages, pages, setClass_cls]
  split <;> rfl

theorem setHeader_uncut : Uncut w (w.setHeader c f) where
  __ := Uncut.refl w

theorem setSlots_uncut (slots : SlabClass → Dll Chunk) (count : SlabClass → Nat) :
    Uncut w (w.setClass id fun p => { p with slots := slots p, slCurr := count p }) where
  __ := Uncut.refl w
  pages other := by
    simp only [pages, setClass_cls]
    split <;> simp_all
  rslots other := by
    rw [setClass_cls]
    split <;> simp_all
  slCurrR other := by
    rw [setClass_cls]
    split <;> simp_all

theorem zeroPage_chunksOnly : ChunksOnly w (w.zeroPage page) where
  __ := ChunksOnly.refl w

theorem doSlabsFree_uncut : Uncut w (w.doSlabsFree cfg c id) := by
  unfold doSlabsFree
  split
  · exact (w.setHeader_uncut c _).trans (setSlots_uncut _ id _ _)
  · exact .refl w

theorem splitChunk_uncut (x : Nat) : Uncut w (w.splitChunk cfg page id x) :=
  (w.doSlabsFree_uncut cfg _ id).trans (setHeader_uncut _ _ _)

theorem splitChunks_uncut (xs : List Nat) :
    Uncut w (xs.foldl (fun w x => w.splitChunk cfg page id x) w) := by
  induction xs generalizing w with
  | nil => exact .refl w
  | cons x xs ih => exact (w.splitChunk_uncut cfg page id x).trans (ih _)

theorem split_chunksOnly (sizee : Nat) :
    ChunksOnly w (w.splitSlabPageIntoFreelist cfg page id sizee) :=
  (w.splitChunks_uncut cfg page id _).toChunksOnly.trans { ChunksOnly.refl _ with }

theorem takeSlot_uncut {id : Int} (taken : w.takeSlot id = some (it, w')) : Uncut w w' := by
  obtain ⟨head, -, same⟩ := Option.map_eq_some_iff.mp taken
  cases same
  exact (w.setHeader_uncut _ _).trans (setSlots_uncut _ id _ _)

theorem slabRebalanceCutFree_uncut (it : Chunk) : Uncut w (w.slabRebalanceCutFree it) :=
  (w.setSlots_uncut _ _ _).trans (setHeader_uncut _ _ _)

theorem rescue_uncut (it new : Chunk) : Uncut w (w.rescue it new) :=
  (w.setHeader_uncut _ _).trans (setHeader_uncut _ _ _)

theorem takeRemoteSlot_eq {id : Int} (taken : w.takeRemoteSlot id = some (it, w')) :
    ∃ r rest, (w.cls id).rslots = r :: rest ∧ it = .temp w.nextTemp ∧
      w' = { w with
        header := Function.update w.header (.temp w.nextTemp) ⟨.used, (w.remote r).pageId, some r, id⟩
        temps := w.nextTemp :: w.temps
        nextTemp := w.nextTemp + 1 }.setClass id fun p =>
          { p with rslots := rest, slCurrR := p.slCurrR - 1 } := by
  simp only [takeRemoteSlot] at taken
  split at taken
  · cases taken
  next r rest has =>
    cases taken
    exact ⟨r, rest, has, rfl, rfl⟩

theorem takeRemoteSlot_cells {id : Int} (taken : w.takeRemoteSlot id = some (it, w'))
    (page y : Nat) : w'.header (.cell page y) = w.header (.cell page y) := by
  obtain ⟨r, rest, -, -, rfl⟩ := w.takeRemoteSlot_eq taken
  simp

theorem takeChunk_cases {id : Int} (taken : w.takeChunk id = some (found, w')) :
    ((w.cls id).slCurr ≠ 0 ∧ ∃ it, found = some it ∧ w.takeSlot id = some (it, w')) ∨
    ((w.cls id).slCurrR ≠ 0 ∧ ∃ it, found = some it ∧ w.takeRemoteSlot id = some (it, w')) ∨
    (found = none ∧ w' = w) := by
  simp only [takeChunk] at taken
  split at taken
  next some_ =>
    obtain ⟨⟨it, after⟩, slot, same⟩ := Option.map_eq_some_iff.mp taken
    cases same
    exact .inl ⟨some_, it, rfl, slot⟩
  split at taken
  next some_ =>
    obtain ⟨⟨it, after⟩, slot, same⟩ := Option.map_eq_some_iff.mp taken
    cases same
    exact .inr (.inl ⟨some_, it, rfl, slot⟩)
  · cases taken
    exact .inr (.inr ⟨rfl, rfl⟩)

/-- Without an attempt at a new page and with a free local chunk, `do_slabs_alloc` takes the
head of the free list. -/
theorem doSlabsAlloc_of_free {id : Int} (some_ : (w.cls id).slCurr ≠ 0)
    (called : w.doSlabsAlloc cfg id true = some (found, w')) :
    (found = none ∧ w' = w) ∨ ∃ it, found = some it ∧ w.takeSlot id = some (it, w') := by
  simp only [doSlabsAlloc, takeChunk, if_pos some_, Bool.true_eq_false, and_false, if_false] at called
  split at called
  · obtain ⟨⟨it, after⟩, taken, same⟩ := Option.map_eq_some_iff.mp called
    cases same
    exact .inr ⟨it, rfl, taken⟩
  · cases called
    exact .inl ⟨rfl, rfl⟩

theorem slabRebalanceAlloc_uncut {tries : Nat}
    (called : w.slabRebalanceAlloc cfg tries = some (found, w')) : Uncut w w' := by
  induction tries generalizing w with
  | zero => cases called; exact .refl _
  | succ tries ih =>
    rw [slabRebalanceAlloc] at called
    by_cases none_ : (w.cls w.rebal.sClsid).slCurr = 0
    · rw [if_pos none_] at called
      cases called
      exact .refl _
    rw [if_neg none_] at called
    cases result : w.doSlabsAlloc cfg w.rebal.sClsid true with
    | none => simp [result] at called
    | some answer =>
      obtain ⟨chunk, after⟩ := answer
      rw [result] at called
      rcases w.doSlabsAlloc_of_free cfg none_ result with ⟨rfl, rfl⟩ | ⟨it, rfl, taken⟩
      · cases called
        exact .refl _
      · have first := w.takeSlot_uncut taken
        simp only at called
        split at called
        · -- a chunk of the page itself: cleared, and the search goes on
          exact first.trans ((setHeader_uncut _ _ _).trans (ih _ called))
        · cases called
          exact first

theorem emptyChunk_uncut {found : Found} (called : w.emptyChunk cfg it found = some w') :
    ∃ w₁, Uncut w w₁ ∧ (w' = w₁ ∨ w' = w₁.markBusy) := by
  simp only [emptyChunk] at called
  split at called
  case h_1 => cases called; exact ⟨_, .refl _, .inl rfl⟩
  case h_2 => cases called; exact ⟨_, w.slabRebalanceCutFree_uncut it, .inl rfl⟩
  case h_3 => cases called; exact ⟨_, .refl _, .inr rfl⟩
  case h_4 =>
    cases found with
    | busy => cases called; exact ⟨_, .refl _, .inr rfl⟩
    | expired => cases called; exact ⟨_, w.doSlabsFree_uncut cfg it _, .inr rfl⟩
    | alive =>
      simp only at called
      cases result : w.slabRebalanceAlloc cfg (cfg.perslab w.rebal.sClsid) with
      | none => simp [result] at called
      | some answer =>
        obtain ⟨new, w₁⟩ := answer
        have only := w.slabRebalanceAlloc_uncut cfg result
        simp only [result] at called
        cases new with
        | none =>
          cases called
          exact ⟨_, only.trans (w₁.doSlabsFree_uncut cfg it _), .inr rfl⟩
        | some new =>
          cases called
          exact ⟨_, only.trans (w₁.rescue_uncut it new), .inl rfl⟩

/-! ### New pages -/

/-- The tenant after `do_slabs_newslab` has looked at its share. -/
def refreshed : World := if w.account.memLimitReached then w else w.readLimit cfg

theorem refreshed_eq : ∃ a : Account, a.total = w.account.total ∧
    a.memLimitReached = w.account.memLimitReached ∧ w.refreshed cfg = { w with account := a } := by
  unfold refreshed
  split
  · exact ⟨w.account, rfl, rfl, rfl⟩
  · exact ⟨w.account.readLimit (w.share cfg), rfl, rfl, rfl⟩

end World

/-- What `do_slabs_newslab` can do: it is refused for good, it was before, the page comes
from the pool, there is no page left in the memory taken at the start, or one is mapped. -/
inductive Newslab (cfg : Config) (w : World) (id : Int) : World → Prop
  | refused (hit : (w.refreshed cfg).limitHit cfg id = true) :
    Newslab cfg w id ((w.refreshed cfg).setAccount fun a => { a with memLimitReached := true })
  | reached (before : w.account.memLimitReached = true) : Newslab cfg w id w
  | pooled {page : Nat} {w₁ : World} (open_ : w.account.memLimitReached = false)
    (passes : (w.refreshed cfg).limitHit cfg id = false)
    (pool : (w.refreshed cfg).getPageFromGlobalPool = (some page, w₁)) :
    Newslab cfg w id (w₁.addPage cfg page id)
  | exhausted {w₁ w₂ : World} (pool : (w.refreshed cfg).getPageFromGlobalPool = (none, w₁))
    (memory : w₁.memoryAllocate cfg (cfg.len id) = some (none, w₂)) : Newslab cfg w id w₂
  | mapped {page : Nat} {w₁ w₂ : World} (open_ : w.account.memLimitReached = false)
    (passes : (w.refreshed cfg).limitHit cfg id = false)
    (pool : (w.refreshed cfg).getPageFromGlobalPool = (none, w₁))
    (memory : w₁.memoryAllocate cfg (cfg.len id) = some (some page, w₂)) :
    Newslab cfg w id (w₂.addPage cfg page id)

namespace World

variable (cfg : Config) (w : World) {w' : World}

theorem doSlabsNewslab_newslab {id : Int} (called : w.doSlabsNewslab cfg id = some w') :
    Newslab cfg w id w' := by
  obtain ⟨a, -, same, refreshed⟩ := w.refreshed_eq cfg
  have reached : (w.refreshed cfg).account.memLimitReached = w.account.memLimitReached := by
    rw [refreshed]; exact same
  simp only [doSlabsNewslab, ← World.refreshed.eq_def, reached] at called
  by_cases hit : (w.refreshed cfg).limitHit cfg id = true
  · rw [if_pos hit] at called
    cases called
    exact .refused hit
  rw [if_neg hit] at called
  by_cases before : w.account.memLimitReached = true
  · rw [if_pos before] at called
    cases called
    rw [World.refreshed, if_pos before]
    exact .reached before
  rw [if_neg before] at called
  have open_ := Bool.not_eq_true _ ▸ before
  have passes := Bool.not_eq_true _ ▸ hit
  cases pool : (w.refreshed cfg).getPageFromGlobalPool with
  | mk entry w₁ =>
    rw [pool] at called
    cases entry with
    | some page => cases called; exact .pooled open_ passes pool
    | none =>
      cases memory : w₁.memoryAllocate cfg (cfg.len id) with
      | none => simp [memory] at called
      | some answer =>
        obtain ⟨entry, w₂⟩ := answer
        simp only [memory] at called
        cases entry with
        | none => cases called; exact .exhausted pool memory
        | some page => cases called; exact .mapped open_ passes pool memory

theorem getPageFromGlobalPool_eq {entry : Option Nat}
    (pool : w.getPageFromGlobalPool = (entry, w')) :
    (entry = none ∧ w' = w ∧ (w.pages 0).slabs = 0) ∨
    ((w.pages 0).slabs ≠ 0 ∧ entry = (w.pages 0).slabList ((w.pages 0).slabs - 1) ∧
      w' = w.setPages 0 fun p => { p with slabs := p.slabs - 1 }) := by
  simp only [getPageFromGlobalPool] at pool
  split at pool
  next empty => cases pool; exact .inl ⟨rfl, rfl, by omega⟩
  next some_ => cases pool; exact .inr ⟨by omega, rfl, rfl⟩

theorem memoryAllocate_eq {size : Nat} {entry : Option Nat}
    (memory : w.memoryAllocate cfg size = some (entry, w')) :
    w'.cls = w.cls ∧ w'.header = w.header ∧ w'.remote = w.remote ∧ w'.index = w.index ∧
    w'.temps = w.temps ∧ w'.rebal = w.rebal ∧ w'.cut = w.cut ∧ w'.nextTemp = w.nextTemp := by
  simp only [memoryAllocate, mapPage] at memory
  (repeat' split at memory) <;> cases memory <;> exact ⟨rfl, rfl, rfl, rfl, rfl, rfl, rfl, rfl⟩

end World

end MemExchange.Slabs
