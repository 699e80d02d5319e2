import MemExchange.Slabs.Removal

/-!
# The pages of the classes

While every page that is removed is the one that was emptied, the page tables of all classes
list different pages. A new page that is split for a class gives `perslab` chunks; a received page is
split by what the tracker has mapped, which is up to a system page more, or less.
-/
namespace MemExchange.Slabs

/-- A received page is split into as many chunks as its class counts on. -/
def SplitsEvenly (cfg : Config) (w : World) : Action → Prop
  | .finish => w.rebal.done = true → w.rebal.source ≠ .slab → cfg.isClass w.rebal.dClsid = true →
      w.receivedBytes cfg / cfg.size w.rebal.dClsid = cfg.perslab w.rebal.dClsid
  | _ => True

instance (cfg : Config) : DecidableRel (SplitsEvenly cfg) := fun _ action => by
  rcases action with _ | _ <;> delta SplitsEvenly <;> infer_instance

/-! ### Steps that touch no chunk -/

/-- No chunk and no free list is touched. Names may be given to pages, and pages may leave
the pool. -/
structure Quiet (w w' : World) : Prop where
  slots : ∀ id, (w'.cls id).slots = (w.cls id).slots
  slCurr : ∀ id, (w'.cls id).slCurr = (w.cls id).slCurr
  rslots : ∀ id, (w'.cls id).rslots = (w.cls id).rslots
  slCurrR : ∀ id, (w'.cls id).slCurrR = (w.cls id).slCurrR
  slabList : ∀ id, (w'.pages id).slabList = (w.pages id).slabList
  rkey : ∀ id, (w'.pages id).rkey = (w.pages id).rkey
  conn : ∀ id, (w'.pages id).conn = (w.pages id).conn
  slabs : ∀ id, id ≠ 0 → (w'.pages id).slabs = (w.pages id).slabs
  pool : (w'.pages 0).slabs ≤ (w.pages 0).slabs
  header : w'.header = w.header
  remote : w'.remote = w.remote
  index : w'.index = w.index
  temps : w'.temps = w.temps
  cut : w'.cut = w.cut
  nextPage : w.nextPage ≤ w'.nextPage
  nextTemp : w'.nextTemp = w.nextTemp

namespace Quiet

variable {w w' w'' : World}

theorem of_cls (cls : w'.cls = w.cls) (header : w'.header = w.header)
    (remote : w'.remote = w.remote) (index : w'.index = w.index) (temps : w'.temps = w.temps)
    (cut : w'.cut = w.cut) (nextPage : w.nextPage ≤ w'.nextPage)
    (nextTemp : w'.nextTemp = w.nextTemp) : Quiet w w' where
  slots id := by rw [cls]
  slCurr id := by rw [cls]
  rslots id := by rw [cls]
  slCurrR id := by rw [cls]
  slabList id := by rw [World.pages_of_cls cls]
  rkey id := by rw [World.pages_of_cls cls]
  conn id := by rw [World.pages_of_cls cls]
  slabs id _ := by rw [World.pages_of_cls cls]
  pool := by rw [World.pages_of_cls cls]
  header := header
  remote := remote
  index := index
  temps := temps
  cut := cut
  nextPage := nextPage
  nextTemp := nextTemp

theorem refl (w : World) : Quiet w w := .of_cls rfl rfl rfl rfl rfl rfl le_rfl rfl

theorem trans (first : Quiet w w') (second : Quiet w' w'') : Quiet w w'' where
  slots id := (second.slots id).trans (first.slots id)
  slCurr id := (second.slCurr id).trans (first.slCurr id)
  rslots id := (second.rslots id).trans (first.rslots id)
  slCurrR id := (second.slCurrR id).trans (first.slCurrR id)
  slabList id := (second.slabList id).trans (first.slabList id)
  rkey id := (second.rkey id).trans (first.rkey id)
  conn id := (second.conn id).trans (first.conn id)
  slabs id notPool := (second.slabs id notPool).trans (first.slabs id notPool)
  pool := second.pool.trans first.pool
  header := second.header.trans first.header
  remote := second.remote.trans first.remote
  index := second.index.trans first.index
  temps := second.temps.trans first.temps
  cut := second.cut.trans first.cut
  nextPage := first.nextPage.trans second.nextPage
  nextTemp := second.nextTemp.trans first.nextTemp

section

variable (quiet : Quiet w w')
include quiet

theorem setRebal (f : Rebal → Rebal) : Quiet w (w'.setRebal f) :=
  quiet.trans (.of_cls rfl rfl rfl rfl rfl rfl le_rfl rfl)

theorem setAccount (f : Account → Account) : Quiet w (w'.setAccount f) :=
  quiet.trans (.of_cls rfl rfl rfl rfl rfl rfl le_rfl rfl)

theorem callTracker (f : Tracker → Tracker) : Quiet w (w'.callTracker f) :=
  quiet.trans (.of_cls rfl rfl rfl rfl rfl rfl le_rfl rfl)

theorem uncharge (page : Option Nat) : Quiet w (w'.uncharge page) :=
  quiet.trans (.of_cls rfl rfl rfl rfl rfl rfl le_rfl rfl)

end

theorem setPages (w : World) (id : Int) (f : PageTable → PageTable)
    (slabList : (f (w.pages id)).slabList = (w.pages id).slabList)
    (rkey : (f (w.pages id)).rkey = (w.pages id).rkey)
    (conn : (f (w.pages id)).conn = (w.pages id).conn)
    (slabs : id ≠ 0 → (f (w.pages id)).slabs = (w.pages id).slabs)
    (pool : (f (w.pages id)).slabs ≤ (w.pages id).slabs) : Quiet w (w.setPages id f) := by
  have cls : ∀ other, (w.setPages id f).cls other =
      if other = id then { w.cls id with pages := f (w.pages id) } else w.cls other :=
    fun other => World.setClass_cls ..
  have pages := fun other => World.setPages_pages w id other f
  refine ⟨?_, ?_, ?_, ?_, ?_, ?_, ?_, ?_, ?_, rfl, rfl, rfl, rfl, rfl, le_rfl, rfl⟩
  · intro other; rw [cls]; split <;> simp_all
  · intro other; rw [cls]; split <;> simp_all
  · intro other; rw [cls]; split <;> simp_all
  · intro other; rw [cls]; split <;> simp_all
  · intro other; rw [pages]; split <;> simp_all
  · intro other; rw [pages]; split <;> simp_all
  · intro other; rw [pages]; split <;> simp_all
  · intro other notPool; rw [pages]; split <;> simp_all
  · rw [pages]; split <;> simp_all

theorem popPool (w : World) : Quiet w (w.setPages 0 fun p => { p with slabs := p.slabs - 1 }) :=
  setPages w 0 _ rfl rfl rfl (fun notPool => absurd rfl notPool) (Nat.sub_le _ _)

theorem getPageFromGlobalPool {entry : Option Nat} (pool : w.getPageFromGlobalPool = (entry, w')) :
    Quiet w w' := by
  rcases w.getPageFromGlobalPool_eq pool with ⟨-, rfl, -⟩ | ⟨-, -, rfl⟩
  · exact .refl _
  · exact popPool w

theorem refreshed (cfg : Config) (w : World) : Quiet w (w.refreshed cfg) := by
  obtain ⟨a, -, -, same⟩ := w.refreshed_eq cfg
  rw [same]
  exact .of_cls rfl rfl rfl rfl rfl rfl le_rfl rfl

theorem hits (w : World) (id page : Int) : Quiet w (w.incrSlabHits id page) := by
  unfold World.incrSlabHits
  split
  · exact setPages w id _ rfl rfl rfl (fun _ => rfl) le_rfl
  · exact .refl w

theorem reassign (cfg : Config) (w : World) (src dst : Int) :
    Quiet w (w.doSlabsReassign cfg src dst).2 := by
  rcases w.doSlabsReassign_cases cfg src dst with
    ⟨-, cur, after⟩ | ⟨-, -, -, after⟩ | ⟨-, -, -, src', cur, -, -, after⟩ <;>
    rw [after] <;> exact (Quiet.refl w).setRebal _

theorem memoryRelease (cfg : Config) (n : Nat) (w : World) : Quiet w (w.memoryRelease cfg n) := by
  induction n generalizing w with
  | zero => exact .refl w
  | succ n ih =>
    rw [World.memoryRelease]
    split
    · exact .refl w
    cases pool : w.getPageFromGlobalPool with
    | mk entry w₁ =>
      have popped := Quiet.getPageFromGlobalPool pool
      cases entry with
      | none => exact popped
      | some page => exact ((popped.setAccount _).uncharge _).trans (ih _)

theorem finishAccount (cfg : Config) (w : World) : Quiet w (w.finishAccount cfg) := by
  unfold World.finishAccount
  split
  · exact .refl w
  · exact (((Quiet.refl w).setAccount _).setAccount _).callTracker _

theorem finishReset (w : World) : Quiet w w.finishReset := by
  unfold World.finishReset
  simp only
  split <;> exact ((Quiet.refl w).callTracker _).setRebal _

theorem giveAway (cfg : Config) (w : World) (page : Option Nat) :
    Quiet w (w.giveAway cfg page) := by
  unfold World.giveAway
  simp only
  split
  · exact .refl w
  · exact ((Quiet.refl w).callTracker _).uncharge _
  · exact ((Quiet.refl w).callTracker _).uncharge _

end Quiet

/-- The actions that hand out, take back or move chunks. -/
def Action.touchesChunks : Action → Bool
  | .preallocate _ | .alloc _ _ | .link _ | .itemFree _ | .storeRemote _ | .releaseFreeRemote
  | .move _ | .finish => true
  | _ => false

theorem quiet_step {cfg : Config} {w w' : World} {action : Action}
    (quiet : action.touchesChunks = false) (called : step cfg w action = some w') : Quiet w w' := by
  have idle := Quiet.refl w
  cases action <;> simp only [Action.touchesChunks, reduceCtorEq] at quiet
  case hit id page => obtain rfl := Option.some.inj called; exact .hits ..
  case reassign src dst => obtain rfl := Option.some.inj called; exact .reassign ..
  case forceReassign d =>
    cases called
    exact (idle.setRebal _).trans (.reassign ..)
  case releasePage id page toRemote =>
    obtain ⟨-, ⟨⟩⟩ := Option.ite_none_right_eq_some.mp called
    exact (idle.setRebal _).trans (.reassign ..)
  case releaseFreeLocal =>
    obtain ⟨-, ⟨⟩⟩ := Option.ite_none_right_eq_some.mp called
    exact ((idle.callTracker _).setAccount _).callTracker _
  case receiveLocal =>
    obtain ⟨-, ⟨⟩⟩ := Option.ite_none_right_eq_some.mp called
    exact (idle.callTracker _).setRebal _
  case receiveRemote =>
    obtain ⟨-, ⟨⟩⟩ := Option.ite_none_right_eq_some.mp called
    exact idle.setRebal _
  case endWaiting =>
    obtain ⟨-, ⟨⟩⟩ := Option.ite_none_right_eq_some.mp called
    exact (idle.callTracker _).setRebal _
  case start =>
    obtain ⟨-, called⟩ := Option.ite_none_left_eq_some.mp called
    split at called <;> (obtain rfl := Option.some.inj called; exact idle.setRebal _)
  case adjustMemLimit limit =>
    cases called
    unfold World.doSlabsAdjustMemLimit
    split
    · exact idle
    · exact (idle.setAccount _).trans (.memoryRelease ..)
  case other op =>
    obtain ⟨-, ⟨⟩⟩ := Option.ite_none_left_eq_some.mp called
    exact idle.callTracker _
  case copyMr conn mr =>
    cases called
    exact .of_cls rfl rfl rfl rfl rfl rfl le_rfl rfl

/-! ### Listed pages -/

/-- Entry `i` of class `id` is in use and has page `page`. -/
def Lists (w : World) (id : Int) (i page : Nat) : Prop :=
  i < (w.pages id).slabs ∧ (w.pages id).slabList i = some page

/-- A page with a name that no class has. -/
structure Fresh (w : World) (page : Nat) : Prop where
  named : page < w.nextPage
  free : ∀ id i, ¬ Lists w id i page

/-- The entries in use have pages, all of them different, and those of the classes are split
as the class counts on. -/
structure Layout (cfg : Config) (w : World) : Prop where
  listed : ∀ id i, i < (w.pages id).slabs → ∃ page, Lists w id i page
  named : ∀ {id i page}, Lists w id i page → page < w.nextPage
  apart : ∀ {id id' i i' page}, Lists w id i page → Lists w id' i' page → id = id' ∧ i = i'
  even : ∀ {id i page}, cfg.isClass id = true → Lists w id i page → w.cut page = cfg.perslab id

section Layout

variable {cfg : Config} {w w' : World}

theorem Layout.shrink (layout : Layout cfg w)
    (slabs : ∀ id, (w'.pages id).slabs ≤ (w.pages id).slabs)
    (slabList : ∀ id, (w'.pages id).slabList = (w.pages id).slabList) (cut : w'.cut = w.cut)
    (nextPage : w.nextPage ≤ w'.nextPage) : Layout cfg w' := by
  have before : ∀ {id i page}, Lists w' id i page → Lists w id i page :=
    fun {id i page} ⟨inUse, has⟩ => ⟨lt_of_lt_of_le inUse (slabs id), slabList id ▸ has⟩
  refine ⟨fun id i inUse => ?_, fun lists => ?_, fun one two => ?_, fun isClass lists => ?_⟩
  · obtain ⟨page, -, has⟩ := layout.listed id i (lt_of_lt_of_le inUse (slabs id))
    exact ⟨page, inUse, by rw [slabList]; exact has⟩
  · exact lt_of_lt_of_le (layout.named (before lists)) nextPage
  · exact layout.apart (before one) (before two)
  · rw [cut]; exact layout.even isClass (before lists)

theorem Quiet.slabs_le (quiet : Quiet w w') (id : Int) :
    (w'.pages id).slabs ≤ (w.pages id).slabs := by
  by_cases pool : id = 0
  · subst pool; exact quiet.pool
  · exact (quiet.slabs id pool).le

theorem Layout.quiet (layout : Layout cfg w) (quiet : Quiet w w') : Layout cfg w' :=
  layout.shrink quiet.slabs_le quiet.slabList quiet.cut quiet.nextPage

theorem Quiet.lists (quiet : Quiet w w') {id : Int} {i page : Nat} (lists : Lists w' id i page) :
    Lists w id i page :=
  ⟨lt_of_lt_of_le lists.1 (quiet.slabs_le id), quiet.slabList id ▸ lists.2⟩

variable {page rkey idx : Nat} {conn : Option Nat} {s : Int}

theorem lists_attach {id : Int} (pages : ∀ other, w'.pages other =
      if other = id then (w.pages id).attach (some page) rkey conn else w.pages other)
    (other : Int) (i p : Nat) : Lists w' other i p ↔
      Lists w other i p ∨ (other = id ∧ i = (w.pages id).slabs ∧ p = page) := by
  simp only [Lists, pages]
  by_cases here : other = id
  · subst here
    simp only [if_true, PageTable.attach, PageTable.place]
    by_cases last : i = (w.pages other).slabs
    · subst last
      simp only [Function.update_self, Option.some.injEq, true_and, lt_irrefl, false_and, false_or]
      exact ⟨fun both => both.2.symm, fun same => ⟨Nat.lt_succ_self _, same.symm⟩⟩
    · rw [Function.update_of_ne (by omega)]
      constructor
      · rintro ⟨inUse, has⟩
        exact .inl ⟨by omega, has⟩
      · rintro (⟨inUse, has⟩ | ⟨-, here, -⟩)
        · exact ⟨by omega, has⟩
        · exact absurd here last
  · simp only [here, if_false, false_and, or_false]

theorem Layout.attach (layout : Layout cfg w) {id : Int} (fresh : Fresh w page)
    (pages : ∀ other, w'.pages other =
      if other = id then (w.pages id).attach (some page) rkey conn else w.pages other)
    (cut : ∀ p, p ≠ page → w'.cut p = w.cut p)
    (even : cfg.isClass id = true → w'.cut page = cfg.perslab id)
    (nextPage : w'.nextPage = w.nextPage) : Layout cfg w' := by
  have lists := lists_attach pages
  refine ⟨fun other i inUse => ?_, fun {other i p} has => ?_, fun {a b i j p} one two => ?_,
    fun {other i p} isClass has => ?_⟩
  · by_cases last : other = id ∧ i = (w.pages id).slabs
    · exact ⟨page, (lists other i page).mpr (.inr ⟨last.1, last.2, rfl⟩)⟩
    · have before : i < (w.pages other).slabs := by
        rw [pages] at inUse
        split at inUse
        next here =>
          subst here
          change i < (w.pages other).slabs + 1 at inUse
          have : i ≠ (w.pages other).slabs := fun same => last ⟨rfl, same⟩
          omega
        · exact inUse
      obtain ⟨p, has⟩ := layout.listed other i before
      exact ⟨p, (lists other i p).mpr (.inl has)⟩
  · rw [nextPage]
    rcases (lists other i p).mp has with old | ⟨-, -, rfl⟩
    · exact layout.named old
    · exact fresh.named
  · rcases (lists a i p).mp one with old | ⟨rfl, rfl, rfl⟩
    · rcases (lists b j p).mp two with old' | ⟨rfl, rfl, rfl⟩
      · exact layout.apart old old'
      · exact absurd old (fresh.free _ _)
    · rcases (lists b j _).mp two with old' | ⟨rfl, rfl, -⟩
      · exact absurd old' (fresh.free _ _)
      · exact ⟨rfl, rfl⟩
  · rcases (lists other i p).mp has with old | ⟨rfl, -, rfl⟩
    · rw [cut p fun same => fresh.free _ _ (same ▸ old)]
      exact layout.even isClass old
    · exact even isClass

theorem lists_remove (inside : idx < (w.pages s).slabs)
    (pages : ∀ other, w'.pages other = if other = s then (w.pages s).remove idx else w.pages other)
    (other : Int) (i p : Nat) : Lists w' other i p ↔
      Lists w other (if other = s ∧ ¬ i < idx then i + 1 else i) p := by
  simp only [Lists, pages]
  by_cases here : other = s
  · subst here
    have last : decr (w.pages other).slabs = (w.pages other).slabs - 1 := if_neg (by omega)
    simp only [if_true, PageTable.remove_slabs, last, true_and]
    by_cases bound : i < (w.pages other).slabs - 1
    · have entry := congrArg Entry.page ((w.pages other).remove_entry inside bound)
      simp only [PageTable.entry] at entry
      rw [entry]
      by_cases before : i < idx
      · rw [if_pos before, if_neg (not_not.mpr before)]
        exact and_congr_left' (by omega)
      · rw [if_neg before, if_pos before]
        exact and_congr_left' (by omega)
    · have outside : ¬ (if ¬ i < idx then i + 1 else i) < (w.pages other).slabs := by
        split <;> omega
      simp only [bound, outside, false_and]
  · simp only [here, false_and, if_false]

theorem Layout.remove (layout : Layout cfg w) (inside : idx < (w.pages s).slabs)
    (pages : ∀ other, w'.pages other = if other = s then (w.pages s).remove idx else w.pages other)
    (cut : w'.cut = w.cut) (nextPage : w'.nextPage = w.nextPage) : Layout cfg w' := by
  have lists := lists_remove inside pages
  refine ⟨fun other i inUse => ?_, fun {other i p} has => ?_, fun {a b i j p} one two => ?_,
    fun {other i p} isClass has => ?_⟩
  · have before : (if other = s ∧ ¬ i < idx then i + 1 else i) < (w.pages other).slabs := by
      rw [pages] at inUse
      by_cases here : other = s
      · subst here
        rw [if_pos rfl, PageTable.remove_slabs, decr, if_neg (by omega)] at inUse
        split <;> omega
      · rw [if_neg here] at inUse
        rwa [if_neg (fun both => here both.1)]
    obtain ⟨page, has⟩ := layout.listed other _ before
    exact ⟨page, (lists other i page).mpr has⟩
  · rw [nextPage]; exact layout.named ((lists other i p).mp has)
  · obtain ⟨rfl, same⟩ := layout.apart ((lists a i p).mp one) ((lists b j p).mp two)
    refine ⟨rfl, ?_⟩
    split at same <;> split at same <;> omega
  · rw [cut]; exact layout.even isClass ((lists other i p).mp has)

/-! ### New pages -/

theorem len_div_size (cfg : Config) {id : Int} (isClass : cfg.isClass id = true) :
    cfg.len id / cfg.size id = cfg.perslab id := by
  simp only [Config.isClass, decide_eq_true_eq] at isClass
  have size_pos : 0 < cfg.size id := cfg.size_pos id isClass.1 isClass.2
  have perslab_eq : cfg.perslab id = cfg.slabPageSize / cfg.size id :=
    cfg.perslab_eq id isClass.1 isClass.2
  unfold Config.len
  split
  · exact perslab_eq.symm
  · -- the product of the two fits into an `unsigned int`
    have fits : cfg.size id * cfg.perslab id < 2 ^ 32 := by
      have := Nat.mul_div_le cfg.slabPageSize (cfg.size id)
      have := cfg.pageSize_lt
      rw [perslab_eq]
      omega
    have bytes : cfg.pageBytes id = cfg.size id * cfg.perslab id := by
      rw [Config.pageBytes, SlabDims.pageBytes, UInt32.toNat_mul]
      exact Nat.mod_eq_of_lt fits
    rw [bytes, Nat.mul_div_cancel_left _ size_pos]

theorem memoryAllocate_names {size : Nat} {entry : Option Nat}
    (memory : w.memoryAllocate cfg size = some (entry, w')) :
    Quiet w w' ∧ ∀ page ∈ entry, page = w.nextPage ∧ w'.nextPage = w.nextPage + 1 := by
  obtain ⟨cls, header, remote, index, temps, -, cut, nextTemp⟩ := w.memoryAllocate_eq cfg memory
  suffices next : (entry = none ∧ w'.nextPage = w.nextPage) ∨
      (entry = some w.nextPage ∧ w'.nextPage = w.nextPage + 1) by
    refine ⟨.of_cls cls header remote index temps cut ?_ nextTemp, ?_⟩
    · rcases next with ⟨-, same⟩ | ⟨-, same⟩ <;> omega
    · rintro page rfl
      rcases next with ⟨none_, -⟩ | ⟨same, after⟩
      · cases none_
      · exact ⟨Option.some.inj same, after⟩
  simp only [World.memoryAllocate, World.mapPage] at memory
  split at memory
  · split at memory <;> cases memory
    · exact .inl ⟨rfl, rfl⟩
    · exact .inr ⟨rfl, rfl⟩
  · split at memory <;> cases memory
    exact .inr ⟨rfl, rfl⟩

/-- `do_slabs_newslab` touches no chunk, or adds a page that no class had. -/
theorem newslab_adds (layout : Layout cfg w) {id : Int}
    (called : w.doSlabsNewslab cfg id = some w') :
    Quiet w w' ∨ ∃ w₁ page, Quiet w w₁ ∧ Fresh w₁ page ∧ w' = w₁.addPage cfg page id := by
  have refreshed := Quiet.refreshed cfg w
  cases w.doSlabsNewslab_newslab cfg called with
  | refused hit => exact .inl (refreshed.setAccount _)
  | reached before => exact .inl (.refl w)
  | @pooled page w₁ _ _ pool =>
    refine .inr ⟨w₁, page, refreshed.trans (.getPageFromGlobalPool pool), ?_, rfl⟩
    have layout := layout.quiet refreshed
    rcases World.getPageFromGlobalPool_eq _ pool with ⟨none_, -⟩ | ⟨some_, has, rfl⟩
    · cases none_
    set r := w.refreshed cfg
    -- the page was the last entry of the pool
    have last : Lists r 0 ((r.pages 0).slabs - 1) page := by
      refine ⟨by omega, ?_⟩
      rw [has]
      congr 1
      omega
    refine ⟨layout.named last, fun other i lists => ?_⟩
    obtain ⟨rfl, rfl⟩ := layout.apart ((Quiet.popPool r).lists lists) last
    have := lists.1
    rw [World.setPages_pages, if_pos rfl] at this
    exact lt_irrefl _ this
  | exhausted pool memory =>
    exact .inl ((refreshed.trans (.getPageFromGlobalPool pool)).trans (memoryAllocate_names memory).1)
  | @mapped page w₁ w₂ _ _ pool memory =>
    have popped := refreshed.trans (.getPageFromGlobalPool pool)
    obtain ⟨named, new⟩ := memoryAllocate_names memory
    obtain ⟨rfl, next⟩ := new page rfl
    refine .inr ⟨w₂, _, popped.trans named, ⟨by omega, fun other i lists => ?_⟩, rfl⟩
    exact lt_irrefl _ ((layout.quiet popped).named (named.lists lists))

end Layout

end MemExchange.Slabs
