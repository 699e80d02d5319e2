import MemExchange.Slabs.Removal

/-!
# Memory counters

A page is counted rounded up to whole system pages while the limit test compares its bare length; the
first page of a class is not tested at all; a received page is counted by the class it comes from and
credited by the class it goes to; and a release subtracts the size of its class, whatever was counted
for the page. Where each of these fits, nothing in the accounting goes below zero.
-/
namespace MemExchange.Slabs

open Tracker (adjustSize)

variable (cfg : Config) (w : World)

/-- A page that `do_slabs_newslab` is about to map, rounded up, fits under the share. -/
def AffordsNewPage (id : Int) : Prop :=
  w.account.memLimitReached = false → (w.refreshed cfg).limitHit cfg id = false →
    cfg.prealloc = false → (w.refreshed cfg).getPageFromGlobalPool.1 = none →
    ((w.account.total + adjustSize cfg.pagesize (cfg.len id) : Nat) : ℚ) ≤ w.share cfg

instance (id : Int) : Decidable (AffordsNewPage cfg w id) := by
  unfold AffordsNewPage; infer_instance

/-- The pages of a pool are different ones, and each was counted with at least what
`memory_release` subtracts for it. -/
def PoolCounted (pool : PageTable) : Prop :=
  (pool.entries.map Entry.page).Nodup ∧
    ∀ e ∈ pool.entries, ∀ page ∈ e.page, cfg.itemSizeMax ≤ w.charge page

instance (pool : PageTable) : Decidable (PoolCounted cfg w pool) := by
  unfold PoolCounted; infer_instance

/-- What `slab_rebalance_finish` needs: a released page was counted with at least its
size, a received page is not from a class whose pages are longer by more than a system page,
a remote page fits under the share, and a page that goes to the pool does not make
`memory_release` subtract more than was counted. -/
def AffordsFinish : Prop :=
  match w.rebal.source, w.rebal.destination with
  | .slab, .slab => w.rebal.dClsid = 0 → w.account.memMalloced ≤ w.account.memLimit ∨
      (w.rebal.sClsid ≠ 0 ∧ PoolCounted cfg w ((w.pages 0).place w.rebal.slabStart))
  | .slab, _ => ∃ page ∈ (w.pages w.rebal.sClsid).slabList w.rebal.slabToRelease,
      adjustSize cfg.pagesize (cfg.pageBytes w.rebal.sClsid) ≤ w.charge page
  | .localTenant, _ => cfg.pageBytes w.rebal.sClsid / cfg.pagesize ≤
      cfg.pageBytes w.rebal.dClsid / cfg.pagesize + 1
  | .remoteTenant, _ => ((w.account.total + 1024 * 1024 : Nat) : ℚ) ≤ w.share cfg

instance : Decidable (AffordsFinish cfg w) := by
  unfold AffordsFinish
  split <;> infer_instance

/-- Every page that is taken in fits under the share, and every page that is given up was
counted with what is subtracted for it. -/
def Affords : Action → Prop
  | .alloc id noNewPage => cfg.isClass id = true → (w.cls id).slCurr = 0 → noNewPage = false →
      AffordsNewPage cfg w id
  | .releaseFreeRemote => AffordsNewPage cfg w 1
  | .releaseFreeLocal => adjustSize cfg.pagesize freeSpaceBytes ≤ 2000000
  | .finish => w.rebal.done = true → AffordsFinish cfg w
  | .adjustMemLimit limit => w.account.memMalloced ≤ limit ∨ PoolCounted cfg w (w.pages 0)
  | _ => True

instance : DecidableRel (Affords cfg) := fun _ action => by
  rcases action with _ | _ <;> delta Affords <;> infer_instance

/-- What the counters are kept in, and what they are kept for. -/
def World.books : Account × Tracker × (Nat → Nat) × Nat × Rebal :=
  (w.account, w.tracker, w.charge, w.nextPage, w.rebal)

theorem World.of_books {w : World} {a t c n r} (books : w.books = (a, t, c, n, r)) :
    w.account = a ∧ w.tracker = t ∧ w.charge = c ∧ w.nextPage = n ∧ w.rebal = r := by
  simpa only [World.books, Prod.mk.injEq] using books

theorem ChunksOnly.books {w w' : World} (only : ChunksOnly w w') : w'.books = w.books := by
  simp only [World.books, only.account, only.tracker, only.charge, only.nextPage, only.rebal]

/-! ### The invariant -/

/-- Free and counted memory are within the share, and what is counted for pages is within
`mem_malloced`. -/
structure Solvent (cfg : Config) (w : World) : Prop where
  exact : w.account.wrapped = false
  within : ((w.account.memAvail + w.account.total : Nat) : ℚ) ≤ w.share cfg
  counted : ∑ page ∈ Finset.range w.nextPage, w.charge page ≤ w.account.memMalloced
  unnamed : ∀ page, w.nextPage ≤ page → w.charge page = 0

section Solvent

variable {cfg w} {w' : World}

section

variable (solvent : Solvent cfg w)
include solvent

theorem Solvent.total_le : (w.account.total : ℚ) ≤ w.share cfg := by
  have := solvent.within
  push_cast at this
  have : (0 : ℚ) ≤ w.account.memAvail := Nat.cast_nonneg _
  linarith

theorem Solvent.raise (account : w'.account = w.account) (share : w.share cfg ≤ w'.share cfg)
    (charge : w'.charge = w.charge) (nextPage : w'.nextPage = w.nextPage) : Solvent cfg w' where
  exact := by rw [account]; exact solvent.exact
  within := by rw [account]; exact solvent.within.trans share
  counted := by rw [charge, nextPage, account]; exact solvent.counted
  unnamed := by rw [charge, nextPage]; exact solvent.unnamed

theorem Solvent.same (account : w'.account = w.account) (tracker : w'.tracker = w.tracker)
    (charge : w'.charge = w.charge) (nextPage : w'.nextPage = w.nextPage) : Solvent cfg w' :=
  solvent.raise account (by rw [World.share, World.share, tracker]) charge nextPage

theorem Solvent.call {f : Tracker → Tracker}
    (shares : (f w.tracker).presetShare = w.tracker.presetShare) : Solvent cfg (w.callTracker f) :=
  solvent.raise rfl (congrFun shares cfg.slot).ge rfl rfl

end

theorem Solvent.setRebal (solvent : Solvent cfg w) (f : Rebal → Rebal) :
    Solvent cfg (w.setRebal f) :=
  solvent.same rfl rfl rfl rfl

theorem Solvent.books (solvent : Solvent cfg w) (books : w'.books = w.books) : Solvent cfg w' := by
  obtain ⟨account, tracker, charge, nextPage, -⟩ := World.of_books books
  exact solvent.same account tracker charge nextPage

/-- `mem_avail` is computed exactly when the share covers what is counted. -/
theorem solvent_readLimit (exact : w.account.wrapped = false)
    (covered : (w.account.total : ℚ) ≤ w.share cfg)
    (counted : ∑ page ∈ Finset.range w.nextPage, w.charge page ≤ w.account.memMalloced)
    (unnamed : ∀ page, w.nextPage ≤ page → w.charge page = 0) : Solvent cfg (w.readLimit cfg) := by
  have bound : w.account.total ≤ (w.share cfg).floor.toNat := by
    have : (w.account.total : Int) ≤ (w.share cfg).floor := Rat.le_floor_iff.mpr (by exact_mod_cast covered)
    omega
  have low : (((w.share cfg).floor.toNat : Nat) : ℚ) ≤ w.share cfg := by
    have nonneg : (0 : Int) ≤ (w.share cfg).floor :=
      Rat.le_floor_iff.mpr (le_trans (by exact_mod_cast Nat.zero_le w.account.total) covered)
    have : (((w.share cfg).floor.toNat : Int) : ℚ) ≤ w.share cfg := by
      rw [Int.toNat_of_nonneg nonneg]
      exact Rat.floor_le _
    exact_mod_cast this
  refine ⟨?_, ?_, counted, unnamed⟩
  · change (w.account.wrapped || decide ((w.share cfg).floor.toNat < w.account.total)) = false
    rw [exact, Bool.false_or, decide_eq_false_iff_not]
    omega
  · change ((sizeSub (w.share cfg).floor.toNat w.account.total + w.account.total : Nat) : ℚ) ≤ w.share cfg
    rwa [sizeSub, if_pos bound, Nat.sub_add_cancel bound]

/-! ### Pages taken in -/

theorem sum_charge_mapPage (w : World) (addr : Int) (charge : Nat) :
    ∑ page ∈ Finset.range (w.mapPage addr charge).2.nextPage, (w.mapPage addr charge).2.charge page =
      ∑ page ∈ Finset.range w.nextPage, w.charge page + charge := by
  change ∑ page ∈ Finset.range (w.nextPage + 1), Function.update w.charge w.nextPage charge page = _
  rw [Finset.sum_range_succ, Function.update_self]
  congr 1
  refine Finset.sum_congr rfl fun page named => Function.update_of_ne ?_ _ _
  have := Finset.mem_range.mp named
  omega

theorem unnamed_mapPage (unnamed : ∀ page, w.nextPage ≤ page → w.charge page = 0) (addr : Int)
    (charge : Nat) (page : Nat) (later : (w.mapPage addr charge).2.nextPage ≤ page) :
    (w.mapPage addr charge).2.charge page = 0 := by
  have beyond : w.nextPage + 1 ≤ page := later
  rw [World.mapPage]
  exact (Function.update_of_ne (by omega) _ _).trans (unnamed page (by omega))

section

variable (solvent : Solvent cfg w)
include solvent

/-- A page is mapped, and what is counted for it fits under the share. -/
theorem Solvent.mapped {f : Account → Account} {a : Int} {n m : Nat}
    (account : w'.account = w.account) (wrapped : (f w.account).wrapped = w.account.wrapped)
    (malloced : (f w.account).memMalloced = w.account.memMalloced + n)
    (remote : (f w.account).memMallocedRemote = w.account.memMallocedRemote + m)
    (charge : w'.charge = (w.mapPage a n).2.charge)
    (nextPage : w'.nextPage = (w.mapPage a n).2.nextPage)
    (fits : ((w.account.total + n + m : Nat) : ℚ) ≤ w'.share cfg) :
    Solvent cfg ((w'.setAccount f).readLimit cfg) := by
  have after : (w'.setAccount f).account = f w.account := congrArg f account
  refine solvent_readLimit ?_ ?_ ?_ ?_
  · rw [after, wrapped, solvent.exact]
  · rw [Account.total] at fits
    rwa [after, Account.total, malloced, remote, ← Nat.add_assoc,
      Nat.add_right_comm w.account.memMalloced]
  · change ∑ page ∈ Finset.range w'.nextPage, w'.charge page ≤ _
    rw [after, charge, nextPage, malloced, sum_charge_mapPage]
    exact Nat.add_le_add_right solvent.counted _
  · change ∀ page, w'.nextPage ≤ page → w'.charge page = 0
    rw [charge, nextPage]
    exact unnamed_mapPage solvent.unnamed a n

theorem Solvent.addPage (page : Nat) (id : Int) :
    Solvent cfg (w.addPage cfg page id) :=
  (solvent.books ((w.zeroPage_chunksOnly page).trans
    (World.split_chunksOnly cfg _ page id (cfg.len id))).books).same rfl rfl rfl rfl

theorem Solvent.refreshed : Solvent cfg (w.refreshed cfg) := by
  unfold World.refreshed
  split
  · exact solvent
  · exact solvent_readLimit solvent.exact solvent.total_le solvent.counted solvent.unnamed

theorem Solvent.pool {entry : Option Nat}
    (pool : w.getPageFromGlobalPool = (entry, w')) : Solvent cfg w' := by
  rcases w.getPageFromGlobalPool_eq pool with ⟨-, rfl, -⟩ | ⟨-, -, rfl⟩
  · exact solvent
  · exact solvent.same rfl rfl rfl rfl

theorem Solvent.memoryAllocate {size : Nat} {entry : Option Nat}
    (fits : cfg.prealloc = false →
      ((w.account.total + adjustSize cfg.pagesize size : Nat) : ℚ) ≤ w.share cfg)
    (memory : w.memoryAllocate cfg size = some (entry, w')) : Solvent cfg w' := by
  rw [World.memoryAllocate] at memory
  split at memory
  · -- one piece was taken at the start, and its pages are not counted
    split at memory
    · cases memory
      exact solvent
    · cases memory
      exact solvent.mapped (a := w.account.memCurrent) (m := 0) rfl rfl rfl rfl rfl rfl solvent.total_le
  next own =>
    have fits := fits (Bool.not_eq_true _ ▸ own)
    cases mapped : w.tracker.shmMalloc cfg.pagesize size with
    | mk region t =>
      have share : t.presetShare = w.tracker.presetShare := by
        simp only [Tracker.shmMalloc] at mapped
        split at mapped <;> cases mapped <;> rfl
      rw [mapped] at memory
      cases region with
      | none => cases memory
      | some r =>
        cases memory
        refine solvent.mapped (a := r.addr) (m := 0) rfl rfl rfl rfl rfl rfl ?_
        change _ ≤ t.presetShare cfg.slot
        rwa [share]

theorem Solvent.newslab {id : Int} (affords : AffordsNewPage cfg w id)
    (new : Newslab cfg w id w') : Solvent cfg w' := by
  obtain ⟨a, total, -, refreshed⟩ := w.refreshed_eq cfg
  cases new with
  | refused =>
    obtain ⟨exact, within, counted, unnamed⟩ := solvent.refreshed
    exact ⟨exact, within, counted, unnamed⟩
  | reached => exact solvent
  | pooled open_ passes got => exact (solvent.refreshed.pool got).addPage _ _
  | exhausted got memory =>
    -- only memory taken at the start runs out without waiting forever
    refine (solvent.refreshed.pool got).memoryAllocate (fun own => ?_) memory
    rw [World.memoryAllocate, own] at memory
    simp only [Bool.false_eq_true, if_false] at memory
    split at memory <;> cases memory
  | mapped open_ passes got memory =>
    refine ((solvent.refreshed.pool got).memoryAllocate (fun own => ?_) memory).addPage _ _
    have fits := affords open_ passes own (by rw [got])
    have same : ∀ {entry w₁}, (w.refreshed cfg).getPageFromGlobalPool = (entry, w₁) →
        w₁.account.total = w.account.total ∧ w₁.share cfg = w.share cfg := by
      intro entry w₁ got
      rcases World.getPageFromGlobalPool_eq _ got with ⟨-, rfl, -⟩ | ⟨-, -, rfl⟩ <;>
        rw [refreshed] <;> exact ⟨total, rfl⟩
    rwa [(same got).1, (same got).2]

theorem Solvent.takeChunk {id : Int} {found : Option Chunk}
    (taken : w.takeChunk id = some (found, w')) : Solvent cfg w' := by
  rcases w.takeChunk_cases taken with ⟨-, it, -, slot⟩ | ⟨-, it, -, slot⟩ | ⟨-, rfl⟩
  · exact solvent.books (w.takeSlot_uncut slot).books
  · obtain ⟨r, rest, -, -, rfl⟩ := w.takeRemoteSlot_eq slot
    exact solvent.same rfl rfl rfl rfl
  · exact solvent

theorem Solvent.alloc {id : Int} {noNewPage : Bool} {found : Option Chunk}
    (affords : Affords cfg w (.alloc id noNewPage))
    (called : w.doSlabsAlloc cfg id noNewPage = some (found, w')) : Solvent cfg w' := by
  simp only [World.doSlabsAlloc] at called
  split at called
  next isClass =>
    split at called
    next empty =>
      obtain ⟨w₁, newslab, taken⟩ := Option.bind_eq_some_iff.mp called
      have affords := affords isClass empty.1 empty.2
      exact (solvent.newslab affords (w.doSlabsNewslab_newslab cfg newslab)).takeChunk taken
    next => exact solvent.takeChunk called
  next =>
    cases called
    exact solvent

end

/-! ### Pages given up -/

theorem sum_charge_uncharge (w : World) (page : Nat)
    (unnamed : ∀ p, w.nextPage ≤ p → w.charge p = 0) :
    ∑ p ∈ Finset.range w.nextPage, (w.uncharge (some page)).charge p + w.charge page =
      ∑ p ∈ Finset.range w.nextPage, w.charge p := by
  have forgets : ∀ p, (w.uncharge (some page)).charge p = if p = page then 0 else w.charge p := by
    intro p
    simp [World.uncharge]
  by_cases named : page < w.nextPage
  · have mem := Finset.mem_range.mpr named
    rw [← Finset.add_sum_erase _ _ mem, ← Finset.add_sum_erase _ w.charge mem, forgets, if_pos rfl,
      Nat.zero_add, Nat.add_comm]
    congr 1
    refine Finset.sum_congr rfl fun p other => ?_
    rw [forgets, if_neg (Finset.ne_of_mem_erase other)]
  · rw [unnamed page (by omega), Nat.add_zero]
    refine Finset.sum_congr rfl fun p inside => ?_
    have := Finset.mem_range.mp inside
    rw [forgets, if_neg (by omega)]

theorem charge_le_sum (w : World) (page : Nat) (unnamed : ∀ p, w.nextPage ≤ p → w.charge p = 0) :
    w.charge page ≤ ∑ p ∈ Finset.range w.nextPage, w.charge p := by
  have := sum_charge_uncharge w page unnamed
  omega

theorem unnamed_uncharge (unnamed : ∀ p, w.nextPage ≤ p → w.charge p = 0) (page : Nat) (p : Nat)
    (later : w.nextPage ≤ p) : (w.uncharge (some page)).charge p = 0 := by
  have none_ := unnamed p later
  simp only [World.uncharge]
  split
  · rfl
  · exact none_

variable {page pagesize : Nat} {found : World.Found} (t : Tracker)

theorem Solvent.giveBack (solvent : Solvent cfg w) {n : Nat} (charged : n ≤ w.charge page) :
    Solvent cfg ((w.setAccount (·.subMalloced n)).uncharge (some page)) := by
  have enough : n ≤ w.account.memMalloced :=
    charged.trans ((charge_le_sum w page solvent.unnamed).trans solvent.counted)
  have sub : sizeSub w.account.memMalloced n = w.account.memMalloced - n := if_pos enough
  refine ⟨?_, ?_, ?_, ?_⟩
  · change (w.account.wrapped || decide (w.account.memMalloced < n)) = false
    rw [solvent.exact, Bool.false_or, decide_eq_false_iff_not]
    omega
  · change ((w.account.memAvail + (sizeSub w.account.memMalloced n + w.account.memMallocedRemote) : Nat) : ℚ)
      ≤ w.share cfg
    refine le_trans ?_ solvent.within
    rw [sub, Account.total]
    exact_mod_cast (by omega : w.account.memAvail + (w.account.memMalloced - n + w.account.memMallocedRemote)
      ≤ w.account.memAvail + (w.account.memMalloced + w.account.memMallocedRemote))
  · have sum := sum_charge_uncharge w page solvent.unnamed
    have counted := solvent.counted
    change ∑ p ∈ Finset.range w.nextPage, (w.uncharge (some page)).charge p ≤
      sizeSub w.account.memMalloced n
    rw [sub]
    omega
  · exact unnamed_uncharge solvent.unnamed page

theorem entries_pool (t : PageTable) (some_ : t.slabs ≠ 0) :
    t.entries = { t with slabs := t.slabs - 1 }.entries ++ [t.entry (t.slabs - 1)] := by
  obtain ⟨n, count⟩ := Nat.exists_eq_succ_of_ne_zero some_
  rw [PageTable.entries, PageTable.entries, count, List.range_succ, List.map_append]
  simp [PageTable.entry]

theorem PoolCounted.pop {pool : PageTable} (counted : PoolCounted cfg w pool)
    (some_ : pool.slabs ≠ 0) (last : pool.slabList (pool.slabs - 1) = some page) :
    cfg.itemSizeMax ≤ w.charge page ∧ ∀ {w' : World},
      (∀ p, p ≠ page → w'.charge p = w.charge p) →
      PoolCounted cfg w' { pool with slabs := pool.slabs - 1 } := by
  obtain ⟨distinct, charged⟩ := counted
  rw [entries_pool pool some_] at distinct charged
  rw [List.map_append, List.nodup_append] at distinct
  obtain ⟨distinct, -, apart⟩ := distinct
  refine ⟨charged (pool.entry (pool.slabs - 1)) (by simp) page last, fun same => ⟨distinct, fun e mem p isPage => ?_⟩⟩
  have other : p ≠ page := by
    rintro rfl
    have pages : e.page = (pool.entry (pool.slabs - 1)).page := by
      rw [Option.mem_def.mp isPage]; exact last.symm
    exact apart e.page (List.mem_map_of_mem mem) (pool.entry (pool.slabs - 1)).page (by simp) pages
  rw [same p other]
  exact charged e (by simp [mem]) p isPage

theorem Solvent.memoryRelease (n : Nat) (solvent : Solvent cfg w)
    (fits : w.account.memMalloced ≤ w.account.memLimit ∨ PoolCounted cfg w (w.pages 0)) :
    Solvent cfg (w.memoryRelease cfg n) := by
  induction n generalizing w with
  | zero => exact solvent
  | succ n ih =>
    rw [World.memoryRelease]
    split
    · exact solvent
    next beyond =>
      have counted := fits.resolve_left fun within => beyond (.inr (.inr within))
      cases pool : w.getPageFromGlobalPool with
      | mk entry w₁ =>
        cases entry with
        | none => exact solvent.pool pool
        | some page =>
          rcases w.getPageFromGlobalPool_eq pool with ⟨bad, -⟩ | ⟨some_, last, rfl⟩
          · cases bad
          obtain ⟨charged, popped⟩ := counted.pop some_ last.symm
          refine ih ((solvent.pool pool).giveBack charged) (.inr (popped fun p other => ?_))
          change (if some p = some page then 0 else w.charge p) = w.charge p
          rw [if_neg (fun same => other (Option.some.inj same))]

/-! ### Receptions -/

theorem le_adjustSize (n : Nat) (pos : 0 < pagesize) : n ≤ adjustSize pagesize n := by
  rw [adjustSize, Nat.mul_comm]
  exact (Nat.lt_mul_div_succ n pos).le

/-- What is counted for a received page is within what its mapping adds to the share. -/
theorem counted_le_mapped {s d : Nat} (slot : Int) (similar : s / pagesize ≤ d / pagesize + 1) :
    min (adjustSize pagesize s) t.spareSize ≤
      (t.shmMallocSpare pagesize (min (adjustSize pagesize d) t.spareSize) slot).1 := by
  rcases Nat.eq_zero_or_pos pagesize with rfl | pos
  · simp [adjustSize]
  simp only [Tracker.shmMallocSpare]
  split
  · exact Nat.min_le_right _ _
  next enough =>
    rcases Nat.le_total (adjustSize pagesize d) t.spareSize with fits | short
    · rw [Nat.min_eq_left fits]
      refine (Nat.min_le_left _ _).trans ?_
      rw [adjustSize, adjustSize, adjustSize, Nat.mul_div_cancel _ pos]
      exact Nat.mul_le_mul_right _ (by omega)
    · rw [Nat.min_eq_right short]
      exact (Nat.min_le_right _ _).trans (le_adjustSize _ pos)

theorem shmMallocSpare_share (pagesize n : Nat) (slot : Int) :
    (t.shmMallocSpare pagesize n slot).2.presetShare slot =
      t.presetShare slot + (t.shmMallocSpare pagesize n slot).1 := by
  simp [Tracker.shmMallocSpare]

/-! ### `slab_rebalance_finish` -/

theorem shiftPages_books (cfg : Config) (w : World) (id x : Int) (n : Nat) :
    (w.shiftPages cfg id x n).books = w.books := by
  induction n generalizing w x with
  | zero => rfl
  | succ n ih =>
    rw [World.shiftPages, ih, World.renumber]
    simp only
    split <;> rfl

theorem removePage_books (cfg : Config) (w : World) (id idx : Int) :
    (w.removePage cfg id idx).books = w.books :=
  shiftPages_books cfg _ id idx _

section

variable (solvent : Solvent cfg w)
include solvent

theorem Solvent.reset : Solvent cfg w.finishReset := by
  rw [World.finishReset]
  split
  · refine (solvent.call ?_).setRebal _
    split <;> simp only [Tracker.resetLocks, Tracker.resetRemoteSpare]
  · refine (solvent.call ?_).setRebal _
    split <;> simp [Tracker.unlockMinScore, Tracker.resetRemoteSpare]

theorem Solvent.release (source : w.rebal.source = .slab)
    (leaves : w.rebal.destination ≠ .slab)
    (released : (w.pages w.rebal.sClsid).slabList w.rebal.slabToRelease = some page)
    (charged : adjustSize cfg.pagesize (cfg.pageBytes w.rebal.sClsid) ≤ w.charge page) :
    Solvent cfg ((w.finishSource cfg).finishAccount cfg) := by
  set size := adjustSize cfg.pagesize (cfg.pageBytes w.rebal.sClsid) with size_eq
  obtain ⟨account, tracker, charge, nextPage, rebal⟩ :=
    World.of_books (removePage_books cfg w w.rebal.sClsid w.rebal.slabToRelease)
  have kept := finishSource_rebal cfg w
  have after : (w.finishSource cfg).account = w.account ∧
      (w.finishSource cfg).share cfg = w.share cfg - size ∧
      (w.finishSource cfg).charge = (w.uncharge (some page)).charge ∧
      (w.finishSource cfg).nextPage = w.nextPage := by
    simp only [World.finishSource, source, ne_eq, not_true_eq_false, if_false, World.giveAway, rebal,
      released]
    cases gone : w.rebal.destination with
    | slab => exact absurd gone leaves
    | localTenant =>
      refine ⟨account, ?_, ?_, nextPage⟩
      · simp [World.share, World.uncharge, World.callTracker, Tracker.setSpareMem, tracker, ← size_eq]
      · simp [World.uncharge, World.callTracker, charge]
    | remoteTenant =>
      refine ⟨account, ?_, ?_, nextPage⟩
      · simp [World.share, World.uncharge, World.callTracker, Tracker.setRemoteMem, tracker, ← size_eq]
      · simp [World.uncharge, World.callTracker, charge]
  obtain ⟨account, share, charge, nextPage⟩ := after
  obtain ⟨exact, -, counted, unnamed⟩ := solvent.giveBack charged
  have enough : size ≤ w.account.memMalloced :=
    charged.trans ((charge_le_sum w page solvent.unnamed).trans solvent.counted)
  have inner : Solvent cfg (((w.finishSource cfg).setAccount (·.subMalloced size)).readLimit cfg) := by
    refine solvent_readLimit ?_ ?_ ?_ ?_
    · change ((w.finishSource cfg).account.subMalloced size).wrapped = false
      rwa [account]
    · have total := solvent.total_le
      change (((w.finishSource cfg).account.subMalloced size).total : ℚ) ≤ (w.finishSource cfg).share cfg
      rw [account, share, Account.total, Account.subMalloced, sizeSub, if_pos enough]
      rw [Account.total] at total
      push_cast [Nat.cast_sub enough] at total ⊢
      linarith
    · change ∑ p ∈ Finset.range (w.finishSource cfg).nextPage, (w.finishSource cfg).charge p ≤
        ((w.finishSource cfg).account.subMalloced size).memMalloced
      rwa [account, charge, nextPage]
    · intro p later
      change (w.finishSource cfg).charge p = 0
      rw [charge]
      exact unnamed p (nextPage ▸ later)
  have goal : (w.finishSource cfg).finishAccount cfg =
      (((w.finishSource cfg).setAccount (·.subMalloced size)).readLimit cfg).callTracker
        (·.unlockSpare) := by
    rw [World.finishAccount, kept, if_neg (fun both => leaves both.2)]
    simp only [source]
    rfl
  rw [goal]
  exact inner.call rfl

theorem Solvent.attachLocal (source : w.rebal.source = .localTenant)
    (similar : cfg.pageBytes w.rebal.sClsid / cfg.pagesize ≤
      cfg.pageBytes w.rebal.dClsid / cfg.pagesize + 1) :
    Solvent cfg ((w.attachLocal cfg).finishAccount cfg) := by
  set counted := min (adjustSize cfg.pagesize (cfg.pageBytes w.rebal.sClsid)) w.tracker.spareSize with
    counted_eq
  have books : (w.attachLocal cfg).books =
      (w.account, (w.tracker.shmMallocSpare cfg.pagesize (w.receivedBytes cfg) cfg.slot).2,
        (w.mapPage w.tracker.spareMemStart counted).2.charge, w.nextPage + 1, w.rebal) :=
    (World.split_chunksOnly ..).books
  obtain ⟨account, tracker, charge, nextPage, rebal⟩ := World.of_books books
  have spare : (w.attachLocal cfg).tracker.spareSize = w.tracker.spareSize := by rw [tracker]; rfl
  have goal : (w.attachLocal cfg).finishAccount cfg =
      (((w.attachLocal cfg).setAccount fun a =>
        { a with memMalloced := a.memMalloced + counted }).readLimit cfg).callTracker (·.unlockSpare) := by
    rw [World.finishAccount, rebal, source, if_neg (by simp), spare]
  rw [goal]
  refine (solvent.mapped (m := 0) account rfl rfl rfl charge nextPage ?_).call rfl
  have total := solvent.total_le
  have fits : (counted : ℚ) ≤
      (w.tracker.shmMallocSpare cfg.pagesize (w.receivedBytes cfg) cfg.slot).1 := by
    exact_mod_cast counted_le_mapped w.tracker cfg.slot similar
  change _ ≤ (w.attachLocal cfg).tracker.presetShare cfg.slot
  rw [tracker]
  refine le_trans ?_ (shmMallocSpare_share w.tracker cfg.pagesize (w.receivedBytes cfg) cfg.slot).ge
  rw [World.share] at total
  push_cast
  linarith

omit solvent in
theorem splitRemote_books (cfg : Config) (w : World) (page conn : Nat) (mr : Mr) (id : Int)
    (sizee : Nat) : (w.splitRemotePageIntoFreelist cfg page conn mr id sizee).books = w.books := by
  have rounds : ∀ (xs : List Nat) (w : World),
      (xs.foldl (fun w x => w.splitRemoteChunk cfg page conn mr id x) w).books = w.books := by
    intro xs
    induction xs with
    | nil => exact fun _ => rfl
    | cons x xs ih => exact fun w => ih (w.splitRemoteChunk cfg page conn mr id x)
  exact rounds _ w

theorem Solvent.attachRemote (source : w.rebal.source = .remoteTenant)
    (fits : ((w.account.total + 1024 * 1024 : Nat) : ℚ) ≤ w.share cfg)
    (attached : w.attachRemote cfg = some w') : Solvent cfg (w'.finishAccount cfg) := by
  have books : w'.books = (w.mapPage 0 0).2.books := by
    obtain ⟨conn, -, rfl⟩ := Option.map_eq_some_iff.mp attached
    simp only
    split
    · exact splitRemote_books cfg _ _ conn _ _ _
    · exact splitRemote_books cfg (w.mapPage 0 0).2 _ conn _ _ _
  obtain ⟨account, tracker, charge, nextPage, rebal⟩ := World.of_books books
  rw [World.finishAccount, rebal, show (w.mapPage 0 0).2.rebal = w.rebal from rfl, source,
    if_neg (by simp)]
  refine (solvent.mapped (n := 0) account rfl rfl rfl charge nextPage ?_).call rfl
  change _ ≤ w'.tracker.presetShare cfg.slot
  rwa [tracker]

/-- A page that moves between classes is not counted again; one that goes to the pool may
let `memory_release` give pages back. -/
theorem Solvent.attachMoved
    (fits : w.rebal.dClsid = 0 → w.account.memMalloced ≤ w.account.memLimit ∨
      PoolCounted cfg w ((w.pages 0).place w.rebal.slabStart)) :
    Solvent cfg (w.attachMoved cfg) := by
  have placed : Solvent cfg (w.setPages w.rebal.dClsid (·.place w.rebal.slabStart)) :=
    solvent.same rfl rfl rfl rfl
  simp only [World.attachMoved]
  split
  · exact placed
  next page start =>
    rw [start] at placed fits ⊢
    split
    · exact placed.books ((World.zeroPage_chunksOnly _ page).trans (World.split_chunksOnly ..)).books
    split
    next toPool =>
      refine placed.memoryRelease _ ((fits toPool).imp id fun counted => ?_)
      rwa [World.setPages_pages, if_pos toPool.symm, toPool]
    · exact placed

omit solvent in
theorem attachMoved_rebal (cfg : Config) (w : World) : (w.attachMoved cfg).rebal = w.rebal := by
  simp only [World.attachMoved]
  split
  · rfl
  split
  · exact ((World.zeroPage_chunksOnly _ _).trans (World.split_chunksOnly ..)).rebal
  split
  · exact (memoryRelease_keeps cfg _ _).1
  · rfl

theorem Solvent.moveWithin (source : w.rebal.source = .slab)
    (stays : w.rebal.destination = .slab)
    (fits : w.rebal.dClsid = 0 → w.account.memMalloced ≤ w.account.memLimit ∨
      (w.rebal.sClsid ≠ 0 ∧ PoolCounted cfg w ((w.pages 0).place w.rebal.slabStart))) :
    Solvent cfg (((w.finishSource cfg).attachMoved cfg).finishAccount cfg) := by
  have books := removePage_books cfg w w.rebal.sClsid w.rebal.slabToRelease
  obtain ⟨account, -, charge, -, rebal⟩ := World.of_books books
  have moved : w.finishSource cfg = w.removePage cfg w.rebal.sClsid w.rebal.slabToRelease := by
    simp only [World.finishSource, source, ne_eq, not_true_eq_false, if_false, World.giveAway,
      rebal, stays]
  have removed : Solvent cfg (w.finishSource cfg) := by
    rw [moved]
    exact solvent.books books
  rw [World.finishAccount, attachMoved_rebal, finishSource_rebal, if_pos ⟨source, stays⟩]
  refine removed.attachMoved fun toPool => ?_
  rw [finishSource_rebal] at toPool ⊢
  rw [moved, account]
  rcases fits toPool with within | ⟨notPool, counted⟩
  · exact .inl within
  · rw [World.removePage_pages, if_neg notPool.symm]
    exact .inr ⟨counted.1, by rw [charge]; exact counted.2⟩

theorem Solvent.finish
    (roles : w.rebal.source ≠ .slab → w.rebal.destination = .slab) (affords : AffordsFinish cfg w)
    (called : w.slabRebalanceFinish cfg = some w') : Solvent cfg w' := by
  obtain ⟨-, called⟩ := Option.ite_none_right_eq_some.mp called
  obtain ⟨w₁, there, rfl⟩ := Option.map_eq_some_iff.mp called
  refine Solvent.reset ?_
  rw [World.finishDestination, finishSource_rebal] at there
  unfold AffordsFinish at affords
  by_cases source : w.rebal.source = .slab
  · by_cases stays : w.rebal.destination = .slab
    · simp only [source, stays] at affords
      simp only [source, stays, ne_eq, not_true_eq_false, if_false] at there
      split at there
      · cases there
      cases there
      exact solvent.moveWithin source stays affords
    · rw [if_pos stays] at there
      cases there
      have released : ∃ page ∈ (w.pages w.rebal.sClsid).slabList w.rebal.slabToRelease,
          adjustSize cfg.pagesize (cfg.pageBytes w.rebal.sClsid) ≤ w.charge page := by
        cases gone : w.rebal.destination with
        | slab => exact absurd gone stays
        | localTenant | remoteTenant => simpa only [source, gone] using affords
      obtain ⟨page, listed, charged⟩ := released
      exact solvent.release source stays listed charged
  · have stays := roles source
    have unmoved : w.finishSource cfg = w := if_pos source
    rw [if_neg (not_not.mpr stays), unmoved] at there
    split at there
    · cases there
    cases whose : w.rebal.source with
    | slab => exact absurd whose source
    | localTenant =>
      simp only [whose] at there affords
      cases there
      exact solvent.attachLocal whose affords
    | remoteTenant =>
      simp only [whose] at there affords
      exact solvent.attachRemote whose affords there

end

/-! ### Runs -/

/-- Receptions and releases are never under way at the same time. -/
structure Roles (r : Rebal) : Prop where
  one : r.source ≠ .slab → r.destination = .slab
  idle : r.signal = .idle → r.source = .slab

theorem Roles.work {r r' : Rebal} (roles : Roles r) (work : SameWork r r') : Roles r' where
  one := by rw [work.source, work.destination]; exact roles.one
  idle := by rw [work.signal, work.source]; exact roles.idle

theorem roles_reassign {src dst : Int} (roles : Roles w.rebal) :
    Roles (w.doSlabsReassign cfg src dst).2.rebal := by
  rcases w.doSlabsReassign_cases cfg src dst with
    ⟨-, cur, after⟩ | ⟨-, -, -, after⟩ | ⟨-, -, -, src', cur, -, -, after⟩
  · rw [after]; exact ⟨roles.one, roles.idle⟩
  · rw [after]; exact ⟨roles.one, fun idle => by cases idle⟩
  · rw [after]; exact ⟨roles.one, fun idle => by cases idle⟩

theorem roles_finish (called : w.slabRebalanceFinish cfg = some w') : Roles w'.rebal := by
  obtain ⟨-, called⟩ := Option.ite_none_right_eq_some.mp called
  obtain ⟨w₁, -, rfl⟩ := Option.map_eq_some_iff.mp called
  simp only [World.finishReset]
  split <;> exact ⟨fun _ => rfl, fun _ => rfl⟩

theorem roles_start (roles : Roles w.rebal) (called : w.slabRebalanceStart cfg = some w') :
    Roles w'.rebal := by
  obtain ⟨-, called⟩ := Option.ite_none_left_eq_some.mp called
  split at called
  next within => cases called; exact ⟨roles.one, fun _ => within.1⟩
  · cases called
    exact ⟨roles.one, fun idle => by cases idle⟩

theorem roles_move (roles : Roles w.rebal) (called : w.slabRebalanceMove cfg found = some w') :
    Roles w'.rebal := by
  obtain ⟨w₁, r, -, work, rfl⟩ := slabRebalanceMove_uncut called
  exact roles.work work

section

variable (solvent : Solvent cfg w)
include solvent

theorem Solvent.releasePage (roles : Roles w.rebal) {id page : Int}
    {toRemote : Bool} (called : w.releasePage cfg id page toRemote = some w') :
    Solvent cfg w' ∧ Roles w'.rebal := by
  obtain ⟨may, ⟨⟩⟩ := Option.ite_none_right_eq_some.mp called
  simp only [World.mayRelease, Bool.decide_and, Bool.and_eq_true, decide_eq_true_eq] at may
  have own := roles.idle may.1
  refine ⟨?_, roles_reassign ⟨fun foreign => absurd own foreign, fun _ => own⟩⟩
  rcases World.doSlabsReassign_cases cfg _ id (-2) with
    ⟨-, cur, after⟩ | ⟨-, -, -, after⟩ | ⟨-, -, -, src', cur, -, -, after⟩ <;>
    rw [after] <;> exact solvent.same rfl rfl rfl rfl

theorem Solvent.reassign (src dst : Int) :
    Solvent cfg (w.doSlabsReassign cfg src dst).2 := by
  rcases w.doSlabsReassign_cases cfg src dst with
    ⟨-, cur, after⟩ | ⟨-, -, -, after⟩ | ⟨-, -, -, src', cur, -, -, after⟩ <;>
    rw [after] <;> exact solvent.same rfl rfl rfl rfl

theorem Solvent.releaseFreeRemote (roles : Roles w.rebal)
    (affords : AffordsNewPage cfg w 1) (called : w.releaseFreeRemote cfg = some w') :
    Solvent cfg w' ∧ Roles w'.rebal := by
  obtain ⟨guard, called⟩ := Option.ite_none_right_eq_some.mp called
  obtain ⟨w₁, newslab, rfl⟩ := Option.map_eq_some_iff.mp called
  have own : w₁.rebal.source = .slab := by
    rw [(w.doSlabsNewslab_grows cfg newslab).1]
    exact roles.idle guard.1
  have grown := solvent.newslab affords (w.doSlabsNewslab_newslab cfg newslab)
  refine ⟨Solvent.reassign ?_ _ _, roles_reassign ⟨fun foreign => absurd own foreign, fun _ => own⟩⟩
  exact grown.same rfl rfl rfl rfl

theorem Solvent.releaseFreeLocal (fits : adjustSize cfg.pagesize freeSpaceBytes ≤ 2000000)
    (called : w.releaseFreeLocal cfg = some w') : Solvent cfg w' := by
  obtain ⟨guard, ⟨⟩⟩ := Option.ite_none_right_eq_some.mp called
  refine (solvent_readLimit ?_ ?_ ?_ ?_ : Solvent cfg (World.readLimit cfg _)).call rfl
  · exact solvent.exact
  · -- what is given away is within the free memory that was seen
    have within := solvent.within
    have free : ((adjustSize cfg.pagesize freeSpaceBytes : Nat) : ℚ) ≤ w.account.memAvail := by
      exact_mod_cast (fits.trans guard.2.le)
    have share : (w.tracker.releaseFreeSpace cfg.pagesize cfg.slot).presetShare cfg.slot =
        w.share cfg - (adjustSize cfg.pagesize freeSpaceBytes : Nat) := by
      simp [Tracker.releaseFreeSpace, Tracker.signalAllocFree, Tracker.setSpareMem, World.share]
    change (w.account.total : ℚ) ≤ (w.tracker.releaseFreeSpace cfg.pagesize cfg.slot).presetShare cfg.slot
    rw [share]
    push_cast at within
    linarith
  · exact solvent.counted
  · exact solvent.unnamed

omit solvent in
theorem share_le_apply (op : TrackerOp) (slot : Int) (other : lowersShare slot op = false) :
    t.presetShare slot ≤ (op.apply t).presetShare slot := by
  by_cases trading : op.trading = false
  · rw [(Tracker.apply_of_not_trading t op trading).1]
  have raised : ∀ n : Nat, ∀ id : Int, t.presetShare slot ≤
      if slot = id then t.presetShare slot + (n : ℚ) else t.presetShare slot := by
    intro n id
    split
    · exact le_add_of_nonneg_right (Nat.cast_nonneg n)
    · exact le_rfl
  cases op <;> simp only [TrackerOp.trading, not_true_eq_false] at trading
  case setSpareMem ptr n cls id =>
    simp only [lowersShare, decide_eq_false_iff_not] at other
    simp [TrackerOp.apply, Tracker.setSpareMem, Ne.symm other]
  case setRemoteMem n id =>
    simp only [lowersShare, decide_eq_false_iff_not] at other
    simp [TrackerOp.apply, Tracker.setRemoteMem, Ne.symm other]
  case shmMallocSpare pagesize n id => exact raised _ id
  case receiveRemoteMem conn n id => exact raised n id

theorem Solvent.receiveLocal (called : w.receiveLocal = some w') :
    Solvent cfg w' ∧ Roles w'.rebal := by
  obtain ⟨-, ⟨⟩⟩ := Option.ite_none_right_eq_some.mp called
  refine ⟨(solvent.call ?_).setRebal _, fun _ => rfl, fun idle => by cases idle⟩
  simp

theorem Solvent.receiveRemote (called : w.receiveRemote = some w') :
    Solvent cfg w' ∧ Roles w'.rebal := by
  obtain ⟨-, ⟨⟩⟩ := Option.ite_none_right_eq_some.mp called
  exact ⟨solvent.same rfl rfl rfl rfl, fun _ => rfl, fun idle => by cases idle⟩

theorem Solvent.endWaiting (called : w.endWaiting = some w') :
    Solvent cfg w' ∧ Roles w'.rebal := by
  obtain ⟨-, ⟨⟩⟩ := Option.ite_none_right_eq_some.mp called
  refine ⟨(solvent.call ?_).setRebal _, fun _ => rfl, fun _ => rfl⟩
  simp only [Tracker.unlockMaxScore, Tracker.resetRemoteSpare, Tracker.resetLocks,
    Tracker.finishBroadcast]

theorem Solvent.start (called : w.slabRebalanceStart cfg = some w') :
    Solvent cfg w' := by
  obtain ⟨-, called⟩ := Option.ite_none_left_eq_some.mp called
  split at called <;> cases called <;> exact solvent.same rfl rfl rfl rfl

theorem Solvent.move (called : w.slabRebalanceMove cfg found = some w') :
    Solvent cfg w' := by
  obtain ⟨w₁, r, only, -, rfl⟩ := slabRebalanceMove_uncut called
  exact (solvent.books only.books).same rfl rfl rfl rfl

end

end Solvent

/-- No counter wraps in a step that can be afforded. -/
theorem solvent_step (action : Action) (w' : World) (inv : Solvent cfg w ∧ Roles w.rebal)
    (affords : Affords cfg w action) (called : step cfg w action = some w') :
    Solvent cfg w' ∧ Roles w'.rebal := by
  obtain ⟨solvent, roles⟩ := inv
  by_cases beside : action.besideMover = true
  · refine ⟨?_, by rwa [(besideMover_step cfg w action beside called).1]⟩
    cases action <;> simp only [Action.besideMover, Bool.false_eq_true] at beside
    case preallocate id =>
      obtain ⟨guard, called⟩ := Option.ite_none_right_eq_some.mp called
      have affords : AffordsNewPage cfg w id := fun _ _ mapped => by simp [guard.1] at mapped
      exact solvent.newslab affords (w.doSlabsNewslab_newslab cfg called)
    case alloc id noNewPage =>
      obtain ⟨⟨found, after⟩, alloc, rfl⟩ := Option.map_eq_some_iff.mp called
      exact solvent.alloc affords alloc
    case link c =>
      obtain ⟨-, ⟨⟩⟩ := Option.ite_none_right_eq_some.mp called
      exact solvent.same rfl rfl rfl rfl
    case itemFree c =>
      obtain ⟨-, ⟨⟩⟩ := Option.ite_none_right_eq_some.mp called
      exact (solvent.books (w.doSlabsFree_uncut cfg c (w.header c).clsid).books).same rfl rfl rfl rfl
    case storeRemote c =>
      simp only [step, World.storeRemote] at called
      split at called
      · cases called
      split at called <;> cases called
      exact solvent.same rfl rfl rfl rfl
    case hit id page =>
      obtain rfl := Option.some.inj called
      unfold World.incrSlabHits
      split
      · exact solvent.same rfl rfl rfl rfl
      · exact solvent
    case releaseFreeLocal => exact solvent.releaseFreeLocal affords called
    case adjustMemLimit limit =>
      cases called
      rw [World.doSlabsAdjustMemLimit]
      split
      · exact solvent
      · exact Solvent.memoryRelease _ ⟨solvent.exact, solvent.within, solvent.counted,
          solvent.unnamed⟩ affords
    case other op =>
      obtain ⟨kept, ⟨⟩⟩ := Option.ite_none_left_eq_some.mp called
      exact solvent.raise rfl (share_le_apply w.tracker op cfg.slot (by simpa using kept)) rfl rfl
    case copyMr conn mr => cases called; exact solvent.same rfl rfl rfl rfl
  cases action <;> simp only [Action.besideMover, not_true_eq_false] at beside
  case reassign src dst =>
    cases called
    exact ⟨solvent.reassign src dst, roles_reassign roles⟩
  case forceReassign d =>
    cases called
    refine ⟨Solvent.reassign ?_ _ _, roles_reassign ⟨fun _ => rfl, fun _ => rfl⟩⟩
    exact solvent.same rfl rfl rfl rfl
  case releasePage id page toRemote => exact solvent.releasePage roles called
  case releaseFreeRemote => exact solvent.releaseFreeRemote roles affords called
  case receiveLocal => exact solvent.receiveLocal called
  case receiveRemote => exact solvent.receiveRemote called
  case endWaiting => exact solvent.endWaiting called
  case start => exact ⟨solvent.start called, roles_start roles called⟩
  case move found => exact ⟨solvent.move called, roles_move roles called⟩
  case finish =>
    refine ⟨?_, roles_finish called⟩
    by_cases done : w.rebal.done = true
    · exact solvent.finish roles.one (affords done) called
    · simp [step, World.slabRebalanceFinish, done] at called

theorem solvent_initial (limit : Nat) (t : Tracker) (junk : Int → PageTable)
    (owns : 0 ≤ t.presetShare cfg.slot) : Solvent cfg (.initial cfg limit t junk) := by
  let empty : World := { account := { memLimit := limit }, tracker := t }
  have within : (((0 : Nat) : Nat) : ℚ) ≤ t.presetShare cfg.slot := by exact_mod_cast owns
  have start : Solvent cfg empty := ⟨rfl, within, le_rfl, fun _ _ => rfl⟩
  by_cases prealloc : cfg.prealloc = true
  · have read := solvent_readLimit start.exact start.total_le start.counted start.unnamed
    exact read.same (by simp only [World.initial, prealloc, if_true]; rfl) rfl rfl rfl
  · exact start.same (by simp only [World.initial, prealloc]; rfl) rfl rfl rfl

/-- In a run in which every page taken in fits under the share and every page given up was
counted with what is subtracted for it, no counter ever goes below zero. -/
theorem accounting_exact_of_affordable (cfg : Config) (limit : Nat) (t : Tracker)
    (junk : Int → PageTable) (run : List Action) (owns : 0 ≤ t.presetShare cfg.slot)
    (affords : Run.Along (step cfg) (Affords cfg) (.initial cfg limit t junk) run) :
    Run.Always (step cfg) (fun w => w.account.wrapped = false) (.initial cfg limit t junk) run := by
  have start : Solvent cfg (.initial cfg limit t junk) ∧
      Roles (World.initial cfg limit t junk).rebal :=
    ⟨solvent_initial cfg limit t junk owns, fun _ => rfl, fun _ => rfl⟩
  have always := Run.always_of_invariant (solvent_step cfg) start affords
  exact Run.always_mono (fun _ inv => inv.1.exact) always

theorem accounting_exact_in_two_releases : 0 ≤ (quarterOf 96000000).presetShare 0 ∧
    Run.Along (step (halves true)) (Affords (halves true)) (blank (halves true) 96000000)
      twoReleases ∧
    Run.Always (step (halves true)) (fun w => w.account.wrapped = false)
      (blank (halves true) 96000000) twoReleases :=
  ⟨by decide +kernel, by decide +kernel,
    accounting_exact_of_affordable _ _ _ _ _ (by decide +kernel) (by decide +kernel)⟩

/-- A tenant with a share of 1200000 bytes gets the first page of two classes. -/
theorem second_first_page_wraps :
    ¬ Run.Always (step (halves true)) (fun w => w.account.wrapped = false)
      (blank (halves true) 4800000) [.alloc 2 false, .alloc 3 false] ∧
    (Run.exec (step (halves true)) (blank (halves true) 4800000)
      [.alloc 2 false, .alloc 3 false]).map (fun w => (w.account.memMalloced, w.account.memLimit,
        w.account.memAvail)) = some (2105344, 1200000, 18446744073708646272) := by
  decide +kernel

end MemExchange.Slabs
