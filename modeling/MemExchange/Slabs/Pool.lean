import MemExchange.Slabs.Removal

/-!
# The pool of unassigned pages

The limit test of `do_slabs_newslab` exempts the pool. But `mem_limit_reached`, which the first call
that hits the limit sets, is tested on its own, and only `do_slabs_adjust_mem_limit` clears it: a
page that the mover brings to the pool later stays there. The mover removes the last page of a class
in place of the one it has emptied, so it can bring the same page to the pool a second time.
-/
namespace MemExchange.Slabs

def PageTable.pageList (t : PageTable) : List (Option Nat) :=
  (List.range t.slabs).map fun i : Nat => t.slabList i

/-- While the pool has a page, `do_slabs_newslab` gives class `id` the last one, and leaves
the others in the pool. The page given is not one of these. -/
def PoolUsable (cfg : Config) (id : Int) (w : World) : Prop :=
  0 < (w.pages 0).slabs → ∃ page w', w.doSlabsNewslab cfg id = some w' ∧
    w'.pages id = (w.pages id).attach (some page) 0 none ∧
    (w.pages 0).pageList = (w'.pages 0).pageList ++ [some page] ∧
    some page ∉ (w'.pages 0).pageList

/-- While the pool has a page, the limit does not count as reached, and the last page of the
pool is a page that is not in the pool a second time. -/
def PoolReady (w : World) : Prop :=
  0 < (w.pages 0).slabs → w.account.memLimitReached = false ∧
    (w.pages 0).slabList ((w.pages 0).slabs - 1) ≠ none ∧
    (w.pages 0).slabList ((w.pages 0).slabs - 1) ∉ (w.pages 0).pageList.dropLast

instance : DecidablePred PoolReady := fun _ => by delta PoolReady; infer_instance

theorem pageList_eq_append (t : PageTable) (some_ : 0 < t.slabs) :
    t.pageList = { t with slabs := t.slabs - 1 }.pageList ++ [t.slabList (t.slabs - 1)] := by
  obtain ⟨n, slabs⟩ := Nat.exists_eq_add_one.mpr some_
  simp [PageTable.pageList, slabs, List.range_succ]

variable {w : World} (cfg : Config)

theorem refreshed_pages (w : World) (id : Int) : (w.refreshed cfg).pages id = w.pages id := by
  obtain ⟨a, -, -, refreshed⟩ := w.refreshed_eq cfg
  rw [refreshed]
  rfl

theorem limitHit_of_pool (w : World) (id : Int) (pool : 0 < (w.pages 0).slabs) :
    (w.refreshed cfg).limitHit cfg id = false := by
  simp [World.limitHit, refreshed_pages, pool.ne']

theorem doSlabsNewslab_pooled {cfg : Config} {page : Nat} (id : Int)
    (open_ : w.account.memLimitReached = false) (some_ : 0 < (w.pages 0).slabs)
    (last : (w.pages 0).slabList ((w.pages 0).slabs - 1) = some page) :
    w.doSlabsNewslab cfg id = some (((w.refreshed cfg).setPages 0 fun p =>
      { p with slabs := p.slabs - 1 }).addPage cfg page id) := by
  obtain ⟨a, -, same, refreshed⟩ := w.refreshed_eq cfg
  have passes := limitHit_of_pool cfg w id some_
  have reached : (w.refreshed cfg).account.memLimitReached = false := by
    rw [refreshed]
    exact same.trans open_
  have pool : (w.refreshed cfg).getPageFromGlobalPool = (some page, (w.refreshed cfg).setPages 0
      fun p => { p with slabs := p.slabs - 1 }) := by
    rw [World.getPageFromGlobalPool, refreshed_pages, if_neg (by omega), last]
  simp only [World.doSlabsNewslab, ← World.refreshed.eq_def, passes, reached, pool]
  rfl

variable {id : Int}

theorem poolUsable_of_ready {cfg : Config} (notPool : id ≠ 0) (ready : PoolReady w) :
    PoolUsable cfg id w := by
  intro some_
  obtain ⟨open_, page, once⟩ := ready some_
  obtain ⟨page, last⟩ := Option.ne_none_iff_exists'.mp page
  have list := pageList_eq_append _ some_
  rw [list, List.dropLast_concat, last] at once
  refine ⟨page, _, doSlabsNewslab_pooled id open_ some_ last, ?_, ?_⟩
  · rw [World.addPage_pages, if_pos rfl, World.setPages_pages, if_neg notPool, refreshed_pages]
  · rw [World.addPage_pages, if_neg notPool.symm, World.setPages_pages, if_pos rfl,
      refreshed_pages]
    exact ⟨last ▸ list, once⟩

theorem ready_of_poolUsable {cfg : Config} (usable : PoolUsable cfg id w) : PoolReady w := by
  intro some_
  obtain ⟨page, w', called, taken, list, once⟩ := usable some_
  obtain ⟨-, last⟩ := List.append_inj' (list.symm.trans (pageList_eq_append _ some_)) rfl
  rw [← (List.cons.inj last).1, list, List.dropLast_concat]
  refine ⟨?_, Option.some_ne_none page, once⟩
  -- The class has one page more, so the call went past the latch.
  have grown : (w'.pages id).slabs = (w.pages id).slabs + 1 := by rw [taken]; rfl
  cases w.doSlabsNewslab_newslab cfg called with
  | refused hit => simp [limitHit_of_pool cfg w id some_] at hit
  | reached => omega
  | pooled open_ => exact open_
  | mapped open_ => exact open_
  | exhausted pool memory =>
    obtain ⟨cls, -⟩ := World.memoryAllocate_eq cfg _ memory
    rw [World.pages_of_cls cls] at grown
    rcases World.getPageFromGlobalPool_eq _ pool with ⟨-, rfl, -⟩ | ⟨-, -, rfl⟩
    · rw [refreshed_pages] at grown
      omega
    · rw [World.setPages_pages] at grown
      split at grown <;> simp only [refreshed_pages] at grown
      · next here => subst here; omega
      · omega

theorem poolUsable_iff (notPool : id ≠ 0) : PoolUsable cfg id = PoolReady :=
  funext fun _ => propext ⟨ready_of_poolUsable, poolUsable_of_ready notPool⟩

/-- **Pages of the pool are usable while the pool is ready.** In any run from any start, with
any settings and limits: each class can be given the pages of the pool in every state that is
reached, if and only if in each of them that has a page in the pool the limit does not count
as reached and the last page of the pool is in it once. Which calls hit the limit is not traced, and
a page that was given out may come to the pool again. -/
theorem pool_pages_usable_iff (cfg : Config) (limit : Nat) (t : Tracker) (junk : Int → PageTable)
    (run : List Action) (id : Int) (isClass : cfg.isClass id = true) :
    Run.Always (step cfg) (PoolUsable cfg id) (.initial cfg limit t junk) run ↔
      Run.Always (step cfg) PoolReady (.initial cfg limit t junk) run := by
  have notPool : id ≠ 0 := by
    rintro rfl
    simp [Config.isClass] at isClass
  rw [poolUsable_iff cfg notPool]

/-- A page of class 2 is moved to the pool; `after` comes in between. -/
def toPool (after : List Action) : List Action :=
  fill 2 3 ++ after ++ [.reassign 2 0] ++ clearPage 0 ++ [.finish]

theorem pool_page_is_given :
    Run.Always (step (halves true)) (PoolUsable (halves true) 3) (blank (halves true) 16000000)
      (toPool [] ++ [.alloc 3 false]) :=
  (pool_pages_usable_iff (halves true) 0 (quarterOf 16000000) (fun _ => {}) _ 3 (by decide)).mpr
    (by decide +kernel)

/-- The limit is hit by class 2 before its page gets to the pool. Class 3 asks for its first
page in vain. -/
theorem pool_page_is_kept_back : (Run.exec (step (halves true)) (blank (halves true) 16000000)
      (toPool [.alloc 2 false])).map (fun w => ((w.pages 0).pageList,
        (w.doSlabsNewslab (halves true) 3).map fun w' =>
          ((w'.pages 0).pageList, (w'.pages 3).pageList))) =
      some ([some 0], some ([some 0], [])) ∧
    ¬ Run.Always (step (halves true)) (PoolUsable (halves true) 3)
      (blank (halves true) 16000000) (toPool [.alloc 2 false]) := by
  rw [poolUsable_iff _ (by decide)]
  decide +kernel

end MemExchange.Slabs
