import MemExchange.Slabs.Stock

/-!
# Emptying a page

`slab_rebalance_move` goes through the chunks of a page and clears those that are free; it
copies or evicts linked items and comes back for what was busy. Chunks that it has cleared are
on no list, nobody hands them out, and there are none outside of the page.
-/
namespace MemExchange.Slabs

/-- How far the mover has come. -/
structure Clearing (cfg : Config) (w : World) : Prop where
  only : ∀ {id page y}, cfg.isClass id = true → InClass w id (.cell page y) →
    (w.header (.cell page y)).flag = .cleared →
    w.rebal.signal = .moving ∧ w.rebal.source = .slab ∧ w.rebal.slabStart = some page
  inside : w.rebal.signal = .moving → w.rebal.source = .slab → w.rebal.done = false →
    w.rebal.slabPos < cfg.perslab w.rebal.sClsid
  behind : w.rebal.signal = .moving → w.rebal.source = .slab → w.rebal.busyItems = 0 →
    ∀ page ∈ w.rebal.slabStart, ∀ y < w.rebal.slabPos, (w.header (.cell page y)).flag = .cleared
  done : w.rebal.signal = .moving → w.rebal.source = .slab → w.rebal.done = true →
    ∀ page ∈ w.rebal.slabStart, ∀ y < cfg.perslab w.rebal.sClsid,
      (w.header (.cell page y)).flag = .cleared

/-- The mover is where it was. -/
structure SameMover (r r' : Rebal) : Prop where
  signal : r'.signal = r.signal
  sClsid : r'.sClsid = r.sClsid
  slabStart : r'.slabStart = r.slabStart
  slabPos : r'.slabPos = r.slabPos
  busyItems : r'.busyItems = r.busyItems
  done : r'.done = r.done
  source : r'.source = r.source

theorem SameMover.refl (r : Rebal) : SameMover r r := ⟨rfl, rfl, rfl, rfl, rfl, rfl, rfl⟩

section Clearing

variable {cfg : Config} {w w' : World}

/-! ### While others work -/

theorem Clearing.keep (clearing : Clearing cfg w) (mover : SameMover w.rebal w'.rebal)
    (new : ∀ id page y, cfg.isClass id = true → InClass w' id (.cell page y) →
      (w'.header (.cell page y)).flag = .cleared →
      InClass w id (.cell page y) ∧ (w.header (.cell page y)).flag = .cleared)
    (stays : w.rebal.signal = .moving → w.rebal.source = .slab → ∀ page ∈ w.rebal.slabStart, ∀ y,
      (w.header (.cell page y)).flag = .cleared → (w'.header (.cell page y)).flag = .cleared) :
    Clearing cfg w' where
  only {id page y} isClass there cleared := by
    rw [mover.signal, mover.source, mover.slabStart]
    obtain ⟨before, cleared'⟩ := new id page y isClass there cleared
    exact clearing.only isClass before cleared'
  inside := by
    rw [mover.signal, mover.source, mover.done, mover.slabPos, mover.sClsid]
    exact clearing.inside
  behind := by
    rw [mover.signal, mover.source, mover.busyItems, mover.slabPos, mover.slabStart]
    intro moving source idle page start y before
    exact stays moving source page start y (clearing.behind moving source idle page start y before)
  done := by
    rw [mover.signal, mover.source, mover.done, mover.sClsid, mover.slabStart]
    intro moving source done page start y before
    exact stays moving source page start y (clearing.done moving source done page start y before)

theorem Clearing.keepFlags (clearing : Clearing cfg w) (rebal : w'.rebal = w.rebal)
    (same : SamePages w w') (flags : ∀ page y, (w'.header (.cell page y)).flag = .cleared ↔
      (w.header (.cell page y)).flag = .cleared) : Clearing cfg w' := by
  refine clearing.keep (by rw [rebal]; exact .refl _) (fun id page y _ there cleared => ?_) ?_
  · exact ⟨(inClass_iff _ (same.pages id) same.cut).mp there, (flags page y).mp cleared⟩
  · intro _ _ page _ y cleared
    exact (flags page y).mpr cleared

theorem Clearing.quiet (clearing : Clearing cfg w) (mover : SameMover w.rebal w'.rebal)
    (quiet : Quiet w w') : Clearing cfg w' := by
  refine clearing.keep mover (fun id page y isClass there cleared => ?_) ?_
  · rw [quiet.header] at cleared
    exact ⟨(quiet.inClass (ne_zero_of_isClass isClass) _).mp there, cleared⟩
  · intro _ _ page _ y cleared
    rwa [quiet.header]

variable {page pos : Nat} {action : Action} {it : Chunk} {w₁ : World} {found : World.Found}

theorem Clearing.none_cleared (clearing : Clearing cfg w)
    (resting : ¬ (w.rebal.signal = .moving ∧ w.rebal.source = .slab)) {id : Int} {y : Nat}
    (isClass : cfg.isClass id = true) (there : InClass w id (.cell page y)) :
    (w.header (.cell page y)).flag ≠ .cleared := by
  intro cleared
  obtain ⟨moving, source, -⟩ := clearing.only isClass there cleared
  exact resting ⟨moving, source⟩

theorem clearing_of_none (none_ : ∀ {id page y}, cfg.isClass id = true →
      InClass w id (.cell page y) → (w.header (.cell page y)).flag ≠ .cleared)
    (start : w.rebal.signal = .moving → w.rebal.source = .slab →
      w.rebal.slabPos = 0 ∧ w.rebal.done = false ∧ cfg.isClass w.rebal.sClsid = true) :
    Clearing cfg w where
  only isClass there cleared := absurd cleared (none_ isClass there)
  inside moving source _ := by
    obtain ⟨first, -, isClass⟩ := start moving source
    simp only [Config.isClass, decide_eq_true_eq] at isClass
    rw [first]
    exact cfg.perslab_pos _ isClass.1 isClass.2
  behind moving source _ page _ y before := by
    rw [(start moving source).1] at before
    exact absurd before (Nat.not_lt_zero y)
  done moving source done := by
    simp [(start moving source).2.1] at done

theorem Clearing.restart (clearing : Clearing cfg w) (quiet : Quiet w w')
    (resting : w.rebal.signal ≠ .moving) (start : w'.rebal.signal = .moving →
      w'.rebal.source = .slab → w'.rebal.slabPos = 0 ∧ w'.rebal.done = false ∧
        cfg.isClass w'.rebal.sClsid = true) : Clearing cfg w' := by
  refine clearing_of_none (fun {id page y} isClass there => ?_) start
  rw [quiet.header]
  exact clearing.none_cleared (fun both => resting both.1) isClass
    ((quiet.inClass (ne_zero_of_isClass isClass) _).mp there)

/-! ### Requests and starts -/

theorem reassign_mover (cfg : Config) (w : World) (src dst : Int) :
    SameMover w.rebal (w.doSlabsReassign cfg src dst).2.rebal ∨
      (w.rebal.signal = .idle ∧ (w.doSlabsReassign cfg src dst).2.rebal.signal ≠ .moving) := by
  rcases w.doSlabsReassign_cases cfg src dst with
    ⟨-, cur, after⟩ | ⟨-, idle, -, after⟩ | ⟨-, idle, -, src', cur, -, -, after⟩
  · rw [after]; exact .inl ⟨rfl, rfl, rfl, rfl, rfl, rfl, rfl⟩
  · rw [after]; exact .inr ⟨idle, by simp [World.setRebal]⟩
  · rw [after]; exact .inr ⟨idle, by simp [World.setRebal]⟩

theorem reassign_rests (src dst : Int) (resting : w.rebal.signal ≠ .moving) :
    (w.doSlabsReassign cfg src dst).2.rebal.signal ≠ .moving := by
  rcases reassign_mover cfg w src dst with same | ⟨-, rests⟩
  · rw [same.signal]; exact resting
  · exact rests

/-- What the actions that touch no chunk do to the mover: nothing, or it was not moving and is
at most at the start of a page. -/
theorem quiet_mover (asks : AsksForItsPages cfg w action) (quiet : action.touchesChunks = false)
    (called : step cfg w action = some w') :
    SameMover w.rebal w'.rebal ∨ (w.rebal.signal ≠ .moving ∧
      (w'.rebal.signal = .moving → w'.rebal.slabPos = 0 ∧ w'.rebal.done = false)) := by
  have rests : ∀ {w₁ w₂ : World}, w₁.rebal.signal ≠ .moving → w₂.rebal.signal ≠ .moving →
      SameMover w₁.rebal w₂.rebal ∨ (w₁.rebal.signal ≠ .moving ∧
        (w₂.rebal.signal = .moving → w₂.rebal.slabPos = 0 ∧ w₂.rebal.done = false)) :=
    fun before after => .inr ⟨before, fun moving => absurd moving after⟩
  cases action <;> simp only [Action.touchesChunks, reduceCtorEq] at quiet
  case hit | releaseFreeLocal | adjustMemLimit | other | copyMr =>
    rw [(besideMover_step cfg w _ rfl called).1]
    exact .inl (.refl _)
  case reassign src dst =>
    cases called
    rcases reassign_mover cfg w src dst with same | ⟨idle, after⟩
    · exact .inl same
    · exact rests (by rw [idle]; simp) after
  case forceReassign d =>
    cases called
    have before : w.rebal.signal ≠ .moving := by
      rcases asks.2 with idle | waiting
      · rw [idle]; simp
      · rw [waiting]; simp
    exact rests before (reassign_rests _ _ before)
  case releasePage id page toRemote =>
    obtain ⟨may, ⟨⟩⟩ := Option.ite_none_right_eq_some.mp called
    simp only [World.mayRelease, Bool.decide_and, Bool.and_eq_true, decide_eq_true_eq] at may
    have before : w.rebal.signal ≠ .moving := by rw [may.1]; simp
    exact rests before (reassign_rests _ _ before)
  case receiveLocal =>
    obtain ⟨guard, ⟨⟩⟩ := Option.ite_none_right_eq_some.mp called
    exact rests (by rw [guard.1]; simp) (by simp [World.setRebal])
  case receiveRemote =>
    obtain ⟨guard, ⟨⟩⟩ := Option.ite_none_right_eq_some.mp called
    exact rests (by rw [guard.1]; simp) (by simp [World.setRebal])
  case endWaiting =>
    obtain ⟨guard, ⟨⟩⟩ := Option.ite_none_right_eq_some.mp called
    exact rests (by rw [guard]; simp) (by simp [World.setRebal])
  case start =>
    obtain ⟨requested, called⟩ := Option.ite_none_left_eq_some.mp called
    have before : w.rebal.signal ≠ .moving := by rw [not_not.mp requested]; simp
    split at called
    · cases called
      exact rests before (by simp [World.setRebal])
    · cases called
      exact .inr ⟨before, fun _ => ⟨rfl, rfl⟩⟩

theorem Clearing.quietStep (clearing : Clearing cfg w) (pick : PickInv cfg w')
    (asks : AsksForItsPages cfg w action) (quiet : action.touchesChunks = false)
    (called : step cfg w action = some w') : Clearing cfg w' := by
  have untouched := quiet_step quiet called
  rcases quiet_mover asks quiet called with same | ⟨resting, start⟩
  · exact clearing.quiet same untouched
  · refine clearing.restart untouched resting fun moving source => ?_
    obtain ⟨first, notDone⟩ := start moving
    exact ⟨first, notDone, (pick.picked (.inr moving) source).isClass⟩

/-! ### One chunk of the page -/

/-- What the mover may do to chunks before it looks for a place to copy to: chunks that were
not free stay as they are, and only free chunks of the page are cleared. -/
structure Searches (w w' : World) : Prop where
  kept : ∀ c, (w.header c).flag ≠ .slabbed → w'.header c = w.header c
  clears : ∀ p y, (w'.header (.cell p y)).flag = .cleared →
    (w.header (.cell p y)).flag = .cleared ∨ w.rebal.slabStart = some p
  rebal : w'.rebal = w.rebal
  same : SamePages w w'
  plain : ∀ p y, (w'.header (.cell p y)).rIt = (w.header (.cell p y)).rIt

theorem Searches.refl (w : World) : Searches w w :=
  ⟨fun _ _ => rfl, fun _ _ => .inl, rfl, ⟨fun _ => rfl, rfl, rfl⟩, fun _ _ => rfl⟩

theorem searches_takeSlot (stocked : Stocked cfg w) (layout : Layout cfg w) {id : Int}
    (isClass : cfg.isClass id = true) (taken : w.takeSlot id = some (it, w')) : Searches w w' := by
  obtain ⟨-, header, -, same⟩ := takeSlot_spec taken
  obtain ⟨-, -, free⟩ := stocked.takeSlot layout isClass taken
  refine ⟨fun c out => ?_, fun p y cleared => ?_, (w.takeSlot_uncut taken).rebal, same, fun p y => ?_⟩
  · rw [header, if_neg]
    rintro rfl
    exact out free
  · rw [header] at cleared
    split at cleared
    · cases cleared
    · exact .inl cleared
  · rw [header]
    split
    next here => rw [here]
    next => rfl

theorem Searches.trans {w'' : World} (first : Searches w w') (second : Searches w' w'') :
    Searches w w'' where
  kept c out := by
    have same := first.kept c out
    rw [second.kept c (by rw [same]; exact out), same]
  clears p y cleared := by
    rcases second.clears p y cleared with before | here
    · exact first.clears p y before
    · exact .inr (first.rebal ▸ here)
  rebal := second.rebal.trans first.rebal
  same := ⟨fun id => (second.same.pages id).trans (first.same.pages id),
    second.same.cut.trans first.same.cut, second.same.nextPage.trans first.same.nextPage⟩
  plain p y := (second.plain p y).trans (first.plain p y)

theorem inRange_page {c : Chunk} (inRange : w.inRange cfg c = true) :
    ∃ p y, c = .cell p y ∧ w.rebal.slabStart = some p := by
  cases c with
  | temp n => cases inRange
  | cell p y => exact ⟨p, y, rfl, (of_decide_eq_true inRange).1⟩

theorem clearTaken (stocked : Stocked cfg w') (searches : Searches w w')
    (free : (w.header it).flag = .slabbed) (used : (w'.header it).flag = .used)
    (inPage : ∃ p y, it = .cell p y ∧ w'.rebal.slabStart = some p) :
    Stocked cfg (w'.setHeader it fun h => { h with flag := .cleared }) ∧
      Searches w (w'.setHeader it fun h => { h with flag := .cleared }) := by
  obtain ⟨p, y, rfl, start⟩ := inPage
  have header := fun x => w'.setHeader_header (.cell p y) x fun h => { h with flag := .cleared }
  refine ⟨stocked.keep ⟨fun _ => rfl, rfl, rfl⟩ (fun _ => rfl) (fun _ => rfl) (fun q z => ?_)
    fun q z out => ?_, fun c out => ?_, fun q z cleared => ?_, searches.rebal,
    ⟨searches.same.pages, searches.same.cut, searches.same.nextPage⟩, fun q z => ?_⟩
  · rw [header]
    split
    next here => rw [here, used]; simp
    next => exact Iff.rfl
  · rw [header] at out ⊢
    split at out
    · simp [Flag.taken] at out
    next other =>
      rw [if_neg other]
      exact stocked.taken q z out
  · rw [header, if_neg, searches.kept c out]
    rintro rfl
    exact out free
  · rw [header] at cleared
    split at cleared
    next here =>
      cases here
      exact .inr (searches.rebal ▸ start)
    next => exact searches.clears q z cleared
  · rw [header]
    split
    next here => cases here; exact searches.plain _ _
    next => exact searches.plain q z

theorem slabRebalanceAlloc_spec {tries : Nat} {found : Option Chunk} (stocked : Stocked cfg w)
    (layout : Layout cfg w) (isClass : cfg.isClass w.rebal.sClsid = true)
    (called : w.slabRebalanceAlloc cfg tries = some (found, w')) :
    Stocked cfg w' ∧ Searches w w' ∧ ∀ new ∈ found, ∃ p y, new = .cell p y ∧
      InClass w w.rebal.sClsid new ∧ (w.header new).flag = .slabbed ∧
      (w'.header new).flag = .used ∧ w.rebal.slabStart ≠ some p := by
  induction tries generalizing w with
  | zero =>
    cases called
    exact ⟨stocked, .refl _, fun new some_ => by cases some_⟩
  | succ tries ih =>
    rw [World.slabRebalanceAlloc] at called
    by_cases none_ : (w.cls w.rebal.sClsid).slCurr = 0
    · rw [if_pos none_] at called
      cases called
      exact ⟨stocked, .refl _, fun new some_ => by cases some_⟩
    rw [if_neg none_] at called
    cases result : w.doSlabsAlloc cfg w.rebal.sClsid true with
    | none => simp [result] at called
    | some answer =>
      obtain ⟨chunk, after⟩ := answer
      rw [result] at called
      rcases w.doSlabsAlloc_of_free cfg none_ result with ⟨rfl, rfl⟩ | ⟨it, rfl, taken⟩
      · cases called
        exact ⟨stocked, .refl _, fun new some_ => by cases some_⟩
      obtain ⟨stocked', here, free⟩ := stocked.takeSlot layout isClass taken
      have searches := searches_takeSlot stocked layout isClass taken
      obtain ⟨-, header, -, -⟩ := takeSlot_spec taken
      have used : (after.header it).flag = .used := by rw [header, if_pos rfl]
      simp only at called
      split at called
      next inRange =>
        -- a chunk of the page itself is cleared, and the search goes on
        obtain ⟨stocked₂, searches₂⟩ := clearTaken stocked' searches free used (inRange_page inRange)
        set w₂ := after.setHeader it fun h => { h with flag := .cleared } with w₂_eq
        have rebal : w₂.rebal = w.rebal := searches₂.rebal
        obtain ⟨stocked₃, searches₃, news⟩ :=
          ih stocked₂ (layout.samePages searches₂.same) (by rw [rebal]; exact isClass) called
        refine ⟨stocked₃, searches₂.trans searches₃, fun new some_ => ?_⟩
        obtain ⟨p, y, rfl, there, free', used', other⟩ := news new some_
        rw [rebal] at there other
        refine ⟨p, y, rfl, (inClass_iff _ (searches₂.same.pages _) searches₂.same.cut).mp there, ?_, used',
          other⟩
        by_contra out
        rw [searches₂.kept _ out] at free'
        exact out free'
      next outside =>
        cases called
        refine ⟨stocked', searches, fun new some_ => ?_⟩
        cases some_
        cases it with
        | temp n => exact here.elim
        | cell p y =>
          refine ⟨p, y, rfl, here, free, used, fun start => outside ?_⟩
          obtain ⟨i, lists, -, bound⟩ := here
          rw [layout.even isClass lists] at bound
          rw [World.inRange, searches.rebal]
          exact decide_eq_true ⟨start, bound⟩

/-- What one chunk of the page going through the mover's hands comes to: it is cleared or
counted as busy, and only chunks of the page are cleared. -/
structure Empties (page pos : Nat) (w w' : World) : Prop where
  stays : ∀ y, (w.header (.cell page y)).flag = .cleared → (w'.header (.cell page y)).flag = .cleared
  clears : ∀ p y, (w'.header (.cell p y)).flag = .cleared →
    (w.header (.cell p y)).flag = .cleared ∨ p = page
  busy : w'.rebal.busyItems = 0 →
    w.rebal.busyItems = 0 ∧ (w'.header (.cell page pos)).flag = .cleared
  slabPos : w'.rebal.slabPos = w.rebal.slabPos
  done : w'.rebal.done = w.rebal.done
  same : SamePages w w'
  plain : (∀ p y, (w.header (.cell p y)).rIt = none) → ∀ p y, (w'.header (.cell p y)).rIt = none
  temps : ∀ n, (w.header (.temp n)).flag ≠ .slabbed → w'.header (.temp n) = w.header (.temp n)

/-- An item that cannot be kept is evicted, after a search for a place or without one. -/
theorem evict_spec (stocked : Stocked cfg w₁) (layout : Layout cfg w₁) (searches : Searches w w₁)
    (isClass : cfg.isClass w.rebal.sClsid = true) (start : w.rebal.slabStart = some page)
    (here : InClass w w.rebal.sClsid (.cell page pos))
    (linked : (w.header (.cell page pos)).flag = .linked) :
    Stocked cfg (w₁.evict cfg (.cell page pos)) ∧
      Empties page pos w (w₁.evict cfg (.cell page pos)) := by
  have kept := searches.kept (.cell page pos) (by rw [linked]; simp)
  have header := fun x => doSlabsFree_header cfg w₁ (.cell page pos) x (searches.rebal ▸ isClass)
  have pages := (w₁.doSlabsFree_uncut cfg (.cell page pos) w₁.rebal.sClsid).samePages
  have rebal := (w₁.doSlabsFree_uncut cfg (.cell page pos) w₁.rebal.sClsid).rebal.trans searches.rebal
  have freed : Stocked cfg (w₁.doSlabsFree cfg (.cell page pos) w₁.rebal.sClsid) := by
    rw [searches.rebal]
    refine stocked.doSlabsFree layout isClass ?_ (by rw [kept, linked]; simp)
    exact here.congr (searches.same.pages _) searches.same.cut
  refine ⟨freed.keep ⟨fun _ => rfl, rfl, rfl⟩ (fun _ => rfl) (fun _ => rfl) (fun _ _ => Iff.rfl)
    freed.taken, ?_⟩
  refine ⟨fun y cleared => ?_, fun p y cleared => ?_, fun none_ => ?_, ?_, ?_, ?_, fun plain p y => ?_,
    fun n out => ?_⟩
  · have other : y ≠ pos := by
      rintro rfl
      simp [linked] at cleared
    refine (congrArg Header.flag (header (.cell page y))).trans ?_
    rwa [if_neg (by simpa using other), searches.kept _ (by rw [cleared]; simp)]
  · rw [World.evict] at cleared
    have := (congrArg Header.flag (header (.cell p y))).symm.trans cleared
    split at this
    · cases this
    · exact (searches.clears p y this).imp id fun here => Option.some.inj (here.symm.trans start)
  · cases none_
  · exact (congrArg Rebal.slabPos rebal :)
  · exact (congrArg Rebal.done rebal :)
  · exact ⟨fun id => (pages.pages id).trans (searches.same.pages id),
      pages.cut.trans searches.same.cut, pages.nextPage.trans searches.same.nextPage⟩
  · refine (congrArg Header.rIt (header (.cell p y))).trans ?_
    split
    · exact (searches.plain page pos).trans (plain page pos)
    · exact (searches.plain p y).trans (plain p y)
  · refine (header (.temp n)).trans ?_
    rw [if_neg (by simp)]
    exact searches.kept _ out

/-- A rescued item leaves its chunk cleared. -/
theorem rescue_spec {new : Chunk} (stocked : Stocked cfg w₁) (layout : Layout cfg w)
    (searches : Searches w w₁) (start : w.rebal.slabStart = some page)
    (here : InClass w w.rebal.sClsid (.cell page pos))
    (linked : (w.header (.cell page pos)).flag = .linked)
    (found : ∃ p y, new = .cell p y ∧ InClass w w.rebal.sClsid new ∧
      (w.header new).flag = .slabbed ∧ (w₁.header new).flag = .used ∧ w.rebal.slabStart ≠ some p)
    (taken : (w.header (.cell page pos)).flag.taken → cfg.isClass (w.header (.cell page pos)).clsid = true ∧
      InClass w (w.header (.cell page pos)).clsid (.cell page pos)) :
    Stocked cfg (w₁.rescue (.cell page pos) new) ∧
      Empties page pos w (w₁.rescue (.cell page pos) new) := by
  obtain ⟨q, z, rfl, there, free, used, other⟩ := found
  have elsewhere : q ≠ page := fun same => other (same ▸ start)
  have kept := searches.kept (.cell page pos) (by rw [linked]; simp)
  have header : ∀ x, (w₁.rescue (.cell page pos) (.cell q z)).header x =
      if x = .cell page pos then { w.header (.cell page pos) with flag := .cleared }
      else if x = .cell q z then w.header (.cell page pos) else w₁.header x := by
    intro x
    rw [World.rescue, World.setHeader_header, World.setHeader_header, World.setHeader_header, kept]
    have different : Chunk.cell page pos ≠ .cell q z := fun same => elsewhere (by cases same; rfl)
    rw [if_neg different]
  -- the class of the item is the class of the page
  have owner : (w.header (.cell page pos)).clsid = w.rebal.sClsid :=
    layout.inClass_unique (taken (.inr linked)).2 here
  refine ⟨stocked.keep ⟨fun _ => rfl, rfl, rfl⟩ (fun _ => rfl) (fun _ => rfl) (fun p y => ?_)
    fun p y out => ?_, fun y cleared => ?_, fun p y cleared => ?_, fun none_ => ?_, ?_, ?_, ?_,
    fun plain p y => ?_, fun n out => ?_⟩
  · rw [header]
    split
    next same => rw [same, kept, linked]; simp
    split
    next same => rw [same, used, linked]; simp
    next => exact Iff.rfl
  · rw [header] at out ⊢
    split at out
    · simp [Flag.taken] at out
    next notIt =>
      rw [if_neg notIt]
      split at out
      next same =>
        rw [if_pos same, same, owner]
        exact ⟨owner ▸ (taken (.inr linked)).1, there.congr (searches.same.pages _) searches.same.cut⟩
      next notNew =>
        rw [if_neg notNew]
        exact stocked.taken p y out
  · rw [header]
    split
    · rfl
    rwa [if_neg fun same => elsewhere (by cases same; rfl), searches.kept _ (by rw [cleared]; simp)]
  · rw [header] at cleared
    split at cleared
    next same => cases same; exact .inr rfl
    split at cleared
    · rw [linked] at cleared; cases cleared
    · exact (searches.clears p y cleared).imp id fun here => Option.some.inj (here.symm.trans start)
  · refine ⟨(congrArg Rebal.busyItems searches.rebal).symm.trans none_, ?_⟩
    rw [header, if_pos rfl]
  · exact congrArg Rebal.slabPos searches.rebal
  · exact congrArg Rebal.done searches.rebal
  · exact ⟨searches.same.pages, searches.same.cut, searches.same.nextPage⟩
  · rw [header]
    split
    · exact plain page pos
    split
    · exact plain page pos
    · exact (searches.plain p y).trans (plain p y)
  · rw [header, if_neg (by simp), if_neg (by simp)]
    exact searches.kept _ out

theorem markBusy_spec (stocked : Stocked cfg w) (page pos : Nat) :
    Stocked cfg w.markBusy ∧ Empties page pos w w.markBusy :=
  ⟨stocked.keep ⟨fun _ => rfl, rfl, rfl⟩ (fun _ => rfl) (fun _ => rfl) (fun _ _ => Iff.rfl) stocked.taken,
    fun _ cleared => cleared, fun _ _ => .inl, fun none_ => (by cases none_), rfl, rfl,
    ⟨fun _ => rfl, rfl, rfl⟩, fun plain => plain, fun _ _ => rfl⟩

/-- Each way of emptying a chunk clears it or counts it as busy. -/
theorem emptyChunk_spec (stocked : Stocked cfg w) (layout : Layout cfg w)
    (isClass : cfg.isClass w.rebal.sClsid = true) (start : w.rebal.slabStart = some page)
    (here : InClass w w.rebal.sClsid (.cell page pos))
    (called : w.emptyChunk cfg (.cell page pos) found = some w') :
    Stocked cfg w' ∧ Empties page pos w w' := by
  simp only [World.emptyChunk] at called
  split at called
  case h_1 cleared =>
    cases called
    exact ⟨stocked, fun _ same => same, fun _ _ => .inl, fun none_ => ⟨none_, cleared⟩, rfl, rfl,
      ⟨fun _ => rfl, rfl, rfl⟩, fun plain => plain, fun _ _ => rfl⟩
  case h_2 free =>
    cases called
    obtain ⟨header, -, same⟩ := cutFree_spec w (.cell page pos)
    refine ⟨stocked.cutFree layout isClass here free, fun y cleared => ?_, fun p y cleared => ?_,
      fun none_ => ⟨none_, ?_⟩, rfl, rfl, same, fun plain p y => ?_, fun n _ => ?_⟩
    · rw [header]
      split
      · rfl
      · exact cleared
    · rw [header] at cleared
      split at cleared
      next same => cases same; exact .inr rfl
      next => exact .inl cleared
    · rw [header, if_pos rfl]
    · rw [header]
      split
      · exact plain page pos
      · exact plain p y
    · rw [header, if_neg (by simp)]
  case h_3 =>
    cases called
    exact markBusy_spec stocked page pos
  case h_4 linked =>
    cases found with
    | busy => cases called; exact markBusy_spec stocked page pos
    | expired =>
      cases called
      exact evict_spec stocked layout (.refl w) isClass start here linked
    | alive =>
      simp only at called
      cases result : w.slabRebalanceAlloc cfg (cfg.perslab w.rebal.sClsid) with
      | none => simp [result] at called
      | some answer =>
        obtain ⟨new, w₁⟩ := answer
        obtain ⟨stocked₁, searches, news⟩ := slabRebalanceAlloc_spec stocked layout isClass result
        simp only [result] at called
        cases new with
        | none =>
          cases called
          exact evict_spec stocked₁ (layout.samePages searches.same) searches isClass start here linked
        | some new =>
          cases called
          exact rescue_spec stocked₁ layout searches start here linked (news new rfl)
            (stocked.taken page pos)

/-! ### One step of the mover -/

theorem Clearing.next_inClass (clearing : Clearing cfg w) (layout : Layout cfg w)
    (picked : Picked cfg w) (moving : w.rebal.signal = .moving) (source : w.rebal.source = .slab)
    (notDone : w.rebal.done = false) (start : w.rebal.slabStart = some page) :
    InClass w w.rebal.sClsid (.cell page w.rebal.slabPos) := by
  obtain ⟨idx, toRelease, inUse, isLocal⟩ := picked.inside
  have listed : Lists w w.rebal.sClsid idx page := by
    refine ⟨inUse, ?_⟩
    rw [← toRelease, ← picked.start moving, start]
  exact ⟨idx, listed, isLocal, by rw [layout.even picked.isClass listed]; exact clearing.inside moving source notDone⟩

theorem Clearing.advance (clearing : Clearing cfg w)
    (moving : w.rebal.signal = .moving) (source : w.rebal.source = .slab)
    (notDone : w.rebal.done = false) (start : w.rebal.slabStart = some page)
    (work : SameWork w.rebal w'.rebal) (empties : Empties page w.rebal.slabPos w w') :
    Clearing cfg (w'.advance cfg) := by
  have inside := clearing.inside moving source notDone
  -- without busy chunks so far, all chunks up to this one are cleared
  have upTo : w'.rebal.busyItems = 0 → ∀ y < w.rebal.slabPos + 1,
      (w'.header (.cell page y)).flag = .cleared := by
    intro none_ y before
    obtain ⟨none', here⟩ := empties.busy none_
    rcases Nat.lt_succ_iff_lt_or_eq.mp before with earlier | rfl
    · exact empties.stays y (clearing.behind moving source none' page start y earlier)
    · exact here
  have rebal : (w'.advance cfg).rebal =
      if w.rebal.slabPos + 1 < cfg.perslab w.rebal.sClsid then
        { w'.rebal with slabPos := w.rebal.slabPos + 1 }
      else if w'.rebal.busyItems ≠ 0 then { w'.rebal with slabPos := 0, busyItems := 0 }
      else { w'.rebal with slabPos := w.rebal.slabPos + 1, done := true } := by
    simp only [World.advance, World.setRebal, empties.slabPos, work.sClsid]
  have told : (w'.advance cfg).rebal.slabStart = some page ∧ (w'.advance cfg).rebal.sClsid = w.rebal.sClsid ∧
      (w'.advance cfg).rebal.signal = .moving ∧ (w'.advance cfg).rebal.source = .slab := by
    rw [rebal]
    split
    · exact ⟨work.slabStart.trans start, work.sClsid, work.signal.trans moving, work.source.trans source⟩
    split <;>
      exact ⟨work.slabStart.trans start, work.sClsid, work.signal.trans moving, work.source.trans source⟩
  obtain ⟨start', sClsid', moving', source'⟩ := told
  refine ⟨fun {id p y} isClass there cleared => ?_, fun _ _ notDone' => ?_, fun _ _ none_ p has y before => ?_,
    fun _ _ done p has y before => ?_⟩
  · refine ⟨moving', source', start'.trans (congrArg some ?_)⟩
    rcases empties.clears p y cleared with before | here
    · have there' : InClass w id (.cell p y) := (inClass_iff _ (empties.same.pages id) empties.same.cut).mp there
      exact Option.some.inj (start.symm.trans (clearing.only isClass there' before).2.2)
    · exact here.symm
  · rw [sClsid']
    rw [rebal] at notDone' ⊢
    split
    next more => exact more
    next last =>
      rw [if_neg last] at notDone'
      split at notDone'
      next busy => rw [if_pos busy]; exact Nat.zero_lt_of_lt inside
      · cases notDone'
  · obtain rfl := Option.some.inj (start'.symm.trans has)
    rw [rebal] at none_ before
    split at none_
    next more => rw [if_pos more] at before; exact upTo none_ y before
    next last =>
      rw [if_neg last] at before
      split at none_
      next busy => rw [if_pos busy] at before; exact absurd before (Nat.not_lt_zero y)
      next idle => rw [if_neg idle] at before; exact upTo none_ y before
  · obtain rfl := Option.some.inj (start'.symm.trans has)
    rw [rebal] at done
    rw [sClsid'] at before
    have unfinished : w'.rebal.done = false := empties.done.trans notDone
    split at done
    · rw [unfinished] at done; cases done
    next last =>
      split at done
      · rw [unfinished] at done; cases done
      next idle => exact upTo (not_not.mp idle) y (by omega)

/-- One pass of the mover keeps the free lists and what it has cleared. -/
theorem move_spec (stocked : Stocked cfg w) (layout : Layout cfg w) (clearing : Clearing cfg w)
    (pick : PickInv cfg w) (called : w.slabRebalanceMove cfg found = some w') :
    Stocked cfg w' ∧ Clearing cfg w' ∧
      ((∀ p y, (w.header (.cell p y)).rIt = none) → ∀ p y, (w'.header (.cell p y)).rIt = none) ∧
      ∀ n, (w.header (.temp n)).flag ≠ .slabbed → w'.header (.temp n) = w.header (.temp n) := by
  obtain ⟨guard, called⟩ := Option.ite_none_left_eq_some.mp called
  have moving : w.rebal.signal = .moving := not_not.mp fun other => guard (.inl other)
  have notDone : w.rebal.done = false := Bool.not_eq_true _ ▸ fun done => guard (.inr done)
  split at called
  · cases called
  next page start =>
    split at called
    next receives =>
      cases called
      refine ⟨stocked.keep ⟨fun _ => rfl, rfl, rfl⟩ (fun _ => rfl) (fun _ => rfl) (fun _ _ => Iff.rfl)
        stocked.taken, ?_, fun plain => plain, fun _ _ => rfl⟩
      exact ⟨clearing.only, fun _ source => absurd source receives,
        fun _ source => absurd source receives, fun _ source => absurd source receives⟩
    next releases =>
      have source := not_not.mp releases
      have picked := pick.picked (.inr moving) source
      have here := clearing.next_inClass layout picked moving source notDone start
      obtain ⟨w₁, emptied, rfl⟩ := Option.map_eq_some_iff.mp called
      obtain ⟨stocked₁, empties⟩ := emptyChunk_spec stocked layout picked.isClass start here emptied
      refine ⟨stocked₁.keep ⟨fun _ => rfl, rfl, rfl⟩ (fun _ => rfl) (fun _ => rfl) (fun _ _ => Iff.rfl)
        stocked₁.taken, ?_, empties.plain, empties.temps⟩
      exact clearing.advance moving source notDone start (emptyChunk_keeps emptied).1 empties

end Clearing

end MemExchange.Slabs
